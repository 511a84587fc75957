import Mathlib.Algebra.Order.Ring.Int
import Mathlib.Data.List.Induction
import RegisterMachine.Proofs.Congruence
import RegisterMachine.Proofs.Contents

/-! # How fast the registers grow

An immediate is at most 255, and a sum is at most twice the greatest cell, even where a register is
added to itself. So the exact values stay below a bound that doubles with each addition, and up to
55 additions the bound fits a register: until then a register of 64 bits holds the exact value.
-/
namespace RegisterMachine

def Reachable (k : Nat) (cells : List Int) : Prop := ∀ c ∈ cells, 0 ≤ c ∧ c ≤ 255 * 2 ^ k

section Reachable
variable {k : Nat} {cells : List Int}

theorem two_pow_mono {j k : Nat} (h : j ≤ k) : (2 : Int) ^ j ≤ 2 ^ k :=
  pow_le_pow_right₀ (by decide) h

theorem Reachable.mono {j : Nat} (h : Reachable j cells) (hjk : j ≤ k) : Reachable k cells := by
  intro c hc
  have hpow := two_pow_mono hjk
  have hbound := h c hc
  omega

theorem Reachable.getD (h : Reachable k cells) (index : Nat) :
    0 ≤ cells.getD index 0 ∧ cells.getD index 0 ≤ 255 * 2 ^ k := by
  rw [List.getD_eq_getElem?_getD]
  cases hget : cells[index]? with
  | none =>
    have hpow := two_pow_mono (Nat.zero_le k)
    simp only [Option.getD_none]
    omega
  | some c => exact h c (List.mem_of_getElem? hget)

theorem Reachable.set {value : Int} (h : Reachable k cells)
    (hvalue : 0 ≤ value ∧ value ≤ 255 * 2 ^ k) (index : Nat) :
    Reachable k (cells.set index value) := by
  intro c hc
  rcases List.mem_or_eq_of_mem_set hc with hc | rfl
  · exact h c hc
  · exact hvalue

/-- What 55 additions can make fits a register. -/
theorem wrap_of_reachable {value : Int} (hk : k ≤ 55)
    (h : 0 ≤ value ∧ value ≤ 255 * 2 ^ k) : wrap value = value := by
  have hpow := two_pow_mono hk
  apply wrap_of_isCell
  rw [IsCell]
  omega

end Reachable

namespace Word

def isAdd (w : Word) : Bool := (Instruction.ofWord w).opcode = 2

def additions (words : List Word) : Nat := words.countP isAdd

theorem additions_concat (ws : List Word) (w : Word) :
    additions (ws ++ [w]) = additions ws + if w.isAdd then 1 else 0 := by
  rw [additions, additions, List.countP_append, List.countP_singleton]

theorem additions_le_concat (ws : List Word) (w : Word) :
    additions ws ≤ additions (ws ++ [w]) := by
  rw [additions_concat]
  exact Nat.le_add_right _ _

section Stored
variable {w : Word} {ws : List Word} {cells : List Int} {value : Int}

/-- One addition doubles the bound at most, and an immediate never exceeds it. -/
theorem stored_le (h : Reachable (additions ws) cells) (hvalue : w.stored? cells = some value) :
    0 ≤ value ∧ value ≤ 255 * 2 ^ additions (ws ++ [w]) := by
  unfold stored? Instruction.stored? at hvalue
  split at hvalue
  · have himm := Instruction.imm_ofWord w
    have hpow := two_pow_mono (Nat.zero_le (additions (ws ++ [w])))
    cases hvalue
    omega
  · rename_i hop
    have hcode : w.isAdd = true := by
      simpa [isAdd, Operation.opcode] using Instruction.operation?_eq_some_iff.1 hop
    have hleft := h.getD (Instruction.ofWord w).op2.toNat
    have hright := h.getD (Instruction.ofWord w).op3.toNat
    rw [additions_concat, if_pos hcode, pow_succ]
    cases hvalue
    omega
  · cases hvalue
  · cases hvalue

theorem effectWith_of_stored {fit : Int → Int} (h : w.stored? cells = some value) :
    w.effectWith fit cells = cells.set (Instruction.ofWord w).op1.toNat (fit value) := by
  rw [stored?] at h
  rw [effectWith, Instruction.effectWith, h]

theorem effectWith_of_stored_none {fit : Int → Int} (h : w.stored? cells = none) :
    w.effectWith fit cells = cells := by
  rw [stored?] at h
  rw [effectWith, Instruction.effectWith, h]

end Stored

/-- The exact cells after words. -/
theorem reachable_effectsWith_id (words : List Word) :
    Reachable (additions words) (effectsWith id [0, 0, 0, 0] words) := by
  induction words using List.reverseRecOn with
  | nil =>
    intro c hc
    have hzero : c = 0 := by simpa using hc
    subst hzero
    exact ⟨Int.le_refl 0, by decide⟩
  | append_singleton ws w ih =>
    rw [effectsWith_concat]
    have hmono := ih.mono (additions_le_concat ws w)
    cases hstored : w.stored? (effectsWith id [0, 0, 0, 0] ws) with
    | none => rwa [effectWith_of_stored_none hstored]
    | some value =>
      rw [effectWith_of_stored hstored]
      exact hmono.set (stored_le ih hstored) _

/-- As long as there are at most 55 additions it makes no difference that registers wrap. -/
theorem effectsWith_wrap_eq_id {words : List Word} (h : additions words ≤ 55) :
    effectsWith wrap [0, 0, 0, 0] words = effectsWith id [0, 0, 0, 0] words := by
  induction words using List.reverseRecOn with
  | nil => rfl
  | append_singleton ws w ih =>
    rw [effectsWith_concat, effectsWith_concat,
      ih (Nat.le_trans (additions_le_concat ws w) h)]
    cases hstored : w.stored? (effectsWith id [0, 0, 0, 0] ws) with
    | none => rw [effectWith_of_stored_none hstored, effectWith_of_stored_none hstored]
    | some value =>
      have hbound := stored_le (reachable_effectsWith_id ws) hstored
      rw [effectWith_of_stored hstored, effectWith_of_stored hstored, wrap_of_reachable h hbound,
        id_eq]

end Word

namespace Machine

/-- The cells of a machine, and those of the same machine with unbounded registers, after `n` rounds
that carry out the words. -/
structure GrowsExactly (words : List Word) (start : Machine) (n : Nat) : Prop where
  result : ((roundsWith id n).run start).result = .ok ()
  reachable : Reachable (Word.additions (words.take n))
    ((roundsWith id n).run start).machine.registers.cells
  exact : Word.additions (words.take n) ≤ 55 →
    ((rounds n).run start).machine.registers = ((roundsWith id n).run start).machine.registers
  nonneg : Word.additions (words.take n) ≤ 55 →
    ∀ c ∈ ((rounds n).run start).machine.registers.cells, 0 ≤ c
  unwrapped : Word.additions (words.take n) ≤ 55 → ∀ j < n, ∀ w value, words[j]? = some w →
    w.stored? ((rounds j).run start).machine.registers.cells = some value → wrap value = value

section Growth
variable {words : List Word} {strict : Bool} {sink : Sink} {n : Nat}

theorem additions_take_le {j : Nat} (hj : j ≤ n) (words : List Word) :
    Word.additions (words.take j) ≤ Word.additions (words.take n) := by
  have hprefix : words.take j <+: words.take n := List.take_prefix_take_left hj
  exact hprefix.sublist.countP_le

/-- A machine with unbounded registers carries out the same words. -/
theorem result_roundsWith_id (words : List Word) (strict : Bool) (sink : Sink) (n : Nat) :
    ((roundsWith id n).run (boot (.ofWords words) strict sink)).result =
      ((rounds n).run (boot (.ofWords words) strict sink)).result := by
  have hfit : ∀ a b, Congruent a b → Congruent (wrap a) (id b) :=
    fun a _ hab => (congruent_wrap a).trans hab
  have hboot : (boot (.ofWords words) strict sink).Agrees (boot (.ofWords words) strict sink) :=
    .mk (List.forall₂_same.2 fun _ _ => Int.ModEq.rfl)
  rw [← roundsWith_wrap]
  exact (agrees_roundsWith hfit n _ _ hboot).result.eq.symm

theorem growsExactly_boot
    (h : ((rounds n).run (boot (.ofWords words) strict sink)).result = .ok ()) :
    GrowsExactly words (boot (.ofWords words) strict sink) n := by
  have hid := (result_roundsWith_id words strict sink n).trans h
  have hexact : ∀ j ≤ n, Word.additions (words.take n) ≤ 55 →
      ((rounds j).run (boot (.ofWords words) strict sink)).machine.registers.cells =
        Word.effectsWith id [0, 0, 0, 0] (words.take j) := by
    intro j hj hadditions
    rw [cells_rounds_boot (result_rounds_of_le h hj), Word.cellsAfter, ← Word.effectsWith_wrap]
    exact Word.effectsWith_wrap_eq_id (Nat.le_trans (additions_take_le hj words) hadditions)
  refine ⟨hid, ?_, ?_, ?_, ?_⟩
  · rw [cells_roundsWith_boot hid]
    exact Word.reachable_effectsWith_id _
  · intro hadditions
    have hcells := (hexact n (Nat.le_refl n) hadditions).trans (cells_roundsWith_boot hid).symm
    exact congrArg RegisterFile.mk hcells
  · intro hadditions c hc
    rw [hexact n (Nat.le_refl n) hadditions] at hc
    exact (Word.reachable_effectsWith_id _ c hc).1
  · intro hadditions j hj w value hw hstored
    rw [hexact j (Nat.le_of_lt hj) hadditions] at hstored
    have htake : words.take (j + 1) = words.take j ++ [w] := by
      obtain ⟨hlt, rfl⟩ := List.getElem?_eq_some_iff.1 hw
      rw [List.take_succ_eq_append_getElem hlt]
    have hle := additions_take_le hj words
    have hbound := Word.stored_le (Word.reachable_effectsWith_id _) hstored
    rw [← htake] at hbound
    exact wrap_of_reachable (Nat.le_trans hle hadditions) hbound

end Growth

section Doubling

theorem wrap_wrap_mul (a b : Int) : wrap (wrap a * b) = wrap (a * b) :=
  wrap_congr ((congruent_wrap a).mul_right b)

/-- The word `0x2000` adds the first register to itself. -/
theorem effects_replicate_double {c : Int} (h : IsCell c) (n : Nat) :
    Word.effects [c, 0, 0, 0] (List.replicate n 0x2000) = [wrap (c * 2 ^ n), 0, 0, 0] := by
  induction n generalizing c with
  | zero => simp [wrap_of_isCell h]
  | succ n ih =>
    have hdouble : Word.effect 0x2000 [c, 0, 0, 0] = [wrap (c + c), 0, 0, 0] := rfl
    have hpow : (c + c) * 2 ^ n = c * 2 ^ (n + 1) := by
      rw [pow_succ', ← mul_two, mul_assoc]
    rw [List.replicate_succ, Word.effects_cons, hdouble, ih (isCell_wrap _), wrap_wrap_mul, hpow]

/-- Loads 255, adds it to itself so many times and halts. -/
def doublings (n : Nat) : List Word := 0x10FF :: List.replicate n 0x2000 ++ [0x0000]

theorem additions_doublings (n : Nat) : Word.additions (doublings n) = n := by
  rw [Word.additions, doublings, List.cons_append, List.countP_cons_of_neg (by decide),
    List.countP_append, List.countP_replicate, if_pos (by decide), List.countP_singleton,
    if_neg (by decide), Nat.add_zero]

/-- A program of doublings ends with what they make of 255. -/
theorem execute_doublings (n : Nat) (strict : Bool) :
    (execute (.ofWords (doublings n)) strict .endless).result = .ok () ∧
      (execute (.ofWords (doublings n)) strict .endless).machine.registers.cells =
        [wrap (255 * 2 ^ n), 0, 0, 0] := by
  have htake : (doublings n).take (n + 1) = 0x10FF :: List.replicate n 0x2000 := by
    simp [doublings]
  have hgoOn : ∀ v ∈ (doublings n).take (n + 1), ¬ v.Stops strict := by
    rw [htake]
    intro v hv
    rcases List.mem_cons.1 hv with rfl | hv
    · cases strict <;> decide
    · rw [List.eq_of_mem_replicate hv]
      cases strict <;> decide
  have hw : (doublings n)[n + 1]? = some 0x0000 := by simp [doublings]
  rw [execute_of_halt hgoOn hw rfl, htake]
  have hloaded : IsCell 255 := by simp [IsCell]
  exact ⟨rfl, effects_replicate_double hloaded n⟩

end Doubling

/-- Whatever a machine executes, the exact value of each cell is at least zero and at most 255
doubled as often as something was added. Up to 55 additions nothing that was written has wrapped,
and the registers hold the exact values. An execution that its sink cuts off ends like one of these
rounds. With 56 additions a register can have become negative. -/
theorem execute_growsExactly :
    (∀ (words : List Word) (strict : Bool),
      let start := boot (.ofWords words) strict .endless
      ∃ N ≤ words.length, Completes start N ∧ (∀ n ≤ N, GrowsExactly words start n) ∧
        (execute (.ofWords words) strict .endless).machine.registers =
          ((rounds N).run start).machine.registers ∧
        ∀ sink, ∃ n ≤ N, (execute (.ofWords words) strict sink).machine.registers =
          ((rounds n).run start).machine.registers) ∧
    ∃ words, Word.additions words = 56 ∧ ∀ strict,
      (execute (.ofWords words) strict .endless).result = .ok () ∧
      ∃ c ∈ (execute (.ofWords words) strict .endless).machine.registers.cells, c < 0 := by
  constructor
  · intro words strict start
    obtain ⟨N, hN, hleaves⟩ := execute_leaves words strict
    refine ⟨N, hN, hleaves.completes, ?_, ?_, ?_⟩
    · intro n hn
      exact growsExactly_boot (result_rounds_of_le hleaves.completes.1 hn)
    · have hcells := hleaves.cells.trans (cells_rounds_boot hleaves.completes.1).symm
      exact congrArg RegisterFile.mk hcells
    · intro sink
      obtain ⟨n, hresult, hregisters⟩ := registers_execute words strict sink
      exact ⟨n, hleaves.completes.2 n hresult, hregisters⟩
  · refine ⟨doublings 56, additions_doublings 56, ?_⟩
    intro strict
    obtain ⟨hresult, hcells⟩ := execute_doublings 56 strict
    refine ⟨hresult, wrap (255 * 2 ^ 56), ?_, by decide +kernel⟩
    rw [hcells]
    exact List.mem_cons_self

end Machine
end RegisterMachine
