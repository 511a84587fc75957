import Mathlib.Data.List.Forall2
import RegisterMachine.Proofs.Reassembly

/-! # Issued words

Which words come of commands. A command is issued as the word that has its operation and operands,
if all its registers exist and its immediate is a byte; a halt is issued as the one word without
other bits. Commands are issued as one word for each of them.
-/
namespace RegisterMachine

theorem Except.bind_eq_ok_iff {ε α β : Type} {x : Except ε α} {f : α → Except ε β} {b : β} :
    x.bind f = .ok b ↔ ∃ a, x = .ok a ∧ f a = .ok b := by
  cases x <;> simp [Except.bind]

namespace Word

section Pack
variable {opcode op1 op2 op3 : Int}

theorem toNat_pack (h0 : 0 ≤ opcode ∧ opcode ≤ 15) (h1 : 0 ≤ op1 ∧ op1 ≤ 15)
    (h2 : 0 ≤ op2 ∧ op2 ≤ 15) (h3 : 0 ≤ op3 ∧ op3 ≤ 15) :
    ((pack opcode op1 op2 op3).toNat : Int) = 4096 * opcode + 256 * op1 + 16 * op2 + op3 := by
  rw [pack, toNat_ofInt, Int.emod_eq_of_lt] <;> omega

theorem ofWord_pack (h0 : 0 ≤ opcode ∧ opcode ≤ 15) (h1 : 0 ≤ op1 ∧ op1 ≤ 15)
    (h2 : 0 ≤ op2 ∧ op2 ≤ 15) (h3 : 0 ≤ op3 ∧ op3 ≤ 15) :
    Instruction.ofWord (pack opcode op1 op2 op3) =
      ⟨opcode, op1, op2, op3, 16 * op2 + op3⟩ := by
  have htoNat := toNat_pack h0 h1 h2 h3
  simp only [Instruction.ofWord, Instruction.mk.injEq]
  omega

end Pack

def Assembled (w : Word) : Prop :=
  let i := Instruction.ofWord w
  w = 0 ∨ (i.opcode = 1 ∧ i.op1 ≤ 3) ∨ (i.opcode = 2 ∧ i.op1 ≤ 3 ∧ i.op2 ≤ 3 ∧ i.op3 ≤ 3)

section Assembled
variable {w : Word}

theorem Assembled.assembles (h : w.Assembled) : w.Assembles := by
  rcases h with rfl | h | h
  · exact .inl rfl
  · exact .inr (.inl h)
  · exact .inr (.inr h)

theorem Assembled.canonical_eq (h : w.Assembled) : w.canonical = w := by
  rcases h with rfl | h | h
  · rfl
  · simp [canonical, h.1]
  · simp [canonical, h.1]

theorem Assembled.eq_zero (h : w.Assembled) (hop : (Instruction.ofWord w).operation? = some .halt) :
    w = 0 := by
  have hcode : (Instruction.ofWord w).opcode = 0 := Instruction.operation?_eq_some_iff.1 hop
  rcases h with h | h | h
  · exact h
  · omega
  · omega

end Assembled
end Word

namespace Assembly

section Issue
variable {line : Nat} {r n : Int} {ns rs : List Int} {op : Operation} {w : Word}

theorem checkRegister_eq_ok_iff {line : Int} : checkRegister line r = .ok () ↔ 0 ≤ r ∧ r ≤ 3 := by
  have hsize : RegisterFile.standardSize = 4 := rfl
  rw [checkRegister, hsize]
  split
  · simp only [true_iff]
    omega
  · simp only [reduceCtorEq, false_iff]
    omega

theorem checkRegisters_eq_ok_iff {line : Int} :
    checkRegisters line rs = .ok () ↔ ∀ r ∈ rs, 0 ≤ r ∧ r ≤ 3 := by
  induction rs with
  | nil => simp [checkRegisters]
  | cons r rs ih =>
    have hbind : checkRegisters line (r :: rs) =
        (checkRegister line r).bind fun _ => checkRegisters line rs := rfl
    rw [hbind, Except.bind_eq_ok_iff, List.forall_mem_cons, ← ih,
      ← @checkRegister_eq_ok_iff r line]
    constructor
    · rintro ⟨_, h⟩
      exact h
    · intro h
      exact ⟨(), h⟩

theorem checkImmediate_eq_ok_iff {line : Int} :
    checkImmediate line n = .ok () ↔ 0 ≤ n ∧ n ≤ 255 := by
  rw [checkImmediate, byte_eq]
  split <;> simp_all

/-- A word that is assembled is issued for its own operation and operands. -/
theorem issue_of_assembled (h : w.Assembled) (hop : (Instruction.ofWord w).operation? = some op) :
    issue op.opcode (Instruction.ofWord w).operands line = .ok w := by
  rw [issue_ofWord hop, reissue, ((assembles_iff w).1 h.assembles).2, h.canonical_eq]

theorem exists_assembled_loadi (hr : 0 ≤ r ∧ r ≤ 3) (hn : 0 ≤ n ∧ n ≤ 255) :
    ∃ w : Word, w.Assembled ∧ (Instruction.ofWord w).operation? = some .loadi ∧
      (Instruction.ofWord w).operands = [r, n] := by
  have hsum : 16 * (n / 16) + n % 16 = n := by omega
  have hw := @Word.ofWord_pack 1 r (n / 16) (n % 16) (by omega) (by omega) (by omega) (by omega)
  rw [hsum] at hw
  have hop : (Instruction.ofWord (Word.pack 1 r (n / 16) (n % 16))).operation? = some .loadi := by
    rw [hw]
    rfl
  refine ⟨Word.pack 1 r (n / 16) (n % 16), .inr (.inl ?_), hop, ?_⟩
  · rw [hw]
    exact ⟨rfl, hr.2⟩
  · rw [Instruction.operands, hop, hw]

theorem exists_assembled_add {a b c : Int} (h : ∀ r ∈ [a, b, c], 0 ≤ r ∧ r ≤ 3) :
    ∃ w : Word, w.Assembled ∧ (Instruction.ofWord w).operation? = some .add ∧
      (Instruction.ofWord w).operands = [a, b, c] := by
  simp only [List.forall_mem_cons, List.not_mem_nil, IsEmpty.forall_iff, implies_true,
    and_true] at h
  obtain ⟨ha, hb, hc⟩ := h
  have hw := @Word.ofWord_pack 2 a b c (by omega) (by omega) (by omega) (by omega)
  have hop : (Instruction.ofWord (Word.pack 2 a b c)).operation? = some .add := by
    rw [hw]
    rfl
  refine ⟨Word.pack 2 a b c, .inr (.inr ?_), hop, ?_⟩
  · rw [hw]
    exact ⟨rfl, ha.2, hb.2, hc.2⟩
  · rw [Instruction.operands, hop, hw]

theorem exists_issueLoadi (hr : 0 ≤ r ∧ r ≤ 3) (hn : 0 ≤ n ∧ n ≤ 255) :
    ∃ w, issueLoadi line [r, n] = .ok w := by
  obtain ⟨w, hw, hop, hns⟩ := exists_assembled_loadi hr hn
  have hissue : issueLoadi line (Instruction.ofWord w).operands = .ok w := issue_of_assembled hw hop
  rw [hns] at hissue
  exact ⟨w, hissue⟩

theorem exists_issueAdd {a b c : Int} (h : ∀ r ∈ [a, b, c], 0 ≤ r ∧ r ≤ 3) :
    ∃ w, issueAdd line [a, b, c] = .ok w := by
  obtain ⟨w, hw, hop, hns⟩ := exists_assembled_add h
  have hissue : issueAdd line (Instruction.ofWord w).operands = .ok w := issue_of_assembled hw hop
  rw [hns] at hissue
  exact ⟨w, hissue⟩

/-- The operands of a `loadi` that is issued are those of an assembled word. -/
theorem exists_assembled_of_issueLoadi {line : Int} (h : issueLoadi line ns = .ok w) :
    ∃ v : Word, v.Assembled ∧ (Instruction.ofWord v).operation? = some .loadi ∧
      (Instruction.ofWord v).operands = ns := by
  match ns, h with
  | [r, n], h =>
    obtain ⟨_, hr, h⟩ := Except.bind_eq_ok_iff.1 h
    obtain ⟨_, hn, _⟩ := Except.bind_eq_ok_iff.1 h
    exact exists_assembled_loadi (checkRegister_eq_ok_iff.1 hr) (checkImmediate_eq_ok_iff.1 hn)

theorem exists_assembled_of_issueAdd {line : Int} (h : issueAdd line ns = .ok w) :
    ∃ v : Word, v.Assembled ∧ (Instruction.ofWord v).operation? = some .add ∧
      (Instruction.ofWord v).operands = ns := by
  obtain ⟨_, hrs, h⟩ := Except.bind_eq_ok_iff.1 h
  have hrs := checkRegisters_eq_ok_iff.1 hrs
  match ns, h with
  | [a, b, c], _ => exact exists_assembled_add hrs

/-- A command is issued as the assembled word with its operation and operands, if there is one.
What a halt has for operands makes no difference. -/
theorem issue_eq_ok_iff : issue op.opcode ns line = .ok w ↔
    w.Assembled ∧ (Instruction.ofWord w).operation? = some op ∧
      (op = .halt ∨ (Instruction.ofWord w).operands = ns) := by
  constructor
  · intro h
    have hunique : ∀ v : Word, v.Assembled → (Instruction.ofWord v).operation? = some op →
        (Instruction.ofWord v).operands = ns → w = v := by
      intro v hv hop hns
      rw [← hns, issue_of_assembled hv hop] at h
      cases h
      rfl
    cases op with
    | halt =>
      cases h
      exact ⟨.inl rfl, rfl, .inl rfl⟩
    | loadi =>
      obtain ⟨v, hv, hop, hns⟩ := exists_assembled_of_issueLoadi h
      rw [hunique v hv hop hns]
      exact ⟨hv, hop, .inr hns⟩
    | add =>
      obtain ⟨v, hv, hop, hns⟩ := exists_assembled_of_issueAdd h
      rw [hunique v hv hop hns]
      exact ⟨hv, hop, .inr hns⟩
  · rintro ⟨hw, hop, rfl | rfl⟩
    · rw [hw.eq_zero hop]
      rfl
    · exact issue_of_assembled hw hop

end Issue

def Command.Issues (c : Command) (w : Word) : Prop :=
  issue c.operation.opcode c.operands c.line = .ok w

/-- Commands that are assembled give one word for each of them, in their order. -/
theorem result_ofCommands_eq_ok_iff {cs : List Command} {words : List Word} :
    (ofCommands cs).result = .ok words ↔ List.Forall₂ Command.Issues cs words := by
  constructor
  · intro h
    induction cs generalizing words with
    | nil =>
      cases h
      exact .nil
    | cons c cs ih =>
      rw [ofCommands] at h
      split at h
      · rename_i w hw
        cases hrest : (ofCommands cs).result with
        | error e => simp [hrest, Except.map] at h
        | ok ws =>
          simp only [hrest, Except.map] at h
          cases h
          exact .cons hw (ih hrest)
      · cases h
  · intro h
    induction h with
    | nil => rfl
    | @cons c w cs ws hc _ ih =>
      have hissue : issue c.operation.opcode c.operands c.line = .ok w := hc
      rw [ofCommands, hissue]
      simp [ih, Except.map]

end Assembly
end RegisterMachine
