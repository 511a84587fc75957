import Mathlib.Data.List.Find
import RegisterMachine.Proofs.Evaluation
import RegisterMachine.Proofs.Rounds

/-! # The reference run

What words do is said here without a machine: how each of them changes the cells, which lines are
traced and which events noted as they follow one another. A machine that takes all lines goes
through the same cells, lines and events, round by round, up to the first word that faults.
-/
namespace RegisterMachine

theorem RegisterFile.absence_of_small {r : RegisterFile} {index : Int}
    (h : index.natAbs < 1000) : r.absence index = .noRegister index r.size := by
  have hw : ∀ n ∈ [index], Numeral.Writable n := by
    simpa using Numeral.writable_of_lt h
  rw [absence, Numeral.naming, if_pos hw]

namespace Word

/-- The cells after a word. An immediate replaces a cell, a sum is reduced to 64 bits and replaces
a cell, and any other word changes nothing. -/
def effect (w : Word) (cells : List Int) : List Int :=
  let i := Instruction.ofWord w
  if i.opcode = 1 then cells.set i.op1.toNat i.imm
  else if i.opcode = 2 then
    cells.set i.op1.toNat (wrap (cells.getD i.op2.toNat 0 + cells.getD i.op3.toNat 0))
  else cells

def isHalt (w : Word) : Bool := (Instruction.ofWord w).opcode = 0

/-- The word ends a run: it halts, it uses a register above `r3`, or its opcode is unknown to a
strict machine. -/
def Stops (strict : Bool) (w : Word) : Prop :=
  let i := Instruction.ofWord w
  i.opcode = 0 ∨ (i.opcode = 1 ∧ 3 < i.op1) ∨
    (i.opcode = 2 ∧ (3 < i.op1 ∨ 3 < i.op2 ∨ 3 < i.op3)) ∨ (strict = true ∧ 2 < i.opcode)

instance (strict : Bool) : DecidablePred (Stops strict) :=
  fun _ => inferInstanceAs (Decidable (_ ∨ _))

theorem effect_ofWord (w : Word) (cells : List Int) :
    (Instruction.ofWord w).effect cells = w.effect cells := by
  have hi := Instruction.imm_ofWord w
  unfold Instruction.effect effect
  cases hop : (Instruction.ofWord w).operation? with
  | none => simp [Instruction.operation?_eq_none_iff.1 hop]
  | some op =>
    have ho := Instruction.operation?_eq_some_iff.1 hop
    cases op <;> simp [ho, Operation.opcode, wrap_of_small hi.1 hi.2]

@[simp] theorem length_effect (w : Word) (cells : List Int) :
    (w.effect cells).length = cells.length := by
  rw [← effect_ofWord, Instruction.length_effect]

def effects (cells : List Int) (words : List Word) : List Int :=
  words.foldl (fun cells w => w.effect cells) cells

@[simp] theorem effects_nil (cells : List Int) : effects cells [] = cells := rfl

@[simp] theorem effects_cons (cells : List Int) (w : Word) (ws : List Word) :
    effects cells (w :: ws) = effects (w.effect cells) ws := rfl

@[simp] theorem length_effects (cells : List Int) (words : List Word) :
    (effects cells words).length = cells.length := by
  induction words generalizing cells with
  | nil => rfl
  | cons w ws ih => rw [effects_cons, ih, length_effect]

def traceFrom (cells : List Int) : List Word → List String
  | [] => []
  | w :: ws =>
    w.disassemble :: RegisterFile.snapshot ⟨w.effect cells⟩ :: traceFrom (w.effect cells) ws

def eventsFrom (address : Nat) (cells : List Int) : List Word → List Event
  | [] => []
  | w :: ws =>
    (Instruction.ofWord w).notes address ++ .state (address + 1) (w.effect cells) ::
      eventsFrom (address + 1) (w.effect cells) ws

def cellsAfter (words : List Word) : List Int := effects [0, 0, 0, 0] words

/-- The lines of words from four zeros on, beginning with the cells before the first word. -/
def trace (words : List Word) : List String :=
  RegisterFile.snapshot ⟨[0, 0, 0, 0]⟩ :: traceFrom [0, 0, 0, 0] words

def events (words : List Word) : List Event := eventsFrom 0 [0, 0, 0, 0] words

theorem effects_concat (cells : List Int) (ws : List Word) (w : Word) :
    effects cells (ws ++ [w]) = w.effect (effects cells ws) := by
  simp [effects]

theorem traceFrom_concat (cells : List Int) (ws : List Word) (w : Word) :
    traceFrom cells (ws ++ [w]) = traceFrom cells ws ++
      [w.disassemble, RegisterFile.snapshot ⟨w.effect (effects cells ws)⟩] := by
  induction ws generalizing cells with
  | nil => rfl
  | cons v ws ih => simp [traceFrom, ih]

theorem eventsFrom_concat (address : Nat) (cells : List Int) (ws : List Word) (w : Word) :
    eventsFrom address cells (ws ++ [w]) = eventsFrom address cells ws ++
      ((Instruction.ofWord w).notes (address + ws.length : Nat) ++
        [.state (address + ws.length + 1) (w.effect (effects cells ws))]) := by
  induction ws generalizing address cells with
  | nil => rfl
  | cons v ws ih =>
    simp only [List.cons_append, eventsFrom, ih, List.length_cons, effects_cons]
    simp [Nat.add_assoc, Nat.add_comm 1]

theorem length_traceFrom (cells : List Int) (words : List Word) :
    (traceFrom cells words).length = 2 * words.length := by
  induction words generalizing cells with
  | nil => rfl
  | cons w ws ih =>
    simp only [traceFrom, List.length_cons, ih]
    omega

theorem lookups_ofWord (w : Word) :
    ∀ index ∈ (Instruction.ofWord w).lookups, 0 ≤ index ∧ index < 16 := by
  intro index h
  unfold Instruction.lookups at h
  split at h
  · rw [List.mem_singleton.1 h]
    exact Instruction.op1_ofWord w
  · simp only [List.mem_cons, List.not_mem_nil, or_false] at h
    rcases h with rfl | rfl | rfl
    · exact Instruction.op2_ofWord w
    · exact Instruction.op3_ofWord w
    · exact Instruction.op1_ofWord w
  · cases h
  · cases h

/-- The registers that a decoded instruction misses are those above `r3`. -/
theorem missing?_ofWord (w : Word) :
    (Instruction.ofWord w).missing? 4 = (Instruction.ofWord w).lookups.find? (3 < ·) := by
  apply List.find?_congr
  intro index hindex
  have h0 := lookups_ofWord w index hindex
  simp only [decide_eq_decide]
  omega

section Stop
variable {w : Word} {strict : Bool} {r : RegisterFile}

theorem isHalt_of_not_stops (h : ¬ w.Stops strict) : w.isHalt = false := by
  simp only [Stops, not_or] at h
  simpa [isHalt] using h.1

theorem fault?_of_halt (h : w.isHalt = true) (r : RegisterFile) (strict : Bool) (address : Int) :
    (Instruction.ofWord w).fault? r strict address = none := by
  have hop : (Instruction.ofWord w).operation? = some .halt := by
    rw [Instruction.operation?_eq_some_iff]
    simpa [isHalt, Operation.opcode] using h
  simp [Instruction.fault?, Instruction.missing?, Instruction.lookups, hop]

theorem fault?_of_not_stops (h : ¬ w.Stops strict) (hr : r.size = 4) (address : Int) :
    (Instruction.ofWord w).fault? r strict address = none := by
  have h0 := Instruction.opcode_ofWord w
  simp only [Stops, not_or, not_and] at h
  obtain ⟨-, hloadi, hadd, hunknown⟩ := h
  cases hop : (Instruction.ofWord w).operation? with
  | some op =>
    have hcode := Instruction.operation?_eq_some_iff.1 hop
    have hnone : (Instruction.ofWord w).missing? 4 = none := by
      rw [missing?_ofWord, List.find?_eq_none]
      cases op with
      | halt => simp [Instruction.lookups, hop]
      | loadi => simpa [Instruction.lookups, hop] using hloadi hcode
      | add =>
        have := hadd hcode
        simp [Instruction.lookups, hop]
        omega
    simp [Instruction.fault?, hop, hr, hnone]
  | none =>
    have hcode := Instruction.operation?_eq_none_iff.1 hop
    have hstrict : strict = false := by
      cases strict with
      | false => rfl
      | true =>
        have := hunknown rfl
        omega
    simp [Instruction.fault?, hop, hstrict]

theorem fault?_of_lookup {index : Int}
    (h : (Instruction.ofWord w).lookups.find? (3 < ·) = some index) (hr : r.size = 4)
    (address : Int) :
    (Instruction.ofWord w).fault? r strict address = some (.noRegister index 4) := by
  have hb := lookups_ofWord w index (List.mem_of_find?_eq_some h)
  have ha : r.absence index = .noRegister index 4 := by
    rw [RegisterFile.absence_of_small (by omega), hr]
  cases hop : (Instruction.ofWord w).operation? with
  | some op => simp [Instruction.fault?, hop, hr, missing?_ofWord, h, ha]
  | none => simp [Instruction.lookups, hop] at h

theorem fault?_of_unknown (h : 2 < (Instruction.ofWord w).opcode) (address : Int) :
    (Instruction.ofWord w).fault? r true address =
      some (.unknownOpcode (Instruction.ofWord w).opcode address) := by
  have hop : (Instruction.ofWord w).operation? = none := by
    rw [Instruction.operation?_eq_none_iff]
    omega
  simp [Instruction.fault?, hop]

end Stop
end Word

namespace Machine
open Routine

/-- A machine in the middle of a run, about to fetch the word at `pc`, that takes all lines. -/
def amid (words : List Word) (pc : Nat) (cells : List Int) (strict : Bool) : Machine where
  program := ⟨words, pc⟩
  registers := ⟨cells⟩
  running := true
  strict := strict
  sink := .endless

def beyond (words : List Word) (pc : Nat) (cells : List Int) (strict : Bool) (w : Word) : Machine :=
  { amid words (pc + 1) (w.effect cells) strict with running := !w.isHalt }

section Round
variable {words : List Word} {pc : Nat} {cells : List Int} {strict : Bool} {w : Word}

theorem beyond_of_not_halt (h : w.isHalt = false) :
    beyond words pc cells strict w = amid words (pc + 1) (w.effect cells) strict := by
  simp [beyond, h, amid]

theorem carryOut_amid :
    (Instruction.ofWord w).carryOut (amid words (pc + 1) cells strict) =
      beyond words pc cells strict w := by
  have hr : decide ((Instruction.ofWord w).operation? ≠ some .halt) = !w.isHalt := by
    simp [Word.isHalt, Instruction.operation?_eq_some_iff, Operation.opcode]
  simp [Instruction.carryOut, beyond, amid, Word.effect_ofWord, ← hr]

theorem run_fetch_of_some (hw : words[pc]? = some w) :
    fetch.run (amid words pc cells strict) = ⟨amid words (pc + 1) cells strict, [], [], .ok w⟩ := by
  simp [fetch, amid, Program.fetch, hw]

theorem run_fetch_of_none (hw : words.length ≤ pc) :
    fetch.run (amid words pc cells strict) =
      ⟨amid words pc cells strict, [], [], .error (.pastEnd pc words.length)⟩ := by
  simp [fetch, amid, Program.fetch, hw, Program.size]

@[simp] theorem running_amid : (amid words pc cells strict).running = true := rfl

@[simp] theorem room_amid : (amid words pc cells strict).sink.room = none := rfl

@[simp] theorem lastAddress_amid : (amid words (pc + 1) cells strict).lastAddress = pc := by
  simp [lastAddress, amid]

theorem run_round_of_none (hw : words[pc]? = some w)
    (h : (Instruction.ofWord w).fault? ⟨cells⟩ strict pc = none) :
    round.run (amid words pc cells strict) =
      ⟨beyond words pc cells strict w,
        [w.disassemble, RegisterFile.snapshot ⟨w.effect cells⟩],
        (Instruction.ofWord w).notes pc ++ [.state (pc + 1) (w.effect cells)], .ok ()⟩ := by
  have he := run_evaluate_of_none (m := amid words (pc + 1) cells strict) room_amid
    (Instruction.describable_ofWord w) (by rw [lastAddress_amid]; exact h)
  have hs : showRegisters.run (beyond words pc cells strict w) =
      ⟨beyond words pc cells strict w, [RegisterFile.snapshot ⟨w.effect cells⟩], [], .ok ()⟩ :=
    run_showRegisters_of_endless rfl
  simp [round, step, run_fetch_of_some hw, he, carryOut_amid, hs, logState, Word.disassemble]
  simp [beyond, amid]

theorem run_round_of_some {e : Fault} (hw : words[pc]? = some w)
    (h : (Instruction.ofWord w).fault? ⟨cells⟩ strict pc = some e) :
    round.run (amid words pc cells strict) =
      ⟨amid words (pc + 1) cells strict,
        if (Instruction.ofWord w).operation?.isSome then [w.disassemble] else [], [],
        .error e⟩ := by
  have he := run_evaluate_of_some (m := amid words (pc + 1) cells strict) room_amid
    (Instruction.describable_ofWord w) (by rw [lastAddress_amid]; exact h)
  simp [round, step, run_fetch_of_some hw, he, Word.disassemble]

theorem run_round_of_end (hw : words.length ≤ pc) :
    round.run (amid words pc cells strict) =
      ⟨amid words pc cells strict, [], [], .error (.pastEnd pc words.length)⟩ := by
  simp [round, step, run_fetch_of_none hw]

end Round

/-- Rounds of words none of which ends the run. -/
theorem run_rounds_of_not_stops {words ws : List Word} {pc : Nat} {cells : List Int}
    {strict : Bool} (hws : ws <+: words.drop pc) (hc : cells.length = 4)
    (h : ∀ w ∈ ws, ¬ w.Stops strict) :
    (rounds ws.length).run (amid words pc cells strict) =
      ⟨amid words (pc + ws.length) (Word.effects cells ws) strict, Word.traceFrom cells ws,
        Word.eventsFrom pc cells ws, .ok ()⟩ := by
  induction ws generalizing pc cells with
  | nil => simp [rounds, Word.traceFrom, Word.eventsFrom]
  | cons w ws ih =>
    obtain ⟨rest, hrest⟩ := hws
    have hw : words[pc]? = some w := by
      rw [← List.head?_drop, ← hrest]
      rfl
    have hws' : ws <+: words.drop (pc + 1) := by
      rw [← List.tail_drop, ← hrest]
      exact ⟨rest, rfl⟩
    have hstop := h w List.mem_cons_self
    have hr := run_round_of_none hw (Word.fault?_of_not_stops hstop hc pc)
    rw [beyond_of_not_halt (Word.isHalt_of_not_stops hstop)] at hr
    have hrec := ih hws' ((Word.length_effect w cells).trans hc)
      fun v hv => h v (List.mem_cons_of_mem w hv)
    rw [List.length_cons, run_rounds_succ, hr, Outcome.bind_mk_ok, hrec]
    simp [Word.traceFrom, Word.eventsFrom, Nat.add_assoc, Nat.add_comm 1]

end Machine
end RegisterMachine
