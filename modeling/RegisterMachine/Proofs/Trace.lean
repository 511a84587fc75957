import RegisterMachine.Proofs.Stopping

/-! # Traces of executions

The lines and the registers of an execution are those of the reference run over the words that it
completes. Only a missing register adds a line, the text of the word that asked for it.
-/
namespace RegisterMachine.Machine

/-- The outcome `o` of executing `words` is that of the reference run over the first `n` of them,
with one more line if the word after them misses a register. -/
def FollowsReference (words : List Word) (n : Nat) (o : Outcome Unit) : Prop :=
  match o.result with
  | .ok () =>
    o.lines = Word.trace (words.take n) ∧ o.lines.length = 2 * o.machine.program.pc + 1 ∧
      o.machine.registers.cells = Word.cellsAfter (words.take n)
  | .error (.noRegister _ _) =>
    ∃ w, words[n]? = some w ∧ o.lines = Word.trace (words.take n) ++ [w.disassemble]
  | .error (.unknownOpcode _ _) | .error (.pastEnd _ _) => o.lines = Word.trace (words.take n)
  | .error _ => False

section FollowsReference
variable {words : List Word} {strict : Bool} {k : Nat} {w : Word}

theorem followsReference_of_halt (h : ∀ v ∈ words.take k, ¬ v.Stops strict)
    (hw : words[k]? = some w) (hhalt : w.isHalt = true) :
    FollowsReference words (k + 1) (execute (.ofWords words) strict .endless) := by
  obtain ⟨hk, hget⟩ := List.getElem?_eq_some_iff.1 hw
  have hcells : w.effect (Word.cellsAfter (words.take k)) =
      Word.cellsAfter (words.take (k + 1)) := by
    rw [List.take_succ_eq_append_getElem hk, hget, Word.cellsAfter, Word.cellsAfter,
      Word.effects_concat]
  rw [execute_of_halt h hw hhalt]
  refine ⟨rfl, ?_, hcells⟩
  simp only [Word.trace, List.length_cons, Word.length_traceFrom, List.length_take_of_le hk]
  rfl

theorem followsReference_of_lookup {index : Int} (h : ∀ v ∈ words.take k, ¬ v.Stops strict)
    (hw : words[k]? = some w)
    (hindex : (Instruction.ofWord w).lookups.find? (3 < ·) = some index) :
    FollowsReference words k (execute (.ofWords words) strict .endless) := by
  have hop : (Instruction.ofWord w).operation?.isSome = true := by
    cases ho : (Instruction.ofWord w).operation? with
    | some op => rfl
    | none => simp [Instruction.lookups, ho] at hindex
  rw [execute_of_fault h hw fun r hr => Word.fault?_of_lookup hindex hr k]
  exact ⟨w, hw, by rw [if_pos hop]⟩

theorem followsReference_of_unknown (h : ∀ v ∈ words.take k, ¬ v.Stops true)
    (hw : words[k]? = some w) (hcode : 2 < (Instruction.ofWord w).opcode) :
    FollowsReference words k (execute (.ofWords words) true .endless) := by
  have hop : (Instruction.ofWord w).operation? = none := by
    rw [Instruction.operation?_eq_none_iff]
    omega
  rw [execute_of_fault h hw fun r _ => Word.fault?_of_unknown hcode k]
  simp [FollowsReference, hop]

end FollowsReference

/-- The trace of an execution is that of the reference run over the words completed, snapshot,
text, snapshot and so on, and a halt leaves the cells of that run. -/
theorem execute_trace (words : List Word) (strict : Bool) :
    ∃ n ≤ words.length, Completes (boot (.ofWords words) strict .endless) n ∧
      FollowsReference words n (execute (.ofWords words) strict .endless) := by
  rcases Word.exists_first (Word.Stops strict) words with hnone | ⟨k, w, hw, hstop, h⟩
  · refine ⟨words.length, Nat.le_refl _, completes_boot_of_none hnone, ?_⟩
    rw [execute_of_none hnone]
    simp [FollowsReference]
  · obtain ⟨hk, _⟩ := List.getElem?_eq_some_iff.1 hw
    rcases Word.stops_cases hstop with hhalt | ⟨index, hindex⟩ | ⟨rfl, hcode⟩
    · exact ⟨k + 1, hk, completes_boot_of_halt h hw hhalt, followsReference_of_halt h hw hhalt⟩
    · exact ⟨k, Nat.le_of_lt hk,
        completes_boot_of_fault h hw fun r hr => Word.fault?_of_lookup hindex hr k,
        followsReference_of_lookup h hw hindex⟩
    · exact ⟨k, Nat.le_of_lt hk,
        completes_boot_of_fault h hw fun r _ => Word.fault?_of_unknown hcode k,
        followsReference_of_unknown h hw hcode⟩

end RegisterMachine.Machine
