import RegisterMachine.Proofs.Reference

/-! # Executions

An execution reads its program from left to right and ends at the first word that stops it, or past
the last word if there is none. Up to there it is the reference run, and what follows depends only
on that one word.
-/
namespace RegisterMachine.Machine
open Routine

section Ending
variable {words : List Word} {strict : Bool} {k : Nat} {w : Word}

/-- Up to a word before which none stops the run, an execution is the reference run. -/
theorem rounds_boot (h : ∀ v ∈ words.take k, ¬ v.Stops strict) (hk : k ≤ words.length) :
    (rounds k).run (boot (.ofWords words) strict .endless) =
      ⟨amid words k (Word.cellsAfter (words.take k)) strict,
        Word.traceFrom [0, 0, 0, 0] (words.take k), Word.events (words.take k),
        .ok ()⟩ := by
  have hr : (rounds (words.take k).length).run (amid words 0 [0, 0, 0, 0] strict) = _ :=
    run_rounds_of_not_stops (List.take_prefix k words) rfl h
  rw [List.length_take_of_le hk, Nat.zero_add] at hr
  exact hr

theorem execute_of_take (h : ∀ v ∈ words.take k, ¬ v.Stops strict) (hk : k ≤ words.length) :
    execute (.ofWords words) strict .endless =
      (⟨amid words k (Word.cellsAfter (words.take k)) strict,
        Word.trace (words.take k), Word.events (words.take k),
        .ok ()⟩ : Outcome Unit).bind fun _ => run := by
  have hr := rounds_boot h hk
  have hs : showRegisters.run (boot (.ofWords words) strict .endless) =
      ⟨boot (.ofWords words) strict .endless, [RegisterFile.snapshot ⟨[0, 0, 0, 0]⟩], [], .ok ()⟩ :=
    run_showRegisters_of_endless rfl
  rw [execute, hs, Outcome.bind_mk_ok, run_of_rounds (by rw [hr]), hr]
  simp [Word.trace]

/-- The execution when no word stops the run. -/
theorem execute_of_none (h : ∀ v ∈ words, ¬ v.Stops strict) :
    execute (.ofWords words) strict .endless =
      ⟨amid words words.length (Word.cellsAfter words) strict, Word.trace words,
        Word.events words, .error (.pastEnd words.length words.length)⟩ := by
  have he := execute_of_take (k := words.length) (by rwa [List.take_length]) (Nat.le_refl _)
  rw [List.take_length] at he
  rw [he, Outcome.bind_mk_ok, run_of_running rfl, run_round_of_end (Nat.le_refl _)]
  simp

theorem execute_of_halt (h : ∀ v ∈ words.take k, ¬ v.Stops strict) (hw : words[k]? = some w)
    (hhalt : w.isHalt = true) :
    execute (.ofWords words) strict .endless =
      ⟨beyond words k (Word.cellsAfter (words.take k)) strict w,
        Word.trace (words.take (k + 1)), Word.events (words.take (k + 1)),
        .ok ()⟩ := by
  obtain ⟨hk, hget⟩ := List.getElem?_eq_some_iff.1 hw
  have hround := run_round_of_none hw
    (Word.fault?_of_halt hhalt ⟨Word.cellsAfter (words.take k)⟩ strict k)
  rw [execute_of_take h (Nat.le_of_lt hk), Outcome.bind_mk_ok, run_of_running rfl, hround,
    Outcome.bind_mk_ok, run_of_not_running (by simp [beyond, hhalt])]
  rw [List.take_succ_eq_append_getElem hk, hget, Word.trace, Word.trace, Word.events, Word.events,
    Word.traceFrom_concat, Word.eventsFrom_concat, List.length_take_of_le (Nat.le_of_lt hk)]
  simp [Word.cellsAfter]

theorem execute_of_fault {e : Fault} (h : ∀ v ∈ words.take k, ¬ v.Stops strict)
    (hw : words[k]? = some w)
    (hfault : ∀ r : RegisterFile, r.size = 4 →
      (Instruction.ofWord w).fault? r strict k = some e) :
    execute (.ofWords words) strict .endless =
      ⟨amid words (k + 1) (Word.cellsAfter (words.take k)) strict,
        Word.trace (words.take k) ++
          if (Instruction.ofWord w).operation?.isSome then [w.disassemble] else [],
        Word.events (words.take k), .error e⟩ := by
  obtain ⟨hk, _⟩ := List.getElem?_eq_some_iff.1 hw
  have hround := run_round_of_some hw
    (hfault ⟨Word.cellsAfter (words.take k)⟩ (Word.length_effects _ _))
  rw [execute_of_take h (Nat.le_of_lt hk), Outcome.bind_mk_ok, run_of_running rfl, hround]
  simp

theorem completes_boot_of_none (h : ∀ v ∈ words, ¬ v.Stops strict) :
    Completes (boot (.ofWords words) strict .endless) words.length := by
  have hr := rounds_boot (k := words.length) (by rwa [List.take_length]) (Nat.le_refl _)
  apply completes_of_fault (by rw [hr])
  simp [hr, run_round_of_end]

theorem completes_boot_of_halt (h : ∀ v ∈ words.take k, ¬ v.Stops strict) (hw : words[k]? = some w)
    (hhalt : w.isHalt = true) : Completes (boot (.ofWords words) strict .endless) (k + 1) := by
  obtain ⟨hk, _⟩ := List.getElem?_eq_some_iff.1 hw
  have hround := run_round_of_none hw
    (Word.fault?_of_halt hhalt ⟨Word.cellsAfter (words.take k)⟩ strict k)
  have hr : ((rounds (k + 1)).run (boot (.ofWords words) strict .endless)).result = .ok () ∧
      ((rounds (k + 1)).run (boot (.ofWords words) strict .endless)).machine =
        beyond words k (Word.cellsAfter (words.take k)) strict w := by
    rw [run_rounds_add, rounds_boot h (Nat.le_of_lt hk), Outcome.bind_mk_ok, run_rounds_succ,
      hround]
    simp [rounds]
  apply completes_of_fault hr.1
  simp [hr.2, round, step, beyond, hhalt]

theorem completes_boot_of_fault {e : Fault} (h : ∀ v ∈ words.take k, ¬ v.Stops strict)
    (hw : words[k]? = some w)
    (hfault : ∀ r : RegisterFile, r.size = 4 →
      (Instruction.ofWord w).fault? r strict k = some e) :
    Completes (boot (.ofWords words) strict .endless) k := by
  obtain ⟨hk, _⟩ := List.getElem?_eq_some_iff.1 hw
  have hr := rounds_boot h (Nat.le_of_lt hk)
  have hround := run_round_of_some hw
    (hfault ⟨Word.cellsAfter (words.take k)⟩ (Word.length_effects _ _))
  apply completes_of_fault (by rw [hr])
  simp [hr, hround]

end Ending
end RegisterMachine.Machine
