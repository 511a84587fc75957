import RegisterMachine.Proofs.Reassembly
import RegisterMachine.Proofs.Rewording

/-! # Programs in canonical form

Assembling the disassembly of a program loses the bits that its halts ignore. No part of a run
depends on them: a word is evaluated like the canonical one in its place, whatever the machine and
its sink, and so a program runs like the program that its disassembly is assembled to.
-/
namespace RegisterMachine
namespace Machine
open Routine

/-- A halt uses no operand, neither for its text nor for its effect. -/
theorem evaluate_of_halts {i j : Instruction} (hi : i.operation? = some .halt)
    (hj : j.operation? = some .halt) : evaluate i = evaluate j := by
  have hdescribe : describe i = describe j := by
    simp [describe, Instruction.describe?, Instruction.Describable, Instruction.operands,
      Instruction.text, hi, hj]
  simp only [evaluate, hi, hj, hdescribe, perform]

theorem evaluate_canonical (w : Word) :
    evaluate (.ofWord w.canonical) = evaluate (.ofWord w) := by
  rw [Word.canonical]
  split
  · rename_i hcode
    exact evaluate_of_halts rfl (Instruction.operation?_eq_some_iff.2 hcode)
  · rfl

theorem run_step_canonical (m : Machine) :
    step.run (m.mapWords (List.map Word.canonical)) =
      (step.run m).mapMachine (mapWords (List.map Word.canonical)) := by
  cases hrun : m.running with
  | false => exact run_step_mapWords_of_halted hrun
  | true =>
    cases hw : m.program.words[m.program.pc]? with
    | none =>
      have hnone : (m.program.words.map Word.canonical)[m.program.pc]? = none := by
        rw [List.getElem?_map, hw, Option.map_none]
      have hcanonical : step.run (m.mapWords (List.map Word.canonical)) = _ :=
        Steps.run_eq (.pastEnd hrun hnone)
      rw [hcanonical, Steps.run_eq (.pastEnd hrun hw)]
      simp [Outcome.mapMachine, mapWords, Program.size]
    | some w =>
      have hsome : (m.program.words.map Word.canonical)[m.program.pc]? = some w.canonical := by
        rw [List.getElem?_map, hw, Option.map_some]
      exact run_step_mapWords_of_getElem? hrun hw hsome (evaluate_canonical w)

theorem run_canonical (m : Machine) :
    run (m.mapWords (List.map Word.canonical)) =
      (run m).mapMachine (mapWords (List.map Word.canonical)) := by
  have hround : ∀ m : Machine, True → round.run (mapWords (List.map Word.canonical) m) =
      (round.run m).mapMachine (mapWords (List.map Word.canonical)) :=
    fun m _ => run_round_mapWords _ (run_step_canonical m)
  exact run_mapMachine hround (fun _ => rfl) (fun _ _ => trivial) trivial

theorem execute_canonical (words : List Word) (strict : Bool) (sink : Sink) :
    execute (.ofWords (words.map Word.canonical)) strict sink =
      (execute (.ofWords words) strict sink).mapMachine (mapWords (List.map Word.canonical)) := by
  have hshow := run_showRegisters_mapWords (List.map Word.canonical)
    (boot (.ofWords words) strict sink)
  have hboot : boot (.ofWords (words.map Word.canonical)) strict sink =
      (boot (.ofWords words) strict sink).mapWords (List.map Word.canonical) := rfl
  rw [execute, execute, hboot, hshow]
  exact Outcome.bind_mapMachine fun _ _ => run_canonical _

/-- If the disassembly of a program is assembled to words again, these are executed like the program
itself: with the same lines, events and result, and with the same registers and the same counter in
the end. -/
theorem execute_reassembled (words out : List Word) (strict : Bool) (sink : Sink)
    (h : (Assembly.ofSource (Assembly.sourceOf words)).result = .ok out) :
    (execute (.ofWords out) strict sink).Alike (execute (.ofWords words) strict sink) := by
  obtain ⟨-, rfl⟩ := Assembly.result_sourceOf_eq_ok_iff.1 h
  rw [execute_canonical]
  exact alike_mapWords _ _

/-- A halt with other bits, reached or cut off by the sink. -/
theorem execute_reassembled_halt :
    (Assembly.ofSource (Assembly.sourceOf [0x1164, 0x0ABC, 0x2301])).result =
        .ok [0x1164, 0x0000, 0x2301] ∧
      ∀ strict sink, (execute (.ofWords [0x1164, 0x0000, 0x2301]) strict sink).Alike
        (execute (.ofWords [0x1164, 0x0ABC, 0x2301]) strict sink) := by
  have h : (Assembly.ofSource (Assembly.sourceOf [0x1164, 0x0ABC, 0x2301])).result =
      .ok [0x1164, 0x0000, 0x2301] := by
    refine Assembly.result_sourceOf_eq_ok_iff.2 ⟨?_, rfl⟩
    simp [Word.Assembles, Instruction.ofWord, Word.width]
  exact ⟨h, fun strict sink => execute_reassembled _ _ strict sink h⟩

end Machine
end RegisterMachine
