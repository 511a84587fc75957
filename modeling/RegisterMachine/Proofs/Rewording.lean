import RegisterMachine.Proofs.Lockstep

/-! # Machines with other words

An instruction does not look at the program that it was fetched from. So a machine whose words are
exchanged takes a step in the same way as before if it does the same for the word at its counter,
and the machine after the step is the one from before with its words exchanged too.
-/
namespace RegisterMachine

/-- The outcomes are the same but for the words of the program: the same lines, events and result,
and in the end the same registers, the same counter, and both machines running or none. -/
structure Outcome.Alike {α : Type} (o o' : Outcome α) : Prop where
  result : o.result = o'.result
  lines : o.lines = o'.lines
  events : o.events = o'.events
  registers : o.machine.registers = o'.machine.registers
  pc : o.machine.program.pc = o'.machine.program.pc
  running : o.machine.running = o'.machine.running

namespace Machine
open Routine

def mapWords (f : List Word → List Word) (m : Machine) : Machine :=
  { m with program := { m.program with words := f m.program.words } }

theorem alike_mapWords {α : Type} (f : List Word → List Word) (o : Outcome α) :
    (o.mapMachine (mapWords f)).Alike o :=
  ⟨rfl, rfl, rfl, rfl, rfl, rfl⟩

section MapWords
variable (f : List Word → List Word) {i : Instruction} {m : Machine} {o : Outcome Unit}

theorem Evaluates.mapWords (h : Evaluates i m o) :
    Evaluates i (m.mapWords f) (o.mapMachine (Machine.mapWords f)) := by
  cases h with
  | unknown hop hstrict => exact .unknown hop hstrict
  | unwritable hd => exact .unwritable hd
  | refused hd hstrict ha => exact .refused hd hstrict ha
  | missing hd ha hm => exact .missing hd ha hm
  | done hd hstrict ha hm => exact .done hd hstrict ha hm

theorem run_showRegisters_mapWords (m : Machine) :
    showRegisters.run (m.mapWords f) = (showRegisters.run m).mapMachine (mapWords f) :=
  run_showRegisters_mapMachine (mapWords f) (fun _ => rfl) (fun _ => rfl) (fun _ _ => rfl) m

theorem run_round_mapWords
    (h : step.run (m.mapWords f) = (step.run m).mapMachine (mapWords f)) :
    round.run (m.mapWords f) = (round.run m).mapMachine (mapWords f) :=
  run_round_mapMachine (mapWords f) (run_showRegisters_mapWords f) h

variable {f}

theorem run_step_mapWords_of_halted (hrun : m.running = false) :
    step.run (m.mapWords f) = (step.run m).mapMachine (mapWords f) := by
  have hmapped : step.run (m.mapWords f) = _ := Steps.run_eq (.halted hrun)
  rw [hmapped, Steps.run_eq (.halted hrun)]
  rfl

/-- The word at the counter may be exchanged for one that is evaluated in the same way. -/
theorem run_step_mapWords_of_getElem? {w v : Word} (hrun : m.running = true)
    (hw : m.program.words[m.program.pc]? = some w)
    (hv : (f m.program.words)[m.program.pc]? = some v)
    (heval : evaluate (.ofWord v) = evaluate (.ofWord w)) :
    step.run (m.mapWords f) = (step.run m).mapMachine (mapWords f) := by
  have hmapped : step.run (m.mapWords f) =
      ((evaluate (.ofWord v)).run (m.advance.mapWords f)).bind fun _ => logState.run :=
    run_step_of_getElem? hrun hv
  have hevaluate := ((evaluates_run (.ofWord w) m.advance).mapWords f).run_eq
  rw [hmapped, heval, hevaluate, run_step_of_getElem? hrun hw]
  exact Outcome.bind_mapMachine fun _ _ => rfl

end MapWords
end Machine
end RegisterMachine
