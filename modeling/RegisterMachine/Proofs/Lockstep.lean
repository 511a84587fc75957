import RegisterMachine.Machine.Run
import RegisterMachine.Proofs.Disassembly
import RegisterMachine.Proofs.Requests

/-! # Machines in lockstep

If changing a machine makes no difference to a round, except that the machine after it is changed
too, then it makes none to a run. So strictness makes no difference to a program all of whose words
are known, whatever its sink: only an unknown opcode is treated in two ways.
-/
namespace RegisterMachine

def Outcome.mapMachine {α : Type} (φ : Machine → Machine) (o : Outcome α) : Outcome α :=
  { o with machine := φ o.machine }

section Prefix
variable {α β : Type} (o : Outcome α) (f : α → Machine → Outcome β)

theorem Outcome.lines_isPrefix_bind : o.lines <+: (o.bind f).lines := by
  cases h : o.result with
  | ok a => simp [bind_of_ok h]
  | error e => simp [bind_of_error h]

theorem Outcome.events_isPrefix_bind : o.events <+: (o.bind f).events := by
  cases h : o.result with
  | ok a => simp [bind_of_ok h]
  | error e => simp [bind_of_error h]

end Prefix

/-- What comes after an outcome is changed if it is so on the machine of the outcome. -/
theorem Outcome.bind_mapMachine {α β : Type} {φ : Machine → Machine} {o : Outcome α}
    {f : α → Machine → Outcome β}
    (h : ∀ a, o.result = .ok a → f a (φ o.machine) = (f a o.machine).mapMachine φ) :
    (o.mapMachine φ).bind f = (o.bind f).mapMachine φ := by
  obtain ⟨m, lines, events, result⟩ := o
  cases result with
  | ok a =>
    rw [mapMachine, bind_mk_ok, bind_mk_ok, h a rfl]
    rfl
  | error e => rfl

namespace Machine
open Routine

section Round
variable (φ : Machine → Machine)

/-- A change that leaves the registers and the sink alone makes no difference to what is shown. -/
theorem run_showRegisters_mapMachine (hregisters : ∀ m, (φ m).registers = m.registers)
    (hsink : ∀ m, (φ m).sink = m.sink)
    (hwithSink : ∀ m sink, φ (m.withSink sink) = (φ m).withSink sink) (m : Machine) :
    showRegisters.run (φ m) = (showRegisters.run m).mapMachine φ := by
  rw [run_showRegisters, run_showRegisters, hregisters]
  cases ha : m.sink.accept with
  | ok sink =>
    have ha' : (φ m).sink.accept = .ok sink := by rw [hsink, ha]
    rw [run_emit_of_accept ha, run_emit_of_accept ha', ← hwithSink]
    rfl
  | error reason =>
    have ha' : (φ m).sink.accept = .error reason := by rw [hsink, ha]
    rw [run_emit_of_error ha, run_emit_of_error ha']
    rfl

theorem run_round_mapMachine {m : Machine}
    (hshow : ∀ m, showRegisters.run (φ m) = (showRegisters.run m).mapMachine φ)
    (hstep : step.run (φ m) = (step.run m).mapMachine φ) :
    round.run (φ m) = (round.run m).mapMachine φ := by
  rw [round, run_bind, run_bind, hstep]
  exact Outcome.bind_mapMachine fun _ _ => hshow _

end Round

/-- A change that makes no difference to the rounds of some machines makes none to their runs. -/
theorem run_mapMachine {φ : Machine → Machine} {p : Machine → Prop}
    (hround : ∀ m, p m → round.run (φ m) = (round.run m).mapMachine φ)
    (hrunning : ∀ m, (φ m).running = m.running)
    (hp : ∀ m, p m → p (round.run m).machine) {m : Machine} (hm : p m) :
    run (φ m) = (run m).mapMachine φ := by
  induction m using round_induction with
  | halted m hrun =>
    rw [run_of_not_running hrun, run_of_not_running ((hrunning m).trans hrun)]
    rfl
  | running m hrun ih =>
    rw [run_of_running hrun, run_of_running ((hrunning m).trans hrun), hround m hm]
    exact Outcome.bind_mapMachine fun _ hok => ih hok (hp m hm)

def withStrict (strict : Bool) (m : Machine) : Machine := { m with strict := strict }

section Strict
variable {strict : Bool} {i : Instruction} {m : Machine} {o : Outcome Unit}

/-- Only the evaluation of an unknown opcode depends on strictness. -/
theorem Evaluates.withStrict (hop : i.operation? ≠ none) (h : Evaluates i m o) :
    Evaluates i (m.withStrict strict) (o.mapMachine (withStrict strict)) := by
  cases h with
  | unknown hnone => exact absurd hnone hop
  | unwritable hd => exact .unwritable hd
  | refused hd _ ha => exact .refused hd (fun hnone => absurd hnone hop) ha
  | missing hd ha hm => exact .missing hd ha hm
  | done hd _ ha hm => exact .done hd (fun hnone => absurd hnone hop) ha hm

theorem Steps.withStrict (hknown : ∀ w ∈ m.program.words, Assembly.Known w) (h : Steps m o) :
    Steps (m.withStrict strict) (o.mapMachine (withStrict strict)) := by
  cases h with
  | halted hrun => exact .halted hrun
  | pastEnd hrun hw => exact .pastEnd hrun hw
  | faulted hrun hw hev =>
    exact .faulted hrun hw (hev.withStrict (hknown _ (List.mem_of_getElem? hw)))
  | done hrun hw hev =>
    exact .done hrun hw (hev.withStrict (hknown _ (List.mem_of_getElem? hw)))

theorem run_showRegisters_withStrict (strict : Bool) (m : Machine) :
    showRegisters.run (m.withStrict strict) =
      (showRegisters.run m).mapMachine (withStrict strict) :=
  run_showRegisters_mapMachine (withStrict strict) (fun _ => rfl) (fun _ => rfl) (fun _ _ => rfl) m

theorem run_round_withStrict (hknown : ∀ w ∈ m.program.words, Assembly.Known w) :
    round.run (m.withStrict strict) = (round.run m).mapMachine (withStrict strict) :=
  run_round_mapMachine (withStrict strict) (run_showRegisters_withStrict strict)
    ((steps_run m).withStrict hknown).run_eq

theorem words_round (m : Machine) : (round.run m).machine.program.words = m.program.words := by
  have hstep : (step.run m).machine.program.words = m.program.words := by
    rw [(steps_run m).alters.program]
  rw [round, run_bind]
  cases h : (step.run m).result with
  | ok u => rw [Outcome.bind_of_ok h, keepsProgram_showRegisters, hstep]
  | error e => rw [Outcome.bind_of_error h, hstep]

theorem run_withStrict (hknown : ∀ w ∈ m.program.words, Assembly.Known w) :
    run (m.withStrict strict) = (run m).mapMachine (withStrict strict) := by
  have hround : ∀ m : Machine, (∀ w ∈ m.program.words, Assembly.Known w) →
      round.run (withStrict strict m) = (round.run m).mapMachine (withStrict strict) :=
    fun _ => run_round_withStrict
  have hkeep : ∀ m : Machine, (∀ w ∈ m.program.words, Assembly.Known w) →
      ∀ w ∈ (round.run m).machine.program.words, Assembly.Known w := by
    intro m hm
    rwa [words_round]
  exact run_mapMachine hround (fun _ => rfl) hkeep hknown

/-- A strict and a lenient execution of known words differ in nothing but the strictness of their
machines. -/
theorem execute_of_known {program : Program} (hknown : ∀ w ∈ program.words, Assembly.Known w)
    (strict strict' : Bool) (sink : Sink) :
    execute program strict sink =
      (execute program strict' sink).mapMachine (withStrict strict) := by
  have hboot : boot program strict sink = (boot program strict' sink).withStrict strict := rfl
  rw [execute, execute, hboot, run_showRegisters_withStrict]
  refine Outcome.bind_mapMachine fun _ _ => run_withStrict ?_
  rwa [keepsProgram_showRegisters]

end Strict
end Machine
end RegisterMachine
