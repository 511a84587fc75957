import RegisterMachine.Machine.Progress

/-! # Running to a halt

The registers are shown before the first instruction and after every instruction. Each round fetches
one more word of the program, so a run ends, at the latest with a fault past the last word.
-/
namespace RegisterMachine.Machine
open Routine

def run (m : Machine) : Outcome Unit :=
  if m.running then
    match _h : (round.run m).result with
    | .ok () => (round.run m).bind fun _ _ => run (round.run m).machine
    | .error _ => round.run m
  else
    ⟨m, [], [], .ok ()⟩
termination_by m.program.remaining
decreasing_by exact remaining_round _h

theorem run_of_running {m : Machine} (h : m.running = true) :
    run m = (round.run m).bind fun _ => run := by
  rw [run, if_pos h]
  split
  · rename_i hr
    rw [Outcome.bind_of_ok hr, Outcome.bind_of_ok hr]
  · rename_i hr
    rw [Outcome.bind_of_error hr, ← hr]

theorem run_of_not_running {m : Machine} (h : m.running = false) :
    run m = ⟨m, [], [], .ok ()⟩ := by
  rw [run, if_neg (by simp [h])]

/-- Induction over the rounds of a run. What is to be shown of a running machine may be assumed of
the machine after its next round, if that round succeeds. -/
theorem round_induction {p : Machine → Prop} (halted : ∀ m, m.running = false → p m)
    (running : ∀ m, m.running = true →
      ((round.run m).result = .ok () → p (round.run m).machine) → p m)
    (m : Machine) : p m := by
  induction m using run.induct with
  | case1 m hrun _ ih => exact running m hrun fun _ => ih
  | case2 m hrun e he => exact running m hrun fun hok => by cases he.symm.trans hok
  | case3 m hrun => exact halted m (by simpa using hrun)

def execute (program : Program) (strict : Bool) (sink : Sink) : Outcome Unit :=
  (showRegisters.run (boot program strict sink)).bind fun _ => run

def executeWords (words : List Int) (strict : Bool) (sink : Sink) :
    Except LoadError (Outcome Unit) := do
  return execute (← Program.load words) strict sink

end RegisterMachine.Machine
