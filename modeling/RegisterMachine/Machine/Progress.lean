import RegisterMachine.Machine.Step

/-! # Progress

Only a fetch moves the counter of the program, and it moves it by one word. So every round of a run
that succeeds leaves fewer words to be fetched.
-/
namespace RegisterMachine

/-- The routine leaves the program and its counter alone. -/
def Routine.KeepsProgram {α : Type} (r : Routine α) : Prop :=
  ∀ m, (r.run m).machine.program = m.program

namespace Routine
variable {α β : Type}

theorem KeepsProgram.pure (a : α) : (Pure.pure a : Routine α).KeepsProgram := fun _ => rfl

theorem KeepsProgram.fault (e : Fault) : (Routine.fault e : Routine α).KeepsProgram := fun _ => rfl

theorem KeepsProgram.machine : Routine.machine.KeepsProgram := fun _ => rfl

theorem KeepsProgram.log (e : Event) : (Routine.log e).KeepsProgram := fun _ => rfl

theorem KeepsProgram.emit (line : String) : (Routine.emit line).KeepsProgram := by
  intro m
  cases h : m.sink.accept with
  | ok sink => rw [run_emit_of_ok h]
  | error reason => rw [run_emit_of_error h]

theorem KeepsProgram.ofExcept (r : Except Fault α) : (Routine.ofExcept r).KeepsProgram := by
  cases r <;> exact fun _ => rfl

theorem KeepsProgram.bind {x : Routine α} {f : α → Routine β} (hx : x.KeepsProgram)
    (hf : ∀ a, (f a).KeepsProgram) : (x >>= f).KeepsProgram := by
  intro m
  rw [run_bind]
  cases h : (x.run m).result with
  | ok a => rw [Outcome.bind_of_ok h]; exact (hf a _).trans (hx m)
  | error e => rw [Outcome.bind_of_error h]; exact hx m

end Routine

namespace Machine
open Routine

theorem keepsProgram_read (index : Int) : (read index).KeepsProgram :=
  .bind .machine fun _ => .ofExcept _

theorem keepsProgram_write (index value : Int) : (write index value).KeepsProgram :=
  .bind .machine fun _ => .bind (.ofExcept _) fun _ _ => rfl

theorem keepsProgram_showRegisters : showRegisters.KeepsProgram :=
  .bind .machine fun _ => .emit _

theorem keepsProgram_logState : logState.KeepsProgram :=
  .bind .machine fun _ => .log _

theorem keepsProgram_describe (i : Instruction) : (describe i).KeepsProgram := by
  unfold describe
  split
  · exact .pure _
  · exact .fault _

theorem keepsProgram_perform (i : Instruction) (op : Operation) :
    (perform i op).KeepsProgram := by
  cases op with
  | halt => exact fun _ => rfl
  | loadi => exact keepsProgram_write _ _
  | add =>
    exact .bind (keepsProgram_read _) fun _ => .bind (keepsProgram_read _) fun _ =>
      keepsProgram_write _ _

theorem keepsProgram_passOver (i : Instruction) : (passOver i).KeepsProgram := by
  refine .bind .machine fun m => ?_
  split
  · exact .fault _
  · exact .bind (.log _) fun _ => .bind (keepsProgram_describe i) fun _ => .emit _

theorem keepsProgram_evaluate (i : Instruction) : (evaluate i).KeepsProgram := by
  unfold evaluate
  split
  · exact .bind (keepsProgram_describe i) fun _ => .bind (.emit _) fun _ => keepsProgram_perform i _
  · exact keepsProgram_passOver i

def round : Routine Unit := do
  step
  showRegisters

theorem remaining_fetch {m : Machine} {w : Word} (h : (fetch.run m).result = .ok w) :
    (fetch.run m).machine.program.remaining < m.program.remaining := by
  unfold fetch at h ⊢
  cases hf : m.program.fetch with
  | error e => simp [hf] at h
  | ok p => simpa [hf] using Program.remaining_fetch hf

theorem remaining_step {m : Machine} (h : (step.run m).result = .ok ()) :
    (step.run m).machine.program.remaining < m.program.remaining := by
  unfold step at h ⊢
  cases hm : m.running with
  | false => simp [hm] at h
  | true =>
    simp only [run_bind, run_machine, Outcome.bind_mk_ok, hm, if_true] at h ⊢
    obtain ⟨w, hw, he⟩ := Outcome.result_bind_eq_ok.1 h
    rw [Outcome.bind_of_ok hw,
      KeepsProgram.bind (keepsProgram_evaluate _) fun _ => keepsProgram_logState]
    exact remaining_fetch hw

theorem remaining_round {m : Machine} (h : (round.run m).result = .ok ()) :
    (round.run m).machine.program.remaining < m.program.remaining := by
  unfold round at h ⊢
  rw [run_bind] at h ⊢
  obtain ⟨_, hs, _⟩ := Outcome.result_bind_eq_ok.1 h
  rw [Outcome.bind_of_ok hs, keepsProgram_showRegisters]
  exact remaining_step hs

end Machine
end RegisterMachine
