import RegisterMachine.Machine.Run

/-! # Runs as rounds

A run goes through rounds as long as they succeed. So the first rounds of a run can be taken apart
from what follows them, and how many of them succeed is a property of the machine at the start.
-/
namespace RegisterMachine

theorem Outcome.bind_assoc {α β γ : Type} (o : Outcome α) (f : α → Machine → Outcome β)
    (g : β → Machine → Outcome γ) :
    (o.bind f).bind g = o.bind fun a m => (f a m).bind g := by
  cases h : o.result with
  | error e => rw [bind_of_error h, bind_of_error h, bind_mk_error]
  | ok a =>
    rw [bind_of_ok h, bind_of_ok h]
    cases hf : (f a o.machine).result with
    | ok b => simp [bind_of_ok hf, List.append_assoc]
    | error e => simp [bind_of_error hf]

namespace Machine
open Routine

def rounds : Nat → Routine Unit
  | 0 => pure ()
  | n + 1 => do
    round
    rounds n

theorem run_rounds_succ (n : Nat) (m : Machine) :
    (rounds (n + 1)).run m = (round.run m).bind fun _ => (rounds n).run := rfl

theorem run_rounds_add (n k : Nat) (m : Machine) :
    (rounds (n + k)).run m = ((rounds n).run m).bind fun _ => (rounds k).run := by
  induction n generalizing m with
  | zero => simp [rounds]
  | succ n ih =>
    rw [Nat.succ_add, run_rounds_succ, run_rounds_succ, Outcome.bind_assoc]
    exact congrArg _ (funext fun _ => funext ih)

theorem running_of_round_ok {m : Machine} (h : (round.run m).result = .ok ()) :
    m.running = true := by
  cases hm : m.running with
  | true => rfl
  | false => simp [round, step, hm] at h

/-- A run is its first rounds, if they all succeed, and the run of the machine that they leave. -/
theorem run_of_rounds {m : Machine} {n : Nat} (h : ((rounds n).run m).result = .ok ()) :
    run m = ((rounds n).run m).bind fun _ => run := by
  induction n generalizing m with
  | zero => simp [rounds]
  | succ n ih =>
    rw [run_rounds_succ] at h ⊢
    obtain ⟨_, hr, hn⟩ := Outcome.result_bind_eq_ok.1 h
    rw [run_of_running (running_of_round_ok hr), Outcome.bind_assoc, Outcome.bind_of_ok hr,
      Outcome.bind_of_ok hr, ih hn]

/-- Of the rounds from a machine on, so many succeed and no more. -/
def Completes (m : Machine) (n : Nat) : Prop :=
  ((rounds n).run m).result = .ok () ∧ ∀ k, ((rounds k).run m).result = .ok () → k ≤ n

/-- Rounds that succeed are all there are if the next one faults. -/
theorem completes_of_fault {m : Machine} {n : Nat} (h : ((rounds n).run m).result = .ok ())
    (he : (round.run ((rounds n).run m).machine).result ≠ .ok ()) : Completes m n := by
  refine ⟨h, ?_⟩
  intro k hk
  apply Nat.le_of_not_lt
  intro hlt
  apply he
  obtain ⟨j, rfl⟩ := Nat.exists_eq_add_of_lt hlt
  rw [Nat.add_assoc, run_rounds_add] at hk
  obtain ⟨_, _, hj⟩ := Outcome.result_bind_eq_ok.1 hk
  obtain ⟨_, hr, _⟩ := Outcome.result_bind_eq_ok.1 hj
  exact hr

end Machine
end RegisterMachine
