import RegisterMachine.Machine.Run
import RegisterMachine.Proofs.Endings

/-! # Runs cut short by their sink

A sink with room for `n` lines does nothing to a run that traces no more of them, and otherwise cuts
the run off after its first `n` lines. Both runs do the same up to the line that is refused: what a
routine does depends on the machine but not on its sink, except that a line may be refused. This
passes from a routine to those that follow it, and so from one round to all of them.
-/
namespace RegisterMachine

/-- The outcome `full`, with a sink that takes every line, and the outcome `cut` of the same with
room for `n` lines. -/
structure Outcome.Truncates {α : Type} (n : Nat) (reason : Refusal) (full cut : Outcome α) :
    Prop where
  endless : full.machine.sink.room = none
  whole : full.lines.length ≤ n →
    cut = { full with machine := full.machine.withSink ⟨some (n - full.lines.length), reason⟩ }
  part : n < full.lines.length →
    cut.result = .error (.refused reason) ∧ cut.lines = full.lines.take n ∧
      cut.events <+: full.events

/-- Room for fewer lines only cuts the routine short. -/
def Routine.Truncates {α : Type} (x : Routine α) : Prop :=
  ∀ (m : Machine) (n : Nat) (reason : Refusal), m.sink.room = none →
    Outcome.Truncates n reason (x.run m) (x.run (m.withSink ⟨some n, reason⟩))

section Bind
variable {α β : Type} {n : Nat} {reason : Refusal}

theorem Outcome.Truncates.of_silent {full cut : Outcome α} (hroom : full.machine.sink.room = none)
    (hlines : full.lines = [])
    (hcut : cut = { full with machine := full.machine.withSink ⟨some n, reason⟩ }) :
    Truncates n reason full cut := by
  refine ⟨hroom, ?_, ?_⟩
  · intro _
    rw [hcut, hlines, List.length_nil, Nat.sub_zero]
  · intro hlt
    rw [hlines] at hlt
    cases hlt

/-- The room that the first outcome leaves is the room of what follows. -/
theorem Outcome.Truncates.bind {full cut : Outcome α} {f : α → Machine → Outcome β}
    (h : Truncates n reason full cut)
    (hf : ∀ a, full.result = .ok a → ∀ k,
      Truncates k reason (f a full.machine) (f a (full.machine.withSink ⟨some k, reason⟩))) :
    Truncates n reason (full.bind f) (cut.bind f) := by
  obtain ⟨m, lines, events, result⟩ := full
  cases result with
  | error e =>
    refine ⟨h.endless, ?_, ?_⟩
    · intro hle
      rw [h.whole hle]
      rfl
    · intro hlt
      obtain ⟨hresult, hlines, hevents⟩ := h.part hlt
      rw [bind_of_error hresult]
      exact ⟨rfl, hlines, hevents⟩
  | ok a =>
    rw [bind_mk_ok]
    by_cases hle : lines.length ≤ n
    · obtain ⟨hroom, hwhole, hpart⟩ : Truncates (n - lines.length) reason (f a m) _ := hf a rfl _
      rw [h.whole hle, bind_mk_ok]
      refine ⟨hroom, ?_, ?_⟩
      · intro hlen
        rw [List.length_append] at hlen
        rw [hwhole (by omega), List.length_append, Nat.sub_add_eq]
      · intro hlen
        rw [List.length_append] at hlen
        obtain ⟨hresult, hlines, hevents⟩ := hpart (by omega)
        refine ⟨hresult, ?_, (List.prefix_append_right_inj events).2 hevents⟩
        rw [hlines, List.take_append, List.take_of_length_le hle]
    · obtain ⟨hresult, hlines, hevents⟩ := h.part (Nat.lt_of_not_le hle)
      rw [bind_of_error hresult]
      refine ⟨(hf a rfl 0).endless, ?_, ?_⟩
      · intro hlen
        rw [List.length_append] at hlen
        omega
      · intro _
        refine ⟨rfl, ?_, hevents.trans (List.prefix_append _ _)⟩
        rw [hlines, List.take_append_of_le_length (by omega)]

end Bind

namespace Routine
variable {α β : Type}

theorem Truncates.pure (a : α) : (Pure.pure a : Routine α).Truncates :=
  fun _ _ _ hm => .of_silent hm rfl rfl

theorem Truncates.fault (e : Fault) : (Routine.fault e : Routine α).Truncates :=
  fun _ _ _ hm => .of_silent hm rfl rfl

theorem Truncates.log (e : Event) : (Routine.log e).Truncates :=
  fun _ _ _ hm => .of_silent hm rfl rfl

theorem Truncates.ofExcept (r : Except Fault α) : (Routine.ofExcept r).Truncates := by
  cases r with
  | ok a => exact .pure a
  | error e => exact .fault e

theorem Truncates.update {f : Machine → Machine} (hsink : ∀ m, (f m).sink = m.sink)
    (hf : ∀ m sink, f (m.withSink sink) = (f m).withSink sink) : (Routine.update f).Truncates := by
  intro m n reason hm
  refine .of_silent ((congrArg _ (hsink m)).trans hm) rfl ?_
  rw [run_update, run_update, hf]

theorem Truncates.emit (line : String) : (Routine.emit line).Truncates := by
  intro m n reason hm
  have ha : m.sink.accept = .ok m.sink := by simp [Sink.accept, hm]
  rw [Machine.run_emit_of_accept ha]
  refine ⟨hm, ?_, ?_⟩
  · intro hle
    obtain ⟨k, rfl⟩ := Nat.exists_eq_add_of_le' hle
    rfl
  · intro hlt
    cases Nat.lt_one_iff.1 hlt
    exact ⟨rfl, rfl, List.nil_prefix⟩

theorem Truncates.bind {x : Routine α} {f : α → Routine β} (hx : x.Truncates)
    (hf : ∀ a, (f a).Truncates) : (x >>= f).Truncates := by
  intro m n reason hm
  have h := hx m n reason hm
  exact h.bind fun a _ k => hf a _ k reason h.endless

/-- What follows a look at the machine may depend on all of it but the sink. -/
theorem Truncates.machine_bind {f : Machine → Routine α}
    (hf : ∀ m sink, f (m.withSink sink) = f m) (h : ∀ m, (f m).Truncates) :
    (Routine.machine >>= f).Truncates := by
  intro m n reason hm
  have hcut : (Routine.machine >>= f).run (m.withSink ⟨some n, reason⟩) =
      (f m).run (m.withSink ⟨some n, reason⟩) := by
    rw [← hf m ⟨some n, reason⟩]
    rfl
  rw [hcut]
  exact h m m n reason hm

end Routine

namespace Machine
open Routine

theorem truncates_read (index : Int) : (read index).Truncates :=
  .machine_bind (fun _ _ => rfl) fun _ => .ofExcept _

theorem truncates_write (index value : Int) : (write index value).Truncates :=
  .machine_bind (fun _ _ => rfl) fun _ => .bind (.ofExcept _) fun _ =>
    .update (fun _ => rfl) fun _ _ => rfl

theorem truncates_fetch : fetch.Truncates :=
  .machine_bind (fun _ _ => rfl) fun _ => .bind (.ofExcept _) fun _ =>
    .bind (.update (fun _ => rfl) fun _ _ => rfl) fun _ => .pure _

theorem truncates_showRegisters : showRegisters.Truncates :=
  .machine_bind (fun _ _ => rfl) fun _ => .emit _

theorem truncates_logState : logState.Truncates :=
  .machine_bind (fun _ _ => rfl) fun _ => .log _

theorem truncates_describe (i : Instruction) : (describe i).Truncates := by
  unfold describe
  split
  · exact .pure _
  · exact .fault _

theorem truncates_perform (i : Instruction) (op : Operation) : (perform i op).Truncates := by
  cases op with
  | halt => exact .update (fun _ => rfl) fun _ _ => rfl
  | loadi => exact truncates_write _ _
  | add =>
    exact .bind (truncates_read _) fun _ => .bind (truncates_read _) fun _ => truncates_write _ _

theorem truncates_passOver (i : Instruction) : (passOver i).Truncates := by
  refine .machine_bind (fun _ _ => rfl) fun m => ?_
  split
  · exact .fault _
  · exact .bind (.log _) fun _ => .bind (truncates_describe i) fun _ => .emit _

theorem truncates_evaluate (i : Instruction) : (evaluate i).Truncates := by
  unfold evaluate
  split
  · exact .bind (truncates_describe i) fun _ => .bind (.emit _) fun _ => truncates_perform i _
  · exact truncates_passOver i

theorem truncates_step : step.Truncates := by
  refine .machine_bind (fun _ _ => rfl) fun m => ?_
  split
  · exact .bind truncates_fetch fun _ => .bind (truncates_evaluate _) fun _ => truncates_logState
  · exact .fault _

theorem truncates_round : round.Truncates :=
  .bind truncates_step fun _ => truncates_showRegisters

/-- A run is cut short in one of its rounds, which are as many as there are words left at most. -/
theorem truncates_run (m : Machine) (n : Nat) (reason : Refusal) (hm : m.sink.room = none) :
    Outcome.Truncates n reason (run m) (run (m.withSink ⟨some n, reason⟩)) := by
  have hround := truncates_round m n reason hm
  induction m using round_induction generalizing n with
  | halted m hrun =>
    have hcut : (m.withSink ⟨some n, reason⟩).running = false := hrun
    rw [run_of_not_running hrun, run_of_not_running hcut]
    exact .of_silent hm rfl rfl
  | running m hrun ih =>
    have hcut : (m.withSink ⟨some n, reason⟩).running = true := hrun
    rw [run_of_running hrun, run_of_running hcut]
    refine hround.bind fun _ hok k => ih hok k hround.endless ?_
    exact truncates_round _ k reason hround.endless

/-- An execution with room for `n` lines is the one with room for all, if that one traces no more
than `n` lines. Otherwise the line after them is refused: their trace is that of the other up to
there, and what was noted is the beginning of what the other one notes. -/
theorem execute_truncates (program : Program) (strict : Bool) (n : Nat) (reason : Refusal) :
    let full := execute program strict .endless
    let cut := execute program strict ⟨some n, reason⟩
    (full.lines.length ≤ n →
      cut = { full with
        machine := full.machine.withSink ⟨some (n - full.lines.length), reason⟩ }) ∧
    (n < full.lines.length →
      cut.result = .error (.refused reason) ∧ cut.lines = full.lines.take n ∧
        cut.events <+: full.events) := by
  intro full cut
  have hshow := truncates_showRegisters (boot program strict .endless) n reason rfl
  have hall : Outcome.Truncates n reason full cut :=
    hshow.bind fun _ _ k => truncates_run _ k reason hshow.endless
  exact ⟨hall.whole, hall.part⟩

end Machine
end RegisterMachine
