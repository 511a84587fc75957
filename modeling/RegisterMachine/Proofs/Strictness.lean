import RegisterMachine.Proofs.Lockstep

/-! # Strict runs as beginnings of lenient ones

A machine does the same strict and lenient as long as it knows the opcodes. At the first one that it
does not know a strict machine faults, and nothing of that opcode is traced or noted; a lenient one
goes on, and the first thing that it does is to note the same opcode from the same address. This
passes from a routine to those that follow it, and so from one round to all of them.
-/
namespace RegisterMachine

/-- The outcome `strict` of a strict machine, and the outcome `lenient` of the same machine when it
is made lenient. -/
structure Outcome.Restricts {α : Type} (strict lenient : Outcome α) : Prop where
  strict_eq : strict.machine.strict = true
  same : (∀ opcode address, strict.result ≠ .error (.unknownOpcode opcode address)) →
    lenient = strict.mapMachine (Machine.withStrict false) ∧
      ∀ event ∈ strict.events, event.level ≠ .warning
  parted : ∀ opcode address, strict.result = .error (.unknownOpcode opcode address) →
    strict.lines <+: lenient.lines ∧ strict.events ++ [.ignored opcode address] <+: lenient.events

/-- On a strict machine the routine does no more than on a lenient one. -/
def Routine.Restricts {α : Type} (x : Routine α) : Prop :=
  ∀ m : Machine, m.strict = true → Outcome.Restricts (x.run m) (x.run (m.withStrict false))

section Bind
variable {α β : Type}

theorem Outcome.Restricts.of_same {strict : Outcome α} (hstrict : strict.machine.strict = true)
    (hknown : ∀ opcode address, strict.result ≠ .error (.unknownOpcode opcode address))
    (hevents : ∀ event ∈ strict.events, event.level ≠ .warning) :
    strict.Restricts (strict.mapMachine (Machine.withStrict false)) := by
  refine ⟨hstrict, ?_, ?_⟩
  · intro _
    exact ⟨rfl, hevents⟩
  · intro opcode address h
    exact absurd h (hknown opcode address)

theorem Outcome.Restricts.of_silent {m : Machine} {result : Except Fault α}
    (hm : m.strict = true)
    (hknown : ∀ opcode address, result ≠ .error (.unknownOpcode opcode address)) :
    Restricts ⟨m, [], [], result⟩ ⟨m.withStrict false, [], [], result⟩ :=
  .of_same hm hknown fun _ hevent => absurd hevent List.not_mem_nil

/-- Outcomes that have parted stay so, and otherwise those that follow may part. -/
theorem Outcome.Restricts.bind {strict lenient : Outcome α} {f : α → Machine → Outcome β}
    (h : strict.Restricts lenient)
    (hf : ∀ a, strict.result = .ok a →
      (f a strict.machine).Restricts (f a (strict.machine.withStrict false))) :
    (strict.bind f).Restricts (lenient.bind f) := by
  cases hresult : strict.result with
  | error e =>
    rw [bind_of_error hresult]
    refine ⟨h.strict_eq, ?_, ?_⟩
    · intro hknown
      obtain ⟨rfl, hevents⟩ := h.same fun opcode address he =>
        hknown opcode address (congrArg _ (Except.error.inj (hresult.symm.trans he)))
      refine ⟨?_, hevents⟩
      rw [bind_of_error (o := strict.mapMachine _) hresult]
      rfl
    · intro opcode address he
      cases he
      obtain ⟨hlines, hevents⟩ := h.parted opcode address hresult
      exact ⟨hlines.trans (lines_isPrefix_bind _ _), hevents.trans (events_isPrefix_bind _ _)⟩
  | ok a =>
    obtain ⟨rfl, hevents⟩ := h.same fun opcode address he => by cases hresult.symm.trans he
    have hnext := hf a hresult
    rw [bind_of_ok hresult, bind_of_ok (o := strict.mapMachine _) hresult]
    refine ⟨hnext.strict_eq, ?_, ?_⟩
    · intro hknown
      obtain ⟨hsame, hnotes⟩ := hnext.same hknown
      refine ⟨?_, List.forall_mem_append.2 ⟨hevents, hnotes⟩⟩
      dsimp only [mapMachine] at hsame ⊢
      rw [hsame]
    · intro opcode address he
      obtain ⟨hlines, hnotes⟩ := hnext.parted opcode address he
      refine ⟨(List.prefix_append_right_inj _).2 hlines, ?_⟩
      dsimp only
      rw [List.append_assoc]
      exact (List.prefix_append_right_inj _).2 hnotes

theorem Routine.Restricts.bind {x : Routine α} {f : α → Routine β} (hx : x.Restricts)
    (hf : ∀ a, (f a).Restricts) : (x >>= f).Restricts := by
  intro m hm
  have h := hx m hm
  exact h.bind fun a _ => hf a _ h.strict_eq

end Bind

namespace Machine
open Routine

section Evaluation
variable {i : Instruction} {m : Machine} {o : Outcome Unit}

/-- Whatever the sink does, a lenient machine notes an unknown opcode first of all. -/
theorem Evaluates.events_of_unknown (h : Evaluates i m o) (hop : i.operation? = none)
    (hm : m.strict = false) : o.events = [.ignored i.opcode m.lastAddress] := by
  have hnotes : i.notes m.lastAddress = [.ignored i.opcode m.lastAddress] := by
    simp [Instruction.notes, hop]
  cases h with
  | unknown _ hstrict => cases hm.symm.trans hstrict
  | unwritable hd => exact absurd (Instruction.describable_of_unknown hop) hd
  | refused => exact hnotes
  | missing _ _ hmissing =>
    rw [Instruction.missing?_of_unknown hop] at hmissing
    cases hmissing
  | done => exact hnotes

theorem Evaluates.events_of_known (h : Evaluates i m o) (hop : i.operation? ≠ none) :
    o.events = [] := by
  obtain ⟨op, hop⟩ := Option.ne_none_iff_exists'.1 hop
  cases h <;> simp [Instruction.notes, hop]

theorem Evaluates.result_ne_of_known (h : Evaluates i m o) (hop : i.operation? ≠ none)
    (opcode address : Int) : o.result ≠ .error (.unknownOpcode opcode address) := by
  intro he
  cases h with
  | unknown hnone => exact hop hnone
  | _ => cases he

theorem Evaluates.strict_eq (h : Evaluates i m o) : o.machine.strict = m.strict := by
  cases h <;> rfl

theorem restricts_evaluate (i : Instruction) : (evaluate i).Restricts := by
  intro m hm
  have h := evaluates_run i m
  by_cases hop : i.operation? = none
  · have hrun : (evaluate i).run m = _ := Evaluates.run_eq (.unknown hop hm)
    have hevents := (evaluates_run i (m.withStrict false)).events_of_unknown hop rfl
    rw [hrun]
    refine ⟨hm, ?_, ?_⟩
    · intro hknown
      exact absurd rfl (hknown _ _)
    · intro opcode address he
      cases he
      rw [hevents]
      exact ⟨List.nil_prefix, List.prefix_refl _⟩
  · rw [(h.withStrict hop).run_eq]
    refine .of_same (h.strict_eq.trans hm) (h.result_ne_of_known hop) ?_
    rw [h.events_of_known hop]
    exact fun event hevent => absurd hevent List.not_mem_nil

end Evaluation

theorem restricts_logState : logState.Restricts := by
  intro m hm
  have hrun : logState.run (m.withStrict false) =
      (logState.run m).mapMachine (withStrict false) := rfl
  rw [hrun]
  exact .of_same hm (by simp [run_logState]) (by simp [run_logState, Event.level])

theorem restricts_showRegisters : showRegisters.Restricts := by
  intro m hm
  rw [run_showRegisters_withStrict, run_showRegisters]
  cases ha : m.sink.accept with
  | ok sink =>
    rw [run_emit_of_accept ha]
    exact .of_same hm (by simp) (by simp)
  | error reason =>
    rw [run_emit_of_error ha]
    exact .of_same hm (by simp) (by simp)

/-- A step evaluates the word that it fetches, and without one strictness makes no difference. -/
theorem restricts_step : step.Restricts := by
  intro m hm
  cases hrun : m.running with
  | false =>
    have hstrict := Steps.run_eq (.halted hrun)
    have hlenient : step.run (m.withStrict false) = _ := Steps.run_eq (.halted hrun)
    rw [hstrict, hlenient]
    exact .of_silent hm (by simp)
  | true =>
    cases hw : m.program.words[m.program.pc]? with
    | none =>
      have hstrict := Steps.run_eq (.pastEnd hrun hw)
      have hlenient : step.run (m.withStrict false) = _ := Steps.run_eq (.pastEnd hrun hw)
      rw [hstrict, hlenient]
      exact .of_silent hm (by simp)
    | some w =>
      have hstrict := run_step_of_getElem? hrun hw
      have hlenient := run_step_of_getElem? (m := m.withStrict false) hrun hw
      rw [hstrict, hlenient]
      have heval := restricts_evaluate (.ofWord w) m.advance hm
      exact heval.bind fun _ _ => restricts_logState _ heval.strict_eq

theorem restricts_round : round.Restricts :=
  .bind restricts_step fun _ => restricts_showRegisters

/-- Runs part in one of their rounds, or not at all. -/
theorem restricts_run (m : Machine) (hm : m.strict = true) :
    Outcome.Restricts (run m) (run (m.withStrict false)) := by
  have hround := restricts_round m hm
  induction m using round_induction with
  | halted m hrun =>
    have hlenient : (m.withStrict false).running = false := hrun
    rw [run_of_not_running hrun, run_of_not_running hlenient]
    exact .of_silent hm (by simp)
  | running m hrun ih =>
    have hlenient : (m.withStrict false).running = true := hrun
    rw [run_of_running hrun, run_of_running hlenient]
    exact hround.bind fun _ hok => ih hok hround.strict_eq (restricts_round _ hround.strict_eq)

/-- If a strict execution ends in anything but an unknown opcode, the lenient one is the same and no
opcode was passed over. Otherwise the lenient one begins like it, in its lines as well as in its
events, and the event that it has next is that it passes over this opcode at this address. -/
theorem execute_restricts (program : Program) (sink : Sink) :
    let strict := execute program true sink
    let lenient := execute program false sink
    ((∀ opcode address, strict.result ≠ .error (.unknownOpcode opcode address)) →
      lenient.result = strict.result ∧ lenient.lines = strict.lines ∧
        lenient.events = strict.events ∧
        lenient.machine.registers = strict.machine.registers ∧
        lenient.machine.program = strict.machine.program ∧
        ∀ event ∈ lenient.events, event.level ≠ .warning) ∧
    ∀ opcode address, strict.result = .error (.unknownOpcode opcode address) →
      strict.lines <+: lenient.lines ∧
        strict.events ++ [.ignored opcode address] <+: lenient.events := by
  intro strict lenient
  have hshow := restricts_showRegisters (boot program true sink) rfl
  have hall : strict.Restricts lenient :=
    hshow.bind fun _ _ => restricts_run _ hshow.strict_eq
  refine ⟨?_, hall.parted⟩
  intro hknown
  obtain ⟨hsame, hevents⟩ := hall.same hknown
  rw [hsame]
  exact ⟨rfl, rfl, rfl, rfl, rfl, hevents⟩

end Machine
end RegisterMachine
