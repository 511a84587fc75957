import RegisterMachine.Proofs.Evaluation

/-! # How an instruction ends

The outcomes of an evaluation and of a step, one case for each way in which they can end, with any
sink and for any fields. Whatever holds of all instructions follows from these cases, without
another look at how an instruction is carried out.
-/
namespace RegisterMachine

namespace Instruction
variable {i : Instruction} {index : Int}

/-- Every register that is looked up is written in the text of the instruction. -/
theorem mem_operands_of_mem_lookups (h : index ∈ i.lookups) : index ∈ i.operands := by
  cases hop : i.operation? with
  | none => simp [lookups, hop] at h
  | some op =>
    cases op with
    | halt => simp [lookups, hop] at h
    | loadi =>
      have h1 : index = i.op1 := by simpa [lookups, hop] using h
      simp [operands, hop, h1]
    | add =>
      have h3 : index = i.op2 ∨ index = i.op3 ∨ index = i.op1 := by simpa [lookups, hop] using h
      rcases h3 with h | h | h <;> simp [operands, hop, h]

theorem absence_of_describable (hd : i.Describable) {r : RegisterFile}
    (h : i.missing? r.size = some index) : r.absence index = .noRegister index r.size := by
  have hw : ∀ n ∈ [index], Numeral.Writable n := by
    simpa using hd index (mem_operands_of_mem_lookups (List.mem_of_find?_eq_some h))
  rw [RegisterFile.absence, Numeral.naming, if_pos hw]

theorem missing?_of_unknown (h : i.operation? = none) (size : Nat) : i.missing? size = none := by
  simp [missing?, lookups, h]

theorem describable_of_unknown (h : i.operation? = none) : i.Describable := by
  simp [Describable, operands, h]

end Instruction

namespace Machine
open Routine

def withSink (m : Machine) (sink : Sink) : Machine := { m with sink := sink }

@[simp] theorem withSink_running (m : Machine) (sink : Sink) :
    (m.withSink sink).running = m.running := rfl

def advance (m : Machine) : Machine :=
  { m with program := { m.program with pc := m.program.pc + 1 } }

/-- The ways in which the evaluation of an instruction ends. -/
inductive Evaluates (i : Instruction) (m : Machine) : Outcome Unit → Prop where
  | unknown : i.operation? = none → m.strict = true →
      Evaluates i m ⟨m, [], [], .error (.unknownOpcode i.opcode m.lastAddress)⟩
  | unwritable : ¬ i.Describable → Evaluates i m ⟨m, [], [], .error .unwritable⟩
  | refused {reason : Refusal} : i.Describable → (i.operation? = none → m.strict = false) →
      m.sink.accept = .error reason →
      Evaluates i m ⟨m, [], i.notes m.lastAddress, .error (.refused reason)⟩
  | missing {sink : Sink} {index : Int} : i.Describable → m.sink.accept = .ok sink →
      i.missing? m.registers.size = some index →
      Evaluates i m
        ⟨m.withSink sink, [i.text], [], .error (.noRegister index m.registers.size)⟩
  | done {sink : Sink} : i.Describable → (i.operation? = none → m.strict = false) →
      m.sink.accept = .ok sink → i.missing? m.registers.size = none →
      Evaluates i m
        ⟨i.carryOut (m.withSink sink), [i.text], i.notes m.lastAddress, .ok ()⟩

/-- The ways in which a step ends. -/
inductive Steps (m : Machine) : Outcome Unit → Prop where
  | halted : m.running = false → Steps m ⟨m, [], [], .error .halted⟩
  | pastEnd : m.running = true → m.program.words[m.program.pc]? = none →
      Steps m ⟨m, [], [], .error (.pastEnd m.program.pc m.program.size)⟩
  | faulted {w : Word} {m' : Machine} {lines : List String} {events : List Event} {e : Fault} :
      m.running = true → m.program.words[m.program.pc]? = some w →
      Evaluates (.ofWord w) m.advance ⟨m', lines, events, .error e⟩ →
      Steps m ⟨m', lines, events, .error e⟩
  | done {w : Word} {m' : Machine} {lines : List String} {events : List Event} :
      m.running = true → m.program.words[m.program.pc]? = some w →
      Evaluates (.ofWord w) m.advance ⟨m', lines, events, .ok ()⟩ →
      Steps m ⟨m', lines, events ++ [.state m'.program.pc m'.registers.cells], .ok ()⟩

section Evaluation
variable {i : Instruction} {m : Machine} {o : Outcome Unit}

theorem run_emit_of_accept {sink : Sink} (h : m.sink.accept = .ok sink) (line : String) :
    (emit line).run m = ⟨m.withSink sink, [line], [], .ok ()⟩ :=
  run_emit_of_ok h line

theorem run_describe_of_not_describable (h : ¬ i.Describable) (m : Machine) :
    (describe i).run m = ⟨m, [], [], .error .unwritable⟩ := by
  simp [describe, Instruction.describe?, h]

theorem Evaluates.run_eq (h : Evaluates i m o) : (evaluate i).run m = o := by
  cases h with
  | unknown hop hstrict => simp [evaluate, passOver, hop, hstrict]
  | unwritable hd =>
    cases hop : i.operation? with
    | none => exact absurd (Instruction.describable_of_unknown hop) hd
    | some op => simp [evaluate, hop, run_describe_of_not_describable hd]
  | refused hd hstrict ha =>
    cases hop : i.operation? with
    | none =>
      simp [evaluate, passOver, hop, hstrict hop, run_describe_of_describable hd,
        run_emit_of_error ha, Instruction.notes]
    | some op =>
      simp [evaluate, hop, run_describe_of_describable hd, run_emit_of_error ha,
        Instruction.notes]
  | @missing sink index hd ha hm =>
    cases hop : i.operation? with
    | none => simp [Instruction.missing?_of_unknown hop] at hm
    | some op =>
      have hp : (perform i op).run (m.withSink sink) =
          ⟨m.withSink sink, [], [], .error (m.registers.absence index)⟩ :=
        run_perform_of_some hop hm
      rw [Instruction.absence_of_describable hd hm] at hp
      simp [evaluate, hop, run_describe_of_describable hd, run_emit_of_accept ha, hp]
  | @done sink hd hstrict ha hm =>
    cases hop : i.operation? with
    | none =>
      simp [evaluate, passOver, hop, hstrict hop, run_describe_of_describable hd,
        run_emit_of_accept ha, Instruction.notes, Instruction.carryOut_of_unknown hop]
    | some op =>
      have hp : (perform i op).run (m.withSink sink) = _ := run_perform_of_none hop hm
      simp [evaluate, hop, run_describe_of_describable hd, run_emit_of_accept ha, hp,
        Instruction.notes]

theorem evaluates_run (i : Instruction) (m : Machine) : Evaluates i m ((evaluate i).run m) := by
  have hex : ∃ o, Evaluates i m o := by
    by_cases hunknown : i.operation? = none ∧ m.strict = true
    · exact ⟨_, .unknown hunknown.1 hunknown.2⟩
    · have hstrict : i.operation? = none → m.strict = false := by simpa using hunknown
      by_cases hd : i.Describable
      · cases ha : m.sink.accept with
        | error reason => exact ⟨_, .refused hd hstrict ha⟩
        | ok sink =>
          cases hm : i.missing? m.registers.size with
          | some index => exact ⟨_, .missing hd ha hm⟩
          | none => exact ⟨_, .done hd hstrict ha hm⟩
      · exact ⟨_, .unwritable hd⟩
  obtain ⟨o, ho⟩ := hex
  rwa [ho.run_eq]

end Evaluation

section Step
variable {m : Machine} {w : Word}

theorem run_fetch_of_getElem? (h : m.program.words[m.program.pc]? = some w) :
    fetch.run m = ⟨m.advance, [], [], .ok w⟩ := by
  simp [fetch, Program.fetch, h, advance]

theorem run_fetch_of_getElem?_none (h : m.program.words[m.program.pc]? = none) :
    fetch.run m = ⟨m, [], [], .error (.pastEnd m.program.pc m.program.size)⟩ := by
  simp [fetch, Program.fetch, h]

theorem run_logState (m : Machine) :
    logState.run m = ⟨m, [], [.state m.program.pc m.registers.cells], .ok ()⟩ := rfl

/-- A step that fetches a word evaluates it and logs the state then. -/
theorem run_step_of_getElem? (hrun : m.running = true)
    (h : m.program.words[m.program.pc]? = some w) :
    step.run m = ((evaluate (.ofWord w)).run m.advance).bind fun _ => logState.run := by
  simp [step, hrun, run_fetch_of_getElem? h]

theorem Steps.run_eq {o : Outcome Unit} (h : Steps m o) : step.run m = o := by
  cases h with
  | halted hrun => simp [step, hrun]
  | pastEnd hrun hw => simp [step, hrun, run_fetch_of_getElem?_none hw]
  | faulted hrun hw hev => rw [run_step_of_getElem? hrun hw, hev.run_eq, Outcome.bind_mk_error]
  | done hrun hw hev =>
    rw [run_step_of_getElem? hrun hw, hev.run_eq, Outcome.bind_mk_ok, run_logState,
      List.append_nil]

theorem steps_run (m : Machine) : Steps m (step.run m) := by
  have hex : ∃ o, Steps m o := by
    cases hrun : m.running with
    | false => exact ⟨_, .halted hrun⟩
    | true =>
      cases hw : m.program.words[m.program.pc]? with
      | none => exact ⟨_, .pastEnd hrun hw⟩
      | some w =>
        have hev := evaluates_run (.ofWord w) m.advance
        generalize (evaluate (.ofWord w)).run m.advance = o at hev
        obtain ⟨m', lines, events, _ | _⟩ := o
        · exact ⟨_, .faulted hrun hw hev⟩
        · exact ⟨_, .done hrun hw hev⟩
  obtain ⟨o, ho⟩ := hex
  rwa [ho.run_eq]

end Step
end Machine
end RegisterMachine
