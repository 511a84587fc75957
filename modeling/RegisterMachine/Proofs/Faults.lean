import RegisterMachine.Proofs.Endings

/-! # What a fault leaves behind

An instruction that faults has changed no register and stopped nothing, and it has logged no state.
A fetch that came before the fault stays done. The only line that may have been traced is the text
of an instruction one of whose registers is missing, because any other fault comes before the text.
-/
namespace RegisterMachine
namespace Fault

def MissesRegister : Fault → Prop
  | noRegister _ _ => True
  | _ => False

def PrecludesFetch : Fault → Prop
  | halted | pastEnd _ _ => True
  | _ => False

end Fault

namespace Machine
open Routine

/-- The outcome `o` of a fault `e`, compared with the machine before. The text of the instruction
is `text?`, if there is an instruction that can be written. -/
structure LeavesIntact (m : Machine) (text? : Option String) (e : Fault) (o : Outcome Unit) :
    Prop where
  registers : o.machine.registers = m.registers
  running : o.machine.running = m.running
  quiet : ∀ event ∈ o.events, event.level ≠ .debug
  traced : e.MissesRegister → ∃ text, text? = some text ∧ o.lines = [text]
  untraced : ¬ e.MissesRegister → o.lines = []

section Intact
variable {i : Instruction} {m : Machine} {o : Outcome Unit} {e : Fault}

theorem level_of_mem_notes {address : Int} {event : Event} (h : event ∈ i.notes address) :
    event.level ≠ .debug := by
  unfold Instruction.notes at h
  split at h
  · cases h
  · rw [List.mem_singleton.1 h]
    exact Level.noConfusion

theorem leavesIntact_of_untraced {text? : Option String} {events : List Event}
    (he : ¬ e.MissesRegister) (hquiet : ∀ event ∈ events, event.level ≠ .debug) :
    LeavesIntact m text? e ⟨m, [], events, .error e⟩ :=
  ⟨rfl, rfl, hquiet, fun hm => absurd hm he, fun _ => rfl⟩

/-- An evaluation that faults keeps the counter too, whether or not the machine is running. -/
theorem Evaluates.leavesIntact (h : Evaluates i m o) (he : o.result = .error e) :
    LeavesIntact m i.describe? e o ∧ o.machine.program = m.program ∧ ¬ e.PrecludesFetch := by
  cases h with
  | unknown =>
    cases he
    exact ⟨leavesIntact_of_untraced id (by simp), rfl, id⟩
  | unwritable =>
    cases he
    exact ⟨leavesIntact_of_untraced id (by simp), rfl, id⟩
  | refused =>
    cases he
    exact ⟨leavesIntact_of_untraced id fun _ => level_of_mem_notes, rfl, id⟩
  | missing hd =>
    cases he
    have htext := Instruction.describe?_of_describable hd
    exact ⟨⟨rfl, rfl, by simp, fun _ => ⟨_, htext, rfl⟩, fun hm => absurd trivial hm⟩, rfl, id⟩
  | done => cases he

theorem Steps.leavesIntact (h : Steps m o) (he : o.result = .error e) :
    LeavesIntact m (m.program.words[m.program.pc]?.bind fun w => (Instruction.ofWord w).describe?)
      e o ∧
    (e.PrecludesFetch → o.machine.program = m.program) ∧
    (¬ e.PrecludesFetch → o.machine.program = { m.program with pc := m.program.pc + 1 }) := by
  cases h with
  | halted =>
    cases he
    exact ⟨leavesIntact_of_untraced id (by simp), fun _ => rfl, fun hp => absurd trivial hp⟩
  | pastEnd =>
    cases he
    exact ⟨leavesIntact_of_untraced id (by simp), fun _ => rfl, fun hp => absurd trivial hp⟩
  | faulted _ hw hev =>
    cases he
    obtain ⟨hintact, hprogram, hfetch⟩ := hev.leavesIntact rfl
    rw [hw]
    exact ⟨⟨hintact.registers, hintact.running, hintact.quiet, hintact.traced, hintact.untraced⟩,
      fun hp => absurd hp hfetch, fun _ => hprogram⟩
  | done => cases he

/-- An instruction that faults leaves the registers as they were and the machine running or halted
as before, logs no state, and traces its text if and only if a register is missing. The counter is
behind the word that was fetched, if one was. -/
theorem fault_leavesIntact (m : Machine) (e : Fault) :
    (∀ i, ((evaluate i).run m).result = .error e →
      LeavesIntact m i.describe? e ((evaluate i).run m) ∧
      ((evaluate i).run m).machine.program = m.program) ∧
    ((step.run m).result = .error e →
      LeavesIntact m
        (m.program.words[m.program.pc]?.bind fun w => (Instruction.ofWord w).describe?) e
        (step.run m) ∧
      (e.PrecludesFetch → (step.run m).machine.program = m.program) ∧
      (¬ e.PrecludesFetch →
        (step.run m).machine.program = { m.program with pc := m.program.pc + 1 })) := by
  constructor
  · intro i he
    obtain ⟨hintact, hprogram, -⟩ := (evaluates_run i m).leavesIntact he
    exact ⟨hintact, hprogram⟩
  · exact (steps_run m).leavesIntact

/-- A register below zero and a register above `r3`, evaluated by hand and fetched. -/
theorem fault_leavesIntact_registers :
    let m : Machine := ⟨⟨[0x2041], 0⟩, ⟨[1, -2, 3, 4]⟩, true, true, ⟨some 1, .failure⟩⟩
    let i : Instruction := ⟨1, -1, 0, 0, 7⟩
    ((evaluate i).run m).result = .error (.noRegister (-1) 4) ∧
      ((evaluate i).run m).lines = ["loadi r-1 #7"] ∧
      ((evaluate i).run m).machine.registers = m.registers ∧
      (step.run m).result = .error (.noRegister 4 4) ∧ (step.run m).lines = ["add r0 r4 r1"] ∧
      (step.run m).machine.registers = m.registers ∧ (step.run m).machine.program.pc = 1 := by
  intro m i
  have hi : (evaluate i).run m = _ := Evaluates.run_eq (.missing (by decide +kernel) rfl rfl)
  have hw : (evaluate (.ofWord 0x2041)).run m.advance = _ :=
    Evaluates.run_eq (.missing (Instruction.describable_ofWord _) rfl rfl)
  have hstep := run_step_of_getElem? (m := m) (w := 0x2041) rfl rfl
  rw [hw, Outcome.bind_mk_error] at hstep
  have hevaluate := (fault_leavesIntact m (.noRegister (-1) 4)).1 i (by rw [hi]; rfl)
  have hfetched := (fault_leavesIntact m (.noRegister 4 4)).2 (by rw [hstep]; rfl)
  have htext : i.text = "loadi r-1 #7" := by decide +kernel
  have hword : (Instruction.ofWord 0x2041).text = "add r0 r4 r1" := by decide +kernel
  refine ⟨by rw [hi]; rfl, by rw [hi, htext], hevaluate.1.registers, by rw [hstep]; rfl,
    by rw [hstep, hword], hfetched.1.registers, ?_⟩
  rw [hfetched.2.2 id]

end Intact
end Machine
end RegisterMachine
