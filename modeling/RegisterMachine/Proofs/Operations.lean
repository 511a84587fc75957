import RegisterMachine.Proofs.Endings

/-! # The operations, cell by cell

What each opcode makes of four registers, whatever integers stand in the fields of the instruction:
when it succeeds, which cell it replaces and by which value, and that everything else stays as it
was. A field that the operation does not use has no part in this.
-/
namespace RegisterMachine

def IsRegister (index : Int) : Prop := 0 ≤ index ∧ index ≤ 3

/-- The cells `new` are the cells `old`, but for the one of the index, which holds the value. -/
structure Replaces (index value : Int) (old new : List Int) : Prop where
  length_eq : new.length = old.length
  replaced : new[index.toNat]? = some value
  kept : ∀ k : Nat, (k : Int) ≠ index → new[k]? = old[k]?

section Cells
variable {cells : List Int} {index : Int}

theorem replaces_set (hcells : cells.length = 4) (h : IsRegister index) (value : Int) :
    Replaces index value cells (cells.set index.toNat value) := by
  obtain ⟨hlow, hhigh⟩ := h
  refine ⟨List.length_set, List.getElem?_set_self (by omega), ?_⟩
  intro k hk
  exact List.getElem?_set_ne (by omega)

theorem getElem?_of_isRegister (hcells : cells.length = 4) (h : IsRegister index) :
    cells[index.toNat]? = some (cells.getD index.toNat 0) := by
  obtain ⟨hlow, hhigh⟩ := h
  have hlt : index.toNat < cells.length := by omega
  rw [List.getD_eq_getElem?_getD, List.getElem?_eq_getElem hlt]
  rfl

end Cells

namespace Instruction
variable {i j : Instruction}

theorem missing?_eq_none_iff : i.missing? 4 = none ↔ ∀ index ∈ i.lookups, IsRegister index := by
  rw [missing?, List.find?_eq_none]
  refine forall₂_congr fun index _ => ?_
  rw [IsRegister, decide_not, Bool.not_eq_true', decide_eq_false_iff_not, Classical.not_not]
  omega

section Effect
variable (cells : List Int)

theorem effect_of_loadi (h : i.opcode = 1) :
    i.effect cells = cells.set i.op1.toNat (wrap i.imm) := by
  have hop : i.operation? = some .loadi := operation?_eq_some_iff.2 h
  rw [effect, hop]

theorem effect_of_add (h : i.opcode = 2) :
    i.effect cells =
      cells.set i.op1.toNat (wrap (cells.getD i.op2.toNat 0 + cells.getD i.op3.toNat 0)) := by
  have hop : i.operation? = some .add := operation?_eq_some_iff.2 h
  rw [effect, hop]

theorem effect_of_ne (h1 : i.opcode ≠ 1) (h2 : i.opcode ≠ 2) : i.effect cells = cells := by
  cases hop : i.operation? with
  | none => rw [effect, hop]
  | some op =>
    have hcode := operation?_eq_some_iff.1 hop
    cases op with
    | halt => rw [effect, hop]
    | loadi => exact absurd hcode h1
    | add => exact absurd hcode h2

theorem effect_effect_of_loadi (h : i.opcode = 1) : i.effect (i.effect cells) = i.effect cells := by
  rw [effect_of_loadi _ h, effect_of_loadi _ h, List.set_set]

end Effect

section Unused
variable (hop : j.operation? = i.operation?) (hoperands : j.operands = i.operands)
include hop hoperands

theorem text_congr : j.text = i.text := by
  unfold operands at hoperands
  unfold text
  rw [hop] at hoperands ⊢
  cases hcase : i.operation? with
  | none => rfl
  | some op =>
    cases op with
    | halt => rfl
    | loadi =>
      simp only [hcase, List.cons.injEq] at hoperands
      simp only [hoperands]
    | add =>
      simp only [hcase, List.cons.injEq] at hoperands
      simp only [hoperands]

theorem perform_congr {op : Operation} (hcase : i.operation? = some op) :
    Machine.perform j op = Machine.perform i op := by
  unfold operands at hoperands
  rw [hop, hcase] at hoperands
  cases op with
  | halt => rfl
  | loadi =>
    simp only [List.cons.injEq] at hoperands
    simp only [Machine.perform, hoperands]
  | add =>
    simp only [List.cons.injEq] at hoperands
    simp only [Machine.perform, hoperands]

theorem describe_congr : Machine.describe j = Machine.describe i := by
  have hd : j.Describable ↔ i.Describable := by rw [Describable, Describable, hoperands]
  simp only [Machine.describe, describe?, hd, text_congr hop hoperands]

end Unused

/-- An instruction is carried out for its opcode and the fields that the operation uses. -/
theorem evaluate_congr (hcode : j.opcode = i.opcode) (hoperands : j.operands = i.operands) :
    Machine.evaluate j = Machine.evaluate i := by
  have hop : j.operation? = i.operation? := congrArg Operation.ofOpcode? hcode
  have hdescribe := describe_congr hop hoperands
  unfold Machine.evaluate
  rw [hop]
  cases hcase : i.operation? with
  | none => simp only [Machine.passOver, hcode, hdescribe]
  | some op => simp only [hdescribe, perform_congr hop hoperands hcase]

end Instruction

namespace Machine

/-- The outcome `o` of the instruction `i` on the machine `m` with four registers, whose sink takes
the line of the instruction and is `sink` then. -/
structure Fulfils (i : Instruction) (m : Machine) (sink : Sink) (o : Outcome Unit) : Prop where
  halt : i.opcode = 0 →
    o.result = .ok () ∧ o.machine.registers = m.registers ∧ o.machine.running = false
  loadi : i.opcode = 1 →
    (o.result = .ok () ↔ IsRegister i.op1) ∧
    (o.result = .ok () →
      Replaces i.op1 (wrap i.imm) m.registers.cells o.machine.registers.cells)
  add : i.opcode = 2 →
    (o.result = .ok () ↔ IsRegister i.op1 ∧ IsRegister i.op2 ∧ IsRegister i.op3) ∧
    (o.result = .ok () → ∃ left right,
      m.registers.cells[i.op2.toNat]? = some left ∧
      m.registers.cells[i.op3.toNat]? = some right ∧
      Replaces i.op1 (wrap (left + right)) m.registers.cells o.machine.registers.cells)
  unknown : i.opcode ≠ 0 ∧ i.opcode ≠ 1 ∧ i.opcode ≠ 2 →
    (o.result = .ok () ↔ m.strict = false) ∧
    (o.result = .ok () → o.machine.registers = m.registers)
  running : o.result = .ok () → i.opcode ≠ 0 → o.machine.running = m.running
  kept : o.result = .ok () →
    o.machine.program = m.program ∧ o.machine.strict = m.strict ∧ o.machine.sink = sink
  traced : o.result = .ok () → i.describe? = some i.text ∧ o.lines = [i.text]

/-- A halt is the only instruction that changes whether the machine is running. -/
theorem running_carryOut (i : Instruction) (m : Machine) :
    (i.carryOut m).running = (m.running && decide (i.opcode ≠ 0)) := by
  have hop : i.operation? = some .halt ↔ i.opcode = 0 := Instruction.operation?_eq_some_iff
  simp [Instruction.carryOut, hop]

section Evaluates
variable {i : Instruction} {m : Machine} {sink : Sink} {o : Outcome Unit}

/-- If its line can be written and is taken, only a missing register or strictness keeps an
instruction from succeeding. -/
theorem Evaluates.result_eq_ok_iff (h : Evaluates i m o) (hsize : m.registers.size = 4)
    (hd : i.Describable) (ha : m.sink.accept = .ok sink) :
    o.result = .ok () ↔
      (i.operation? = none → m.strict = false) ∧ ∀ index ∈ i.lookups, IsRegister index := by
  rw [← Instruction.missing?_eq_none_iff, ← hsize]
  cases h with
  | unknown hop hstrict => simp [hop, hstrict]
  | unwritable hd' => exact absurd hd hd'
  | refused _ _ ha' => cases ha.symm.trans ha'
  | missing _ _ hm => simp [hm]
  | done _ hstrict _ hm => exact iff_of_true rfl ⟨hstrict, hm⟩

theorem Evaluates.of_ok (h : Evaluates i m o) (ha : m.sink.accept = .ok sink)
    (hok : o.result = .ok ()) :
    i.Describable ∧ o.machine = i.carryOut (m.withSink sink) ∧ o.lines = [i.text] := by
  cases h with
  | unknown => cases hok
  | unwritable => cases hok
  | refused => cases hok
  | missing => cases hok
  | done hd _ ha' _ =>
    cases ha.symm.trans ha'
    exact ⟨hd, rfl, rfl⟩

theorem Evaluates.cells_of_ok (h : Evaluates i m o) (ha : m.sink.accept = .ok sink)
    (hok : o.result = .ok ()) : o.machine.registers.cells = i.effect m.registers.cells := by
  rw [(h.of_ok ha hok).2.1]
  rfl

theorem Evaluates.registers_of_ne (h : Evaluates i m o) (ha : m.sink.accept = .ok sink)
    (h1 : i.opcode ≠ 1) (h2 : i.opcode ≠ 2) (hok : o.result = .ok ()) :
    o.machine.registers = m.registers := by
  have hcells := h.cells_of_ok ha hok
  rw [Instruction.effect_of_ne _ h1 h2] at hcells
  exact congrArg RegisterFile.mk hcells

theorem Evaluates.running_of_ok (h : Evaluates i m o) (ha : m.sink.accept = .ok sink)
    (hok : o.result = .ok ()) : o.machine.running = (m.running && decide (i.opcode ≠ 0)) := by
  rw [(h.of_ok ha hok).2.1, running_carryOut]
  rfl

theorem Evaluates.fulfils (h : Evaluates i m o) (hsize : m.registers.size = 4) (hd : i.Describable)
    (ha : m.sink.accept = .ok sink) : Fulfils i m sink o := by
  have hiff := h.result_eq_ok_iff hsize hd ha
  have hknown : ∀ op : Operation, i.opcode = op.opcode → i.operation? ≠ none := by
    intro op hcode hnone
    cases hnone.symm.trans (Instruction.operation?_eq_some_iff.2 hcode)
  refine ⟨?halt, ?loadi, ?add, ?unknown, ?running, ?kept, ?traced⟩
  case halt =>
    intro hcode
    rw [Instruction.lookups_of_ne (by omega) (by omega)] at hiff
    have hok : o.result = .ok () := by
      refine hiff.2 ⟨fun hnone => absurd hnone (hknown .halt hcode), ?_⟩
      exact fun _ hindex => absurd hindex List.not_mem_nil
    refine ⟨hok, h.registers_of_ne ha (by omega) (by omega) hok, ?_⟩
    rw [h.running_of_ok ha hok]
    simp [hcode]
  case loadi =>
    intro hcode
    have hok : o.result = .ok () ↔ IsRegister i.op1 := by
      simpa [Instruction.lookups_of_loadi hcode, hknown .loadi hcode] using hiff
    refine ⟨hok, ?_⟩
    intro hresult
    rw [h.cells_of_ok ha hresult, Instruction.effect_of_loadi _ hcode]
    exact replaces_set hsize (hok.1 hresult) _
  case add =>
    intro hcode
    have hok : o.result = .ok () ↔ IsRegister i.op1 ∧ IsRegister i.op2 ∧ IsRegister i.op3 := by
      simp only [Instruction.lookups_of_add hcode, hknown .add hcode, false_implies,
        true_and, List.forall_mem_cons, List.not_mem_nil, implies_true, and_true] at hiff
      rw [hiff, ← and_assoc, and_comm]
    refine ⟨hok, ?_⟩
    intro hresult
    obtain ⟨h1, h2, h3⟩ := hok.1 hresult
    refine ⟨_, _, getElem?_of_isRegister hsize h2, getElem?_of_isRegister hsize h3, ?_⟩
    rw [h.cells_of_ok ha hresult, Instruction.effect_of_add _ hcode]
    exact replaces_set hsize h1 _
  case unknown =>
    intro hcode
    rw [Instruction.lookups_of_ne hcode.2.1 hcode.2.2] at hiff
    have hok : o.result = .ok () ↔ m.strict = false := by
      simpa [Instruction.operation?_eq_none_iff.2 hcode] using hiff
    exact ⟨hok, h.registers_of_ne ha hcode.2.1 hcode.2.2⟩
  case running =>
    intro hok hcode
    rw [h.running_of_ok ha hok]
    simp [hcode]
  case kept =>
    intro hok
    rw [(h.of_ok ha hok).2.1]
    exact ⟨rfl, rfl, rfl⟩
  case traced =>
    intro hok
    exact ⟨Instruction.describe?_of_describable hd, (h.of_ok ha hok).2.2⟩

/-- A `loadi` that follows itself changes nothing any more, nor does it fault in another way. -/
theorem Evaluates.again_of_loadi {sink' : Sink} (h : Evaluates i m o) (hcode : i.opcode = 1)
    (hd : i.Describable) (ha : m.sink.accept = .ok sink) (ha' : sink.accept = .ok sink') :
    Evaluates i o.machine ⟨o.machine.withSink sink', [i.text], [], o.result⟩ := by
  have hop : i.operation? = some .loadi := Instruction.operation?_eq_some_iff.2 hcode
  have hnotes : ∀ address, i.notes address = [] := by simp [Instruction.notes, hop]
  cases h with
  | unknown hnone => cases hop.symm.trans hnone
  | unwritable hd' => exact absurd hd hd'
  | refused _ _ hrefused => cases ha.symm.trans hrefused
  | missing _ hsink hm =>
    cases ha.symm.trans hsink
    exact .missing hd ha' hm
  | @done _ _ hstrict hsink hm =>
    cases ha.symm.trans hsink
    have hsame : i.carryOut ((i.carryOut (m.withSink sink)).withSink sink') =
        (i.carryOut (m.withSink sink)).withSink sink' := by
      simp [Instruction.carryOut, withSink, Instruction.effect_effect_of_loadi _ hcode]
    have hsize : (i.carryOut (m.withSink sink)).registers.size = m.registers.size :=
      i.length_effect m.registers.cells
    have hdone := Evaluates.done (m := i.carryOut (m.withSink sink)) hd
      (fun hnone => by cases hop.symm.trans hnone) ha' (hsize ▸ hm)
    rwa [hsame, hnotes] at hdone

end Evaluates

/-- Any instruction does on a machine with four registers what its opcode says, whatever stands in
its fields. The fields that its operation does not use make no difference, and a second `loadi` with
the same fields makes none either. -/
theorem evaluate_fulfils (m : Machine) (i : Instruction) {sink : Sink}
    (hsize : m.registers.size = 4) (hd : i.Describable) (ha : m.sink.accept = .ok sink) :
    Fulfils i m sink ((evaluate i).run m) ∧
    (∀ j : Instruction, j.opcode = i.opcode → j.operands = i.operands →
      (evaluate j).run m = (evaluate i).run m) ∧
    (i.opcode = 1 → ∀ sink', sink.accept = .ok sink' →
      let once := (evaluate i).run m
      let twice := (evaluate i).run once.machine
      twice.result = once.result ∧ twice.machine = once.machine.withSink sink') := by
  have hev := evaluates_run i m
  refine ⟨hev.fulfils hsize hd ha, ?_, ?_⟩
  · intro j hcode hoperands
    rw [Instruction.evaluate_congr hcode hoperands]
  · intro hcode sink' ha'
    dsimp only
    rw [(hev.again_of_loadi hcode hd ha ha').run_eq]
    exact ⟨rfl, rfl⟩

/-- A register is doubled on a halted machine, by an instruction whose immediate no word holds. -/
theorem evaluate_fulfils_doubling :
    let m : Machine := ⟨⟨[], 0⟩, ⟨[0x7FFFFFFFFFFFFFFF, -1, 5, 0]⟩, false, true, ⟨some 1, .failure⟩⟩
    let i : Instruction := ⟨2, 0, 0, 0, -7⟩
    let o := (evaluate i).run m
    m.registers.size = 4 ∧ i.Describable ∧ m.sink.accept = .ok ⟨some 0, .failure⟩ ∧
      o.result = .ok () ∧ Replaces 0 (-2) m.registers.cells o.machine.registers.cells ∧
      o.machine.running = false ∧ o.lines = ["add r0 r0 r0"] := by
  intro m i o
  have hd : i.Describable := by decide +kernel
  have h : Fulfils i m ⟨some 0, .failure⟩ o := (evaluate_fulfils m i rfl hd rfl).1
  have hok : o.result = .ok () := (h.add rfl).1.2 (by simp [i, IsRegister])
  obtain ⟨left, right, hleft, hright, hcells⟩ := (h.add rfl).2 hok
  cases hleft
  cases hright
  have hsum : wrap (0x7FFFFFFFFFFFFFFF + 0x7FFFFFFFFFFFFFFF) = -2 := by decide +kernel
  have htext : i.text = "add r0 r0 r0" := by decide +kernel
  rw [hsum] at hcells
  refine ⟨rfl, hd, rfl, hok, hcells, h.running hok (by decide), ?_⟩
  rw [(h.traced hok).2, htext]

end Machine
end RegisterMachine
