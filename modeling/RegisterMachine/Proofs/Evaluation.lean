import RegisterMachine.Machine.Step
import RegisterMachine.Proofs.Decoding

/-! # What an instruction does to a machine

The effect of an instruction on the cells, and the registers that it looks up on the way, the
sources of a sum before its target. Evaluation is described by the two: it looks all registers up
before it changes anything, so either one of them is missing and the machine is as before, or the
effect takes place as a whole.
-/
namespace RegisterMachine
namespace Instruction

/-- The registers that the instruction looks up, in the order in which it does so. -/
def lookups (i : Instruction) : List Int :=
  match i.operation? with
  | some .loadi => [i.op1]
  | some .add => [i.op2, i.op3, i.op1]
  | some .halt | none => []

theorem lookups_of_loadi {i : Instruction} (h : i.opcode = 1) : i.lookups = [i.op1] := by
  have hop : i.operation? = some .loadi := operation?_eq_some_iff.2 h
  simp [lookups, hop]

theorem lookups_of_add {i : Instruction} (h : i.opcode = 2) :
    i.lookups = [i.op2, i.op3, i.op1] := by
  have hop : i.operation? = some .add := operation?_eq_some_iff.2 h
  simp [lookups, hop]

/-- Only a `loadi` and an `add` look up registers. -/
theorem lookups_of_ne {i : Instruction} (h1 : i.opcode ≠ 1) (h2 : i.opcode ≠ 2) :
    i.lookups = [] := by
  cases hop : i.operation? with
  | none => simp [lookups, hop]
  | some op =>
    have hcode := operation?_eq_some_iff.1 hop
    cases op with
    | halt => simp [lookups, hop]
    | loadi => exact absurd hcode h1
    | add => exact absurd hcode h2

/-- The first register looked up that a file of `size` registers does not have. -/
def missing? (i : Instruction) (size : Nat) : Option Int :=
  i.lookups.find? fun index => ¬ (0 ≤ index ∧ index < size)

def effect (i : Instruction) (cells : List Int) : List Int :=
  match i.operation? with
  | some .loadi => cells.set i.op1.toNat (wrap i.imm)
  | some .add =>
    cells.set i.op1.toNat (wrap (cells.getD i.op2.toNat 0 + cells.getD i.op3.toNat 0))
  | some .halt | none => cells

/-- The machine after the instruction: apart from the cells, a halt stops it. -/
def carryOut (i : Instruction) (m : Machine) : Machine :=
  { m with
    registers := ⟨i.effect m.registers.cells⟩
    running := m.running && i.operation? ≠ some .halt }

@[simp] theorem length_effect (i : Instruction) (cells : List Int) :
    (i.effect cells).length = cells.length := by
  unfold effect
  split <;> simp

theorem carryOut_of_unknown {i : Instruction} (h : i.operation? = none) (m : Machine) :
    i.carryOut m = m := by
  simp [carryOut, effect, h]

theorem describe?_of_describable {i : Instruction} (h : i.Describable) :
    i.describe? = some i.text :=
  if_pos h

end Instruction

namespace RegisterFile

def absence (r : RegisterFile) (index : Int) : Fault :=
  Numeral.naming [index] (.noRegister index r.size) .unwritable

section Lookup
variable {r : RegisterFile} {index : Int}

theorem check_of_mem (h : 0 ≤ index ∧ index < r.size) : r.check index = .ok () := if_pos h

theorem check_of_not_mem (h : ¬ (0 ≤ index ∧ index < r.size)) :
    r.check index = .error (r.absence index) :=
  if_neg h

theorem read_of_mem (h : 0 ≤ index ∧ index < r.size) :
    r.read index = .ok (r.cells.getD index.toNat 0) := by
  rw [read, check_of_mem h]
  rfl

theorem read_of_not_mem (h : ¬ (0 ≤ index ∧ index < r.size)) :
    r.read index = .error (r.absence index) := by
  rw [read, check_of_not_mem h]
  rfl

theorem write_of_mem (h : 0 ≤ index ∧ index < r.size) (value : Int) :
    r.write index value = .ok ⟨r.cells.set index.toNat (wrap value)⟩ := by
  rw [write, check_of_mem h]
  rfl

theorem write_of_not_mem (h : ¬ (0 ≤ index ∧ index < r.size)) (value : Int) :
    r.write index value = .error (r.absence index) := by
  rw [write, check_of_not_mem h]
  rfl

end Lookup
end RegisterFile

/-- The fault of an instruction from an address, if its text can be written and traced. -/
def Instruction.fault? (i : Instruction) (r : RegisterFile) (strict : Bool) (address : Int) :
    Option Fault :=
  match i.operation? with
  | some _ => (i.missing? r.size).map r.absence
  | none => if strict then some (.unknownOpcode i.opcode address) else none

/-- What is noted about an instruction from an address before it is traced. -/
def Instruction.notes (i : Instruction) (address : Int) : List Event :=
  match i.operation? with
  | some _ => []
  | none => [.ignored i.opcode address]

namespace Machine
open Routine

section Lookup
variable {m : Machine} {index : Int}

theorem run_read_of_mem (h : 0 ≤ index ∧ index < m.registers.size) :
    (read index).run m = ⟨m, [], [], .ok (m.registers.cells.getD index.toNat 0)⟩ := by
  simp [read, RegisterFile.read_of_mem h]

theorem run_read_of_not_mem (h : ¬ (0 ≤ index ∧ index < m.registers.size)) :
    (read index).run m = ⟨m, [], [], .error (m.registers.absence index)⟩ := by
  simp [read, RegisterFile.read_of_not_mem h]

theorem run_write_of_mem (h : 0 ≤ index ∧ index < m.registers.size) (value : Int) :
    (write index value).run m =
      ⟨{ m with registers := ⟨m.registers.cells.set index.toNat (wrap value)⟩ }, [], [],
        .ok ()⟩ := by
  simp [write, RegisterFile.write_of_mem h]

theorem run_write_of_not_mem (h : ¬ (0 ≤ index ∧ index < m.registers.size)) (value : Int) :
    (write index value).run m = ⟨m, [], [], .error (m.registers.absence index)⟩ := by
  simp [write, RegisterFile.write_of_not_mem h]

end Lookup

section Perform
variable {i : Instruction} {op : Operation} {m : Machine}

/-- Without a missing register the operation has its whole effect. -/
theorem run_perform_of_none (hop : i.operation? = some op)
    (h : i.missing? m.registers.size = none) :
    (perform i op).run m = ⟨i.carryOut m, [], [], .ok ()⟩ := by
  cases op with
  | halt => simp [perform, Instruction.carryOut, Instruction.effect, hop]
  | loadi =>
    have h1 : 0 ≤ i.op1 ∧ i.op1 < m.registers.size := by
      simpa [Instruction.missing?, Instruction.lookups, hop] using h
    rw [perform, run_write_of_mem h1]
    simp [Instruction.carryOut, Instruction.effect, hop]
  | add =>
    have hall : (0 ≤ i.op2 ∧ i.op2 < m.registers.size) ∧ (0 ≤ i.op3 ∧ i.op3 < m.registers.size) ∧
        0 ≤ i.op1 ∧ i.op1 < m.registers.size := by
      simpa [Instruction.missing?, Instruction.lookups, hop] using h
    obtain ⟨h2, h3, h1⟩ := hall
    simp only [perform, run_bind, run_read_of_mem h2, run_read_of_mem h3, run_write_of_mem h1,
      Outcome.bind_mk_ok]
    simp [Instruction.carryOut, Instruction.effect, hop]

/-- A missing register leaves the machine as it was. -/
theorem run_perform_of_some {index : Int} (hop : i.operation? = some op)
    (h : i.missing? m.registers.size = some index) :
    (perform i op).run m = ⟨m, [], [], .error (m.registers.absence index)⟩ := by
  simp only [Instruction.missing?, Instruction.lookups, hop] at h
  cases op with
  | halt => simp at h
  | loadi =>
    by_cases h1 : 0 ≤ i.op1 ∧ i.op1 < m.registers.size
    · simp [h1] at h
    · have he : i.op1 = index := (by simpa [h1] using h : _ ∧ _).2
      subst he
      rw [perform, run_write_of_not_mem h1]
  | add =>
    simp only [List.find?_cons] at h
    by_cases h2 : 0 ≤ i.op2 ∧ i.op2 < m.registers.size
    · by_cases h3 : 0 ≤ i.op3 ∧ i.op3 < m.registers.size
      · by_cases h1 : 0 ≤ i.op1 ∧ i.op1 < m.registers.size
        · simp [h1, h2, h3] at h
        · have he : i.op1 = index := by simpa [h1, h2, h3] using h
          subst he
          simp [perform, run_read_of_mem h2, run_read_of_mem h3, run_write_of_not_mem h1]
      · have he : i.op3 = index := by simpa [h2, h3] using h
        subst he
        simp [perform, run_read_of_mem h2, run_read_of_not_mem h3]
    · have he : i.op2 = index := by simpa [h2] using h
      subst he
      simp [perform, run_read_of_not_mem h2]

end Perform

section Endless
variable {i : Instruction} {m : Machine}

theorem run_emit_of_endless (h : m.sink.room = none) (line : String) :
    (emit line).run m = ⟨m, [line], [], .ok ()⟩ := by
  have ha : m.sink.accept = .ok m.sink := by simp [Sink.accept, h]
  rw [run_emit_of_ok ha]

theorem run_showRegisters_of_endless (h : m.sink.room = none) :
    showRegisters.run m = ⟨m, [m.registers.snapshot], [], .ok ()⟩ := by
  simp [showRegisters, run_emit_of_endless h]

theorem run_describe_of_describable (h : i.Describable) (m : Machine) :
    (describe i).run m = ⟨m, [], [], .ok i.text⟩ := by
  simp [describe, Instruction.describe?_of_describable h]

theorem run_evaluate_of_none (hs : m.sink.room = none) (hd : i.Describable)
    (h : i.fault? m.registers m.strict m.lastAddress = none) :
    (evaluate i).run m = ⟨i.carryOut m, [i.text], i.notes m.lastAddress, .ok ()⟩ := by
  cases hop : i.operation? with
  | some op =>
    have hm : i.missing? m.registers.size = none := by simpa [Instruction.fault?, hop] using h
    simp [evaluate, hop, run_describe_of_describable hd, run_emit_of_endless hs,
      run_perform_of_none hop hm, Instruction.notes]
  | none =>
    have hstrict : m.strict = false := by simpa [Instruction.fault?, hop] using h
    simp [evaluate, passOver, hop, hstrict, run_describe_of_describable hd,
      run_emit_of_endless hs, Instruction.notes, Instruction.carryOut_of_unknown hop]

/-- A fault comes after the text of a known instruction and instead of that of an unknown one. -/
theorem run_evaluate_of_some {e : Fault} (hs : m.sink.room = none) (hd : i.Describable)
    (h : i.fault? m.registers m.strict m.lastAddress = some e) :
    (evaluate i).run m =
      ⟨m, if i.operation?.isSome then [i.text] else [], [], .error e⟩ := by
  cases hop : i.operation? with
  | some op =>
    obtain ⟨index, hm, rfl⟩ : ∃ index, i.missing? m.registers.size = some index ∧
        m.registers.absence index = e := by simpa [Instruction.fault?, hop] using h
    simp [evaluate, hop, run_describe_of_describable hd, run_emit_of_endless hs,
      run_perform_of_some hop hm]
  | none =>
    obtain ⟨hstrict, rfl⟩ : m.strict = true ∧ Fault.unknownOpcode i.opcode m.lastAddress = e := by
      simpa [Instruction.fault?, hop] using h
    simp [evaluate, passOver, hop, hstrict]

end Endless
end Machine
end RegisterMachine
