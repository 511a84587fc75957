import RegisterMachine.Instruction
import RegisterMachine.Machine

/-! # One instruction

The description of a known instruction is traced before the instruction is carried out. An unknown
opcode is a fault of a strict machine; any other machine notes it, traces it and goes on.
-/
namespace RegisterMachine.Machine
open Routine

def read (index : Int) : Routine Int := do
  Routine.ofExcept ((← machine).registers.read index)

def write (index value : Int) : Routine Unit := do
  let registers ← Routine.ofExcept ((← machine).registers.write index value)
  update fun m => { m with registers := registers }

def fetch : Routine Word := do
  let (word, program) ← Routine.ofExcept (← machine).program.fetch
  update fun m => { m with program := program }
  return word

def showRegisters : Routine Unit := do
  emit (← machine).registers.snapshot

def logState : Routine Unit := do
  let m ← machine
  log (.state m.program.pc m.registers.cells)

def describe (i : Instruction) : Routine String :=
  match i.describe? with
  | some text => pure text
  | none => fault .unwritable

/-- Carries out an operation on the fields of an instruction. The operands of a sum are read before
its target is written. -/
def perform (i : Instruction) : Operation → Routine Unit
  | .halt => update fun m => { m with running := false }
  | .loadi => write i.op1 i.imm
  | .add => do
    let left ← read i.op2
    let right ← read i.op3
    write i.op1 (left + right)

/-- The address of the word that was fetched last, one before the counter. -/
def lastAddress (m : Machine) : Int := (m.program.pc : Int) - 1

def passOver (i : Instruction) : Routine Unit := do
  let m ← machine
  if m.strict then
    fault (.unknownOpcode i.opcode m.lastAddress)
  else
    log (.ignored i.opcode m.lastAddress)
    emit (← describe i)

def evaluate (i : Instruction) : Routine Unit :=
  match i.operation? with
  | some op => do
    emit (← describe i)
    perform i op
  | none => passOver i

def step : Routine Unit := do
  if (← machine).running then
    let word ← fetch
    evaluate (Instruction.ofWord word)
    logState
  else
    fault .halted

end RegisterMachine.Machine
