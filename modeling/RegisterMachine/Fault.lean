import RegisterMachine.Numeral.Writing
import RegisterMachine.Sink

/-! # Faults

Every way in which a step of the machine can go wrong, and what is said about it.
-/
namespace RegisterMachine

inductive Fault where
  | pastEnd (pc size : Nat)
  | noRegister (index : Int) (size : Nat)
  | unknownOpcode (opcode address : Int)
  | halted
  /-- A number too long to be written was to be named. -/
  | unwritable
  | refused (reason : Refusal)
  deriving DecidableEq, Repr

namespace Fault
open Numeral

def message : Fault → String
  | pastEnd pc size =>
    "PC " ++ decimal pc ++ " past the end of a " ++ decimal size ++ "-word program"
  | noRegister index size =>
    "r" ++ decimal index ++ " is not one of r0..r" ++ decimal ((size : Int) - 1)
  | unknownOpcode opcode address => "Opcode " ++ hex opcode ++ " at PC " ++ decimal address
  | halted => "Machine is halted"
  | unwritable => unwritableMessage
  | refused .failure => "sink failed"
  | refused .interrupt => ""

/-- The name under which a fault of the machine itself is reported. Faults of its surroundings have
none. -/
def title? : Fault → Option String
  | pastEnd .. => some "ProgramOutOfBounds"
  | noRegister .. => some "InvalidRegister"
  | unknownOpcode .. => some "InvalidOpcode"
  | halted => some "MachineHalted"
  | unwritable | refused _ => none

end Fault
end RegisterMachine
