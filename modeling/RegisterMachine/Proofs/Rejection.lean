import RegisterMachine.Proofs.Failures
import RegisterMachine.Proofs.Packing

/-! # Accepted and rejected commands

Which opcodes with which operands are issued as words, and what all others are rejected for. The
operands of a `loadi` are counted before their values are looked at, and those of an `add` after
that. Whatever passes these checks fits the fields of a word, so the encoder never fails.
-/
namespace RegisterMachine
open Numeral

namespace AssemblyError

def numbers : AssemblyError → List Int
  | noRegister line register => [line, register]
  | immediate line value => [line, value]
  | unsupported line opcode => [line, opcode]
  | _ => []

end AssemblyError

namespace Assembly

variable {opcode line r n : Int} {ns before after : List Int} {i : Instruction} {e : AssemblyError}

/-- The number of operands comes before their values for a `loadi` and after them for an `add`. -/
example : issue 1 [9, 9, 9] 1 = .error .tooManyOperands ∧
    issue 2 [0, 9] 1 = .error (.noRegister 1 9) := by decide +kernel

end Assembly
end RegisterMachine
