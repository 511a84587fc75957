import RegisterMachine.Instruction

/-! # Packing fields into words

A field is checked before it is packed, the opcode first and then the operands from left to right.
An immediate is checked as a byte before anything else and then split into two operands.
-/
namespace RegisterMachine

inductive FieldError where
  | misfit (field : String) (value limit : Int)
  | unwritable
  deriving DecidableEq, Repr

def FieldError.message : FieldError → String
  | misfit field value limit =>
    field ++ " " ++ Numeral.decimal value ++ " does not fit 0.." ++ Numeral.decimal limit
  | unwritable => Numeral.unwritableMessage

def checkField (field : String) (value limit : Int) : Except FieldError Unit :=
  if 0 ≤ value ∧ value ≤ limit then .ok ()
  else .error (Numeral.naming [value, limit] (.misfit field value limit) .unwritable)

/-- The greatest value of an operand, which is a quarter of a word. -/
def nibble : Int := (Nat.pow 2 (Word.width / 4) - 1 : Nat)

/-- The greatest value of an immediate, which is half of a word. -/
def byte : Int := (Nat.pow 2 (Word.width / 2) - 1 : Nat)

theorem nibble_eq : nibble = 15 := rfl

theorem byte_eq : byte = 255 := rfl

namespace Word

def pack (opcode op1 op2 op3 : Int) : Word :=
  ofInt (4096 * opcode + 256 * op1 + 16 * op2 + op3)

def encode (opcode op1 op2 op3 : Int) : Except FieldError Word := do
  checkField "opcode" opcode nibble
  checkField "op1" op1 nibble
  checkField "op2" op2 nibble
  checkField "op3" op3 nibble
  return pack opcode op1 op2 op3

def encodeHalt : Except FieldError Word := encode Operation.halt.opcode 0 0 0

def encodeLoadi (register imm : Int) : Except FieldError Word := do
  checkField "imm" imm byte
  encode Operation.loadi.opcode register (imm / 16) (imm % 16)

def encodeAdd (target left right : Int) : Except FieldError Word :=
  encode Operation.add.opcode target left right

end Word
end RegisterMachine
