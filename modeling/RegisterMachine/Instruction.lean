import RegisterMachine.Operation
import RegisterMachine.Word

/-! # Instructions

An instruction is the five fields of a word, from the most significant bits down: the opcode, three
operands of four bits, and the immediate, which is the last two operands read as one byte. All five
are read from every word, whichever the operation uses. The fields are integers, so an instruction
may also be put together by hand from values that no word holds.
-/
namespace RegisterMachine

structure Instruction where
  opcode : Int
  op1 : Int
  op2 : Int
  op3 : Int
  imm : Int
  deriving DecidableEq, Repr

/-- The word made of four fields of four bits, from the most significant one down. -/
def Word.layout (i : Instruction) : Word :=
  BitVec.ofInt 4 i.opcode ++ BitVec.ofInt 4 i.op1 ++ BitVec.ofInt 4 i.op2 ++ BitVec.ofInt 4 i.op3

theorem Word.toNat_append_nibble {m : Nat} (x : BitVec m) (y : BitVec 4) :
    (x ++ y).toNat = x.toNat * 16 + y.toNat := by
  rw [BitVec.toNat_append, ← Nat.shiftLeft_add_eq_or_of_lt y.isLt, Nat.shiftLeft_eq]

namespace Instruction

def ofWord (w : Word) : Instruction where
  opcode := (w.toNat / 4096 : Nat)
  op1 := (w.toNat / 256 % 16 : Nat)
  op2 := (w.toNat / 16 % 16 : Nat)
  op3 := (w.toNat % 16 : Nat)
  imm := (w.toNat % 256 : Nat)

/-- The fields of a word are the bits that the layout puts in their places. -/
theorem layout_ofWord (w : Word) : Word.layout (ofWord w) = w := by
  have hw := w.toNat_lt
  apply BitVec.eq_of_toNat_eq
  simp only [Word.layout, ofWord, BitVec.ofInt_natCast]
  rw [Word.toNat_append_nibble, Word.toNat_append_nibble, Word.toNat_append_nibble]
  simp only [BitVec.toNat_ofNat]
  omega

theorem imm_eq (w : Word) : (ofWord w).imm = 16 * (ofWord w).op2 + (ofWord w).op3 := by
  simp only [ofWord]
  omega

def operation? (i : Instruction) : Option Operation := Operation.ofOpcode? i.opcode

/-- The fields that the operation uses, in the order in which they are written. -/
def operands (i : Instruction) : List Int :=
  match i.operation? with
  | some .loadi => [i.op1, i.imm]
  | some .add => [i.op1, i.op2, i.op3]
  | some .halt | none => []

def unknownText : String := "oops"

def registerText (index : Int) : String := "r" ++ Numeral.decimal index

def text (i : Instruction) : String :=
  match i.operation? with
  | some .halt => Operation.halt.mnemonic
  | some .loadi =>
    Operation.loadi.mnemonic ++ " " ++ registerText i.op1 ++ " #" ++ Numeral.decimal i.imm
  | some .add =>
    Operation.add.mnemonic ++ " " ++ registerText i.op1 ++ " " ++ registerText i.op2 ++ " " ++
      registerText i.op3
  | none => unknownText

def Describable (i : Instruction) : Prop := ∀ n ∈ i.operands, Numeral.Writable n

instance : DecidablePred Describable :=
  fun i => inferInstanceAs (Decidable (∀ n ∈ i.operands, Numeral.Writable n))

def describe? (i : Instruction) : Option String :=
  if i.Describable then some i.text else none

end Instruction

namespace Word

def disassemble (w : Word) : String := (Instruction.ofWord w).text

def listed (w : Word) : String := w.text ++ "  " ++ w.disassemble

end Word

def listing (words : List Word) : List String := words.map Word.listed

end RegisterMachine
