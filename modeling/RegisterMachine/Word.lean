import RegisterMachine.Numeral.Writing

/-! # Instruction words

A word has sixteen bits. Any integer gives a word, its residue modulo `2 ^ 16`.
-/
namespace RegisterMachine

abbrev Word.width : Nat := 16

abbrev Word := BitVec Word.width

namespace Word

def greatest : Nat := Nat.pow 2 width - 1

theorem greatest_eq : greatest = 65535 := rfl

theorem toNat_lt (w : Word) : w.toNat < 65536 := w.isLt

/-- Words are written with this many hexadecimal digits, registers with at least as many. -/
def hexDigits : Nat := 4

def ofInt (n : Int) : Word := BitVec.ofInt width n

/-- The integer is a word as it stands, without reduction. -/
def InRange (n : Int) : Prop := 0 ≤ n ∧ n ≤ greatest

instance : DecidablePred InRange := fun n => inferInstanceAs (Decidable (0 ≤ n ∧ n ≤ greatest))

def text (w : Word) : String := Numeral.paddedHex hexDigits w.toNat

end Word
end RegisterMachine
