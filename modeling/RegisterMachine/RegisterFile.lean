import RegisterMachine.Fault
import RegisterMachine.Word

/-! # The register file

Cells that hold signed 64-bit integers. A write reduces its value to that range, and an index
outside the file is a fault that changes nothing.
-/
namespace RegisterMachine

def registerBits : Nat := 64

def registerModulus : Nat := Nat.pow 2 registerBits

theorem registerModulus_eq : registerModulus = 0x10000000000000000 := rfl

/-- The signed integer of `registerBits` bits that is congruent to `n` modulo `registerModulus`. -/
def wrap (n : Int) : Int := n.bmod registerModulus

structure RegisterFile where
  cells : List Int
  deriving DecidableEq, Repr

namespace RegisterFile

def standardSize : Nat := 4

/-- All cells are zero. A negative size gives no cells. -/
def zeros (size : Int) : RegisterFile := ⟨List.replicate size.toNat 0⟩

def size (r : RegisterFile) : Nat := r.cells.length

def check (r : RegisterFile) (index : Int) : Except Fault Unit :=
  if 0 ≤ index ∧ index < r.size then .ok ()
  else .error (Numeral.naming [index] (.noRegister index r.size) .unwritable)

def read (r : RegisterFile) (index : Int) : Except Fault Int := do
  r.check index
  return r.cells.getD index.toNat 0

def write (r : RegisterFile) (index value : Int) : Except Fault RegisterFile := do
  r.check index
  return ⟨r.cells.set index.toNat (wrap value)⟩

/-- A cell in two's complement, with at least as many digits as a word has. -/
def cellText (value : Int) : String :=
  Numeral.paddedHex Word.hexDigits (value % registerModulus).toNat

def snapshot (r : RegisterFile) : String :=
  "regs = " ++ String.intercalate " " (r.cells.map cellText)

end RegisterFile
end RegisterMachine
