import RegisterMachine.Numeral.Digits

/-! # Numbers as text

Decimal text and hexadecimal text, a minus sign standing before the digits of a negative number.
Decimal text is limited: a number of more than `digitLimit` decimal digits cannot be written, and
an error whose message would name such a number gives way to the error that says so.
-/
namespace RegisterMachine.Numeral

def upperDigit (d : Nat) : Char :=
  if d < 10 then Char.ofNat (48 + d) else Char.ofNat (55 + d)

def lowerDigit (d : Nat) : Char :=
  if d < 10 then Char.ofNat (48 + d) else Char.ofNat (87 + d)

def signed (text : Nat → String) (n : Int) : String :=
  if n < 0 then "-" ++ text n.natAbs else text n.natAbs

def decimal (n : Int) : String :=
  signed (fun k => String.ofList ((digits 10 k).map upperDigit)) n

def hex (n : Int) : String :=
  signed (fun k => String.ofList ((digits 16 k).map upperDigit)) n

/-- Lower-case digits behind the marker `0x`, as in `-0x1f`. -/
def markedHex (n : Int) : String :=
  signed (fun k => "0x" ++ String.ofList ((digits 16 k).map lowerDigit)) n

/-- Upper-case digits with zeros in front up to `width`. -/
def paddedHex (width n : Nat) : String :=
  String.ofList (((digits 16 n).map upperDigit).leftpad width '0')

/-- The most decimal digits that a number is written or read with. -/
def digitLimit : Nat := 4300

def Writable (n : Int) : Prop := n.natAbs < Nat.pow 10 digitLimit

instance : DecidablePred Writable := fun n => Nat.decLt n.natAbs (Nat.pow 10 digitLimit)

/-- The error `e`, whose message writes all of `numbers`, or `long` if one of them is too long. -/
def naming {ε : Type} (numbers : List Int) (e long : ε) : ε :=
  if ∀ n ∈ numbers, Writable n then e else long

def limitText : String :=
  "Exceeds the limit (" ++ decimal digitLimit ++ " digits) for integer string conversion"

def limitAdvice : String :=
  "; use sys.set_int_max_str_digits() to increase the limit"

def unwritableMessage : String := limitText ++ limitAdvice

end RegisterMachine.Numeral
