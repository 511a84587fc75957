import RegisterMachine.Text.Blank
import RegisterMachine.Text.DecimalDigit
import RegisterMachine.Text.Quoted

/-! # Integer literals

A literal is an integer in base ten or sixteen with blanks around it, at most one sign before its
digits, and single underscores between digits. In base sixteen the marker `0x`, which may be
followed by an underscore, can stand before the digits. A literal of more than `digitLimit` digits
in base ten is refused, even when more than blanks follow it.
-/
namespace RegisterMachine.Numeral

inductive Radix where
  | decimal
  | hexadecimal
  deriving DecidableEq, Repr

def Radix.base : Radix → Nat
  | decimal => 10
  | hexadecimal => 16

inductive LiteralError where
  | invalid (radix : Radix) (text : String)
  | tooManyDigits (count : Nat)
  deriving DecidableEq, Repr

def LiteralError.message : LiteralError → String
  | invalid radix text =>
    "invalid literal for int() with base " ++ Numeral.decimal radix.base ++ ": " ++
      Text.quotedCut 200 text
  | tooManyDigits count =>
    limitText ++ ": value has " ++ Numeral.decimal count ++ " digits" ++ limitAdvice

def letterDigit? (c : Char) : Option Nat :=
  if 'a' ≤ c ∧ c ≤ 'f' then some (c.toNat - 87)
  else if 'A' ≤ c ∧ c ≤ 'F' then some (c.toNat - 55)
  else none

/-- The value of a digit, which may be of any script. -/
def Radix.digit? : Radix → Char → Option Nat
  | decimal, c => Text.decimalDigit? c
  | hexadecimal, c => Text.decimalDigit? c <|> letterDigit? c

/-- The sign, which is true for a minus, and what follows it. -/
def takeSign : List Char → Bool × List Char
  | '-' :: cs => (true, cs)
  | '+' :: cs => (false, cs)
  | cs => (false, cs)

def isMarker (zero x : Char) : Bool :=
  Text.decimalDigit? zero = some 0 && (x = 'x' || x = 'X')

def dropUnderscore : List Char → List Char
  | '_' :: cs => cs
  | cs => cs

/-- Takes away the marker of base sixteen and one underscore after it. -/
def dropMarker : Radix → List Char → List Char
  | .hexadecimal, zero :: x :: cs => if isMarker zero x then dropUnderscore cs else zero :: x :: cs
  | _, cs => cs

/-- Digits with single underscores between them. The flag tells whether a digit stands before. -/
def separated : Bool → List Char → Bool
  | afterDigit, [] => afterDigit
  | afterDigit, c :: cs => if c = '_' then afterDigit && separated false cs else separated true cs

def Radix.inRun (r : Radix) (c : Char) : Bool := (r.digit? c).isSome || c = '_'

def readChars (r : Radix) (text : List Char) : Except LiteralError Int :=
  let (minus, unsigned) := takeSign (text.dropWhile Text.isBlank)
  let body := dropMarker r unsigned
  let run := body.takeWhile r.inRun
  let ds := run.filterMap r.digit?
  if separated false run then
    if r = .decimal ∧ digitLimit < ds.length then .error (.tooManyDigits ds.length)
    else if (body.dropWhile r.inRun).all Text.isBlank then
      .ok (if minus then -(value r.base ds : Int) else value r.base ds)
    else .error (.invalid r (String.ofList text))
  else .error (.invalid r (String.ofList text))

def read (r : Radix) (text : String) : Except LiteralError Int := readChars r text.toList

def constantRadix : List Char → Radix
  | '0' :: 'x' :: _ => .hexadecimal
  | '0' :: 'X' :: _ => .hexadecimal
  | _ => .decimal

def readConstantChars (text : List Char) : Except LiteralError Int :=
  readChars (constantRadix text) text

def readConstant (text : String) : Except LiteralError Int := readConstantChars text.toList

end RegisterMachine.Numeral
