import RegisterMachine.Numeral.Literal
import RegisterMachine.Word

/-! # Words read from text

A word is a literal in base sixteen whose value is in range.
-/
namespace RegisterMachine

inductive WordError where
  | literal (e : Numeral.LiteralError)
  | outOfRange (text : String)
  deriving DecidableEq, Repr

def WordError.message : WordError → String
  | literal e => e.message
  | outOfRange text => text ++ " is not a 16-bit word"

namespace Word

def parse (text : String) : Except WordError Word :=
  match Numeral.read .hexadecimal text with
  | .error e => .error (.literal e)
  | .ok n => if InRange n then .ok (ofInt n) else .error (.outOfRange text)

end Word
end RegisterMachine
