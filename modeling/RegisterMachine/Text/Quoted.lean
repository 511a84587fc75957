import RegisterMachine.Numeral.Writing
import RegisterMachine.Text.Printable

/-! # Quoted text

Text between quotes, in which every character that could be mistaken stands behind a backslash. The
quote is the single one, unless the text holds single quotes and no double ones.
-/
namespace RegisterMachine.Text

def singleQuote : Char := Char.ofNat 39

def doubleQuote : Char := Char.ofNat 34

def backslash : Char := Char.ofNat 92

def quoteFor (text : List Char) : Char :=
  if text.contains singleQuote && !text.contains doubleQuote then doubleQuote else singleQuote

/-- The number of a character in `width` hexadecimal digits behind its mark. -/
def numbered (mark : Char) (width : Nat) (c : Char) : List Char :=
  backslash :: mark :: ((Numeral.digits 16 c.toNat).map Numeral.lowerDigit).leftpad width '0'

def escape (quote c : Char) : List Char :=
  if c = quote ∨ c = backslash then [backslash, c]
  else if c = '\n' then [backslash, 'n']
  else if c = '\r' then [backslash, 'r']
  else if c = '\t' then [backslash, 't']
  else if isPrintable c then [c]
  else if c.toNat < 0x100 then numbered 'x' 2 c
  else if c.toNat < 0x10000 then numbered 'u' 4 c
  else numbered 'U' 8 c

def quotedChars (text : List Char) : List Char :=
  quoteFor text :: text.flatMap (escape (quoteFor text)) ++ [quoteFor text]

def quoted (text : String) : String := String.ofList (quotedChars text.toList)

/-- The first `length` characters of the quoted text, which may leave out the closing quote. -/
def quotedCut (length : Nat) (text : String) : String :=
  String.ofList ((quotedChars text.toList).take length)

end RegisterMachine.Text
