import RegisterMachine.Assembly.Command
import RegisterMachine.Instruction.Encoding
import RegisterMachine.RegisterFile

/-! # Assembling

The whole source is read before any of its commands is issued as a word, so text that cannot be read
is reported before any operand that is out of range. Commands are issued in their order, up to the
first one that fails.
-/
namespace RegisterMachine
open Numeral

inductive AssemblyError where
  | trailing (line : Nat)
  | noRegister (line register : Int)
  | immediate (line value : Int)
  | unsupported (line opcode : Int)
  | tooFewOperands (given : Nat)
  | tooManyOperands
  | registerCount (given : Nat)
  | field (e : FieldError)
  | literal (e : LiteralError)
  | unwritable
  deriving DecidableEq, Repr

namespace AssemblyError

/-- The name under which the error is reported. Those of the assembler itself blame a line. -/
def title : AssemblyError → String
  | trailing _ | noRegister .. | immediate .. | unsupported .. => "AsmError"
  | registerCount _ => "TypeError"
  | tooFewOperands _ | tooManyOperands | field _ | literal _ | unwritable => "ValueError"

def missingOperands : Nat → String
  | 0 => "3 required positional arguments: 'dst', 'a', and 'b'"
  | 1 => "2 required positional arguments: 'a' and 'b'"
  | _ => "1 required positional argument: 'b'"

def atLine (line : Int) (text : String) : String := "line " ++ decimal line ++ ": " ++ text

def message : AssemblyError → String
  | trailing line => atLine line "Expected end of text"
  | noRegister line register => atLine line ("no register r" ++ decimal register)
  | immediate line value =>
    atLine line ("immediate " ++ decimal value ++ " does not fit a byte")
  | unsupported line opcode => atLine line ("unsupported opcode " ++ decimal opcode)
  | tooFewOperands given =>
    "not enough values to unpack (expected 2, got " ++ decimal given ++ ")"
  | tooManyOperands => "too many values to unpack (expected 2)"
  | registerCount given =>
    if given < 3 then "encode_add() missing " ++ missingOperands given
    else "encode_add() takes 3 positional arguments but " ++ decimal given ++ " were given"
  | field e => e.message
  | literal e => e.message
  | unwritable => unwritableMessage

end AssemblyError

/-- A command that became a word. -/
structure Issued where
  word : Word
  operation : Operation
  operands : List Int
  deriving DecidableEq, Repr

def Issued.text (i : Issued) : String :=
  "Issuing " ++ i.word.text ++ " for " ++ i.operation.mnemonic ++ " [" ++
    String.intercalate ", " (i.operands.map decimal) ++ "]"

/-- The commands issued, and all their words unless one of them failed. -/
structure Assembly where
  issued : List Issued
  result : Except AssemblyError (List Word)

namespace Assembly

def checkRegister (line register : Int) : Except AssemblyError Unit :=
  if 0 ≤ register ∧ register < RegisterFile.standardSize then .ok ()
  else .error (naming [line, register] (.noRegister line register) .unwritable)

def checkRegisters (line : Int) : List Int → Except AssemblyError Unit
  | [] => .ok ()
  | r :: rs => do
    checkRegister line r
    checkRegisters line rs

def checkImmediate (line value : Int) : Except AssemblyError Unit :=
  if 0 ≤ value ∧ value ≤ byte then .ok ()
  else .error (naming [line, value] (.immediate line value) .unwritable)

def encoded (word : Except FieldError Word) : Except AssemblyError Word :=
  word.mapError .field

def issueLoadi (line : Int) : List Int → Except AssemblyError Word
  | [register, value] => do
    checkRegister line register
    checkImmediate line value
    encoded (Word.encodeLoadi register value)
  | [] => .error (.tooFewOperands 0)
  | [_] => .error (.tooFewOperands 1)
  | _ => .error .tooManyOperands

def issueAdd (line : Int) (operands : List Int) : Except AssemblyError Word := do
  checkRegisters line operands
  match operands with
  | [target, left, right] => encoded (Word.encodeAdd target left right)
  | _ => .error (.registerCount operands.length)

/-- The word of a command on a line. A halt needs no operands and minds none. -/
def issue (opcode : Int) (operands : List Int) (line : Int) : Except AssemblyError Word :=
  match Operation.ofOpcode? opcode with
  | some .halt => encoded Word.encodeHalt
  | some .loadi => issueLoadi line operands
  | some .add => issueAdd line operands
  | none => .error (naming [line, opcode] (.unsupported line opcode) .unwritable)

def parse (source : List Char) : Except AssemblyError (List Command) :=
  match commandsFrom source source with
  | .ok (commands, []) => .ok commands
  | .ok (_, rest) => .error (.trailing (lineOf source rest))
  | .error e => .error (.literal e)

def ofCommands : List Command → Assembly
  | [] => ⟨[], .ok []⟩
  | c :: cs =>
    match issue c.operation.opcode c.operands c.line with
    | .ok w =>
      let rest := ofCommands cs
      ⟨⟨w, c.operation, c.operands⟩ :: rest.issued, rest.result.map (w :: ·)⟩
    | .error e => ⟨[], .error e⟩

def ofSource (source : String) : Assembly :=
  match parse source.toList with
  | .ok commands => ofCommands commands
  | .error e => ⟨[], .error e⟩

def sourceOf (words : List Word) : String :=
  String.intercalate "\n" (words.map Word.disassemble)

end Assembly
end RegisterMachine
