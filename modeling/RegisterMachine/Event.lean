import RegisterMachine.Numeral.Writing

/-! # Logged events

What the machine notes besides its trace: an unknown opcode that it passed over, and its state after
an instruction.
-/
namespace RegisterMachine

inductive Level where
  | debug
  | info
  | warning
  | error
  deriving DecidableEq, Repr

def Level.name : Level → String
  | debug => "DEBUG"
  | info => "INFO"
  | warning => "WARNING"
  | error => "ERROR"

inductive Event where
  | ignored (opcode address : Int)
  | state (pc : Nat) (cells : List Int)
  deriving DecidableEq, Repr

namespace Event
open Numeral

def level : Event → Level
  | ignored .. => .warning
  | state .. => .debug

def cellText (cell : Int × Nat) : String := decimal cell.2 ++ ":" ++ hex cell.1

def text : Event → String
  | ignored opcode address =>
    "Ignoring unknown opcode " ++ hex opcode ++ " at PC " ++ decimal address
  | state pc cells =>
    String.intercalate " " (("PC:" ++ decimal pc) :: cells.zipIdx.map cellText)

end Event
end RegisterMachine
