import RegisterMachine.Text.Quoted
import RegisterMachine.Text.Similarity

/-! # Options of the command line

Arguments are read from left to right as flags and words. A double hyphen stands before the full
name of a flag, a single one before letters that are flags each on their own. After `--` all
arguments are words, and a lone hyphen is a word everywhere. The first argument that cannot be read
decides the error.
-/
namespace RegisterMachine.CommandLine

inductive Flag where
  | verbose
  | strict
  | help
  deriving DecidableEq, Repr

/-- All flags in the alphabetical order of their names. -/
def Flag.all : List Flag := [help, strict, verbose]

def Flag.name : Flag → String
  | verbose => "--verbose"
  | strict => "--strict"
  | help => "--help"

def Flag.ofName? (name : String) : Option Flag := all.find? fun f => f.name = name

def Flag.ofLetter? (c : Char) : Option Flag := if c = 'v' then some verbose else none

inductive Argument where
  | flag (f : Flag)
  | word (text : String)
  deriving DecidableEq, Repr

inductive OptionError where
  | unknown (name : String) (suggestions : List String)
  | unwantedValue (f : Flag)
  deriving DecidableEq, Repr

def usage : String := "Usage: regvm [OPTIONS] [WORDS]..."

def suggestionText : List String → String
  | [] => ""
  | [name] => " Did you mean " ++ Text.quoted name ++ "?"
  | names => " (Possible options: " ++ String.intercalate ", " (names.map Text.quoted) ++ ")"

def OptionError.lines : OptionError → List String
  | unknown name suggestions =>
    [usage, "Try 'regvm --help' for help.", "",
      "Error: No such option " ++ Text.quoted name ++ "." ++ suggestionText suggestions]
  | unwantedValue f => ["Error: Option " ++ Text.quoted f.name ++ " does not take a value."]

def suggestions (name : String) : List String :=
  (Flag.all.map Flag.name).filter (Text.similar · name)

/-- A flag under its full name. What follows an equals sign is a value, and no flag takes one. -/
def readName (arg : List Char) : Except OptionError (List Argument) :=
  let name := String.ofList (arg.takeWhile (· ≠ '='))
  match Flag.ofName? name with
  | some f => if arg.contains '=' then .error (.unwantedValue f) else .ok [.flag f]
  | none => .error (.unknown name (suggestions name))

def readLetters : List Char → Except OptionError (List Argument)
  | [] => .ok []
  | c :: cs =>
    match Flag.ofLetter? c with
    | some f => (readLetters cs).map (.flag f :: ·)
    | none => .error (.unknown (String.ofList ['-', c]) [])

def readArgument (arg : String) : Except OptionError (List Argument) :=
  match arg.toList with
  | '-' :: '-' :: cs => readName ('-' :: '-' :: cs)
  | '-' :: c :: cs => readLetters (c :: cs)
  | _ => .ok [.word arg]

def readArguments : List String → Except OptionError (List Argument)
  | [] => .ok []
  | arg :: rest =>
    if arg = "--" then .ok (rest.map .word)
    else do
      let first ← readArgument arg
      let others ← readArguments rest
      return first ++ others

def words (arguments : List Argument) : List String :=
  arguments.filterMap fun
    | .word text => some text
    | .flag _ => none

end RegisterMachine.CommandLine
