import RegisterMachine.CommandLine.Options
import RegisterMachine.Machine.Run
import RegisterMachine.Word.Reading

/-! # The command line

The words among the arguments are a program in hexadecimal; without any, the reference program runs.
The trace goes to the standard output. Notices go to the standard error, those for debugging only
when they are asked for.
-/
namespace RegisterMachine.CommandLine

inductive Notice where
  | started
  | badWord (e : WordError)
  | logged (e : Event)
  | finished
  | faulted (title : String) (e : Fault)
  | interrupted
  | failed (e : Fault)
  | options (e : OptionError)
  deriving DecidableEq, Repr

namespace Notice

/-- The level of a record. Errors about options are no records. -/
def level? : Notice → Option Level
  | started | finished | interrupted | failed _ => some .info
  | badWord _ | faulted .. => some .error
  | logged e => some e.level
  | options _ => none

def lines : Notice → List String
  | started => ["REGVM"]
  | badWord e => ["Bad program word: " ++ e.message]
  | logged e => [e.text]
  | finished => ["Execution halted gracefully"]
  | faulted title e => ["Execution halted on " ++ title ++ ": " ++ e.message]
  | interrupted => ["Execution halted by the user"]
  | failed e => ["Execution halted on general error " ++ e.message]
  | options e => e.lines

def isDebug (n : Notice) : Bool := n.level? = some .debug

def text (n : Notice) : String :=
  let mark := match n.level? with
    | some level => level.name ++ ":root:"
    | none => ""
  String.join (n.lines.map fun line => mark ++ line ++ "\n")

end Notice

structure Report where
  exitCode : Nat
  out : List String
  notices : List Notice
  deriving DecidableEq, Repr

namespace Report

def stdout (r : Report) : String := String.join (r.out.map (· ++ "\n"))

def stderr (r : Report) : String := String.join (r.notices.map Notice.text)

def shown (verbose : Bool) (r : Report) : Report :=
  if verbose then r else { r with notices := r.notices.filter (!·.isDebug) }

end Report

namespace ExitCode

def halted : Nat := 0
def faulted : Nat := 2
def badOption : Nat := 2
def interrupted : Nat := 3
def badWord : Nat := 64
def failed : Nat := 100

end ExitCode

def help : List String :=
  [usage,
   "",
   "Options:",
   "  -v, --verbose  Sets logging level to debug",
   "  --strict       Fail on unknown opcodes instead of skipping them",
   "  --help         Show this message and exit."]

def ending : Except Fault Unit → Nat × Notice
  | .ok () => (ExitCode.halted, .finished)
  | .error (.refused .interrupt) => (ExitCode.interrupted, .interrupted)
  | .error e =>
    match e.title? with
    | some title => (ExitCode.faulted, .faulted title e)
    | none => (ExitCode.failed, .failed e)

def readWords (texts : List String) : Except WordError (List Word) :=
  if texts = [] then .ok Program.reference else texts.mapM Word.parse

def runWords (texts : List String) (strict : Bool) (sink : Sink) : Report :=
  match readWords texts with
  | .error e => ⟨ExitCode.badWord, [], [.started, .badWord e]⟩
  | .ok words =>
    let o := Machine.execute (Program.ofWords words) strict sink
    let (code, last) := ending o.result
    ⟨code, o.lines, .started :: o.events.map .logged ++ [last]⟩

def run (args : List String) (sink : Sink) : Report :=
  match readArguments args with
  | .error e => ⟨ExitCode.badOption, [], [.options e]⟩
  | .ok arguments =>
    if arguments.contains (.flag .help) then ⟨ExitCode.halted, help, []⟩
    else (runWords (words arguments) (arguments.contains (.flag .strict)) sink).shown
      (arguments.contains (.flag .verbose))

end RegisterMachine.CommandLine
