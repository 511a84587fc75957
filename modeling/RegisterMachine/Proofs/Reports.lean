import Mathlib.Data.List.Forall2
import RegisterMachine.CommandLine
import RegisterMachine.Proofs.Arguments
import RegisterMachine.Proofs.Lockstep

/-! # What the command line reports

A word that is rejected is reported before anything is executed, and the first such word decides
what is said. Otherwise the standard output is the trace of the execution, and the exit code tells
how the execution ended. Its codes are enough: no execution asks a halted machine for a step, and
the instructions of words can always be written.
-/
namespace RegisterMachine

def Fault.EndsExecution : Fault → Prop
  | halted | unwritable => False
  | pastEnd .. | noRegister .. | unknownOpcode .. | refused _ => True

def Outcome.EndsExecution {α : Type} (o : Outcome α) : Prop :=
  ∀ e, o.result = .error e → e.EndsExecution

theorem Outcome.EndsExecution.bind {α β : Type} {o : Outcome α} {f : α → Machine → Outcome β}
    (h : o.EndsExecution) (hf : ∀ a, o.result = .ok a → (f a o.machine).EndsExecution) :
    (o.bind f).EndsExecution := by
  cases hresult : o.result with
  | ok a =>
    rw [bind_of_ok hresult]
    exact hf a hresult
  | error e =>
    rw [bind_of_error hresult]
    rintro e' ⟨⟩
    exact h e hresult

namespace Machine
open Routine

section EndsExecution
variable {m : Machine} {o : Outcome Unit}

theorem Evaluates.endsExecution {w : Word} (h : Evaluates (.ofWord w) m o) :
    o.EndsExecution := by
  intro e he
  cases h with
  | unwritable hd => exact absurd (Instruction.describable_ofWord w) hd
  | unknown | refused | missing =>
    cases he
    trivial
  | done => cases he

theorem Steps.endsExecution (h : Steps m o) (hrun : m.running = true) : o.EndsExecution := by
  intro e he
  cases h with
  | halted hhalted => cases hrun.symm.trans hhalted
  | pastEnd =>
    cases he
    trivial
  | faulted _ _ hev => exact hev.endsExecution e he
  | done => cases he

theorem endsExecution_showRegisters (m : Machine) : (showRegisters.run m).EndsExecution := by
  intro e he
  rw [run_showRegisters] at he
  cases ha : m.sink.accept with
  | ok sink =>
    rw [run_emit_of_accept ha] at he
    cases he
  | error reason =>
    rw [run_emit_of_error ha] at he
    cases he
    trivial

theorem endsExecution_round (hrun : m.running = true) : (round.run m).EndsExecution :=
  ((steps_run m).endsExecution hrun).bind fun _ _ => endsExecution_showRegisters _

theorem endsExecution_run (m : Machine) : (run m).EndsExecution := by
  induction m using round_induction with
  | halted m hrun =>
    rw [run_of_not_running hrun]
    exact fun _ he => nomatch he
  | running m hrun ih =>
    rw [run_of_running hrun]
    exact (endsExecution_round hrun).bind fun _ hok => ih hok

theorem endsExecution_execute (program : Program) (strict : Bool) (sink : Sink) :
    (execute program strict sink).EndsExecution :=
  (endsExecution_showRegisters _).bind fun _ _ => endsExecution_run _

end EndsExecution
end Machine

namespace CommandLine

inductive ExitsWith : Except Fault Unit → Nat → Prop where
  | halted : ExitsWith (.ok ()) 0
  | pastEnd (pc size : Nat) : ExitsWith (.error (.pastEnd pc size)) 2
  | noRegister (index : Int) (size : Nat) : ExitsWith (.error (.noRegister index size)) 2
  | unknownOpcode (opcode address : Int) : ExitsWith (.error (.unknownOpcode opcode address)) 2
  | interrupted : ExitsWith (.error (.refused .interrupt)) 3
  | failed : ExitsWith (.error (.refused .failure)) 100

theorem exitsWith_ending {result : Except Fault Unit}
    (h : ∀ e, result = .error e → e.EndsExecution) : ExitsWith result (ending result).1 := by
  cases result with
  | ok => exact .halted
  | error e =>
    cases e with
    | halted => exact (h _ rfl).elim
    | unwritable => exact (h _ rfl).elim
    | pastEnd pc size => exact .pastEnd pc size
    | noRegister index size => exact .noRegister index size
    | unknownOpcode opcode address => exact .unknownOpcode opcode address
    | refused reason =>
      cases reason with
      | interrupt => exact .interrupted
      | failure => exact .failed

section Texts
variable {texts : List String} {words : List Word}

def Accepted (text : String) : Prop := ∃ w, Word.parse text = .ok w

theorem accepted_or_rejected (text : String) :
    Accepted text ∨ ∃ e, Word.parse text = .error e := by
  cases h : Word.parse text with
  | ok w => exact .inl ⟨w, h⟩
  | error e => exact .inr ⟨e, rfl⟩

/-- The words of a command line: the reference program if no texts are given. -/
def Denotes (texts : List String) (words : List Word) : Prop :=
  (texts = [] → words = Program.reference) ∧
    (texts ≠ [] → List.Forall₂ (fun text w => Word.parse text = .ok w) texts words)

theorem mapM_parse_of_forall₂
    (h : List.Forall₂ (fun text w => Word.parse text = .ok w) texts words) :
    texts.mapM Word.parse = .ok words := by
  induction h with
  | nil => rfl
  | cons htext _ ih =>
    rw [List.mapM_cons, htext, ih]
    rfl

theorem mapM_parse_of_rejected {before after : List String} {text : String} {e : WordError}
    (hbefore : ∀ text ∈ before, Accepted text) (htext : Word.parse text = .error e) :
    (before ++ text :: after).mapM Word.parse = .error e := by
  induction before with
  | nil =>
    rw [List.nil_append, List.mapM_cons, htext]
    rfl
  | cons first before ih =>
    obtain ⟨⟨w, hw⟩, hrest⟩ := List.forall_mem_cons.1 hbefore
    rw [List.cons_append, List.mapM_cons, hw, ih hrest]
    rfl

theorem exists_forall₂ (h : ∀ text ∈ texts, Accepted text) :
    ∃ words, List.Forall₂ (fun text w => Word.parse text = .ok w) texts words := by
  induction texts with
  | nil => exact ⟨[], .nil⟩
  | cons text texts ih =>
    obtain ⟨⟨w, hw⟩, hrest⟩ := List.forall_mem_cons.1 h
    obtain ⟨ws, hws⟩ := ih hrest
    exact ⟨w :: ws, .cons hw hws⟩

/-- One of several texts that are not all accepted is the first to be rejected. -/
theorem exists_rejected (h : ∃ text ∈ texts, ¬ Accepted text) :
    ∃ before text after e, texts = before ++ text :: after ∧ (∀ t ∈ before, Accepted t) ∧
      Word.parse text = .error e := by
  induction texts with
  | nil =>
    obtain ⟨text, hmem, -⟩ := h
    cases hmem
  | cons first rest ih =>
    rcases accepted_or_rejected first with hfirst | ⟨e, he⟩
    · have hrest : ∃ text ∈ rest, ¬ Accepted text := by
        obtain ⟨text, hmem, htext⟩ := h
        rcases List.mem_cons.1 hmem with rfl | hmem
        · exact absurd hfirst htext
        · exact ⟨text, hmem, htext⟩
      obtain ⟨before, text, after, e, rfl, hbefore, he⟩ := ih hrest
      exact ⟨first :: before, text, after, e, rfl, List.forall_mem_cons.2 ⟨hfirst, hbefore⟩, he⟩
    · exact ⟨[], first, rest, e, rfl, fun _ ht => absurd ht List.not_mem_nil, he⟩

theorem exists_denotes (h : ∀ text ∈ texts, Accepted text) : ∃ words, Denotes texts words := by
  by_cases hnil : texts = []
  · exact ⟨Program.reference, fun _ => rfl, fun hne => absurd hnil hne⟩
  · obtain ⟨words, hwords⟩ := exists_forall₂ h
    exact ⟨words, fun h => absurd h hnil, fun _ => hwords⟩

theorem denotes_texts {ws : List Word} (hne : ws ≠ []) : Denotes (ws.map Word.text) ws := by
  refine ⟨fun hnil => absurd (List.map_eq_nil_iff.1 hnil) hne, fun _ => ?_⟩
  rw [List.forall₂_map_left_iff, List.forall₂_same]
  exact fun w _ => w.parse_text

theorem readWords_of_denotes (h : Denotes texts words) : readWords texts = .ok words := by
  rw [readWords]
  split
  · rename_i hnil
    rw [h.1 hnil]
  · rename_i hne
    exact mapM_parse_of_forall₂ (h.2 hne)

end Texts

@[simp] theorem Report.exitCode_shown (verbose : Bool) (r : Report) :
    (r.shown verbose).exitCode = r.exitCode := by
  cases verbose <;> rfl

@[simp] theorem Report.stdout_shown (verbose : Bool) (r : Report) :
    (r.shown verbose).stdout = r.stdout := by
  cases verbose <;> rfl

structure Reports (r : Report) (o : Outcome Unit) : Prop where
  stdout : r.stdout = String.join (o.lines.map (· ++ "\n"))
  exitCode : ExitsWith o.result r.exitCode

/-- The report of the first text that is rejected, where nothing is executed. -/
structure ReportsRejected (r : Report) (texts : List String) : Prop where
  exitCode : r.exitCode = 64
  stdout : r.stdout = ""
  stderr : ∃ before text after e, texts = before ++ text :: after ∧
    (∀ t ∈ before, Accepted t) ∧ Word.parse text = .error e ∧
    r.stderr = "INFO:root:REGVM\nERROR:root:Bad program word: " ++ e.message ++ "\n"

section RunWords
variable {texts : List String} (strict verbose : Bool) (sink : Sink)

theorem reports_runWords {words : List Word} (h : Denotes texts words) :
    Reports ((runWords texts strict sink).shown verbose)
      (Machine.execute (.ofWords words) strict sink) := by
  rw [runWords, readWords_of_denotes h]
  refine ⟨Report.stdout_shown .., ?_⟩
  rw [Report.exitCode_shown]
  exact exitsWith_ending (Machine.endsExecution_execute _ strict sink)

theorem stderr_badWord (e : WordError) :
    Report.stderr (.shown verbose ⟨64, [], [.started, .badWord e]⟩) =
      "INFO:root:REGVM\nERROR:root:Bad program word: " ++ e.message ++ "\n" := by
  have hshown : Report.shown verbose ⟨64, [], [.started, .badWord e]⟩ =
      ⟨64, [], [.started, .badWord e]⟩ := by cases verbose <;> rfl
  have hstarted : Notice.text .started = "INFO:root:REGVM\n" := by decide +kernel
  rw [hshown]
  simp only [Report.stderr, List.map_cons, List.map_nil, String.join, List.foldl_cons,
    List.foldl_nil, hstarted]
  simp [Notice.text, Notice.lines, Notice.level?, Level.name, String.join, ← String.append_assoc]

theorem reportsRejected_runWords (h : ∃ text ∈ texts, ¬ Accepted text) :
    ReportsRejected ((runWords texts strict sink).shown verbose) texts := by
  obtain ⟨before, text, after, e, rfl, hbefore, htext⟩ := exists_rejected h
  have hread : readWords (before ++ text :: after) = .error e := by
    rw [readWords, if_neg (by simp), mapM_parse_of_rejected hbefore htext]
  rw [runWords, hread]
  exact ⟨Report.exitCode_shown .., Report.stdout_shown ..,
    before, text, after, e, rfl, hbefore, htext, stderr_badWord verbose e⟩

end RunWords

theorem run_of_readArguments {args : List String} {arguments : List Argument}
    (h : readArguments args = .ok arguments) (hhelp : .flag .help ∉ arguments) (sink : Sink) :
    run args sink = (runWords (words arguments) (arguments.contains (.flag .strict)) sink).shown
      (arguments.contains (.flag .verbose)) := by
  rw [run, h]
  exact if_neg (by simpa using hhelp)

/-- The command line agrees with the executions of the library. A word that is rejected stops it
before anything is executed; words that are all accepted are executed as a program, with the sink
and the strictness of the command line. Flags by their names and words by their texts are such
arguments. -/
theorem run_agrees (sink : Sink) :
    (∀ args arguments, readArguments args = .ok arguments → .flag .help ∉ arguments →
      ((∃ text ∈ words arguments, ¬ Accepted text) →
        ReportsRejected (run args sink) (words arguments)) ∧
      ((∀ text ∈ words arguments, Accepted text) → ∃ program, Denotes (words arguments) program ∧
        Reports (run args sink)
          (Machine.execute (.ofWords program) (arguments.contains (.flag .strict)) sink))) ∧
    ∀ (flags : List Flag) (ws : List Word), .help ∉ flags → ws ≠ [] →
      Reports (run (flags.map Flag.name ++ ws.map Word.text) sink)
        (Machine.execute (.ofWords ws) (flags.contains .strict) sink) := by
  constructor
  · intro args arguments hread hhelp
    rw [run_of_readArguments hread hhelp]
    constructor
    · exact reportsRejected_runWords _ _ sink
    · intro haccepted
      obtain ⟨program, hprogram⟩ := exists_denotes haccepted
      exact ⟨program, hprogram, reports_runWords _ _ sink hprogram⟩
  · intro flags ws hhelp hne
    have hread := readArguments_texts flags ws
    have hnone : Argument.flag .help ∉ flags.map .flag ++ (ws.map Word.text).map .word := by
      simpa using hhelp
    rw [run_of_readArguments hread hnone, words_texts, contains_flag, contains_flag]
    exact reports_runWords _ _ sink (denotes_texts hne)

/-- A bad word between a good one and another bad one, and an execution that is interrupted. -/
theorem run_agrees_strict :
    ReportsRejected (run ["0", "--strict", "xyz", "10000"] .endless) ["0", "xyz", "10000"] ∧
      Reports (run ["--strict", "1064", "0000"] ⟨some 1, .interrupt⟩)
        (Machine.execute (.ofWords [0x1064, 0x0000]) true ⟨some 1, .interrupt⟩) := by
  have hread : readArguments ["0", "--strict", "xyz", "10000"] =
      .ok [.word "0", .flag .strict, .word "xyz", .word "10000"] := by decide +kernel
  have hrejected : ¬ Accepted "xyz" := by
    have hparse : (Word.parse "xyz").isOk = false := by decide +kernel
    rintro ⟨w, hw⟩
    rw [hw] at hparse
    cases hparse
  have htexts : [(0x1064 : Word), 0x0000].map Word.text = ["1064", "0000"] := by decide +kernel
  have hstrict := (run_agrees ⟨some 1, .interrupt⟩).2 [.strict] [0x1064, 0x0000] (by decide)
    (by decide)
  rw [htexts] at hstrict
  exact ⟨((run_agrees .endless).1 _ _ hread (by decide)).1 ⟨"xyz", by decide, hrejected⟩, hstrict⟩

end CommandLine
end RegisterMachine
