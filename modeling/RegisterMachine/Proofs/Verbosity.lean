import RegisterMachine.Proofs.Reports

/-! # Verbose command lines

A flag that asks for the notices for debugging asks for nothing else. Put in front of the arguments
it is read before all of them and changes none of them, be they accepted or not, and what is
reported differs in the notices for debugging alone.
-/
namespace RegisterMachine.CommandLine

/-- The first notices are the second ones without some of those for debugging. -/
inductive OmitsDebug : List Notice → List Notice → Prop where
  | nil : OmitsDebug [] []
  | keep (n : Notice) {few all : List Notice} :
      OmitsDebug few all → OmitsDebug (n :: few) (n :: all)
  | omit {n : Notice} {few all : List Notice} :
      n.level? = some .debug → OmitsDebug few all → OmitsDebug few (n :: all)

section OmitsDebug

theorem OmitsDebug.refl (ns : List Notice) : OmitsDebug ns ns := by
  induction ns with
  | nil => exact .nil
  | cons n ns ih => exact .keep n ih

theorem OmitsDebug.filter (ns : List Notice) : OmitsDebug (ns.filter (!·.isDebug)) ns := by
  induction ns with
  | nil => exact .nil
  | cons n ns ih =>
    cases hdebug : n.isDebug with
    | true =>
      rw [List.filter_cons_of_neg (by simp [hdebug])]
      exact .omit (by simpa [Notice.isDebug] using hdebug) ih
    | false =>
      rw [List.filter_cons_of_pos (by simp [hdebug])]
      exact .keep n ih

end OmitsDebug

/-- The arguments are accepted and ask for the notices for debugging themselves. -/
def RequestsDebug (args : List String) : Prop :=
  ∃ arguments, readArguments args = .ok arguments ∧ .flag .verbose ∈ arguments

/-- The report `plain` differs from `verbose` in notices for debugging alone: it has all of them if
they were asked for, and otherwise none. -/
structure Report.Omits (asked : Prop) (plain verbose : Report) : Prop where
  exitCode : verbose.exitCode = plain.exitCode
  stdout : verbose.stdout = plain.stdout
  notices : OmitsDebug plain.notices verbose.notices
  of_asked : asked → plain.notices = verbose.notices
  of_not_asked : ¬ asked → plain.notices = verbose.notices.filter (·.level? ≠ some .debug)

section Report
variable {asked : Prop} {r : Report}

/-- Without notices for debugging there is nothing to be left out. -/
theorem Report.omits_self (h : ∀ n ∈ r.notices, n.level? ≠ some .debug) :
    r.Omits asked r where
  exitCode := rfl
  stdout := rfl
  notices := .refl _
  of_asked _ := rfl
  of_not_asked _ := (List.filter_eq_self.2 fun n hn => by simpa using h n hn).symm

theorem Report.omits_shown (verbose : Bool) (r : Report) :
    (r.shown verbose).Omits (verbose = true) (r.shown true) where
  exitCode := by rw [exitCode_shown, exitCode_shown]
  stdout := by rw [stdout_shown, stdout_shown]
  notices := by
    cases verbose with
    | true => exact .refl _
    | false => exact .filter _
  of_asked hverbose := by rw [hverbose]
  of_not_asked hplain := by
    rw [Bool.not_eq_true] at hplain
    subst hplain
    refine List.filter_congr fun n _ => ?_
    simp [Notice.isDebug]

end Report

section Arguments
variable {args : List String} {arguments : List Argument}

/-- The flag in front is read as a flag, and the other arguments are read as they are alone. -/
theorem readArguments_verbose (args : List String) :
    readArguments ("-v" :: args) = (readArguments args).map (.flag .verbose :: ·) := by
  have hne : "-v" ≠ "--" := by decide
  have hfirst : readArgument "-v" = .ok [.flag .verbose] := rfl
  rw [readArguments, if_neg hne, hfirst]
  cases readArguments args <;> rfl

theorem run_of_help (h : readArguments args = .ok arguments) (hhelp : .flag .help ∈ arguments)
    (sink : Sink) : run args sink = ⟨ExitCode.halted, help, []⟩ := by
  rw [run, h]
  exact if_pos (by simpa using hhelp)

theorem run_of_readArguments_error {e : OptionError} (h : readArguments args = .error e)
    (sink : Sink) : run args sink = ⟨ExitCode.badOption, [], [.options e]⟩ := by
  rw [run, h]

theorem requestsDebug_iff (h : readArguments args = .ok arguments) :
    RequestsDebug args ↔ arguments.contains (.flag .verbose) = true := by
  rw [List.contains_iff_mem]
  constructor
  · rintro ⟨_, hread, hmem⟩
    cases h.symm.trans hread
    exact hmem
  · intro hmem
    exact ⟨arguments, h, hmem⟩

theorem run_verbose_of_ok (h : readArguments args = .ok arguments) (sink : Sink) :
    (run args sink).Omits (RequestsDebug args) (run ("-v" :: args) sink) := by
  have hread : readArguments ("-v" :: args) = .ok (.flag .verbose :: arguments) := by
    rw [readArguments_verbose, h]
    rfl
  by_cases hhelp : .flag .help ∈ arguments
  · rw [run_of_help h hhelp, run_of_help hread (List.mem_cons_of_mem _ hhelp)]
    exact Report.omits_self fun n hn => absurd hn List.not_mem_nil
  · have hhelp' : .flag .help ∉ .flag .verbose :: arguments := by
      rw [List.mem_cons, not_or]
      exact ⟨by decide, hhelp⟩
    have hstrict : (Argument.flag .verbose :: arguments).contains (.flag .strict) =
        arguments.contains (.flag .strict) := rfl
    have hverbose : (Argument.flag .verbose :: arguments).contains (.flag .verbose) = true := rfl
    have hwords : words (.flag .verbose :: arguments) = words arguments := rfl
    rw [run_of_readArguments h hhelp, run_of_readArguments hread hhelp', hstrict, hverbose, hwords,
      requestsDebug_iff h]
    exact Report.omits_shown _ _

end Arguments

/-- The flag for verbosity in front of any arguments changes neither the exit code nor the standard
output, whatever the sink does. The notices, of which the standard error consists, are the same but
for those for debugging. Without the flag these are all missing, unless the arguments ask for them
too. -/
theorem run_verbose (args : List String) (sink : Sink) :
    (run args sink).Omits (RequestsDebug args) (run ("-v" :: args) sink) := by
  cases h : readArguments args with
  | ok arguments => exact run_verbose_of_ok h sink
  | error e =>
    have hread : readArguments ("-v" :: args) = .error e := by
      rw [readArguments_verbose, h]
      rfl
    rw [run_of_readArguments_error h, run_of_readArguments_error hread]
    refine Report.omits_self fun n hn => ?_
    rw [List.mem_singleton.1 hn]
    exact fun hlevel => nomatch hlevel

end RegisterMachine.CommandLine
