import RegisterMachine.Proofs.Rewording

/-! # Programs that go on

What stands behind the last word that a run reaches makes no difference to the run. A program with
more words behind its end runs in the same way up to there, and only where the shorter one faults
for want of a word does the longer one go on. This passes from a routine to those that follow it,
and so from one round to all of them.
-/
namespace RegisterMachine

/-- The outcome `short` of a machine, and the outcome `long` of the same machine with the words
`more` behind the end of its program. -/
structure Outcome.Continues {α : Type} (more : List Word) (short long : Outcome α) : Prop where
  same : (∀ pc size, short.result ≠ .error (.pastEnd pc size)) →
    long = short.mapMachine (Machine.mapWords (· ++ more))
  lines : short.lines <+: long.lines
  events : short.events <+: long.events

section Bind
variable {α β : Type} {more : List Word} {short long : Outcome α} {f : α → Machine → Outcome β}

theorem Outcome.Continues.of_same (h : long = short.mapMachine (Machine.mapWords (· ++ more))) :
    Continues more short long := by
  subst h
  exact ⟨fun _ => rfl, List.prefix_refl _, List.prefix_refl _⟩

/-- A run that ends at its end is followed by nothing, and any other one by the same on both
machines. -/
theorem Outcome.Continues.bind (h : Continues more short long)
    (hf : ∀ a, short.result = .ok a →
      Continues more (f a short.machine) (f a (short.machine.mapWords (· ++ more)))) :
    Continues more (short.bind f) (long.bind f) := by
  cases hresult : short.result with
  | error e =>
    rw [bind_of_error hresult]
    refine ⟨?_, h.lines.trans (lines_isPrefix_bind _ _), h.events.trans (events_isPrefix_bind _ _)⟩
    intro hend
    have hsame := h.same fun pc size he =>
      hend pc size (congrArg _ (Except.error.inj (hresult.symm.trans he)))
    subst hsame
    rw [bind_of_error (o := short.mapMachine _) hresult]
    rfl
  | ok a =>
    have hsame := h.same fun pc size he => by cases hresult.symm.trans he
    subst hsame
    have hnext := hf a hresult
    rw [bind_of_ok hresult, bind_of_ok (o := short.mapMachine _) hresult]
    refine ⟨?_, (List.prefix_append_right_inj _).2 hnext.lines,
      (List.prefix_append_right_inj _).2 hnext.events⟩
    intro hend
    dsimp only [mapMachine]
    rw [hnext.same hend]
    rfl

end Bind

namespace Machine
open Routine

section Continuation
variable (more : List Word)

/-- A step differs only if there is no word at the counter. -/
theorem continues_step (m : Machine) :
    Outcome.Continues more (step.run m) (step.run (m.mapWords (· ++ more))) := by
  cases hrun : m.running with
  | false => exact .of_same (run_step_mapWords_of_halted hrun)
  | true =>
    cases hw : m.program.words[m.program.pc]? with
    | none =>
      rw [Steps.run_eq (.pastEnd hrun hw)]
      refine ⟨?_, List.nil_prefix, List.nil_prefix⟩
      intro hend
      exact absurd rfl (hend _ _)
    | some w =>
      obtain ⟨hlt, hget⟩ := List.getElem?_eq_some_iff.1 hw
      have hlonger : (m.program.words ++ more)[m.program.pc]? = some w := by
        rw [List.getElem?_append_left hlt, hw]
      exact .of_same (run_step_mapWords_of_getElem? hrun hw hlonger rfl)

theorem continues_showRegisters (m : Machine) :
    Outcome.Continues more (showRegisters.run m) (showRegisters.run (m.mapWords (· ++ more))) :=
  .of_same (run_showRegisters_mapWords (· ++ more) m)

theorem continues_round (m : Machine) :
    Outcome.Continues more (round.run m) (round.run (m.mapWords (· ++ more))) :=
  (continues_step more m).bind fun _ _ => continues_showRegisters more _

/-- The shorter program comes to its end in one of the rounds, or not at all. -/
theorem continues_run (m : Machine) :
    Outcome.Continues more (run m) (run (m.mapWords (· ++ more))) := by
  induction m using round_induction with
  | halted m hrun =>
    have hlong : (m.mapWords (· ++ more)).running = false := hrun
    rw [run_of_not_running hrun, run_of_not_running hlong]
    exact .of_same rfl
  | running m hrun ih =>
    have hlong : (m.mapWords (· ++ more)).running = true := hrun
    rw [run_of_running hrun, run_of_running hlong]
    exact (continues_round more m).bind fun _ hok => ih hok

theorem continues_execute (words : List Word) (strict : Bool) (sink : Sink) :
    Outcome.Continues more (execute (.ofWords words) strict sink)
      (execute (.ofWords (words ++ more)) strict sink) :=
  (continues_showRegisters more (boot (.ofWords words) strict sink)).bind fun _ _ =>
    continues_run more _

end Continuation

/-- Words that are appended to a program make no difference to an execution that ends before them,
in a halt, a fault of an instruction or a refused line. An execution that ends past the last word
is the beginning of the execution of the longer program, in its lines as well as in its events. -/
theorem execute_append (words more : List Word) (strict : Bool) (sink : Sink) :
    let short := execute (.ofWords words) strict sink
    let long := execute (.ofWords (words ++ more)) strict sink
    ((∀ pc size, short.result ≠ .error (.pastEnd pc size)) → long.Alike short) ∧
    ∀ pc size, short.result = .error (.pastEnd pc size) →
      short.lines <+: long.lines ∧ short.events <+: long.events := by
  intro short long
  have hall : Outcome.Continues more short long := continues_execute more words strict sink
  constructor
  · intro hend
    rw [hall.same hend]
    exact alike_mapWords _ short
  · intro pc size _
    exact ⟨hall.lines, hall.events⟩

end Machine
end RegisterMachine
