import RegisterMachine.Proofs.Evaluation
import RegisterMachine.Proofs.Rounds

/-! # Machines that store values in their own way

A machine fits every value that it writes to the width of its registers. Here the way of fitting is
left open and everything else is as before: with `wrap` this is the machine itself, and with `id` it
is a machine whose registers hold any integers.
-/
namespace RegisterMachine.Machine
open Routine

section Definitions
variable (fit : Int → Int)

def writeWith (index value : Int) : Routine Unit := do
  Routine.ofExcept ((← machine).registers.check index)
  update fun m => { m with registers := ⟨m.registers.cells.set index.toNat (fit value)⟩ }

def performWith (i : Instruction) : Operation → Routine Unit
  | .halt => update fun m => { m with running := false }
  | .loadi => writeWith fit i.op1 i.imm
  | .add => do
    let left ← read i.op2
    let right ← read i.op3
    writeWith fit i.op1 (left + right)

def evaluateWith (i : Instruction) : Routine Unit :=
  match i.operation? with
  | some op => do
    emit (← describe i)
    performWith fit i op
  | none => passOver i

def stepWith : Routine Unit := do
  if (← machine).running then
    let word ← fetch
    evaluateWith fit (Instruction.ofWord word)
    logState
  else
    fault .halted

def roundWith : Routine Unit := do
  stepWith fit
  showRegisters

end Definitions

section Progress
variable {fit : Int → Int}

theorem keepsProgram_writeWith (index value : Int) : (writeWith fit index value).KeepsProgram :=
  .bind .machine fun _ => .bind (.ofExcept _) fun _ _ => rfl

theorem keepsProgram_performWith (i : Instruction) (op : Operation) :
    (performWith fit i op).KeepsProgram := by
  cases op with
  | halt => exact fun _ => rfl
  | loadi => exact keepsProgram_writeWith _ _
  | add =>
    exact .bind (keepsProgram_read _) fun _ => .bind (keepsProgram_read _) fun _ =>
      keepsProgram_writeWith _ _

theorem keepsProgram_evaluateWith (i : Instruction) : (evaluateWith fit i).KeepsProgram := by
  unfold evaluateWith
  split
  · exact .bind (keepsProgram_describe i) fun _ => .bind (.emit _) fun _ =>
      keepsProgram_performWith i _
  · exact keepsProgram_passOver i

theorem remaining_stepWith {m : Machine} (h : ((stepWith fit).run m).result = .ok ()) :
    ((stepWith fit).run m).machine.program.remaining < m.program.remaining := by
  unfold stepWith at h ⊢
  cases hm : m.running with
  | false => simp [hm] at h
  | true =>
    simp only [run_bind, run_machine, Outcome.bind_mk_ok, hm, if_true] at h ⊢
    obtain ⟨w, hw, -⟩ := Outcome.result_bind_eq_ok.1 h
    rw [Outcome.bind_of_ok hw,
      KeepsProgram.bind (keepsProgram_evaluateWith _) fun _ => keepsProgram_logState]
    exact remaining_fetch hw

theorem remaining_roundWith {m : Machine} (h : ((roundWith fit).run m).result = .ok ()) :
    ((roundWith fit).run m).machine.program.remaining < m.program.remaining := by
  unfold roundWith at h ⊢
  rw [run_bind] at h ⊢
  obtain ⟨_, hs, -⟩ := Outcome.result_bind_eq_ok.1 h
  rw [Outcome.bind_of_ok hs, keepsProgram_showRegisters]
  exact remaining_stepWith hs

end Progress

section Runs
variable (fit : Int → Int)

def roundsWith : Nat → Routine Unit
  | 0 => pure ()
  | n + 1 => do
    roundWith fit
    roundsWith n

def runWith (m : Machine) : Outcome Unit :=
  if m.running then
    match _h : ((roundWith fit).run m).result with
    | .ok () => ((roundWith fit).run m).bind fun _ _ => runWith ((roundWith fit).run m).machine
    | .error _ => (roundWith fit).run m
  else
    ⟨m, [], [], .ok ()⟩
termination_by m.program.remaining
decreasing_by exact remaining_roundWith _h

def executeWith (program : Program) (strict : Bool) (sink : Sink) : Outcome Unit :=
  (showRegisters.run (boot program strict sink)).bind fun _ => runWith fit

variable {fit}

theorem runWith_of_running {m : Machine} (h : m.running = true) :
    runWith fit m = ((roundWith fit).run m).bind fun _ => runWith fit := by
  rw [runWith, if_pos h]
  split
  · rename_i hr
    rw [Outcome.bind_of_ok hr, Outcome.bind_of_ok hr]
  · rename_i hr
    rw [Outcome.bind_of_error hr, ← hr]

theorem runWith_of_not_running {m : Machine} (h : m.running = false) :
    runWith fit m = ⟨m, [], [], .ok ()⟩ := by
  rw [runWith, if_neg (by simp [h])]

end Runs

theorem writeWith_wrap (index value : Int) : writeWith wrap index value = write index value := by
  have hrun : (writeWith wrap index value).run = (write index value).run := by
    funext m
    by_cases h : 0 ≤ index ∧ index < m.registers.size
    · rw [run_write_of_mem h]
      simp [writeWith, RegisterFile.check, h]
    · rw [run_write_of_not_mem h]
      simp [writeWith, RegisterFile.check, h, RegisterFile.absence]
  exact congrArg Routine.mk hrun

theorem performWith_wrap (i : Instruction) (op : Operation) :
    performWith wrap i op = perform i op := by
  cases op with
  | halt => rfl
  | loadi => exact writeWith_wrap _ _
  | add => simp only [performWith, perform, writeWith_wrap]

theorem evaluateWith_wrap (i : Instruction) : evaluateWith wrap i = evaluate i := by
  unfold evaluateWith evaluate
  cases i.operation? with
  | some op => simp only [performWith_wrap]
  | none => rfl

theorem stepWith_wrap : stepWith wrap = step := by
  simp only [stepWith, step, evaluateWith_wrap]

theorem roundWith_wrap : roundWith wrap = round := by
  simp only [roundWith, round, stepWith_wrap]

theorem roundsWith_wrap (n : Nat) : roundsWith wrap n = rounds n := by
  induction n with
  | zero => rfl
  | succ n ih => simp only [roundsWith, rounds, roundWith_wrap, ih]

theorem runWith_wrap (m : Machine) : runWith wrap m = run m := by
  induction m using round_induction with
  | halted m hrun => rw [runWith_of_not_running hrun, run_of_not_running hrun]
  | running m hrun ih =>
    rw [runWith_of_running hrun, run_of_running hrun, roundWith_wrap]
    cases hresult : (round.run m).result with
    | ok => rw [Outcome.bind_of_ok hresult, Outcome.bind_of_ok hresult, ih hresult]
    | error e => rw [Outcome.bind_of_error hresult, Outcome.bind_of_error hresult]

theorem executeWith_wrap (program : Program) (strict : Bool) (sink : Sink) :
    executeWith wrap program strict sink = execute program strict sink := by
  have hrun : runWith wrap = run := funext runWith_wrap
  rw [executeWith, execute, hrun]

end RegisterMachine.Machine
