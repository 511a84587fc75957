import RegisterMachine.Proofs.Faults
import RegisterMachine.Proofs.Requests
import RegisterMachine.Proofs.Stopping
import RegisterMachine.Proofs.Storing

/-! # What rounds leave in the registers

Rounds that succeed carry out the words of the program in their order, and each of them leaves the
registers to the next. So the registers after some rounds are a fold over the words, whichever way
the machine has of fitting the values that it stores. A sink that refuses a line ends an execution
early, but with the registers as they are after one of the rounds.
-/
namespace RegisterMachine

namespace Instruction

/-- The value that an instruction stores, before it is fitted. -/
def stored? (i : Instruction) (cells : List Int) : Option Int :=
  match i.operation? with
  | some .loadi => some i.imm
  | some .add => some (cells.getD i.op2.toNat 0 + cells.getD i.op3.toNat 0)
  | some .halt | none => none

def effectWith (fit : Int → Int) (i : Instruction) (cells : List Int) : List Int :=
  match i.stored? cells with
  | some value => cells.set i.op1.toNat (fit value)
  | none => cells

theorem effectWith_of_unknown {i : Instruction} (h : i.operation? = none) (fit : Int → Int)
    (cells : List Int) : i.effectWith fit cells = cells := by
  simp [effectWith, stored?, h]

end Instruction

namespace Word

def stored? (w : Word) (cells : List Int) : Option Int := (Instruction.ofWord w).stored? cells

def effectWith (fit : Int → Int) (w : Word) (cells : List Int) : List Int :=
  (Instruction.ofWord w).effectWith fit cells

def effectsWith (fit : Int → Int) (cells : List Int) (words : List Word) : List Int :=
  words.foldl (fun cells w => w.effectWith fit cells) cells

variable (fit : Int → Int)

@[simp] theorem effectsWith_nil (cells : List Int) : effectsWith fit cells [] = cells := rfl

@[simp] theorem effectsWith_cons (cells : List Int) (w : Word) (ws : List Word) :
    effectsWith fit cells (w :: ws) = effectsWith fit (w.effectWith fit cells) ws := rfl

theorem effectsWith_concat (cells : List Int) (ws : List Word) (w : Word) :
    effectsWith fit cells (ws ++ [w]) = w.effectWith fit (effectsWith fit cells ws) := by
  simp [effectsWith]

theorem effectWith_wrap (w : Word) (cells : List Int) :
    w.effectWith wrap cells = w.effect cells := by
  rw [← effect_ofWord, effectWith]
  unfold Instruction.effectWith Instruction.stored? Instruction.effect
  cases (Instruction.ofWord w).operation? with
  | none => rfl
  | some op => cases op <;> rfl

theorem effectsWith_wrap (cells : List Int) (words : List Word) :
    effectsWith wrap cells words = effects cells words := by
  rw [effectsWith, effects]
  congr 1
  funext cells w
  exact effectWith_wrap w cells

end Word

namespace Machine
open Routine

section Rounds
variable {fit : Int → Int} {m : Machine} {i : Instruction}

theorem registers_writeWith {index value : Int}
    (h : ((writeWith fit index value).run m).result = .ok ()) :
    ((writeWith fit index value).run m).machine.registers =
      ⟨m.registers.cells.set index.toNat (fit value)⟩ := by
  rw [writeWith, run_bind, run_machine, Outcome.bind_mk_ok, run_bind] at h ⊢
  obtain ⟨_, hcheck, _⟩ := Outcome.result_bind_eq_ok.1 h
  cases hc : m.registers.check index with
  | ok u => simp
  | error e => simp [hc] at hcheck

theorem run_read_of_ok {index value : Int} (h : ((read index).run m).result = .ok value) :
    ((read index).run m).machine = m ∧ value = m.registers.cells.getD index.toNat 0 := by
  by_cases hindex : 0 ≤ index ∧ index < m.registers.size
  · rw [run_read_of_mem hindex] at h ⊢
    cases h
    exact ⟨rfl, rfl⟩
  · rw [run_read_of_not_mem hindex] at h
    cases h

theorem cells_performWith {op : Operation} (hop : i.operation? = some op)
    (h : ((performWith fit i op).run m).result = .ok ()) :
    ((performWith fit i op).run m).machine.registers.cells =
      i.effectWith fit m.registers.cells := by
  cases op with
  | halt => simp [performWith, Instruction.effectWith, Instruction.stored?, hop]
  | loadi =>
    rw [performWith] at h ⊢
    rw [registers_writeWith h]
    simp [Instruction.effectWith, Instruction.stored?, hop]
  | add =>
    rw [performWith, run_bind] at h ⊢
    obtain ⟨left, hleft, hrest⟩ := Outcome.result_bind_eq_ok.1 h
    obtain ⟨hm, rfl⟩ := run_read_of_ok hleft
    rw [hm, run_bind] at hrest
    obtain ⟨right, hright, hwrite⟩ := Outcome.result_bind_eq_ok.1 hrest
    obtain ⟨hm', rfl⟩ := run_read_of_ok hright
    rw [hm'] at hwrite
    rw [Outcome.bind_of_ok hleft, hm, run_bind, Outcome.bind_of_ok hright, hm']
    rw [registers_writeWith hwrite]
    simp [Instruction.effectWith, Instruction.stored?, hop]

theorem registers_emit (line : String) (m : Machine) :
    ((emit line).run m).machine.registers = m.registers := by
  cases ha : m.sink.accept with
  | ok sink => rw [run_emit_of_accept ha]; rfl
  | error reason => rw [run_emit_of_error ha]

theorem machine_describe (i : Instruction) (m : Machine) :
    ((describe i).run m).machine = m := by
  unfold describe
  split <;> rfl

/-- An unknown instruction leaves the registers alone in any case. -/
theorem Evaluates.registers_of_unknown {o : Outcome Unit} (h : Evaluates i m o)
    (hop : i.operation? = none) : o.machine.registers = m.registers := by
  cases h with
  | unknown => rfl
  | unwritable => rfl
  | refused => rfl
  | missing => rfl
  | done => rw [Instruction.carryOut_of_unknown hop]; rfl

theorem cells_evaluateWith (h : ((evaluateWith fit i).run m).result = .ok ()) :
    ((evaluateWith fit i).run m).machine.registers.cells =
      i.effectWith fit m.registers.cells := by
  cases hop : i.operation? with
  | none =>
    have hsame : evaluateWith fit i = evaluate i := by simp only [evaluateWith, evaluate, hop]
    rw [hsame, (evaluates_run i m).registers_of_unknown hop,
      Instruction.effectWith_of_unknown hop]
  | some op =>
    have heval : evaluateWith fit i = (do emit (← describe i); performWith fit i op) := by
      simp only [evaluateWith, hop]
    rw [heval, run_bind] at h ⊢
    obtain ⟨text, htext, hrest⟩ := Outcome.result_bind_eq_ok.1 h
    rw [machine_describe, run_bind] at hrest
    obtain ⟨_, hline, hperform⟩ := Outcome.result_bind_eq_ok.1 hrest
    rw [Outcome.bind_of_ok htext, machine_describe, run_bind, Outcome.bind_of_ok hline]
    rw [cells_performWith hop hperform, registers_emit]

/-- A step that succeeds carries out the word at the counter. -/
theorem stepWith_of_ok (h : ((stepWith fit).run m).result = .ok ()) :
    ∃ w, m.program.words[m.program.pc]? = some w ∧
      ((stepWith fit).run m).machine.program = m.advance.program ∧
      ((stepWith fit).run m).machine.registers.cells = w.effectWith fit m.registers.cells := by
  rw [stepWith, run_bind, run_machine, Outcome.bind_mk_ok] at h ⊢
  cases hrun : m.running with
  | false => simp [hrun] at h
  | true =>
    simp only [hrun, if_true, run_bind] at h ⊢
    cases hw : m.program.words[m.program.pc]? with
    | none => simp [run_fetch_of_getElem?_none hw] at h
    | some w =>
      rw [run_fetch_of_getElem? hw, Outcome.bind_mk_ok] at h ⊢
      obtain ⟨_, hevaluate, _⟩ := Outcome.result_bind_eq_ok.1 h
      refine ⟨w, rfl, ?_, ?_⟩
      · exact KeepsProgram.bind (keepsProgram_evaluateWith _) (fun _ => keepsProgram_logState) _
      · rw [run_bind, Outcome.bind_of_ok hevaluate]
        exact cells_evaluateWith hevaluate

theorem roundWith_of_ok (h : ((roundWith fit).run m).result = .ok ()) :
    ∃ w, m.program.words[m.program.pc]? = some w ∧
      ((roundWith fit).run m).machine.program = m.advance.program ∧
      ((roundWith fit).run m).machine.registers.cells = w.effectWith fit m.registers.cells := by
  rw [roundWith, run_bind] at h ⊢
  obtain ⟨_, hstep, _⟩ := Outcome.result_bind_eq_ok.1 h
  obtain ⟨w, hw, hprogram, hcells⟩ := stepWith_of_ok hstep
  refine ⟨w, hw, ?_, ?_⟩
  · rw [Outcome.bind_of_ok hstep, keepsProgram_showRegisters, hprogram]
  · rw [Outcome.bind_of_ok hstep, run_showRegisters, registers_emit, hcells]

/-- Rounds that succeed leave the cells that the next words make of those before. -/
theorem cells_roundsWith {n : Nat} (h : ((roundsWith fit n).run m).result = .ok ()) :
    ((roundsWith fit n).run m).machine.registers.cells =
      Word.effectsWith fit m.registers.cells ((m.program.words.drop m.program.pc).take n) := by
  induction n generalizing m with
  | zero => simp [roundsWith]
  | succ n ih =>
    rw [roundsWith, run_bind] at h ⊢
    obtain ⟨_, hround, hrest⟩ := Outcome.result_bind_eq_ok.1 h
    obtain ⟨w, hw, hprogram, hcells⟩ := roundWith_of_ok hround
    obtain ⟨hlt, rfl⟩ := List.getElem?_eq_some_iff.1 hw
    rw [Outcome.bind_of_ok hround, ih hrest, hprogram, hcells, List.drop_eq_getElem_cons hlt,
      List.take_succ_cons, Word.effectsWith_cons]
    rfl

end Rounds

section Execution
variable {words : List Word} {strict : Bool} {n : Nat}

theorem cells_roundsWith_boot {fit : Int → Int} {sink : Sink}
    (h : ((roundsWith fit n).run (boot (.ofWords words) strict sink)).result = .ok ()) :
    ((roundsWith fit n).run (boot (.ofWords words) strict sink)).machine.registers.cells =
      Word.effectsWith fit [0, 0, 0, 0] (words.take n) :=
  cells_roundsWith h

theorem cells_rounds_boot {sink : Sink}
    (h : ((rounds n).run (boot (.ofWords words) strict sink)).result = .ok ()) :
    ((rounds n).run (boot (.ofWords words) strict sink)).machine.registers.cells =
      Word.cellsAfter (words.take n) := by
  rw [← roundsWith_wrap] at h ⊢
  rw [cells_roundsWith_boot h, Word.effectsWith_wrap, Word.cellsAfter]

/-- Fewer rounds succeed as well. -/
theorem result_rounds_of_le {m : Machine} {k : Nat} (h : ((rounds n).run m).result = .ok ())
    (hk : k ≤ n) : ((rounds k).run m).result = .ok () := by
  obtain ⟨j, rfl⟩ := Nat.exists_eq_add_of_le hk
  rw [run_rounds_add] at h
  obtain ⟨_, hfirst, _⟩ := Outcome.result_bind_eq_ok.1 h
  exact hfirst

/-- What an execution leaves behind when its first `n` words were carried out and no more. -/
structure Leaves (words : List Word) (strict : Bool) (n : Nat) (o : Outcome Unit) : Prop where
  completes : Completes (boot (.ofWords words) strict .endless) n
  cells : o.machine.registers.cells = Word.cellsAfter (words.take n)
  events : o.events = Word.events (words.take n)
  known : strict = true → ∀ w ∈ words.take n, (Instruction.ofWord w).opcode ≤ 2
  unknown : ∀ opcode address, o.result = .error (.unknownOpcode opcode address) →
    ∃ w, words[n]? = some w ∧ opcode = (Instruction.ofWord w).opcode ∧ 2 < opcode ∧ address = n

theorem opcode_le_of_not_stops {w : Word} (h : ¬ w.Stops true) :
    (Instruction.ofWord w).opcode ≤ 2 := by
  simp only [Word.Stops, not_or, not_and] at h
  exact Int.not_lt.1 (h.2.2.2 trivial)

section Leaves
variable {k : Nat} {w : Word}

theorem leaves_of_none (h : ∀ v ∈ words, ¬ v.Stops strict) :
    Leaves words strict words.length (execute (.ofWords words) strict .endless) := by
  have he := execute_of_none h
  refine ⟨completes_boot_of_none h, ?_, ?_, ?_, ?_⟩
  · rw [he, List.take_length]
    rfl
  · rw [he, List.take_length]
  · rintro rfl v hv
    exact opcode_le_of_not_stops (h v (List.mem_of_mem_take hv))
  · intro opcode address hresult
    rw [he] at hresult
    cases hresult

theorem leaves_of_halt (h : ∀ v ∈ words.take k, ¬ v.Stops strict) (hw : words[k]? = some w)
    (hhalt : w.isHalt = true) :
    Leaves words strict (k + 1) (execute (.ofWords words) strict .endless) := by
  have he := execute_of_halt h hw hhalt
  obtain ⟨hk, hget⟩ := List.getElem?_eq_some_iff.1 hw
  have htake : words.take (k + 1) = words.take k ++ [w] := by
    rw [List.take_succ_eq_append_getElem hk, hget]
  refine ⟨completes_boot_of_halt h hw hhalt, ?_, ?_, ?_, ?_⟩
  · rw [he, htake]
    exact (Word.effects_concat _ _ _).symm
  · rw [he]
  · rintro rfl v hv
    rw [htake] at hv
    rcases List.mem_append.1 hv with hv | hv
    · exact opcode_le_of_not_stops (h v hv)
    · have hcode : (Instruction.ofWord w).opcode = 0 := by simpa [Word.isHalt] using hhalt
      rw [List.mem_singleton.1 hv]
      omega
  · intro opcode address hresult
    rw [he] at hresult
    cases hresult

theorem leaves_of_fault {e : Fault} (h : ∀ v ∈ words.take k, ¬ v.Stops strict)
    (hw : words[k]? = some w)
    (hfault : ∀ r : RegisterFile, r.size = 4 →
      (Instruction.ofWord w).fault? r strict k = some e)
    (hunknown : ∀ opcode address, e = .unknownOpcode opcode address →
      opcode = (Instruction.ofWord w).opcode ∧ 2 < opcode ∧ address = k) :
    Leaves words strict k (execute (.ofWords words) strict .endless) := by
  have he := execute_of_fault h hw hfault
  refine ⟨completes_boot_of_fault h hw hfault, ?_, ?_, ?_, ?_⟩
  · rw [he]
    rfl
  · rw [he]
  · rintro rfl v hv
    exact opcode_le_of_not_stops (h v hv)
  · intro opcode address hresult
    rw [he] at hresult
    exact ⟨w, hw, hunknown opcode address (Except.error.inj hresult)⟩

theorem execute_leaves (words : List Word) (strict : Bool) :
    ∃ n ≤ words.length, Leaves words strict n (execute (.ofWords words) strict .endless) := by
  rcases Word.exists_first (Word.Stops strict) words with hnone | ⟨k, w, hw, hstop, h⟩
  · exact ⟨words.length, Nat.le_refl _, leaves_of_none hnone⟩
  · obtain ⟨hk, _⟩ := List.getElem?_eq_some_iff.1 hw
    rcases Word.stops_cases hstop with hhalt | ⟨index, hindex⟩ | ⟨rfl, hcode⟩
    · exact ⟨k + 1, hk, leaves_of_halt h hw hhalt⟩
    · refine ⟨k, Nat.le_of_lt hk,
        leaves_of_fault h hw (fun r hr => Word.fault?_of_lookup hindex hr k) ?_⟩
      intro opcode address he
      cases he
    · refine ⟨k, Nat.le_of_lt hk,
        leaves_of_fault h hw (fun r _ => Word.fault?_of_unknown hcode k) ?_⟩
      intro opcode address he
      cases he
      exact ⟨rfl, hcode, rfl⟩

end Leaves

section Refusal
variable {m : Machine}

/-- A step that succeeds is the same step with a sink that takes every line. -/
theorem machine_step_endless (h : (step.run m).result = .ok ()) :
    (step.run (m.withSink .endless)).result = .ok () ∧
      (step.run (m.withSink .endless)).machine = (step.run m).machine.withSink .endless := by
  have hsteps := steps_run m
  generalize step.run m = o at h hsteps
  cases hsteps with
  | halted => cases h
  | pastEnd => cases h
  | faulted => cases h
  | @done w m' lines events hrun hw hev =>
    cases hev with
    | done hd hstrict _ hmissing =>
      have hsame : Evaluates (.ofWord w) (m.withSink .endless).advance _ :=
        .done hd hstrict rfl hmissing
      have hstep : Steps (m.withSink .endless) _ := .done hrun hw hsame
      rw [hstep.run_eq]
      exact ⟨rfl, rfl⟩

theorem machine_emit_of_ok {line : String} (h : ((emit line).run m).result = .ok ()) :
    ((emit line).run m).machine.withSink .endless = m.withSink .endless := by
  cases ha : m.sink.accept with
  | ok sink =>
    rw [run_emit_of_accept ha]
    rfl
  | error reason =>
    rw [run_emit_of_error ha] at h
    cases h

theorem run_round (m : Machine) :
    round.run m = (step.run m).bind fun _ m' => (emit m'.registers.snapshot).run m' := rfl

/-- A round needs no more of its sink than that its step succeeds. -/
theorem machine_round_of_step (h : (step.run m).result = .ok ()) :
    (round.run (m.withSink .endless)).result = .ok () ∧
      (round.run (m.withSink .endless)).machine = (step.run m).machine.withSink .endless := by
  obtain ⟨hresult, hmachine⟩ := machine_step_endless h
  rw [run_round, Outcome.bind_of_ok hresult, hmachine, run_emit_of_endless rfl]
  exact ⟨rfl, rfl⟩

theorem machine_round_endless (h : (round.run m).result = .ok ()) :
    (round.run (m.withSink .endless)).result = .ok () ∧
      (round.run (m.withSink .endless)).machine = (round.run m).machine.withSink .endless := by
  rw [run_round] at h
  obtain ⟨_, hstep, hshow⟩ := Outcome.result_bind_eq_ok.1 h
  obtain ⟨hresult, hmachine⟩ := machine_round_of_step hstep
  refine ⟨hresult, ?_⟩
  rw [hmachine, run_round m, Outcome.bind_of_ok hstep]
  exact (machine_emit_of_ok hshow).symm

/-- The registers after a round are those before it, or those after the same round with a sink that
takes every line. -/
theorem registers_round (m : Machine) :
    (round.run m).machine.registers = m.registers ∨
      (round.run (m.withSink .endless)).result = .ok () ∧
      (round.run m).machine.registers =
        (round.run (m.withSink .endless)).machine.registers := by
  rw [run_round m]
  cases hstep : (step.run m).result with
  | error e =>
    rw [Outcome.bind_of_error hstep]
    exact .inl ((steps_run m).leavesIntact hstep).1.registers
  | ok =>
    obtain ⟨hresult, hmachine⟩ := machine_round_of_step hstep
    refine .inr ⟨hresult, ?_⟩
    rw [hmachine, Outcome.bind_of_ok hstep]
    exact registers_emit _ _

/-- The registers that a run leaves are those after some rounds of the run with a sink that takes
every line. -/
theorem registers_run (m : Machine) :
    ∃ n, ((rounds n).run (m.withSink .endless)).result = .ok () ∧
      (run m).machine.registers = ((rounds n).run (m.withSink .endless)).machine.registers := by
  induction m using round_induction with
  | halted m hrun =>
    rw [run_of_not_running hrun]
    exact ⟨0, rfl, rfl⟩
  | running m hrun ih =>
    rw [run_of_running hrun]
    cases hround : (round.run m).result with
    | error e =>
      rw [Outcome.bind_of_error hround]
      rcases registers_round m with hintact | ⟨hresult, hregisters⟩
      · exact ⟨0, rfl, hintact⟩
      · refine ⟨1, ?_, ?_⟩ <;> rw [run_rounds_succ, Outcome.bind_of_ok hresult]
        · rfl
        · exact hregisters
    | ok =>
      obtain ⟨hresult, hmachine⟩ := machine_round_endless hround
      obtain ⟨n, hn, hregisters⟩ := ih hround
      rw [← hmachine] at hn hregisters
      rw [Outcome.bind_of_ok hround]
      refine ⟨n + 1, ?_, ?_⟩ <;> rw [run_rounds_succ, Outcome.bind_of_ok hresult]
      · exact hn
      · exact hregisters

/-- A sink that refuses a line stops an execution with the registers after one of its rounds. -/
theorem registers_execute (words : List Word) (strict : Bool) (sink : Sink) :
    ∃ n, ((rounds n).run (boot (.ofWords words) strict .endless)).result = .ok () ∧
      (execute (.ofWords words) strict sink).machine.registers =
        ((rounds n).run (boot (.ofWords words) strict .endless)).machine.registers := by
  rw [execute, run_showRegisters]
  generalize hm : boot (.ofWords words) strict sink = m
  have hendless : boot (.ofWords words) strict .endless = m.withSink .endless := by
    rw [← hm]
    rfl
  rw [hendless]
  cases hshow : ((emit m.registers.snapshot).run m).result with
  | error e =>
    rw [Outcome.bind_of_error hshow]
    exact ⟨0, rfl, registers_emit _ _⟩
  | ok =>
    rw [Outcome.bind_of_ok hshow, ← machine_emit_of_ok hshow]
    exact registers_run _

end Refusal
end Execution
end Machine
end RegisterMachine
