import Mathlib.Data.Int.ModEq
import Mathlib.Data.List.Forall2
import RegisterMachine.Proofs.Requests
import RegisterMachine.Proofs.Storing

/-! # Registers of 64 bits and registers without bounds

A machine whose registers hold any integers takes the same course as the machine with registers of
64 bits: no step looks at more of a cell than its residue modulo `2 ^ 64`, and the sum of residues
is the residue of the sum. Two routines agree if they lead from machines that differ in this way to
machines that do so; this passes from a routine to those that follow it, and so to all runs.
-/
namespace RegisterMachine

def Congruent (a b : Int) : Prop := a ≡ b [ZMOD 2 ^ 64]

def IsResidue (c n : Int) : Prop :=
  IsCell c ∧ Congruent c n ∧ ∀ k, IsCell k → Congruent k n → k = c

section Residue
variable {a b c d n : Int}

theorem congruent_iff : Congruent a b ↔ a % registerModulus = b % registerModulus := Iff.rfl

theorem congruent_wrap (n : Int) : Congruent (wrap n) n := by
  rw [congruent_iff, wrap, Int.bmod_emod]

theorem wrap_of_isCell (h : IsCell n) : wrap n = n := by
  rw [IsCell] at h
  rw [wrap, registerModulus_eq, Int.bmod_eq_of_le] <;> omega

theorem wrap_congr (h : Congruent a b) : wrap a = wrap b := by
  rw [wrap, wrap, ← Int.emod_bmod a, ← Int.emod_bmod b, congruent_iff.1 h]

theorem isResidue_of_congruent (hc : IsCell c) (h : Congruent c n) : IsResidue c n := by
  refine ⟨hc, h, ?_⟩
  intro k hk hkn
  rw [← wrap_of_isCell hk, ← wrap_of_isCell hc, wrap_congr hkn, wrap_congr h]

theorem RegisterFile.cellText_congr (h : Congruent a b) : cellText a = cellText b := by
  rw [cellText, cellText, congruent_iff.1 h]

end Residue

section Cells
variable {cells exact : List Int}

theorem forall₂_set {r : Int → Int → Prop} {a b : Int} (h : List.Forall₂ r cells exact)
    (hab : r a b) (k : Nat) : List.Forall₂ r (cells.set k a) (exact.set k b) := by
  induction h generalizing k with
  | nil => exact .nil
  | cons h hs ih =>
    cases k with
    | zero => exact .cons hab hs
    | succ k => exact .cons h (ih k)

theorem congruent_getD (h : List.Forall₂ Congruent cells exact) (k : Nat) :
    Congruent (cells.getD k 0) (exact.getD k 0) := by
  induction h generalizing k with
  | nil => exact Int.ModEq.rfl
  | cons h hs ih =>
    cases k with
    | zero => simpa using h
    | succ k => simpa using ih k

theorem RegisterFile.snapshot_congr (h : List.Forall₂ Congruent cells exact) :
    snapshot ⟨cells⟩ = snapshot ⟨exact⟩ := by
  have hmap : cells.map cellText = exact.map cellText := by
    rw [← List.forall₂_eq_eq_eq, List.forall₂_map_left_iff, List.forall₂_map_right_iff]
    exact h.imp fun _ _ => cellText_congr
  rw [snapshot, snapshot, hmap]

end Cells

/-- Events that tell the same, but for the cells of a state. -/
inductive Event.Agrees : Event → Event → Prop where
  | ignored (opcode address : Int) : Agrees (.ignored opcode address) (.ignored opcode address)
  | state (pc : Nat) {cells exact : List Int} : List.Forall₂ Congruent cells exact →
      Agrees (.state pc cells) (.state pc exact)

def Machine.withCells (m : Machine) (cells : List Int) : Machine :=
  { m with registers := ⟨cells⟩ }

/-- Machines that differ only in their cells, and in these only by multiples of `2 ^ 64`. -/
inductive Machine.Agrees (m : Machine) : Machine → Prop where
  | mk {exact : List Int} : List.Forall₂ Congruent m.registers.cells exact →
      Agrees m (m.withCells exact)

inductive ResultAgrees {α β : Type} (r : α → β → Prop) :
    Except Fault α → Except Fault β → Prop where
  | ok {a : α} {b : β} : r a b → ResultAgrees r (.ok a) (.ok b)
  | error (e : Fault) : ResultAgrees r (.error e) (.error e)

theorem ResultAgrees.refl {α : Type} (x : Except Fault α) : ResultAgrees Eq x x := by
  cases x with
  | ok a => exact .ok rfl
  | error e => exact .error e

theorem ResultAgrees.eq {α : Type} {x y : Except Fault α} (h : ResultAgrees Eq x y) : x = y := by
  cases h with
  | ok hab => rw [hab]
  | error e => rfl

structure Outcome.Agrees {α β : Type} (r : α → β → Prop) (o : Outcome α) (o' : Outcome β) :
    Prop where
  machine : o.machine.Agrees o'.machine
  lines : o.lines = o'.lines
  events : List.Forall₂ Event.Agrees o.events o'.events
  result : ResultAgrees r o.result o'.result

def Routine.Agrees {α β : Type} (r : α → β → Prop) (x : Routine α) (y : Routine β) : Prop :=
  ∀ m m' : Machine, m.Agrees m' → (x.run m).Agrees r (y.run m')

section Bind
variable {α β γ δ : Type} {r : α → β → Prop} {s : γ → δ → Prop}

theorem Outcome.Agrees.of_result {m m' : Machine} {result : Except Fault α}
    {result' : Except Fault β} (hm : m.Agrees m') (h : ResultAgrees r result result') :
    Agrees r ⟨m, [], [], result⟩ ⟨m', [], [], result'⟩ :=
  ⟨hm, rfl, .nil, h⟩

theorem Outcome.Agrees.bind {o : Outcome α} {o' : Outcome β} {f : α → Machine → Outcome γ}
    {g : β → Machine → Outcome δ} (h : o.Agrees r o')
    (hf : ∀ a b, o.result = .ok a → o'.result = .ok b → r a b →
      (f a o.machine).Agrees s (g b o'.machine)) : (o.bind f).Agrees s (o'.bind g) := by
  obtain ⟨m, lines, events, result⟩ := o
  obtain ⟨m', lines', events', result'⟩ := o'
  obtain ⟨hm, hlines, hevents, hresult⟩ := h
  cases hresult with
  | ok hab =>
    obtain ⟨hm, hlines', hevents', hresult⟩ := hf _ _ rfl rfl hab
    exact ⟨hm, congrArg₂ _ hlines hlines', List.rel_append hevents hevents', hresult⟩
  | error e => exact ⟨hm, hlines, hevents, .error e⟩

end Bind

namespace Routine
variable {α β γ δ : Type} {r : α → β → Prop} {s : γ → δ → Prop}

theorem Agrees.pure {a : α} {b : β} (h : r a b) :
    Agrees r (Pure.pure a : Routine α) (Pure.pure b : Routine β) :=
  fun _ _ hm => .of_result hm (.ok h)

theorem Agrees.fault (e : Fault) :
    Agrees r (Routine.fault e : Routine α) (Routine.fault e : Routine β) :=
  fun _ _ hm => .of_result hm (.error e)

theorem Agrees.machine : Agrees Machine.Agrees Routine.machine Routine.machine :=
  fun _ _ hm => .of_result hm (.ok hm)

theorem Agrees.ofExcept {x : Except Fault α} {y : Except Fault β} (h : ResultAgrees r x y) :
    Agrees r (Routine.ofExcept x) (Routine.ofExcept y) := by
  cases h with
  | ok hab => exact .pure hab
  | error e => exact .fault e

theorem Agrees.update {f g : Machine → Machine} (h : ∀ m m', m.Agrees m' → (f m).Agrees (g m')) :
    Agrees Eq (Routine.update f) (Routine.update g) :=
  fun m m' hm => .of_result (h m m' hm) (.ok rfl)

theorem Agrees.log {e e' : Event} (h : e.Agrees e') : Agrees Eq (Routine.log e) (Routine.log e') :=
  fun _ _ hm => ⟨hm, rfl, .cons h .nil, .ok rfl⟩

theorem Agrees.emit (line : String) : Agrees Eq (Routine.emit line) (Routine.emit line) := by
  rintro m m' @⟨exact, hcells⟩
  cases ha : m.sink.accept with
  | ok sink =>
    have ha' : (m.withCells exact).sink.accept = .ok sink := ha
    rw [Machine.run_emit_of_accept ha, Machine.run_emit_of_accept ha']
    exact ⟨.mk hcells, rfl, .nil, .ok rfl⟩
  | error reason =>
    have ha' : (m.withCells exact).sink.accept = .error reason := ha
    rw [run_emit_of_error ha, run_emit_of_error ha']
    exact .of_result (.mk hcells) (.error _)

theorem Agrees.bind {x : Routine α} {y : Routine β} {f : α → Routine γ} {g : β → Routine δ}
    (hx : Agrees r x y) (hf : ∀ a b, r a b → Agrees s (f a) (g b)) :
    Agrees s (x >>= f) (y >>= g) := by
  intro m m' hm
  have h := hx m m' hm
  exact h.bind fun a b _ _ hab => hf a b hab _ _ h.machine

end Routine

namespace Machine
open Routine

section Agreement
variable {m m' : Machine}

theorem Agrees.program_eq (h : m.Agrees m') : m'.program = m.program := by
  cases h
  rfl

theorem Agrees.running_eq (h : m.Agrees m') : m'.running = m.running := by
  cases h
  rfl

theorem Agrees.strict_eq (h : m.Agrees m') : m'.strict = m.strict := by
  cases h
  rfl

theorem Agrees.cells (h : m.Agrees m') :
    List.Forall₂ Congruent m.registers.cells m'.registers.cells := by
  cases h
  assumption

theorem Agrees.check_eq (h : m.Agrees m') (index : Int) :
    m'.registers.check index = m.registers.check index := by
  have hsize : m'.registers.size = m.registers.size := h.cells.length_eq.symm
  rw [RegisterFile.check, RegisterFile.check, hsize]

theorem Agrees.lastAddress_eq (h : m.Agrees m') : m'.lastAddress = m.lastAddress := by
  rw [lastAddress, lastAddress, h.program_eq]

theorem agrees_read (index : Int) : Routine.Agrees Congruent (read index) (read index) := by
  refine .bind .machine fun m m' hm => .ofExcept ?_
  rw [RegisterFile.read, RegisterFile.read, hm.check_eq]
  cases m.registers.check index with
  | ok u => exact .ok (congruent_getD hm.cells _)
  | error e => exact .error e

theorem agrees_fetch : Routine.Agrees Eq fetch fetch := by
  refine .bind .machine fun m m' hm => ?_
  rw [hm.program_eq]
  refine .bind (.ofExcept (.refl _)) ?_
  rintro ⟨w, program⟩ _ rfl
  refine .bind (.update ?_) fun _ _ _ => .pure rfl
  rintro m m' ⟨hcells⟩
  exact .mk hcells

theorem agrees_logState : Routine.Agrees Eq logState logState := by
  refine .bind .machine fun m m' hm => .log ?_
  rw [hm.program_eq]
  exact .state _ hm.cells

theorem agrees_showRegisters : Routine.Agrees Eq showRegisters showRegisters := by
  refine .bind .machine fun m m' hm => ?_
  have hsnapshot : m.registers.snapshot = m'.registers.snapshot :=
    RegisterFile.snapshot_congr hm.cells
  rw [hsnapshot]
  exact .emit _

theorem agrees_describe (i : Instruction) : Routine.Agrees Eq (describe i) (describe i) := by
  unfold describe
  split
  · exact .pure rfl
  · exact .fault _

theorem agrees_passOver (i : Instruction) : Routine.Agrees Eq (passOver i) (passOver i) := by
  refine .bind .machine fun m m' hm => ?_
  rw [hm.strict_eq, hm.lastAddress_eq]
  split
  · exact .fault _
  · refine .bind (.log (.ignored _ _)) fun _ _ _ => .bind (agrees_describe i) ?_
    rintro text _ rfl
    exact .emit text

section Fit
variable {fit fit' : Int → Int} (hfit : ∀ a b, Congruent a b → Congruent (fit a) (fit' b))
include hfit

theorem agrees_writeWith (index : Int) {a b : Int} (hab : Congruent a b) :
    Routine.Agrees Eq (writeWith fit index a) (writeWith fit' index b) := by
  refine .bind .machine fun m m' hm => ?_
  rw [hm.check_eq]
  refine .bind (.ofExcept (.refl _)) fun _ _ _ => .update ?_
  rintro m m' ⟨hcells⟩
  exact .mk (forall₂_set hcells (hfit a b hab) _)

theorem agrees_performWith (i : Instruction) (op : Operation) :
    Routine.Agrees Eq (performWith fit i op) (performWith fit' i op) := by
  cases op with
  | halt =>
    apply Routine.Agrees.update
    rintro m m' ⟨hcells⟩
    exact .mk hcells
  | loadi => exact agrees_writeWith hfit _ Int.ModEq.rfl
  | add =>
    refine .bind (agrees_read _) fun a b hab => .bind (agrees_read _) fun c d hcd => ?_
    exact agrees_writeWith hfit _ (Int.ModEq.add hab hcd)

theorem agrees_evaluateWith (i : Instruction) :
    Routine.Agrees Eq (evaluateWith fit i) (evaluateWith fit' i) := by
  unfold evaluateWith
  split
  · refine .bind (agrees_describe i) ?_
    rintro text _ rfl
    exact .bind (.emit text) fun _ _ _ => agrees_performWith hfit i _
  · exact agrees_passOver i

theorem agrees_stepWith : Routine.Agrees Eq (stepWith fit) (stepWith fit') := by
  refine .bind .machine fun m m' hm => ?_
  rw [hm.running_eq]
  split
  · refine .bind agrees_fetch ?_
    rintro w _ rfl
    exact .bind (agrees_evaluateWith hfit _) fun _ _ _ => agrees_logState
  · exact .fault _

theorem agrees_roundWith : Routine.Agrees Eq (roundWith fit) (roundWith fit') :=
  .bind (agrees_stepWith hfit) fun _ _ _ => agrees_showRegisters

theorem agrees_roundsWith (n : Nat) : Routine.Agrees Eq (roundsWith fit n) (roundsWith fit' n) := by
  induction n with
  | zero => exact .pure rfl
  | succ n ih => exact .bind (agrees_roundWith hfit) fun _ _ _ => ih

/-- Both machines go through the same number of rounds. -/
theorem agrees_runWith (hm : m.Agrees m') :
    (runWith fit m).Agrees Eq (runWith fit' m') := by
  have hround := agrees_roundWith hfit m m' hm
  induction m using (runWith.induct fit) generalizing m' with
  | case1 m hrun hok ih =>
    rw [runWith_of_running hrun, runWith_of_running (hm.running_eq.trans hrun)]
    refine hround.bind fun _ _ _ _ _ => ?_
    exact ih hround.machine (agrees_roundWith hfit _ _ hround.machine)
  | case2 m hrun e he =>
    rw [runWith_of_running hrun, runWith_of_running (hm.running_eq.trans hrun)]
    exact hround.bind fun a _ ha _ _ => by cases he.symm.trans ha
  | case3 m hrun =>
    have hhalted : m.running = false := by simpa using hrun
    rw [runWith_of_not_running hhalted, runWith_of_not_running (hm.running_eq.trans hhalted)]
    exact .of_result hm (.ok rfl)

end Fit
end Agreement

section Exact
variable {m : Machine} {cells exact : List Int}

theorem sound_round (h : m.registers.Sound) : (round.run m).machine.registers.Sound := by
  have hstep := (steps_run m).alters.registers h
  rw [round, run_bind]
  cases hs : (step.run m).result with
  | ok u =>
    rw [Outcome.bind_of_ok hs]
    exact (alters_showRegisters _).registers hstep
  | error e =>
    rw [Outcome.bind_of_error hs]
    exact hstep

theorem sound_rounds (h : m.registers.Sound) (n : Nat) :
    ((rounds n).run m).machine.registers.Sound := by
  induction n generalizing m with
  | zero => exact h
  | succ n ih =>
    have hround := sound_round h
    rw [run_rounds_succ]
    cases hr : (round.run m).result with
    | ok u =>
      rw [Outcome.bind_of_ok hr]
      exact ih hround
    | error e =>
      rw [Outcome.bind_of_error hr]
      exact hround

theorem forall₂_isResidue (h : List.Forall₂ Congruent cells exact)
    (hcells : ∀ c ∈ cells, IsCell c) : List.Forall₂ IsResidue cells exact := by
  have hboth := (List.forall₂_and_left _ _).2 ⟨hcells, h⟩
  exact hboth.imp fun c n hcn => isResidue_of_congruent hcn.1 hcn.2

/-- A machine whose registers hold any integers stops where the machine with registers of 64 bits
stops, with the same result, and traces the same lines. If they begin with congruent cells, their
cells are congruent after any number of rounds, and if the machine began with integers of 64 bits,
each of its cells is then the only such integer that is congruent to the other one. -/
theorem execute_congruent (words : List Word) (strict : Bool) (sink : Sink)
    (h : List.Forall₂ Congruent cells exact) :
    (execute (.ofWords words) strict sink).Agrees Eq
      (executeWith id (.ofWords words) strict sink) ∧
    let m := (boot (.ofWords words) strict sink).withCells cells
    let m' := (boot (.ofWords words) strict sink).withCells exact
    (run m).Agrees Eq (runWith id m') ∧ (run m).result = (runWith id m').result ∧
    ∀ n,
      let o := (rounds n).run m
      let o' := (roundsWith id n).run m'
      o.Agrees Eq o' ∧ o.result = o'.result ∧ o.machine.program = o'.machine.program ∧
        o.machine.running = o'.machine.running ∧
        (RegisterFile.Sound ⟨cells⟩ →
          List.Forall₂ IsResidue o.machine.registers.cells o'.machine.registers.cells) := by
  have hfit : ∀ a b, Congruent a b → Congruent (wrap a) (id b) :=
    fun a b hab => (congruent_wrap a).trans hab
  constructor
  · have hzeros : List.Forall₂ Congruent [0, 0, 0, 0] [0, 0, 0, 0] :=
      List.forall₂_same.2 fun _ _ => Int.ModEq.rfl
    have hboot : (boot (.ofWords words) strict sink).Agrees (boot (.ofWords words) strict sink) :=
      .mk hzeros
    have hshow := agrees_showRegisters _ _ hboot
    rw [← executeWith_wrap]
    exact hshow.bind fun _ _ _ _ _ => agrees_runWith hfit hshow.machine
  · intro m m'
    have hm : m.Agrees m' := .mk h
    have hrun := agrees_runWith hfit hm
    rw [runWith_wrap] at hrun
    refine ⟨hrun, hrun.result.eq, ?_⟩
    intro n o o'
    have ho : o.Agrees Eq o' := by
      have hrounds := agrees_roundsWith hfit n m m' hm
      rwa [roundsWith_wrap] at hrounds
    refine ⟨ho, ho.result.eq, ho.machine.program_eq.symm, ho.machine.running_eq.symm, ?_⟩
    intro hsound
    exact forall₂_isResidue ho.machine.cells (sound_rounds hsound n).isCell

/-- A sum beyond 64 bits, from a cell that had gone beyond them before. -/
theorem execute_congruent_overflow :
    let m := (boot (.ofWords [0x2001]) true .endless).withCells [2 ^ 63 - 1, 1, 0, 0]
    let m' := (boot (.ofWords [0x2001]) true .endless).withCells [2 ^ 63 - 1, 2 ^ 64 + 1, 0, 0]
    ((rounds 1).run m).machine.registers.cells = [-2 ^ 63, 1, 0, 0] ∧
      ((roundsWith id 1).run m').machine.registers.cells =
        [2 ^ 64 + 2 ^ 63, 2 ^ 64 + 1, 0, 0] ∧
      IsResidue (-2 ^ 63) (2 ^ 64 + 2 ^ 63) := by
  intro m m'
  have hcells : ((rounds 1).run m).machine.registers.cells = [-2 ^ 63, 1, 0, 0] := by
    decide +kernel
  have hexact : ((roundsWith id 1).run m').machine.registers.cells =
      [2 ^ 64 + 2 ^ 63, 2 ^ 64 + 1, 0, 0] := by
    decide +kernel
  refine ⟨hcells, hexact, ?_⟩
  have hcongruent : List.Forall₂ Congruent [2 ^ 63 - 1, 1, 0, 0]
      [2 ^ 63 - 1, 2 ^ 64 + 1, 0, 0] := by
    simp [Congruent, Int.ModEq]
  have hsound : RegisterFile.Sound ⟨[2 ^ 63 - 1, 1, 0, 0]⟩ := ⟨rfl, by simp [IsCell]⟩
  obtain ⟨-, -, -, hrounds⟩ := execute_congruent [0x2001] true .endless hcongruent
  obtain ⟨-, -, -, -, hstep⟩ := hrounds 1
  have hresidues := hstep hsound
  unfold m at hcells
  unfold m' at hexact
  simp only [hcells, hexact] at hresidues
  cases hresidues with
  | cons hhead => exact hhead

end Exact
end Machine
end RegisterMachine
