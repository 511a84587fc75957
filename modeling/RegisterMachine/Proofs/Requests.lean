import Mathlib.Algebra.Ring.Int.Defs
import RegisterMachine.Machine.Request
import RegisterMachine.Proofs.Endings

/-! # Machines worked by hand

Whatever is asked of a machine, in whatever order, its registers stay four integers of 64 bits, its
program stays as it is, and its counter tells how many words were fetched. A halted machine stays
halted. One request has these properties by the ways in which an instruction can end, and requests
have them one after the other.
-/
namespace RegisterMachine

def IsCell (n : Int) : Prop := -2 ^ 63 ≤ n ∧ n < 2 ^ 63

theorem isCell_wrap (n : Int) : IsCell (wrap n) := by
  have hlow := Int.le_bmod (x := n) (m := registerModulus) (by decide)
  have hhigh := Int.bmod_lt (x := n) (m := registerModulus) (by decide)
  rw [registerModulus_eq] at hlow hhigh
  rw [IsCell, wrap, registerModulus_eq]
  omega

structure RegisterFile.Sound (r : RegisterFile) : Prop where
  length_cells : r.cells.length = 4
  isCell : ∀ n ∈ r.cells, IsCell n

theorem RegisterFile.Sound.set {cells : List Int} (h : RegisterFile.Sound ⟨cells⟩) (k : Nat)
    (n : Int) : RegisterFile.Sound ⟨cells.set k (wrap n)⟩ := by
  constructor
  · exact List.length_set.trans h.length_cells
  · intro c hc
    rcases List.mem_or_eq_of_mem_set hc with hc | rfl
    · exact h.isCell c hc
    · exact isCell_wrap n

theorem RegisterFile.Sound.effect {cells : List Int} (h : RegisterFile.Sound ⟨cells⟩)
    (i : Instruction) : RegisterFile.Sound ⟨i.effect cells⟩ := by
  unfold Instruction.effect
  split
  · exact h.set _ _
  · exact h.set _ _
  · exact h
  · exact h

namespace Machine
open Routine

/-- Cells are only replaced by four signed integers of 64 bits. -/
def Request.Valid : Request → Prop
  | setCells cells => RegisterFile.Sound ⟨cells⟩
  | _ => True

/-- The word that a request fetches, if it comes to a fetch and the fetch succeeds. -/
def delivery? (m : Machine) : Request → Option Word
  | .fetch => (fetch.run m).result.toOption
  | .step => if m.running then (fetch.run m).result.toOption else none
  | _ => none

def deliveries (m : Machine) : List Request → List Word
  | [] => []
  | q :: qs => (m.delivery? q).toList ++ ((answer q).run m).machine.deliveries qs

def after (m : Machine) : List Request → Machine
  | [] => m
  | q :: qs => ((answer q).run m).machine.after qs

/-- What can be seen of a word that a request fetched: a fetch replies with it, and a step traces
its text, if anything. -/
def Request.Shows (w : Word) (o : Outcome (Option Int)) : Request → Prop
  | fetch => o.result = .ok (some w.toNat)
  | step => o.lines <+: [w.disassemble]
  | _ => False

/-- The machine `m'` comes from `m` by a request that fetches the word `w?`, if there is one. -/
structure Alters (m : Machine) (w? : Option Word) (m' : Machine) : Prop where
  registers : m.registers.Sound → m'.registers.Sound
  program : m'.program = { m.program with pc := m.program.pc + w?.toList.length }
  running : m.running = false → m'.running = false

section Request
variable {m m' : Machine} {i : Instruction} {o : Outcome Unit} {w : Word}

theorem Alters.refl (m : Machine) : Alters m none m := ⟨id, rfl, id⟩

theorem fetch_toOption (m : Machine) :
    (fetch.run m).result.toOption = m.program.words[m.program.pc]? := by
  cases hw : m.program.words[m.program.pc]? with
  | some w => rw [run_fetch_of_getElem? hw]; rfl
  | none => rw [run_fetch_of_getElem?_none hw]; rfl

theorem delivery?_eq_some {q : Request} (h : m.delivery? q = some w) :
    m.program.words[m.program.pc]? = some w := by
  unfold delivery? at h
  split at h
  · rwa [fetch_toOption] at h
  · split at h
    · rwa [fetch_toOption] at h
    · cases h
  · cases h

theorem Evaluates.alters (h : Evaluates i m o) : Alters m none o.machine := by
  cases h with
  | unknown => exact .refl m
  | unwritable => exact .refl m
  | refused => exact .refl m
  | missing => exact ⟨id, rfl, id⟩
  | done => exact ⟨fun hr => hr.effect i, rfl, fun hm => by simp [Instruction.carryOut, hm]⟩

theorem Evaluates.lines_isPrefix_text (h : Evaluates i m o) : o.lines <+: [i.text] := by
  cases h with
  | unknown => exact List.nil_prefix
  | unwritable => exact List.nil_prefix
  | refused => exact List.nil_prefix
  | missing => exact List.prefix_refl _
  | done => exact List.prefix_refl _

/-- Evaluating the word that was fetched comes after the fetch. -/
theorem Alters.of_advance (h : Alters m.advance none m') : Alters m (some w) m' :=
  ⟨h.registers, h.program, h.running⟩

theorem Steps.alters (h : Steps m o) : Alters m (m.delivery? .step) o.machine := by
  rw [delivery?, fetch_toOption]
  cases h with
  | halted hrun => rw [hrun]; exact .refl m
  | pastEnd hrun hw => rw [hrun, hw]; exact .refl m
  | faulted hrun hw hev => rw [hrun, hw]; exact .of_advance hev.alters
  | done hrun hw hev => rw [hrun, hw]; exact .of_advance hev.alters

theorem Steps.lines_isPrefix_text (h : Steps m o) (hw : m.delivery? .step = some w) :
    o.lines <+: [w.disassemble] := by
  have hget := delivery?_eq_some hw
  cases h with
  | halted => exact List.nil_prefix
  | pastEnd => exact List.nil_prefix
  | faulted _ hw' hev =>
    cases hget.symm.trans hw'
    exact hev.lines_isPrefix_text
  | done _ hw' hev =>
    cases hget.symm.trans hw'
    exact hev.lines_isPrefix_text

/-- Whether or not a request replies with a number, the machine is that of its routine. -/
theorem machine_bind_pure {α β : Type} (x : Routine α) (f : α → β) (m : Machine) :
    ((x >>= fun a => pure (f a)).run m).machine = (x.run m).machine := by
  rw [run_bind]
  cases h : (x.run m).result with
  | ok a => rw [Outcome.bind_of_ok h]; rfl
  | error e => rw [Outcome.bind_of_error h]

theorem lines_bind_pure {α β : Type} (x : Routine α) (f : α → β) (m : Machine) :
    ((x >>= fun a => pure (f a)).run m).lines = (x.run m).lines := by
  rw [run_bind]
  cases h : (x.run m).result with
  | ok a => rw [Outcome.bind_of_ok h]; simp
  | error e => rw [Outcome.bind_of_error h]

theorem Alters.reply {α : Type} {x : Routine α} {w? : Option Word}
    (h : Alters m w? (x.run m).machine) (f : α → Option Int) :
    Alters m w? ((x >>= fun a => pure (f a)).run m).machine := by
  rwa [machine_bind_pure]

theorem run_showRegisters (m : Machine) :
    showRegisters.run m = (emit m.registers.snapshot).run m := rfl

theorem alters_showRegisters (m : Machine) : Alters m none (showRegisters.run m).machine := by
  rw [run_showRegisters]
  cases ha : m.sink.accept with
  | ok sink => rw [run_emit_of_accept ha]; exact ⟨id, rfl, id⟩
  | error reason => rw [run_emit_of_error ha]; exact .refl m

theorem alters_read (index : Int) (m : Machine) : Alters m none ((read index).run m).machine := by
  by_cases h : 0 ≤ index ∧ index < m.registers.size
  · rw [run_read_of_mem h]; exact .refl m
  · rw [run_read_of_not_mem h]; exact .refl m

theorem alters_write (index value : Int) (m : Machine) :
    Alters m none ((write index value).run m).machine := by
  by_cases h : 0 ≤ index ∧ index < m.registers.size
  · rw [run_write_of_mem h]; exact ⟨fun hr => hr.set _ _, rfl, id⟩
  · rw [run_write_of_not_mem h]; exact .refl m

theorem alters_fetch (m : Machine) : Alters m (m.delivery? .fetch) (fetch.run m).machine := by
  rw [delivery?, fetch_toOption]
  cases hw : m.program.words[m.program.pc]? with
  | some w => rw [run_fetch_of_getElem? hw]; exact ⟨id, rfl, id⟩
  | none => rw [run_fetch_of_getElem?_none hw]; exact .refl m

theorem alters_answer {q : Request} (hq : q.Valid) (m : Machine) :
    Alters m (m.delivery? q) ((answer q).run m).machine := by
  cases q with
  | step => exact (steps_run m).alters.reply _
  | evaluate i => exact (evaluates_run i m).alters.reply _
  | fetch => exact (alters_fetch m).reply _
  | showRegisters => exact (alters_showRegisters m).reply _
  | logState => exact (Alters.refl m).reply _
  | read index => exact (alters_read index m).reply _
  | write index value => exact (alters_write index value m).reply _
  | setCells cells => exact ⟨fun _ => hq, rfl, id⟩
  | setStrict strict => exact ⟨id, rfl, id⟩

theorem shows_answer {q : Request} (h : m.delivery? q = some w) :
    q.Shows w ((answer q).run m) := by
  cases q with
  | step =>
    rw [Request.Shows, answer, lines_bind_pure]
    exact (steps_run m).lines_isPrefix_text h
  | fetch => simp [Request.Shows, answer, run_fetch_of_getElem? (delivery?_eq_some h)]
  | _ => cases h

end Request

section Requests
variable {words : List Word} {m : Machine} {qs : List Request} {k : Nat}
  {o : Outcome (Option Int)}

structure Sound (words : List Word) (m : Machine) : Prop where
  registers : m.registers.Sound
  words_eq : m.program.words = words
  pc_le : m.program.pc ≤ words.length

theorem sound_boot (words : List Word) (strict : Bool) (sink : Sink) :
    (boot (.ofWords words) strict sink).Sound words := by
  refine ⟨⟨rfl, ?_⟩, rfl, Nat.zero_le _⟩
  intro n hn
  rw [List.eq_of_mem_replicate hn]
  exact ⟨by decide, by decide⟩

theorem Sound.answer (h : m.Sound words) {q : Request} (hq : q.Valid) :
    ((answer q).run m).machine.Sound words := by
  have ha := alters_answer hq m
  refine ⟨ha.registers h.registers, by rw [ha.program, h.words_eq], ?_⟩
  rw [ha.program]
  cases hw : m.delivery? q with
  | none => exact h.pc_le
  | some w =>
    have hget := delivery?_eq_some hw
    rw [h.words_eq] at hget
    exact (List.getElem?_eq_some_iff.1 hget).1

theorem Sound.after (h : m.Sound words) (hqs : ∀ q ∈ qs, q.Valid) :
    (m.after qs).Sound words := by
  induction qs generalizing m with
  | nil => exact h
  | cons q qs ih =>
    obtain ⟨hq, hqs⟩ := List.forall_mem_cons.1 hqs
    exact ih (h.answer hq) hqs

/-- The words before the counter and those fetched from there on are the words before the counter
in the end. -/
theorem take_append_deliveries (hqs : ∀ q ∈ qs, q.Valid) (m : Machine) :
    m.program.words.take m.program.pc ++ m.deliveries qs =
      m.program.words.take (m.after qs).program.pc := by
  induction qs generalizing m with
  | nil => exact List.append_nil _
  | cons q qs ih =>
    obtain ⟨hq, hqs⟩ := List.forall_mem_cons.1 hqs
    have hp := (alters_answer hq m).program
    have hrest := ih hqs ((answer q).run m).machine
    rw [hp] at hrest
    rw [deliveries, after, ← hrest, ← List.append_assoc]
    -- the counter passes over the word that is delivered, or stays where it is
    cases hw : m.delivery? q with
    | none => simp
    | some w =>
      obtain ⟨hlt, hget⟩ := List.getElem?_eq_some_iff.1 (delivery?_eq_some hw)
      simp [List.take_succ_eq_append_getElem hlt, hget]

theorem running_after (hqs : ∀ q ∈ qs, q.Valid) (hrun : m.running = false) :
    (m.after qs).running = false := by
  induction qs generalizing m with
  | nil => exact hrun
  | cons q qs ih =>
    obtain ⟨hq, hqs⟩ := List.forall_mem_cons.1 hqs
    exact ih hqs ((alters_answer hq m).running hrun)

theorem deliveries_append (m : Machine) (qs rs : List Request) :
    m.deliveries (qs ++ rs) = m.deliveries qs ++ (m.after qs).deliveries rs := by
  induction qs generalizing m with
  | nil => rfl
  | cons q qs ih => rw [List.cons_append, deliveries, deliveries, ih, after, List.append_assoc]

theorem after_append (m : Machine) (qs rs : List Request) :
    m.after (qs ++ rs) = (m.after qs).after rs := by
  induction qs generalizing m with
  | nil => rfl
  | cons q qs ih => exact ih _

theorem length_answers (m : Machine) (qs : List Request) : (m.answers qs).length = qs.length := by
  induction qs generalizing m with
  | nil => rfl
  | cons q qs ih => rw [answers, List.length_cons, List.length_cons, ih]

/-- A machine that is halted after some of the requests is halted after more of them. -/
theorem running_after_take {j : Nat} (hqs : ∀ q ∈ qs, q.Valid) (hkj : k ≤ j)
    (hrun : (m.after (qs.take k)).running = false) : (m.after (qs.take j)).running = false := by
  have hsplit : qs.take j = qs.take k ++ (qs.drop k).take (j - k) := by
    rw [← List.take_add, Nat.add_sub_cancel' hkj]
  rw [hsplit, after_append]
  apply running_after _ hrun
  intro q hq
  exact hqs q (List.mem_of_mem_drop (List.mem_of_mem_take hq))

theorem getElem?_answers (h : (m.answers qs)[k]? = some o) :
    ∃ q, qs[k]? = some q ∧ o = (answer q).run (m.after (qs.take k)) := by
  induction qs generalizing m k with
  | nil => cases h
  | cons q qs ih =>
    cases k with
    | zero => cases h; exact ⟨q, rfl, rfl⟩
    | succ k => exact ih h

theorem machine_getElem?_answers (h : (m.answers qs)[k]? = some o) :
    o.machine = m.after (qs.take (k + 1)) := by
  obtain ⟨q, hq, rfl⟩ := getElem?_answers h
  obtain ⟨hk, rfl⟩ := List.getElem?_eq_some_iff.1 hq
  rw [List.take_succ_eq_append_getElem hk, after_append]
  rfl

theorem run_answer_step_of_halted (h : m.running = false) :
    (answer .step).run m = ⟨m, [], [], .error .halted⟩ := by
  simp [answer, step, h]

/-- Whatever valid requests are made of a machine, in whatever order and with whatever sink, after
each of them its registers are four integers of 64 bits, its program is the one that it was booted
with, and its counter is the number of words fetched, which are the first ones of the program. Once
it is halted it stays so, and steps then fault without any effect. -/
theorem answers_sound (words : List Word) (strict : Bool) (sink : Sink) (requests : List Request)
    (hvalid : ∀ q ∈ requests, q.Valid) :
    let start := boot (.ofWords words) strict sink
    (start.answers requests).length = requests.length ∧
    ∀ k o, (start.answers requests)[k]? = some o →
      o.machine.Sound words ∧
      (start.deliveries (requests.take (k + 1))).length = o.machine.program.pc ∧
      start.deliveries (requests.take (k + 1)) <+: words ∧
      (∀ w, start.deliveries (requests.take (k + 1)) = start.deliveries (requests.take k) ++ [w] →
        ∃ q, requests[k]? = some q ∧ q.Shows w o) ∧
      (o.machine.running = false → ∀ j p p', k ≤ j → (start.answers requests)[j]? = some p →
        (start.answers requests)[j + 1]? = some p' →
        p'.machine.running = false ∧
        (requests[j + 1]? = some .step → p' = ⟨p.machine, [], [], .error .halted⟩)) := by
  intro start
  have htake : ∀ k, ∀ q ∈ requests.take k, q.Valid :=
    fun _ q hq => hvalid q (List.mem_of_mem_take hq)
  refine ⟨length_answers start requests, ?_⟩
  intro k o ho
  have hm := machine_getElem?_answers ho
  have hsound : o.machine.Sound words := by
    rw [hm]
    exact (sound_boot words strict sink).after (htake _)
  have hwords : start.deliveries (requests.take (k + 1)) = words.take o.machine.program.pc := by
    rw [hm]
    exact take_append_deliveries (htake _) start
  refine ⟨hsound, ?_, ?_, ?_, ?_⟩
  · rw [hwords, List.length_take_of_le hsound.pc_le]
  · rw [hwords]
    exact List.take_prefix _ _
  · intro w hw
    obtain ⟨q, hq, rfl⟩ := getElem?_answers ho
    obtain ⟨hk, rfl⟩ := List.getElem?_eq_some_iff.1 hq
    refine ⟨_, hq, shows_answer ?_⟩
    rw [List.take_succ_eq_append_getElem hk, deliveries_append] at hw
    simpa [deliveries] using List.append_cancel_left hw
  · intro hrun j p p' hj hp hp'
    rw [hm] at hrun
    constructor
    · rw [machine_getElem?_answers hp']
      exact running_after_take hvalid (by omega) hrun
    · intro hstep
      obtain ⟨q, hq, rfl⟩ := getElem?_answers hp'
      cases hstep.symm.trans hq
      rw [machine_getElem?_answers hp]
      exact run_answer_step_of_halted (running_after_take hvalid (by omega) hrun)

/-- A machine that was halted by hand, with the extreme values in its cells. -/
theorem answers_sound_halted :
    let start := boot (.ofWords [0x1064]) true ⟨some 1, .failure⟩
    let requests : List Request :=
      [.setCells [1, -1, 2 ^ 63 - 1, -2 ^ 63], .evaluate ⟨0, 9, -1, 0, 0⟩, .step]
    (∀ q ∈ requests, q.Valid) ∧
      ∃ p p', (start.answers requests)[1]? = some p ∧ (start.answers requests)[2]? = some p' ∧
        p.machine.running = false ∧ p.machine.registers.Sound ∧
        p' = ⟨p.machine, [], [], .error .halted⟩ := by
  intro start requests
  have hvalid : ∀ q ∈ requests, q.Valid := by
    intro q hq
    simp only [requests, List.mem_cons, List.not_mem_nil, or_false] at hq
    rcases hq with rfl | rfl | rfl
    · exact ⟨rfl, by simp [IsCell]⟩
    · trivial
    · trivial
  obtain ⟨hsound, -, -, -, hhalted⟩ :=
    (answers_sound [0x1064] true ⟨some 1, .failure⟩ requests hvalid).2 1 _ rfl
  exact ⟨hvalid, _, _, rfl, rfl, rfl, hsound.registers,
    (hhalted rfl 1 _ _ (Nat.le_refl 1) rfl rfl).2 rfl⟩

end Requests
end Machine
end RegisterMachine
