import Mathlib.Data.List.Basic
import RegisterMachine.Proofs.Evaluation
import RegisterMachine.RegisterFile.Request

/-! # The register file as a map

A register file that is worked by requests holds at each of its indices what was last written there,
reduced to the range of a cell, or zero. Any other index is a fault, a negative one as much as one
past the end, and changes nothing. What was written is told from the requests and the replies to
them alone, without the cells.
-/
namespace RegisterMachine.RegisterFile

/-- The index is one of a file of that many cells, none if the size is negative. -/
def Has (size index : Int) : Prop := 0 ≤ index ∧ index < size

def Request.index? : Request → Option Int
  | read index => some index
  | write index _ => some index
  | check index => some index
  | size => none
  | snapshot => none

def after (r : RegisterFile) : List Request → RegisterFile
  | [] => r
  | q :: qs => (r.answer q).2.after qs

abbrev Exchange := Request × Except Fault Reply

def exchanges (r : RegisterFile) : List Request → List Exchange
  | [] => []
  | q :: qs => (q, (r.answer q).1) :: (r.answer q).2.exchanges qs

def stored? (index : Int) : Exchange → Option Int
  | (.write i value, .ok _) => if i = index then some value else none
  | _ => none

/-- The last value that exchanges store at an index. -/
def lastStored? (index : Int) (history : List Exchange) : Option Int :=
  (history.filterMap (stored? index)).getLast?

def recalled (index : Int) (history : List Exchange) : Int :=
  (lastStored? index history).elim 0 wrap

theorem lastStored?_concat (index : Int) (history : List Exchange) (e : Exchange) :
    lastStored? index (history ++ [e]) = (stored? index e).or (lastStored? index history) := by
  rw [lastStored?, lastStored?, List.filterMap_append]
  cases h : stored? index e with
  | none => simp [h]
  | some value => simp [h]

section Answer
variable {r : RegisterFile} {q : Request} {index : Int}

theorem answer_of_not_mem (hq : q.index? = some index) (h : ¬ (0 ≤ index ∧ index < r.size)) :
    r.answer q = (.error (r.absence index), r) := by
  cases q with
  | read i =>
    obtain rfl := Option.some.inj hq
    simp [answer, reply, read_of_not_mem h, bind, Except.bind]
  | write i value =>
    obtain rfl := Option.some.inj hq
    simp [answer, reply, write_of_not_mem h, bind, Except.bind]
  | check i =>
    obtain rfl := Option.some.inj hq
    simp [answer, reply, check_of_not_mem h, bind, Except.bind]
  | size => cases hq
  | snapshot => cases hq

theorem answer_read (h : 0 ≤ index ∧ index < r.size) :
    r.answer (.read index) = (.ok (.number (r.cells.getD index.toNat 0)), r) := by
  simp [answer, reply, read_of_mem h, bind, Except.bind, pure, Except.pure]

theorem answer_write (h : 0 ≤ index ∧ index < r.size) (value : Int) :
    r.answer (.write index value) =
      (.ok .done, ⟨r.cells.set index.toNat (wrap value)⟩) := by
  simp [answer, reply, write_of_mem h, bind, Except.bind, pure, Except.pure]

theorem answer_check (h : 0 ≤ index ∧ index < r.size) :
    r.answer (.check index) = (.ok .done, r) := by
  simp [answer, reply, check_of_mem h, bind, Except.bind, pure, Except.pure]

end Answer

structure Recalls (size : Int) (history : List Exchange) (r : RegisterFile) : Prop where
  size_eq : r.size = size.toNat
  getD_eq : ∀ index, Has size index → r.cells.getD index.toNat 0 = recalled index history

section Recalls
variable {size index : Int} {history : List Exchange} {r : RegisterFile}

theorem Recalls.has_iff (h : Recalls size history r) :
    0 ≤ index ∧ index < r.size ↔ Has size index := by
  rw [h.size_eq, Has]
  omega

theorem recalls_zeros (size : Int) : Recalls size [] (zeros size) := by
  refine ⟨List.length_replicate, ?_⟩
  intro index _
  rw [zeros, List.getD_eq_getElem?_getD, List.getElem?_replicate]
  split <;> rfl

/-- An exchange that stores nothing leaves the recollection as it is. -/
theorem Recalls.of_silent (h : Recalls size history r) {e : Exchange}
    (he : ∀ index, stored? index e = none) : Recalls size (history ++ [e]) r := by
  refine ⟨h.size_eq, ?_⟩
  intro index hindex
  rw [h.getD_eq index hindex, recalled, recalled, lastStored?_concat, he index, Option.none_or]

theorem Recalls.write (h : Recalls size history r) {i : Int} (hi : Has size i) (value : Int) :
    Recalls size (history ++ [(.write i value, .ok .done)])
      ⟨r.cells.set i.toNat (wrap value)⟩ := by
  have hsize : r.cells.length = size.toNat := h.size_eq
  refine ⟨List.length_set.trans hsize, ?_⟩
  intro index hindex
  rw [recalled, lastStored?_concat, List.getD_eq_getElem?_getD]
  by_cases heq : i = index
  · subst heq
    have hlt : i.toNat < r.cells.length := by
      rw [hsize]
      have := hi
      unfold Has at this
      omega
    simp [stored?, List.getElem?_set_self hlt]
  · have hne : i.toNat ≠ index.toNat := by
      unfold Has at hi hindex
      omega
    have hold := h.getD_eq index hindex
    rw [List.getD_eq_getElem?_getD] at hold
    rw [List.getElem?_set_ne hne, hold, recalled]
    simp [stored?, heq]

theorem stored?_error (index : Int) (q : Request) (e : Fault) :
    stored? index (q, .error e) = none := by
  cases q <;> rfl

theorem Recalls.answer (h : Recalls size history r) (q : Request) :
    Recalls size (history ++ [(q, (r.answer q).1)]) (r.answer q).2 := by
  cases hq : q.index? with
  | none =>
    cases q with
    | size => exact h.of_silent fun _ => rfl
    | snapshot => exact h.of_silent fun _ => rfl
    | _ => cases hq
  | some i =>
    by_cases hi : 0 ≤ i ∧ i < r.size
    · cases q with
      | read j =>
        obtain rfl := Option.some.inj hq
        rw [answer_read hi]
        exact h.of_silent fun _ => rfl
      | write j value =>
        obtain rfl := Option.some.inj hq
        rw [answer_write hi]
        exact h.write (h.has_iff.1 hi) value
      | check j =>
        obtain rfl := Option.some.inj hq
        rw [answer_check hi]
        exact h.of_silent fun _ => rfl
      | _ => cases hq
    · rw [answer_of_not_mem hq hi]
      exact h.of_silent fun index => stored?_error index q _

theorem Recalls.after (h : Recalls size history r) (qs : List Request) :
    Recalls size (history ++ r.exchanges qs) (r.after qs) := by
  induction qs generalizing history r with
  | nil =>
    rw [exchanges, List.append_nil]
    exact h
  | cons q qs ih =>
    have hrest := ih (h.answer q)
    rwa [List.append_assoc] at hrest

end Recalls

section Histories
variable {r : RegisterFile} {qs : List Request} {k : Nat} {a : Except Fault Reply × RegisterFile}

theorem length_answers (r : RegisterFile) (qs : List Request) :
    (r.answers qs).length = qs.length := by
  induction qs generalizing r with
  | nil => rfl
  | cons q qs ih => rw [answers, List.length_cons, List.length_cons, ih]

/-- Each answer is that of the file after the requests before it. -/
theorem getElem?_answers (h : (r.answers qs)[k]? = some a) :
    ∃ q, qs[k]? = some q ∧ a = (r.after (qs.take k)).answer q := by
  induction qs generalizing r k with
  | nil => cases h
  | cons q qs ih =>
    cases k with
    | zero => cases h; exact ⟨q, rfl, rfl⟩
    | succ k => exact ih h

end Histories

/-- The cells after a value is written at an index, if there is a cell for it. -/
def put (cells : List Int) (index value : Int) : List Int :=
  if 0 ≤ index ∧ index < cells.length then cells.set index.toNat (wrap value) else cells

section Writes
variable {r r' : RegisterFile} {i j : Int}

theorem length_put (cells : List Int) (index value : Int) :
    (put cells index value).length = cells.length := by
  rw [put]
  split <;> simp

theorem put_of_not_mem {cells : List Int} {index : Int}
    (h : ¬ (0 ≤ index ∧ index < cells.length)) (value : Int) : put cells index value = cells :=
  if_neg h

theorem put_comm (cells : List Int) (hij : i ≠ j) (v w : Int) :
    put (put cells i v) j w = put (put cells j w) i v := by
  by_cases hi : 0 ≤ i ∧ i < cells.length
  · by_cases hj : 0 ≤ j ∧ j < cells.length
    · have hne : i.toNat ≠ j.toNat := by omega
      simp [put, hi, hj, List.set_comm _ _ hne]
    · have hj' : ¬ (0 ≤ j ∧ j < (put cells i v).length) := by rwa [length_put]
      rw [put_of_not_mem hj, put_of_not_mem hj']
  · have hi' : ¬ (0 ≤ i ∧ i < (put cells j w).length) := by rwa [length_put]
    rw [put_of_not_mem hi, put_of_not_mem hi']

theorem snd_answer_write (r : RegisterFile) (index value : Int) :
    (r.answer (.write index value)).2 = ⟨put r.cells index value⟩ := by
  by_cases h : 0 ≤ index ∧ index < r.size
  · have hput : put r.cells index value = r.cells.set index.toNat (wrap value) := if_pos h
    rw [answer_write h, hput]
  · rw [answer_of_not_mem rfl h, put_of_not_mem h]

/-- The reply to a write depends on nothing but the size of the file. -/
theorem fst_answer_write_congr (h : r'.size = r.size) (index value : Int) :
    (r'.answer (.write index value)).1 = (r.answer (.write index value)).1 := by
  by_cases hmem : 0 ≤ index ∧ index < r.size
  · rw [answer_write hmem, answer_write (h.symm ▸ hmem)]
  · have habsence : r'.absence index = r.absence index := by rw [absence, absence, h]
    rw [answer_of_not_mem rfl hmem, answer_of_not_mem rfl (h.symm ▸ hmem), habsence]

theorem after_write_comm (r : RegisterFile) (hij : i ≠ j) (v w : Int) :
    r.after [.write i v, .write j w] = r.after [.write j w, .write i v] := by
  simp only [after, snd_answer_write]
  rw [put_comm _ hij]

theorem exchanges_write_comm (r : RegisterFile) (i j v w : Int) :
    r.exchanges [.write i v, .write j w] =
      (r.exchanges [.write j w, .write i v]).reverse := by
  have hsize : ∀ index value, (r.answer (.write index value)).2.size = r.size := by
    intro index value
    rw [snd_answer_write]
    exact length_put r.cells index value
  simp [exchanges, fst_answer_write_congr (hsize _ _)]

end Writes

/-- The answer to a request on a file that was made with a size and has gone through exchanges
since: there are as many cells as ever, the request faults just if its index is not one of them and
then leaves the file as it was before, and what is read is what the exchanges stored last. -/
structure AnswersAsMap (size : Int) (before : RegisterFile) (history : List Exchange) (q : Request)
    (a : Except Fault Reply × RegisterFile) : Prop where
  size_eq : a.2.size = size.toNat
  ok_iff : (∃ p, a.1 = .ok p) ↔ ∀ index, q.index? = some index → Has size index
  fault_iff : ∀ index, q.index? = some index →
    (a.1 = .error (if Numeral.Writable index then .noRegister index size.toNat else .unwritable) ↔
      ¬ Has size index)
  kept : ∀ e, a.1 = .error e → a.2 = before
  read : ∀ index, q = .read index → Has size index →
    a.1 = .ok (.number (recalled index history))
  size_reply : q = .size → a.1 = .ok (.number size.toNat)

section Main
variable {size : Int} {history : List Exchange} {r : RegisterFile}

theorem Recalls.absence_eq (h : Recalls size history r) (index : Int) :
    r.absence index =
      if Numeral.Writable index then .noRegister index size.toNat else .unwritable := by
  simp [absence, Numeral.naming, h.size_eq]

theorem Recalls.answersAsMap (h : Recalls size history r) (q : Request) :
    AnswersAsMap size r history q (r.answer q) := by
  have hfailed : ∀ index, q.index? = some index → ¬ Has size index →
      r.answer q = (.error (r.absence index), r) := by
    intro index hq hindex
    exact answer_of_not_mem hq fun hmem => hindex (h.has_iff.1 hmem)
  have hok : (∀ index, q.index? = some index → Has size index) → ∃ p, (r.answer q).1 = .ok p := by
    intro hindex
    cases q with
    | read index =>
      rw [answer_read (h.has_iff.2 (hindex index rfl))]
      exact ⟨_, rfl⟩
    | write index value =>
      rw [answer_write (h.has_iff.2 (hindex index rfl))]
      exact ⟨_, rfl⟩
    | check index =>
      rw [answer_check (h.has_iff.2 (hindex index rfl))]
      exact ⟨_, rfl⟩
    | size => exact ⟨_, rfl⟩
    | snapshot => exact ⟨_, rfl⟩
  constructor
  case size_eq => exact (h.answer q).size_eq
  case ok_iff =>
    refine ⟨?_, hok⟩
    rintro ⟨p, hp⟩ index hq
    by_contra hindex
    rw [hfailed index hq hindex] at hp
    cases hp
  case fault_iff =>
    intro index hq
    rw [← h.absence_eq index]
    constructor
    · intro hfault hindex
      obtain ⟨p, hp⟩ := hok fun i hi => Option.some.inj (hq.symm.trans hi) ▸ hindex
      cases hfault.symm.trans hp
    · intro hindex
      rw [hfailed index hq hindex]
  case kept =>
    intro e he
    by_contra hchanged
    obtain ⟨p, hp⟩ := hok fun index hq => by
      by_contra hindex
      rw [hfailed index hq hindex] at hchanged
      exact hchanged rfl
    cases he.symm.trans hp
  case read =>
    rintro index rfl hindex
    rw [answer_read (h.has_iff.2 hindex), h.getD_eq index hindex]
  case size_reply =>
    rintro rfl
    rw [← h.size_eq]
    rfl

end Main

/-- A register file of any size answers any requests as a map from its indices to integers of 64
bits. Two writes to different indices may change places: both orders leave the same file, and each
write has the same reply. -/
theorem answers_asMap (size : Int) (requests : List Request) :
    let start := zeros size
    (start.answers requests).length = requests.length ∧
    (∀ k q a, requests[k]? = some q → (start.answers requests)[k]? = some a →
      AnswersAsMap size (start.after (requests.take k)) (start.exchanges (requests.take k)) q a) ∧
    ∀ i j v w : Int, i ≠ j →
      let r := start.after requests
      r.after [.write i v, .write j w] = r.after [.write j w, .write i v] ∧
        r.exchanges [.write i v, .write j w] =
          (r.exchanges [.write j w, .write i v]).reverse := by
  intro start
  refine ⟨length_answers start requests, ?_, ?_⟩
  · intro k q a hq ha
    obtain ⟨q', hq', rfl⟩ := getElem?_answers ha
    cases hq.symm.trans hq'
    exact ((recalls_zeros size).after (requests.take k)).answersAsMap q
  · intro i j v w hij r
    exact ⟨after_write_comm r hij v w, exchanges_write_comm r i j v w⟩

/-- A write that faults is not recalled, and a negative index is no index from the end. -/
example :
    (zeros 2).exchanges [.write 1 (2 ^ 63), .write (-1) 7, .write 2 7, .read 1] =
      [(.write 1 (2 ^ 63), .ok .done), (.write (-1) 7, .error (.noRegister (-1) 2)),
        (.write 2 7, .error (.noRegister 2 2)), (.read 1, .ok (.number (-2 ^ 63)))] := by
  decide +kernel

end RegisterMachine.RegisterFile
