import RegisterMachine.Proofs.Execution

/-! # Where executions stop

A list of integers is loaded if all of them are words, and otherwise refused for the first one that
is none. A loaded program runs up to the first word that stops it, and that word alone decides
between a halt, a missing register and an unknown opcode.
-/
namespace RegisterMachine

theorem Program.load_of_inRange {words : List Int} (h : ∀ w ∈ words, Word.InRange w) :
    load words = .ok (ofWords (words.map Word.ofInt)) := by
  have hnone : words.zipIdx.find? (fun p => ¬ Word.InRange p.1) = none := by
    rw [List.find?_eq_none]
    intro p hp
    simpa using h p.1 (List.fst_mem_of_mem_zipIdx hp)
  rw [load, hnone]

theorem Program.load_of_not_inRange {words : List Int} {i : Nat} (hi : i < words.length)
    (h : ¬ Word.InRange words[i]) (hmin : ∀ j (hj : j < i), Word.InRange words[j]) :
    load words = .error ⟨words[i], i⟩ := by
  have hsome : words.zipIdx.find? (fun p => ¬ Word.InRange p.1) = some (words[i], i) := by
    rw [List.find?_eq_some_iff_getElem]
    refine ⟨by simpa using h, i, by simpa using hi, by simp, ?_⟩
    intro j hj
    simpa using hmin j hj
  rw [load, hsome]

theorem Word.stops_cases {w : Word} {strict : Bool} (h : w.Stops strict) :
    w.isHalt = true ∨ (∃ index, (Instruction.ofWord w).lookups.find? (3 < ·) = some index) ∨
      (strict = true ∧ 2 < (Instruction.ofWord w).opcode) := by
  rcases h with h | ⟨hop, h⟩ | ⟨hop, h⟩ | h
  · exact .inl (by simpa [isHalt] using h)
  · refine .inr (.inl (Option.isSome_iff_exists.1 (List.find?_isSome.2 ?_)))
    simpa [Instruction.lookups_of_loadi hop] using h
  · refine .inr (.inl (Option.isSome_iff_exists.1 (List.find?_isSome.2 ?_)))
    simp only [Instruction.lookups_of_add hop, List.mem_cons, List.not_mem_nil, or_false,
      decide_eq_true_eq, exists_eq_or_imp, exists_eq_left]
    omega
  · exact .inr (.inr h)

namespace Machine

/-- How a run ends at the word `w` with the index `k`. -/
structure EndsAt (k : Nat) (w : Word) (o : Outcome Unit) : Prop where
  halt : (Instruction.ofWord w).opcode = 0 →
    o.result = .ok () ∧ o.machine.running = false ∧ o.machine.program.pc = k + 1
  loadi : (Instruction.ofWord w).opcode = 1 →
    o.result = .error (.noRegister (Instruction.ofWord w).op1 4)
  add : (Instruction.ofWord w).opcode = 2 →
    ∃ index, [(Instruction.ofWord w).op2, (Instruction.ofWord w).op3,
        (Instruction.ofWord w).op1].find? (3 < ·) = some index ∧
      o.result = .error (.noRegister index 4)
  unknown : 2 < (Instruction.ofWord w).opcode →
    o.result = .error (.unknownOpcode (Instruction.ofWord w).opcode k)

section EndsAt
variable {k : Nat} {w : Word} {o : Outcome Unit}

theorem endsAt_of_halt (hw : w.isHalt = true)
    (h : o.result = .ok () ∧ o.machine.running = false ∧ o.machine.program.pc = k + 1) :
    EndsAt k w o := by
  have h0 : (Instruction.ofWord w).opcode = 0 := by simpa [Word.isHalt] using hw
  constructor <;> intro hop
  · exact h
  · omega
  · omega
  · omega

theorem endsAt_of_lookup {index : Int}
    (hw : (Instruction.ofWord w).lookups.find? (3 < ·) = some index)
    (h : o.result = .error (.noRegister index 4)) : EndsAt k w o := by
  constructor <;> intro hop
  · rw [Instruction.lookups_of_ne (by omega) (by omega)] at hw
    cases hw
  · rw [Instruction.lookups_of_loadi hop] at hw
    have he : index = (Instruction.ofWord w).op1 :=
      List.mem_singleton.1 (List.mem_of_find?_eq_some hw)
    rw [h, he]
  · exact ⟨index, Instruction.lookups_of_add hop ▸ hw, h⟩
  · rw [Instruction.lookups_of_ne (by omega) (by omega)] at hw
    cases hw

theorem endsAt_of_unknown (hw : 2 < (Instruction.ofWord w).opcode)
    (h : o.result = .error (.unknownOpcode (Instruction.ofWord w).opcode k)) : EndsAt k w o := by
  constructor <;> intro hop
  · omega
  · omega
  · omega
  · exact h

end EndsAt

/-- A run ends at the first word that stops it. -/
theorem execute_endsAt {words : List Word} {strict : Bool} {k : Nat} {w : Word}
    (h : ∀ v ∈ words.take k, ¬ v.Stops strict) (hw : words[k]? = some w) (hstop : w.Stops strict) :
    EndsAt k w (execute (.ofWords words) strict .endless) := by
  rcases Word.stops_cases hstop with hhalt | ⟨index, hindex⟩ | ⟨rfl, hcode⟩
  · apply endsAt_of_halt hhalt
    rw [execute_of_halt h hw hhalt]
    exact ⟨rfl, by simp [beyond, hhalt], rfl⟩
  · apply endsAt_of_lookup hindex
    rw [execute_of_fault h hw fun r hr => Word.fault?_of_lookup hindex hr k]
  · apply endsAt_of_unknown hcode
    rw [execute_of_fault h hw fun r _ => Word.fault?_of_unknown hcode k]

theorem exists_completes (words : List Word) (strict : Bool) :
    ∃ n ≤ words.length, Completes (boot (.ofWords words) strict .endless) n := by
  rcases Word.exists_first (Word.Stops strict) words with hnone | ⟨k, w, hw, hstop, h⟩
  · exact ⟨words.length, Nat.le_refl _, completes_boot_of_none hnone⟩
  · obtain ⟨hk, _⟩ := List.getElem?_eq_some_iff.1 hw
    rcases Word.stops_cases hstop with hhalt | ⟨index, hindex⟩ | ⟨rfl, hcode⟩
    · exact ⟨k + 1, hk, completes_boot_of_halt h hw hhalt⟩
    · exact ⟨k, Nat.le_of_lt hk,
        completes_boot_of_fault h hw fun r hr => Word.fault?_of_lookup hindex hr k⟩
    · exact ⟨k, Nat.le_of_lt hk,
        completes_boot_of_fault h hw fun r _ => Word.fault?_of_unknown hcode k⟩

/-- What becomes of a list of integers that is executed as a program. One that holds no word is
refused for its first such integer. Any other one runs: past its end if no word stops it, and
otherwise up to the first word that does, in at most as many rounds as there are words. -/
theorem executeWords_outcome (words : List Int) (strict : Bool) :
    (∀ i (hi : i < words.length), ¬ Word.InRange words[i] →
      (∀ j (hj : j < i), Word.InRange words[j]) →
      executeWords words strict .endless = .error ⟨words[i], i⟩) ∧
    ((∀ w ∈ words, Word.InRange w) →
      ∃ o, executeWords words strict .endless = .ok o ∧
        (∃ n ≤ words.length,
          Completes (boot (.ofWords (words.map Word.ofInt)) strict .endless) n) ∧
        ((∀ w ∈ words.map Word.ofInt, ¬ w.Stops strict) →
          o.result = .error (.pastEnd words.length words.length) ∧
          Completes (boot (.ofWords (words.map Word.ofInt)) strict .endless) words.length) ∧
        ∀ k w, (words.map Word.ofInt)[k]? = some w → w.Stops strict →
          (∀ v ∈ (words.map Word.ofInt).take k, ¬ v.Stops strict) → EndsAt k w o) := by
  constructor
  · intro i hi h hmin
    simp [executeWords, Program.load_of_not_inRange hi h hmin, bind, Except.bind]
  · intro h
    refine ⟨execute (.ofWords (words.map Word.ofInt)) strict .endless, ?_, ?_, ?_, ?_⟩
    · simp [executeWords, Program.load_of_inRange h, bind, Except.bind, pure, Except.pure]
    · simpa using exists_completes (words.map Word.ofInt) strict
    · intro hnone
      have hc := completes_boot_of_none hnone
      rw [List.length_map] at hc
      exact ⟨by rw [execute_of_none hnone]; simp, hc⟩
    · intro k w hw hstop hmin
      exact execute_endsAt hmin hw hstop

end Machine
end RegisterMachine
