import RegisterMachine.Instruction
import RegisterMachine.RegisterFile

/-! # Decoded instructions

The fields of a word are small and not negative, so an instruction that was decoded can always be
written, and its immediate fits a register as it stands.
-/
namespace RegisterMachine

theorem Numeral.writable_of_lt {n : Int} (h : n.natAbs < 1000) : Writable n := by
  have hle : ∀ k, 3 ≤ k → Nat.pow 10 3 ≤ Nat.pow 10 k :=
    fun k hk => Nat.pow_le_pow_right (by decide) hk
  exact Nat.lt_of_lt_of_le h (hle digitLimit (by decide))

theorem wrap_of_small {n : Int} (h0 : 0 ≤ n) (h : n < 256) : wrap n = n := by
  rw [wrap, registerModulus_eq, Int.bmod_eq_of_le] <;> omega

theorem eq_take_append_cons_drop {α : Type} {l : List α} {k : Nat} {a : α} (h : l[k]? = some a) :
    l = l.take k ++ a :: l.drop (k + 1) := by
  obtain ⟨hk, rfl⟩ := List.getElem?_eq_some_iff.1 h
  rw [← List.drop_eq_getElem_cons hk, List.take_append_drop]

namespace Word

theorem inRange_toNat (w : Word) : InRange (w.toNat : Int) := by
  have := w.toNat_lt
  rw [InRange, greatest_eq]
  omega

theorem ofInt_toNat (w : Word) : ofInt (w.toNat : Int) = w := by
  rw [ofInt, BitVec.ofInt_natCast, BitVec.ofNat_toNat, BitVec.setWidth_eq]

theorem toNat_ofInt (n : Int) : ((ofInt n).toNat : Int) = n % 65536 := by
  rw [ofInt, BitVec.toNat_ofInt]
  exact Int.toNat_of_nonneg (Int.emod_nonneg n (by decide))

theorem map_ofInt_toNat (words : List Word) :
    (words.map fun w => (w.toNat : Int)).map ofInt = words := by
  rw [List.map_map]
  exact (List.map_congr_left fun w _ => w.ofInt_toNat).trans (List.map_id words)

/-- Unless all words lack a property, one of them is the first to have it. -/
theorem exists_first (p : Word → Prop) [DecidablePred p] (words : List Word) :
    (∀ w ∈ words, ¬ p w) ∨ ∃ k w, words[k]? = some w ∧ p w ∧ ∀ v ∈ words.take k, ¬ p v := by
  induction words with
  | nil => exact .inl fun w hw => absurd hw List.not_mem_nil
  | cons w ws ih =>
    by_cases hw : p w
    · exact .inr ⟨0, w, rfl, hw, fun v hv => absurd hv List.not_mem_nil⟩
    · rcases ih with ih | ⟨k, u, hu, hp, hmin⟩
      · exact .inl (List.forall_mem_cons.2 ⟨hw, ih⟩)
      · exact .inr ⟨k + 1, u, hu, hp, List.forall_mem_cons.2 ⟨hw, hmin⟩⟩

theorem exists_first_append (p : Word → Prop) [DecidablePred p] (words : List Word) :
    (∀ w ∈ words, ¬ p w) ∨
      ∃ ws w rest, words = ws ++ w :: rest ∧ p w ∧ ∀ v ∈ ws, ¬ p v := by
  rcases exists_first p words with hnone | ⟨k, w, hw, hp, hfirst⟩
  · exact .inl hnone
  · exact .inr ⟨words.take k, w, words.drop (k + 1), eq_take_append_cons_drop hw, hp, hfirst⟩

end Word

namespace Instruction

theorem operation?_eq_some_iff {i : Instruction} {op : Operation} :
    i.operation? = some op ↔ i.opcode = op.opcode :=
  Operation.ofOpcode?_eq_some_iff

theorem operation?_eq_none_iff {i : Instruction} :
    i.operation? = none ↔ i.opcode ≠ 0 ∧ i.opcode ≠ 1 ∧ i.opcode ≠ 2 := by
  unfold operation? Operation.ofOpcode?
  by_cases h0 : i.opcode = 0
  · simp [h0]
  · by_cases h1 : i.opcode = 1 <;> simp [h0, h1]

theorem text_of_unknown {i : Instruction} (h : i.operation? = none) : i.text = unknownText := by
  simp [text, h]

section Word
variable (w : Word)

theorem opcode_ofWord : 0 ≤ (ofWord w).opcode ∧ (ofWord w).opcode < 16 := by
  have := w.toNat_lt
  simp only [ofWord]
  omega

theorem op1_ofWord : 0 ≤ (ofWord w).op1 ∧ (ofWord w).op1 < 16 := by
  simp only [ofWord]
  omega

theorem op2_ofWord : 0 ≤ (ofWord w).op2 ∧ (ofWord w).op2 < 16 := by
  simp only [ofWord]
  omega

theorem op3_ofWord : 0 ≤ (ofWord w).op3 ∧ (ofWord w).op3 < 16 := by
  simp only [ofWord]
  omega

theorem imm_ofWord : 0 ≤ (ofWord w).imm ∧ (ofWord w).imm < 256 := by
  simp only [ofWord]
  omega

theorem describable_ofWord : (ofWord w).Describable := by
  have h1 := op1_ofWord w
  have h2 := op2_ofWord w
  have h3 := op3_ofWord w
  have hi := imm_ofWord w
  intro n hn
  apply Numeral.writable_of_lt
  unfold operands at hn
  split at hn
  · simp only [List.mem_cons, List.not_mem_nil, or_false] at hn
    omega
  · simp only [List.mem_cons, List.not_mem_nil, or_false] at hn
    omega
  · cases hn
  · cases hn

end Word
end Instruction
end RegisterMachine
