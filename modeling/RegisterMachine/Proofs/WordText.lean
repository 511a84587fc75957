import RegisterMachine.Proofs.Constants
import RegisterMachine.Proofs.Decoding
import RegisterMachine.Word.Reading

/-! # Words written and read

A word is written with zeros before its hexadecimal digits. These zeros count for nothing when the
text is read as a literal in base sixteen, so the word is read from its own text.
-/
namespace RegisterMachine

namespace Numeral
open Assembly

theorem value_replicate_append (base k : Nat) (ds : List Nat) :
    value base (List.replicate k 0 ++ ds) = value base ds := by
  induction k with
  | zero => rfl
  | succ k ih => simpa [value, List.replicate_succ] using ih

theorem replicate_append_digits_lt {base : Nat} (hbase : 1 < base) (k n : Nat) :
    ∀ d ∈ List.replicate k 0 ++ digits base n, d < base := by
  intro d hd
  rcases List.mem_append.1 hd with hd | hd
  · rw [List.eq_of_mem_replicate hd]
    exact Nat.zero_lt_of_lt hbase
  · exact digits_lt hbase d hd

def paddedDigits (width n : Nat) : List Nat :=
  List.replicate (width - (digits 16 n).length) 0 ++ digits 16 n

section Padded
variable (width n : Nat)

theorem toList_paddedHex :
    (paddedHex width n).toList = (paddedDigits width n).map upperDigit := by
  have hzero : upperDigit 0 = '0' := rfl
  rw [paddedHex, String.toList_ofList, paddedDigits, List.map_append, List.map_replicate, hzero,
    List.leftpad, List.length_map]

theorem paddedDigits_lt : ∀ d ∈ paddedDigits width n, d < 16 :=
  replicate_append_digits_lt (by decide) _ n

theorem paddedHex_ne_nil : (paddedHex width n).toList ≠ [] := by
  simp [toList_paddedHex, paddedDigits, digits_ne_nil]

theorem isHexDigit_of_mem_paddedHex : ∀ c ∈ (paddedHex width n).toList, isHexDigit c = true := by
  rw [toList_paddedHex]
  exact (map_digitValue_upperDigit (r := .hexadecimal) (paddedDigits_lt width n)).1

theorem value_paddedHex : value 16 ((paddedHex width n).toList.map digitValue) = n := by
  rw [toList_paddedHex, (map_digitValue_upperDigit (r := .hexadecimal) (paddedDigits_lt width n)).2,
    paddedDigits, value_replicate_append, value_digits]

theorem read_paddedHex : read .hexadecimal (paddedHex width n) = .ok (n : Int) := by
  rw [read, readChars_hexadecimal (paddedHex_ne_nil width n) (isHexDigit_of_mem_paddedHex width n),
    value_paddedHex]

end Padded
end Numeral

namespace Word

theorem parse_text (w : Word) : parse w.text = .ok w := by
  rw [parse, text, Numeral.read_paddedHex]
  dsimp only
  rw [if_pos w.inRange_toNat, ofInt_toNat]

/-- The text of a word begins with a digit. -/
theorem exists_toList_text (w : Word) :
    ∃ c cs, w.text.toList = c :: cs ∧ Assembly.isHexDigit c = true := by
  obtain ⟨c, cs, htext⟩ := List.exists_cons_of_ne_nil (Numeral.paddedHex_ne_nil hexDigits w.toNat)
  refine ⟨c, cs, htext, Numeral.isHexDigit_of_mem_paddedHex hexDigits w.toNat c ?_⟩
  rw [htext]
  exact List.mem_cons_self

end Word
end RegisterMachine
