import Mathlib.Data.List.Forall2
import RegisterMachine.Proofs.HexText
import RegisterMachine.Proofs.Literals

/-! # Words as text, there and back

A text is read as a word if it is a literal of base sixteen whose value is in range, and is refused
otherwise. The text of a word is four digits, of which the word is read again, and these stand first
on the line of the word in a listing, two spaces before what the word stands for.
-/
namespace RegisterMachine
open Numeral

namespace Word
variable {text : String} {n : Int}

theorem toNat_ofInt_of_inRange (h : InRange n) : ((ofInt n).toNat : Int) = n := by
  have hlt : n < 65536 := Int.lt_of_le_of_lt h.2 (by decide)
  rw [toNat_ofInt, Int.emod_eq_of_lt h.1 hlt]

theorem parse_of_literal (h : Literal .hexadecimal text.toList n) :
    parse text = if InRange n then .ok (ofInt n) else .error (.outOfRange text) := by
  rw [parse, Numeral.read, readChars_eq_ok_iff.2 h]

theorem parse_of_not_literal (h : ∀ n, ¬ Literal .hexadecimal text.toList n) :
    parse text = .error (.literal (.invalid .hexadecimal text)) := by
  rw [parse, Numeral.read, readChars_hexadecimal_of_not_literal h, String.ofList_toList]

/-- The words that are read are the literals in range. -/
theorem parse_eq_ok_iff_literal :
    (∃ w, parse text = .ok w ∧ (w.toNat : Int) = n) ↔
      Literal .hexadecimal text.toList n ∧ InRange n := by
  constructor
  · rintro ⟨w, hw, rfl⟩
    rw [parse] at hw
    split at hw
    · cases hw
    · rename_i n hread
      split at hw
      · rename_i hrange
        cases hw
        rw [toNat_ofInt_of_inRange hrange]
        exact ⟨readChars_eq_ok_iff.1 hread, hrange⟩
      · cases hw
  · rintro ⟨hn, hrange⟩
    exact ⟨ofInt n, by rw [parse_of_literal hn, if_pos hrange], toNat_ofInt_of_inRange hrange⟩

theorem length_text (w : Word) : w.text.toList.length = 4 := by
  have hdigits : (digits 16 w.toNat).length ≤ 4 := length_digits_le (by decide) w.isLt
  rw [Word.text, length_paddedHex, hexDigits, max_eq_left hdigits]

theorem isUpperHexDigit_of_mem_text (w : Word) : ∀ c ∈ w.text.toList, IsUpperHexDigit c :=
  isUpperHexDigit_of_mem_paddedHex

theorem toList_listed (w : Word) :
    w.listed.toList = w.text.toList ++ (' ' :: ' ' :: w.disassemble.toList) := by
  rw [listed, String.toList_append, String.toList_append, List.append_assoc]
  rfl

/-- A line of a listing: the digits that the word is read from, two spaces, and what the word stands
for. -/
def IsLine (n : Int) (line : String) : Prop :=
  (∃ w, parse (String.ofList (line.toList.take 4)) = .ok w ∧ (w.toNat : Int) = n % 65536) ∧
    line.toList.drop 4 = ' ' :: ' ' :: (ofInt n).disassemble.toList

theorem isLine_listed (n : Int) : IsLine n (ofInt n).listed := by
  have hlength := (ofInt n).length_text
  rw [IsLine, toList_listed, List.take_left' hlength, List.drop_left' hlength,
    String.ofList_toList]
  exact ⟨⟨ofInt n, parse_text _, toNat_ofInt n⟩, rfl⟩

/-- A text is read as a word exactly if it is a literal in range, and is refused for what it lacks.
The text of any integer is four digits, of which its residue modulo `2 ^ 16` is read, and a listing
has one line for each integer. -/
theorem text_roundTrips :
    (∀ (text : String) (n : Int), (∃ w, parse text = .ok w ∧ (w.toNat : Int) = n) ↔
      Literal .hexadecimal text.toList n ∧ InRange n) ∧
    (∀ text : String, (∀ n, ¬ Literal .hexadecimal text.toList n) →
      parse text = .error (.literal (.invalid .hexadecimal text))) ∧
    (∀ (text : String) (n : Int), Literal .hexadecimal text.toList n → ¬ InRange n →
      parse text = .error (.outOfRange text)) ∧
    (∀ n : Int, (ofInt n).text.toList.length = 4 ∧
      (∀ c ∈ (ofInt n).text.toList, IsUpperHexDigit c) ∧
      ∃ w, parse (ofInt n).text = .ok w ∧ (w.toNat : Int) = n % 65536) ∧
    ∀ ns : List Int, List.Forall₂ IsLine ns (listing (ns.map ofInt)) := by
  refine ⟨fun _ _ => parse_eq_ok_iff_literal, fun _ => parse_of_not_literal, ?_, ?_, ?_⟩
  · intro text n hn hrange
    rw [parse_of_literal hn, if_neg hrange]
  · intro n
    exact ⟨length_text _, isUpperHexDigit_of_mem_text _, ofInt n, parse_text _, toNat_ofInt n⟩
  · intro ns
    rw [listing, List.map_map, List.forall₂_map_right_iff, List.forall₂_same]
    exact fun n _ => isLine_listed n

/-- Blanks, a sign, a marker and underscores at once. -/
example : parse " +0x_00_1F\n" = .ok 31 := by decide +kernel

end Word
end RegisterMachine
