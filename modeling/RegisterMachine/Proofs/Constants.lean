import Mathlib.Data.List.Basic
import Mathlib.Data.List.Forall2
import Mathlib.Data.List.Induction
import Mathlib.Data.List.TakeWhile
import RegisterMachine.Assembly.Token

/-! # Constants of assembly text

The digits of a constant are ASCII characters, and the reader of literals gives such a constant its
positional value: in base sixteen behind a marker, however long it is, and in base ten unless it has
too many digits. The characters that are written for a digit are digits of that value.
-/
namespace RegisterMachine

def Numeral.digitValue (c : Char) : Nat :=
  if c.isDigit then c.toNat - 48 else if c.isLower then c.toNat - 87 else c.toNat - 55

section Characters
variable {c : Char}

theorem isDigit_iff : c.isDigit = true ↔ 48 ≤ c.toNat ∧ c.toNat ≤ 57 := by
  simp [Char.isDigit, UInt32.le_iff_toNat_le]

theorem isLower_iff : c.isLower = true ↔ 97 ≤ c.toNat ∧ c.toNat ≤ 122 := by
  change (decide ('a'.val ≤ c.val) && decide (c.val ≤ 'z'.val)) = true ↔ _
  simp [UInt32.le_iff_toNat_le]

theorem isUpper_iff : c.isUpper = true ↔ 65 ≤ c.toNat ∧ c.toNat ≤ 90 := by
  change decide ('A'.val ≤ c.val ∧ c.val ≤ 'Z'.val) = true ↔ _
  simp [UInt32.le_iff_toNat_le]

theorem Assembly.isHexDigit_iff : isHexDigit c = true ↔
    (48 ≤ c.toNat ∧ c.toNat ≤ 57) ∨ (97 ≤ c.toNat ∧ c.toNat ≤ 102) ∨
      (65 ≤ c.toNat ∧ c.toNat ≤ 70) := by
  simp [isHexDigit, isDigit_iff, Char.le_def, UInt32.le_iff_toNat_le, or_assoc]

theorem Assembly.isHexDigit_of_isDigit (h : c.isDigit = true) : isHexDigit c = true := by
  simp [isHexDigit, h]

theorem Assembly.isWordChar_of_isHexDigit (h : isHexDigit c = true) : isWordChar c = true := by
  have halpha : c.isAlpha = (c.isUpper || c.isLower) := rfl
  rw [isHexDigit_iff] at h
  simp only [isWordChar, Char.isAlphanum, halpha, Bool.or_eq_true, decide_eq_true_eq, isDigit_iff,
    isLower_iff, isUpper_iff]
  omega

end Characters

namespace Numeral
open Assembly

theorem decimalDigit?_of_isDigit {c : Char} (h : c.isDigit = true) :
    Text.decimalDigit? c = some (digitValue c) := by
  have hb := isDigit_iff.1 h
  have hz : (decide (48 ≤ c.toNat) && decide (c.toNat < 48 + 10)) = true := by
    simp only [Bool.and_eq_true, decide_eq_true_eq]
    omega
  simp [Text.decimalDigit?, Text.zeroDigits, hz, digitValue, h]

/-- The digits of other scripts lie beyond the ASCII characters. -/
theorem decimalDigit?_of_ascii {c : Char} (h : c.isDigit = false) (hc : c.toNat < 128) :
    Text.decimalDigit? c = none := by
  have hz : ∀ z ∈ Text.zeroDigits, z = 48 ∨ 128 ≤ z := by decide
  have hd : ¬ (48 ≤ c.toNat ∧ c.toNat ≤ 57) := by
    intro hb
    rw [isDigit_iff.2 hb] at h
    cases h
  rw [Text.decimalDigit?, Option.map_eq_none_iff, List.find?_eq_none]
  intro z hmem
  have := hz z hmem
  simp only [Bool.and_eq_true, decide_eq_true_eq]
  omega

theorem letterDigit?_of_isHexDigit {c : Char} (hd : c.isDigit = false) (h : isHexDigit c = true) :
    letterDigit? c = some (digitValue c) := by
  have hb := isHexDigit_iff.1 h
  have hn : ¬ (48 ≤ c.toNat ∧ c.toNat ≤ 57) := by
    intro hb
    rw [isDigit_iff.2 hb] at hd
    cases hd
  have hl : c.isLower = true ↔ 97 ≤ c.toNat ∧ c.toNat ≤ 122 := isLower_iff
  simp only [letterDigit?, digitValue, hd, Char.le_def, UInt32.le_iff_toNat_le, hl]
  change (if 97 ≤ c.toNat ∧ c.toNat ≤ 102 then some (c.toNat - 87)
    else if 65 ≤ c.toNat ∧ c.toNat ≤ 70 then some (c.toNat - 55) else none) = _
  split
  · rw [if_neg (by simp), if_pos (by omega)]
  · rw [if_pos (by omega), if_neg (by simp), if_neg (by omega)]

theorem digit?_of_isHexDigit {c : Char} (h : isHexDigit c = true) :
    Radix.hexadecimal.digit? c = some (digitValue c) := by
  cases hd : c.isDigit with
  | true => simp [Radix.digit?, decimalDigit?_of_isDigit hd]
  | false =>
    have hb := isHexDigit_iff.1 h
    simp [Radix.digit?, decimalDigit?_of_ascii hd (by omega), letterDigit?_of_isHexDigit hd h]

theorem isBlank_of_isHexDigit {c : Char} (h : isHexDigit c = true) : Text.isBlank c = false := by
  rw [isHexDigit_iff] at h
  simp only [Text.isBlank, Text.inRanges, Text.blankRanges, List.any_eq_false, List.mem_cons,
    List.not_mem_nil, or_false, Bool.and_eq_true, decide_eq_true_eq, forall_eq_or_imp, forall_eq]
  omega

theorem takeSign_of_isHexDigit {c : Char} {cs : List Char} (h : isHexDigit c = true) :
    takeSign (c :: cs) = (false, c :: cs) := by
  unfold takeSign
  split
  · simp_all [isHexDigit]
  · simp_all [isHexDigit]
  · rfl

section Run
variable {r : Radix} {ds : List Char}

theorem separated_of_ne (b : Bool) (h : ∀ c ∈ ds, c ≠ '_') :
    separated b ds = (b || !ds.isEmpty) := by
  induction ds generalizing b with
  | nil => simp [separated]
  | cons c cs ih =>
    rw [separated, if_neg (h c List.mem_cons_self),
      ih true fun d hd => h d (List.mem_cons_of_mem c hd)]
    simp

/-- A text that is all digits behind its marker. -/
theorem readChars_of_digits {text body : List Char}
    (hsign : takeSign (text.dropWhile Text.isBlank) = (false, text))
    (hbody : dropMarker r text = body) (hne : body ≠ [])
    (hds : ∀ c ∈ body, r.digit? c = some (digitValue c)) (hu : ∀ c ∈ body, c ≠ '_') :
    readChars r text =
      if r = .decimal ∧ digitLimit < body.length then .error (.tooManyDigits body.length)
      else .ok (value r.base (body.map digitValue)) := by
  have hrun : ∀ c ∈ body, r.inRun c = true := by
    intro c hc
    simp [Radix.inRun, hds c hc]
  have htake : body.takeWhile r.inRun = body := List.takeWhile_eq_self_iff.2 hrun
  have hdrop : body.dropWhile r.inRun = [] := List.dropWhile_eq_nil_iff.2 hrun
  have hmap : body.filterMap r.digit? = body.map digitValue :=
    List.filterMap_eq_map_iff_forall_eq_some.2 hds
  have hsep : separated false body = true := by
    rw [separated_of_ne _ hu]
    simpa using hne
  simp [readChars, hsign, hbody, htake, hdrop, hmap, hsep]

end Run

theorem ne_underscore_of_isHexDigit {c : Char} (h : isHexDigit c = true) : c ≠ '_' := by
  rintro rfl
  cases h

/-- Neither a sign nor a blank stands before a digit. -/
theorem takeSign_dropWhile_of_isHexDigit {c : Char} {cs : List Char} (h : isHexDigit c = true) :
    takeSign ((c :: cs).dropWhile Text.isBlank) = (false, c :: cs) := by
  rw [List.dropWhile_cons_of_neg (by simp [isBlank_of_isHexDigit h]), takeSign_of_isHexDigit h]

theorem readChars_decimal {ds : List Char} (hne : ds ≠ []) (hds : ∀ c ∈ ds, c.isDigit = true) :
    readChars .decimal ds =
      if digitLimit < ds.length then .error (.tooManyDigits ds.length)
      else .ok (value 10 (ds.map digitValue)) := by
  have hhex : ∀ c ∈ ds, isHexDigit c = true := fun c hc => isHexDigit_of_isDigit (hds c hc)
  obtain ⟨d, ds', rfl⟩ := List.exists_cons_of_ne_nil hne
  have hbody : dropMarker .decimal (d :: ds') = d :: ds' := rfl
  rw [readChars_of_digits (takeSign_dropWhile_of_isHexDigit (hhex d List.mem_cons_self)) hbody hne
    (fun c hc => decimalDigit?_of_isDigit (hds c hc))
    fun c hc => ne_underscore_of_isHexDigit (hhex c hc)]
  simp [Radix.base]

theorem readChars_hexadecimal {ds : List Char} (hne : ds ≠ [])
    (hds : ∀ c ∈ ds, isHexDigit c = true) :
    readChars .hexadecimal ds = .ok (value 16 (ds.map digitValue)) := by
  obtain ⟨d, ds', rfl⟩ := List.exists_cons_of_ne_nil hne
  have hbody : dropMarker .hexadecimal (d :: ds') = d :: ds' := by
    cases ds' with
    | nil => rfl
    | cons x cs =>
      have hx : isHexDigit x = true := hds x (by simp)
      have hmarker : isMarker d x = false := by
        have hne : x ≠ 'x' ∧ x ≠ 'X' := by
          constructor <;> rintro rfl <;> cases hx
        simp [isMarker, hne]
      rw [dropMarker, hmarker]
      rfl
  rw [readChars_of_digits (takeSign_dropWhile_of_isHexDigit (hds d List.mem_cons_self)) hbody hne
    (fun c hc => digit?_of_isHexDigit (hds c hc))
    fun c hc => ne_underscore_of_isHexDigit (hds c hc)]
  simp [Radix.base]

/-- Digits in base sixteen have their positional value behind a marker. -/
theorem readChars_marked {x : Char} {ds : List Char} (hx : x = 'x' ∨ x = 'X') (hne : ds ≠ [])
    (hds : ∀ c ∈ ds, isHexDigit c = true) :
    readChars .hexadecimal ('0' :: x :: ds) = .ok (value 16 (ds.map digitValue)) := by
  have hmarker : isMarker '0' x = true := by rcases hx with rfl | rfl <;> rfl
  have hbody : dropMarker .hexadecimal ('0' :: x :: ds) = ds := by
    obtain ⟨d, ds', rfl⟩ := List.exists_cons_of_ne_nil hne
    have hu := ne_underscore_of_isHexDigit (hds d List.mem_cons_self)
    simp [dropMarker, hmarker, dropUnderscore, hu]
  rw [readChars_of_digits (takeSign_dropWhile_of_isHexDigit rfl) hbody hne
    (fun c hc => digit?_of_isHexDigit (hds c hc))
    fun c hc => ne_underscore_of_isHexDigit (hds c hc)]
  simp [Radix.base]

theorem constantRadix_of_isDigit {ds : List Char} (hds : ∀ c ∈ ds, c.isDigit = true) :
    constantRadix ds = .decimal := by
  unfold constantRadix
  split
  · exact absurd (hds 'x' (by simp)) (by decide)
  · exact absurd (hds 'X' (by simp)) (by decide)
  · rfl

theorem constantRadix_marked {x : Char} {ds : List Char} (hx : x = 'x' ∨ x = 'X') :
    constantRadix ('0' :: x :: ds) = .hexadecimal := by
  rcases hx with rfl | rfl <;> rfl

theorem readConstantChars_decimal {ds : List Char} (hne : ds ≠ [])
    (hds : ∀ c ∈ ds, c.isDigit = true) :
    readConstantChars ds =
      if digitLimit < ds.length then .error (.tooManyDigits ds.length)
      else .ok (value 10 (ds.map digitValue)) := by
  rw [readConstantChars, constantRadix_of_isDigit hds, readChars_decimal hne hds]

theorem readConstantChars_marked {x : Char} {ds : List Char} (hx : x = 'x' ∨ x = 'X')
    (hne : ds ≠ []) (hds : ∀ c ∈ ds, isHexDigit c = true) :
    readConstantChars ('0' :: x :: ds) = .ok (value 16 (ds.map digitValue)) := by
  rw [readConstantChars, constantRadix_marked hx, readChars_marked hx hne hds]

theorem value_lt {base : Nat} {ds : List Nat} (h : ∀ d ∈ ds, d < base) :
    value base ds < Nat.pow base ds.length := by
  induction ds using List.reverseRecOn with
  | nil => exact Nat.one_pos
  | append_singleton ds d ih =>
    have hd : d < base := h d (by simp)
    have hds := ih fun e he => h e (by simp [he])
    calc value base (ds ++ [d])
        = base * value base ds + d := value_concat base d ds
      _ < base * (value base ds + 1) := by
        rw [Nat.mul_succ]
        omega
      _ ≤ base * Nat.pow base ds.length := Nat.mul_le_mul_left base hds
      _ = Nat.pow base (ds ++ [d]).length := by
        rw [List.length_append, List.length_singleton, Nat.pow_eq, Nat.pow_eq, Nat.pow_succ,
          Nat.mul_comm]

theorem digitValue_lt_ten {c : Char} (h : c.isDigit = true) : digitValue c < 10 := by
  have hc := isDigit_iff.1 h
  rw [digitValue, if_pos h]
  omega

theorem writable_value {ds : List Char} (hds : ∀ c ∈ ds, c.isDigit = true)
    (hlen : ds.length ≤ digitLimit) : Writable (value 10 (ds.map digitValue)) := by
  have hvalue : value 10 (ds.map digitValue) < Nat.pow 10 (ds.map digitValue).length := by
    apply value_lt
    intro d hd
    obtain ⟨c, hc, rfl⟩ := List.mem_map.1 hd
    exact digitValue_lt_ten (hds c hc)
  have hmono : ∀ k l, k ≤ l → Nat.pow 10 k ≤ Nat.pow 10 l :=
    fun k l hkl => Nat.pow_le_pow_right (by decide) hkl
  rw [List.length_map] at hvalue
  exact Nat.lt_of_lt_of_le hvalue (hmono _ digitLimit hlen)

def Radix.isAsciiDigit : Radix → Char → Bool
  | decimal => Char.isDigit
  | hexadecimal => isHexDigit

/-- The character is written for the digit, a letter in either case. -/
def Spells (c : Char) (d : Nat) : Prop := c = upperDigit d ∨ c = lowerDigit d

section Written
variable {r : Radix} {c : Char} {cs : List Char} {d : Nat} {ds : List Nat}

theorem digitValue_of_spells (hd : d < r.base) (h : Spells c d) :
    r.isAsciiDigit c = true ∧ digitValue c = d := by
  cases r with
  | decimal =>
    have hall : ∀ d < 10, ((upperDigit d).isDigit = true ∧ digitValue (upperDigit d) = d) ∧
        (lowerDigit d).isDigit = true ∧ digitValue (lowerDigit d) = d := by decide
    rcases h with rfl | rfl
    · exact (hall d hd).1
    · exact (hall d hd).2
  | hexadecimal =>
    have hall : ∀ d < 16, (isHexDigit (upperDigit d) = true ∧ digitValue (upperDigit d) = d) ∧
        isHexDigit (lowerDigit d) = true ∧ digitValue (lowerDigit d) = d := by decide
    rcases h with rfl | rfl
    · exact (hall d hd).1
    · exact (hall d hd).2

theorem map_digitValue_of_spells (h : List.Forall₂ Spells cs ds) (hds : ∀ d ∈ ds, d < r.base) :
    (∀ c ∈ cs, r.isAsciiDigit c = true) ∧ cs.map digitValue = ds := by
  induction h with
  | nil => exact ⟨List.forall_mem_nil _, rfl⟩
  | cons hc _ ih =>
    obtain ⟨hd, hrest⟩ := List.forall_mem_cons.1 hds
    obtain ⟨hdigit, hvalue⟩ := digitValue_of_spells hd hc
    obtain ⟨hdigits, hvalues⟩ := ih hrest
    exact ⟨List.forall_mem_cons.2 ⟨hdigit, hdigits⟩, by rw [List.map_cons, hvalue, hvalues]⟩

theorem map_digitValue_upperDigit (hds : ∀ d ∈ ds, d < r.base) :
    (∀ c ∈ ds.map upperDigit, r.isAsciiDigit c = true) ∧
      (ds.map upperDigit).map digitValue = ds := by
  apply map_digitValue_of_spells _ hds
  rw [List.forall₂_map_left_iff, List.forall₂_same]
  exact fun d _ => .inl rfl

end Written
end Numeral
end RegisterMachine
