import Mathlib.Data.List.Forall2
import Mathlib.Data.Nat.Digits.Defs
import RegisterMachine.Proofs.Tokens
import RegisterMachine.Proofs.WordText

/-! # Constants and the numbers they write

A number is written as its digits behind any number of zeros, and every text of digits writes one
number, the sum of its digits at their places. A constant has the form of one radix; its reader goes
by the first two characters alone. Both agree on every constant, so it is read as the number that
its digits write.
-/
namespace RegisterMachine

namespace Numeral
open Assembly

section Positional
variable {base : Nat}

/-- The value of digits is their sum, each times the power of the base that belongs to its place. -/
theorem value_eq_ofDigits (ds : List Nat) : value base ds = Nat.ofDigits base ds.reverse := by
  induction ds using List.reverseRecOn with
  | nil => rfl
  | append_singleton ds d ih =>
    rw [value_concat, List.reverse_concat, Nat.ofDigits_cons, ih]
    exact Nat.add_comm _ _

theorem digits_of_lt {n : Nat} (h : n < base) : digits base n = [n] := by
  rw [digits, if_neg fun hbase => Nat.not_le.2 h hbase.2]

theorem digits_mul_add {n d : Nat} (hbase : 1 < base) (hn : 0 < n) (hd : d < base) :
    digits base (base * n + d) = digits base n ++ [d] := by
  have hle : base ≤ base * n + d := Nat.le_add_right_of_le (Nat.le_mul_of_pos_right base hn)
  have hquotient : (base * n + d) / base = n := by
    rw [Nat.mul_add_div (by omega), Nat.div_eq_of_lt hd, Nat.add_zero]
  have hremainder : (base * n + d) % base = d := by
    rw [Nat.mul_add_mod, Nat.mod_eq_of_lt hd]
  rw [digits, if_pos ⟨hbase, hle⟩, hquotient, hremainder]

/-- Digits are those of their value behind zeros. -/
theorem exists_eq_replicate_append_digits {ds : List Nat} (hbase : 1 < base) (hne : ds ≠ [])
    (hds : ∀ d ∈ ds, d < base) :
    ∃ zeros, ds = List.replicate zeros 0 ++ digits base (value base ds) := by
  induction ds using List.reverseRecOn with
  | nil => exact absurd rfl hne
  | append_singleton ds d ih =>
    have hd : d < base := hds d (by simp)
    rw [value_concat]
    by_cases hnil : ds = []
    · subst hnil
      exact ⟨0, by simp [digits_of_lt hd]⟩
    · obtain ⟨zeros, heq⟩ := ih hnil fun e he => hds e (by simp [he])
      rcases Nat.eq_zero_or_pos (value base ds) with hzero | hpos
      · refine ⟨zeros + 1, ?_⟩
        rw [hzero, digits_of_lt (by omega)] at heq
        rw [hzero, Nat.mul_zero, Nat.zero_add, digits_of_lt hd, List.replicate_succ', ← heq]
      · refine ⟨zeros, ?_⟩
        rw [digits_mul_add hbase hpos hd, ← List.append_assoc, ← heq]

end Positional

def Writes (r : Radix) (cs : List Char) (n : Nat) : Prop :=
  ∃ zeros, List.Forall₂ Spells cs (List.replicate zeros 0 ++ digits r.base n)

section Characters
variable {r : Radix} {c : Char} {cs : List Char} {n : Nat}

theorem Radix.one_lt_base (r : Radix) : 1 < r.base := by cases r <;> decide

theorem isHexDigit_of_isAsciiDigit (h : r.isAsciiDigit c = true) : isHexDigit c = true := by
  cases r with
  | decimal => exact isHexDigit_of_isDigit h
  | hexadecimal => exact h

theorem ofNat_add_toNat_sub {k : Nat} (h : k ≤ c.toNat) : Char.ofNat (k + (c.toNat - k)) = c := by
  rw [Nat.add_sub_cancel' h, Char.ofNat_toNat]

theorem spells_digitValue (h : isHexDigit c = true) :
    Spells c (digitValue c) ∧ digitValue c < 16 := by
  rcases isHexDigit_iff.1 h with hdigit | hlower | hupper
  · have hchar : upperDigit (c.toNat - 48) = c := by
      rw [upperDigit, if_pos (by omega), ofNat_add_toNat_sub hdigit.1]
    rw [digitValue, if_pos (isDigit_iff.2 hdigit)]
    exact ⟨.inl hchar.symm, by omega⟩
  · have hchar : lowerDigit (c.toNat - 87) = c := by
      rw [lowerDigit, if_neg (by omega), ofNat_add_toNat_sub (by omega)]
    have hletter : ¬ c.isDigit = true := by
      rw [isDigit_iff]
      omega
    rw [digitValue, if_neg hletter, if_pos (isLower_iff.2 (by omega))]
    exact ⟨.inr hchar.symm, by omega⟩
  · have hchar : upperDigit (c.toNat - 55) = c := by
      rw [upperDigit, if_neg (by omega), ofNat_add_toNat_sub (by omega)]
    have hletter : ¬ c.isDigit = true ∧ ¬ c.isLower = true := by
      rw [isDigit_iff, isLower_iff]
      omega
    rw [digitValue, if_neg hletter.1, if_neg hletter.2]
    exact ⟨.inl hchar.symm, by omega⟩

theorem digitValue_lt_base (h : r.isAsciiDigit c = true) : digitValue c < r.base := by
  cases r with
  | decimal => exact digitValue_lt_ten h
  | hexadecimal => exact (spells_digitValue h).2

theorem writes_iff : Writes r cs n ↔
    cs ≠ [] ∧ (∀ c ∈ cs, r.isAsciiDigit c = true) ∧ value r.base (cs.map digitValue) = n := by
  constructor
  · rintro ⟨zeros, h⟩
    have hdigits := replicate_append_digits_lt r.one_lt_base zeros n
    obtain ⟨hcs, hmap⟩ := map_digitValue_of_spells h hdigits
    refine ⟨?_, hcs, by rw [hmap, value_replicate_append, value_digits]⟩
    rintro rfl
    simp [digits_ne_nil] at hmap
  · rintro ⟨hne, hcs, rfl⟩
    have hdigits : ∀ d ∈ cs.map digitValue, d < r.base :=
      List.forall_mem_map.2 fun c hc => digitValue_lt_base (hcs c hc)
    obtain ⟨zeros, heq⟩ :=
      exists_eq_replicate_append_digits r.one_lt_base (by simpa using hne) hdigits
    refine ⟨zeros, ?_⟩
    rw [← heq, List.forall₂_map_right_iff, List.forall₂_same]
    exact fun c hc => (spells_digitValue (isHexDigit_of_isAsciiDigit (hcs c hc))).1

end Characters
end Numeral

namespace Assembly
open Numeral

/-- The form of a constant of each radix, with its digits: decimal digits alone, or hexadecimal ones
behind a zero and an `x` of either case. -/
inductive Constant : Radix → List Char → List Char → Prop where
  | decimal {ds : List Char} : ds ≠ [] → (∀ c ∈ ds, c.isDigit = true) → Constant .decimal ds ds
  | hexadecimal {x : Char} {ds : List Char} : x = 'x' ∨ x = 'X' → ds ≠ [] →
      (∀ c ∈ ds, isHexDigit c = true) → Constant .hexadecimal ('0' :: x :: ds) ds

section Constant
variable {r : Radix} {token ds s t : List Char}

theorem Constant.constantRadix_eq (h : Constant r token ds) : constantRadix token = r := by
  cases h with
  | decimal _ hds => exact constantRadix_of_isDigit hds
  | hexadecimal hx => exact constantRadix_marked hx

theorem Constant.writes (h : Constant r token ds) :
    Writes r ds (value r.base (ds.map digitValue)) := by
  cases h with
  | decimal hne hds => exact writes_iff.2 ⟨hne, hds, rfl⟩
  | hexadecimal _ hne hds => exact writes_iff.2 ⟨hne, hds, rfl⟩

theorem Constant.readConstant_eq (h : Constant r token ds)
    (hlimit : r = .decimal → ds.length ≤ digitLimit) :
    readConstant (String.ofList token) = .ok (value r.base (ds.map digitValue)) := by
  rw [readConstant, String.toList_ofList]
  cases h with
  | decimal hne hds =>
    rw [readConstantChars_decimal hne hds, if_neg (Nat.not_lt.2 (hlimit rfl))]
    rfl
  | hexadecimal hx hne hds => exact readConstantChars_marked hx hne hds

theorem constantToken_fst_append_snd (s : List Char) :
    (constantToken s).1 ++ (constantToken s).2 = s := by
  rcases constantToken_cases s with ⟨x, cs, rfl, -, -, htoken⟩ | htoken
  · rw [htoken, List.cons_append, List.cons_append, List.takeWhile_append_dropWhile]
  · rw [htoken, List.takeWhile_append_dropWhile]

theorem exists_constant (hne : (constantToken s).1 ≠ []) :
    ∃ r ds, Constant r (constantToken s).1 ds := by
  rcases constantToken_cases s with ⟨x, cs, -, hx, hcs, htoken⟩ | htoken
  · rw [htoken]
    exact ⟨_, _, .hexadecimal hx hcs fun c => List.mem_takeWhile_imp⟩
  · rw [htoken] at hne ⊢
    exact ⟨_, _, .decimal hne fun c => List.mem_takeWhile_imp⟩

/-- The form of base sixteen comes first where both forms fit. -/
theorem Constant.constantToken_of_isPrefix (h : Constant .hexadecimal t ds) (hs : t <+: s) :
    ∃ ds, Constant .hexadecimal (constantToken s).1 ds := by
  obtain ⟨u, rfl⟩ := hs
  cases h with
  | hexadecimal hx hne hds =>
    have htake : (ds ++ u).takeWhile isHexDigit ≠ [] := by
      rw [List.takeWhile_append_of_pos hds]
      simp [hne]
    rw [List.cons_append, List.cons_append, constantToken_marked hx htake]
    exact ⟨_, .hexadecimal hx htake fun c => List.mem_takeWhile_imp⟩

end Constant

/-- A number is read from its digits behind zeros, in base ten unless these are too many and in base
sixteen behind a marker. Every constant is read in the radix of its form, as the sum of its digits
at their places, and what the assembly language takes for a constant is one, of base sixteen
wherever such a constant begins. -/
theorem readConstant_positional :
    (∀ (n : Nat) (ds : List Char), Writes .decimal ds n → ds.length ≤ digitLimit →
      readConstant (String.ofList ds) = .ok n) ∧
    (∀ (n : Nat) (x : Char) (ds : List Char), x = 'x' ∨ x = 'X' → Writes .hexadecimal ds n →
      readConstant (String.ofList ('0' :: x :: ds)) = .ok n) ∧
    (∀ (r : Radix) (token ds : List Char), Constant r token ds →
      (r = .decimal → ds.length ≤ digitLimit) →
      constantRadix token = r ∧ ∃ n : Nat, readConstant (String.ofList token) = .ok n ∧
        n = Nat.ofDigits r.base (ds.map digitValue).reverse ∧ Writes r ds n) ∧
    ∀ s token rest : List Char, constantToken s = (token, rest) → token ≠ [] →
      s = token ++ rest ∧ ∃ r ds, Constant r token ds ∧
        (r = .hexadecimal ↔ ∃ t ds, t <+: s ∧ Constant .hexadecimal t ds) := by
  refine ⟨?_, ?_, ?_, ?_⟩
  · intro n ds hwrites hlength
    obtain ⟨hne, hds, rfl⟩ := writes_iff.1 hwrites
    exact (Constant.decimal hne hds).readConstant_eq fun _ => hlength
  · intro n x ds hx hwrites
    obtain ⟨hne, hds, rfl⟩ := writes_iff.1 hwrites
    exact (Constant.hexadecimal hx hne hds).readConstant_eq nofun
  · intro r token ds h hlimit
    exact ⟨h.constantRadix_eq, _, h.readConstant_eq hlimit, value_eq_ofDigits _, h.writes⟩
  · intro s token rest htoken hne
    obtain ⟨rfl, rfl⟩ := Prod.mk.inj htoken
    obtain ⟨r, ds, hconstant⟩ := exists_constant hne
    refine ⟨(constantToken_fst_append_snd s).symm, r, ds, hconstant, ?_⟩
    constructor
    · rintro rfl
      exact ⟨_, ds, ⟨_, constantToken_fst_append_snd s⟩, hconstant⟩
    · rintro ⟨t, ds', hprefix, hhex⟩
      obtain ⟨ds'', hhex⟩ := hhex.constantToken_of_isPrefix hprefix
      exact hconstant.constantRadix_eq.symm.trans hhex.constantRadix_eq

/-- Zeros in front, and letters of both cases. -/
theorem readConstant_positional_zeros :
    Writes .decimal ['0', '0', '4', '2'] 42 ∧ readConstant "0042" = .ok 42 ∧
      Writes .hexadecimal ['0', 'a', 'F'] 175 ∧ readConstant "0X0aF" = .ok 175 := by
  have hdecimal : Writes .decimal ['0', '0', '4', '2'] 42 :=
    writes_iff.2 ⟨by simp, by simp [Radix.isAsciiDigit], rfl⟩
  have hhexadecimal : Writes .hexadecimal ['0', 'a', 'F'] 175 :=
    writes_iff.2 ⟨by simp, by simp [Radix.isAsciiDigit, isHexDigit], rfl⟩
  exact ⟨hdecimal, readConstant_positional.1 42 _ hdecimal (by decide), hhexadecimal,
    readConstant_positional.2.1 175 'X' _ (.inr rfl) hhexadecimal⟩

/-- A marker with no digit behind it is a zero and what follows. -/
example : constantToken "0xg".toList = (['0'], ['x', 'g']) := by decide

end Assembly
end RegisterMachine
