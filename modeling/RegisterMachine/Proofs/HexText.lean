import RegisterMachine.Proofs.WordText

/-! # Hexadecimal text

The digits of a number begin with a zero only if the number is zero, and there are no more of them
than the number needs. Padded text is as wide as it is asked to be, or has no zero in front; signed
text is read back as the number that it was written from.
-/
namespace RegisterMachine.Numeral
open Assembly

def IsUpperHexDigit (c : Char) : Prop := ('0' ≤ c ∧ c ≤ '9') ∨ ('A' ≤ c ∧ c ≤ 'F')

instance : DecidablePred IsUpperHexDigit := fun _ => inferInstanceAs (Decidable (_ ∨ _))

/-- The number as sign and magnitude: upper-case digits with no zero in front of others, behind a
minus sign if the number is negative, from which the number is read back. -/
structure IsHex (text : String) (n : Int) : Prop where
  read : read .hexadecimal text = .ok n
  shape : ∃ ds, text.toList = (if n < 0 then '-' :: ds else ds) ∧
    (∀ c ∈ ds, IsUpperHexDigit c) ∧ (ds.head? = some '0' → ds = ['0'])

theorem isUpperHexDigit_upperDigit {d : Nat} (h : d < 16) : IsUpperHexDigit (upperDigit d) := by
  have hall : ∀ d < 16, IsUpperHexDigit (upperDigit d) := by decide
  exact hall d h

theorem upperDigit_eq_zero_iff {d : Nat} (h : d < 16) : upperDigit d = '0' ↔ d = 0 := by
  have hall : ∀ d < 16, upperDigit d = '0' ↔ d = 0 := by decide
  exact hall d h

section Digits
variable {base n : Nat}

/-- Digits begin with a zero only if there is nothing else to write. -/
theorem head?_digits (hn : n ≠ 0) : (digits base n).head? ≠ some 0 := by
  fun_induction digits base n with
  | case1 n h ih =>
    have hquotient : n / base ≠ 0 := (Nat.div_pos h.2 (by omega)).ne'
    rw [List.head?_append_of_ne_nil _ (digits_ne_nil _ _)]
    exact ih hquotient
  | case2 n h => simpa using hn

/-- A number below a power of the base has no more digits than the exponent. -/
theorem length_digits_le {k : Nat} (hk : 0 < k) (h : n < Nat.pow base k) :
    (digits base n).length ≤ k := by
  fun_induction digits base n generalizing k with
  | case1 n hbase ih =>
    have hexponent : k ≠ 1 := by
      rintro rfl
      have hone : Nat.pow base 1 = base := Nat.pow_one base
      omega
    obtain ⟨j, rfl⟩ : ∃ j, k = j + 1 := ⟨k - 1, by omega⟩
    have hquotient : n / base < Nat.pow base j :=
      Nat.div_lt_of_lt_mul (Nat.mul_comm base _ ▸ h)
    have hlength := ih (by omega) hquotient
    rw [List.length_append, List.length_singleton]
    omega
  | case2 n hbase =>
    rw [List.length_singleton]
    exact hk

end Digits

theorem eq_zero_of_head? {n : Nat} (h : ((digits 16 n).map upperDigit).head? = some '0') :
    n = 0 := by
  rw [List.head?_map] at h
  obtain ⟨d, hd, hchar⟩ := Option.map_eq_some_iff.1 h
  have hlt := digits_lt (by decide) d (List.mem_of_mem_head? hd)
  rw [(upperDigit_eq_zero_iff hlt).1 hchar] at hd
  by_contra hn
  exact head?_digits hn hd

section Padded
variable {width n : Nat}

theorem length_paddedHex :
    (paddedHex width n).toList.length = max width (digits 16 n).length := by
  rw [toList_paddedHex, List.length_map, paddedDigits, List.length_append, List.length_replicate]
  omega

theorem isUpperHexDigit_of_mem_paddedHex :
    ∀ c ∈ (paddedHex width n).toList, IsUpperHexDigit c := by
  rw [toList_paddedHex]
  intro c hc
  obtain ⟨d, hd, rfl⟩ := List.mem_map.1 hc
  exact isUpperHexDigit_upperDigit (paddedDigits_lt width n d hd)

/-- Zeros stand in front only to make up the width. -/
theorem head?_paddedHex (hwidth : 0 < width) (h : width < (paddedHex width n).toList.length) :
    (paddedHex width n).toList.head? ≠ some '0' := by
  rw [length_paddedHex] at h
  have hlength : width < (digits 16 n).length := by omega
  have hdigits : paddedDigits width n = digits 16 n := by
    rw [paddedDigits, Nat.sub_eq_zero_of_le (Nat.le_of_lt hlength)]
    rfl
  rw [toList_paddedHex, hdigits]
  intro hzero
  obtain rfl := eq_zero_of_head? hzero
  have hone : (digits 16 0).length = 1 := by rw [digits]; rfl
  omega

end Padded

section Signed

theorem readChars_minus {r : Radix} {c : Char} {cs : List Char} {n : Int}
    (hc : isHexDigit c = true) (h : readChars r (c :: cs) = .ok n) :
    readChars r ('-' :: c :: cs) = .ok (-n) := by
  have hsign : takeSign (('-' :: c :: cs).dropWhile Text.isBlank) = (true, c :: cs) := rfl
  unfold readChars at h ⊢
  rw [takeSign_dropWhile_of_isHexDigit hc] at h
  rw [hsign]
  dsimp only at h ⊢
  split at h
  · rename_i hseparated
    rw [if_pos hseparated]
    split at h
    · cases h
    · rename_i hdigits
      rw [if_neg hdigits]
      split at h
      · rename_i hblank
        rw [if_pos hblank]
        cases h
        rfl
      · cases h
  · cases h

theorem hex_eq (n : Int) : hex n = signed (paddedHex 0) n := by
  have hpad : ∀ k, paddedHex 0 k = String.ofList ((digits 16 k).map upperDigit) := by
    intro k
    rw [paddedHex, List.leftpad, Nat.zero_sub]
    rfl
  rw [hex, signed, signed, hpad]

theorem read_hex (n : Int) : read .hexadecimal (hex n) = .ok n := by
  have hread := read_paddedHex 0 n.natAbs
  rw [hex_eq, signed]
  split
  · rename_i hneg
    obtain ⟨c, cs, htext⟩ := List.exists_cons_of_ne_nil (paddedHex_ne_nil 0 n.natAbs)
    have hc : isHexDigit c = true := by
      apply isHexDigit_of_mem_paddedHex 0 n.natAbs
      rw [htext]
      exact List.mem_cons_self
    have hvalue : -(n.natAbs : Int) = n := by omega
    rw [read, htext] at hread
    rw [read, String.toList_append, htext]
    exact (readChars_minus hc hread).trans (congrArg _ hvalue)
  · have hvalue : (n.natAbs : Int) = n := by omega
    rw [hread, hvalue]

theorem isHex_hex (n : Int) : IsHex (hex n) n := by
  refine ⟨read_hex n, (digits 16 n.natAbs).map upperDigit, ?_, ?_, ?_⟩
  · rw [hex, signed]
    split <;> simp
  · intro c hc
    obtain ⟨d, hd, rfl⟩ := List.mem_map.1 hc
    exact isUpperHexDigit_upperDigit (digits_lt (by decide) d hd)
  · intro hzero
    rw [eq_zero_of_head? hzero, digits]
    rfl

end Signed
end RegisterMachine.Numeral
