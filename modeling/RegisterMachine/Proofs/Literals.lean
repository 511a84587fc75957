import Mathlib.Data.List.Induction
import RegisterMachine.Proofs.Constants

/-! # The form of a literal

What an integer literal looks like, said without a reader: blanks, a sign, a marker, digits and
blanks again, of which only the digits have to be there. The reader of literals accepts the texts of
this form and no others, and gives them the value of their digits under their sign.
-/
namespace RegisterMachine.Numeral
open Assembly

/-- The character is a digit of that value: a decimal digit of any script, and in base sixteen also
one of the first six ASCII letters in either case. -/
inductive IsDigit : Radix → Char → Nat → Prop where
  | decimal (r : Radix) {c : Char} {d : Nat} : Text.decimalDigit? c = some d → IsDigit r c d
  | lower {c : Char} : 97 ≤ c.toNat → c.toNat ≤ 102 → IsDigit .hexadecimal c (c.toNat - 97 + 10)
  | upper {c : Char} : 65 ≤ c.toNat → c.toNat ≤ 70 → IsDigit .hexadecimal c (c.toNat - 65 + 10)

/-- Digits with at most one underscore between two of them. -/
inductive Digits (r : Radix) : List Char → List Nat → Prop where
  | last {c : Char} {d : Nat} : IsDigit r c d → Digits r [c] [d]
  | next {c : Char} {cs : List Char} {d : Nat} {ds : List Nat} :
      IsDigit r c d → Digits r cs ds → Digits r (c :: cs) (d :: ds)
  | apart {c : Char} {cs : List Char} {d : Nat} {ds : List Nat} :
      IsDigit r c d → Digits r cs ds → Digits r (c :: '_' :: cs) (d :: ds)

inductive Sign : List Char → Int → Prop where
  | none : Sign [] 1
  | plus : Sign ['+'] 1
  | minus : Sign ['-'] (-1)

/-- The marker of base sixteen, which may be left out and may have an underscore behind it. Its zero
may be of any script, as all digits may. -/
inductive Marker : Radix → List Char → Prop where
  | none (r : Radix) : Marker r []
  | marked {zero x : Char} : Text.decimalDigit? zero = some 0 → x = 'x' ∨ x = 'X' →
      Marker .hexadecimal [zero, x]
  | apart {zero x : Char} : Text.decimalDigit? zero = some 0 → x = 'x' ∨ x = 'X' →
      Marker .hexadecimal [zero, x, '_']

/-- A literal and its value. In base ten there is a limit to the number of digits. -/
inductive Literal (r : Radix) : List Char → Int → Prop where
  | mk {before sign marker body after : List Char} {factor : Int} {ds : List Nat} :
      (∀ c ∈ before, Text.isBlank c = true) → Sign sign factor → Marker r marker →
      Digits r body ds → (∀ c ∈ after, Text.isBlank c = true) →
      (r = .decimal → ds.length ≤ digitLimit) →
      Literal r (before ++ (sign ++ (marker ++ (body ++ after)))) (factor * value r.base ds)

section Characters
variable {r : Radix} {c : Char} {d : Nat}

theorem letterDigit?_eq_some_iff : letterDigit? c = some d ↔
    (97 ≤ c.toNat ∧ c.toNat ≤ 102 ∧ d = c.toNat - 97 + 10) ∨
      (65 ≤ c.toNat ∧ c.toNat ≤ 70 ∧ d = c.toNat - 65 + 10) := by
  simp only [letterDigit?, Char.le_def, UInt32.le_iff_toNat_le]
  change (if 97 ≤ c.toNat ∧ c.toNat ≤ 102 then some (c.toNat - 87)
    else if 65 ≤ c.toNat ∧ c.toNat ≤ 70 then some (c.toNat - 55) else none) = some d ↔ _
  split
  · rw [Option.some_inj]
    omega
  · split
    · rw [Option.some_inj]
      omega
    · simp only [reduceCtorEq, false_iff]
      omega

/-- No letter is a decimal digit, so the two kinds of digits do not get in each other's way. -/
theorem decimalDigit?_of_letterDigit? (h : letterDigit? c = some d) :
    Text.decimalDigit? c = none := by
  have hbounds := letterDigit?_eq_some_iff.1 h
  have hdigit : c.isDigit = false := by
    rw [Bool.eq_false_iff]
    intro hdigit
    have := isDigit_iff.1 hdigit
    omega
  exact decimalDigit?_of_ascii hdigit (by omega)

theorem digit?_eq_some_iff : r.digit? c = some d ↔ IsDigit r c d := by
  cases r with
  | decimal =>
    constructor
    · exact .decimal _
    · rintro ⟨⟩
      assumption
  | hexadecimal =>
    have hdigit : Radix.hexadecimal.digit? c = (Text.decimalDigit? c).or (letterDigit? c) := by
      rw [Radix.digit?]
      cases Text.decimalDigit? c <;> rfl
    rw [hdigit, Option.or_eq_some_iff]
    constructor
    · rintro (h | ⟨-, h⟩)
      · exact .decimal _ h
      · rcases letterDigit?_eq_some_iff.1 h with ⟨h1, h2, rfl⟩ | ⟨h1, h2, rfl⟩
        · exact .lower h1 h2
        · exact .upper h1 h2
    · intro h
      cases h with
      | decimal _ h => exact .inl h
      | lower h1 h2 =>
        have hletter := letterDigit?_eq_some_iff.2 (.inl ⟨h1, h2, rfl⟩)
        exact .inr ⟨decimalDigit?_of_letterDigit? hletter, hletter⟩
      | upper h1 h2 =>
        have hletter := letterDigit?_eq_some_iff.2 (.inr ⟨h1, h2, rfl⟩)
        exact .inr ⟨decimalDigit?_of_letterDigit? hletter, hletter⟩

theorem exists_zeroDigit (h : Text.decimalDigit? c = some d) :
    ∃ z ∈ Text.zeroDigits, z ≤ c.toNat ∧ c.toNat < z + 10 := by
  obtain ⟨z, hz, -⟩ := Option.map_eq_some_iff.1 h
  exact ⟨z, List.mem_of_find?_eq_some hz, by simpa using List.find?_some hz⟩

/-- The digits of all scripts stand apart from the blanks. -/
theorem isBlank_of_isDigit (h : IsDigit r c d) : Text.isBlank c = false := by
  have hapart : ∀ b ∈ Text.blankRanges, ∀ z ∈ 65 :: 97 :: Text.zeroDigits,
      b.2 < z ∨ z + 10 ≤ b.1 := by decide
  have hrange : ∃ z ∈ 65 :: 97 :: Text.zeroDigits, z ≤ c.toNat ∧ c.toNat < z + 10 := by
    cases h with
    | decimal _ h =>
      obtain ⟨z, hz, hc⟩ := exists_zeroDigit h
      exact ⟨z, by simp [hz], hc⟩
    | lower h1 h2 => exact ⟨97, by simp, by omega⟩
    | upper h1 h2 => exact ⟨65, by simp, by omega⟩
  obtain ⟨z, hz, hc⟩ := hrange
  rw [Text.isBlank, Text.inRanges, List.any_eq_false]
  intro b hb
  have := hapart b hb z hz
  simp only [Bool.and_eq_true, decide_eq_true_eq]
  omega

/-- An ASCII character that is no hexadecimal digit is no digit of any base. -/
theorem not_isDigit_of_ascii (hc : c.toNat < 128) (hhex : isHexDigit c = false) :
    ¬ IsDigit r c d := by
  have hbounds : ¬ isHexDigit c = true := by simp [hhex]
  rw [isHexDigit_iff] at hbounds
  intro h
  cases h with
  | decimal _ h =>
    have hdigit : c.isDigit = false := by
      rw [Bool.eq_false_iff]
      intro hdigit
      have := isDigit_iff.1 hdigit
      omega
    rw [decimalDigit?_of_ascii hdigit hc] at h
    cases h
  | lower => omega
  | upper => omega

theorem digit?_of_ascii (hc : c.toNat < 128) (hhex : isHexDigit c = false) :
    r.digit? c = none := by
  rw [Option.eq_none_iff_forall_not_mem]
  exact fun d hd => not_isDigit_of_ascii hc hhex (digit?_eq_some_iff.1 hd)

theorem inRun_of_isBlank (h : Text.isBlank c = true) : r.inRun c = false := by
  have hdigit : r.digit? c = none := by
    rw [Option.eq_none_iff_forall_not_mem]
    intro d hd
    rw [isBlank_of_isDigit (digit?_eq_some_iff.1 hd)] at h
    cases h
  have hne : c ≠ '_' := by
    rintro rfl
    cases h
  simp [Radix.inRun, hdigit, hne]

end Characters

section Digits
variable {r : Radix} {body : List Char} {ds : List Nat}

theorem separated_true_of_false (h : separated false body = true) : separated true body = true := by
  cases body with
  | nil => rfl
  | cons c cs =>
    rw [separated] at h ⊢
    split at h
    · simp at h
    · rename_i hc
      rwa [if_neg hc]

theorem ne_underscore_of_digit? {c : Char} {d : Nat} (h : r.digit? c = some d) : c ≠ '_' := by
  rintro rfl
  rw [digit?_of_ascii (by decide) (by decide)] at h
  cases h

theorem separated_cons_of_digit? {c : Char} {d : Nat} (h : r.digit? c = some d) (b : Bool)
    (cs : List Char) : separated b (c :: cs) = separated true cs := by
  rw [separated, if_neg (ne_underscore_of_digit? h)]

/-- A run whose underscores stand between digits is what the grammar takes for digits. -/
theorem digits_of_separated (hsep : separated false body = true)
    (hrun : ∀ c ∈ body, r.inRun c = true) : Digits r body (body.filterMap r.digit?) := by
  have hfirst : ∀ c cs, separated false (c :: cs) = true → r.inRun c = true →
      ∃ d, r.digit? c = some d := by
    intro c cs h hc
    by_cases hu : c = '_'
    · simp [separated, hu] at h
    · simpa [Radix.inRun, hu, Option.isSome_iff_exists] using hc
  -- an underscore takes the digit before it along, so there may be two characters to a step
  induction body using List.twoStepInduction with
  | nil => cases hsep
  | singleton c =>
    obtain ⟨d, hd⟩ := hfirst c [] hsep (hrun c List.mem_cons_self)
    simpa [hd] using Digits.last (digit?_eq_some_iff.1 hd)
  | cons_cons c c' cs ih ih' =>
    obtain ⟨d, hd⟩ := hfirst c (c' :: cs) hsep (hrun c List.mem_cons_self)
    have hrest := (List.forall_mem_cons.1 hrun).2
    rw [separated_cons_of_digit? hd] at hsep
    rw [List.filterMap_cons_some hd]
    by_cases hu : c' = '_'
    · subst hu
      have hunderscore : r.digit? '_' = none := digit?_of_ascii (by decide) (by decide)
      rw [List.filterMap_cons_none hunderscore]
      rw [separated, if_pos rfl, Bool.true_and] at hsep
      exact .apart (digit?_eq_some_iff.1 hd) (ih hsep (List.forall_mem_cons.1 hrest).2)
    · have hsep' : separated false (c' :: cs) = true := by
        rw [separated, if_neg hu] at hsep ⊢
        exact hsep
      exact .next (digit?_eq_some_iff.1 hd) (ih' c' hsep' hrest)

theorem Digits.separated (h : Digits r body ds) : separated false body = true := by
  induction h with
  | last hd => exact separated_cons_of_digit? (digit?_eq_some_iff.2 hd) false []
  | next hd _ ih =>
    rw [separated_cons_of_digit? (digit?_eq_some_iff.2 hd)]
    exact separated_true_of_false ih
  | apart hd _ ih =>
    rw [separated_cons_of_digit? (digit?_eq_some_iff.2 hd), Numeral.separated, if_pos rfl, ih]
    rfl

theorem inRun_of_isDigit {c : Char} {d : Nat} (h : IsDigit r c d) : r.inRun c = true := by
  simp [Radix.inRun, digit?_eq_some_iff.2 h]

theorem Digits.inRun (h : Digits r body ds) : ∀ c ∈ body, r.inRun c = true := by
  induction h with
  | last hd => simpa using inRun_of_isDigit hd
  | next hd _ ih => exact List.forall_mem_cons.2 ⟨inRun_of_isDigit hd, ih⟩
  | apart hd _ ih =>
    have hunderscore : r.inRun '_' = true := by simp [Radix.inRun]
    exact List.forall_mem_cons.2 ⟨inRun_of_isDigit hd, List.forall_mem_cons.2 ⟨hunderscore, ih⟩⟩

theorem Digits.filterMap (h : Digits r body ds) : body.filterMap r.digit? = ds := by
  have hunderscore : r.digit? '_' = none := digit?_of_ascii (by decide) (by decide)
  induction h with
  | last hd => simp [digit?_eq_some_iff.2 hd]
  | next hd _ ih => rw [List.filterMap_cons_some (digit?_eq_some_iff.2 hd), ih]
  | apart hd _ ih =>
    rw [List.filterMap_cons_some (digit?_eq_some_iff.2 hd), List.filterMap_cons_none hunderscore,
      ih]

theorem Digits.exists_cons (h : Digits r body ds) : ∃ c cs d, body = c :: cs ∧ IsDigit r c d := by
  cases h with
  | last hd => exact ⟨_, _, _, rfl, hd⟩
  | next hd _ => exact ⟨_, _, _, rfl, hd⟩
  | apart hd _ => exact ⟨_, _, _, rfl, hd⟩

end Digits

section Front
variable {r : Radix}

theorem exists_sign (cs : List Char) : ∃ sign, cs = sign ++ (takeSign cs).2 ∧
    Sign sign (if (takeSign cs).1 then -1 else 1) := by
  unfold takeSign
  split
  · exact ⟨['-'], rfl, .minus⟩
  · exact ⟨['+'], rfl, .plus⟩
  · exact ⟨[], rfl, .none⟩

theorem isMarker_iff {zero x : Char} :
    isMarker zero x = true ↔ Text.decimalDigit? zero = some 0 ∧ (x = 'x' ∨ x = 'X') := by
  simp [isMarker]

theorem exists_marker (r : Radix) (cs : List Char) :
    ∃ marker, cs = marker ++ dropMarker r cs ∧ Marker r marker := by
  unfold dropMarker
  split
  · rename_i zero x cs
    split
    · rename_i hmarker
      obtain ⟨hzero, hx⟩ := isMarker_iff.1 hmarker
      unfold dropUnderscore
      split
      · exact ⟨[zero, x, '_'], rfl, .apart hzero hx⟩
      · exact ⟨[zero, x], rfl, .marked hzero hx⟩
    · exact ⟨[], rfl, .none _⟩
  · exact ⟨[], rfl, .none _⟩

theorem takeSign_sign {sign cs : List Char} {factor : Int} (h : Sign sign factor)
    (hcs : ∀ c ∈ cs.head?, c ≠ '-' ∧ c ≠ '+') :
    takeSign (sign ++ cs) = (decide (factor < 0), cs) := by
  cases h with
  | plus => rfl
  | minus => rfl
  | none =>
    rw [List.nil_append]
    unfold takeSign
    split
    · exact absurd rfl (hcs '-' rfl).1
    · exact absurd rfl (hcs '+' rfl).2
    · rfl

/-- A letter that belongs to a marker is no digit and no underscore. -/
theorem not_inRun_of_marker {x : Char} (hx : x = 'x' ∨ x = 'X') : r.inRun x = false := by
  rcases hx with rfl | rfl
  · have hdigit : r.digit? 'x' = none := digit?_of_ascii (by decide) (by decide)
    simp [Radix.inRun, hdigit]
  · have hdigit : r.digit? 'X' = none := digit?_of_ascii (by decide) (by decide)
    simp [Radix.inRun, hdigit]

/-- Digits are not taken for a marker, since no letter of a marker comes in or after them. -/
theorem dropMarker_digits {body after : List Char} {ds : List Nat} (h : Digits r body ds)
    (hafter : ∀ c ∈ after, Text.isBlank c = true) :
    dropMarker r (body ++ after) = body ++ after := by
  unfold dropMarker
  split
  · rename_i zero x cs heq
    have hmarker : ¬ isMarker zero x = true := by
      intro hmarker
      obtain ⟨-, hx⟩ := isMarker_iff.1 hmarker
      have hrun : Radix.hexadecimal.inRun x = false := not_inRun_of_marker hx
      have hmem : x ∈ body ∨ x ∈ after := by
        rw [← List.mem_append, heq]
        simp
      rcases hmem with hmem | hmem
      · rw [h.inRun x hmem] at hrun
        cases hrun
      · have hblank := hafter x hmem
        rcases hx with rfl | rfl <;> cases hblank
    rw [if_neg hmarker, heq]
  · rfl

theorem dropMarker_marker {marker body after : List Char} {ds : List Nat}
    (hmarker : Marker r marker) (h : Digits r body ds)
    (hafter : ∀ c ∈ after, Text.isBlank c = true) :
    dropMarker r (marker ++ (body ++ after)) = body ++ after := by
  cases hmarker with
  | none =>
    rw [List.nil_append]
    exact dropMarker_digits h hafter
  | @marked zero x hzero hx =>
    obtain ⟨c, cs, d, rfl, hd⟩ := h.exists_cons
    have hne := ne_underscore_of_digit? (digit?_eq_some_iff.2 hd)
    simp [dropMarker, isMarker_iff.2 ⟨hzero, hx⟩, dropUnderscore, hne]
  | @apart zero x hzero hx => simp [dropMarker, isMarker_iff.2 ⟨hzero, hx⟩, dropUnderscore]

/-- A digit comes first behind the sign, be it the zero of a marker. -/
theorem exists_cons_of_marker {marker body : List Char} {ds : List Nat} (hmarker : Marker r marker)
    (h : Digits r body ds) : ∃ c cs d, marker ++ body = c :: cs ∧ IsDigit r c d := by
  cases hmarker with
  | none => exact h.exists_cons
  | marked hzero => exact ⟨_, _, _, rfl, .decimal _ hzero⟩
  | apart hzero => exact ⟨_, _, _, rfl, .decimal _ hzero⟩

end Front

section Read
variable {r : Radix} {text : List Char} {n : Int}

theorem takeWhile_dropWhile_append {p : Char → Bool} {body after : List Char}
    (hbody : ∀ c ∈ body, p c = true) (hafter : ∀ c ∈ after, p c = false) :
    (body ++ after).takeWhile p = body ∧ (body ++ after).dropWhile p = after := by
  cases after with
  | nil => simp [List.takeWhile_eq_self_iff.2 hbody, List.dropWhile_eq_nil_iff.2 hbody]
  | cons c cs =>
    have hc : p c = false := hafter c List.mem_cons_self
    simp [List.takeWhile_append_of_pos hbody, List.dropWhile_append_of_pos hbody, hc]

theorem literal_of_readChars (h : readChars r text = .ok n) : Literal r text n := by
  unfold readChars at h
  dsimp only at h
  obtain ⟨sign, hunsigned, hsign⟩ := exists_sign (text.dropWhile Text.isBlank)
  obtain ⟨marker, hbody, hmarker⟩ := exists_marker r (takeSign (text.dropWhile Text.isBlank)).2
  generalize (takeSign (text.dropWhile Text.isBlank)).1 = minus at h hsign
  generalize (takeSign (text.dropWhile Text.isBlank)).2 = unsigned at h hunsigned hbody
  generalize dropMarker r unsigned = body at h hbody
  have htext : text = text.takeWhile Text.isBlank ++ (sign ++ (marker ++
      (body.takeWhile r.inRun ++ body.dropWhile r.inRun))) := by
    rw [List.takeWhile_append_dropWhile, ← hbody, ← hunsigned, List.takeWhile_append_dropWhile]
  split at h
  · rename_i hsep
    split at h
    · cases h
    · rename_i hlimit
      split at h
      · rename_i hblank
        have hdigits := digits_of_separated hsep fun c hc => List.mem_takeWhile_imp hc
        have hvalue : n = (if minus then -1 else 1) *
            (value r.base ((body.takeWhile r.inRun).filterMap r.digit?) : Int) := by
          rw [← Except.ok.inj h]
          cases minus <;> simp
        rw [htext, hvalue]
        refine .mk (fun c hc => List.mem_takeWhile_imp hc) hsign hmarker hdigits
          (fun c hc => List.all_eq_true.1 hblank c hc) ?_
        intro hr
        exact Nat.not_lt.1 fun hlt => hlimit ⟨hr, hlt⟩
      · cases h
  · cases h

theorem readChars_of_literal (h : Literal r text n) : readChars r text = .ok n := by
  obtain ⟨hbefore, hsign, hmarker, hdigits, hafter, hlimit⟩ := h
  rename_i before sign marker body after factor ds
  obtain ⟨c, cs, d, hfirst, hd⟩ := exists_cons_of_marker hmarker hdigits
  have hunsigned : marker ++ (body ++ after) = c :: (cs ++ after) := by
    rw [← List.append_assoc, hfirst, List.cons_append]
  have hne : c ≠ '-' ∧ c ≠ '+' := by
    constructor
    · rintro rfl
      exact not_isDigit_of_ascii (by decide) (by decide) hd
    · rintro rfl
      exact not_isDigit_of_ascii (by decide) (by decide) hd
  have hdrop : (before ++ (sign ++ (marker ++ (body ++ after)))).dropWhile Text.isBlank =
      sign ++ (marker ++ (body ++ after)) := by
    rw [List.dropWhile_append_of_pos hbefore, hunsigned]
    cases hsign with
    | none => simp [isBlank_of_isDigit hd]
    | plus => rfl
    | minus => rfl
  have htake : takeSign (sign ++ (marker ++ (body ++ after))) =
      (decide (factor < 0), marker ++ (body ++ after)) := by
    apply takeSign_sign hsign
    rw [hunsigned]
    rintro _ ⟨⟩
    exact hne
  have hrun := takeWhile_dropWhile_append hdigits.inRun fun c hc => inRun_of_isBlank (hafter c hc)
  have hvalue : (if decide (factor < 0) = true then -(value r.base ds : Int)
      else value r.base ds) = factor * value r.base ds := by
    cases hsign <;> simp
  unfold readChars
  dsimp only
  rw [hdrop, htake, dropMarker_marker hmarker hdigits hafter, hrun.1, hrun.2, hdigits.filterMap,
    if_pos hdigits.separated, if_neg fun h => absurd (hlimit h.1) (Nat.not_le.2 h.2),
    if_pos (List.all_eq_true.2 hafter), hvalue]

/-- The reader accepts the literals, at their values, and nothing else. -/
theorem readChars_eq_ok_iff : readChars r text = .ok n ↔ Literal r text n :=
  ⟨literal_of_readChars, readChars_of_literal⟩

/-- There is no limit to the digits in base sixteen, so a text is refused for its form alone. -/
theorem readChars_hexadecimal_of_not_literal (h : ∀ n, ¬ Literal .hexadecimal text n) :
    readChars .hexadecimal text = .error (.invalid .hexadecimal (String.ofList text)) := by
  cases hread : readChars .hexadecimal text with
  | ok n => exact absurd (literal_of_readChars hread) (h n)
  | error e =>
    unfold readChars at hread
    dsimp only at hread
    split at hread
    · split at hread
      · rename_i hlimit
        cases hlimit.1
      · split at hread
        · cases hread
        · exact hread.symm
    · exact hread.symm

end Read

end RegisterMachine.Numeral
