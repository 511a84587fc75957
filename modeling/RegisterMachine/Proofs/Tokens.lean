import RegisterMachine.Proofs.Grammar

/-! # Tokens and the grammar

What the scanners of tokens find is what the grammar allows, and where the grammar reads a token a
scanner finds one that reaches at least as far. It reaches further only if the token could have gone
on, that is, if a digit follows a register or a word character an immediate.
-/
namespace RegisterMachine.Assembly
open Grammar Numeral

/-- No digits in a row are more than a number may have. -/
def ShortDigits (s : List Char) : Prop :=
  ∀ ds, ds <:+: s → (∀ c ∈ ds, c.isDigit = true) → ds.length ≤ digitLimit

theorem ShortDigits.of_suffix {s t : List Char} (h : ShortDigits s) (ht : t <:+ s) :
    ShortDigits t :=
  fun ds hds hd => h ds (hds.trans ht.isInfix) hd

theorem ShortDigits.of_length {s : List Char} (h : s.length ≤ digitLimit) : ShortDigits s :=
  fun _ hds _ => hds.length_le.trans h

theorem ShortDigits.append_cons {c : Char} {s t : List Char} (hs : ShortDigits s)
    (hc : c.isDigit = false) (ht : ShortDigits t) : ShortDigits (s ++ c :: t) := by
  intro ds hds hall
  have hpre : ∀ us, us <+: c :: t → (∀ d ∈ us, d.isDigit = true) → us = [] := by
    intro us hus hdigits
    cases us with
    | nil => rfl
    | cons u us =>
      have hu := hdigits u List.mem_cons_self
      rw [(List.cons_prefix_cons.1 hus).1, hc] at hu
      cases hu
  rcases List.infix_append_iff.1 hds with h | h | ⟨us, vs, rfl, hus, hvs⟩
  · exact hs ds h hall
  · rcases List.infix_cons_iff.1 h with h | h
    · rw [hpre ds h hall]
      exact Nat.zero_le _
    · exact ht ds h hall
  · rw [hpre vs hvs fun d hd => hall d (List.mem_append_right us hd), List.append_nil]
    exact hs us hus.isInfix fun d hd => hall d (List.mem_append_left vs hd)

section Gap
variable {c : Char} {s t : List Char}

theorem mem_blanks_iff : c ∈ [' ', '\t', '\n', '\r'] ↔ isGap c = true := by
  simp [isGap, or_assoc]

theorem skip_cons_of_isGap (h : isGap c = true) : skip (c :: s) = skip s := by
  have hne : c ≠ '/' := by
    rintro rfl
    cases h
  unfold skip
  rw [skipFrom, if_pos h]
  exact fun _ hc => absurd hc hne

theorem skip_cons_of_solid (h : isGap c = false) (hne : c ≠ '/') : skip (c :: s) = c :: s := by
  unfold skip
  rw [skipFrom, if_neg (by simp [h])]
  exact fun _ hc => absurd hc hne

theorem skipFrom_comment {cs : List Char} (hcs : '\n' ∉ cs) (hs : s = [] ∨ s.head? = some '\n') :
    skipFrom true (cs ++ s) = skip s := by
  induction cs with
  | nil =>
    cases s with
    | nil => rfl
    | cons c u =>
      have hc : c = '\n' := by simpa using hs
      subst hc
      rfl
  | cons c cs ih =>
    have hc : c ≠ '\n' := fun he => hcs (he ▸ List.mem_cons_self)
    rw [List.cons_append, skipFrom, if_neg hc]
    exact ih fun hmem => hcs (List.mem_cons_of_mem c hmem)

theorem skip_of_gap (h : Gap s t) : skip s = skip t := by
  induction h with
  | nil s => rfl
  | blank hc _ ih => rw [skip_cons_of_isGap (mem_blanks_iff.1 hc), ih]
  | comment hcs hs _ ih => rw [← ih, ← skipFrom_comment hcs hs]; rfl

/-- What is passed over is a gap, behind the rest of a comment if one is open. -/
theorem gap_skipFrom (b : Bool) (s : List Char) :
    ∃ cs t, s = cs ++ t ∧ (b = false → cs = []) ∧
      (b = true → '\n' ∉ cs ∧ (t = [] ∨ t.head? = some '\n')) ∧ Gap t (skipFrom b s) := by
  fun_induction skipFrom b s with
  | case1 b => exact ⟨[], [], rfl, by simp, by simp, .nil []⟩
  | case2 cs ih =>
    obtain ⟨ds, t, rfl, hds, -, hgap⟩ := ih
    cases hds rfl
    exact ⟨[], '\n' :: t, rfl, by simp, by simp, .blank (by simp) hgap⟩
  | case3 c cs hc ih =>
    obtain ⟨ds, t, rfl, -, hds, hgap⟩ := ih
    obtain ⟨hds, ht⟩ := hds rfl
    exact ⟨c :: ds, t, rfl, by simp, fun _ => ⟨by simp [Ne.symm hc, hds], ht⟩, hgap⟩
  | case4 cs ih =>
    obtain ⟨ds, t, rfl, -, hds, hgap⟩ := ih
    obtain ⟨hds, ht⟩ := hds rfl
    exact ⟨[], _, rfl, by simp, by simp, .comment hds ht hgap⟩
  | case5 c cs _ hc ih =>
    obtain ⟨ds, t, rfl, hds, -, hgap⟩ := ih
    cases hds rfl
    exact ⟨[], c :: t, rfl, by simp, by simp, .blank (mem_blanks_iff.2 hc) hgap⟩
  | case6 c cs _ hc => exact ⟨[], c :: cs, rfl, by simp, by simp, .nil _⟩

theorem gap_skip (s : List Char) : Gap s (skip s) := by
  obtain ⟨cs, t, rfl, hcs, -, hgap⟩ := gap_skipFrom false s
  cases hcs rfl
  exact hgap

theorem suffix_of_gap (h : Gap s t) : t <:+ s := by
  induction h with
  | nil s => exact List.suffix_refl s
  | blank _ _ ih => exact ih.trans (List.suffix_cons _ _)
  | @comment cs s t _ _ _ ih =>
    exact ih.trans ⟨'/' :: '/' :: cs, rfl⟩

theorem skip_suffix (s : List Char) : skip s <:+ s := suffix_of_gap (gap_skip s)

/-- A gap is empty before a character that is neither blank nor a slash. -/
theorem eq_of_gap (h : Gap (c :: s) t) (hc : isGap c = false) (hne : c ≠ '/') : t = c :: s := by
  cases h with
  | nil => rfl
  | blank hb _ => simp [mem_blanks_iff.1 hb] at hc
  | comment => exact absurd rfl hne

theorem not_isDigit_of_gap (h : Gap s (c :: t)) (hc : c.isDigit = false) :
    ∀ d ∈ s.head?, d.isDigit = false := by
  intro d hd
  cases h with
  | nil =>
    cases hd
    exact hc
  | blank hb _ =>
    cases hd
    simp only [List.mem_cons, List.not_mem_nil, or_false] at hb
    rcases hb with rfl | rfl | rfl | rfl <;> rfl
  | comment =>
    cases hd
    rfl

end Gap

/-- The scanner finds `a` up to `t`, unless a character with the property `p` follows there; then
it may find something else that reaches further. -/
def Scan.Attains {α : Type} (p : Char → Bool) (scan : Scan α) (a : α) (t : List Char) : Prop :=
  ∃ a' t', scan = .found a' t' ∧ t' <:+ t ∧ ((∀ c ∈ t.head?, p c = false) → a' = a ∧ t' = t)

section Attains
variable {α β : Type} {p q : Char → Bool} {scan : Scan α} {a : α} {t : List Char}

theorem Scan.Attains.found (h : scan.Attains p a t) (ht : ∀ c ∈ t.head?, p c = false) :
    scan = .found a t := by
  obtain ⟨a', t', hscan, -, hexact⟩ := h
  obtain ⟨rfl, rfl⟩ := hexact ht
  exact hscan

theorem Scan.Attains.bind {f : α → List Char → Scan β} {b : β} {u : List Char}
    (h : scan.Attains p a t) (ht : ∀ c ∈ t.head?, p c = false) (hf : (f a t).Attains q b u) :
    (scan.bind f).Attains q b u := by
  rw [h.found ht]
  exact hf

theorem Scan.Attains.map {g : α → β} (h : scan.Attains p a t) :
    (scan.bind fun a t => .found (g a) t).Attains p (g a) t := by
  obtain ⟨a', t', rfl, hsuffix, hexact⟩ := h
  refine ⟨g a', t', rfl, hsuffix, ?_⟩
  intro ht
  obtain ⟨rfl, rfl⟩ := hexact ht
  exact ⟨rfl, rfl⟩

theorem Scan.Attains.mono (h : scan.Attains p a t) (hpq : ∀ c, p c = true → q c = true) :
    scan.Attains q a t := by
  obtain ⟨a', t', hscan, hsuffix, hexact⟩ := h
  refine ⟨a', t', hscan, hsuffix, ?_⟩
  intro ht
  apply hexact
  intro c hc
  cases hp : p c with
  | false => rfl
  | true => simpa [hpq c hp] using ht c hc

end Attains

def Overlong (text ds : List Char) : Prop :=
  ds <:+: text ∧ (∀ c ∈ ds, c.isDigit = true) ∧ digitLimit < ds.length

/-- The number stands in the text in base sixteen, behind its marker. -/
def Marked (text : List Char) (n : Int) : Prop :=
  ∃ x ds, '0' :: x :: ds <:+: text ∧ (x = 'x' ∨ x = 'X') ∧ (∀ c ∈ ds, isHexDigit c = true) ∧
    n = value 16 (ds.map digitValue)

/-- What the scanner refuses is too long a run of digits of the text, and what it finds has the
property `p`. -/
def Scan.Yields {α : Type} (text : List Char) (p : α → Prop) (scan : Scan α) : Prop :=
  (∀ e, scan = .refused e → ∃ ds, Overlong text ds ∧ e = .tooManyDigits ds.length) ∧
    ∀ a t, scan = .found a t → t <:+ text ∧ p a

/-- The scanner does not refuse a number, and where it stops is a place of the text. -/
def Scan.Within {α : Type} (s : List Char) (scan : Scan α) : Prop :=
  (∀ e, scan ≠ .refused e) ∧ ∀ a t, scan = .found a t → t <:+ s

section Yields
variable {α β : Type} {text s t : List Char} {scan : Scan α} {p : α → Prop} {q : β → Prop}

theorem Scan.Yields.found {a : α} (ht : t <:+ text) (ha : p a) :
    (Scan.found a t).Yields text p := by
  constructor
  · intro e h
    cases h
  · intro b u h
    cases h
    exact ⟨ht, ha⟩

theorem Scan.Yields.absent (text : List Char) (p : α → Prop) :
    (Scan.absent : Scan α).Yields text p := by
  constructor
  · intro e h
    cases h
  · intro a t h
    cases h

theorem Scan.Yields.mono {p' : α → Prop} (h : scan.Yields text p) (hp : ∀ a, p a → p' a) :
    scan.Yields text p' := by
  refine ⟨h.1, ?_⟩
  intro a t hscan
  obtain ⟨ht, ha⟩ := h.2 a t hscan
  exact ⟨ht, hp a ha⟩

theorem Scan.Yields.bind {f : α → List Char → Scan β} (h : scan.Yields text p)
    (hf : ∀ a t, t <:+ text → p a → (f a t).Yields text q) :
    (scan.bind f).Yields text q := by
  cases scan with
  | found a t =>
    obtain ⟨ht, ha⟩ := h.2 a t rfl
    exact hf a t ht ha
  | absent => exact .absent text q
  | refused e =>
    constructor
    · intro e' h'
      cases h'
      exact h.1 e rfl
    · intro b u h'
      cases h'

/-- Decimal digits are read as a number that can be written, unless they are too many. -/
theorem Scan.Yields.decimal {ds : List Char} (h : ds ++ t <:+ text)
    (hds : ∀ c ∈ ds, c.isDigit = true) :
    (if digitLimit < ds.length then Scan.refused (.tooManyDigits ds.length)
      else .found (value 10 (ds.map digitValue) : Int) t).Yields text Writable := by
  split
  · rename_i hlen
    constructor
    · intro e he
      cases he
      exact ⟨ds, ⟨(List.prefix_append ds t).isInfix.trans h.isInfix, hds, hlen⟩, rfl⟩
    · intro a u ha
      cases ha
  · rename_i hlen
    exact .found ((List.suffix_append ds t).trans h) (writable_value hds (Nat.not_lt.1 hlen))

theorem Scan.Yields.within (h : scan.Yields s p) (hs : ShortDigits s) : scan.Within s := by
  constructor
  · intro e he
    obtain ⟨ds, ⟨hrun, hds, hlen⟩, -⟩ := h.1 e he
    exact Nat.not_lt.2 (hs ds hrun hds) hlen
  · intro a t ha
    exact (h.2 a t ha).1

end Yields

section Span
variable {α : Type} {p : Char → Bool} {ds t : List Char}

theorem mem_append_takeWhile (hds : ∀ c ∈ ds, p c = true) (t : List Char) :
    ∀ c ∈ ds ++ t.takeWhile p, p c = true := by
  intro c hc
  rcases List.mem_append.1 hc with hc | hc
  · exact hds c hc
  · exact List.mem_takeWhile_imp hc

theorem ShortDigits.length_append_le (hs : ShortDigits (ds ++ t))
    (hds : ∀ c ∈ ds, c.isDigit = true) : (ds ++ t.takeWhile Char.isDigit).length ≤ digitLimit := by
  have hpre : ds ++ t.takeWhile Char.isDigit <+: ds ++ t :=
    (List.prefix_append_right_inj ds).2 (List.takeWhile_prefix _)
  exact hs _ hpre.isInfix (mem_append_takeWhile hds t)

/-- Characters of one kind that follow those of a token are taken with them. -/
theorem Scan.Attains.span (p : Char → Bool) (f : List Char → α) (ds t : List Char) :
    (Scan.found (f (ds ++ t.takeWhile p)) (t.dropWhile p)).Attains p (f ds) t := by
  refine ⟨_, _, rfl, List.dropWhile_suffix p, ?_⟩
  intro ht
  cases t with
  | nil => simp
  | cons c u =>
    have hc : p c = false := ht c rfl
    simp [hc]

end Span

section Register
variable {text s t u : List Char} {n : Int}

theorem register_skip (s : List Char) : register (skip s) = register s := by
  unfold register
  rw [← skip_of_gap (gap_skip s)]

theorem register_of_gap (h : Gap s t) : register s = register t := by
  rw [← register_skip s, skip_of_gap h, register_skip]

theorem register_cons (cs : List Char) :
    register ('r' :: cs) =
      if cs.takeWhile Char.isDigit = [] then .absent
      else number (readChars .decimal (cs.takeWhile Char.isDigit)) (cs.dropWhile Char.isDigit) := by
  rw [register, skip_cons_of_solid rfl (by decide)]
  rfl

/-- The digits of a register, and those that follow them, are read as one number. -/
theorem register_attains (h : Register s n t) (hs : ShortDigits s) :
    (register s).Attains Char.isDigit n t := by
  cases h with
  | @mk ds t hne hds =>
    have hlen := (hs.of_suffix (List.suffix_cons 'r' _)).length_append_le hds
    rw [register_cons, List.takeWhile_append_of_pos hds, List.dropWhile_append_of_pos hds,
      if_neg (by simp [hne]), readChars_decimal (by simp [hne]) (mem_append_takeWhile hds t),
      if_neg (Nat.not_lt.2 hlen)]
    exact .span Char.isDigit (fun ds => (value 10 (ds.map digitValue) : Int)) ds t

/-- Behind a gap, a register takes all digits after its letter. -/
theorem register_cases (s : List Char) :
    register s = .absent ∨
      ∃ ds t, skip s = 'r' :: (ds ++ t) ∧ ds ≠ [] ∧ (∀ c ∈ ds, c.isDigit = true) ∧
        register s = if digitLimit < ds.length then .refused (.tooManyDigits ds.length)
          else .found (value 10 (ds.map digitValue)) t := by
  unfold register
  split
  · rename_i cs hs
    dsimp only
    split
    · exact .inl rfl
    · rename_i hne
      have hall : ∀ c ∈ cs.takeWhile Char.isDigit, c.isDigit = true :=
        fun c => List.mem_takeWhile_imp
      refine .inr ⟨_, cs.dropWhile Char.isDigit, ?_, hne, hall, ?_⟩
      · rw [List.takeWhile_append_dropWhile, hs]
      · rw [readChars_decimal hne hall]
        split <;> rfl
  · exact .inl rfl

theorem gap_register (h : register s = .found n t) : ∃ s₁, Gap s s₁ ∧ Register s₁ n t := by
  refine ⟨skip s, gap_skip s, ?_⟩
  rcases register_cases s with habsent | ⟨ds, u, hs, hne, hds, hread⟩
  · rw [habsent] at h
    cases h
  · rw [hread] at h
    split at h
    · cases h
    · cases h
      rw [hs]
      exact .mk hne hds

theorem suffix_of_register (h : Register s n t) : t <:+ s := by
  cases h with
  | @mk ds t _ _ => exact (List.suffix_append ds t).trans (List.suffix_cons _ _)

theorem not_isDigit_of_register (h : Gap s t) (ht : Register t n u) :
    ∀ c ∈ s.head?, c.isDigit = false := by
  cases ht
  exact not_isDigit_of_gap h rfl

theorem isWordChar_before_register (h : Register s n t) :
    ∃ us c, s = us ++ c :: t ∧ isWordChar c = true := by
  cases h with
  | @mk ds t hne hds =>
    obtain ⟨ds, d, rfl⟩ := (List.eq_nil_or_concat' ds).resolve_left hne
    have hd := hds d (by simp)
    exact ⟨'r' :: ds, d, by simp, isWordChar_of_isHexDigit (isHexDigit_of_isDigit hd)⟩

theorem register_yields (hs : s <:+ text) : (register s).Yields text Writable := by
  rcases register_cases s with habsent | ⟨ds, t, hskip, -, hds, hread⟩
  · rw [habsent]
    exact .absent text Writable
  · rw [hread]
    have hrest : ds ++ t <:+ skip s := hskip ▸ List.suffix_cons 'r' _
    exact .decimal ((hrest.trans (skip_suffix s)).trans hs) hds

end Register

section Immediate
variable {text s t u : List Char} {n : Int}

theorem immediate_skip (s : List Char) : immediate (skip s) = immediate s := by
  unfold immediate
  rw [← skip_of_gap (gap_skip s)]

theorem immediate_of_gap (h : Gap s t) : immediate s = immediate t := by
  rw [← immediate_skip s, skip_of_gap h, immediate_skip]

theorem immediate_cons (cs : List Char) :
    immediate ('#' :: cs) =
      if (constantToken (skip cs)).1 = [] then .absent
      else number (readConstantChars (constantToken (skip cs)).1) (constantToken (skip cs)).2 := by
  rw [immediate, skip_cons_of_solid rfl (by decide)]
  rfl

theorem constantToken_marked {x : Char} {cs : List Char} (hx : x = 'x' ∨ x = 'X')
    (h : cs.takeWhile isHexDigit ≠ []) :
    constantToken ('0' :: x :: cs) =
      ('0' :: x :: cs.takeWhile isHexDigit, cs.dropWhile isHexDigit) := by
  rw [constantToken, if_pos ⟨hx, h⟩]

/-- A constant is a marker with hexadecimal digits, or else the decimal digits that come first. -/
theorem constantToken_cases (s : List Char) :
    (∃ x cs, s = '0' :: x :: cs ∧ (x = 'x' ∨ x = 'X') ∧ cs.takeWhile isHexDigit ≠ [] ∧
      constantToken s = ('0' :: x :: cs.takeWhile isHexDigit, cs.dropWhile isHexDigit)) ∨
    constantToken s = (s.takeWhile Char.isDigit, s.dropWhile Char.isDigit) := by
  unfold constantToken
  split
  · rename_i x cs
    split
    · rename_i h
      exact .inl ⟨x, cs, rfl, h.1, h.2, rfl⟩
    · exact .inr rfl
  · exact .inr rfl

/-- Digits are taken with those that follow them, unless they are the zero of a marker. -/
theorem constantToken_append {ds : List Char} (hne : ds ≠ []) (hds : ∀ c ∈ ds, c.isDigit = true)
    (t : List Char) :
    (∃ x cs, ds = ['0'] ∧ t = x :: cs ∧ (x = 'x' ∨ x = 'X') ∧ cs.takeWhile isHexDigit ≠ [] ∧
      constantToken (ds ++ t) = ('0' :: x :: cs.takeWhile isHexDigit, cs.dropWhile isHexDigit)) ∨
    constantToken (ds ++ t) = (ds ++ t.takeWhile Char.isDigit, t.dropWhile Char.isDigit) := by
  obtain ⟨d, ds, rfl⟩ := List.exists_cons_of_ne_nil hne
  rcases constantToken_cases (d :: ds ++ t) with ⟨x, cs, hcs, hx, hhex, htoken⟩ | htoken
  · cases ds with
    | nil =>
      simp only [List.cons_append, List.nil_append, List.cons.injEq] at hcs
      obtain ⟨rfl, rfl⟩ := hcs
      exact .inl ⟨x, cs, rfl, rfl, hx, hhex, htoken⟩
    | cons e ds =>
      have he := hds e (by simp)
      simp only [List.cons_append, List.cons.injEq] at hcs
      rw [hcs.2.1] at he
      rcases hx with rfl | rfl <;> cases he
  · rw [List.takeWhile_append_of_pos hds, List.dropWhile_append_of_pos hds] at htoken
    exact .inr htoken

theorem skip_cons_of_isHexDigit {c : Char} (h : isHexDigit c = true) (s : List Char) :
    skip (c :: s) = c :: s := by
  have hb := isHexDigit_iff.1 h
  have hne : ∀ d : Char, d.toNat < 48 → c ≠ d := by
    rintro d hd rfl
    omega
  refine skip_cons_of_solid ?_ (hne '/' (by decide))
  simp [isGap, hne ' ' (by decide), hne '\t' (by decide), hne '\n' (by decide),
    hne '\r' (by decide)]

theorem immediate_attains (h : Immediate s n t) (hs : ShortDigits s) :
    (immediate s).Attains isWordChar n t := by
  cases h with
  | @hexadecimal x ds s t hgap hx hne hds =>
    have htake : (ds ++ t).takeWhile isHexDigit = ds ++ t.takeWhile isHexDigit :=
      List.takeWhile_append_of_pos hds
    rw [immediate_cons, skip_of_gap hgap, skip_cons_of_isHexDigit rfl,
      constantToken_marked hx (by simp [htake, hne]), if_neg (by simp), htake,
      List.dropWhile_append_of_pos hds,
      readConstantChars_marked hx (by simp [hne]) (mem_append_takeWhile hds t)]
    have hspan := Scan.Attains.span isHexDigit
      (fun ds => (value 16 (ds.map digitValue) : Int)) ds t
    exact hspan.mono fun c => isWordChar_of_isHexDigit
  | @decimal ds s t hgap hne hds =>
    have hskip : skip s = ds ++ t := by
      obtain ⟨d, ds, rfl⟩ := List.exists_cons_of_ne_nil hne
      rw [skip_of_gap hgap]
      exact skip_cons_of_isHexDigit (isHexDigit_of_isDigit (hds d List.mem_cons_self)) (ds ++ t)
    rw [immediate_cons, hskip]
    rcases constantToken_append hne hds t with ⟨x, cs, rfl, rfl, hx, hhex, htoken⟩ | htoken
    · have hall : ∀ c ∈ cs.takeWhile isHexDigit, isHexDigit c = true :=
        fun c => List.mem_takeWhile_imp
      rw [htoken, if_neg (by simp), readConstantChars_marked hx hhex hall]
      refine ⟨_, _, rfl, (List.dropWhile_suffix _).trans (List.suffix_cons x cs), ?_⟩
      intro ht
      have hword : isWordChar x = false := ht x rfl
      rcases hx with rfl | rfl <;> cases hword
    · have hsuffix := (suffix_of_gap hgap).trans (List.suffix_cons '#' s)
      have hlen := (hs.of_suffix hsuffix).length_append_le hds
      rw [htoken, if_neg (by simp [hne]),
        readConstantChars_decimal (by simp [hne]) (mem_append_takeWhile hds t),
        if_neg (Nat.not_lt.2 hlen)]
      have hspan := Scan.Attains.span Char.isDigit
        (fun ds => (value 10 (ds.map digitValue) : Int)) ds t
      exact hspan.mono fun c hc => isWordChar_of_isHexDigit (isHexDigit_of_isDigit hc)

/-- Behind a gap, an immediate takes all hexadecimal digits after a marker, or all decimal ones. -/
theorem immediate_cases (s : List Char) :
    immediate s = .absent ∨
      (∃ cs x ds t, skip s = '#' :: cs ∧ skip cs = '0' :: x :: (ds ++ t) ∧ (x = 'x' ∨ x = 'X') ∧
        ds ≠ [] ∧ (∀ c ∈ ds, isHexDigit c = true) ∧
        immediate s = .found (value 16 (ds.map digitValue)) t) ∨
      ∃ cs ds t, skip s = '#' :: cs ∧ skip cs = ds ++ t ∧ ds ≠ [] ∧ (∀ c ∈ ds, c.isDigit = true) ∧
        immediate s = if digitLimit < ds.length then .refused (.tooManyDigits ds.length)
          else .found (value 10 (ds.map digitValue)) t := by
  unfold immediate
  split
  · rename_i cs hs
    dsimp only
    split
    · exact .inl rfl
    · rename_i hne
      rcases constantToken_cases (skip cs) with ⟨x, ds, hcs, hx, hds, htoken⟩ | htoken
      · have hall : ∀ c ∈ ds.takeWhile isHexDigit, isHexDigit c = true :=
          fun c => List.mem_takeWhile_imp
        refine .inr (.inl ⟨cs, x, _, ds.dropWhile isHexDigit, hs, ?_, hx, hds, hall, ?_⟩)
        · rw [List.takeWhile_append_dropWhile, hcs]
        · rw [htoken, readConstantChars_marked hx hds hall]
          rfl
      · rw [htoken] at hne ⊢
        have hall : ∀ c ∈ (skip cs).takeWhile Char.isDigit, c.isDigit = true :=
          fun c => List.mem_takeWhile_imp
        refine .inr (.inr ⟨cs, _, (skip cs).dropWhile Char.isDigit, hs, ?_, hne, hall, ?_⟩)
        · rw [List.takeWhile_append_dropWhile]
        · rw [readConstantChars_decimal hne hall]
          split <;> rfl
  · exact .inl rfl

theorem gap_immediate (h : immediate s = .found n t) : ∃ s₁, Gap s s₁ ∧ Immediate s₁ n t := by
  refine ⟨skip s, gap_skip s, ?_⟩
  rcases immediate_cases s with habsent | ⟨cs, x, ds, u, hs, hcs, hx, hne, hds, hread⟩ |
    ⟨cs, ds, u, hs, hcs, hne, hds, hread⟩
  · rw [habsent] at h
    cases h
  · rw [hread] at h
    cases h
    rw [hs]
    exact .hexadecimal (hcs ▸ gap_skip cs) hx hne hds
  · rw [hread] at h
    split at h
    · cases h
    · cases h
      rw [hs]
      exact .decimal (hcs ▸ gap_skip cs) hne hds

theorem suffix_of_immediate (h : Immediate s n t) : t <:+ s := by
  cases h with
  | @hexadecimal x ds s t hgap _ _ _ =>
    have hmarker : ds ++ t <:+ '0' :: x :: (ds ++ t) := ⟨['0', x], rfl⟩
    exact (((List.suffix_append ds t).trans hmarker).trans (suffix_of_gap hgap)).trans
      (List.suffix_cons _ _)
  | @decimal ds s t hgap _ _ =>
    exact ((List.suffix_append ds t).trans (suffix_of_gap hgap)).trans (List.suffix_cons _ _)

theorem not_isDigit_of_immediate (h : Gap s t) (ht : Immediate t n u) :
    ∀ c ∈ s.head?, c.isDigit = false := by
  cases ht <;> exact not_isDigit_of_gap h rfl

theorem isWordChar_before_immediate (h : Immediate s n t) :
    ∃ us c, s = us ++ c :: t ∧ isWordChar c = true := by
  cases h with
  | @hexadecimal x ds s t hgap hx hne hds =>
    obtain ⟨vs, rfl⟩ := suffix_of_gap hgap
    obtain ⟨ds, d, rfl⟩ := (List.eq_nil_or_concat' ds).resolve_left hne
    have hd := hds d (by simp)
    exact ⟨'#' :: (vs ++ '0' :: x :: ds), d, by simp, isWordChar_of_isHexDigit hd⟩
  | @decimal ds s t hgap hne hds =>
    obtain ⟨vs, rfl⟩ := suffix_of_gap hgap
    obtain ⟨ds, d, rfl⟩ := (List.eq_nil_or_concat' ds).resolve_left hne
    have hd := hds d (by simp)
    exact ⟨'#' :: (vs ++ ds), d, by simp, isWordChar_of_isHexDigit (isHexDigit_of_isDigit hd)⟩

theorem immediate_yields (hs : s <:+ text) :
    (immediate s).Yields text fun n => Writable n ∨ Marked text n := by
  have hplace : ∀ cs, skip s = '#' :: cs → skip cs <:+ text := by
    intro cs hskip
    have hcs : cs <:+ skip s := hskip ▸ List.suffix_cons '#' cs
    exact ((skip_suffix cs).trans hcs).trans
      ((skip_suffix s).trans hs)
  rcases immediate_cases s with habsent | ⟨cs, x, ds, t, hskip, hcs, hx, -, hds, hread⟩ |
    ⟨cs, ds, t, hskip, hcs, -, hds, hread⟩
  · rw [habsent]
    exact .absent text _
  · rw [hread]
    have hplace := hcs ▸ hplace cs hskip
    have htoken : '0' :: x :: ds <:+: text :=
      (List.prefix_append ('0' :: x :: ds) t).isInfix.trans hplace.isInfix
    exact .found ((List.suffix_append ('0' :: x :: ds) t).trans hplace)
      (.inr ⟨x, ds, htoken, hx, hds, rfl⟩)
  · rw [hread]
    exact (Scan.Yields.decimal (hcs ▸ hplace cs hskip) hds).mono fun _ => .inl

end Immediate
end RegisterMachine.Assembly
