import RegisterMachine.Proofs.Joining

/-! # Where reading stops

A source that cannot be read as a whole is blamed on the line where its longest beginning of
complete commands and gaps ends. An incomplete command does not belong to that beginning, not even
its keyword, so the line is the one of the keyword, however far the command reaches.
-/
namespace RegisterMachine.Assembly
open Grammar Numeral

namespace Grammar

def Complete (source before rest : List Char) : Prop :=
  source = before ++ rest ∧ ∃ cs, Commands source source cs rest

/-- No longer beginning of the source is complete commands and gaps. -/
structure Furthest (source before rest : List Char) : Prop where
  complete : Complete source before rest
  longest : ∀ before' rest', Complete source before' rest' → before'.length ≤ before.length

/-- Neither a gap nor a command begins at the place, which is not the end of the source. -/
structure Stuck (source rest : List Char) : Prop where
  ne_nil : rest ≠ []
  gap : ∀ t, Gap rest t → t = rest
  command : ∀ c t, ¬ Reads source rest c t

end Grammar

section Stop
variable {source s left : List Char} {cs : List Command}

theorem skip_skip (s : List Char) : skip (skip s) = skip s := (skip_of_gap (gap_skip s)).symm

/-- Where reading stops, nothing more can be passed over and no further command is found. -/
theorem commandsFrom_left (h : commandsFrom source s = .ok (cs, left)) :
    skip left = left ∧ command source left = .absent := by
  fun_induction commandsFrom source s generalizing cs with
  | case1 s c u hc cs' left' hrest ih =>
    cases h
    exact ih hrest
  | case2 => cases h
  | case3 s hc =>
    cases h
    exact ⟨skip_skip s, hc⟩
  | case4 => cases h

theorem eq_of_gap_of_skip {t : List Char} (hskip : skip s = s) (h : Gap s t) : t = s := by
  have hst : s <:+ t := by
    rw [← hskip, skip_of_gap h]
    exact skip_suffix t
  exact (suffix_of_gap h).eq_of_length_le hst.length_le

theorem stuck_of_commandsFrom (hshort : ShortDigits s)
    (h : commandsFrom source s = .ok (cs, left)) (hleft : left <:+ s) (hne : left ≠ []) :
    Stuck source left := by
  obtain ⟨hskip, habsent⟩ := commandsFrom_left h
  refine ⟨hne, fun t => eq_of_gap_of_skip hskip, ?_⟩
  intro c t hread
  obtain ⟨c', t', hfound, -⟩ := command_attains hread (hshort.of_suffix hleft)
  cases hfound.symm.trans habsent

/-- The reader gets at least as far as any commands and gaps of the grammar. -/
theorem furthest_of_commandsFrom (hshort : ShortDigits source) {before : List Char}
    (hsource : source = before ++ left) (h : commandsFrom source source = .ok (cs, left)) :
    Furthest source before left := by
  refine ⟨⟨hsource, cs, commandsFrom_sound (List.suffix_refl source) h⟩, ?_⟩
  rintro before' rest' ⟨hsource', cs', hcs'⟩
  obtain ⟨cs'', left', hfrom, hleft', -⟩ := commandsFrom_attains hcs' hshort
  cases h.symm.trans hfrom
  have hlength := hleft'.length_le
  have hsame := congrArg List.length (hsource'.symm.trans hsource)
  simp only [List.length_append] at hsame
  omega

end Stop

section Keyword
variable {source s v before : List Char} {cs : List Command} {op : Operation}

/-- The reader passes every place that commands and gaps of the grammar lead to, unless a word goes
on there. -/
theorem commandsFrom_of_commands (hshort : ShortDigits s) (h : Commands source s cs v)
    (hv : ∀ before, source = before ++ v → ∀ c ∈ before.getLast?, isWordChar c = false) :
    commandsFrom source s = (commandsFrom source v).map fun r => (cs ++ r.1, r.2) := by
  induction h with
  | @done s v hgap =>
    rw [commandsFrom_of_gap hgap]
    cases commandsFrom source v <;> rfl
  | @more s t u v c cs hgap hread hrest ih =>
    have ht := hshort.of_suffix (suffix_of_gap hgap)
    obtain ⟨c', u', hc, -, hexact⟩ := command_attains hread ht
    have hhead : ∀ d ∈ u.head?, isWordChar d = false := by
      by_contra hword
      cases u with
      | nil => exact hword fun d hd => by cases hd
      | cons d u =>
        have hd : isWordChar d = true := by simpa using hword
        obtain ⟨before, e, hsource, he⟩ := isWordChar_before_of_reads hread hd
        have hv' := eq_of_commands hread hd hrest
        rw [hv (before ++ [e]) (by simp [hsource, hv']) e (by simp)] at he
        cases he
    obtain ⟨rfl, rfl⟩ := hexact hhead
    rw [commandsFrom_of_gap hgap, commandsFrom_of_reads hread hc,
      ih (ht.of_suffix (suffix_of_reads hread)) hv]
    cases commandsFrom source v <;> rfl

theorem commandsFrom_of_stuck {rest : List Char} (hshort : ShortDigits rest)
    (hsource : rest <:+ source) (h : Stuck source rest) :
    commandsFrom source rest = .ok ([], rest) := by
  have hskip := h.gap _ (gap_skip rest)
  have habsent : command source rest = .absent := by
    cases hc : command source rest with
    | absent => rfl
    | refused e => exact absurd hc ((command_within source hshort).1 e)
    | found c t => exact absurd (command_sound hsource hc) (h.command c t)
  rw [commandsFrom_of_absent (by rwa [hskip]), hskip]

/-- Reading stops at any place that commands and gaps lead to and where neither begins. -/
theorem eq_of_stuck {rest rest' : List Char} (hshort : ShortDigits source)
    (hfrom : commandsFrom source source = .ok (cs, rest)) (h : Complete source before rest')
    (hbefore : ∀ c ∈ before.getLast?, isWordChar c = false) (hstuck : Stuck source rest') :
    rest' = rest := by
  obtain ⟨hsource, cs', hcs'⟩ := h
  have hsuffix : rest' <:+ source := ⟨before, hsource.symm⟩
  have hall := commandsFrom_of_commands hshort hcs' fun before' hsource' => by
    rw [List.append_cancel_right (hsource'.symm.trans hsource)]
    exact hbefore
  rw [hfrom, commandsFrom_of_stuck (hshort.of_suffix hsuffix) hsuffix hstuck] at hall
  cases hall
  rfl

/-- No command begins with a keyword that its operands do not follow. -/
theorem stuck_of_incomplete (source : List Char) (h : ∀ ns t, ¬ Operands op s ns t) :
    Stuck source (op.mnemonic.toList ++ s) := by
  refine ⟨?_, fun t => eq_of_gap_of_skip (skip_mnemonic op s), ?_⟩
  · cases op <;> exact List.cons_ne_nil _ _
  · intro c t hread
    generalize hplace : op.mnemonic.toList ++ s = place at hread
    cases hread with
    | @mk before' s' t op' ns _ _ _ hops =>
      obtain ⟨rfl, rfl⟩ := mnemonic_append_inj hplace
      exact h _ _ hops

end Keyword

/-- A source without too long a run of digits that cannot be read is blamed on the line where its
longest beginning of complete commands and gaps ends, and nothing is issued. Neither a gap nor a
command begins there. If this is so at another place behind complete commands and gaps, then it is
the same place, unless a word goes on across it. A keyword that its operands do not follow is such a
place. -/
theorem ofSource_trailing (source : String) (hshort : ShortDigits source.toList)
    (hfail : ∀ cs, parse source.toList ≠ .ok cs) :
    (∃ before rest, Furthest source.toList before rest ∧ Stuck source.toList rest ∧
      ofSource source = ⟨[], .error (.trailing (1 + before.count '\n'))⟩ ∧
      (AssemblyError.trailing (1 + before.count '\n')).title = "AsmError" ∧
      (AssemblyError.trailing (1 + before.count '\n')).message =
        "line " ++ decimal (1 + before.count '\n' : Nat) ++ ": Expected end of text" ∧
      ∀ before' rest', Complete source.toList before' rest' →
        (∀ c ∈ before'.getLast?, isWordChar c = false) → Stuck source.toList rest' →
        before' = before ∧ rest' = rest) ∧
    ∀ op s, (∀ ns t, ¬ Operands op s ns t) → Stuck source.toList (op.mnemonic.toList ++ s) := by
  refine ⟨?_, fun op s => stuck_of_incomplete source.toList⟩
  obtain ⟨cs, rest, hfrom, before, hsource⟩ := commandsFrom_ok source.toList hshort
  have hne : rest ≠ [] := by
    rintro rfl
    exact hfail cs (parse_eq_ok_iff.2 hfrom)
  have hparse : parse source.toList = .error (.trailing (1 + before.count '\n')) := by
    obtain ⟨c, rest', rfl⟩ := List.exists_cons_of_ne_nil hne
    rw [parse, hfrom, ← lineOf_append before, hsource]
  refine ⟨before, rest, furthest_of_commandsFrom hshort hsource.symm hfrom,
    stuck_of_commandsFrom hshort hfrom ⟨before, hsource⟩ hne, ofSource_of_parse_error hparse, rfl,
    AssemblyError.message_trailing _, ?_⟩
  intro before' rest' hcomplete hbefore hstuck
  obtain rfl := eq_of_stuck hshort hfrom hcomplete hbefore hstuck
  exact ⟨List.append_cancel_right (hcomplete.1.symm.trans hsource.symm), rfl⟩

/-- A command without its immediate, which is blamed on the line of its keyword. -/
theorem ofSource_trailing_loadi :
    ShortDigits "halt // x\nloadi r1\n# x".toList ∧
      (∀ cs, parse "halt // x\nloadi r1\n# x".toList ≠ .ok cs) ∧
      ofSource "halt // x\nloadi r1\n# x" = ⟨[], .error (.trailing 2)⟩ := by
  have hshort : ShortDigits "halt // x\nloadi r1\n# x".toList := .of_length (by decide)
  have hfrom : commandsFrom "halt // x\nloadi r1\n# x".toList "halt // x\nloadi r1\n# x".toList =
      .ok ([⟨.halt, [], 1⟩], "loadi r1\n# x".toList) := by
    rw [commandsFrom_of_found (c := ⟨.halt, [], 1⟩) rfl, commandsFrom_of_absent rfl]
    rfl
  have hfail : ∀ cs, parse "halt // x\nloadi r1\n# x".toList ≠ .ok cs := by
    intro cs h
    cases hfrom.symm.trans (parse_eq_ok_iff.1 h)
  have hcomplete : Complete "halt // x\nloadi r1\n# x".toList "halt // x\n".toList
      (Operation.loadi.mnemonic.toList ++ " r1\n# x".toList) :=
    ⟨rfl, _, commandsFrom_sound (List.suffix_refl _) hfrom⟩
  have hops : ∀ ns t, ¬ Operands .loadi " r1\n# x".toList ns t := by
    intro ns t h
    obtain ⟨_, _, hfound, -⟩ := operands_attains h (.of_length (by decide))
    cases hfound
  have hbefore : ∀ c ∈ "halt // x\n".toList.getLast?, isWordChar c = false := by
    intro c hc
    cases hc
    rfl
  obtain ⟨⟨before, rest, -, -, hresult, -, -, hplace⟩, hkeyword⟩ :=
    ofSource_trailing _ hshort hfail
  obtain ⟨rfl, -⟩ := hplace _ _ hcomplete hbefore (hkeyword _ _ hops)
  exact ⟨hshort, hfail, hresult⟩

end RegisterMachine.Assembly
