import RegisterMachine.Proofs.Tokens
import RegisterMachine.Assembly

/-! # The commands of a source are the ones of the grammar

A source is read from the front without ever turning back, and yet nothing that the grammar allows
is lost. A number could only be left earlier than a scanner leaves it where a word character
follows, and no gap, operand or keyword begins there.
-/
namespace RegisterMachine.Assembly
open Grammar Numeral

section Keyword
variable {before rest after s s' : List Char} {word : List Char} {op op' : Operation}

theorem before?_append (before rest : List Char) :
    before? (before ++ rest) rest = before.getLast? := by
  simp [before?]

theorem lineOf_append (before rest : List Char) :
    lineOf (before ++ rest) rest = 1 + before.count '\n' := by
  simp [lineOf]

theorem lineOf_le (source rest : List Char) :
    1 ≤ lineOf source rest ∧ lineOf source rest ≤ 1 + source.count '\n' := by
  rw [lineOf]
  omega

theorem isBoundary_iff {c : Option Char} :
    isBoundary c = true ↔ ∀ d ∈ c, isWordChar d = false := by
  cases c <;> simp [isBoundary]

theorem keyword?_eq_some_iff : keyword? (before ++ rest) word rest = some after ↔
    rest = word ++ after ∧ (∀ c ∈ before.getLast?, isWordChar c = false) ∧
      ∀ c ∈ after.head?, isWordChar c = false := by
  unfold keyword?
  rw [before?_append]
  constructor
  · intro h
    split at h
    · rename_i after' hword
      split at h
      · rename_i hb
        cases h
        rw [Bool.and_eq_true, isBoundary_iff, isBoundary_iff] at hb
        exact ⟨afterWord?_eq_some_iff.1 hword, hb⟩
      · cases h
    · cases h
  · rintro ⟨hword, hb⟩
    simp only [afterWord?_eq_some_iff.2 hword]
    rw [← isBoundary_iff, ← isBoundary_iff, ← Bool.and_eq_true] at hb
    rw [if_pos hb]

theorem mnemonic_append_inj (h : op.mnemonic.toList ++ s = op'.mnemonic.toList ++ s') :
    op = op' ∧ s = s' := by
  cases op <;> cases op' <;> simp [Operation.mnemonic] at h ⊢ <;> exact h

theorem operation?_eq_some_iff : operation? (before ++ rest) rest = some (op, after) ↔
    rest = op.mnemonic.toList ++ after ∧ (∀ c ∈ before.getLast?, isWordChar c = false) ∧
      ∀ c ∈ after.head?, isWordChar c = false := by
  constructor
  · intro h
    obtain ⟨o, -, ho⟩ := List.exists_of_findSome?_eq_some h
    obtain ⟨a, ha, he⟩ := Option.map_eq_some_iff.1 ho
    cases he
    exact keyword?_eq_some_iff.1 ha
  · intro h
    have hmem : op ∈ Operation.all := by cases op <;> decide
    have hword := keyword?_eq_some_iff.2 h
    cases ho : operation? (before ++ rest) rest with
    | none =>
      have hnone := List.findSome?_eq_none_iff.1 ho op hmem
      rw [hword] at hnone
      cases hnone
    | some found =>
      obtain ⟨op', after'⟩ := found
      have hrest := operation?_eq_some ho
      rw [h.1] at hrest
      obtain ⟨rfl, rfl⟩ := mnemonic_append_inj hrest
      rfl

theorem skip_mnemonic (op : Operation) (s : List Char) :
    skip (op.mnemonic.toList ++ s) = op.mnemonic.toList ++ s := by
  cases op <;> exact skip_cons_of_solid rfl (by decide)

end Keyword

def arity : Operation → Nat
  | .halt => 0
  | .loadi => 2
  | .add => 3

section Operands
variable {text s t : List Char} {op : Operation} {ns : List Int}

theorem operands_yields (op : Operation) (hs : s <:+ text) : (operands op s).Yields text
    fun ns => ns.length = arity op ∧ ∀ n ∈ ns, Writable n ∨ Marked text n := by
  cases op with
  | halt => exact .found hs ⟨rfl, fun n hn => absurd hn List.not_mem_nil⟩
  | loadi =>
    apply (register_yields hs).bind
    intro target s₁ h₁ htarget
    apply (immediate_yields h₁).bind
    intro imm s₂ h₂ himm
    exact .found h₂ ⟨rfl, by simp [htarget, himm]⟩
  | add =>
    apply (register_yields hs).bind
    intro target s₁ h₁ htarget
    apply (register_yields h₁).bind
    intro left s₂ h₂ hleft
    apply (register_yields h₂).bind
    intro right s₃ h₃ hright
    exact .found h₃ ⟨rfl, by simp [htarget, hleft, hright]⟩

theorem operands_sound (h : operands op s = .found ns t) : Operands op s ns t := by
  cases op with
  | halt =>
    cases h
    exact .halt s
  | loadi =>
    obtain ⟨target, s₂, h₁, h⟩ := Scan.bind_found h
    obtain ⟨imm, s₄, h₂, h⟩ := Scan.bind_found h
    cases h
    obtain ⟨s₁, hg₁, hr₁⟩ := gap_register h₁
    obtain ⟨s₃, hg₂, hi₂⟩ := gap_immediate h₂
    exact .loadi hg₁ hr₁ hg₂ hi₂
  | add =>
    obtain ⟨target, s₂, h₁, h⟩ := Scan.bind_found h
    obtain ⟨left, s₄, h₂, h⟩ := Scan.bind_found h
    obtain ⟨right, s₆, h₃, h⟩ := Scan.bind_found h
    cases h
    obtain ⟨s₁, hg₁, hr₁⟩ := gap_register h₁
    obtain ⟨s₃, hg₂, hr₂⟩ := gap_register h₂
    obtain ⟨s₅, hg₃, hr₃⟩ := gap_register h₃
    exact .add hg₁ hr₁ hg₂ hr₂ hg₃ hr₃

theorem operands_attains (h : Operands op s ns t) (hs : ShortDigits s) :
    (operands op s).Attains isWordChar ns t := by
  cases h with
  | halt s => exact ⟨[], s, rfl, List.suffix_refl s, fun _ => ⟨rfl, rfl⟩⟩
  | @loadi s s₁ s₂ s₃ t target imm hg₁ hr₁ hg₂ hi₂ =>
    have hs₁ := hs.of_suffix (suffix_of_gap hg₁)
    have hs₃ := (hs₁.of_suffix (suffix_of_register hr₁)).of_suffix (suffix_of_gap hg₂)
    have ha₁ := register_of_gap hg₁ ▸ register_attains hr₁ hs₁
    have ha₂ := immediate_of_gap hg₂ ▸ immediate_attains hi₂ hs₃
    exact ha₁.bind (not_isDigit_of_immediate hg₂ hi₂) ha₂.map
  | @add s s₁ s₂ s₃ s₄ s₅ t target left right hg₁ hr₁ hg₂ hr₂ hg₃ hr₃ =>
    have hs₁ := hs.of_suffix (suffix_of_gap hg₁)
    have hs₃ := (hs₁.of_suffix (suffix_of_register hr₁)).of_suffix (suffix_of_gap hg₂)
    have hs₅ := (hs₃.of_suffix (suffix_of_register hr₂)).of_suffix (suffix_of_gap hg₃)
    have ha₁ := register_of_gap hg₁ ▸ register_attains hr₁ hs₁
    have ha₂ := register_of_gap hg₂ ▸ register_attains hr₂ hs₃
    have ha₃ := register_of_gap hg₃ ▸ register_attains hr₃ hs₅
    apply ha₁.bind (not_isDigit_of_register hg₂ hr₂)
    apply ha₂.bind (not_isDigit_of_register hg₃ hr₃)
    apply ha₃.map.mono
    intro c hc
    exact isWordChar_of_isHexDigit (isHexDigit_of_isDigit hc)

theorem suffix_of_operands (h : Operands op s ns t) : t <:+ s := by
  cases h with
  | halt s => exact List.suffix_refl s
  | loadi hg₁ hr₁ hg₂ hi₂ =>
    have h₁ := (suffix_of_register hr₁).trans (suffix_of_gap hg₁)
    have h₂ := (suffix_of_immediate hi₂).trans (suffix_of_gap hg₂)
    exact h₂.trans h₁
  | add hg₁ hr₁ hg₂ hr₂ hg₃ hr₃ =>
    have h₁ := (suffix_of_register hr₁).trans (suffix_of_gap hg₁)
    have h₂ := (suffix_of_register hr₂).trans (suffix_of_gap hg₂)
    have h₃ := (suffix_of_register hr₃).trans (suffix_of_gap hg₃)
    exact h₃.trans (h₂.trans h₁)

/-- The operands of all but a halt end in a word character. -/
theorem isWordChar_before (h : Operands op s ns t) (hop : op ≠ .halt) :
    ∃ us c, s = us ++ c :: t ∧ isWordChar c = true := by
  cases h with
  | halt => exact absurd rfl hop
  | @loadi s s₁ s₂ s₃ t target imm hg₁ hr₁ hg₂ hi₂ =>
    obtain ⟨us, c, rfl, hc⟩ := isWordChar_before_immediate hi₂
    obtain ⟨vs, rfl⟩ := ((suffix_of_gap hg₂).trans (suffix_of_register hr₁)).trans
      (suffix_of_gap hg₁)
    exact ⟨vs ++ us, c, by simp, hc⟩
  | @add s s₁ s₂ s₃ s₄ s₅ t target left right hg₁ hr₁ hg₂ hr₂ hg₃ hr₃ =>
    obtain ⟨us, c, rfl, hc⟩ := isWordChar_before_register hr₃
    obtain ⟨vs, rfl⟩ := ((((suffix_of_gap hg₃).trans (suffix_of_register hr₂)).trans
      (suffix_of_gap hg₂)).trans (suffix_of_register hr₁)).trans (suffix_of_gap hg₁)
    exact ⟨vs ++ us, c, by simp, hc⟩

end Operands

/-- A command with all its operands, which can be written or stand in the text in base sixteen, on
a line of the source. -/
structure Command.Complete (source text : List Char) (c : Command) : Prop where
  length_operands : c.operands.length = arity c.operation
  operands : ∀ n ∈ c.operands, Writable n ∨ Marked text n
  line : 1 ≤ c.line ∧ c.line ≤ 1 + source.count '\n'

section Command
variable {text source s t u : List Char} {c : Command}

theorem command_yields (source : List Char) (hs : s <:+ text) :
    (command source s).Yields text (Command.Complete source text) := by
  unfold command
  split
  · rename_i op after ho
    have hafter : after <:+ s := ⟨op.mnemonic.toList, (operation?_eq_some ho).symm⟩
    apply (operands_yields op (hafter.trans hs)).bind
    intro ns t ht hns
    exact .found ht ⟨hns.1, hns.2, lineOf_le source s⟩
  · exact .absent text _

theorem command_within (source : List Char) (hs : ShortDigits s) :
    (command source s).Within s :=
  (command_yields source (List.suffix_refl s)).within hs

theorem command_sound (hsource : s <:+ source) (h : command source s = .found c t) :
    Reads source s c t := by
  obtain ⟨before, rfl⟩ := hsource
  unfold command at h
  split at h
  · rename_i op after ho
    obtain ⟨ns, u, hns, h⟩ := Scan.bind_found h
    cases h
    obtain ⟨rfl, hbefore, hafter⟩ := operation?_eq_some_iff.1 ho
    rw [lineOf_append]
    exact .mk rfl hbefore hafter (operands_sound hns)
  · cases h

theorem command_attains (h : Reads source s c t) (hs : ShortDigits s) :
    (command source s).Attains isWordChar c t := by
  cases h with
  | @mk before s t op ns hsource hbefore hafter hops =>
    subst hsource
    have ho : operation? (before ++ (op.mnemonic.toList ++ s)) (op.mnemonic.toList ++ s) =
        some (op, s) := operation?_eq_some_iff.2 ⟨rfl, hbefore, hafter⟩
    simp only [command, ho, lineOf_append]
    exact (operands_attains hops (hs.of_suffix (List.suffix_append _ s))).map

theorem suffix_of_reads (h : Reads source s c t) : t <:+ s := by
  cases h with
  | mk _ _ _ hops => exact (suffix_of_operands hops).trans (List.suffix_append _ _)

/-- Where a word character follows a command, the command itself ends in one. -/
theorem isWordChar_before_of_reads {d : Char} (h : Reads source s c (d :: t))
    (hd : isWordChar d = true) :
    ∃ before e, source = before ++ e :: d :: t ∧ isWordChar e = true := by
  cases h with
  | @mk before s _ op ns hsource hbefore hafter hops =>
    have hop : op ≠ .halt := by
      rintro rfl
      cases hops
      rw [hafter d rfl] at hd
      cases hd
    obtain ⟨us, e, rfl, he⟩ := isWordChar_before hops hop
    exact ⟨before ++ (op.mnemonic.toList ++ us), e, by simp [hsource], he⟩

/-- Where a word character follows a command, none begins, because one stands before it too. -/
theorem not_reads_of_isWordChar {d : Char} (h : Reads source s c (d :: t))
    (hd : isWordChar d = true) {c' : Command} : ¬ Reads source (d :: t) c' u := by
  obtain ⟨before, e, hsource, he⟩ := isWordChar_before_of_reads h hd
  intro h'
  generalize hs' : d :: t = s' at h'
  cases h' with
  | @mk before' s' _ op' ns' hsource' hbefore' hafter' hops' =>
    have hb : before' = before ++ [e] := by
      rw [hsource', ← hs'] at hsource
      exact List.append_cancel_right (hsource.trans (by simp))
    rw [hbefore' e (by simp [hb])] at he
    cases he

end Command

section Commands
variable {source s t u left : List Char} {c : Command} {cs : List Command}

theorem commandsFrom_of_found (h : command source (skip s) = .found c u) :
    commandsFrom source s = (commandsFrom source u).map fun r => (c :: r.1, r.2) := by
  rw [commandsFrom]
  split
  · rename_i c' u' h'
    rw [h] at h'
    cases h'
    cases commandsFrom source u <;> rfl
  · rename_i h'
    rw [h] at h'
    cases h'
  · rename_i h'
    rw [h] at h'
    cases h'

theorem commandsFrom_of_absent (h : command source (skip s) = .absent) :
    commandsFrom source s = .ok ([], skip s) := by
  rw [commandsFrom]
  split
  · rename_i h'
    rw [h] at h'
    cases h'
  · rfl
  · rename_i h'
    rw [h] at h'
    cases h'

theorem commandsFrom_of_refused {e : LiteralError} (h : command source (skip s) = .refused e) :
    commandsFrom source s = .error e := by
  rw [commandsFrom]
  split
  · rename_i h'
    rw [h] at h'
    cases h'
  · rename_i h'
    rw [h] at h'
    cases h'
  · rename_i h'
    rw [h] at h'
    cases h'
    rfl

theorem commandsFrom_of_gap (h : Gap s t) : commandsFrom source s = commandsFrom source t := by
  rw [commandsFrom.eq_def source s, commandsFrom.eq_def source t, skip_of_gap h]

theorem commandsFrom_sound (hsource : s <:+ source)
    (h : commandsFrom source s = .ok (cs, left)) : Commands source s cs left := by
  fun_induction commandsFrom source s generalizing cs with
  | case1 s c u hc cs' left' hrest ih =>
    cases h
    have hread := command_sound ((skip_suffix s).trans hsource) hc
    have hu := (suffix_of_reads hread).trans ((skip_suffix s).trans hsource)
    exact .more (gap_skip s) hread (ih hu hrest)
  | case2 => cases h
  | case3 s =>
    cases h
    exact .done (gap_skip s)
  | case4 => cases h

/-- Without too long a number the commands from any place on come to an end. -/
theorem commandsFrom_ok (source : List Char) (hs : ShortDigits s) :
    ∃ cs left, commandsFrom source s = .ok (cs, left) ∧ left <:+ s := by
  have hskip := skip_suffix s
  fun_induction commandsFrom source s with
  | case1 s c u hc cs left hrest ih =>
    have hu := ((command_within source (hs.of_suffix hskip)).2 c u hc).trans hskip
    obtain ⟨cs', left', h, hleft⟩ := ih (hs.of_suffix hu) (skip_suffix u)
    rw [hrest] at h
    cases h
    exact ⟨_, _, rfl, hleft.trans hu⟩
  | case2 s c u hc e hrest ih =>
    have hu := ((command_within source (hs.of_suffix hskip)).2 c u hc).trans hskip
    obtain ⟨cs', left', h, -⟩ := ih (hs.of_suffix hu) (skip_suffix u)
    rw [hrest] at h
    cases h
  | case3 s => exact ⟨_, _, rfl, hskip⟩
  | case4 s e hc => exact absurd hc ((command_within source (hs.of_suffix hskip)).1 e)

/-- Neither a gap nor a command begins with a word character that follows a command. -/
theorem eq_of_commands {d : Char} {v : List Char} (hread : Reads source s c (d :: u))
    (hd : isWordChar d = true) (h : Commands source (d :: u) cs v) : v = d :: u := by
  have hgap : isGap d = false ∧ d ≠ '/' := by
    constructor
    · cases hb : isGap d with
      | false => rfl
      | true =>
        have hmem := mem_blanks_iff.2 hb
        simp only [List.mem_cons, List.not_mem_nil, or_false] at hmem
        rcases hmem with rfl | rfl | rfl | rfl <;> cases hd
    · rintro rfl
      cases hd
  cases h with
  | done hg => exact eq_of_gap hg hgap.1 hgap.2
  | more hg hread' _ =>
    rw [eq_of_gap hg hgap.1 hgap.2] at hread'
    exact absurd hread' (not_reads_of_isWordChar hread hd)

theorem skip_of_reads (h : Reads source s c t) : skip s = s := by
  cases h
  exact skip_mnemonic _ _

theorem commandsFrom_of_reads {c' : Command} {u' : List Char} (hread : Reads source s c u)
    (h : command source s = .found c' u') :
    commandsFrom source s = (commandsFrom source u').map fun r => (c' :: r.1, r.2) :=
  commandsFrom_of_found (by rwa [skip_of_reads hread])

theorem commandsFrom_nil (source : List Char) : commandsFrom source [] = .ok ([], []) :=
  commandsFrom_of_absent rfl

/-- The commands of the grammar are found, or else the grammar stops before the end of the source
and the reader stops at the same place or after it. -/
theorem commandsFrom_attains (h : Commands source s cs t) (hs : ShortDigits s) :
    ∃ cs' left, commandsFrom source s = .ok (cs', left) ∧ left <:+ t ∧ (t = [] → cs' = cs) := by
  induction h with
  | @done s t hgap =>
    rw [commandsFrom_of_gap hgap]
    obtain ⟨cs', left, h, hleft⟩ := commandsFrom_ok source (hs.of_suffix (suffix_of_gap hgap))
    refine ⟨cs', left, h, hleft, ?_⟩
    rintro rfl
    rw [commandsFrom_nil] at h
    cases h
    rfl
  | @more s t u v c cs hgap hread hrest ih =>
    have ht := hs.of_suffix (suffix_of_gap hgap)
    have hu := ht.of_suffix (suffix_of_reads hread)
    obtain ⟨c', u', hc, hu', hexact⟩ := command_attains hread ht
    rw [commandsFrom_of_gap hgap, commandsFrom_of_reads hread hc]
    by_cases hword : ∀ d ∈ u.head?, isWordChar d = false
    · obtain ⟨rfl, rfl⟩ := hexact hword
      obtain ⟨cs', left, hcs, hleft, hnil⟩ := ih hu
      rw [hcs]
      exact ⟨c' :: cs', left, rfl, hleft, fun hv => by rw [hnil hv]⟩
    · obtain ⟨cs', left, hcs, hleft⟩ := commandsFrom_ok source (hu.of_suffix hu')
      cases u with
      | nil => exact absurd (fun d hd => by cases hd) hword
      | cons d u =>
        have hd : isWordChar d = true := by simpa using hword
        have hv := eq_of_commands hread hd hrest
        rw [hcs, hv]
        exact ⟨c' :: cs', left, rfl, hleft.trans hu', fun hnil => by cases hnil⟩

theorem parse_eq_ok_iff {source : List Char} :
    parse source = .ok cs ↔ commandsFrom source source = .ok (cs, []) := by
  unfold parse
  constructor
  · intro h
    split at h
    · rename_i hcs
      cases h
      exact hcs
    · cases h
    · cases h
  · intro h
    rw [h]

/-- A source is read as commands if and only if the grammar has it as these commands, and it has no
source as two different lists of them. -/
theorem parse_eq_ok_iff_derives (source : List Char) (h : ShortDigits source) :
    (∀ cs, parse source = .ok cs ↔ Derives source cs) ∧
      ∀ cs cs', Derives source cs → Derives source cs' → cs = cs' := by
  have hread : ∀ cs, Derives source cs → commandsFrom source source = .ok (cs, []) := by
    intro cs hcs
    obtain ⟨cs', left, hfrom, hleft, hnil⟩ := commandsFrom_attains hcs h
    rw [hfrom, hnil rfl, List.suffix_nil.1 hleft]
  constructor
  · intro cs
    rw [parse_eq_ok_iff]
    exact ⟨commandsFrom_sound (List.suffix_refl source), hread cs⟩
  · intro cs cs' hcs hcs'
    have heq := (hread cs hcs).symm.trans (hread cs' hcs')
    cases heq
    rfl

theorem derives_loadi_halt :
    ShortDigits "loadi r1 # // hex\n0x2A halt".toList ∧
      Derives "loadi r1 # // hex\n0x2A halt".toList [⟨.loadi, [1, 42], 1⟩, ⟨.halt, [], 2⟩] := by
  have h : ShortDigits "loadi r1 # // hex\n0x2A halt".toList := .of_length (by decide)
  refine ⟨h, ((parse_eq_ok_iff_derives _ h).1 _).1 (parse_eq_ok_iff.2 ?_)⟩
  refine (commandsFrom_of_found (c := ⟨.loadi, [1, 42], 1⟩) rfl).trans ?_
  rw [commandsFrom_of_found (c := ⟨.halt, [], 2⟩) rfl, commandsFrom_nil]
  rfl

end Commands
end RegisterMachine.Assembly
