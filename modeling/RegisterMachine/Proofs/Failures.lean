import RegisterMachine.Proofs.Issuing

/-! # How assembling can fail

The error of a source blames one of its lines, unless a number stands in the way: one of too many
decimal digits is refused where it is read, and one that is too long to be written cannot be named
in a message. A command always has the operands of its operation, and what was checked about them is
enough to encode it, so no other error ever comes of a source.
-/
namespace RegisterMachine
open Numeral

theorem Except.bind_eq_error_iff {ε α β : Type} {x : Except ε α} {f : α → Except ε β} {e : ε} :
    x.bind f = .error e ↔ x = .error e ∨ ∃ a, x = .ok a ∧ f a = .error e := by
  cases x <;> simp [Except.bind]

namespace AssemblyError

/-- The line that the message begins with. The errors of numbers that are too long have none, nor
have those of operands that no source gives to a command. -/
def line? : AssemblyError → Option Int
  | trailing line => some line
  | noRegister line _ => some line
  | immediate line _ => some line
  | unsupported line _ => some line
  | _ => none

theorem exists_message_eq {e : AssemblyError} {n : Int} (h : e.line? = some n) :
    ∃ text, e.message = atLine n text := by
  cases e <;> cases h <;> exact ⟨_, rfl⟩

theorem title_eq_iff {e : AssemblyError} : e.title = "AsmError" ↔ ∃ n, e.line? = some n := by
  cases e <;> simp [title, line?]

end AssemblyError

namespace Assembly

section Commands
variable {source s t left : List Char} {cs : List Command}

theorem commandsFrom_error {e : LiteralError} (hs : s <:+ source)
    (h : commandsFrom source s = .error e) :
    ∃ ds, Overlong source ds ∧ e = .tooManyDigits ds.length := by
  fun_induction commandsFrom source s with
  | case1 => cases h
  | case2 s c u hc e' hrest ih =>
    cases h
    have hskip := (skip_suffix s).trans hs
    exact ih ((command_yields source hskip).2 c u hc).1 hrest
  | case3 => cases h
  | case4 s e' hc =>
    cases h
    exact (command_yields source ((skip_suffix s).trans hs)).1 _ hc

theorem commandsFrom_complete (hs : s <:+ source)
    (h : commandsFrom source s = .ok (cs, left)) : ∀ c ∈ cs, c.Complete source source := by
  fun_induction commandsFrom source s generalizing cs with
  | case1 s c u hc cs' left' hrest ih =>
    cases h
    have hskip := (skip_suffix s).trans hs
    obtain ⟨hu, hcomplete⟩ := (command_yields source hskip).2 c u hc
    exact List.forall_mem_cons.2 ⟨hcomplete, ih hu hrest⟩
  | case2 => cases h
  | case3 =>
    cases h
    exact fun c hc => absurd hc List.not_mem_nil
  | case4 => cases h

end Commands

/-- The error blames the line, or the line or one of the numbers is too long to be written. -/
def Blames (line : Int) (ns : List Int) (e : AssemblyError) : Prop :=
  e.line? = some line ∨ e = .unwritable ∧ ∃ n ∈ line :: ns, ¬ Writable n

section Issue
variable {line : Int} {r n : Int} {ns rs : List Int} {e : AssemblyError}

theorem blames_naming (hr : r ∈ ns) (h : e.line? = some line) :
    Blames line ns (naming [line, r] e .unwritable) := by
  rw [naming]
  split
  · exact .inl h
  · rename_i hlong
    simp only [List.forall_mem_cons, List.not_mem_nil, IsEmpty.forall_iff, implies_true, and_true,
      not_and_or] at hlong
    rcases hlong with hlong | hlong
    · exact .inr ⟨rfl, line, List.mem_cons_self, hlong⟩
    · exact .inr ⟨rfl, r, List.mem_cons_of_mem line hr, hlong⟩

theorem blames_of_checkRegister (hr : r ∈ ns) (h : checkRegister line r = .error e) :
    Blames line ns e := by
  rw [checkRegister] at h
  split at h
  · cases h
  · rw [← Except.error.inj h]
    exact blames_naming hr rfl

theorem blames_of_checkRegisters (hrs : rs ⊆ ns) (h : checkRegisters line rs = .error e) :
    Blames line ns e := by
  induction rs with
  | nil => cases h
  | cons r rs ih =>
    rcases Except.bind_eq_error_iff.1 h with h | ⟨_, -, h⟩
    · exact blames_of_checkRegister (hrs List.mem_cons_self) h
    · exact ih (fun q hq => hrs (List.mem_cons_of_mem r hq)) h

theorem blames_of_checkImmediate (hn : n ∈ ns) (h : checkImmediate line n = .error e) :
    Blames line ns e := by
  rw [checkImmediate] at h
  split at h
  · cases h
  · rw [← Except.error.inj h]
    exact blames_naming hn rfl

/-- Operands that pass the checks are issued. -/
theorem blames_of_issueLoadi {line : Nat} (h : issueLoadi line [r, n] = .error e) :
    Blames line [r, n] e := by
  rcases Except.bind_eq_error_iff.1 h with hr | ⟨_, hr, hrest⟩
  · exact blames_of_checkRegister (by simp) hr
  · rcases Except.bind_eq_error_iff.1 hrest with hn | ⟨_, hn, -⟩
    · exact blames_of_checkImmediate (by simp) hn
    · obtain ⟨w, hissue⟩ :=
        exists_issueLoadi (checkRegister_eq_ok_iff.1 hr) (checkImmediate_eq_ok_iff.1 hn)
      cases h.symm.trans hissue

theorem blames_of_issueAdd {line : Nat} (hlength : rs.length = 3)
    (h : issueAdd line rs = .error e) : Blames line rs e := by
  obtain ⟨a, b, c, rfl⟩ := List.length_eq_three.1 hlength
  rcases Except.bind_eq_error_iff.1 h with hrs | ⟨_, hrs, -⟩
  · exact blames_of_checkRegisters (List.Subset.refl _) hrs
  · obtain ⟨w, hissue⟩ := exists_issueAdd (checkRegisters_eq_ok_iff.1 hrs)
    cases h.symm.trans hissue

theorem blames_of_issue {c : Command} (hlength : c.operands.length = arity c.operation)
    (h : issue c.operation.opcode c.operands c.line = .error e) : Blames c.line c.operands e := by
  obtain ⟨op, ns, line⟩ := c
  cases op with
  | halt => cases h
  | loadi =>
    obtain ⟨r, n, rfl⟩ := List.length_eq_two.1 hlength
    exact blames_of_issueLoadi h
  | add => exact blames_of_issueAdd hlength h

theorem ofCommands_cons_of_ok {c : Command} {w : Word}
    (h : issue c.operation.opcode c.operands c.line = .ok w) (cs : List Command) :
    ofCommands (c :: cs) = ⟨⟨w, c.operation, c.operands⟩ :: (ofCommands cs).issued,
      (ofCommands cs).result.map (w :: ·)⟩ := by
  rw [ofCommands, h]

theorem ofCommands_cons_of_error {c : Command}
    (h : issue c.operation.opcode c.operands c.line = .error e) (cs : List Command) :
    ofCommands (c :: cs) = ⟨[], .error e⟩ := by
  rw [ofCommands, h]

theorem exists_issue_error {cs : List Command} (h : (ofCommands cs).result = .error e) :
    ∃ c ∈ cs, issue c.operation.opcode c.operands c.line = .error e := by
  induction cs with
  | nil => cases h
  | cons c cs ih =>
    cases hissue : issue c.operation.opcode c.operands c.line with
    | ok w =>
      rw [ofCommands_cons_of_ok hissue] at h
      have hrest : (ofCommands cs).result = .error e := by
        cases hresult : (ofCommands cs).result with
        | ok ws => simp [hresult, Except.map] at h
        | error e' => simpa [hresult, Except.map] using h
      obtain ⟨d, hd, hblamed⟩ := ih hrest
      exact ⟨d, List.mem_cons_of_mem c hd, hblamed⟩
    | error e' =>
      rw [ofCommands_cons_of_error hissue] at h
      cases h
      exact ⟨c, List.mem_cons_self, hissue⟩

end Issue

/-- A source becomes words, or the assembler itself reports an error that blames one of the lines.
The only other errors are those of a run of too many decimal digits, and of a line number or a
number in base sixteen that is too long to be written. -/
theorem ofSource_outcome (source : String) :
    let lines := 1 + source.toList.count '\n'
    (∃ words, (ofSource source).result = .ok words) ∨
    (∃ (e : AssemblyError) (n : Nat) (text : String), (ofSource source).result = .error e ∧
      e.title = "AsmError" ∧ e.line? = some (n : Int) ∧ 1 ≤ n ∧ n ≤ lines ∧
      e.message = AssemblyError.atLine n text) ∨
    ∃ e : AssemblyError, (ofSource source).result = .error e ∧ e.title = "ValueError" ∧
      ((∃ ds, Overlong source.toList ds ∧ e = .literal (.tooManyDigits ds.length)) ∨
      (e = .unwritable ∧
        ∃ n : Int, ¬ Writable n ∧ ((1 ≤ n ∧ n ≤ lines) ∨ Marked source.toList n))) := by
  intro lines
  have hsource := List.suffix_refl source.toList
  unfold ofSource parse
  cases hcommands : commandsFrom source.toList source.toList with
  | error e =>
    obtain ⟨ds, hds, rfl⟩ := commandsFrom_error hsource hcommands
    exact .inr (.inr ⟨_, rfl, rfl, .inl ⟨ds, hds, rfl⟩⟩)
  | ok r =>
    obtain ⟨cs, left⟩ := r
    cases left with
    | cons c left =>
      obtain ⟨hpos, hle⟩ := lineOf_le source.toList (c :: left)
      exact .inr (.inl ⟨_, _, _, rfl, rfl, rfl, hpos, hle, rfl⟩)
    | nil =>
      cases hresult : (ofCommands cs).result with
      | ok words => exact .inl ⟨words, rfl⟩
      | error e =>
        obtain ⟨c, hc, hissue⟩ := exists_issue_error hresult
        have hcomplete := commandsFrom_complete hsource hcommands c hc
        rcases blames_of_issue hcomplete.length_operands hissue with hline | ⟨rfl, n, hn, hlong⟩
        · obtain ⟨text, htext⟩ := AssemblyError.exists_message_eq hline
          exact .inr (.inl ⟨e, c.line, text, rfl, AssemblyError.title_eq_iff.2 ⟨_, hline⟩, hline,
            hcomplete.line.1, hcomplete.line.2, htext⟩)
        · refine .inr (.inr ⟨_, rfl, rfl, .inr ⟨rfl, n, hlong, ?_⟩⟩)
          rcases List.mem_cons.1 hn with rfl | hn
          · exact .inl (by have := hcomplete.line; omega)
          · exact .inr ((hcomplete.operands n hn).resolve_left hlong)

section Overlong
variable {ds : List Char}

theorem immediate_of_overlong (hds : ∀ c ∈ ds, c.isDigit = true) (hlen : digitLimit < ds.length) :
    immediate (' ' :: '#' :: ds) = .refused (.tooManyDigits ds.length) := by
  have hgap : Grammar.Gap (' ' :: '#' :: ds) ('#' :: ds) := .blank (by simp) (.nil _)
  have hne : ds ≠ [] := List.ne_nil_of_length_pos (Nat.zero_lt_of_lt hlen)
  have hskip : skip ds = ds := by
    obtain ⟨d, ds, rfl⟩ := List.exists_cons_of_ne_nil hne
    exact skip_cons_of_isHexDigit (isHexDigit_of_isDigit (hds d List.mem_cons_self)) ds
  have htoken : constantToken ds = (ds, []) := by
    rcases constantToken_append hne hds [] with ⟨x, cs, -, hcs, -⟩ | htoken
    · cases hcs
    · simpa using htoken
  rw [immediate_of_gap hgap, immediate_cons, hskip, htoken, if_neg hne,
    readConstantChars_decimal hne hds, if_pos hlen]
  rfl

theorem ofSource_of_overlong (hds : ∀ c ∈ ds, c.isDigit = true) (hlen : digitLimit < ds.length) :
    (ofSource (String.ofList ("loadi r0 #".toList ++ ds))).result =
      .error (.literal (.tooManyDigits ds.length)) := by
  have hop : operation? ([] ++ ("loadi r0 #".toList ++ ds)) ("loadi r0 #".toList ++ ds) =
      some (.loadi, " r0 #".toList ++ ds) :=
    operation?_eq_some_iff.2 ⟨rfl, by simp, by simp [isWordChar]⟩
  have hregister : register (" r0 #".toList ++ ds) = .found 0 (' ' :: '#' :: ds) := rfl
  have hcommand : command ("loadi r0 #".toList ++ ds) (skip ("loadi r0 #".toList ++ ds)) =
      .refused (.tooManyDigits ds.length) := by
    have hskip : skip ("loadi r0 #".toList ++ ds) = "loadi r0 #".toList ++ ds := rfl
    rw [List.nil_append] at hop
    rw [hskip, command, hop]
    dsimp only
    rw [operands, hregister, Scan.bind, immediate_of_overlong hds hlen]
    rfl
  rw [ofSource, String.toList_ofList, parse, commandsFrom_of_refused hcommand]

end Overlong

/-- An immediate of one digit too many is no error of the line on which it stands. -/
theorem ofSource_ones :
    (ofSource (String.ofList ("loadi r0 #".toList ++ List.replicate 4301 '1'))).result =
        .error (.literal (.tooManyDigits 4301)) ∧
      (AssemblyError.literal (.tooManyDigits 4301)).title = "ValueError" ∧
      (AssemblyError.literal (.tooManyDigits 4301)).line? = none := by
  have hlen : digitLimit < (List.replicate 4301 '1').length := by
    rw [List.length_replicate]
    decide
  have hds : ∀ c ∈ List.replicate 4301 '1', c.isDigit = true := by
    intro c hc
    rw [List.eq_of_mem_replicate hc]
    rfl
  have hresult := ofSource_of_overlong hds hlen
  rw [List.length_replicate] at hresult
  exact ⟨hresult, rfl, rfl⟩

end Assembly
end RegisterMachine
