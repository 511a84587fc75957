import RegisterMachine.Proofs.Failures

/-! # Sources one below the other

A source that is assembled may stand on the lines above any other one. The line end between them
parts their tokens, closes a comment and is next to no word, so either source is read as it is read
alone. Its commands are issued as they are issued alone, and only the line that an error blames
lies further down.
-/
namespace RegisterMachine
open Numeral

theorem Except.mapError_bind {ε ε' α β : Type} (x : Except ε α) (f : α → Except ε β) (g : ε → ε') :
    (x.bind f).mapError g = (x.mapError g).bind fun a => (f a).mapError g := by
  cases x <;> rfl

/-- The error that blames the line `k` lines further down, if that line can be named. -/
def AssemblyError.below (k : Nat) : AssemblyError → AssemblyError
  | trailing line => trailing (line + k)
  | noRegister line register =>
    naming [line + k] (noRegister (line + k) register) unwritable
  | immediate line value => naming [line + k] (immediate (line + k) value) unwritable
  | unsupported line opcode => naming [line + k] (unsupported (line + k) opcode) unwritable
  | e => e

namespace AssemblyError
variable {e : AssemblyError} {k : Nat} {n : Int}

theorem below_eq_self (h : e.line? = none) : e.below k = e := by
  cases e with
  | trailing => cases h
  | noRegister => cases h
  | immediate => cases h
  | unsupported => cases h
  | _ => rfl

/-- Only the line is different, also in the message. -/
theorem message_below (h : e.line? = some n) (hk : Writable (n + k)) :
    (e.below k).line? = some (n + k) ∧
      ∃ text, e.message = atLine n text ∧ (e.below k).message = atLine (n + k) text := by
  have hnaming : ∀ e' long : AssemblyError, naming [n + (k : Int)] e' long = e' := by
    intro e' long
    simp [naming, hk]
  cases e with
  | trailing line =>
    cases h
    exact ⟨rfl, _, rfl, rfl⟩
  | noRegister line register =>
    cases h
    rw [below, hnaming]
    exact ⟨rfl, _, rfl, rfl⟩
  | immediate line value =>
    cases h
    rw [below, hnaming]
    exact ⟨rfl, _, rfl, rfl⟩
  | unsupported line opcode =>
    cases h
    rw [below, hnaming]
    exact ⟨rfl, _, rfl, rfl⟩
  | _ => cases h

end AssemblyError

namespace Assembly
open Grammar

/-- What the one scanner finds, the other finds too, with more of the text behind it. -/
def Scan.Extends {α : Type} (tail : List Char) (scan scan' : Scan α) : Prop :=
  ∀ a t, scan = .found a t → scan' = .found a (t ++ tail)

section Line
variable {α β : Type} {source s t tail : List Char}

theorem Scan.Extends.bind {scan scan' : Scan α} {f f' : α → List Char → Scan β}
    (h : scan.Extends tail scan') (hf : ∀ a t, (f a t).Extends tail (f' a (t ++ tail))) :
    (scan.bind f).Extends tail (scan'.bind f') := by
  intro b u hb
  obtain ⟨a, t, hscan, hb⟩ := Scan.bind_found hb
  rw [h a t hscan]
  exact hf a t b u hb

theorem Scan.Extends.found (a : α) (s tail : List Char) :
    (Scan.found a s).Extends tail (.found a (s ++ tail)) := by
  intro b t h
  cases h
  rfl

theorem skipFrom_append_line (b : Bool) (s t : List Char) :
    skipFrom b (s ++ '\n' :: t) =
      if skipFrom b s = [] then skip t else skipFrom b s ++ '\n' :: t := by
  fun_induction skipFrom b s with
  | case1 b => cases b <;> rfl
  | case2 cs ih => exact ih
  | case3 c cs hc ih =>
    rw [List.cons_append, skipFrom, if_neg hc]
    exact ih
  | case4 cs ih => exact ih
  | case5 c cs hslash hc ih =>
    rw [List.cons_append, skipFrom, if_pos hc]
    · exact ih
    · rintro u rfl
      cases hc
  | case6 c cs hslash hc =>
    rw [List.cons_append, skipFrom, if_neg hc, if_neg (List.cons_ne_nil c cs)]
    intro u hslash' hu
    cases cs with
    | nil => cases hu
    | cons d cs =>
      cases hu
      exact hslash cs hslash' rfl

theorem skip_append_line_of_nil (h : skip s = []) : skip (s ++ '\n' :: t) = skip t := by
  rw [skip] at h
  rw [skip, skipFrom_append_line, if_pos h]

theorem skip_append_line (h : skip s ≠ []) :
    skip (s ++ '\n' :: t) = skip s ++ '\n' :: t := by
  rw [skip] at h ⊢
  rw [skipFrom_append_line, if_neg h, skip]

theorem takeWhile_append_line {p : Char → Bool} (hp : p '\n' = false) (s t : List Char) :
    (s ++ '\n' :: t).takeWhile p = s.takeWhile p := by
  induction s with
  | nil => simp [hp]
  | cons c s ih =>
    rw [List.cons_append, List.takeWhile_cons, List.takeWhile_cons, ih]

theorem dropWhile_append_line {p : Char → Bool} (hp : p '\n' = false) (s t : List Char) :
    (s ++ '\n' :: t).dropWhile p = s.dropWhile p ++ '\n' :: t := by
  induction s with
  | nil => simp [hp]
  | cons c s ih =>
    rw [List.cons_append, List.dropWhile_cons, List.dropWhile_cons, ih]
    split <;> rfl

theorem register_append_line (s t : List Char) :
    (register s).Extends ('\n' :: t) (register (s ++ '\n' :: t)) := by
  intro n u h
  unfold register at h
  split at h
  · rename_i cs hs
    have hskip : skip (s ++ '\n' :: t) = 'r' :: (cs ++ '\n' :: t) := by
      rw [skip_append_line (by simp [hs]), hs]
      rfl
    dsimp only at h
    split at h
    · cases h
    · rename_i hds
      obtain ⟨hn, rfl⟩ := number_found h
      rw [← register_skip, hskip, register_cons, takeWhile_append_line rfl,
        dropWhile_append_line rfl, if_neg hds, hn]
      rfl
  · cases h

theorem constantToken_cons_cons (c d : Char) (s : List Char) :
    constantToken (c :: d :: s) =
      if c = '0' ∧ (d = 'x' ∨ d = 'X') ∧ s.takeWhile isHexDigit ≠ [] then
        ('0' :: d :: s.takeWhile isHexDigit, s.dropWhile isHexDigit)
      else ((c :: d :: s).takeWhile Char.isDigit, (c :: d :: s).dropWhile Char.isDigit) := by
  by_cases hc : c = '0'
  · subst hc
    simp only [constantToken, true_and]
  · rw [constantToken, if_neg fun h => hc h.1]
    intro x u hcs
    cases hcs
    exact hc rfl

theorem constantToken_append_line (s t : List Char) :
    constantToken (s ++ '\n' :: t) =
      ((constantToken s).1, (constantToken s).2 ++ '\n' :: t) := by
  have hdecimal : ((s ++ '\n' :: t).takeWhile Char.isDigit,
      (s ++ '\n' :: t).dropWhile Char.isDigit) =
      (s.takeWhile Char.isDigit, s.dropWhile Char.isDigit ++ '\n' :: t) := by
    rw [takeWhile_append_line rfl, dropWhile_append_line rfl]
  match s with
  | [] => rfl
  | [c] =>
    have hc : constantToken [c] = ([c].takeWhile Char.isDigit, [c].dropWhile Char.isDigit) := by
      rw [constantToken]
      rintro x u ⟨⟩
    rw [hc, ← hdecimal, List.cons_append, List.nil_append, constantToken_cons_cons, if_neg]
    rintro ⟨-, hx | hx, -⟩ <;> cases hx
  | c :: d :: s =>
    rw [List.cons_append, List.cons_append, constantToken_cons_cons, constantToken_cons_cons,
      takeWhile_append_line rfl, dropWhile_append_line rfl]
    split
    · rfl
    · exact hdecimal

theorem immediate_append_line (s t : List Char) :
    (immediate s).Extends ('\n' :: t) (immediate (s ++ '\n' :: t)) := by
  intro n u h
  unfold immediate at h
  split at h
  · rename_i cs hs
    have hskip : skip (s ++ '\n' :: t) = '#' :: (cs ++ '\n' :: t) := by
      rw [skip_append_line (by simp [hs]), hs]
      rfl
    dsimp only at h
    split at h
    · cases h
    · rename_i htoken
      have hcs : skip cs ≠ [] := by
        intro hnil
        rw [hnil] at htoken
        exact htoken rfl
      obtain ⟨hn, rfl⟩ := number_found h
      rw [← immediate_skip, hskip, immediate_cons, skip_append_line hcs,
        constantToken_append_line, if_neg htoken, hn]
      rfl
  · cases h

theorem operands_append_line (op : Operation) (s t : List Char) :
    (operands op s).Extends ('\n' :: t) (operands op (s ++ '\n' :: t)) := by
  cases op with
  | halt => exact .found [] s _
  | loadi =>
    apply (register_append_line s t).bind
    intro target s₁
    apply (immediate_append_line s₁ t).bind
    intro imm s₂
    exact .found _ s₂ _
  | add =>
    apply (register_append_line s t).bind
    intro target s₁
    apply (register_append_line s₁ t).bind
    intro left s₂
    apply (register_append_line s₂ t).bind
    intro right s₃
    exact .found _ s₃ _

theorem command_append_line (hs : s <:+ source) (t : List Char) :
    (command source s).Extends ('\n' :: t) (command (source ++ '\n' :: t) (s ++ '\n' :: t)) := by
  obtain ⟨before, rfl⟩ := hs
  intro c u h
  unfold command at h
  split at h
  · rename_i op after ho
    obtain ⟨rfl, hbefore, hafter⟩ := operation?_eq_some_iff.1 ho
    have ho' : operation? (before ++ (op.mnemonic.toList ++ after ++ '\n' :: t))
        (op.mnemonic.toList ++ after ++ '\n' :: t) = some (op, after ++ '\n' :: t) := by
      refine operation?_eq_some_iff.2 ⟨by simp, hbefore, ?_⟩
      intro c hc
      cases after with
      | nil =>
        cases hc
        rfl
      | cons d after => exact hafter c hc
    obtain ⟨ns, u, hns, h⟩ := Scan.bind_found h
    cases h
    rw [List.append_assoc before, command, ho']
    dsimp only
    rw [operands_append_line op after t ns u hns, lineOf_append, lineOf_append]
    rfl
  · cases h

/-- The commands of a source are found above any other one, and reading goes on there. -/
theorem commandsFrom_append_line {cs : List Command} (hs : s <:+ source) (t : List Char)
    (h : commandsFrom source s = .ok (cs, [])) :
    commandsFrom (source ++ '\n' :: t) (s ++ '\n' :: t) =
      (commandsFrom (source ++ '\n' :: t) t).map fun r => (cs ++ r.1, r.2) := by
  fun_induction commandsFrom source s generalizing cs with
  | case1 s c u hc cs' left' hrest ih =>
    cases h
    have hskip := (skip_suffix s).trans hs
    have hne : skip s ≠ [] := by
      intro hnil
      have hlen := length_command hc
      rw [hnil] at hlen
      exact absurd hlen (Nat.not_lt_zero _)
    have hc' := command_append_line hskip t c u hc
    rw [← skip_append_line hne] at hc'
    rw [commandsFrom_of_found hc', ih ((command_yields _ hskip).2 c u hc).1 hrest]
    cases commandsFrom (source ++ '\n' :: t) t <;> rfl
  | case2 => cases h
  | case3 s hc =>
    simp only [Except.ok.injEq, Prod.mk.injEq] at h
    obtain ⟨rfl, hnil⟩ := h
    rw [commandsFrom.eq_def _ (s ++ '\n' :: t), skip_append_line_of_nil hnil,
      ← commandsFrom.eq_def]
    cases commandsFrom (source ++ '\n' :: t) t <;> rfl
  | case4 => cases h

end Line

def Command.below (k : Nat) (c : Command) : Command := { c with line := c.line + k }

section Front
variable {front source s rest left : List Char} {cs : List Command}

/-- A line end before a source is as good a boundary as its beginning. -/
theorem isBoundary_before?_front (h : rest <:+ source) :
    isBoundary (before? (front ++ '\n' :: source) rest) = isBoundary (before? source rest) := by
  obtain ⟨before, rfl⟩ := h
  have hsource : front ++ '\n' :: (before ++ rest) = (front ++ '\n' :: before) ++ rest := by simp
  rw [hsource, before?_append, before?_append]
  rcases List.eq_nil_or_concat' before with rfl | ⟨before, c, rfl⟩
  · simp [isBoundary, isWordChar]
  · rw [← List.cons_append, ← List.append_assoc, List.getLast?_concat, List.getLast?_concat]

theorem lineOf_front (h : rest <:+ source) :
    lineOf (front ++ '\n' :: source) rest = lineOf source rest + (front.count '\n' + 1) := by
  obtain ⟨before, rfl⟩ := h
  have hsource : front ++ '\n' :: (before ++ rest) = (front ++ '\n' :: before) ++ rest := by simp
  rw [hsource, lineOf_append, lineOf_append, List.count_append, List.count_cons_self]
  omega

theorem operation?_front (h : rest <:+ source) :
    operation? (front ++ '\n' :: source) rest = operation? source rest := by
  simp only [operation?, keyword?, isBoundary_before?_front h]

theorem command_front (h : rest <:+ source) :
    command (front ++ '\n' :: source) rest =
      (command source rest).bind fun c t => .found (c.below (front.count '\n' + 1)) t := by
  unfold command
  rw [operation?_front h, lineOf_front h]
  cases operation? source rest with
  | none => rfl
  | some r =>
    obtain ⟨op, after⟩ := r
    dsimp only
    cases operands op after <;> rfl

theorem commandsFrom_front (hs : s <:+ source) :
    commandsFrom (front ++ '\n' :: source) s = (commandsFrom source s).map fun r =>
      (r.1.map (Command.below (front.count '\n' + 1)), r.2) := by
  fun_induction commandsFrom source s with
  | case1 s c u hc cs left hrest ih =>
    have hskip := (skip_suffix s).trans hs
    have hc' : command (front ++ '\n' :: source) (skip s) =
        .found (c.below (front.count '\n' + 1)) u := by
      rw [command_front hskip, hc]
      rfl
    rw [commandsFrom_of_found hc', ih ((command_yields _ hskip).2 c u hc).1, hrest]
    rfl
  | case2 s c u hc e hrest ih =>
    have hskip := (skip_suffix s).trans hs
    have hc' : command (front ++ '\n' :: source) (skip s) =
        .found (c.below (front.count '\n' + 1)) u := by
      rw [command_front hskip, hc]
      rfl
    rw [commandsFrom_of_found hc', ih ((command_yields _ hskip).2 c u hc).1, hrest]
    rfl
  | case3 s hc =>
    have hc' : command (front ++ '\n' :: source) (skip s) = .absent := by
      rw [command_front ((skip_suffix s).trans hs), hc]
      rfl
    exact commandsFrom_of_absent hc'
  | case4 s e hc =>
    have hc' : command (front ++ '\n' :: source) (skip s) = .refused e := by
      rw [command_front ((skip_suffix s).trans hs), hc]
      rfl
    exact commandsFrom_of_refused hc'

theorem suffix_of_commands (h : Commands source s cs left) : left <:+ s := by
  induction h with
  | done hgap => exact suffix_of_gap hgap
  | more hgap hread _ ih => exact (ih.trans (suffix_of_reads hread)).trans (suffix_of_gap hgap)

theorem parse_append_line (h : parse front = .ok cs) (source : List Char) :
    parse (front ++ '\n' :: source) =
      ((parse source).map fun ds => cs ++ ds.map (Command.below (front.count '\n' + 1))).mapError
        (AssemblyError.below (front.count '\n' + 1)) := by
  have hall : commandsFrom (front ++ '\n' :: source) (front ++ '\n' :: source) =
      (commandsFrom source source).map fun r =>
        (cs ++ r.1.map (Command.below (front.count '\n' + 1)), r.2) := by
    rw [commandsFrom_append_line (List.suffix_refl front) source (parse_eq_ok_iff.1 h),
      commandsFrom_front (List.suffix_refl source)]
    cases commandsFrom source source <;> rfl
  rw [parse, parse, hall]
  cases hds : commandsFrom source source with
  | error e => rfl
  | ok r =>
    obtain ⟨ds, left⟩ := r
    cases left with
    | nil => rfl
    | cons c left =>
      have hleft := suffix_of_commands (commandsFrom_sound (List.suffix_refl source) hds)
      simp only [Except.map, lineOf_front hleft]
      rfl

end Front

section Issue
variable {line : Nat} {r n : Int} {k : Nat} {e e' : AssemblyError}

theorem writable_of_add (h : Writable (line + k)) : Writable line := by
  have hle : (line : Int).natAbs ≤ (line + k : Int).natAbs := by omega
  exact Nat.lt_of_le_of_lt hle h

theorem naming_below (h : e.below k = naming [line + k] e' .unwritable) :
    (naming [(line : Int), r] e .unwritable).below k =
      naming [line + k, r] e' .unwritable := by
  by_cases hr : Writable r
  · by_cases hk : Writable ((line : Int) + k)
    · have hline := writable_of_add hk
      simp [naming, hr, hk, hline] at h ⊢
      exact h
    · simp [naming, hr, hk] at h ⊢
      split
      · exact h
      · rfl
  · simp [naming, hr]
    rfl

theorem checkRegister_below : checkRegister (line + k) r =
    (checkRegister line r).mapError (AssemblyError.below k) := by
  have hbelow : (AssemblyError.noRegister line r).below k =
      naming [line + k] (.noRegister (line + k) r) .unwritable := rfl
  unfold checkRegister
  split
  · rfl
  · rw [Except.mapError, naming_below hbelow]

theorem checkRegisters_below (rs : List Int) : checkRegisters (line + k) rs =
    (checkRegisters line rs).mapError (AssemblyError.below k) := by
  induction rs with
  | nil => rfl
  | cons r rs ih =>
    calc checkRegisters (line + k) (r :: rs)
        = (checkRegister (line + k) r).bind fun _ => checkRegisters (line + k) rs := rfl
      _ = ((checkRegister line r).bind fun _ => checkRegisters line rs).mapError
            (AssemblyError.below k) := by
        rw [checkRegister_below, ih, Except.mapError_bind]

theorem checkImmediate_below : checkImmediate (line + k) n =
    (checkImmediate line n).mapError (AssemblyError.below k) := by
  have hbelow : (AssemblyError.immediate line n).below k =
      naming [line + k] (.immediate (line + k) n) .unwritable := rfl
  unfold checkImmediate
  split
  · rfl
  · rw [Except.mapError, naming_below hbelow]

theorem encoded_below (w : Except FieldError Word) :
    encoded w = (encoded w).mapError (AssemblyError.below k) := by
  cases w <;> rfl

theorem issueLoadi_below (ns : List Int) : issueLoadi (line + k) ns =
    (issueLoadi line ns).mapError (AssemblyError.below k) := by
  match ns with
  | [r, n] =>
    calc issueLoadi (line + k) [r, n]
        = (checkRegister (line + k) r).bind fun _ => (checkImmediate (line + k) n).bind fun _ =>
            encoded (Word.encodeLoadi r n) := rfl
      _ = ((checkRegister line r).bind fun _ => (checkImmediate line n).bind fun _ =>
            encoded (Word.encodeLoadi r n)).mapError (AssemblyError.below k) := by
        rw [checkRegister_below, checkImmediate_below, Except.mapError_bind, Except.mapError_bind,
          ← encoded_below]
  | [] => rfl
  | [_] => rfl
  | _ :: _ :: _ :: _ => rfl

theorem issueAdd_below (ns : List Int) : issueAdd (line + k) ns =
    (issueAdd line ns).mapError (AssemblyError.below k) := by
  unfold issueAdd
  rw [checkRegisters_below]
  refine Eq.trans ?_ (Except.mapError_bind _ _ _).symm
  congr 1
  funext _
  split
  · exact encoded_below _
  · rfl

theorem issue_below (opcode : Int) (ns : List Int) : issue opcode ns (line + k) =
    (issue opcode ns line).mapError (AssemblyError.below k) := by
  have hbelow : (AssemblyError.unsupported line opcode).below k =
      naming [line + k] (.unsupported (line + k) opcode) .unwritable := rfl
  unfold issue
  split
  · exact encoded_below _
  · exact issueLoadi_below ns
  · exact issueAdd_below ns
  · rw [Except.mapError, naming_below hbelow]

end Issue

section Commands
variable {cs : List Command} {words : List Word}

theorem ofCommands_append (h : (ofCommands cs).result = .ok words) (ds : List Command) :
    ofCommands (cs ++ ds) = ⟨(ofCommands cs).issued ++ (ofCommands ds).issued,
      (ofCommands ds).result.map (words ++ ·)⟩ := by
  have hissues := result_ofCommands_eq_ok_iff.1 h
  clear h
  induction hissues with
  | nil =>
    have hmap : (ofCommands ds).result.map ([] ++ ·) = (ofCommands ds).result := by
      cases (ofCommands ds).result <;> rfl
    rw [List.nil_append, hmap]
    rfl
  | @cons c w cs ws hc _ ih =>
    rw [List.cons_append, ofCommands_cons_of_ok hc, ofCommands_cons_of_ok hc, ih]
    cases (ofCommands ds).result <;> rfl

theorem ofCommands_below (k : Nat) (cs : List Command) :
    ofCommands (cs.map (Command.below k)) =
      ⟨(ofCommands cs).issued, (ofCommands cs).result.mapError (AssemblyError.below k)⟩ := by
  induction cs with
  | nil => rfl
  | cons c cs ih =>
    have hbelow : issue (c.below k).operation.opcode (c.below k).operands (c.below k).line =
        (issue c.operation.opcode c.operands c.line).mapError (AssemblyError.below k) :=
      issue_below c.operation.opcode c.operands
    rw [List.map_cons]
    cases hissue : issue c.operation.opcode c.operands c.line with
    | ok w =>
      rw [hissue] at hbelow
      rw [ofCommands_cons_of_ok hissue, ofCommands_cons_of_ok hbelow, ih]
      cases (ofCommands cs).result <;> rfl
    | error e =>
      rw [hissue] at hbelow
      rw [ofCommands_cons_of_error hissue, ofCommands_cons_of_error hbelow]
      rfl

end Commands

section Sources
variable {s₁ s₂ : String} {words : List Word}

theorem ofSource_of_parse {source : String} {cs : List Command}
    (h : parse source.toList = .ok cs) : ofSource source = ofCommands cs := by
  rw [ofSource, h]

theorem ofSource_of_parse_error {source : String} {e : AssemblyError}
    (h : parse source.toList = .error e) : ofSource source = ⟨[], .error e⟩ := by
  rw [ofSource, h]

theorem exists_parse (h : (ofSource s₁).result = .ok words) :
    ∃ cs, parse s₁.toList = .ok cs ∧ (ofCommands cs).result = .ok words := by
  cases hcs : parse s₁.toList with
  | error e =>
    rw [ofSource_of_parse_error hcs] at h
    cases h
  | ok cs =>
    rw [ofSource_of_parse hcs] at h
    exact ⟨cs, rfl, h⟩

theorem toList_append_line (s₁ s₂ : String) :
    (s₁ ++ "\n" ++ s₂).toList = s₁.toList ++ '\n' :: s₂.toList := by
  have hline : "\n".toList = ['\n'] := rfl
  rw [String.toList_append, String.toList_append, hline, List.append_assoc]
  rfl

theorem ofSource_append_line_of_parse {ds : List Command} (h : (ofSource s₁).result = .ok words)
    (hds : parse s₂.toList = .ok ds) :
    ofSource (s₁ ++ "\n" ++ s₂) = ⟨(ofSource s₁).issued ++ (ofSource s₂).issued,
      ((ofSource s₂).result.mapError (AssemblyError.below (s₁.toList.count '\n' + 1))).map
        (words ++ ·)⟩ := by
  obtain ⟨cs, hcs, hwords⟩ := exists_parse h
  have hboth := parse_append_line hcs s₂.toList
  rw [hds, ← toList_append_line] at hboth
  rw [ofSource_of_parse hboth, ofCommands_append hwords, ofCommands_below, ofSource_of_parse hcs,
    ofSource_of_parse hds]

theorem ofSource_append_line_of_parse_error {e : AssemblyError}
    (h : (ofSource s₁).result = .ok words) (he : parse s₂.toList = .error e) :
    ofSource (s₁ ++ "\n" ++ s₂) =
      ⟨[], .error (e.below (s₁.toList.count '\n' + 1))⟩ := by
  obtain ⟨cs, hcs, -⟩ := exists_parse h
  have hboth := parse_append_line hcs s₂.toList
  rw [he, ← toList_append_line] at hboth
  exact ofSource_of_parse_error hboth

/-- A source that is assembled, a line end and another source. The words and the records of the
other source follow those of the first. An error of the other source is the error of both, on a line
that is as many lines further down as the first source has, if the number of that line can be
written at all; the rest of its message is the same, and so is all of an error without a line. -/
theorem ofSource_append_line (s₁ s₂ : String) (words : List Word)
    (h : (ofSource s₁).result = .ok words) :
    let both := ofSource (s₁ ++ "\n" ++ s₂)
    let k := s₁.toList.count '\n' + 1
    (∀ words', (ofSource s₂).result = .ok words' → both.result = .ok (words ++ words') ∧
      both.issued = (ofSource s₁).issued ++ (ofSource s₂).issued) ∧
    ∀ e, (ofSource s₂).result = .error e → both.result = .error (e.below k) ∧
      (e.line? = none → e.below k = e) ∧
      ∀ n, e.line? = some n → Writable (n + k) → (e.below k).line? = some (n + k) ∧
        ∃ text, e.message = AssemblyError.atLine n text ∧
          (e.below k).message = AssemblyError.atLine (n + k) text := by
  intro both k
  cases hparse : parse s₂.toList with
  | ok ds =>
    have hboth : both = _ := ofSource_append_line_of_parse h hparse
    rw [hboth]
    constructor
    · intro words' h'
      rw [h']
      exact ⟨rfl, rfl⟩
    · intro e h'
      rw [h']
      exact ⟨rfl, AssemblyError.below_eq_self, fun n => AssemblyError.message_below⟩
  | error e =>
    have hboth : both = _ := ofSource_append_line_of_parse_error h hparse
    rw [hboth, ofSource_of_parse_error hparse]
    constructor
    · intro words' h'
      cases h'
    · intro e' h'
      cases h'
      exact ⟨rfl, AssemblyError.below_eq_self, fun n => AssemblyError.message_below⟩

/-- A register that does not exist, below a comment that only its line end closes. -/
theorem ofSource_append_line_comment :
    (ofSource "halt // r9").result = .ok [0x0000] ∧
      (ofSource "add r0 r1 r4").result = .error (.noRegister 1 4) ∧
      (ofSource ("halt // r9" ++ "\n" ++ "add r0 r1 r4")).result = .error (.noRegister 2 4) := by
  have h₁ : (ofSource "halt // r9").result = .ok [0x0000] := by
    decide +kernel
  have h₂ : (ofSource "add r0 r1 r4").result = .error (.noRegister 1 4) := by
    decide +kernel
  have hbelow : (AssemblyError.noRegister 1 4).below 1 = .noRegister 2 4 := by
    decide +kernel
  have hboth := ((ofSource_append_line "halt // r9" "add r0 r1 r4" [0x0000] h₁).2 _ h₂).1
  exact ⟨h₁, h₂, hboth.trans (congrArg Except.error hbelow)⟩

end Sources
end Assembly
end RegisterMachine
