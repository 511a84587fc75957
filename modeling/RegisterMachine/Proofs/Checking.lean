import RegisterMachine.Proofs.Joining

/-! # How operands are checked

A source that is read as commands is checked command by command, and each of them is issued before
the next one is looked at. So an operand that is out of range is reported for the first command that
has one, on the line of its keyword, and only the commands before it are recorded. Text that cannot
be read is reported before any operand is looked at.
-/
namespace RegisterMachine
open Numeral

theorem AssemblyError.message_immediate (line n : Int) :
    (immediate line n).message =
      "line " ++ decimal line ++ ": immediate " ++ decimal n ++ " does not fit a byte" := by
  have htext : ": " ++ "immediate " = ": immediate " := by simp
  calc (immediate line n).message
      = "line " ++ decimal line ++ ": " ++
          ("immediate " ++ decimal n ++ " does not fit a byte") := rfl
    _ = "line " ++ decimal line ++ (": " ++ "immediate ") ++ decimal n ++
          " does not fit a byte" := by
      simp only [String.append_assoc]
    _ = "line " ++ decimal line ++ ": immediate " ++ decimal n ++ " does not fit a byte" :=
      congrArg ("line " ++ decimal line ++ · ++ decimal n ++ " does not fit a byte") htext

namespace Assembly
open Grammar

namespace Command

def registers (c : Command) : List Int :=
  match c.operation with
  | .halt => []
  | .loadi => c.operands.take 1
  | .add => c.operands

def immediates (c : Command) : List Int :=
  match c.operation with
  | .halt => []
  | .loadi => c.operands.drop 1
  | .add => []

def Fits (c : Command) : Prop :=
  (∀ r ∈ c.registers, 0 ≤ r ∧ r ≤ 3) ∧ ∀ n ∈ c.immediates, 0 ≤ n ∧ n ≤ 255

instance : DecidablePred Fits := fun _ => inferInstanceAs (Decidable (_ ∧ _))

def badRegister? (c : Command) : Option Int := c.registers.find? fun r => r < 0 ∨ 3 < r

def badImmediate? (c : Command) : Option Int := c.immediates.find? fun n => n < 0 ∨ 255 < n

/-- What is said of the first operand that is out of range. Registers come before immediates. -/
def complaint? (c : Command) : Option String :=
  match c.badRegister?, c.badImmediate? with
  | some r, _ => some ("line " ++ decimal c.line ++ ": no register r" ++ decimal r)
  | none, some n =>
    some ("line " ++ decimal c.line ++ ": immediate " ++ decimal n ++ " does not fit a byte")
  | none, none => none

/-- The record is of the command, and its word has the opcode and the operands of the command. -/
structure Records (c : Command) (i : Issued) : Prop where
  operation : i.operation = c.operation
  operands : i.operands = c.operands
  opcode_word : (Instruction.ofWord i.word).opcode = c.operation.opcode
  operands_word : (Instruction.ofWord i.word).operands = c.operands

/-- The keyword of the command, with its operands after it, stands in the source after `before`,
which is the commands `ds` and a gap. -/
def StandsBehind (source before : List Char) (ds : List Command) (c : Command) : Prop :=
  ∃ s t, source = before ++ (c.operation.mnemonic.toList ++ s) ∧
    Commands source source ds (c.operation.mnemonic.toList ++ s) ∧
    Operands c.operation s c.operands t

variable {c : Command} {w : Word}

theorem fits_iff : c.Fits ↔ c.complaint? = none := by
  have hbad : c.Fits ↔ c.badRegister? = none ∧ c.badImmediate? = none := by
    simp [Fits, badRegister?, badImmediate?]
  rw [hbad, complaint?]
  cases c.badRegister? <;> cases c.badImmediate? <;> simp

theorem records_of_issues (hlength : c.operands.length = arity c.operation) (h : c.Issues w) :
    c.Records ⟨w, c.operation, c.operands⟩ := by
  obtain ⟨-, hop, hoperands⟩ := issue_eq_ok_iff.1 h
  refine ⟨rfl, rfl, Instruction.operation?_eq_some_iff.1 hop, ?_⟩
  rcases hoperands with hhalt | hoperands
  · have hnil : c.operands = [] := List.length_eq_zero_iff.1 (by rw [hlength, hhalt, arity])
    rw [Instruction.operands, hop, hhalt, hnil]
  · exact hoperands

end Command

section Issue
variable {r n : Int} {c : Command}

theorem checkImmediate_of_bad (line : Nat) (hn : Writable n) (h : n < 0 ∨ 255 < n) :
    checkImmediate line n = .error (naming [(line : Int)] (.immediate line n) .unwritable) := by
  have hbyte : ¬ (0 ≤ n ∧ n ≤ byte) := by
    rw [byte_eq]
    omega
  rw [checkImmediate, if_neg hbyte, naming_of_writable line _ hn]

theorem issue_of_badRegister? (hlength : c.operands.length = arity c.operation)
    (hw : ∀ n ∈ c.operands, Writable n) (h : c.badRegister? = some r) :
    issue c.operation.opcode c.operands c.line =
      .error (naming [(c.line : Int)] (.noRegister c.line r) .unwritable) := by
  obtain ⟨op, ns, line⟩ := c
  cases op with
  | halt => cases h
  | loadi =>
    obtain ⟨q, n, rfl⟩ := List.length_eq_two.1 hlength
    obtain rfl : r = q := List.mem_singleton.1 (List.mem_of_find?_eq_some h)
    have hbad : r < 0 ∨ 3 < r := by simpa using List.find?_some h
    have hcheck := checkRegister_of_bad line (hw r List.mem_cons_self) hbad
    exact Except.bind_eq_error_iff.2 (.inl hcheck)
  | add =>
    have hfind : (ns.find? fun r => decide (r < 0 ∨ 3 < r)) = some r := h
    have hcheck := checkRegisters_eq line ns hw
    rw [hfind] at hcheck
    exact Except.bind_eq_error_iff.2 (.inl hcheck)

/-- The immediate is looked at only after the register has passed. -/
theorem issue_of_badImmediate? (hlength : c.operands.length = arity c.operation)
    (hw : ∀ n ∈ c.operands, Writable n) (hr : c.badRegister? = none)
    (h : c.badImmediate? = some n) :
    issue c.operation.opcode c.operands c.line =
      .error (naming [(c.line : Int)] (.immediate c.line n) .unwritable) := by
  obtain ⟨op, ns, line⟩ := c
  cases op with
  | halt => cases h
  | loadi =>
    obtain ⟨r, m, rfl⟩ := List.length_eq_two.1 hlength
    obtain rfl : n = m := List.mem_singleton.1 (List.mem_of_find?_eq_some h)
    have hbad : n < 0 ∨ 255 < n := by simpa using List.find?_some h
    have hgood : 0 ≤ r ∧ r ≤ 3 := by
      simpa using List.find?_eq_none.1 hr r List.mem_cons_self
    have hcheck := checkImmediate_of_bad line (hw n (by simp)) hbad
    refine Except.bind_eq_error_iff.2 (.inr ⟨(), checkRegister_eq_ok_iff.2 hgood, ?_⟩)
    exact Except.bind_eq_error_iff.2 (.inl hcheck)
  | add => cases h

/-- A command with an operand out of range is not issued, and the complaint is about the first such
operand, if its line can be named. -/
theorem exists_issue_of_complaint? {text : String}
    (hlength : c.operands.length = arity c.operation) (hw : ∀ n ∈ c.operands, Writable n)
    (h : c.complaint? = some text) :
    ∃ e : AssemblyError, e.message = text ∧ e.title = "AsmError" ∧
      issue c.operation.opcode c.operands c.line =
        .error (naming [(c.line : Int)] e .unwritable) := by
  unfold Command.complaint? at h
  split at h
  · rename_i r hr
    cases h
    exact ⟨_, AssemblyError.message_noRegister _ r, rfl, issue_of_badRegister? hlength hw hr⟩
  · rename_i n hr hn
    cases h
    exact ⟨_, AssemblyError.message_immediate _ n, rfl,
      issue_of_badImmediate? hlength hw hr hn⟩
  · cases h

theorem exists_issues_of_fits (hlength : c.operands.length = arity c.operation) (h : c.Fits) :
    ∃ w, c.Issues w := by
  obtain ⟨op, ns, line⟩ := c
  obtain ⟨hregisters, himmediates⟩ := h
  cases op with
  | halt => exact ⟨0, rfl⟩
  | loadi =>
    obtain ⟨r, n, rfl⟩ := List.length_eq_two.1 hlength
    have hr : 0 ≤ r ∧ r ≤ 3 := hregisters r List.mem_cons_self
    have hn : 0 ≤ n ∧ n ≤ 255 := himmediates n List.mem_cons_self
    exact exists_issueLoadi hr hn
  | add =>
    obtain ⟨a, b, d, rfl⟩ := List.length_eq_three.1 hlength
    exact exists_issueAdd hregisters

end Issue

section Commands
variable {cs ds : List Command} {c : Command} {text : String}

/-- Commands that all fit give one record for each of them, and its word. -/
theorem ofCommands_of_forall_fits (hlength : ∀ c ∈ cs, c.operands.length = arity c.operation)
    (h : ∀ c ∈ cs, c.Fits) :
    ∃ issued, List.Forall₂ Command.Records cs issued ∧
      ofCommands cs = ⟨issued, .ok (issued.map Issued.word)⟩ := by
  induction cs with
  | nil => exact ⟨[], .nil, rfl⟩
  | cons c cs ih =>
    obtain ⟨hc, hcs⟩ := List.forall_mem_cons.1 hlength
    obtain ⟨hfit, hfits⟩ := List.forall_mem_cons.1 h
    obtain ⟨w, hw⟩ := exists_issues_of_fits hc hfit
    obtain ⟨issued, hrecords, hissued⟩ := ih hcs hfits
    refine ⟨⟨w, c.operation, c.operands⟩ :: issued, .cons (c.records_of_issues hc hw) hrecords, ?_⟩
    rw [ofCommands_cons_of_ok hw, hissued]
    rfl

/-- Behind commands that fit, the first one that does not is complained about, and nothing is
recorded for it or after it. -/
theorem ofCommands_of_complaint? (hlength : ∀ d ∈ ds, d.operands.length = arity d.operation)
    (hfits : ∀ d ∈ ds, d.Fits) (hc : c.operands.length = arity c.operation)
    (hw : ∀ n ∈ c.operands, Writable n) (htext : c.complaint? = some text) (cs : List Command) :
    ∃ (issued : List Issued) (e : AssemblyError), List.Forall₂ Command.Records ds issued ∧
      e.message = text ∧ e.title = "AsmError" ∧
      ofCommands (ds ++ c :: cs) = ⟨issued, .error (naming [(c.line : Int)] e .unwritable)⟩ := by
  obtain ⟨issued, hrecords, hissued⟩ := ofCommands_of_forall_fits hlength hfits
  obtain ⟨e, hmessage, htitle, hissue⟩ := exists_issue_of_complaint? hc hw htext
  have hwords : (ofCommands ds).result = .ok (issued.map Issued.word) := by rw [hissued]
  refine ⟨issued, e, hrecords, hmessage, htitle, ?_⟩
  rw [ofCommands_append hwords, hissued, ofCommands_cons_of_error hissue, List.append_nil]
  rfl

end Commands

section Sources
variable {source s left : List Char} {cs ds : List Command} {c : Command}

/-- A command of a source is read where the ones before it and a gap have been passed. -/
theorem reads_of_commands (h : Commands source s (ds ++ c :: cs) left) :
    ∃ t u, Commands source s ds t ∧ Reads source t c u := by
  induction ds generalizing s with
  | nil =>
    cases h with
    | more hgap hread _ => exact ⟨_, _, .done hgap, hread⟩
  | cons d ds ih =>
    cases h with
    | more hgap hread hrest =>
      obtain ⟨t, u, hds, hc⟩ := ih hrest
      exact ⟨t, u, .more hgap hread hds, hc⟩

theorem exists_standsBehind (h : Derives source (ds ++ c :: cs)) :
    ∃ before, c.StandsBehind source before ds ∧ c.line = 1 + before.count '\n' := by
  obtain ⟨t, u, hds, hread⟩ := reads_of_commands h
  cases hread with
  | @mk before s _ op ns hsource _ _ hoperands =>
    exact ⟨before, ⟨s, u, hsource, hds, hoperands⟩, rfl⟩

theorem parse_error (h : ∀ cs, ¬ Derives source cs) :
    ∃ e, parse source = .error e ∧ ((∃ line, e = .trailing line) ∨ ∃ e', e = .literal e') := by
  unfold parse
  cases hfrom : commandsFrom source source with
  | error e => exact ⟨_, rfl, .inr ⟨e, rfl⟩⟩
  | ok r =>
    obtain ⟨cs, left⟩ := r
    cases left with
    | nil => exact absurd (commandsFrom_sound (List.suffix_refl source) hfrom) (h cs)
    | cons d left => exact ⟨_, rfl, .inl ⟨_, rfl⟩⟩

/-- A source that is read as commands becomes one word for each of them, with one record for each
word, if all operands are in range. Otherwise the first command with an operand that is not is
blamed on the line of its keyword, for the first such operand, and only the commands before it are
recorded; this takes that its numbers and its line can be written. A source that the grammar does
not have is blamed on its text and never on an operand. -/
theorem ofSource_checks (source : String) :
    (∀ cs, parse source.toList = .ok cs →
      Derives source.toList cs ∧
      ((∀ c ∈ cs, c.Fits) → ∃ issued, List.Forall₂ Command.Records cs issued ∧
        ofSource source = ⟨issued, .ok (issued.map Issued.word)⟩) ∧
      ∀ i c, cs[i]? = some c → (∀ d ∈ cs.take i, d.Fits) → ¬ c.Fits →
        (∀ n ∈ c.operands, Writable n) →
        ∃ (issued : List Issued) (e : AssemblyError) (before : List Char),
          List.Forall₂ Command.Records (cs.take i) issued ∧ c.complaint? = some e.message ∧
          e.title = "AsmError" ∧
          ofSource source = ⟨issued, .error (if Writable c.line then e else .unwritable)⟩ ∧
          c.StandsBehind source.toList before (cs.take i) ∧ c.line = 1 + before.count '\n') ∧
    ((∀ cs, ¬ Derives source.toList cs) → ∃ e, ofSource source = ⟨[], .error e⟩ ∧
      ((∃ line, e = .trailing line) ∨ ∃ e', e = .literal e')) := by
  constructor
  · intro cs hparse
    have hfrom := parse_eq_ok_iff.1 hparse
    have hderives : Derives source.toList cs := commandsFrom_sound (List.suffix_refl _) hfrom
    have hlength : ∀ c ∈ cs, c.operands.length = arity c.operation := fun c hc =>
      (commandsFrom_complete (List.suffix_refl _) hfrom c hc).length_operands
    rw [ofSource_of_parse hparse]
    refine ⟨hderives, ofCommands_of_forall_fits hlength, ?_⟩
    intro i c hc hfits hmisfit hw
    have hsplit := eq_take_append_cons_drop hc
    obtain ⟨text, htext⟩ := Option.ne_none_iff_exists'.1 fun hnone =>
      hmisfit (Command.fits_iff.2 hnone)
    obtain ⟨issued, e, hrecords, rfl, htitle, hcommands⟩ :=
      ofCommands_of_complaint? (fun d hd => hlength d (List.mem_of_mem_take hd)) hfits
        (hlength c (List.mem_of_getElem? hc)) hw htext (cs.drop (i + 1))
    obtain ⟨before, hstands, hline⟩ := exists_standsBehind (hsplit ▸ hderives)
    rw [← hsplit] at hcommands
    refine ⟨issued, e, before, hrecords, htext, htitle, ?_, hstands, hline⟩
    simpa [naming] using hcommands
  · intro h
    obtain ⟨e, hparse, he⟩ := parse_error h
    exact ⟨e, ofSource_of_parse_error hparse, he⟩

/-- A command over three lines, two of whose registers do not exist. The first one is blamed on the
line of the keyword, after the record of the command before it. -/
theorem ofSource_checks_add :
    ∃ (issued : List Issued) (e : AssemblyError),
      ofSource "halt // x\nadd r0\nr4 // y\nr9 halt" = ⟨issued, .error e⟩ ∧
        issued.map Issued.operation = [.halt] ∧ e.title = "AsmError" ∧
        e.message = "line 2: no register r4" := by
  have hfrom : commandsFrom "halt // x\nadd r0\nr4 // y\nr9 halt".toList
      "halt // x\nadd r0\nr4 // y\nr9 halt".toList =
        .ok ([⟨.halt, [], 1⟩, ⟨.add, [0, 4, 9], 2⟩, ⟨.halt, [], 4⟩], []) := by
    rw [commandsFrom_of_found (c := ⟨.halt, [], 1⟩) rfl,
      commandsFrom_of_found (c := ⟨.add, [0, 4, 9], 2⟩) rfl,
      commandsFrom_of_found (c := ⟨.halt, [], 4⟩) rfl, commandsFrom_nil]
    rfl
  have hcomplaint : Command.complaint? ⟨.add, [0, 4, 9], 2⟩ = some "line 2: no register r4" := by
    decide +kernel
  have hline : Writable (2 : Nat) := by decide +kernel
  have hw : ∀ n ∈ [0, 4, (9 : Int)], Writable n := by decide +kernel
  obtain ⟨-, -, hmisfit⟩ := (ofSource_checks _).1 _ (parse_eq_ok_iff.2 hfrom)
  obtain ⟨issued, e, -, hrecords, htext, htitle, hsource, -⟩ :=
    hmisfit 1 ⟨.add, [0, 4, 9], 2⟩ rfl (by decide) (by decide) hw
  rw [if_pos hline] at hsource
  have hmessage := Option.some.inj (hcomplaint.symm.trans htext)
  refine ⟨issued, e, hsource, ?_, htitle, hmessage.symm⟩
  cases hrecords with
  | cons hhalt hnil =>
    cases hnil
    rw [List.map_cons, hhalt.operation, List.map_nil]

end Sources
end Assembly
end RegisterMachine
