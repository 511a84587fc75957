import Mathlib.Data.List.Find
import RegisterMachine.Proofs.Disassembly

/-! # Assembling a disassembly

A disassembly is assembled to the words it was made of, all halts becoming the one that has no other
bits. Where that fails, a word outside of the instruction set is blamed before any register, since
a source is read as a whole before its commands are issued.
-/
namespace RegisterMachine
open Numeral

namespace Word

def registers (w : Word) : List Int :=
  let i := Instruction.ofWord w
  if i.opcode = 1 then [i.op1] else if i.opcode = 2 then [i.op1, i.op2, i.op3] else []

/-- The first operand that should be a register and is none. -/
def misfit? (w : Word) : Option Int := w.registers.find? fun r => decide (3 < r)

theorem registers_of_add {w : Word} (h : (Instruction.ofWord w).opcode = 2) :
    w.registers =
      [(Instruction.ofWord w).op1, (Instruction.ofWord w).op2, (Instruction.ofWord w).op3] := by
  simp [registers, h]

theorem registers_small (w : Word) : ∀ r ∈ w.registers, 0 ≤ r ∧ r < 16 := by
  have h1 := Instruction.op1_ofWord w
  have h2 := Instruction.op2_ofWord w
  have h3 := Instruction.op3_ofWord w
  dsimp only [registers]
  split
  · simp [h1]
  · split <;> simp [h1, h2, h3]

/-- The word with the bits that its operation ignores set to zero. -/
def canonical (w : Word) : Word := if (Instruction.ofWord w).opcode = 0 then 0 else w

/-- The word is of the instruction set, and all its registers exist. -/
def Assembles (w : Word) : Prop :=
  let i := Instruction.ofWord w
  i.opcode = 0 ∨ (i.opcode = 1 ∧ i.op1 ≤ 3) ∨
    (i.opcode = 2 ∧ i.op1 ≤ 3 ∧ i.op2 ≤ 3 ∧ i.op3 ≤ 3)

theorem pack_ofWord (w : Word) :
    pack (Instruction.ofWord w).opcode (Instruction.ofWord w).op1 (Instruction.ofWord w).op2
      (Instruction.ofWord w).op3 = w := by
  have hsum : 4096 * (Instruction.ofWord w).opcode + 256 * (Instruction.ofWord w).op1 +
      16 * (Instruction.ofWord w).op2 + (Instruction.ofWord w).op3 = (w.toNat : Int) := by
    simp only [Instruction.ofWord]
    omega
  rw [pack, hsum, ofInt_toNat]

theorem checkField_of_le {field : String} {n limit : Int} (h0 : 0 ≤ n) (h : n ≤ limit) :
    checkField field n limit = .ok () :=
  if_pos ⟨h0, h⟩

theorem encode_ofWord (w : Word) :
    encode (Instruction.ofWord w).opcode (Instruction.ofWord w).op1 (Instruction.ofWord w).op2
      (Instruction.ofWord w).op3 = .ok w := by
  have h0 := Instruction.opcode_ofWord w
  have h1 := Instruction.op1_ofWord w
  have h2 := Instruction.op2_ofWord w
  have h3 := Instruction.op3_ofWord w
  rw [encode, checkField_of_le h0.1 (Int.le_of_lt_add_one h0.2),
    checkField_of_le h1.1 (Int.le_of_lt_add_one h1.2),
    checkField_of_le h2.1 (Int.le_of_lt_add_one h2.2),
    checkField_of_le h3.1 (Int.le_of_lt_add_one h3.2), pack_ofWord]
  rfl

theorem encodeLoadi_ofWord {w : Word} (h : (Instruction.ofWord w).opcode = 1) :
    encodeLoadi (Instruction.ofWord w).op1 (Instruction.ofWord w).imm = .ok w := by
  have hi := Instruction.imm_ofWord w
  have h3 := Instruction.op3_ofWord w
  have himm := Instruction.imm_eq w
  have hhigh : (Instruction.ofWord w).imm / 16 = (Instruction.ofWord w).op2 := by omega
  have hlow : (Instruction.ofWord w).imm % 16 = (Instruction.ofWord w).op3 := by omega
  have hbyte : (Instruction.ofWord w).imm ≤ byte := by
    rw [byte_eq]
    omega
  have hw := encode_ofWord w
  rw [h] at hw
  rw [encodeLoadi, checkField_of_le hi.1 hbyte, hhigh, hlow]
  exact hw

theorem encodeAdd_ofWord {w : Word} (h : (Instruction.ofWord w).opcode = 2) :
    encodeAdd (Instruction.ofWord w).op1 (Instruction.ofWord w).op2 (Instruction.ofWord w).op3 =
      .ok w := by
  have hw := encode_ofWord w
  rw [h] at hw
  exact hw

end Word

namespace AssemblyError

theorem message_trailing (line : Nat) :
    (trailing line).message = "line " ++ decimal line ++ ": Expected end of text" := by
  have htext : ": " ++ "Expected end of text" = ": Expected end of text" := by simp
  calc (trailing line).message
      = "line " ++ decimal line ++ ": " ++ "Expected end of text" := rfl
    _ = "line " ++ decimal line ++ (": " ++ "Expected end of text") := String.append_assoc
    _ = "line " ++ decimal line ++ ": Expected end of text" := congrArg (_ ++ ·) htext

theorem message_noRegister (line r : Int) :
    (noRegister line r).message = "line " ++ decimal line ++ ": no register r" ++ decimal r := by
  have htext : ": " ++ "no register r" = ": no register r" := by simp
  calc (noRegister line r).message
      = "line " ++ decimal line ++ ": " ++ ("no register r" ++ decimal r) := rfl
    _ = "line " ++ decimal line ++ (": " ++ "no register r") ++ decimal r := by
      simp only [String.append_assoc]
    _ = "line " ++ decimal line ++ ": no register r" ++ decimal r :=
      congrArg (_ ++ · ++ decimal r) htext

end AssemblyError

namespace Assembly

def reissue (line : Nat) (w : Word) : Except AssemblyError Word :=
  match w.misfit? with
  | none => .ok w.canonical
  | some r => .error (naming [(line : Int)] (.noRegister line r) .unwritable)

section Issue
variable {w : Word} {op : Operation} {line : Nat} {r : Int}

theorem checkRegister_of_le (h0 : 0 ≤ r) (h : r ≤ 3) : checkRegister line r = .ok () :=
  if_pos ⟨h0, Int.lt_of_le_of_lt h (by decide)⟩

theorem naming_of_writable (line : Nat) (e : AssemblyError) (h : Writable r) :
    naming [(line : Int), r] e .unwritable = naming [(line : Int)] e .unwritable := by
  simp [naming, h]

theorem checkRegister_of_bad (line : Nat) (hr : Writable r) (h : r < 0 ∨ 3 < r) :
    checkRegister line r =
      .error (naming [(line : Int)] (.noRegister line r) .unwritable) := by
  have hstandard : ¬ (0 ≤ r ∧ r < RegisterFile.standardSize) := by
    have : RegisterFile.standardSize = 4 := rfl
    omega
  rw [checkRegister, if_neg hstandard, naming_of_writable line _ hr]

/-- The first register that does not exist is blamed, and none behind it is looked at. -/
theorem checkRegisters_eq (line : Nat) (rs : List Int) (h : ∀ r ∈ rs, Writable r) :
    checkRegisters line rs =
      match rs.find? fun r => decide (r < 0 ∨ 3 < r) with
      | none => .ok ()
      | some r => .error (naming [(line : Int)] (.noRegister line r) .unwritable) := by
  induction rs with
  | nil => rfl
  | cons r rs ih =>
    obtain ⟨hr, hrs⟩ := List.forall_mem_cons.1 h
    rw [checkRegisters]
    by_cases hbad : r < 0 ∨ 3 < r
    · rw [checkRegister_of_bad line hr hbad, List.find?_cons_of_pos (by simpa using hbad)]
      rfl
    · rw [checkRegister_of_le (by omega) (by omega), List.find?_cons_of_neg (by simpa using hbad)]
      exact ih hrs

theorem checkRegisters_registers (line : Nat) (w : Word) :
    checkRegisters line w.registers =
      match w.misfit? with
      | none => .ok ()
      | some r => .error (naming [(line : Int)] (.noRegister line r) .unwritable) := by
  have hsmall := w.registers_small
  have hfind : w.registers.find? (fun r => decide (r < 0 ∨ 3 < r)) = w.misfit? := by
    refine List.find?_congr fun r hr => decide_eq_decide.2 ?_
    have := hsmall r hr
    omega
  rw [checkRegisters_eq line _ fun r hr => writable_of_lt (by have := hsmall r hr; omega), hfind]

theorem issue_of_loadi (h : (Instruction.ofWord w).opcode = 1) :
    issueLoadi line [(Instruction.ofWord w).op1, (Instruction.ofWord w).imm] = reissue line w := by
  have h1 := Instruction.op1_ofWord w
  have hi := Instruction.imm_ofWord w
  have hbyte : (Instruction.ofWord w).imm ≤ byte := by
    rw [byte_eq]
    omega
  rw [issueLoadi, reissue, Word.misfit?, Word.registers, if_pos h]
  by_cases hle : (Instruction.ofWord w).op1 ≤ 3
  · have hcanonical : w.canonical = w := by simp [Word.canonical, h]
    rw [checkRegister_of_le h1.1 hle, checkImmediate, if_pos ⟨hi.1, hbyte⟩,
      Word.encodeLoadi_ofWord h, List.find?_cons_of_neg (by simpa using hle), hcanonical]
    rfl
  · have hw : Writable (Instruction.ofWord w).op1 := writable_of_lt (by omega)
    rw [checkRegister_of_bad line hw (by omega), List.find?_cons_of_pos (by simpa using hle)]
    rfl

theorem issue_of_add (h : (Instruction.ofWord w).opcode = 2) :
    issueAdd line [(Instruction.ofWord w).op1, (Instruction.ofWord w).op2,
      (Instruction.ofWord w).op3] = reissue line w := by
  have hcanonical : w.canonical = w := by simp [Word.canonical, h]
  have hcheck := checkRegisters_registers line w
  rw [Word.registers_of_add h] at hcheck
  rw [issueAdd, hcheck, reissue]
  cases w.misfit? with
  | some r => rfl
  | none =>
    rw [hcanonical]
    dsimp only
    rw [Word.encodeAdd_ofWord h]
    rfl

/-- The command of a word is issued as the word, unless one of its registers does not exist. -/
theorem issue_ofWord (h : (Instruction.ofWord w).operation? = some op) :
    issue op.opcode (Instruction.ofWord w).operands line = reissue line w := by
  have hopcode := Instruction.operation?_eq_some_iff.1 h
  cases op with
  | halt =>
    have hcode : (Instruction.ofWord w).opcode = 0 := hopcode
    have hmisfit : w.misfit? = none := by simp [Word.misfit?, Word.registers, hcode]
    rw [reissue, hmisfit, Word.canonical, if_pos hcode]
    rfl
  | loadi =>
    rw [Instruction.operands, h]
    exact issue_of_loadi hopcode
  | add =>
    rw [Instruction.operands, h]
    exact issue_of_add hopcode

end Issue

section Words
variable {w : Word} {ws : List Word}

/-- The words that a list of integers is assembled to again after it was disassembled. -/
def reassemble (words : List Int) : Except AssemblyError (List Word) :=
  (ofSource (sourceOf (words.map Word.ofInt))).result

theorem commandsOn_cons_of_known (line : Nat) (ws : List Word) (h : Known w) :
    ∃ op, (Instruction.ofWord w).operation? = some op ∧ commandsOn line (w :: ws) =
      ⟨op, (Instruction.ofWord w).operands, line⟩ :: commandsOn (line + 1) ws := by
  obtain ⟨op, hop⟩ := Option.ne_none_iff_exists'.1 h
  refine ⟨op, hop, ?_⟩
  rw [commandsOn, commandOn, hop]
  rfl

theorem ofCommands_commandsOn_cons (line : Nat) (ws : List Word) (h : Known w) :
    (ofCommands (commandsOn line (w :: ws))).result =
      (reissue line w).bind fun v =>
        (ofCommands (commandsOn (line + 1) ws)).result.map (v :: ·) := by
  obtain ⟨op, hop, hcommands⟩ := commandsOn_cons_of_known line ws h
  rw [hcommands, ofCommands]
  dsimp only
  rw [issue_ofWord hop]
  cases reissue line w <;> rfl

/-- The commands of words whose registers exist are issued as these words. -/
theorem ofCommands_of_fits (line : Nat) (hknown : ∀ w ∈ ws, Known w)
    (hfits : ∀ w ∈ ws, w.misfit? = none) :
    (ofCommands (commandsOn line ws)).result = .ok (ws.map Word.canonical) := by
  induction ws generalizing line with
  | nil => rfl
  | cons w ws ih =>
    obtain ⟨hw, hws⟩ := List.forall_mem_cons.1 hknown
    obtain ⟨hfit, hfits⟩ := List.forall_mem_cons.1 hfits
    rw [ofCommands_commandsOn_cons line ws hw, ih (line + 1) hws hfits, reissue, hfit]
    rfl

/-- The first register that does not exist is blamed, on the line of its word. -/
theorem ofCommands_of_misfit (line : Nat) (hknown : ∀ w ∈ ws, Known w) {i : Nat} {r : Int}
    (hw : ws[i]? = some w) (hr : w.misfit? = some r) (hfirst : ∀ v ∈ ws.take i, v.misfit? = none) :
    (ofCommands (commandsOn line ws)).result =
      .error (naming [((line + i : Nat) : Int)] (.noRegister (line + i : Nat) r) .unwritable) := by
  induction ws generalizing line i with
  | nil => cases hw
  | cons v ws ih =>
    obtain ⟨hv, hws⟩ := List.forall_mem_cons.1 hknown
    rw [ofCommands_commandsOn_cons line ws hv, reissue]
    cases i with
    | zero =>
      cases hw
      rw [hr]
      rfl
    | succ i =>
      obtain ⟨hfit, hfirst⟩ := List.forall_mem_cons.1 hfirst
      rw [hfit, ih (line + 1) hws hw hfirst, Nat.add_right_comm, Nat.add_assoc]
      rfl

theorem reassemble_of_known {words : List Int}
    (hknown : ∀ w ∈ words.map Word.ofInt, Known w) :
    reassemble words = (ofCommands (commandsOn 1 (words.map Word.ofInt))).result := by
  rw [reassemble, ofSource, parse_sourceOf_of_known _ hknown]

theorem reassemble_of_unknown {words : List Int} {i : Nat}
    (hw : (words.map Word.ofInt)[i]? = some w) (hunknown : ¬ Known w)
    (hfirst : ∀ v ∈ (words.map Word.ofInt).take i, Known v) :
    reassemble words = .error (.trailing (i + 1)) := by
  obtain ⟨hi, rfl⟩ := List.getElem?_eq_some_iff.1 hw
  have hparse := parse_sourceOf_of_unknown _ ((words.map Word.ofInt).drop (i + 1)) hfirst hunknown
  rw [← List.drop_eq_getElem_cons hi, List.take_append_drop,
    List.length_take_of_le (Nat.le_of_lt hi)] at hparse
  rw [reassemble, ofSource, hparse]

theorem known_iff (w : Word) : Known w ↔ (Instruction.ofWord w).opcode ≤ 2 := by
  have h0 := Instruction.opcode_ofWord w
  rw [Known, Ne, Instruction.operation?_eq_none_iff]
  omega

theorem assembles_iff (w : Word) : w.Assembles ↔ Known w ∧ w.misfit? = none := by
  have h0 := Instruction.opcode_ofWord w
  rw [known_iff, Word.Assembles, Word.misfit?, Word.registers]
  by_cases h1 : (Instruction.ofWord w).opcode = 1
  · simp [h1]
  · by_cases h2 : (Instruction.ofWord w).opcode = 2
    · simp [h2]
    · simp only [if_neg h1, if_neg h2, List.find?_nil, and_true]
      omega

section Reassemble
variable {words : List Int} {i : Nat} {r : Int}

theorem reassemble_of_misfit (hknown : ∀ w ∈ words.map Word.ofInt, Known w)
    (hw : (words.map Word.ofInt)[i]? = some w) (hr : w.misfit? = some r)
    (hfirst : ∀ v ∈ (words.map Word.ofInt).take i, v.misfit? = none) :
    reassemble words = .error (if Writable (i + 1 : Nat) then .noRegister (i + 1 : Nat) r
      else .unwritable) := by
  rw [reassemble_of_known hknown, ofCommands_of_misfit 1 hknown hw hr hfirst, Nat.add_comm 1 i]
  simp [naming]

theorem reassemble_of_assembles (h : ∀ w ∈ words.map Word.ofInt, w.Assembles) :
    reassemble words = .ok ((words.map Word.ofInt).map Word.canonical) := by
  have hknown : ∀ w ∈ words.map Word.ofInt, Known w := by
    intro w hw
    exact ((assembles_iff w).1 (h w hw)).1
  rw [reassemble_of_known hknown]
  apply ofCommands_of_fits 1 hknown
  intro w hw
  exact ((assembles_iff w).1 (h w hw)).2

theorem assembles_of_reassemble {out : List Word} (h : reassemble words = .ok out) :
    ∀ w ∈ words.map Word.ofInt, w.Assembles := by
  rcases Word.exists_first (¬ Known ·) (words.map Word.ofInt) with
    hknown | ⟨i, w, hw, hunknown, hfirst⟩
  · have hknown : ∀ w ∈ words.map Word.ofInt, Known w :=
      fun w hw => Classical.not_not.1 (hknown w hw)
    rcases Word.exists_first (·.misfit? ≠ none) (words.map Word.ofInt) with
      hfits | ⟨i, w, hw, hmisfit, hfirst⟩
    · intro w hw
      exact (assembles_iff w).2 ⟨hknown w hw, Classical.not_not.1 (hfits w hw)⟩
    · obtain ⟨r, hr⟩ := Option.ne_none_iff_exists'.1 hmisfit
      have hfirst := fun v hv => Classical.not_not.1 (hfirst v hv)
      rw [reassemble_of_misfit hknown hw hr hfirst] at h
      cases h
  · rw [reassemble_of_unknown hw hunknown fun v hv => Classical.not_not.1 (hfirst v hv)] at h
    cases h

/-- Words come of a disassembly if and only if all words of it assemble, and then they are the same
words without the bits that a halt ignores. -/
theorem result_sourceOf_eq_ok_iff {words out : List Word} :
    (ofSource (sourceOf words)).result = .ok out ↔
      (∀ w ∈ words, w.Assembles) ∧ out = words.map Word.canonical := by
  have hwords : reassemble (words.map fun w => (w.toNat : Int)) =
      (ofSource (sourceOf words)).result := by
    rw [reassemble, Word.map_ofInt_toNat]
  rw [← hwords]
  constructor
  · intro h
    have hall := assembles_of_reassemble h
    have hout := reassemble_of_assembles hall
    rw [Word.map_ofInt_toNat] at hall hout
    exact ⟨hall, Except.ok.inj (h.symm.trans hout)⟩
  · rintro ⟨hall, rfl⟩
    have hints : ∀ w ∈ (words.map fun w => (w.toNat : Int)).map Word.ofInt, w.Assembles := by
      rwa [Word.map_ofInt_toNat]
    have hout := reassemble_of_assembles hints
    rwa [Word.map_ofInt_toNat] at hout

end Reassemble

/-- What becomes of integers that are disassembled as words and assembled again. All of them are
there again, the halts without their ignored bits, if and only if none is outside of the
instruction set and all registers exist. Otherwise the first word outside of the instruction set is
blamed, and only without such a word the first register that does not exist. An error that names a
register writes its line, so it gives way where that number is too long to be written. -/
theorem reassemble_outcome (words : List Int) :
    ((∃ out, reassemble words = .ok out) ↔ ∀ w ∈ words.map Word.ofInt, w.Assembles) ∧
      (∀ out, reassemble words = .ok out →
        out.length = words.length ∧ out = (words.map Word.ofInt).map Word.canonical) ∧
      (∀ i w, (words.map Word.ofInt)[i]? = some w → 2 < (Instruction.ofWord w).opcode →
        (∀ v ∈ (words.map Word.ofInt).take i, (Instruction.ofWord v).opcode ≤ 2) →
        reassemble words = .error (.trailing (i + 1)) ∧
          (AssemblyError.trailing (i + 1)).title = "AsmError" ∧
          (AssemblyError.trailing (i + 1)).message =
            "line " ++ decimal (i + 1 : Nat) ++ ": Expected end of text") ∧
      ((∀ w ∈ words.map Word.ofInt, (Instruction.ofWord w).opcode ≤ 2) →
        ∀ i w r, (words.map Word.ofInt)[i]? = some w → w.misfit? = some r →
          (∀ v ∈ (words.map Word.ofInt).take i, v.misfit? = none) →
          reassemble words = .error (if Writable (i + 1 : Nat) then .noRegister (i + 1 : Nat) r
            else .unwritable) ∧
          (AssemblyError.noRegister (i + 1 : Nat) r).title = "AsmError" ∧
          (AssemblyError.noRegister (i + 1 : Nat) r).message =
            "line " ++ decimal (i + 1 : Nat) ++ ": no register r" ++ decimal r) := by
  refine ⟨⟨?_, ?_⟩, ?_, ?_, ?_⟩
  · rintro ⟨out, h⟩
    exact assembles_of_reassemble h
  · intro h
    exact ⟨_, reassemble_of_assembles h⟩
  · intro out h
    have hout := reassemble_of_assembles (assembles_of_reassemble h)
    rw [h] at hout
    cases hout
    simp
  · intro i w hw hopcode hfirst
    have hunknown : ¬ Known w := by
      intro hknown
      exact Int.not_lt.2 ((known_iff w).1 hknown) hopcode
    exact ⟨reassemble_of_unknown hw hunknown fun v hv => (known_iff v).2 (hfirst v hv), rfl,
      AssemblyError.message_trailing (i + 1)⟩
  · intro hknown i w r hw hr hfirst
    have hknown := fun v hv => (known_iff v).2 (hknown v hv)
    exact ⟨reassemble_of_misfit hknown hw hr hfirst, rfl, AssemblyError.message_noRegister _ r⟩

end Words
end Assembly
end RegisterMachine
