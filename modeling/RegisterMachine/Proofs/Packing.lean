import RegisterMachine.Proofs.Issuing

/-! # Packed fields

Fields are packed side by side into the bits of a word, none of them losing or sharing a bit, so the
word is decoded to the fields that it was packed from. The first field that does not fit is blamed,
in the order in which the fields are checked. In the other direction any integer is decoded, reduced
to a word, and packing its fields gives that word again.
-/
namespace RegisterMachine
open Numeral

structure Field where
  name : String
  value : Int
  limit : Int

namespace Field

def Fits (f : Field) : Prop := 0 ≤ f.value ∧ f.value ≤ f.limit

instance : DecidablePred Fits := fun _ => inferInstanceAs (Decidable (_ ∧ _))

/-- The error of a field that does not fit. It names the field unless its numbers are too long to be
written. -/
def misfit (f : Field) : FieldError :=
  naming [f.value, f.limit] (.misfit f.name f.value f.limit) .unwritable

def check : List Field → Except FieldError Unit
  | [] => .ok ()
  | f :: fs => do
    checkField f.name f.value f.limit
    check fs

section Check
variable {f : Field} {fs before after : List Field}

theorem check_cons_of_fits (h : f.Fits) (fs : List Field) : check (f :: fs) = check fs := by
  have hf : checkField f.name f.value f.limit = .ok () := if_pos h
  simp [check, hf, bind, Except.bind]

theorem check_cons_of_not_fits (h : ¬ f.Fits) (fs : List Field) :
    check (f :: fs) = .error f.misfit := by
  have hf : checkField f.name f.value f.limit = .error f.misfit := if_neg h
  simp [check, hf, bind, Except.bind]

theorem check_append (h : ∀ g ∈ before, g.Fits) (fs : List Field) :
    check (before ++ fs) = check fs := by
  induction before with
  | nil => rfl
  | cons g gs ih =>
    obtain ⟨hg, hgs⟩ := List.forall_mem_cons.1 h
    rw [List.cons_append, check_cons_of_fits hg]
    exact ih hgs

/-- Fields that fit make no difference behind others. -/
theorem check_append_of_forall_fits (h : ∀ g ∈ after, g.Fits) (fs : List Field) :
    check (fs ++ after) = check fs := by
  induction fs with
  | nil => simpa using check_append h []
  | cons f fs ih =>
    by_cases hf : f.Fits
    · simpa [check_cons_of_fits hf] using ih
    · simp [check_cons_of_not_fits hf]

theorem check_eq_ok_iff : check fs = .ok () ↔ ∀ f ∈ fs, f.Fits := by
  induction fs with
  | nil => simp [check]
  | cons f fs ih =>
    rw [List.forall_mem_cons]
    by_cases hf : f.Fits
    · simpa [check_cons_of_fits hf, hf] using ih
    · simp [check_cons_of_not_fits hf, hf]

/-- The first field that does not fit is blamed. -/
theorem check_eq_error (hsplit : fs = before ++ f :: after) (hbefore : ∀ g ∈ before, g.Fits)
    (hf : ¬ f.Fits) : check fs = .error f.misfit := by
  rw [hsplit, check_append hbefore]
  exact check_cons_of_not_fits hf after

end Check
end Field

namespace Word

/-- Fields are packed if all of them fit, as a word that is the given instruction. Otherwise the
first of them that does not fit is blamed. -/
structure Packs (fs : List Field) (i : Instruction) (packed : Except FieldError Word) : Prop where
  ok_iff : (∃ w, packed = .ok w) ↔ ∀ f ∈ fs, f.Fits
  decoded : ∀ w, packed = .ok w → Instruction.ofWord w = i
  bits : ∀ w, packed = .ok w → w = layout i
  number : ∀ w, packed = .ok w →
    (w.toNat : Int) = 4096 * i.opcode + 256 * i.op1 + 16 * i.op2 + i.op3
  blamed : ∀ before f after, fs = before ++ f :: after → (∀ g ∈ before, g.Fits) → ¬ f.Fits →
    packed = .error f.misfit

/-- Each of the four fields has four bits, and the immediate is the last two of them. -/
structure Packable (i : Instruction) : Prop where
  opcode : 0 ≤ i.opcode ∧ i.opcode ≤ 15
  op1 : 0 ≤ i.op1 ∧ i.op1 ≤ 15
  op2 : 0 ≤ i.op2 ∧ i.op2 ≤ 15
  op3 : 0 ≤ i.op3 ∧ i.op3 ≤ 15
  imm : i.imm = 16 * i.op2 + i.op3

section Pack
variable {i : Instruction} {fs : List Field} {packed : Except FieldError Word}

/-- Packing is determined by the check of the fields and the instruction that they make up. -/
theorem packs_of_check (hpackable : (∀ f ∈ fs, f.Fits) → Packable i)
    (h : packed = (Field.check fs).map fun _ => pack i.opcode i.op1 i.op2 i.op3) :
    Packs fs i packed := by
  have hok : ∀ w, packed = .ok w → Packable i ∧ w = pack i.opcode i.op1 i.op2 i.op3 := by
    intro w hw
    rw [h] at hw
    cases hcheck : Field.check fs with
    | ok u =>
      rw [hcheck] at hw
      exact ⟨hpackable (Field.check_eq_ok_iff.1 hcheck), (Except.ok.inj hw).symm⟩
    | error e => simp [hcheck, Except.map] at hw
  have hdecoded : ∀ w, packed = .ok w → Instruction.ofWord w = i := by
    intro w hw
    obtain ⟨⟨h0, h1, h2, h3, himm⟩, rfl⟩ := hok w hw
    rw [ofWord_pack h0 h1 h2 h3, ← himm]
  constructor
  case ok_iff =>
    rw [h, ← Field.check_eq_ok_iff]
    cases Field.check fs <;> simp [Except.map]
  case decoded => exact hdecoded
  case bits =>
    intro w hw
    rw [← hdecoded w hw, Instruction.layout_ofWord]
  case number =>
    intro w hw
    obtain ⟨⟨h0, h1, h2, h3, -⟩, rfl⟩ := hok w hw
    exact toNat_pack h0 h1 h2 h3
  case blamed =>
    intro before f after hsplit hbefore hf
    rw [h, Field.check_eq_error hsplit hbefore hf]
    rfl

end Pack

section Encode
variable (opcode op1 op2 op3 register imm target left right : Int)

theorem encode_eq_check :
    encode opcode op1 op2 op3 =
      (Field.check [⟨"opcode", opcode, 15⟩, ⟨"op1", op1, 15⟩, ⟨"op2", op2, 15⟩,
        ⟨"op3", op3, 15⟩]).map fun _ => pack opcode op1 op2 op3 := by
  simp only [encode, nibble_eq, Field.check, bind, Except.bind, pure, Except.pure]
  cases checkField "opcode" opcode 15 with
  | error e => rfl
  | ok _ =>
    cases checkField "op1" op1 15 with
    | error e => rfl
    | ok _ =>
      cases checkField "op2" op2 15 with
      | error e => rfl
      | ok _ => cases checkField "op3" op3 15 <;> rfl

theorem packs_encode :
    Packs [⟨"opcode", opcode, 15⟩, ⟨"op1", op1, 15⟩, ⟨"op2", op2, 15⟩, ⟨"op3", op3, 15⟩]
      ⟨opcode, op1, op2, op3, 16 * op2 + op3⟩ (encode opcode op1 op2 op3) := by
  refine packs_of_check ?_ (encode_eq_check opcode op1 op2 op3)
  intro h
  simp only [List.forall_mem_cons, Field.Fits] at h
  exact ⟨h.1, h.2.1, h.2.2.1, h.2.2.2.1, rfl⟩

/-- The fields into which an immediate is split need no check of their own. -/
theorem encodeLoadi_eq_check :
    encodeLoadi register imm =
      (Field.check [⟨"imm", imm, 255⟩, ⟨"op1", register, 15⟩]).map fun _ =>
        pack 1 register (imm / 16) (imm % 16) := by
  have hopcode : (⟨"opcode", 1, 15⟩ : Field).Fits := by simp [Field.Fits]
  have hbind : encodeLoadi register imm =
      (checkField "imm" imm 255).bind fun _ => encode 1 register (imm / 16) (imm % 16) := rfl
  by_cases himm : (⟨"imm", imm, 255⟩ : Field).Fits
  · have hcheck : checkField "imm" imm 255 = .ok () := if_pos himm
    have hsplit : ∀ f ∈ [(⟨"op2", imm / 16, 15⟩ : Field), ⟨"op3", imm % 16, 15⟩], f.Fits := by
      simp only [Field.Fits] at himm
      simp only [List.forall_mem_cons, List.not_mem_nil, IsEmpty.forall_iff, implies_true,
        and_true, Field.Fits]
      omega
    have hfields := Field.check_append_of_forall_fits hsplit [⟨"op1", register, 15⟩]
    rw [List.singleton_append] at hfields
    rw [hbind, hcheck, Field.check_cons_of_fits himm, ← hfields,
      ← Field.check_cons_of_fits hopcode]
    exact encode_eq_check 1 register (imm / 16) (imm % 16)
  · have hcheck : checkField "imm" imm 255 = .error (Field.misfit ⟨"imm", imm, 255⟩) :=
      if_neg himm
    rw [hbind, hcheck, Field.check_cons_of_not_fits himm]
    rfl

theorem packs_encodeLoadi :
    Packs [⟨"imm", imm, 255⟩, ⟨"op1", register, 15⟩]
      ⟨1, register, imm / 16, imm % 16, imm⟩ (encodeLoadi register imm) := by
  refine packs_of_check ?_ (encodeLoadi_eq_check register imm)
  intro h
  simp only [List.forall_mem_cons, Field.Fits] at h
  obtain ⟨himm, hregister, -⟩ := h
  refine ⟨⟨?_, ?_⟩, hregister, ⟨?_, ?_⟩, ⟨?_, ?_⟩, ?_⟩ <;> dsimp only <;> omega

theorem packs_encodeAdd :
    Packs [⟨"op1", target, 15⟩, ⟨"op2", left, 15⟩, ⟨"op3", right, 15⟩]
      ⟨2, target, left, right, 16 * left + right⟩ (encodeAdd target left right) := by
  have hopcode : (⟨"opcode", 2, 15⟩ : Field).Fits := by simp [Field.Fits]
  have hcheck := encode_eq_check 2 target left right
  rw [Field.check_cons_of_fits hopcode] at hcheck
  refine packs_of_check ?_ hcheck
  intro h
  simp only [List.forall_mem_cons, Field.Fits] at h
  exact ⟨⟨by simp, by simp⟩, h.1, h.2.1, h.2.2.1, rfl⟩

/-- The fields of an integer that is reduced to a word are packed to this word. -/
theorem encode_ofWord_ofInt (n : Int) :
    let i := Instruction.ofWord (ofInt n)
    ∃ w, encode i.opcode i.op1 i.op2 i.op3 = .ok w ∧ (w.toNat : Int) = n % 65536 := by
  exact ⟨ofInt n, encode_ofWord (ofInt n), toNat_ofInt n⟩

end Encode

/-- Any four integers are packed into a word if all of them have four bits, and the word is decoded
to the same four; the first that has more or is negative is blamed. The fields decoded from any
integer are packed to its residue modulo `2 ^ 16`. A `loadi` is packed from a register and a byte,
of which the byte is checked first, and an `add` from its three registers. -/
theorem encode_inverse :
    (∀ opcode op1 op2 op3 : Int,
      Packs [⟨"opcode", opcode, 15⟩, ⟨"op1", op1, 15⟩, ⟨"op2", op2, 15⟩, ⟨"op3", op3, 15⟩]
        ⟨opcode, op1, op2, op3, 16 * op2 + op3⟩ (encode opcode op1 op2 op3)) ∧
    (∀ n : Int, let i := Instruction.ofWord (ofInt n)
      ∃ w, encode i.opcode i.op1 i.op2 i.op3 = .ok w ∧ (w.toNat : Int) = n % 65536) ∧
    (∀ register imm : Int,
      Packs [⟨"imm", imm, 255⟩, ⟨"op1", register, 15⟩]
        ⟨1, register, imm / 16, imm % 16, imm⟩ (encodeLoadi register imm)) ∧
    ∀ target left right : Int,
      Packs [⟨"op1", target, 15⟩, ⟨"op2", left, 15⟩, ⟨"op3", right, 15⟩]
        ⟨2, target, left, right, 16 * left + right⟩ (encodeAdd target left right) := by
  refine ⟨packs_encode, encode_ofWord_ofInt, packs_encodeLoadi, ?_⟩
  exact packs_encodeAdd

/-- The opcode is blamed although the first operand does not fit either. -/
example : encode 16 (-1) 0 0 = .error (.misfit "opcode" 16 15) := by decide +kernel

end Word
end RegisterMachine
