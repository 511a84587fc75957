import RegisterMachine.Proofs.Decoding
import RegisterMachine.Proofs.Parsing

/-! # Reading the disassembly of words

The text of a word of the instruction set is a command of the grammar, and the text of any other
word is none. The lines of a disassembly are therefore read up to the first word that is outside of
the instruction set, and every command gets the line of its word.
-/
namespace RegisterMachine
open Numeral

namespace Numeral

theorem length_digits (base n : Nat) : (digits base n).length ≤ n + 1 := by
  fun_induction digits base n with
  | case1 n h ih =>
    have hlt : n / base < n := Nat.div_lt_self (by omega) (by omega)
    rw [List.length_append, List.length_singleton]
    omega
  | case2 n h => simp

section Decimal
variable {n : Int}

theorem toList_decimal (h : 0 ≤ n) : (decimal n).toList = (digits 10 n.natAbs).map upperDigit := by
  rw [decimal, signed, if_neg (Int.not_lt.2 h), String.toList_ofList]

theorem decimal_ne_nil (h : 0 ≤ n) : (decimal n).toList ≠ [] := by
  rw [toList_decimal h]
  simp [digits_ne_nil]

theorem isDigit_of_mem_decimal (h : 0 ≤ n) : ∀ c ∈ (decimal n).toList, c.isDigit = true := by
  rw [toList_decimal h]
  exact (map_digitValue_upperDigit (r := .decimal) (digits_lt (by decide))).1

theorem value_decimal (h : 0 ≤ n) : (value 10 ((decimal n).toList.map digitValue) : Int) = n := by
  have hlt : ∀ d ∈ digits 10 n.natAbs, d < Radix.decimal.base := digits_lt (by decide)
  rw [toList_decimal h, (map_digitValue_upperDigit hlt).2, value_digits, Int.natAbs_of_nonneg h]

theorem length_decimal (h : 0 ≤ n) : (decimal n).toList.length ≤ n.natAbs + 1 := by
  rw [toList_decimal h, List.length_map]
  exact length_digits 10 n.natAbs

end Decimal
end Numeral

namespace Assembly
open Grammar

theorem register_decimal {n : Int} (h : 0 ≤ n) (t : List Char) :
    Register ('r' :: ((decimal n).toList ++ t)) n t := by
  have hr := Register.mk (t := t) (decimal_ne_nil h) (isDigit_of_mem_decimal h)
  rwa [value_decimal h] at hr

theorem immediate_decimal {n : Int} (h : 0 ≤ n) (t : List Char) :
    Immediate ('#' :: ((decimal n).toList ++ t)) n t := by
  have hi := Immediate.decimal (.nil ((decimal n).toList ++ t)) (decimal_ne_nil h)
    (isDigit_of_mem_decimal h)
  rwa [value_decimal h] at hi

section Line
variable {w : Word} {op : Operation} {before rest : List Char}

theorem toList_disassemble_of_halt (h : (Instruction.ofWord w).operation? = some .halt) :
    w.disassemble.toList = Operation.halt.mnemonic.toList := by
  rw [Word.disassemble, Instruction.text, h]

theorem toList_disassemble_of_loadi (h : (Instruction.ofWord w).operation? = some .loadi) :
    w.disassemble.toList = Operation.loadi.mnemonic.toList ++
      ' ' :: 'r' :: ((decimal (Instruction.ofWord w).op1).toList ++
      ' ' :: '#' :: (decimal (Instruction.ofWord w).imm).toList) := by
  rw [Word.disassemble, Instruction.text, h]
  simp [Instruction.registerText]

theorem toList_disassemble_of_add (h : (Instruction.ofWord w).operation? = some .add) :
    w.disassemble.toList = Operation.add.mnemonic.toList ++
      ' ' :: 'r' :: ((decimal (Instruction.ofWord w).op1).toList ++
      ' ' :: 'r' :: ((decimal (Instruction.ofWord w).op2).toList ++
      ' ' :: 'r' :: (decimal (Instruction.ofWord w).op3).toList)) := by
  rw [Word.disassemble, Instruction.text, h]
  simp [Instruction.registerText]

theorem toList_disassemble_of_unknown (h : (Instruction.ofWord w).operation? = none) :
    w.disassemble.toList = ['o', 'o', 'p', 's'] := by
  rw [Word.disassemble, Instruction.text_of_unknown h]
  rfl

theorem not_isWordChar_head {d : Char} (h : isWordChar d = false) (s : List Char) :
    ∀ c ∈ (d :: s).head?, isWordChar c = false := by
  intro c hc
  cases hc
  exact h

theorem gap_space (s : List Char) : Gap (' ' :: s) s := .blank (by simp) (.nil s)

/-- The line of a word is its command wherever no word character is next to it. -/
theorem reads_disassemble (h : (Instruction.ofWord w).operation? = some op)
    (hbefore : ∀ c ∈ before.getLast?, isWordChar c = false)
    (hrest : ∀ c ∈ rest.head?, isWordChar c = false) :
    Reads (before ++ (w.disassemble.toList ++ rest)) (w.disassemble.toList ++ rest)
      ⟨op, (Instruction.ofWord w).operands, 1 + before.count '\n'⟩ rest := by
  have h1 := (Instruction.op1_ofWord w).1
  cases op with
  | halt =>
    rw [toList_disassemble_of_halt h, Instruction.operands, h]
    exact .mk rfl hbefore hrest (.halt rest)
  | loadi =>
    have hi := (Instruction.imm_ofWord w).1
    rw [toList_disassemble_of_loadi h, Instruction.operands, h]
    simp only [List.append_assoc, List.cons_append]
    refine .mk rfl hbefore (not_isWordChar_head rfl _) ?_
    exact .loadi (gap_space _) (register_decimal h1 _) (gap_space _) (immediate_decimal hi rest)
  | add =>
    have h2 := (Instruction.op2_ofWord w).1
    have h3 := (Instruction.op3_ofWord w).1
    rw [toList_disassemble_of_add h, Instruction.operands, h]
    simp only [List.append_assoc, List.cons_append]
    refine .mk rfl hbefore (not_isWordChar_head rfl _) ?_
    exact .add (gap_space _) (register_decimal h1 _) (gap_space _) (register_decimal h2 _)
      (gap_space _) (register_decimal h3 rest)

end Line

def commandOn (line : Nat) (w : Word) : Option Command :=
  (Instruction.ofWord w).operation?.map fun op => ⟨op, (Instruction.ofWord w).operands, line⟩

def commandsOn : Nat → List Word → List Command
  | _, [] => []
  | line, w :: ws => (commandOn line w).toList ++ commandsOn (line + 1) ws

def linesOf (ws : List Word) : List Char := ws.flatMap fun w => w.disassemble.toList ++ ['\n']

def Known (w : Word) : Prop := (Instruction.ofWord w).operation? ≠ none

instance : DecidablePred Known := fun w =>
  inferInstanceAs (Decidable ((Instruction.ofWord w).operation? ≠ none))

section Lines
variable {w : Word} {ws vs : List Word} {before tail : List Char}

theorem commandsOn_append (line : Nat) (ws vs : List Word) :
    commandsOn line (ws ++ vs) = commandsOn line ws ++ commandsOn (line + ws.length) vs := by
  induction ws generalizing line with
  | nil => rfl
  | cons w ws ih =>
    rw [List.cons_append, commandsOn, commandsOn, ih, List.append_assoc, List.length_cons,
      Nat.add_right_comm, Nat.add_assoc]

theorem not_mem_disassemble (w : Word) : '\n' ∉ w.disassemble.toList := by
  have hdecimal : ∀ n : Int, 0 ≤ n → '\n' ∉ (decimal n).toList := by
    intro n hn hmem
    cases isDigit_of_mem_decimal hn _ hmem
  have h1 := hdecimal _ (Instruction.op1_ofWord w).1
  have h2 := hdecimal _ (Instruction.op2_ofWord w).1
  have h3 := hdecimal _ (Instruction.op3_ofWord w).1
  have hi := hdecimal _ (Instruction.imm_ofWord w).1
  cases h : (Instruction.ofWord w).operation? with
  | none => simp [toList_disassemble_of_unknown h]
  | some op =>
    cases op with
    | halt => simp [toList_disassemble_of_halt h, Operation.mnemonic]
    | loadi => simp [toList_disassemble_of_loadi h, Operation.mnemonic, h1, hi]
    | add => simp [toList_disassemble_of_add h, Operation.mnemonic, h1, h2, h3]

theorem count_linesOf (ws : List Word) : (linesOf ws).count '\n' = ws.length := by
  induction ws with
  | nil => rfl
  | cons w ws ih =>
    have hcount := List.count_eq_zero_of_not_mem (not_mem_disassemble w)
    rw [linesOf] at ih
    rw [linesOf, List.flatMap_cons, List.count_append, List.count_append, hcount, ih]
    simp [Nat.add_comm]

theorem toList_sourceOf_cons_cons (w v : Word) (ws : List Word) :
    (sourceOf (w :: v :: ws)).toList =
      w.disassemble.toList ++ '\n' :: (sourceOf (v :: ws)).toList := by
  simp [sourceOf]

theorem toList_sourceOf_append (ws : List Word) (w : Word) (vs : List Word) :
    (sourceOf (ws ++ w :: vs)).toList = linesOf ws ++ (sourceOf (w :: vs)).toList := by
  induction ws with
  | nil => rfl
  | cons v ws ih =>
    have hcons : ∃ u us, ws ++ w :: vs = u :: us := by
      cases ws with
      | nil => exact ⟨w, vs, rfl⟩
      | cons u us => exact ⟨u, us ++ w :: vs, rfl⟩
    obtain ⟨u, us, hus⟩ := hcons
    rw [hus] at ih
    rw [List.cons_append, hus, toList_sourceOf_cons_cons, ih]
    simp [linesOf]

theorem toList_sourceOf_singleton (w : Word) : (sourceOf [w]).toList = w.disassemble.toList := by
  simp [sourceOf]

theorem length_disassemble (w : Word) : w.disassemble.toList.length ≤ digitLimit := by
  have h1 := Instruction.op1_ofWord w
  have h2 := Instruction.op2_ofWord w
  have h3 := Instruction.op3_ofWord w
  have hi := Instruction.imm_ofWord w
  have hlen1 := length_decimal h1.1
  have hlen2 := length_decimal h2.1
  have hlen3 := length_decimal h3.1
  have hleni := length_decimal hi.1
  rw [digitLimit]
  cases h : (Instruction.ofWord w).operation? with
  | none => simp [toList_disassemble_of_unknown h]
  | some op =>
    cases op with
    | halt => simp [toList_disassemble_of_halt h, Operation.mnemonic]
    | loadi =>
      simp only [toList_disassemble_of_loadi h, Operation.mnemonic, List.length_append,
        List.length_cons]
      have hword : "loadi".toList.length = 5 := rfl
      omega
    | add =>
      simp only [toList_disassemble_of_add h, Operation.mnemonic, List.length_append,
        List.length_cons]
      have hword : "add".toList.length = 3 := rfl
      omega

theorem shortDigits_sourceOf (words : List Word) : ShortDigits (sourceOf words).toList := by
  induction words with
  | nil => exact .of_length (by decide)
  | cons w ws ih =>
    have hline := ShortDigits.of_length (length_disassemble w)
    cases ws with
    | nil =>
      rw [toList_sourceOf_singleton]
      exact hline
    | cons v ws =>
      rw [toList_sourceOf_cons_cons]
      exact hline.append_cons rfl ih

theorem commandsFrom_disassemble {op : Operation} (h : (Instruction.ofWord w).operation? = some op)
    (hbefore : ∀ c ∈ before.getLast?, isWordChar c = false)
    (htail : ∀ c ∈ tail.head?, isWordChar c = false)
    (hshort : ShortDigits (w.disassemble.toList ++ tail)) :
    commandsFrom (before ++ (w.disassemble.toList ++ tail)) (w.disassemble.toList ++ tail) =
      (commandsFrom (before ++ (w.disassemble.toList ++ tail)) tail).map fun r =>
        ((commandOn (1 + before.count '\n') w).toList ++ r.1, r.2) := by
  have hread := reads_disassemble h hbefore htail
  have hfound := (command_attains hread hshort).found htail
  rw [commandsFrom_of_reads hread hfound, commandOn, h]
  rfl

/-- Lines of known words are read one after the other, whatever follows them. -/
theorem commandsFrom_linesOf (hknown : ∀ w ∈ ws, Known w)
    (hbefore : ∀ c ∈ before.getLast?, isWordChar c = false)
    (hshort : ShortDigits (linesOf ws ++ tail)) :
    commandsFrom (before ++ (linesOf ws ++ tail)) (linesOf ws ++ tail) =
      (commandsFrom (before ++ (linesOf ws ++ tail)) tail).map fun r =>
        (commandsOn (1 + before.count '\n') ws ++ r.1, r.2) := by
  induction ws generalizing before with
  | nil =>
    rw [linesOf, List.flatMap_nil, List.nil_append]
    cases commandsFrom (before ++ tail) tail <;> rfl
  | cons w ws ih =>
    obtain ⟨op, hop⟩ := Option.ne_none_iff_exists'.1 (hknown w List.mem_cons_self)
    have hline : linesOf (w :: ws) ++ tail =
        w.disassemble.toList ++ '\n' :: (linesOf ws ++ tail) := by
      simp [linesOf]
    have hsource : before ++ (w.disassemble.toList ++ '\n' :: (linesOf ws ++ tail)) =
        (before ++ (w.disassemble.toList ++ ['\n'])) ++ (linesOf ws ++ tail) := by
      simp
    have hcount : (before ++ (w.disassemble.toList ++ ['\n'])).count '\n' =
        before.count '\n' + 1 := by
      have hw := List.count_eq_zero_of_not_mem (not_mem_disassemble w)
      simp [hw]
    have hsuffix : linesOf ws ++ tail <:+ w.disassemble.toList ++ '\n' :: (linesOf ws ++ tail) :=
      ⟨w.disassemble.toList ++ ['\n'], by simp⟩
    rw [hline] at hshort ⊢
    rw [commandsFrom_disassemble hop hbefore (not_isWordChar_head rfl _) hshort,
      commandsFrom_of_gap (.blank (by simp) (.nil _)), hsource,
      ih (fun v hv => hknown v (List.mem_cons_of_mem w hv)) (fun c hc => ?_)
        (hshort.of_suffix hsuffix), hcount]
    · cases commandsFrom _ tail with
      | ok r => simp [Except.map, commandsOn, Nat.add_assoc]
      | error e => rfl
    · rw [← List.append_assoc, List.getLast?_concat] at hc
      cases hc
      rfl

theorem commandsFrom_start (hknown : ∀ w ∈ ws, Known w)
    (hshort : ShortDigits (linesOf ws ++ tail)) :
    commandsFrom (linesOf ws ++ tail) (linesOf ws ++ tail) =
      (commandsFrom (linesOf ws ++ tail) tail).map fun r => (commandsOn 1 ws ++ r.1, r.2) :=
  @commandsFrom_linesOf ws [] tail hknown (by simp) hshort

theorem isWordChar_of_getLast?_linesOf (ws : List Word) :
    ∀ c ∈ (linesOf ws).getLast?, isWordChar c = false := by
  intro c hc
  rcases List.eq_nil_or_concat' ws with rfl | ⟨ws, w, rfl⟩
  · cases hc
  · have hend : linesOf (ws ++ [w]) = (linesOf ws ++ w.disassemble.toList) ++ ['\n'] := by
      simp [linesOf]
    rw [hend, List.getLast?_concat] at hc
    cases hc
    rfl

/-- The disassembly of known words is read as their commands. -/
theorem parse_sourceOf_of_known (words : List Word) (hknown : ∀ w ∈ words, Known w) :
    parse (sourceOf words).toList = .ok (commandsOn 1 words) := by
  have hshort := shortDigits_sourceOf words
  rw [parse_eq_ok_iff]
  rcases List.eq_nil_or_concat' words with rfl | ⟨ws, w, rfl⟩
  · exact commandsFrom_nil _
  · obtain ⟨op, hop⟩ := Option.ne_none_iff_exists'.1 (hknown w (by simp))
    have hline : ShortDigits (w.disassemble.toList ++ []) :=
      .of_length (by simpa using length_disassemble w)
    have hlast := commandsFrom_disassemble hop (isWordChar_of_getLast?_linesOf ws)
      (by simp) hline
    have hinit : ∀ v ∈ ws, Known v := by
      intro v hv
      exact hknown v (List.mem_append_left _ hv)
    rw [toList_sourceOf_append, toList_sourceOf_singleton] at hshort ⊢
    have hlines := commandsFrom_start hinit hshort
    rw [List.append_nil] at hlast
    rw [hlines, hlast, commandsFrom_nil, commandsOn_append]
    simp [Except.map, commandsOn, count_linesOf]

theorem commandsFrom_of_unknown (source t : List Char) :
    commandsFrom source ('o' :: t) = .ok ([], 'o' :: t) := by
  have hskip : skip ('o' :: t) = 'o' :: t := skip_cons_of_solid rfl (by decide)
  have habsent : command source (skip ('o' :: t)) = .absent := by
    rw [hskip]
    rfl
  rw [commandsFrom_of_absent habsent, hskip]

/-- The disassembly is not read as commands if a word is unknown, and the first such is blamed. -/
theorem parse_sourceOf_of_unknown (ws vs : List Word) (hknown : ∀ w ∈ ws, Known w)
    (hw : ¬ Known w) :
    parse (sourceOf (ws ++ w :: vs)).toList = .error (.trailing (ws.length + 1)) := by
  have hshort := shortDigits_sourceOf (ws ++ w :: vs)
  obtain ⟨t, ht⟩ : ∃ t, (sourceOf (w :: vs)).toList = 'o' :: t := by
    have hoops := toList_disassemble_of_unknown (Classical.not_not.1 hw)
    cases vs with
    | nil => exact ⟨_, by rw [toList_sourceOf_singleton, hoops]⟩
    | cons v vs => exact ⟨_, by rw [toList_sourceOf_cons_cons, hoops]; rfl⟩
  rw [toList_sourceOf_append, ht] at hshort ⊢
  have hlines := commandsFrom_start hknown hshort
  rw [commandsFrom_of_unknown] at hlines
  rw [parse, hlines]
  simp [Except.map, lineOf_append, count_linesOf, Nat.add_comm]

end Lines
end Assembly
end RegisterMachine
