import RegisterMachine.Proofs.Constants
import RegisterMachine.Assembly.Command

/-! # The grammar of assembly text

What a source may look like, said without a reader. A judgment leads from a place of a text to a
later one, a place being what is left of the text there, and each of them may stop wherever its
form allows it: nothing asks for the longest gap or number. A source is commands with gaps before,
between and after them, and the keyword of a command stands apart from word characters.
-/
namespace RegisterMachine.Assembly.Grammar
open Numeral

/-- Blanks, line ends and comments. A comment goes up to the next line end or the end of all. -/
inductive Gap : List Char → List Char → Prop where
  | nil (s : List Char) : Gap s s
  | blank {c : Char} {s t : List Char} :
      c ∈ [' ', '\t', '\n', '\r'] → Gap s t → Gap (c :: s) t
  | comment {cs s t : List Char} :
      '\n' ∉ cs → (s = [] ∨ s.head? = some '\n') → Gap s t → Gap ('/' :: '/' :: (cs ++ s)) t

inductive Register : List Char → Int → List Char → Prop where
  | mk {ds t : List Char} : ds ≠ [] → (∀ c ∈ ds, c.isDigit = true) →
      Register ('r' :: (ds ++ t)) (value 10 (ds.map digitValue)) t

/-- The sign `#` and, after a gap, a marker with hexadecimal digits or decimal digits alone. -/
inductive Immediate : List Char → Int → List Char → Prop where
  | hexadecimal {x : Char} {ds s t : List Char} : Gap s ('0' :: x :: (ds ++ t)) →
      (x = 'x' ∨ x = 'X') → ds ≠ [] → (∀ c ∈ ds, isHexDigit c = true) →
      Immediate ('#' :: s) (value 16 (ds.map digitValue)) t
  | decimal {ds s t : List Char} : Gap s (ds ++ t) →
      ds ≠ [] → (∀ c ∈ ds, c.isDigit = true) →
      Immediate ('#' :: s) (value 10 (ds.map digitValue)) t

/-- The operands of each operation, every one of them after a gap. -/
inductive Operands : Operation → List Char → List Int → List Char → Prop where
  | halt (s : List Char) : Operands .halt s [] s
  | loadi {s s₁ s₂ s₃ t : List Char} {target imm : Int} :
      Gap s s₁ → Register s₁ target s₂ → Gap s₂ s₃ → Immediate s₃ imm t →
      Operands .loadi s [target, imm] t
  | add {s s₁ s₂ s₃ s₄ s₅ t : List Char} {target left right : Int} :
      Gap s s₁ → Register s₁ target s₂ → Gap s₂ s₃ → Register s₃ left s₄ →
      Gap s₄ s₅ → Register s₅ right t → Operands .add s [target, left, right] t

/-- A command at a place of the source. Its line is the one of its keyword, and no word character
of the source is next to the keyword. -/
inductive Reads (source : List Char) : List Char → Command → List Char → Prop where
  | mk {before s t : List Char} {op : Operation} {ns : List Int} :
      source = before ++ (op.mnemonic.toList ++ s) →
      (∀ c ∈ before.getLast?, isWordChar c = false) → (∀ c ∈ s.head?, isWordChar c = false) →
      Operands op s ns t →
      Reads source (op.mnemonic.toList ++ s) ⟨op, ns, 1 + before.count '\n'⟩ t

/-- Commands one after the other, with a gap before each of them and one at the end. -/
inductive Commands (source : List Char) : List Char → List Command → List Char → Prop where
  | done {s t : List Char} : Gap s t → Commands source s [] t
  | more {s t u v : List Char} {c : Command} {cs : List Command} :
      Gap s t → Reads source t c u → Commands source u cs v → Commands source s (c :: cs) v

def Derives (source : List Char) (cs : List Command) : Prop := Commands source source cs []

end RegisterMachine.Assembly.Grammar
