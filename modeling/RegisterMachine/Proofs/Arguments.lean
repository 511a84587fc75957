import RegisterMachine.CommandLine.Options
import RegisterMachine.Proofs.WordText

/-! # Arguments read as flags and words

The full name of a flag is read as the flag, and a text that does not begin with a hyphen as a word.
So flags and words that are written one after the other are read back as they are.
-/
namespace RegisterMachine.CommandLine

def IsPlain (arg : String) : Prop := ∃ c cs, arg.toList = c :: cs ∧ c ≠ '-'

theorem isPlain_text (w : Word) : IsPlain w.text := by
  obtain ⟨c, cs, htext, hc⟩ := w.exists_toList_text
  refine ⟨c, cs, htext, ?_⟩
  rintro rfl
  cases hc

section Read
variable {arg : String} {args : List String} {arguments : List Argument}

theorem readArgument_of_isPlain (h : IsPlain arg) : readArgument arg = .ok [.word arg] := by
  obtain ⟨c, cs, htext, hc⟩ := h
  rw [readArgument, htext]
  split
  · simp_all
  · simp_all
  · rfl

theorem readArgument_name (f : Flag) : readArgument f.name = .ok [.flag f] := by
  cases f <;> rfl

theorem readArguments_cons {first : List Argument} (hne : arg ≠ "--")
    (hfirst : readArgument arg = .ok first) (hrest : readArguments args = .ok arguments) :
    readArguments (arg :: args) = .ok (first ++ arguments) := by
  rw [readArguments, if_neg hne, hfirst, hrest]
  rfl

theorem readArguments_of_isPlain (h : ∀ arg ∈ args, IsPlain arg) :
    readArguments args = .ok (args.map .word) := by
  induction args with
  | nil => rfl
  | cons arg args ih =>
    obtain ⟨harg, hargs⟩ := List.forall_mem_cons.1 h
    have hne : arg ≠ "--" := by
      rintro rfl
      obtain ⟨c, cs, htext, hc⟩ := harg
      cases htext
      exact hc rfl
    exact readArguments_cons hne (readArgument_of_isPlain harg) (ih hargs)

theorem readArguments_names (flags : List Flag) (h : readArguments args = .ok arguments) :
    readArguments (flags.map Flag.name ++ args) = .ok (flags.map .flag ++ arguments) := by
  induction flags with
  | nil => exact h
  | cons f fs ih =>
    have hne : f.name ≠ "--" := by cases f <;> decide
    rw [List.map_cons, List.map_cons, List.cons_append, readArguments_cons hne
      (readArgument_name f) ih]
    rfl

end Read

theorem readArguments_texts (flags : List Flag) (ws : List Word) :
    readArguments (flags.map Flag.name ++ ws.map Word.text) =
      .ok (flags.map .flag ++ (ws.map Word.text).map .word) := by
  apply readArguments_names flags (readArguments_of_isPlain _)
  intro text htext
  obtain ⟨w, -, rfl⟩ := List.mem_map.1 htext
  exact isPlain_text w

theorem words_texts (flags : List Flag) (texts : List String) :
    words (flags.map .flag ++ texts.map .word) = texts := by
  simp [words, List.filterMap_append, List.filterMap_map]

theorem contains_flag (flags : List Flag) (texts : List String) (f : Flag) :
    (flags.map Argument.flag ++ texts.map Argument.word).contains (.flag f) = flags.contains f := by
  rw [Bool.eq_iff_iff]
  simp

end RegisterMachine.CommandLine
