import RegisterMachine.Assembly.Token

/-! # Commands of a source

A source is read as commands, one after the other, as long as there is a complete one. What is left
then, after a gap, has to be the end of the source.
-/
namespace RegisterMachine.Assembly
open Numeral

structure Command where
  operation : Operation
  operands : List Int
  /-- The line of the keyword. -/
  line : Nat
  deriving DecidableEq, Repr

def operands : Operation → List Char → Scan (List Int)
  | .halt, s => .found [] s
  | .loadi, s =>
    (register s).bind fun target s =>
    (immediate s).bind fun imm s => .found [target, imm] s
  | .add, s =>
    (register s).bind fun target s =>
    (register s).bind fun left s =>
    (register s).bind fun right s => .found [target, left, right] s

/-- The command at a place of the source that is not in a gap. -/
def command (source rest : List Char) : Scan Command :=
  match operation? source rest with
  | some (op, after) =>
    (operands op after).bind fun numbers left => .found ⟨op, numbers, lineOf source rest⟩ left
  | none => .absent

theorem Scan.bind_found {α β : Type} {s : Scan α} {f : α → List Char → Scan β} {b : β}
    {rest : List Char} (h : s.bind f = .found b rest) :
    ∃ a mid, s = .found a mid ∧ f a mid = .found b rest := by
  cases s with
  | found a mid => exact ⟨a, mid, rfl, h⟩
  | absent => cases h
  | refused e => cases h

theorem length_operands {op : Operation} {s rest : List Char} {ns : List Int}
    (h : operands op s = .found ns rest) : rest.length ≤ s.length := by
  cases op with
  | halt =>
    cases h
    exact Nat.le_refl _
  | loadi =>
    obtain ⟨_, _, h1, h⟩ := Scan.bind_found h
    obtain ⟨_, _, h2, h⟩ := Scan.bind_found h
    cases h
    have := length_register h1
    have := length_immediate h2
    omega
  | add =>
    obtain ⟨_, _, h1, h⟩ := Scan.bind_found h
    obtain ⟨_, _, h2, h⟩ := Scan.bind_found h
    obtain ⟨_, _, h3, h⟩ := Scan.bind_found h
    cases h
    have := length_register h1
    have := length_register h2
    have := length_register h3
    omega

theorem keyword?_eq_some {source word rest after : List Char}
    (h : keyword? source word rest = some after) : rest = word ++ after := by
  unfold keyword? at h
  split at h
  · rename_i hp
    split at h
    · cases h
      exact afterWord?_eq_some_iff.1 hp
    · cases h
  · cases h

theorem operation?_eq_some {source rest after : List Char} {op : Operation}
    (h : operation? source rest = some (op, after)) : rest = op.mnemonic.toList ++ after := by
  obtain ⟨o, _, ho⟩ := List.exists_of_findSome?_eq_some h
  obtain ⟨a, ha, he⟩ := Option.map_eq_some_iff.1 ho
  cases he
  exact keyword?_eq_some ha

theorem length_command {source rest left : List Char} {c : Command}
    (h : command source rest = .found c left) : left.length < rest.length := by
  unfold command at h
  split at h
  · rename_i op after ho
    obtain ⟨_, _, hn, h⟩ := Scan.bind_found h
    cases h
    have hlen := length_operands hn
    have hpos : 0 < op.mnemonic.toList.length := by cases op <;> decide
    rw [operation?_eq_some ho, List.length_append]
    omega
  · cases h

/-- The commands from a place on, and what is left when no further one is complete. -/
def commandsFrom (source s : List Char) : Except LiteralError (List Command × List Char) :=
  match _h : command source (skip s) with
  | .found c rest =>
    match commandsFrom source rest with
    | .ok (cs, left) => .ok (c :: cs, left)
    | .error e => .error e
  | .absent => .ok ([], skip s)
  | .refused e => .error e
termination_by s.length
decreasing_by exact Nat.lt_of_lt_of_le (length_command _h) (length_skip s)

end RegisterMachine.Assembly
