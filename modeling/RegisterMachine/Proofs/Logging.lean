import Mathlib.Data.List.Basic
import Mathlib.Data.List.Induction
import RegisterMachine.Proofs.Contents
import RegisterMachine.Proofs.HexText

/-! # What an execution logs

Every word that is carried out leaves its records, one after the other: a warning if its opcode is
unknown, and the state after it. A word that faults leaves none. The addresses in the records, and
in the fault of an unknown opcode, are the indices of the words that they speak of.
-/
namespace RegisterMachine
open Numeral

/-- What is logged about a word with an index, behind which the machine holds four cells. -/
def Word.records (w : Word) (index : Nat) (cells : List Int) : List (Level × String) :=
  let opcode := (Instruction.ofWord w).opcode
  (if 2 < opcode then
    [(.warning, "Ignoring unknown opcode " ++ hex opcode ++ " at PC " ++ decimal index)]
  else []) ++
  [(.debug, "PC:" ++ decimal (index + 1 : Nat) ++ " 0:" ++ hex (cells.getD 0 0) ++
    " 1:" ++ hex (cells.getD 1 0) ++ " 2:" ++ hex (cells.getD 2 0) ++
    " 3:" ++ hex (cells.getD 3 0))]

namespace Event

def record (e : Event) : Level × String := (e.level, e.text)

theorem text_state {cells : List Int} (h : cells.length = 4) (pc : Nat) :
    (state pc cells).text = "PC:" ++ decimal pc ++ " 0:" ++ hex (cells.getD 0 0) ++
      " 1:" ++ hex (cells.getD 1 0) ++ " 2:" ++ hex (cells.getD 2 0) ++
      " 3:" ++ hex (cells.getD 3 0) := by
  match cells, h with
  | [a, b, c, d], _ =>
    have htext : (state pc [a, b, c, d]).text =
        "PC:" ++ decimal pc ++ " " ++ (decimal (0 : Nat) ++ ":" ++ hex a) ++ " " ++
          (decimal (1 : Nat) ++ ":" ++ hex b) ++ " " ++ (decimal (2 : Nat) ++ ":" ++ hex c) ++
          " " ++ (decimal (3 : Nat) ++ ":" ++ hex d) := rfl
    have hdecimal : decimal (0 : Nat) = "0" ∧ decimal (1 : Nat) = "1" ∧ decimal (2 : Nat) = "2" ∧
        decimal (3 : Nat) = "3" := by decide +kernel
    obtain ⟨h0, h1, h2, h3⟩ := hdecimal
    rw [htext, h0, h1, h2, h3, ← String.toList_inj]
    simp

end Event

namespace Word

theorem notes_ofWord (w : Word) (address : Int) :
    (Instruction.ofWord w).notes address =
      if 2 < (Instruction.ofWord w).opcode then
        [.ignored (Instruction.ofWord w).opcode address]
      else [] := by
  have hcode := Instruction.opcode_ofWord w
  unfold Instruction.notes
  cases hop : (Instruction.ofWord w).operation? with
  | none =>
    have hne := Instruction.operation?_eq_none_iff.1 hop
    rw [if_pos (by omega)]
  | some op =>
    have heq := Instruction.operation?_eq_some_iff.1 hop
    rw [if_neg]
    cases op <;> simp [heq, Operation.opcode]

/-- The events of a word, as they are logged. -/
theorem map_record (w : Word) (index : Nat) {cells : List Int} (h : cells.length = 4) :
    ((Instruction.ofWord w).notes index ++ [Event.state (index + 1) cells]).map Event.record =
      w.records index cells := by
  rw [notes_ofWord, records, List.map_append]
  congr 1
  · split <;> rfl
  · rw [List.map_singleton, Event.record, Event.text_state h, Event.level]

theorem map_record_events (ws : List Word) :
    (events ws).map Event.record =
      ws.zipIdx.flatMap fun p => p.1.records p.2 (cellsAfter (ws.take (p.2 + 1))) := by
  -- a record shows what all words up to its own have made, so the induction adds the last word
  induction ws using List.reverseRecOn with
  | nil => rfl
  | append_singleton ws w ih =>
    have hlength : (w.effect (cellsAfter ws)).length = 4 := by
      rw [length_effect, cellsAfter, length_effects]
      rfl
    have hlast := map_record w ws.length hlength
    have hcells : cellsAfter (ws ++ [w]) = w.effect (cellsAfter ws) := effects_concat _ _ _
    have hbefore : ∀ p ∈ ws.zipIdx, (ws ++ [w]).take (p.2 + 1) = ws.take (p.2 + 1) := by
      intro p hp
      have hlt := List.snd_lt_of_mem_zipIdx hp
      exact List.take_append_of_le_length (by omega)
    have hsame : ws.zipIdx.flatMap (fun p =>
          p.1.records p.2 (cellsAfter ((ws ++ [w]).take (p.2 + 1)))) =
        (events ws).map Event.record := by
      rw [ih]
      exact List.flatMap_congr fun p hp => by rw [hbefore p hp]
    rw [List.zipIdx_append, List.flatMap_append, hsame, List.zipIdx_singleton,
      List.flatMap_singleton, events, eventsFrom_concat, List.map_append, Nat.zero_add]
    simp only [List.take_of_length_le, List.length_append, List.length_singleton,
      Nat.le_refl, hcells]
    rw [← hlast]
    rfl

/-- An unknown opcode among the events of words is that of the word at its address. -/
theorem of_mem_events {ws : List Word} {opcode address : Int}
    (h : Event.ignored opcode address ∈ events ws) :
    ∃ k w, ws[k]? = some w ∧ address = (k : Nat) ∧ opcode = (Instruction.ofWord w).opcode ∧
      2 < opcode := by
  induction ws using List.reverseRecOn with
  | nil => cases h
  | append_singleton ws w ih =>
    rw [events, eventsFrom_concat, Nat.zero_add] at h
    rcases List.mem_append.1 h with h | h
    · obtain ⟨k, v, hv, hrest⟩ := ih h
      refine ⟨k, v, ?_, hrest⟩
      rw [List.getElem?_append_left (List.getElem?_eq_some_iff.1 hv).1, hv]
    · rw [notes_ofWord] at h
      split at h
      · rename_i hcode
        simp only [List.mem_append, List.mem_singleton, Event.ignored.injEq, reduceCtorEq,
          or_false] at h
        obtain ⟨rfl, rfl⟩ := h
        exact ⟨ws.length, w, List.getElem?_concat_length, rfl, rfl, hcode⟩
      · simp at h

end Word

namespace Machine

/-- The records of an execution are those of the words that it completes, in their order, with the
cells after each of these words. The numbers in them are upper-case digits of base sixteen with
their sign. A strict machine completes no unknown opcode, and so it warns of none. The address in a
warning and in the fault of an unknown opcode is the index of the word that has this opcode. -/
theorem execute_records (words : List Word) (strict : Bool) :
    let start := boot (.ofWords words) strict .endless
    let o := execute (.ofWords words) strict .endless
    ∃ n ≤ words.length, Completes start n ∧
      (o.events.map Event.record = (words.take n).zipIdx.flatMap fun p =>
        p.1.records p.2 ((rounds (p.2 + 1)).run start).machine.registers.cells) ∧
      (∀ n : Int, IsHex (hex n) n) ∧
      (strict = true → ∀ w ∈ words.take n, (Instruction.ofWord w).opcode ≤ 2) ∧
      (∀ opcode address : Int, .ignored opcode address ∈ o.events →
        ∃ k w, words[k]? = some w ∧ address = (k : Nat) ∧
          opcode = (Instruction.ofWord w).opcode ∧ 2 < opcode) ∧
      ∀ opcode address : Int, o.result = .error (.unknownOpcode opcode address) →
        ∃ w, words[n]? = some w ∧ address = n ∧ opcode = (Instruction.ofWord w).opcode ∧
          2 < opcode ∧
          (Fault.unknownOpcode opcode address).message =
            "Opcode " ++ hex opcode ++ " at PC " ++ decimal n := by
  intro start o
  obtain ⟨n, hn, hleaves⟩ := execute_leaves words strict
  refine ⟨n, hn, hleaves.completes, ?_, isHex_hex, hleaves.known, ?_, ?_⟩
  · have hcells : ∀ p ∈ (words.take n).zipIdx,
        Word.cellsAfter ((words.take n).take (p.2 + 1)) =
          ((rounds (p.2 + 1)).run start).machine.registers.cells := by
      intro p hp
      have hlt := List.snd_lt_of_mem_zipIdx hp
      have hle : p.2 + 1 ≤ n := by
        rw [List.length_take_of_le hn] at hlt
        omega
      rw [cells_rounds_boot (result_rounds_of_le hleaves.completes.1 hle), List.take_take,
        Nat.min_eq_left hle]
    rw [hleaves.events, Word.map_record_events]
    exact List.flatMap_congr fun p hp => by rw [hcells p hp]
  · intro opcode address h
    rw [hleaves.events] at h
    obtain ⟨k, w, hw, hrest⟩ := Word.of_mem_events h
    have hk := (List.getElem?_eq_some_iff.1 hw).1
    rw [List.length_take_of_le hn] at hk
    exact ⟨k, w, by rwa [List.getElem?_take_of_lt hk] at hw, hrest⟩
  · intro opcode address h
    obtain ⟨w, hw, hopcode, hcode, rfl⟩ := hleaves.unknown opcode address h
    exact ⟨w, hw, rfl, hopcode, hcode, rfl⟩

end Machine
end RegisterMachine
