import RegisterMachine.Proofs.Congruence
import RegisterMachine.Proofs.HexText

/-! # Cells read back from what is shown of them

A snapshot shows the cells in two's complement, and a record of the state shows them as sign and
magnitude. Both name each cell apart from the others, so both determine all cells.
-/
namespace RegisterMachine
open Numeral

namespace RegisterFile

def readCell (text : String) : Except LiteralError Int := (Numeral.read .hexadecimal text).map wrap

/-- Hexadecimal digits as a snapshot shows them: at least four and at most sixteen, and more than
four only if they are needed. -/
structure IsGroup (text : String) : Prop where
  digits : ∀ c ∈ text.toList, IsUpperHexDigit c
  length_ge : 4 ≤ text.toList.length
  length_le : text.toList.length ≤ 16
  leading : 4 < text.toList.length → text.toList.head? ≠ some '0'

section Cell
variable (c : Int)

theorem residue_lt : (c % registerModulus).toNat < Nat.pow 16 16 := by
  have hpow : Nat.pow 16 16 = registerModulus := rfl
  rw [hpow, Int.toNat_lt (Int.emod_nonneg c (by decide))]
  exact Int.emod_lt_of_pos c (by decide)

theorem isGroup_cellText : IsGroup (cellText c) := by
  refine ⟨isUpperHexDigit_of_mem_paddedHex, ?_, ?_, head?_paddedHex (by decide)⟩
  · rw [cellText, length_paddedHex]
    exact Nat.le_max_left _ _
  · rw [cellText, length_paddedHex]
    exact Nat.max_le.2 ⟨by decide, length_digits_le (by decide) (residue_lt c)⟩

theorem readCell_cellText {c : Int} (h : IsCell c) : readCell (cellText c) = .ok c := by
  have hresidue : Congruent (c % registerModulus).toNat c := by
    rw [congruent_iff, Int.toNat_of_nonneg (Int.emod_nonneg c (by decide)), Int.emod_emod]
  rw [readCell, cellText, read_paddedHex]
  exact congrArg Except.ok ((wrap_congr hresidue).trans (wrap_of_isCell h))

theorem IsGroup.ne_nil {text : String} (h : IsGroup text) : text.toList ≠ [] :=
  List.ne_nil_of_length_pos (Nat.lt_of_lt_of_le (by decide) h.length_ge)

theorem IsGroup.not_mem_blank {text : String} (h : IsGroup text) : ' ' ∉ text.toList := by
  intro hblank
  exact absurd (h.digits ' ' hblank) (by decide)

end Cell

section Line
variable {groups groups' : List String}

/-- Groups are the pieces of their line between the blanks. -/
theorem splitOn_intercalate_groups (hne : groups ≠ []) (h : ∀ g ∈ groups, IsGroup g) :
    List.splitOn ' ' (String.intercalate " " groups).toList = groups.map String.toList := by
  rw [String.toList_intercalate]
  apply List.splitOn_intercalate ' '
  · intro l hl
    obtain ⟨g, hg, rfl⟩ := List.mem_map.1 hl
    exact (h g hg).not_mem_blank
  · simpa using hne

/-- There is only one way to take a line apart into groups. -/
theorem intercalate_groups_inj (h : ∀ g ∈ groups, IsGroup g) (h' : ∀ g ∈ groups', IsGroup g)
    (heq : String.intercalate " " groups = String.intercalate " " groups') : groups = groups' := by
  have hempty : ∀ gs : List String, (∀ g ∈ gs, IsGroup g) → String.intercalate " " gs = "" →
      gs = [] := by
    intro gs hgs hline
    by_contra hne
    have hsplit := splitOn_intercalate_groups hne hgs
    rw [hline] at hsplit
    obtain ⟨g, rest, rfl⟩ := List.exists_cons_of_ne_nil hne
    have hnil : g.toList = [] := (List.cons.inj hsplit).1.symm
    exact (hgs g List.mem_cons_self).ne_nil hnil
  by_cases hne : groups = []
  · subst hne
    exact (hempty groups' h' heq.symm).symm
  · have hne' : groups' ≠ [] := by
      rintro rfl
      exact hne (hempty groups h heq)
    have hsplit := splitOn_intercalate_groups hne h
    rw [heq, splitOn_intercalate_groups hne' h'] at hsplit
    have hinj : Function.Injective String.toList := fun _ _ => String.toList_inj.1
    exact (List.map_injective_iff.2 hinj hsplit).symm

end Line

section Snapshot
variable {r r' : RegisterFile}

theorem isGroup_of_mem (cells : List Int) : ∀ g ∈ cells.map cellText, IsGroup g := by
  intro g hg
  obtain ⟨c, _, rfl⟩ := List.mem_map.1 hg
  exact isGroup_cellText c

theorem filterMap_readCell {cells : List Int} (h : ∀ c ∈ cells, IsCell c) :
    (cells.map cellText).filterMap (fun g => (readCell g).toOption) = cells := by
  have hread : ∀ c ∈ cells, (readCell (cellText c)).toOption = some c := by
    intro c hc
    rw [readCell_cellText (h c hc)]
    rfl
  rw [List.filterMap_map]
  exact (List.filterMap_congr hread).trans List.filterMap_some

/-- Register files that show the same line are the same, whatever their sizes. -/
theorem eq_of_snapshot_eq (h : ∀ c ∈ r.cells, IsCell c) (h' : ∀ c ∈ r'.cells, IsCell c)
    (heq : r.snapshot = r'.snapshot) : r = r' := by
  have hline : String.intercalate " " (r.cells.map cellText) =
      String.intercalate " " (r'.cells.map cellText) := by
    rw [snapshot, snapshot, ← String.toList_inj, String.toList_append, String.toList_append] at heq
    exact String.toList_inj.1 (List.append_cancel_left heq)
  have hgroups := intercalate_groups_inj (isGroup_of_mem _) (isGroup_of_mem _) hline
  have hcells : r.cells = r'.cells := by
    rw [← filterMap_readCell h, ← filterMap_readCell h', hgroups]
  exact congrArg RegisterFile.mk hcells

end Snapshot
end RegisterFile

namespace Machine

/-- A record of the state is made of the counter and the signed text of each cell, numbered. -/
theorem text_state_values (pc : Nat) (cells : List Int) :
    (Event.state pc cells).text =
      String.intercalate " " (("PC:" ++ decimal pc) ::
        (cells.map hex).zipIdx.map fun p => decimal p.2 ++ ":" ++ p.1) := by
  have hcells : cells.zipIdx.map Event.cellText =
      (cells.map hex).zipIdx.map fun p => decimal p.2 ++ ":" ++ p.1 := by
    rw [List.zipIdx_map, List.map_map]
    apply List.map_congr_left
    intro p _
    rfl
  exact congrArg (fun shown => String.intercalate " " (("PC:" ++ decimal pc) :: shown)) hcells

/-- A snapshot is a line of groups of digits, one for each cell, from which the cells are read back.
No other register file shows the same line. The record that a machine logs of the same registers
shows a signed number for each cell, which is read as the cell itself. -/
theorem snapshot_lossless (r : RegisterFile) (h : ∀ c ∈ r.cells, IsCell c) :
    (∃ groups, r.snapshot = "regs = " ++ String.intercalate " " groups ∧
      List.Forall₂ (fun g c => RegisterFile.IsGroup g ∧ RegisterFile.readCell g = .ok c)
        groups r.cells) ∧
    (∀ r' : RegisterFile, (∀ c ∈ r'.cells, IsCell c) → r'.snapshot = r.snapshot → r' = r) ∧
    ∀ m : Machine, m.registers = r → ∃ e values, (logState.run m).events = [e] ∧
      e.text = String.intercalate " " (("PC:" ++ decimal m.program.pc) ::
        values.zipIdx.map fun p => decimal p.2 ++ ":" ++ p.1) ∧
      List.Forall₂ (fun v c => Numeral.read .hexadecimal v = .ok c) values r.cells := by
  refine ⟨⟨r.cells.map RegisterFile.cellText, rfl, ?_⟩, ?_, ?_⟩
  · rw [List.forall₂_map_left_iff, List.forall₂_same]
    intro c hc
    exact ⟨RegisterFile.isGroup_cellText c, RegisterFile.readCell_cellText (h c hc)⟩
  · intro r' h' heq
    exact RegisterFile.eq_of_snapshot_eq h' h heq
  · rintro m rfl
    refine ⟨_, m.registers.cells.map hex, rfl, text_state_values _ _, ?_⟩
    rw [List.forall₂_map_left_iff, List.forall₂_same]
    intro c _
    exact read_hex c

/-- The extreme values of a cell, and a value of five digits. -/
theorem snapshot_lossless_extremes :
    let r : RegisterFile := ⟨[-1, 2 ^ 63 - 1, -2 ^ 63, 0x12345, 0]⟩
    (∀ c ∈ r.cells, IsCell c) ∧
      r.snapshot = "regs = FFFFFFFFFFFFFFFF 7FFFFFFFFFFFFFFF 8000000000000000 12345 0000" ∧
      ∀ r' : RegisterFile, (∀ c ∈ r'.cells, IsCell c) → r'.snapshot = r.snapshot → r' = r := by
  intro r
  have hcells : ∀ c ∈ r.cells, IsCell c := by simp [r, IsCell]
  have hsnapshot : r.snapshot =
      "regs = FFFFFFFFFFFFFFFF 7FFFFFFFFFFFFFFF 8000000000000000 12345 0000" := by
    decide +kernel
  exact ⟨hcells, hsnapshot, (snapshot_lossless r hcells).2.1⟩

end Machine
end RegisterMachine
