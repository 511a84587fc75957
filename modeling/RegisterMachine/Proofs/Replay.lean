import RegisterMachine.Proofs.Normalization
import RegisterMachine.Proofs.Stopping

/-! # Replaying a trace

Every other line of a trace is the text of an instruction. Read as a source, these lines give the
program that was carried out, its words up to the halt. It is executed like the program that the
trace comes from, whatever stood behind the halt there.
-/
namespace RegisterMachine

/-- The elements at the odd positions of a list, the first position being zero. -/
def atOddPositions {α : Type} : List α → List α
  | _ :: a :: rest => a :: atOddPositions rest
  | _ => []

namespace Word

theorem atOddPositions_cons_traceFrom (line : String) (cells : List Int) (words : List Word) :
    atOddPositions (line :: traceFrom cells words) = words.map disassemble := by
  induction words generalizing line cells with
  | nil => rfl
  | cons w ws ih => rw [traceFrom, atOddPositions, ih, List.map_cons]

/-- The instructions of a trace are the disassembly of its words. -/
theorem intercalate_atOddPositions_trace (words : List Word) :
    String.intercalate "\n" (atOddPositions (trace words)) = Assembly.sourceOf words := by
  rw [trace, atOddPositions_cons_traceFrom, Assembly.sourceOf]

section Stop
variable {w : Word} {strict : Bool}

theorem Stops.of_strict (h : w.Stops strict) : w.Stops true := by
  rcases h with h | h | h | h
  · exact .inl h
  · exact .inr (.inl h)
  · exact .inr (.inr (.inl h))
  · exact .inr (.inr (.inr ⟨rfl, h.2⟩))

/-- What a strict machine gets past can be assembled. -/
theorem assembles_of_not_stops (h : ¬ w.Stops true) : w.Assembles := by
  have h0 := Instruction.opcode_ofWord w
  simp only [Stops, true_and] at h
  simp only [Assembles]
  omega

theorem canonical_of_not_stops (h : ¬ w.Stops strict) : w.canonical = w := by
  have hcode : (Instruction.ofWord w).opcode ≠ 0 := fun hcode => h (.inl hcode)
  rw [canonical, if_neg hcode]

theorem canonical_of_isHalt (h : w.isHalt = true) : w.canonical = 0 := by
  have hcode : (Instruction.ofWord w).opcode = 0 := by simpa [isHalt] using h
  rw [canonical, if_pos hcode]

theorem assembles_of_isHalt (h : w.isHalt = true) : w.Assembles :=
  .inl (by simpa [isHalt] using h)

end Stop
end Word

namespace Machine

section Halt
variable {words ws : List Word} {w : Word} {strict : Bool}

/-- An execution that ends well has come to a halt, and no word before it stops the run. -/
theorem exists_halt (h : (execute (.ofWords words) strict .endless).result = .ok ()) :
    ∃ ws w rest, words = ws ++ w :: rest ∧ (∀ v ∈ ws, ¬ v.Stops strict) ∧ w.isHalt = true := by
  rcases Word.exists_first (Word.Stops strict) words with hnone | ⟨k, w, hw, hstop, hfirst⟩
  · rw [execute_of_none hnone] at h
    cases h
  · have hends := execute_endsAt hfirst hw hstop
    refine ⟨words.take k, w, words.drop (k + 1), eq_take_append_cons_drop hw, hfirst, ?_⟩
    rcases Word.stops_cases hstop with hhalt | ⟨index, hindex⟩ | ⟨rfl, hcode⟩
    · exact hhalt
    · rw [execute_of_fault hfirst hw fun r hr => Word.fault?_of_lookup hindex hr k] at h
      cases h
    · rw [hends.unknown hcode] at h
      cases h

/-- What an execution does up to a halt does not depend on the words behind it. -/
theorem execute_append_halt (h : ∀ v ∈ ws, ¬ v.Stops strict) (hhalt : w.isHalt = true)
    (rest : List Word) :
    execute (.ofWords (ws ++ w :: rest)) strict .endless =
      ⟨beyond (ws ++ w :: rest) ws.length (Word.cellsAfter ws) strict w, Word.trace (ws ++ [w]),
        Word.events (ws ++ [w]), .ok ()⟩ := by
  have htake : (ws ++ w :: rest).take ws.length = ws := List.take_left
  have hsucc : (ws ++ w :: rest).take (ws.length + 1) = ws ++ [w] := by
    rw [List.append_cons]
    exact List.take_left' (by simp)
  have hfirst : ∀ v ∈ (ws ++ w :: rest).take ws.length, ¬ v.Stops strict := by rwa [htake]
  have hget : (ws ++ w :: rest)[ws.length]? = some w := by simp
  have hexecute := execute_of_halt hfirst hget hhalt
  rwa [htake, hsucc] at hexecute

end Halt

/-- If a strict execution halts, the instructions in its trace are a source of the words that were
executed, except that the last one is the halt without other bits. Executing these, strict or not,
gives the same trace and leaves the same registers and the same counter. -/
theorem execute_replays (words : List Word)
    (h : (execute (.ofWords words) true .endless).result = .ok ()) :
    let o := execute (.ofWords words) true .endless
    ∃ ws w, words.take o.machine.program.pc = ws ++ [w] ∧ w.isHalt = true ∧
      (Assembly.ofSource (String.intercalate "\n" (atOddPositions o.lines))).result =
        .ok (ws ++ [0]) ∧
      ∀ strict, (execute (.ofWords (ws ++ [0])) strict .endless).Alike o := by
  intro o
  obtain ⟨ws, w, rest, rfl, hws, hhalt⟩ := exists_halt h
  have ho : o = _ := execute_append_halt hws hhalt rest
  have hcanonical : (ws ++ [w]).map Word.canonical = ws ++ [0] := by
    rw [List.map_append, List.map_singleton, Word.canonical_of_isHalt hhalt]
    exact congrArg (· ++ [0]) ((List.map_congr_left fun v hv =>
      Word.canonical_of_not_stops (hws v hv)).trans (List.map_id ws))
  refine ⟨ws, w, ?_, hhalt, ?_, ?_⟩
  · rw [ho, List.append_cons]
    exact List.take_left' (by simp [beyond, amid])
  · rw [ho, Word.intercalate_atOddPositions_trace, Assembly.result_sourceOf_eq_ok_iff, hcanonical]
    refine ⟨?_, rfl⟩
    intro v hv
    rcases List.mem_append.1 hv with hv | hv
    · exact Word.assembles_of_not_stops (hws v hv)
    · rw [List.mem_singleton.1 hv]
      exact Word.assembles_of_isHalt hhalt
  · intro strict
    have hlenient : ∀ v ∈ ws, ¬ v.Stops strict := fun v hv hstop => hws v hv hstop.of_strict
    rw [← hcanonical, execute_canonical, ho, execute_append_halt hlenient hhalt []]
    exact ⟨rfl, rfl, rfl, rfl, rfl, rfl⟩

/-- A halt with other bits, with a word behind it that stops a strict machine. -/
theorem execute_replays_halt :
    (execute (.ofWords [0x1164, 0x0ABC, 0xF000]) true .endless).result = .ok () ∧
      (Assembly.ofSource (String.intercalate "\n" (atOddPositions
        (execute (.ofWords [0x1164, 0x0ABC, 0xF000]) true .endless).lines))).result =
          .ok [0x1164, 0x0000] ∧
      ∀ strict, (execute (.ofWords [0x1164, 0x0000]) strict .endless).Alike
        (execute (.ofWords [0x1164, 0x0ABC, 0xF000]) true .endless) := by
  have hfirst : ∀ v ∈ [(0x1164 : Word)], ¬ v.Stops true := by
    simp [Word.Stops, Instruction.ofWord, Word.width]
  have hhalts : execute (.ofWords [0x1164, 0x0ABC, 0xF000]) true .endless = _ :=
    execute_append_halt hfirst (w := 0x0ABC) (by decide) [0xF000]
  have h : (execute (.ofWords [0x1164, 0x0ABC, 0xF000]) true .endless).result = .ok () := by
    rw [hhalts]
  obtain ⟨ws, w, htake, -, hassemble, hreplays⟩ := execute_replays _ h
  have hprefix : [0x1164] ++ [0x0ABC] = ws ++ [w] := by
    rw [← htake, hhalts]
    rfl
  obtain rfl : [0x1164] = ws := List.append_inj_left' hprefix rfl
  exact ⟨h, hassemble, hreplays⟩

end Machine
end RegisterMachine
