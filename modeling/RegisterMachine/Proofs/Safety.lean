import RegisterMachine.Proofs.Issuing
import RegisterMachine.Proofs.Lockstep
import RegisterMachine.Proofs.Stopping

/-! # Assembled programs are safe

The words that come of a source are exactly those at which a run can only be stopped by a halt. So a
source with a halt command runs to its end and one without runs past its last word, strict or not.
-/
namespace RegisterMachine

namespace Word
variable {w : Word}

theorem isHalt_iff : w.isHalt = true ↔ (Instruction.ofWord w).operation? = some .halt := by
  rw [Instruction.operation?_eq_some_iff]
  simp [isHalt, Operation.opcode]

/-- Among the words that are assembled only a halt stops a run. -/
theorem Assembled.stops_iff (h : w.Assembled) (strict : Bool) :
    w.Stops strict ↔ w.isHalt = true := by
  rcases h with rfl | h | h
  · exact ⟨fun _ => rfl, fun _ => .inl rfl⟩
  · simp only [Stops, isHalt, decide_eq_true_eq]
    omega
  · simp only [Stops, isHalt, decide_eq_true_eq]
    omega

end Word

namespace Machine
variable {words : List Word}

theorem executeWords_toNat (words : List Word) (strict : Bool) (sink : Sink) :
    executeWords (words.map fun w => (w.toNat : Int)) strict sink =
      .ok (execute (.ofWords words) strict sink) := by
  have hrange : ∀ n ∈ words.map fun w => (w.toNat : Int), Word.InRange n := by
    intro n hn
    obtain ⟨w, _, rfl⟩ := List.mem_map.1 hn
    exact w.inRange_toNat
  rw [executeWords, Program.load_of_inRange hrange, Word.map_ofInt_toNat]
  rfl

/-- A program of assembled words runs to its first halt, and past its end if there is none. -/
theorem result_execute_of_assembled (h : ∀ w ∈ words, w.Assembled) (strict : Bool) :
    ((∃ w ∈ words, w.isHalt = true) → (execute (.ofWords words) strict .endless).result = .ok ()) ∧
    ((¬ ∃ w ∈ words, w.isHalt = true) →
      (execute (.ofWords words) strict .endless).result =
        .error (.pastEnd words.length words.length)) := by
  have hstops : ∀ vs : List Word, (∀ v ∈ vs, v ∈ words) → (∀ v ∈ vs, ¬ v.isHalt = true) →
      ∀ v ∈ vs, ¬ v.Stops strict := by
    intro vs hvs hno v hv
    rw [(h v (hvs v hv)).stops_iff]
    exact hno v hv
  rcases Word.exists_first (·.isHalt = true) words with hnone | ⟨k, w, hw, hhalt, hfirst⟩
  · constructor
    · rintro ⟨w, hw, hhalt⟩
      exact absurd hhalt (hnone w hw)
    · intro _
      rw [execute_of_none (hstops words (fun _ => id) hnone)]
  · constructor
    · intro _
      rw [execute_of_halt (hstops _ (fun _ => List.mem_of_mem_take) hfirst) hw hhalt]
    · intro hno
      exact absurd ⟨w, List.mem_of_getElem? hw, hhalt⟩ hno

end Machine

namespace Assembly
open Grammar Machine

section Commands
variable {cs : List Command} {words : List Word}

theorem assembled_of_issues (h : List.Forall₂ Command.Issues cs words) :
    ∀ w ∈ words, w.Assembled := by
  induction h with
  | nil => exact fun w hw => absurd hw List.not_mem_nil
  | cons hc _ ih => exact List.forall_mem_cons.2 ⟨(issue_eq_ok_iff.1 hc).1, ih⟩

theorem exists_isHalt_iff (h : List.Forall₂ Command.Issues cs words) :
    (∃ w ∈ words, w.isHalt = true) ↔ ∃ c ∈ cs, c.operation = .halt := by
  induction h with
  | nil => simp
  | @cons c w cs ws hc _ ih =>
    have hop : w.isHalt = true ↔ c.operation = .halt := by
      rw [Word.isHalt_iff, (issue_eq_ok_iff.1 hc).2.1, Option.some_inj]
    simp only [List.mem_cons, exists_eq_or_imp, ih, hop]

/-- Assembled words come from the same words by way of their disassembly. -/
theorem result_sourceOf (h : ∀ w ∈ words, w.Assembled) :
    (ofSource (sourceOf words)).result = .ok words := by
  rw [result_sourceOf_eq_ok_iff]
  refine ⟨fun w hw => (h w hw).assembles, ?_⟩
  exact ((List.map_congr_left fun w hw => (h w hw).canonical_eq).trans (List.map_id words)).symm

end Commands

/-- The words of a source are halts without other bits, or use registers that exist, and they are
the words of their own disassembly. They run to an end if the source has a halt command and past
their end otherwise, and there is no difference between a strict and a lenient run of them. -/
theorem ofSource_safe (source : String) (words : List Word)
    (h : (ofSource source).result = .ok words) :
    (∀ w ∈ words, w.Assembled) ∧
    (ofSource (sourceOf words)).result = .ok words ∧
    (∃ cs, parse source.toList = .ok cs ∧ Derives source.toList cs ∧
      ∀ strict, ∃ o,
        executeWords (words.map fun w => (w.toNat : Int)) strict .endless = .ok o ∧
        (o.result = .ok () ↔ ∃ c ∈ cs, c.operation = .halt) ∧
        ((¬ ∃ c ∈ cs, c.operation = .halt) →
          o.result = .error (.pastEnd words.length words.length))) ∧
    ∀ sink,
      let strict := execute (.ofWords words) true sink
      let lenient := execute (.ofWords words) false sink
      strict.result = lenient.result ∧ strict.lines = lenient.lines ∧
        strict.events = lenient.events ∧
        strict.machine.registers = lenient.machine.registers ∧
        strict.machine.program = lenient.machine.program := by
  cases hparse : parse source.toList with
  | error e => simp [ofSource, hparse] at h
  | ok cs =>
    simp only [ofSource, hparse] at h
    have hissues := result_ofCommands_eq_ok_iff.1 h
    have hassembled := assembled_of_issues hissues
    refine ⟨hassembled, result_sourceOf hassembled, ⟨cs, rfl, ?_, ?_⟩, ?_⟩
    · exact commandsFrom_sound (List.suffix_refl _) (parse_eq_ok_iff.1 hparse)
    · intro strict
      obtain ⟨hhalt, hend⟩ := result_execute_of_assembled hassembled strict
      rw [exists_isHalt_iff hissues] at hhalt hend
      refine ⟨_, executeWords_toNat words strict .endless, ⟨?_, hhalt⟩, hend⟩
      intro hok
      by_contra hno
      rw [hend hno] at hok
      cases hok
    · intro sink
      have hknown : ∀ w ∈ words, Known w :=
        fun w hw => ((assembles_iff w).1 (hassembled w hw).assembles).1
      dsimp only
      rw [execute_of_known hknown true false sink]
      exact ⟨rfl, rfl, rfl, rfl, rfl⟩

theorem ofSource_safe_halt :
    (ofSource "add r3 r0 // sum
r1 halt").result = .ok [0x2301, 0x0000] ∧
      ∃ o, executeWords [0x2301, 0x0000] true .endless = .ok o ∧ o.result = .ok () := by
  have hparse : parse "add r3 r0 // sum
r1 halt".toList =
      .ok [⟨.add, [3, 0, 1], 1⟩, ⟨.halt, [], 2⟩] := by
    refine parse_eq_ok_iff.2 ((commandsFrom_of_found (c := ⟨.add, [3, 0, 1], 1⟩) rfl).trans ?_)
    rw [commandsFrom_of_found (c := ⟨.halt, [], 2⟩) rfl, commandsFrom_nil]
    rfl
  have h : (ofSource "add r3 r0 // sum
r1 halt").result = .ok [0x2301, 0x0000] := by
    rw [ofSource, hparse]
    rfl
  obtain ⟨-, -, ⟨cs, hcs, -, hrun⟩, -⟩ := ofSource_safe _ _ h
  cases hparse.symm.trans hcs
  obtain ⟨o, ho, hresult, -⟩ := hrun true
  exact ⟨h, o, ho, hresult.2 ⟨⟨.halt, [], 2⟩, by simp, rfl⟩⟩

end Assembly
end RegisterMachine
