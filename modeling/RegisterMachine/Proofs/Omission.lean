import RegisterMachine.Proofs.Replay

/-! # Programs without their unknown words

A lenient machine passes over the words that it does not know, and what it does with the others
does not depend on their addresses. So these words can be left out of a program: the execution ends
in the same way and with the same registers, and its trace lacks what is traced of them, each time a
line that says so and the registers once more.
-/
namespace RegisterMachine

/-- What is left of a trace. The flag tells whether the first line is the one after an unknown
instruction. -/
def withoutUnknownFrom : Bool → List String → List String
  | _, [] => []
  | true, _ :: lines => withoutUnknownFrom false lines
  | false, line :: lines =>
    if line = Instruction.unknownText then withoutUnknownFrom true lines
    else line :: withoutUnknownFrom false lines

/-- The lines without each unknown instruction and the line directly after it. -/
def withoutUnknown (lines : List String) : List String := withoutUnknownFrom false lines

section Lines
variable {line : String}

theorem withoutUnknown_cons_of_ne (h : line ≠ Instruction.unknownText) (lines : List String) :
    withoutUnknown (line :: lines) = line :: withoutUnknown lines :=
  if_neg h

theorem withoutUnknown_cons_unknownText (shown : String) (lines : List String) :
    withoutUnknown (Instruction.unknownText :: shown :: lines) = withoutUnknown lines := by
  rw [withoutUnknown, withoutUnknownFrom, if_pos rfl]
  rfl

theorem withoutUnknown_of_not_mem {lines : List String} (h : Instruction.unknownText ∉ lines) :
    withoutUnknown lines = lines := by
  induction lines with
  | nil => rfl
  | cons line lines ih =>
    rw [List.mem_cons, not_or] at h
    rw [withoutUnknown_cons_of_ne (Ne.symm h.1), ih h.2]

theorem RegisterFile.snapshot_ne_unknownText (r : RegisterFile) :
    r.snapshot ≠ Instruction.unknownText := by
  intro h
  have hlist := congrArg String.toList h
  simp [snapshot, Instruction.unknownText] at hlist

end Lines

namespace Word

def known (words : List Word) : List Word := words.filter fun w => (Instruction.ofWord w).opcode ≤ 2

section Known
variable {w : Word} {ws : List Word}

theorem known_append (ws vs : List Word) : known (ws ++ vs) = known ws ++ known vs :=
  List.filter_append ws vs

theorem known_cons_of_le (h : (Instruction.ofWord w).opcode ≤ 2) (ws : List Word) :
    known (w :: ws) = w :: known ws :=
  List.filter_cons_of_pos (by simpa using h)

theorem known_cons_of_lt (h : 2 < (Instruction.ofWord w).opcode) (ws : List Word) :
    known (w :: ws) = known ws :=
  List.filter_cons_of_neg (by simpa using h)

theorem mem_of_mem_known (h : w ∈ known ws) : w ∈ ws := List.mem_of_mem_filter h

theorem length_eq_length_known (ws : List Word) :
    ws.length = (known ws).length + ws.countP fun w => 2 < (Instruction.ofWord w).opcode := by
  induction ws with
  | nil => rfl
  | cons w ws ih =>
    by_cases h : 2 < (Instruction.ofWord w).opcode
    · rw [known_cons_of_lt h, List.countP_cons_of_pos (by simpa using h), List.length_cons, ih,
        Nat.add_assoc]
    · rw [known_cons_of_le (Int.not_lt.1 h), List.countP_cons_of_neg (by simpa using h),
        List.length_cons, List.length_cons, ih, Nat.add_right_comm]

theorem operation?_eq_none_of_lt (h : 2 < (Instruction.ofWord w).opcode) :
    (Instruction.ofWord w).operation? = none := by
  rw [Instruction.operation?_eq_none_iff]
  omega

theorem disassemble_of_lt (h : 2 < (Instruction.ofWord w).opcode) :
    w.disassemble = Instruction.unknownText :=
  Instruction.text_of_unknown (operation?_eq_none_of_lt h)

theorem disassemble_ne_unknownText (h : (Instruction.ofWord w).opcode ≤ 2) :
    w.disassemble ≠ Instruction.unknownText := by
  intro htext
  have hlist := congrArg String.toList htext
  obtain ⟨op, hop⟩ := Option.ne_none_iff_exists'.1 ((Assembly.known_iff w).2 h)
  cases op with
  | halt => simp [Assembly.toList_disassemble_of_halt hop, Operation.mnemonic,
      Instruction.unknownText] at hlist
  | loadi => simp [Assembly.toList_disassemble_of_loadi hop, Operation.mnemonic,
      Instruction.unknownText] at hlist
  | add => simp [Assembly.toList_disassemble_of_add hop, Operation.mnemonic,
      Instruction.unknownText] at hlist

theorem effect_of_lt (h : 2 < (Instruction.ofWord w).opcode) (cells : List Int) :
    w.effect cells = cells := by
  rw [effect, if_neg (by omega), if_neg (by omega)]

theorem opcode_le_of_isHalt (h : w.isHalt = true) : (Instruction.ofWord w).opcode ≤ 2 := by
  have hcode : (Instruction.ofWord w).opcode = 0 := by simpa [isHalt] using h
  omega

theorem opcode_le_of_lookup {index : Int}
    (h : (Instruction.ofWord w).lookups.find? (3 < ·) = some index) :
    (Instruction.ofWord w).opcode ≤ 2 := by
  rw [← Assembly.known_iff]
  intro hop
  simp [Instruction.lookups, hop] at h

end Known

section Trace
variable {more : List String}

theorem effects_known (cells : List Int) (ws : List Word) :
    effects cells (known ws) = effects cells ws := by
  induction ws generalizing cells with
  | nil => rfl
  | cons w ws ih =>
    by_cases h : 2 < (Instruction.ofWord w).opcode
    · rw [known_cons_of_lt h, effects_cons, effect_of_lt h, ih]
    · rw [known_cons_of_le (Int.not_lt.1 h), effects_cons, effects_cons, ih]

theorem withoutUnknown_traceFrom (cells : List Int) (ws : List Word) (more : List String) :
    withoutUnknown (traceFrom cells ws ++ more) =
      traceFrom cells (known ws) ++ withoutUnknown more := by
  induction ws generalizing cells with
  | nil => rfl
  | cons w ws ih =>
    rw [traceFrom, List.cons_append, List.cons_append]
    by_cases h : 2 < (Instruction.ofWord w).opcode
    · rw [disassemble_of_lt h, withoutUnknown_cons_unknownText, effect_of_lt h, known_cons_of_lt h,
        ih]
    · have hle := Int.not_lt.1 h
      rw [withoutUnknown_cons_of_ne (disassemble_ne_unknownText hle),
        withoutUnknown_cons_of_ne (RegisterFile.snapshot_ne_unknownText _), known_cons_of_le hle,
        traceFrom, ih]
      rfl

/-- Around an unknown instruction the registers are shown twice as they are. -/
theorem exists_snapshot_of_traceFrom (hmore : Instruction.unknownText ∉ more) (cells : List Int)
    (ws : List Word) (before after : List String)
    (h : RegisterFile.snapshot ⟨cells⟩ :: (traceFrom cells ws ++ more) =
      before ++ Instruction.unknownText :: after) :
    ∃ r : RegisterFile, before.getLast? = some r.snapshot ∧ after.head? = some r.snapshot := by
  have hshown : ∀ cells, RegisterFile.snapshot ⟨cells⟩ ≠ Instruction.unknownText :=
    fun cells => RegisterFile.snapshot_ne_unknownText ⟨cells⟩
  induction ws generalizing cells before with
  | nil =>
    have hmem : Instruction.unknownText ∈ RegisterFile.snapshot ⟨cells⟩ :: more := by
      rw [traceFrom, List.nil_append] at h
      simp [h]
    rcases List.mem_cons.1 hmem with heq | hmem
    · exact absurd heq.symm (hshown cells)
    · exact absurd hmem hmore
  | cons w ws ih =>
    rw [traceFrom] at h
    cases before with
    | nil => exact absurd (List.cons.inj h).1 (hshown cells)
    | cons shown before =>
      obtain ⟨hcells, hrest⟩ := List.cons.inj h
      cases before with
      | nil =>
        obtain ⟨htext, rfl⟩ := List.cons.inj hrest
        have hlt : 2 < (Instruction.ofWord w).opcode := by
          by_contra hle
          exact disassemble_ne_unknownText (Int.not_lt.1 hle) htext
        exact ⟨⟨cells⟩, by rw [hcells]; rfl, by rw [effect_of_lt hlt]; rfl⟩
      | cons text before =>
        obtain ⟨-, hrest⟩ := List.cons.inj hrest
        obtain ⟨r, hbefore, hafter⟩ := ih (w.effect cells) before hrest
        refine ⟨r, ?_, hafter⟩
        cases before with
        | nil => cases hbefore
        | cons line before =>
          rw [List.getLast?_cons_cons, List.getLast?_cons_cons]
          exact hbefore

end Trace
end Word

/-- The trace `few` is `all` without its unknown instructions and the lines after them, each of
which repeats the line before the instruction. -/
structure OmitsUnknown (all few : List String) : Prop where
  eq : few = withoutUnknown all
  repeated : ∀ before after, all = before ++ Instruction.unknownText :: after →
    ∃ r : RegisterFile, before.getLast? = some r.snapshot ∧ after.head? = some r.snapshot

theorem Word.omitsUnknown_trace_append {more : List String}
    (hmore : Instruction.unknownText ∉ more) (ws : List Word) :
    OmitsUnknown (trace ws ++ more) (trace (known ws) ++ more) where
  eq := by
    rw [trace, trace, List.cons_append, List.cons_append,
      withoutUnknown_cons_of_ne (RegisterFile.snapshot_ne_unknownText _), withoutUnknown_traceFrom,
      withoutUnknown_of_not_mem hmore]
  repeated := exists_snapshot_of_traceFrom hmore _ ws

theorem Word.omitsUnknown_trace (ws : List Word) :
    OmitsUnknown (trace ws) (trace (known ws)) := by
  simpa using omitsUnknown_trace_append List.not_mem_nil ws

namespace Machine

section Fault
variable {ws : List Word} {w : Word} {strict : Bool} {index : Int}

/-- An execution up to a word with a missing register does not depend on the words behind it. -/
theorem execute_append_lookup (h : ∀ v ∈ ws, ¬ v.Stops strict)
    (hindex : (Instruction.ofWord w).lookups.find? (3 < ·) = some index) (rest : List Word) :
    let o := execute (.ofWords (ws ++ w :: rest)) strict .endless
    o.lines = Word.trace ws ++ [w.disassemble] ∧ o.result = .error (.noRegister index 4) := by
  have htake : (ws ++ w :: rest).take ws.length = ws := List.take_left
  have hfirst : ∀ v ∈ (ws ++ w :: rest).take ws.length, ¬ v.Stops strict := by rwa [htake]
  have hget : (ws ++ w :: rest)[ws.length]? = some w := by simp
  have hop : (Instruction.ofWord w).operation?.isSome = true :=
    Option.isSome_iff_ne_none.2 ((Assembly.known_iff w).2 (Word.opcode_le_of_lookup hindex))
  dsimp only
  rw [execute_of_fault hfirst hget fun r hr => Word.fault?_of_lookup hindex hr ws.length, htake,
    if_pos hop]
  exact ⟨rfl, rfl⟩

end Fault

structure PassesOver (words : List Word) (all few : Outcome Unit) : Prop where
  ok_iff : all.result = .ok () ↔ few.result = .ok ()
  fault : ∀ e, all.result = .error e → ∃ e' title, few.result = .error e' ∧
    e.title? = some title ∧ e'.title? = some title
  halt : all.result = .ok () → few.machine.registers = all.machine.registers ∧
    ∃ k w, words[k]? = some w ∧ w.isHalt = true ∧ all.machine.program.pc = k + 1 ∧
      all.machine.program.pc = few.machine.program.pc +
        (words.take k).countP fun w => 2 < (Instruction.ofWord w).opcode
  lines : OmitsUnknown all.lines few.lines

section PassesOver
variable {words ws : List Word} {w : Word} {all few : Outcome Unit}

theorem passesOver_of_fault {e e' : Fault} {title : String} (hall : all.result = .error e)
    (hfew : few.result = .error e') (htitle : e.title? = some title)
    (htitle' : e'.title? = some title) (hlines : OmitsUnknown all.lines few.lines) :
    PassesOver words all few where
  ok_iff := by rw [hall, hfew]; simp
  fault f hf := by
    cases hall.symm.trans hf
    exact ⟨e', title, hfew, htitle, htitle'⟩
  halt hok := by cases hall.symm.trans hok
  lines := hlines

theorem not_stops_known {strict : Bool} (h : ∀ v ∈ ws, ¬ v.Stops strict) :
    ∀ v ∈ Word.known ws, ¬ v.Stops strict :=
  fun v hv => h v (Word.mem_of_mem_known hv)

theorem passesOver_of_none (h : ∀ v ∈ words, ¬ v.Stops false) :
    PassesOver words (execute (.ofWords words) false .endless)
      (execute (.ofWords (Word.known words)) false .endless) := by
  rw [execute_of_none h, execute_of_none (not_stops_known h)]
  exact passesOver_of_fault rfl rfl rfl rfl (Word.omitsUnknown_trace words)

theorem passesOver_of_lookup {index : Int} (h : ∀ v ∈ ws, ¬ v.Stops false)
    (hindex : (Instruction.ofWord w).lookups.find? (3 < ·) = some index) (rest : List Word) :
    PassesOver (ws ++ w :: rest) (execute (.ofWords (ws ++ w :: rest)) false .endless)
      (execute (.ofWords (Word.known (ws ++ w :: rest))) false .endless) := by
  have hle := Word.opcode_le_of_lookup hindex
  have hmore : Instruction.unknownText ∉ [w.disassemble] := by
    rw [List.mem_singleton]
    exact Ne.symm (Word.disassemble_ne_unknownText hle)
  rw [Word.known_append, Word.known_cons_of_le hle]
  obtain ⟨hlines, hresult⟩ := execute_append_lookup h hindex rest
  obtain ⟨hlines', hresult'⟩ := execute_append_lookup (not_stops_known h) hindex (Word.known rest)
  apply passesOver_of_fault hresult hresult' rfl rfl
  rw [hlines, hlines']
  exact Word.omitsUnknown_trace_append hmore ws

theorem passesOver_of_halt (h : ∀ v ∈ ws, ¬ v.Stops false) (hhalt : w.isHalt = true)
    (rest : List Word) :
    PassesOver (ws ++ w :: rest) (execute (.ofWords (ws ++ w :: rest)) false .endless)
      (execute (.ofWords (Word.known (ws ++ w :: rest))) false .endless) := by
  have hle := Word.opcode_le_of_isHalt hhalt
  rw [Word.known_append, Word.known_cons_of_le hle, execute_append_halt h hhalt rest,
    execute_append_halt (not_stops_known h) hhalt (Word.known rest)]
  constructor
  · simp
  · intro e he
    cases he
  · intro _
    refine ⟨?_, ws.length, w, by simp, hhalt, rfl, ?_⟩
    · simp only [beyond, amid, Word.cellsAfter, Word.effects_known]
    · have hlength := Word.length_eq_length_known ws
      rw [List.take_left]
      simp only [beyond, amid]
      omega
  · have hlines := Word.omitsUnknown_trace (ws ++ [w])
    rwa [Word.known_append, Word.known_cons_of_le hle] at hlines

end PassesOver

/-- A lenient execution and the one without the unknown words of its program. They end in the same
way; if they halt, then with the same registers and with counters that differ by the number of
unknown words before the halt. The trace of the shorter program is the one of the longer without the
unknown instructions and the line after each of them, which shows the registers as the line before
the instruction does. -/
theorem execute_known (words : List Word) :
    PassesOver words (execute (.ofWords words) false .endless)
      (execute (.ofWords (Word.known words)) false .endless) := by
  rcases Word.exists_first_append (Word.Stops false) words with
    hnone | ⟨ws, w, rest, rfl, hstop, hfirst⟩
  · exact passesOver_of_none hnone
  · rcases Word.stops_cases hstop with hhalt | ⟨index, hindex⟩ | ⟨hstrict, -⟩
    · exact passesOver_of_halt hfirst hhalt rest
    · exact passesOver_of_lookup hfirst hindex rest
    · cases hstrict

end Machine
end RegisterMachine
