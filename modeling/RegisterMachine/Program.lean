import RegisterMachine.Fault
import RegisterMachine.Word

/-! # Programs

A program is a fixed list of words with a counter of those that have been fetched.
-/
namespace RegisterMachine

structure LoadError where
  word : Int
  index : Nat
  deriving DecidableEq, Repr

def LoadError.message (e : LoadError) : String :=
  "Word " ++ Numeral.markedHex e.word ++ " at " ++ Numeral.decimal e.index ++ " is not 16-bit"

structure Program where
  words : List Word
  pc : Nat
  deriving DecidableEq, Repr

namespace Program

def ofWords (words : List Word) : Program := ⟨words, 0⟩

def load (words : List Int) : Except LoadError Program :=
  match words.zipIdx.find? (fun p => ¬ Word.InRange p.1) with
  | some (word, index) => .error ⟨word, index⟩
  | none => .ok (ofWords (words.map Word.ofInt))

def size (p : Program) : Nat := p.words.length

def remaining (p : Program) : Nat := p.size - p.pc

def fetch (p : Program) : Except Fault (Word × Program) :=
  match p.words[p.pc]? with
  | some w => .ok (w, { p with pc := p.pc + 1 })
  | none => .error (.pastEnd p.pc p.size)

theorem remaining_fetch {p q : Program} {w : Word} (h : p.fetch = .ok (w, q)) :
    q.remaining < p.remaining := by
  unfold fetch at h
  split at h
  · rename_i hw
    cases h
    obtain ⟨hlt, _⟩ := List.getElem?_eq_some_iff.1 hw
    simp only [remaining, size]
    omega
  · cases h

/-- Loads 100 and 200, adds them and halts. -/
def reference : List Word := [0x1064, 0x11C8, 0x2201, 0x0000]

end Program
end RegisterMachine
