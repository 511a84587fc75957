/-! # Similar texts

Two texts are compared by their common blocks: the longest one, the leftmost if there are several,
and then in the same way what stands before it and what stands after it on both sides. Their
similarity is twice the length of all blocks over the length of both texts.
-/
namespace RegisterMachine.Text

def commonLength : List Char → List Char → Nat
  | a :: as, b :: bs => if a = b then commonLength as bs + 1 else 0
  | _, _ => 0

/-- Where a common block begins in either text, and its length. -/
structure Block where
  left : Nat
  right : Nat
  length : Nat
  deriving DecidableEq, Repr

/-- All common blocks, by where they begin in the first text and then in the second. -/
def blocks (a b : List Char) : List Block :=
  (List.range a.length).flatMap fun i => (List.range b.length).map fun j =>
    ⟨i, j, commonLength (a.drop i) (b.drop j)⟩

def longestBlock (a b : List Char) : Block :=
  (blocks a b).foldl (fun best k => if best.length < k.length then k else best) ⟨0, 0, 0⟩

def matchLength (a b : List Char) : Nat :=
  if _h : (longestBlock a b).left < a.length ∧ 0 < (longestBlock a b).length then
    matchLength (a.take (longestBlock a b).left) (b.take (longestBlock a b).right) +
      (longestBlock a b).length +
      matchLength (a.drop ((longestBlock a b).left + (longestBlock a b).length))
        (b.drop ((longestBlock a b).right + (longestBlock a b).length))
  else 0
termination_by a.length
decreasing_by
  · rw [List.length_take]
    omega
  · rw [List.length_drop]
    omega

def similar (a b : String) : Bool :=
  3 * (a.length + b.length) ≤ 10 * matchLength a.toList b.toList

end RegisterMachine.Text
