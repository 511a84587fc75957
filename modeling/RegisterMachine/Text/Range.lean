/-! # Classes of characters as ranges

A class of characters is given by closed ranges of code points, ascending and apart.
-/
namespace RegisterMachine.Text

def inRanges (ranges : List (Nat × Nat)) (c : Char) : Bool :=
  ranges.any fun r => r.1 ≤ c.toNat && c.toNat ≤ r.2

end RegisterMachine.Text
