/-! # Positional digits

The digits of a natural number in a base, most significant first, and the number that a list of
digits denotes. Writing a number and reading its digits back gives the number.
-/
namespace RegisterMachine.Numeral

/-- The digits of `n`, most significant first. Zero is the one digit `0`. -/
def digits (base n : Nat) : List Nat :=
  if 1 < base ∧ base ≤ n then digits base (n / base) ++ [n % base] else [n]
termination_by n
decreasing_by exact Nat.div_lt_self (by omega) (by omega)

def value (base : Nat) (ds : List Nat) : Nat :=
  ds.foldl (fun v d => base * v + d) 0

@[simp] theorem value_nil (base : Nat) : value base [] = 0 := rfl

@[simp] theorem value_concat (base d : Nat) (ds : List Nat) :
    value base (ds ++ [d]) = base * value base ds + d := by
  simp [value, List.foldl_append]

@[simp] theorem value_digits (base n : Nat) : value base (digits base n) = n := by
  fun_induction digits base n with
  | case1 n h ih => simp [ih, Nat.div_add_mod]
  | case2 n h => simp [value]

theorem digits_lt {base n : Nat} (hb : 1 < base) : ∀ d ∈ digits base n, d < base := by
  fun_induction digits base n with
  | case1 n h ih =>
    intro d hd
    rcases List.mem_append.1 hd with hd | hd
    · exact ih d hd
    · rw [List.mem_singleton.1 hd]
      exact Nat.mod_lt _ (by omega)
  | case2 n h =>
    intro d hd
    rw [List.mem_singleton.1 hd]
    omega

theorem digits_ne_nil (base n : Nat) : digits base n ≠ [] := by
  rw [digits]
  split <;> simp

end RegisterMachine.Numeral
