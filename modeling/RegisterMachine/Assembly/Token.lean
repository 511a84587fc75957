import RegisterMachine.Numeral.Literal
import RegisterMachine.Operation

/-! # Tokens of the assembly language

Assembly text is a list of characters, and a place in it is what is left of it from there on. Before
any token there may be a gap of blanks, line ends and comments, a comment being two slashes and the
rest of their line. A keyword stands apart from letters, digits, `_` and `$`. A register is the
letter `r` with its digits directly after it; an immediate is `#` and a constant, which may stand
apart.
-/
namespace RegisterMachine.Assembly
open Numeral

def isGap (c : Char) : Bool := c = ' ' || c = '\t' || c = '\n' || c = '\r'

/-- What follows a gap. The flag tells whether a comment is open. -/
def skipFrom : Bool → List Char → List Char
  | _, [] => []
  | true, c :: cs => if c = '\n' then skipFrom false cs else skipFrom true cs
  | false, '/' :: '/' :: cs => skipFrom true cs
  | false, c :: cs => if isGap c then skipFrom false cs else c :: cs

def skip (s : List Char) : List Char := skipFrom false s

def lineOf (source rest : List Char) : Nat := 1 + (source.count '\n' - rest.count '\n')

def before? (source rest : List Char) : Option Char :=
  (source.take (source.length - rest.length)).getLast?

def isWordChar (c : Char) : Bool := c.isAlphanum || c = '_' || c = '$'

def isBoundary (c : Option Char) : Bool := !c.any isWordChar

def afterWord? : List Char → List Char → Option (List Char)
  | [], s => some s
  | c :: cs, d :: ds => if c = d then afterWord? cs ds else none
  | _ :: _, [] => none

def keyword? (source word rest : List Char) : Option (List Char) :=
  match afterWord? word rest with
  | some after =>
    if isBoundary (before? source rest) && isBoundary after.head? then some after else none
  | none => none

def operation? (source rest : List Char) : Option (Operation × List Char) :=
  Operation.all.findSome? fun op =>
    (keyword? source op.mnemonic.toList rest).map fun after => (op, after)

/-- A token that was looked for: it is there, it is not, or its number is refused. -/
inductive Scan (α : Type) where
  | found (value : α) (rest : List Char)
  | absent
  | refused (e : LiteralError)
  deriving DecidableEq, Repr

def Scan.bind {α β : Type} (s : Scan α) (f : α → List Char → Scan β) : Scan β :=
  match s with
  | found value rest => f value rest
  | absent => absent
  | refused e => refused e

def number (value : Except LiteralError Int) (rest : List Char) : Scan Int :=
  match value with
  | .ok n => .found n rest
  | .error e => .refused e

def register (s : List Char) : Scan Int :=
  match skip s with
  | 'r' :: cs =>
    let ds := cs.takeWhile Char.isDigit
    if ds = [] then .absent else number (readChars .decimal ds) (cs.dropWhile Char.isDigit)
  | _ => .absent

def isHexDigit (c : Char) : Bool :=
  c.isDigit || ('a' ≤ c && c ≤ 'f') || ('A' ≤ c && c ≤ 'F')

/-- The longest constant at the beginning, which is empty if there is none, and what follows it. A
marker without a digit after it is only a zero. -/
def constantToken (s : List Char) : List Char × List Char :=
  match s with
  | '0' :: x :: cs =>
    if (x = 'x' ∨ x = 'X') ∧ cs.takeWhile isHexDigit ≠ [] then
      ('0' :: x :: cs.takeWhile isHexDigit, cs.dropWhile isHexDigit)
    else (s.takeWhile Char.isDigit, s.dropWhile Char.isDigit)
  | _ => (s.takeWhile Char.isDigit, s.dropWhile Char.isDigit)

def immediate (s : List Char) : Scan Int :=
  match skip s with
  | '#' :: cs =>
    let (token, rest) := constantToken (skip cs)
    if token = [] then .absent else number (readConstantChars token) rest
  | _ => .absent

theorem afterWord?_eq_some_iff {word s after : List Char} :
    afterWord? word s = some after ↔ s = word ++ after := by
  induction word generalizing s with
  | nil => simp [afterWord?]
  | cons c cs ih =>
    cases s with
    | nil => simp [afterWord?]
    | cons d ds =>
      by_cases h : c = d
      · simp [afterWord?, h, ih]
      · simp [afterWord?, h, Ne.symm h]

theorem length_skipFrom (b : Bool) (s : List Char) : (skipFrom b s).length ≤ s.length := by
  fun_induction skipFrom b s <;> simp_all <;> omega

theorem length_skip (s : List Char) : (skip s).length ≤ s.length := length_skipFrom false s

theorem length_dropWhile {α : Type} (p : α → Bool) (s : List α) :
    (s.dropWhile p).length ≤ s.length :=
  (List.dropWhile_sublist p).length_le

theorem number_found {v : Except LiteralError Int} {n : Int} {s rest : List Char}
    (h : number v s = .found n rest) : v = .ok n ∧ s = rest := by
  cases v <;> simp_all [number]

theorem length_register {s rest : List Char} {n : Int} (h : register s = .found n rest) :
    rest.length < s.length := by
  unfold register at h
  split at h
  · rename_i cs hs
    dsimp only at h
    split at h
    · cases h
    · have h1 := length_skip s
      have h2 := length_dropWhile Char.isDigit cs
      rw [hs, List.length_cons] at h1
      rw [← (number_found h).2]
      omega
  · cases h

theorem length_constantToken (s : List Char) : (constantToken s).2.length ≤ s.length := by
  unfold constantToken
  split
  · split
    · exact Nat.le_succ_of_le (Nat.le_succ_of_le (length_dropWhile _ _))
    · exact length_dropWhile _ _
  · exact length_dropWhile _ _

theorem length_immediate {s rest : List Char} {n : Int} (h : immediate s = .found n rest) :
    rest.length < s.length := by
  unfold immediate at h
  split at h
  · rename_i cs hs
    dsimp only at h
    split at h
    · cases h
    · have h1 := length_skip s
      have h2 := length_constantToken (skip cs)
      have h3 := length_skip cs
      rw [hs, List.length_cons] at h1
      rw [← (number_found h).2]
      omega
  · cases h

end RegisterMachine.Assembly
