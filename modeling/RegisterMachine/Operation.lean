/-! # The instruction set

Three operations, each with its opcode and its mnemonic. Every other opcode is unknown.
-/
namespace RegisterMachine

inductive Operation where
  | halt
  | loadi
  | add
  deriving DecidableEq, Repr

namespace Operation

def all : List Operation := [halt, loadi, add]

def opcode : Operation → Nat
  | halt => 0
  | loadi => 1
  | add => 2

def mnemonic : Operation → String
  | halt => "halt"
  | loadi => "loadi"
  | add => "add"

def ofOpcode? (n : Int) : Option Operation :=
  if n = 0 then some halt
  else if n = 1 then some loadi
  else if n = 2 then some add
  else none

theorem ofOpcode?_eq_some_iff {n : Int} {op : Operation} :
    ofOpcode? n = some op ↔ n = op.opcode := by
  unfold ofOpcode?
  cases op <;> (repeat' split) <;> simp_all [opcode]

end Operation
end RegisterMachine
