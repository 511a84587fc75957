import RegisterMachine.Machine.Step

/-! # Working a machine by hand

What may be asked of a machine besides running it to its end. Some requests reply with a number.
-/
namespace RegisterMachine.Machine
open Routine

inductive Request where
  | step
  | evaluate (instruction : Instruction)
  | fetch
  | showRegisters
  | logState
  | read (index : Int)
  | write (index value : Int)
  | setCells (cells : List Int)
  | setStrict (strict : Bool)
  deriving DecidableEq, Repr

def answer : Request → Routine (Option Int)
  | .step => do
    step
    return none
  | .evaluate i => do
    evaluate i
    return none
  | .fetch => return some (← fetch).toNat
  | .showRegisters => do
    showRegisters
    return none
  | .logState => do
    logState
    return none
  | .read index => return some (← read index)
  | .write index value => do
    write index value
    return none
  | .setCells cells => do
    update fun m => { m with registers := ⟨cells⟩ }
    return none
  | .setStrict strict => do
    update fun m => { m with strict := strict }
    return none

/-- The outcomes of requests made one after the other, each on the machine that the one before left
behind, whether that one faulted or not. -/
def answers (m : Machine) : List Request → List (Outcome (Option Int))
  | [] => []
  | q :: qs =>
    let o := (answer q).run m
    o :: o.machine.answers qs

end RegisterMachine.Machine
