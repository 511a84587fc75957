import RegisterMachine.RegisterFile

/-! # Working a register file by hand

What may be asked of a register file on its own, and its reply. A request that faults leaves the
file as it was.
-/
namespace RegisterMachine.RegisterFile

inductive Request where
  | read (index : Int)
  | write (index value : Int)
  | check (index : Int)
  | size
  | snapshot
  deriving DecidableEq, Repr

inductive Reply where
  | done
  | number (n : Int)
  | line (text : String)
  deriving DecidableEq, Repr

def reply (r : RegisterFile) : Request → Except Fault (Reply × RegisterFile)
  | .read index => return (.number (← r.read index), r)
  | .write index value => return (.done, ← r.write index value)
  | .check index => do
    r.check index
    return (.done, r)
  | .size => return (.number r.size, r)
  | .snapshot => return (.line r.snapshot, r)

def answer (r : RegisterFile) (q : Request) : Except Fault Reply × RegisterFile :=
  match r.reply q with
  | .ok (reply, r') => (.ok reply, r')
  | .error e => (.error e, r)

def answers (r : RegisterFile) : List Request → List (Except Fault Reply × RegisterFile)
  | [] => []
  | q :: qs => r.answer q :: (r.answer q).2.answers qs

end RegisterMachine.RegisterFile
