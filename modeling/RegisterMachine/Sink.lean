/-! # Where the trace goes

The machine hands every line of its trace to a sink. A sink takes lines as long as it has room and
refuses each one after that, either as a failure or because the user interrupted it.
-/
namespace RegisterMachine

inductive Refusal where
  | failure
  | interrupt
  deriving DecidableEq, Repr

structure Sink where
  /-- How many more lines are taken, or `none` if there is no end to them. -/
  room : Option Nat
  refusal : Refusal
  deriving DecidableEq, Repr

namespace Sink

def endless : Sink := ⟨none, .failure⟩

def accept (s : Sink) : Except Refusal Sink :=
  match s.room with
  | none => .ok s
  | some 0 => .error s.refusal
  | some (n + 1) => .ok { s with room := some n }

end Sink
end RegisterMachine
