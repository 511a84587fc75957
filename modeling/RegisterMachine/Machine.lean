import RegisterMachine.Event
import RegisterMachine.Program
import RegisterMachine.RegisterFile

/-! # The machine and its routines

A machine owns its program, its registers and the sink for its trace. A routine takes a machine to
an outcome: the machine afterwards, the lines that reached the sink, the events that were logged,
and a result or a fault. What a routine has done when it faults stays done, and nothing follows.
-/
namespace RegisterMachine

structure Machine where
  program : Program
  registers : RegisterFile
  running : Bool
  strict : Bool
  sink : Sink
  deriving DecidableEq, Repr

def Machine.boot (program : Program) (strict : Bool) (sink : Sink) : Machine where
  program := program
  registers := RegisterFile.zeros RegisterFile.standardSize
  running := true
  strict := strict
  sink := sink

structure Outcome (α : Type) where
  machine : Machine
  lines : List String
  events : List Event
  result : Except Fault α

/-- The outcome of going on with `f` after `o`, unless `o` is a fault. -/
def Outcome.bind {α β : Type} (o : Outcome α) (f : α → Machine → Outcome β) : Outcome β :=
  match o.result with
  | .ok a =>
    let next := f a o.machine
    ⟨next.machine, o.lines ++ next.lines, o.events ++ next.events, next.result⟩
  | .error e => ⟨o.machine, o.lines, o.events, .error e⟩

namespace Outcome
variable {α β : Type}

@[simp] theorem bind_mk_ok (m : Machine) (ls : List String) (es : List Event) (a : α)
    (f : α → Machine → Outcome β) :
    (⟨m, ls, es, .ok a⟩ : Outcome α).bind f =
      ⟨(f a m).machine, ls ++ (f a m).lines, es ++ (f a m).events, (f a m).result⟩ := rfl

@[simp] theorem bind_mk_error (m : Machine) (ls : List String) (es : List Event) (e : Fault)
    (f : α → Machine → Outcome β) :
    (⟨m, ls, es, .error e⟩ : Outcome α).bind f = ⟨m, ls, es, .error e⟩ := rfl

theorem bind_of_ok {o : Outcome α} {f : α → Machine → Outcome β} {a : α} (h : o.result = .ok a) :
    o.bind f = ⟨(f a o.machine).machine, o.lines ++ (f a o.machine).lines,
      o.events ++ (f a o.machine).events, (f a o.machine).result⟩ := by
  simp [Outcome.bind, h]

theorem bind_of_error {o : Outcome α} {f : α → Machine → Outcome β} {e : Fault}
    (h : o.result = .error e) : o.bind f = ⟨o.machine, o.lines, o.events, .error e⟩ := by
  simp [Outcome.bind, h]

theorem result_bind_eq_ok {o : Outcome α} {f : α → Machine → Outcome β} {b : β} :
    (o.bind f).result = .ok b ↔ ∃ a, o.result = .ok a ∧ (f a o.machine).result = .ok b := by
  cases h : o.result with
  | ok a => simp [bind_of_ok h]
  | error e => simp [bind_of_error h]

end Outcome

structure Routine (α : Type) where
  run : Machine → Outcome α

namespace Routine
variable {α β : Type}

instance : Monad Routine where
  pure a := ⟨fun m => ⟨m, [], [], .ok a⟩⟩
  bind x f := ⟨fun m => (x.run m).bind fun a => (f a).run⟩

@[simp] theorem run_pure (a : α) (m : Machine) :
    (pure a : Routine α).run m = ⟨m, [], [], .ok a⟩ := rfl

@[simp] theorem run_bind (x : Routine α) (f : α → Routine β) (m : Machine) :
    (x >>= f).run m = (x.run m).bind fun a => (f a).run := rfl

def fault (e : Fault) : Routine α := ⟨fun m => ⟨m, [], [], .error e⟩⟩

def ofExcept : Except Fault α → Routine α
  | .ok a => pure a
  | .error e => fault e

def machine : Routine Machine := ⟨fun m => ⟨m, [], [], .ok m⟩⟩

def update (f : Machine → Machine) : Routine Unit := ⟨fun m => ⟨f m, [], [], .ok ()⟩⟩

def log (e : Event) : Routine Unit := ⟨fun m => ⟨m, [], [e], .ok ()⟩⟩

def emit (line : String) : Routine Unit where
  run m :=
    match m.sink.accept with
    | .ok sink => ⟨{ m with sink := sink }, [line], [], .ok ()⟩
    | .error reason => ⟨m, [], [], .error (.refused reason)⟩

@[simp] theorem run_fault (e : Fault) (m : Machine) :
    (fault e : Routine α).run m = ⟨m, [], [], .error e⟩ := rfl

@[simp] theorem run_machine (m : Machine) : machine.run m = ⟨m, [], [], .ok m⟩ := rfl

@[simp] theorem run_update (f : Machine → Machine) (m : Machine) :
    (update f).run m = ⟨f m, [], [], .ok ()⟩ := rfl

@[simp] theorem run_log (e : Event) (m : Machine) : (log e).run m = ⟨m, [], [e], .ok ()⟩ := rfl

theorem run_emit_of_ok {m : Machine} {sink : Sink} (h : m.sink.accept = .ok sink) (line : String) :
    (emit line).run m = ⟨{ m with sink := sink }, [line], [], .ok ()⟩ := by
  simp [emit, h]

theorem run_emit_of_error {m : Machine} {reason : Refusal} (h : m.sink.accept = .error reason)
    (line : String) : (emit line).run m = ⟨m, [], [], .error (.refused reason)⟩ := by
  simp [emit, h]

@[simp] theorem run_ofExcept_ok (a : α) (m : Machine) :
    (ofExcept (.ok a)).run m = ⟨m, [], [], .ok a⟩ := rfl

@[simp] theorem run_ofExcept_error (e : Fault) (m : Machine) :
    (ofExcept (.error e) : Routine α).run m = ⟨m, [], [], .error e⟩ := rfl

end Routine
end RegisterMachine
