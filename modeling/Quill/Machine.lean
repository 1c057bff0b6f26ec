/-
Module: Quill.Machine
Layer: Running
Purpose: The state of a running program and the computations on it. A machine is the store of scopes, the
  next free identity for a function or macro, and the sink for output. A computation ends with a value,
  or stops: with a fault, with a misuse, or because its bound was used up. The state reached is kept in
  each case.
Main exports: Machine, Stop, Eval, Eval.operand, Eval.defineAll, Eval.operand_eq_bind
-/
import Quill.Scope
import Quill.Output

namespace Quill

/-- The state of a running program. -/
structure Machine where
  store : Store
  nextIdentity : Nat
  sink : Sink

/-- Why a computation stopped before it had a value. -/
inductive Stop where
  | fault (f : Fault)
  | misuse (m : Misuse)
  /-- the bound on nesting and rounds was used up -/
  | exhausted

/-- A computation on a machine. -/
def Eval (α : Type) : Type :=
  Machine → Except Stop α × Machine

namespace Machine

/-- A machine without scopes that prints to `sink`. -/
def start (sink : Sink) : Machine :=
  ⟨Store.empty, 0, sink⟩

end Machine

namespace Eval

/-- Yields a value and changes nothing. -/
@[always_inline, inline]
def yield {α : Type} (a : α) : Eval α :=
  fun m => (.ok a, m)

/-- Runs one computation and then another, unless the first one stops. -/
@[always_inline, inline]
def andThen {α β : Type} (p : Eval α) (f : α → Eval β) : Eval β :=
  fun m =>
    match p m with
    | (.ok a, m') => f a m'
    | (.error stop, m') => (.error stop, m')

@[always_inline]
instance : Monad Eval where
  pure := yield
  bind := andThen

/-- Stops. -/
def stop {α : Type} (s : Stop) : Eval α :=
  fun m => (.error s, m)

/-- Stops with a fault. -/
def fault {α : Type} (f : Fault) : Eval α :=
  stop (.fault f)

/-- Stops with a misuse. -/
def misuse {α : Type} (x : Misuse) : Eval α :=
  stop (.misuse x)

/-- Stops because the bound was used up. -/
def exhausted {α : Type} : Eval α :=
  stop .exhausted

/-- The result of something that does not touch the machine. -/
def ofExcept {α : Type} : Except Fault α → Eval α
  | .ok a => yield a
  | .error f => fault f

/-- Makes a scope, inside another one if one is given. -/
def newScope (parent : Option ScopeId) : Eval ScopeId :=
  fun ⟨store, next, sink⟩ =>
    let (id, store') := store.newScope parent
    (.ok id, ⟨store', next, sink⟩)

/-- The value of a name as seen from a scope. -/
def lookup (scope : ScopeId) (name : String) : Eval (Option Value) :=
  fun m => (.ok (m.store.get? scope name), m)

/-- Sets a binding in the scope that `place` finds; if it finds none, the store stays as it was. -/
@[inline]
def bindAt (place : Store → Except Fault ScopeId) (name : String) (binding : Binding) : Eval Unit :=
  fun ⟨store, next, sink⟩ =>
    match place store with
    | .ok owner => (.ok (), ⟨store.setOwn owner name binding, next, sink⟩)
    | .error f => (.error (.fault f), ⟨store, next, sink⟩)

/-- Binds a name in a scope. -/
def define (scope : ScopeId) (name : String) (value : Value) : Eval Unit :=
  bindAt (·.placeToDefine scope name) name ⟨value, false⟩

/-- Binds a name in a scope for good. -/
def defineConst (scope : ScopeId) (name : String) (value : Value) : Eval Unit :=
  bindAt (·.placeToDefine scope name) name ⟨value, true⟩

/-- Gives a name a new value. -/
def assign (scope : ScopeId) (name : String) (value : Value) : Eval Unit :=
  bindAt (·.placeToAssign scope name) name ⟨value, false⟩

/-- Binds several names in a scope, one after the other. -/
def defineAll (scope : ScopeId) : List (String × Value) → Eval Unit
  | [] => yield ()
  | (name, value) :: rest => do
    define scope name value
    defineAll scope rest

/-- An identity that no function or macro has. -/
def freshIdentity : Eval Nat :=
  fun ⟨store, next, sink⟩ => (.ok next, ⟨store, next + 1, sink⟩)

/-- Prints a text. -/
def write (text : String) : Eval Unit :=
  fun ⟨store, next, sink⟩ =>
    match sink.write text.toUTF8 with
    | (true, sink') => (.ok (), ⟨store, next, sink'⟩)
    | (false, sink') => (.error (.fault (.output Sink.refusal)), ⟨store, next, sink'⟩)

/-- Runs a part of a larger evaluation and goes on with its value. A pending return ends the larger
    evaluation at once, as a stop does. -/
@[always_inline, inline]
def operand (part : Eval Value) (next : Value → Eval Value) : Eval Value :=
  fun m =>
    match part m with
    | (.ok (.returned v), m') => (.ok (.returned v), m')
    | (.ok v, m') => next v m'
    | (.error stop, m') => (.error stop, m')

/-- Reports the faults of a computation as something else. -/
def mapFault {α : Type} (describe : Fault → Stop) (p : Eval α) : Eval α :=
  fun m =>
    match p m with
    | (.error (.fault f), m') => (.error (describe f), m')
    | other => other

/-!
### Sequencing
-/

section Sequencing

variable {α β : Type} {p : Eval α} {f : α → Eval β} {m m' : Machine}

theorem bind_of_ok {a : α} (run : p m = (.ok a, m')) : (p >>= f) m = f a m' := by
  show Eval.andThen p f m = _
  simp [Eval.andThen, run]

theorem bind_of_error {s : Stop} (run : p m = (.error s, m')) : (p >>= f) m = (.error s, m') := by
  show Eval.andThen p f m = _
  simp [Eval.andThen, run]

/-- Going on with an operand is sequencing, except that a pending return is handed on. -/
theorem operand_eq_bind (part : Eval Value) (next : Value → Eval Value) :
    part.operand next = part >>= fun v =>
      match v with
      | .returned w => pure (.returned w)
      | other => next other := by
  funext m
  show part.operand next m = Eval.andThen part _ m
  rcases run : part m with ⟨_ | v, m'⟩
  · simp [Eval.operand, Eval.andThen, run]
  · cases v with
    | returned w =>
        simp only [Eval.operand, Eval.andThen, run]
        rfl
    | _ => simp only [Eval.operand, Eval.andThen, run]

end Sequencing

end Eval

end Quill
