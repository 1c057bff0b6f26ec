/-
Module: Quill.Builtin
Layer: Running
Purpose: What builtins do. All but `puts` take a fixed number of arguments, which is checked before their
  types. Arrays are never changed: `push` and `rest` make new ones.
Main exports: Builtin.arity?, Builtin.value, Builtin.call
-/
import Quill.Machine
import Quill.Value.Printer

namespace Quill

namespace Builtin

/-- How many arguments a builtin takes, unless it takes any number. -/
def arity? : Builtin → Option Nat
  | len | first | last | rest | keys | typeOf => some 1
  | push => some 2
  | puts => none

/-- A count as an integer. -/
def ofCount (n : Nat) : Value :=
  .integer (Int64.ofNat n)

/-- The first of some values, or null. -/
def firstOrNull : List Value → Value
  | [] => .null
  | v :: _ => v

/-- All but the first of some values, or null. -/
def restOrNull : List Value → Value
  | [] => .null
  | _ :: vs => .array vs

/-- The result of a builtin that prints nothing. The first argument decides whether a builtin is defined
    for its arguments. -/
def value (b : Builtin) (args : List Value) : Except Fault Value :=
  match b, args with
  | len, [.text s] => .ok (ofCount s.length)
  | len, [.array items] => .ok (ofCount items.length)
  | len, [.hash entries] => .ok (ofCount entries.length)
  | first, [.array items] => .ok (firstOrNull items)
  | last, [.array items] => .ok (firstOrNull items.reverse)
  | rest, [.array items] => .ok (restOrNull items)
  | push, [.array items, v] => .ok (.array (items ++ [v]))
  | keys, [.hash entries] => .ok (.array (entries.map fun entry => entry.2.1))
  | typeOf, [v] => .ok (.text v.kind.name)
  | _, v :: _ => .error (.unsupportedArgument b.name v.kind)
  | _, [] => .ok .null

/-- Prints values, each on a line of its own. -/
def printLines : List Value → Eval Value
  | [] => return .null
  | v :: vs => do
    Eval.write (v.render ++ "\n")
    printLines vs

/-- Calls a builtin. -/
def call (b : Builtin) (args : List Value) : Eval Value :=
  match b.arity? with
  | none => printLines args
  | some n =>
    if args.length = n then
      Eval.ofExcept (b.value args)
    else
      Eval.fault (.arity b.name n args.length)

end Builtin

end Quill
