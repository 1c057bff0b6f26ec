/-
Module: Quill.Fault
Layer: Values
Purpose: What can go wrong when a program runs. A fault is a failure of the running program; a misuse is
  a failure to use quotation or macros as they are meant, which no program can see as a value. Each has
  its wording in one place.
Main exports: ValueKind, Fault, Fault.message, Misuse, Misuse.message
-/
import Quill.Tree.Printer

namespace Quill

/-- The types of values, as programs see them. -/
inductive ValueKind where
  | null
  | integer
  | float
  | boolean
  | text
  | array
  | hash
  | function
  | builtin
  | error
  | returned
  | quote
  | macroValue
deriving DecidableEq

/-- The name of a type. -/
def ValueKind.name : ValueKind → String
  | null => "null"
  | integer => "integer"
  | float => "float"
  | boolean => "boolean"
  | text => "string"
  | array => "array"
  | hash => "hash"
  | function => "function"
  | builtin => "builtin"
  | error => "error"
  | returned => "return"
  | quote => "quote"
  | macroValue => "macro"

/-- Failures of a running program. -/
inductive Fault where
  /-- no scope in reach binds the name, and no builtin has it -/
  | unbound (name : String)
  /-- the operands of a binary operator have types that never go together -/
  | typeMismatch (left : ValueKind) (op : BinaryOp) (right : ValueKind)
  /-- a unary operator is not defined for the type of its operand -/
  | unknownUnary (op : UnaryOp) (operand : ValueKind)
  /-- a binary operator is not defined for the types of its operands -/
  | unknownBinary (left : ValueKind) (op : BinaryOp) (right : ValueKind)
  /-- a call with too few or too many arguments -/
  | arity (callee : String) (expected got : Nat)
  /-- a call of something that is not a function -/
  | notCallable (got : ValueKind)
  /-- a value that cannot be the key of a hash -/
  | unusableKey (got : ValueKind)
  /-- a hash has no entry for the key, which is given as it is displayed -/
  | missingKey (shown : String)
  /-- an array or a text has no element at the index -/
  | outOfBounds (index : Int64) (length : Nat)
  /-- values of this type cannot be indexed by values of that type -/
  | unsupportedIndex (subject key : ValueKind)
  /-- the name is bound to a constant -/
  | constant (name : String)
  /-- a division or remainder by zero -/
  | divisionByZero
  /-- a builtin does not take a value of this type -/
  | unsupportedArgument (builtin : String) (got : ValueKind)
  /-- the output could not be written -/
  | output (reason : String)
deriving DecidableEq

/-- The wording of a fault. -/
def Fault.message : Fault → String
  | unbound name => "identifier not found: " ++ name
  | typeMismatch left op right =>
    "type mismatch: " ++ left.name ++ " " ++ op.spelling ++ " " ++ right.name
  | unknownUnary op operand => "unknown operator: " ++ op.spelling ++ operand.name
  | unknownBinary left op right =>
    "unknown operator: " ++ left.name ++ " " ++ op.spelling ++ " " ++ right.name
  | arity callee expected got =>
    "wrong number of arguments to " ++ callee ++ ": expected " ++ toString expected ++
      ", got " ++ toString got
  | notCallable got => "not a function: " ++ got.name
  | unusableKey got => "unusable as hash key: " ++ got.name
  | missingKey shown => "key not found: " ++ shown
  | outOfBounds index length =>
    "index out of bounds: " ++ renderInteger index ++ " (length " ++ toString length ++ ")"
  | unsupportedIndex subject key =>
    "index operator not supported: " ++ subject.name ++ "[" ++ key.name ++ "]"
  | constant name => "cannot reassign constant: " ++ name
  | divisionByZero => "division by zero"
  | unsupportedArgument builtin got =>
    "argument to `" ++ builtin ++ "` not supported, got " ++ got.name
  | output reason => "output error: " ++ reason

/-- Misuse of quotation and macros. -/
inductive Misuse where
  /-- the body of a macro has to yield a quotation -/
  | notQuote (name : String) (got : ValueKind)
  /-- `unquote` takes one argument -/
  | unquoteArity (got : Nat)
  /-- a macro call with too few or too many arguments -/
  | arity (name : String) (expected got : Nat)
  /-- the body of a macro failed -/
  | failed (name : String) (fault : Fault)
deriving DecidableEq

/-- The wording of a misuse. -/
def Misuse.message : Misuse → String
  | notQuote name got => "macro " ++ name ++ " must return a quote, got " ++ got.name
  | unquoteArity got => "unquote takes exactly one argument, got " ++ toString got
  | arity name expected got =>
    "wrong number of arguments to macro " ++ name ++ ": expected " ++ toString expected ++
      ", got " ++ toString got
  | failed name fault => "error while expanding macro " ++ name ++ ": " ++ fault.message

end Quill
