/-
Module: Quill.Assoc
Layer: Values
Purpose: Association lists that keep the order in which keys first arrived. Hashes and scopes are such
  lists: an entry for a present key replaces the value in its place, one for a new key goes to the end.
Main exports: Assoc.set, Assoc.keys
-/

namespace Quill.Assoc

variable {κ ν : Type} [DecidableEq κ]

/-- The list in which `key` has `value`. -/
def set (key : κ) (value : ν) : List (κ × ν) → List (κ × ν)
  | [] => [(key, value)]
  | entry :: rest => if entry.1 = key then (key, value) :: rest else entry :: set key value rest

/-- The keys in order. -/
def keys (entries : List (κ × ν)) : List κ :=
  entries.map Prod.fst

end Quill.Assoc
