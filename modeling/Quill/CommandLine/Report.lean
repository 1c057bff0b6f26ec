/-
Module: Quill.CommandLine.Report
Layer: Command line
Purpose: How the command reports a failure: what failed, and below it the chain of causes, each further
  in. A single cause is indented; several are numbered from zero. Further lines of a cause start where
  its first line does.
Main exports: report
-/

namespace Quill

/-- A text whose lines behind the first start with `margin`. -/
def hang (margin text : String) : String :=
  ("\n" ++ margin).intercalate (text.splitOn "\n")

/-- A cause that stands alone. -/
def soleCause (text : String) : String :=
  "\n    " ++ hang "    " text

/-- Causes numbered from `n`. -/
def numberedCauses (n : Nat) : List String → String
  | [] => ""
  | text :: rest =>
    "\n    " ++ toString n ++ ": " ++ hang "       " text ++ numberedCauses (n + 1) rest

/-- The report of a failure and its causes. -/
def report (failure : String) (causes : List String) : String :=
  let below :=
    match causes with
    | [] => ""
    | [cause] => "\n\nCaused by:" ++ soleCause cause
    | _ => "\n\nCaused by:" ++ numberedCauses 0 causes
  "Error: " ++ failure ++ below ++ "\n"

end Quill
