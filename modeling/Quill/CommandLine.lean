/-
Module: Quill.CommandLine
Layer: Command line
Purpose: What the command does, as a function of what it reads. Scripts run in order in one session; the
  first failure ends the run. Lines of the input are run one by one, and a failure is reported without
  ending the session; the line `:env` lists the names that are bound.
Main exports: Outcome, runScripts, runLine, runLines
-/
import Quill.Session
import Quill.CommandLine.Arguments
import Quill.CommandLine.Report

namespace Quill

/-- What the command leaves behind: its exit code and what it wrote on its two channels. -/
structure Outcome where
  code : Nat
  output : String
  errors : String

namespace Outcome

/-- A run that went well. -/
def success (output : String) : Outcome :=
  ⟨0, output, ""⟩

/-- A run that ended with a failure. -/
def failure (output errors : String) : Outcome :=
  ⟨1, output, errors⟩

end Outcome

/-- The name and the version of the command. -/
def versionLine : String :=
  "rmonkey 0.1.0\n"

/-- A script: its file, and its text or the reason why it could not be read. -/
structure Script where
  file : String
  text : Except String String

namespace Session

/-- What was printed in a session. -/
def output (s : Session) : String :=
  s.machine.sink.text

/-- Shows a value on a line of its own, unless it is null. -/
def showValue (s : Session) (v : Value) : Session :=
  if v.isNull then s else s.print (v.render ++ "\n")

end Session

/-- Runs a source text that was given on its own and shows its value. -/
def runSource (bound : Nat) (s : Session) (source : String) : Outcome :=
  match s.eval bound source with
  | (.ok v, s') => .success (s'.showValue v).output
  | (.error f, s') => .failure s'.output (report f.message [f.cause])

/-- Runs scripts in order, and then a source text if there is one. -/
def runScripts (bound : Nat) (source : Option String) : Session → List Script → Outcome
  | s, [] =>
    match source with
    | some text => runSource bound s text
    | none => .success s.output
  | s, script :: rest =>
    match script.text with
    | .error reason => .failure s.output (report ("failed to read " ++ script.file) [reason])
    | .ok text =>
      match s.eval bound text with
      | (.ok _, s') => runScripts bound source s' rest
      | (.error f, s') =>
        .failure s'.output (report ("failed to run " ++ script.file) [f.message, f.cause])

/-- Runs a line of the input. What it prints goes to the session; what goes wrong is returned. -/
def runLine (bound : Nat) (s : Session) (line : String) : Session × String :=
  let text := Text.trim line
  if text = "" then (s, "")
  else if text = ":env" then (s.print (" ".intercalate s.names ++ "\n"), "")
  else
    match s.eval bound text with
    | (.ok v, s') => (s'.showValue v, "")
    | (.error f, s') => (s', f.message ++ "\n")

/-- Runs lines of the input, given what went wrong before them. -/
def runLines (bound : Nat) : Session → (errors : String) → List String → Outcome
  | s, errors, [] => ⟨0, s.output, errors⟩
  | s, errors, line :: rest =>
    match runLine bound s line with
    | (s', more) => runLines bound s' (errors ++ more) rest

/-- Does what was asked for, given the content of files and the input. -/
def perform (bound : Nat) (read : String → Except String String) (input : String) : Request → Outcome
  | .version => .success versionLine
  | .scripts files source =>
    runScripts bound source (Session.start .unlimited) (files.map (fun file => ⟨file, read file⟩))
  | .lines =>
    runLines bound (Session.start .unlimited) "" ((Text.lines input.toList).map String.ofList)
  | .unclear argument => ⟨2, "", "error: unexpected argument '" ++ argument ++ "' found\n"⟩

end Quill
