/-
Module: Quill.Main
Layer: Command line
Purpose: The command itself. Files and the input are read here and outcomes are written; what happens in
  between is `Quill.CommandLine`. Lines of the input are answered as they come.
Main exports: main
-/
import Quill.CommandLine

namespace Quill

/-- The command does not stop programs that run for long: no run gets near this bound. -/
def generousBound : Nat :=
  Nat.pow 2 60

/-- Writes an outcome and yields its code. -/
def Outcome.emit (o : Outcome) : IO UInt32 := do
  (← IO.getStdout).putStr o.output
  (← IO.getStderr).putStr o.errors
  return UInt32.ofNat o.code

/-- Reads a script. -/
def readScript (file : String) : IO Script := do
  match ← (IO.FS.readFile file).toBaseIO with
  | .ok text => return ⟨file, .ok text⟩
  | .error (.noFileOrDirectory ..) => return ⟨file, .error "No such file or directory (os error 2)"⟩
  | .error e => return ⟨file, .error (toString e)⟩

/-- Runs the lines of the input until it ends; `shown` bytes of what the session printed were written. -/
partial def converse (s : Session) (shown : Nat) : IO Unit := do
  let line ← (← IO.getStdin).getLine
  if line.isEmpty then return
  let (s', errors) := runLine generousBound s line
  let stdout ← IO.getStdout
  stdout.putStr (s'.machine.sink.textFrom shown)
  stdout.flush
  (← IO.getStderr).putStr errors
  converse s' s'.machine.sink.written.size

end Quill

/-- The command. -/
def main (arguments : List String) : IO UInt32 := do
  match Quill.Request.ofArguments arguments with
  | .scripts files source =>
    let scripts ← files.mapM Quill.readScript
    (Quill.runScripts Quill.generousBound source (.start .unlimited) scripts).emit
  | .lines =>
    Quill.converse (.start .unlimited) 0
    return 0
  | other => (Quill.perform Quill.generousBound (fun _ => .error "") "" other).emit
