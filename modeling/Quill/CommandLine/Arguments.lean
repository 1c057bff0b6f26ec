/-
Module: Quill.CommandLine.Arguments
Layer: Command line
Purpose: What the arguments of the command ask for: script files, and a source text given with `-e` or
  `--eval`. Without either, lines are read from the input.
Main exports: Request, Request.ofArguments
-/

namespace Quill

/-- What the command is asked to do. -/
inductive Request where
  /-- tell the version -/
  | version
  /-- run script files in order, and then a source text if one is given -/
  | scripts (files : List String) (source : Option String)
  /-- run lines from the input -/
  | lines
  /-- the arguments make no sense; the first offending one is given -/
  | unclear (argument : String)

namespace Request

/-- The request for some script files and maybe a source text. -/
def ofParts (files : List String) (source : Option String) : Request :=
  match files, source with
  | [], none => .lines
  | _, _ => .scripts files source

/-- A text behind `start`, if it begins with that. -/
def after? : (start : List Char) → List Char → Option (List Char)
  | [], text => some text
  | c :: cs, d :: ds => if c = d then after? cs ds else none
  | _ :: _, [] => none

/-- Forms of an argument. -/
inductive Argument where
  /-- an option whose source text is the next argument -/
  | sourceNext
  /-- an option with its source text -/
  | source (text : String)
  | version
  /-- everything behind it is a file -/
  | filesOnly
  | file (name : String)
  | unknown (argument : String)

/-- Whether an argument cannot be the value of an option before it: it starts with a hyphen that does not
    stand alone. -/
def looksLikeOption (argument : String) : Bool :=
  match argument.toList with
  | '-' :: _ :: _ => true
  | _ => false

/-- The source text behind the letter of a short option; an equals sign in front does not belong to it. -/
def attached (text : List Char) : String :=
  String.ofList ((after? ['='] text).getD text)

/-- The form of an argument. -/
def Argument.read (argument : String) : Argument :=
  if argument = "-e" ∨ argument = "--eval" then .sourceNext
  else if argument = "--version" ∨ argument = "-V" then .version
  else if argument = "--" then .filesOnly
  else
    match after? "--eval=".toList argument.toList with
    | some text => .source (String.ofList text)
    | none =>
      match after? ['-', '-'] argument.toList, after? ['-', 'e'] argument.toList, argument.toList with
      | some _, _, _ => .unknown argument
      | none, some text, _ => .source (attached text)
      | none, none, '-' :: _ :: _ => .unknown argument
      | none, none, _ => .file argument

/-- Reads arguments, given the files, last one first, and the source text met before them. There is at
    most one source text. -/
def ofArgumentsAfter (files : List String) (source : Option String) : List String → Request
  | [] => ofParts files.reverse source
  | argument :: rest =>
    match Argument.read argument with
    | .sourceNext =>
      match source, rest with
      | none, text :: rest' =>
        if looksLikeOption text then .unclear text else ofArgumentsAfter files (some text) rest'
      | _, _ => .unclear argument
    | .source text =>
      match source with
      | none => ofArgumentsAfter files (some text) rest
      | some _ => .unclear argument
    | .version => .version
    | .filesOnly => ofParts (files.reverse ++ rest) source
    | .file name => ofArgumentsAfter (name :: files) source rest
    | .unknown argument => .unclear argument

/-- Reads the arguments of the command. -/
def ofArguments (arguments : List String) : Request :=
  ofArgumentsAfter [] none arguments

end Request

end Quill
