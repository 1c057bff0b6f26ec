/-
Module: Quill.Tree.Printer
Layer: Trees
Purpose: Writing trees as source text. Unary, binary and index expressions are always parenthesised, so
  that the text shows how precedence was resolved: `a + b * c` is written `(a + (b * c))`. The leading
  word of a tree is the content of the token that introduces it.
Main exports: Expr.render, Stmt.render, renderBlock, Program.render, Node.render, Node.leadingWord
-/
import Quill.Tree
import Quill.Decimal.Layout

namespace Quill

/-- An integer in decimal digits. -/
def renderInteger (n : Int64) : String :=
  toString n.toInt

/-- A truth value. -/
def renderBoolean (b : Bool) : String :=
  if b then "true" else "false"

/-- A text between quotes, as it is. -/
def renderQuoted (content : String) : String :=
  "\"" ++ content ++ "\""

/-- Texts with a comma and a blank between them. -/
def commaSeparated (items : List String) : String :=
  ", ".intercalate items

/-- A text without the semicolons at its end. -/
def withoutSemicolons (text : String) : String :=
  String.ofList (text.toList.reverse.dropWhile (· = ';')).reverse

/-- Parameters in parentheses. -/
def renderParams (params : List String) : String :=
  "(" ++ commaSeparated params ++ ")"

/-- A text between curly braces, with a blank behind the opening one. -/
def braces (inner : String) : String :=
  "\x7b " ++ inner ++ "\x7d"

mutual

/-- The source text of an expression. -/
def Expr.render : Expr → String
  | .ident name => name
  | .integer n => renderInteger n
  | .float x => Decimal.render x
  | .boolean b => renderBoolean b
  | .text content => renderQuoted content
  | .null => "null"
  | .array items => "[" ++ commaSeparated (renderExprs items) ++ "]"
  | .hash pairs => "\x7b" ++ commaSeparated (renderPairs pairs) ++ "\x7d"
  | .unary op operand => "(" ++ op.spelling ++ operand.render ++ ")"
  | .binary op left right =>
    "(" ++ left.render ++ " " ++ op.spelling ++ " " ++ right.render ++ ")"
  | .conditional clauses otherwise =>
    " else ".intercalate (renderClauses "if " " " "" clauses) ++
      renderOtherwise " else " "" otherwise
  | .switch subject cases otherwise =>
    "switch " ++ subject.render ++ " \x7b " ++
      String.join (renderClauses "case " ": " " " cases) ++
      renderOtherwise "default: " " " otherwise ++ "\x7d"
  | .whileLoop condition body => "while " ++ condition.render ++ " " ++ braces (renderSpaced body)
  | .forLoop start condition step body =>
    "for (" ++ start.render ++ " " ++ condition.render ++ "; " ++
      withoutSemicolons step.render ++ ") " ++ braces (renderSpaced body)
  | .function _ params body => "fn" ++ renderParams params ++ " " ++ braces (renderSpaced body)
  | .call callee args => callee.render ++ "(" ++ commaSeparated (renderExprs args) ++ ")"
  | .index subject key => "(" ++ subject.render ++ "[" ++ key.render ++ "])"
  | .macroLiteral params body => "macro" ++ renderParams params ++ " " ++ braces (renderSpaced body)
termination_by structural e => e

/-- The source text of a statement; an expression statement has no semicolon. -/
def Stmt.render : Stmt → String
  | .bind name value => "let " ++ name ++ " = " ++ value.render ++ ";"
  | .bindConst name value => "const " ++ name ++ " = " ++ value.render ++ ";"
  | .assign name value => name ++ " = " ++ value.render ++ ";"
  | .ret value => "return " ++ value.render ++ ";"
  | .expr e => e.render
termination_by structural e => e

/-- The texts of several expressions. -/
def renderExprs : List Expr → List String
  | [] => []
  | e :: es => e.render :: renderExprs es
termination_by structural e => e

/-- The texts of the entries of a hash. -/
def renderPairs : List (Expr × Expr) → List String
  | [] => []
  | (key, value) :: ps => (key.render ++ ": " ++ value.render) :: renderPairs ps
termination_by structural e => e

/-- The texts of guarded blocks: each opens with a word, has a mark between guard and block, and
    closes with what keeps it apart from the next. -/
def renderClauses (word mark close : String) : List (Expr × List Stmt) → List String
  | [] => []
  | (guard, body) :: cs =>
    (word ++ guard.render ++ mark ++ braces (renderSpaced body) ++ close) :: renderClauses word mark close cs
termination_by structural e => e

/-- The text of a block that may be missing, between what opens and closes it. -/
def renderOtherwise (before after : String) : Option (List Stmt) → String
  | none => ""
  | some body => before ++ braces (renderSpaced body) ++ after
termination_by structural e => e

/-- The texts of statements, each with a blank behind it. -/
def renderSpaced : List Stmt → String
  | [] => ""
  | s :: ss => s.render ++ " " ++ renderSpaced ss
termination_by structural e => e

end

/-- The text of a block: curly braces around statements that each have a blank behind them. -/
def renderBlock (body : Block) : String :=
  braces (renderSpaced body)

/-- The text of a program: its statements with nothing between them. -/
def Program.render (p : Program) : String :=
  String.join (p.statements.map Stmt.render)

/-- The text of a tree of any kind. -/
def Node.render : Node → String
  | program p => p.render
  | block b => renderBlock b
  | stmt s => s.render
  | expr e => e.render

/-!
### Leading words
-/

/-- The content of the token that introduces an expression; for operators and calls that is the
    operator or the bracket. -/
def Expr.leadingWord : Expr → String
  | ident name => name
  | integer n => renderInteger n
  | float x => Decimal.render x
  | boolean b => renderBoolean b
  | text content => content
  | null => "null"
  | array _ => "["
  | hash _ => "\x7b"
  | unary op _ => op.spelling
  | binary op _ _ => op.spelling
  | conditional _ _ => "if"
  | switch _ _ _ => "switch"
  | whileLoop _ _ => "while"
  | forLoop _ _ _ _ => "for"
  | function _ _ _ => "fn"
  | call _ _ => "("
  | index _ _ => "["
  | macroLiteral _ _ => "macro"

/-- The content of the token that introduces a statement. -/
def Stmt.leadingWord : Stmt → String
  | bind _ _ => "let"
  | bindConst _ _ => "const"
  | assign name _ => name
  | ret _ => "return"
  | expr e => e.leadingWord

/-- The content of the token that introduces a tree; an empty program has none. -/
def Node.leadingWord : Node → String
  | program p =>
    match p.statements with
    | [] => ""
    | s :: _ => s.leadingWord
  | block _ => "\x7b"
  | stmt s => s.leadingWord
  | expr e => e.leadingWord

end Quill
