/-
Module: Quill.Token.Lexer
Layer: Source text
Purpose: Splitting a source text into tokens. Blanks and comments separate tokens and are skipped;
  each token is the longest lexeme that starts at the first remaining character. Splitting never
  fails: a character that starts no lexeme becomes an illegal lexeme of its own. At the end of the
  text the lexer stands still and yields the end of the text again and again.
Main exports: Lexer, Lexer.next, Lexer.tokens, Token.scan
-/
import Quill.Token

namespace Quill

/-- Characters that separate tokens. -/
def isBlank (c : Char) : Bool :=
  c = ' ' || c = '\t' || c = '\r' || c = '\n'

/-- The ten decimal digits. -/
def isDigit (c : Char) : Bool :=
  decide ('0' ≤ c) && decide (c ≤ '9')

/-- Characters of a number: digits and any number of points, so that a number with two points is
    one (unreadable) number rather than two. -/
def isNumberChar (c : Char) : Bool :=
  isDigit c || c = '.'

/-- First characters of a name: the unaccented letters and the underscore. -/
def isNameStart (c : Char) : Bool :=
  (decide ('a' ≤ c) && decide (c ≤ 'z')) || (decide ('A' ≤ c) && decide (c ≤ 'Z')) || c = '_'

/-- Later characters of a name. -/
def isNameChar (c : Char) : Bool :=
  isNameStart c || isDigit c

/-- What remains to be split, and where it stands in the whole text. -/
structure Lexer where
  rest : List Char
  position : Position

namespace Lexer

/-- A lexer at the first character of a text. -/
def ofSource (source : String) : Lexer :=
  ⟨source.toList, Position.start⟩

/-- Drops blanks and comments. A comment runs from `#` up to a line feed, which is itself a blank;
    `inComment` tells on which side of that the text starts. -/
def skipLayout (inComment : Bool) (p : Position) : List Char → Lexer
  | [] => ⟨[], p⟩
  | c :: cs =>
    if inComment then
      if c = '\n' then skipLayout false (p.advance c) cs else skipLayout true (p.advance c) cs
    else if isBlank c then
      skipLayout false (p.advance c) cs
    else if c = '#' then
      skipLayout true (p.advance c) cs
    else
      ⟨c :: cs, p⟩

/-- The lexeme of a run of digits and points. -/
def numberLexeme (run : List Char) : Lexeme :=
  if run.contains '.' then .decimal (String.ofList run) else .integer (String.ofList run)

/-- The lexeme of a word: a reserved word, or else a name. -/
def wordLexeme (word : String) : Lexeme :=
  match Keyword.ofSpelling? word with
  | some k => .keyword k
  | none => .identifier word

/-- The text after an opening quote: up to the closing quote, or, if there is none, all of it as an
    illegal lexeme that keeps the opening quote. -/
def quotedLexeme (cs : List Char) : Lexeme × List Char :=
  match cs.dropWhile (· ≠ '"') with
  | _ :: rest => (.quoted (String.ofList (cs.takeWhile (· ≠ '"'))), rest)
  | [] => (.illegal (String.ofList ('"' :: cs)), [])

/-- The longest lexeme at the front of `c :: cs`, and what follows it. -/
def lexeme (c : Char) (cs : List Char) : Lexeme × List Char :=
  if c = '"' then
    quotedLexeme cs
  else if isDigit c then
    (numberLexeme (c :: cs.takeWhile isNumberChar), cs.dropWhile isNumberChar)
  else if isNameStart c then
    (wordLexeme (String.ofList (c :: cs.takeWhile isNameChar)), cs.dropWhile isNameChar)
  else
    match Symbol.leading? (c :: cs) with
    | some s => (.symbol s, cs.drop (s.chars.length - 1))
    | none => (.illegal (String.ofList [c]), cs)

/-- The next token, and the lexer behind it. The position moves over the characters that the token
    takes up in the text, which are those of its spelling. -/
def next (l : Lexer) : Token × Lexer :=
  let here := skipLayout false l.position l.rest
  match here.rest with
  | [] => (⟨.endOfText, here.position⟩, here)
  | c :: cs =>
    let (found, rest) := lexeme c cs
    (⟨found, here.position⟩, ⟨rest, here.position.after found.spelling.toList⟩)

/-- The tokens up to and including the end of the text. Each token takes at least one character, so
    a bound of one more than the number of characters is never reached. -/
def tokens : Nat → Lexer → List Token
  | 0, _ => []
  | bound + 1, l =>
    let (token, behind) := l.next
    if token.lexeme = .endOfText then [token] else token :: tokens bound behind

end Lexer

/-- The tokens of a source text; the last one, and only that one, is the end of the text. -/
def Token.scan (source : String) : List Token :=
  let l := Lexer.ofSource source
  l.tokens (l.rest.length + 1)

end Quill
