/-
Module: Quill.Token
Layer: Source text
Purpose: The vocabulary of the language. A source text is read as a sequence of tokens; each token is
  a lexeme (what was written) together with the position of its first character. Symbols and keywords
  are closed sets with fixed spellings, so the only lexemes that carry text are names, numbers,
  quoted texts and characters that belong to no lexeme.
Main exports: Position, Symbol, Keyword, Lexeme, Kind, Token
-/

namespace Quill

/-- A place in the source: lines count from one, columns count characters from zero. The counters are words of
    32 bits, which go on from zero when they overflow. -/
structure Position where
  line : UInt32
  column : UInt32
deriving DecidableEq

namespace Position

/-- The place of the first character of a text. -/
def start : Position := ⟨1, 0⟩

/-- The place after one more character: a line feed opens a new line, anything else is one column. -/
def advance (p : Position) (c : Char) : Position :=
  if c = '\n' then ⟨p.line + 1, 0⟩ else ⟨p.line, p.column + 1⟩

/-- The place after a run of characters. -/
def after (p : Position) (cs : List Char) : Position :=
  cs.foldl advance p

/-- The written form `line:column`. -/
def render (p : Position) : String :=
  toString p.line ++ ":" ++ toString p.column

end Position

/-- Operators and punctuation. -/
inductive Symbol where
  | assign
  | plus
  | minus
  | star
  | starStar
  | slash
  | slashSlash
  | percent
  | bang
  | equalEqual
  | bangEqual
  | less
  | greater
  | lessEqual
  | greaterEqual
  | andAnd
  | orOr
  | plusPlus
  | minusMinus
  | plusAssign
  | minusAssign
  | starAssign
  | slashAssign
  | slashSlashAssign
  | comma
  | semicolon
  | colon
  | leftParen
  | rightParen
  | leftCurly
  | rightCurly
  | leftBracket
  | rightBracket
deriving DecidableEq

namespace Symbol

/-- The characters of a symbol. -/
def chars : Symbol → List Char
  | assign => ['=']
  | plus => ['+']
  | minus => ['-']
  | star => ['*']
  | starStar => ['*', '*']
  | slash => ['/']
  | slashSlash => ['/', '/']
  | percent => ['%']
  | bang => ['!']
  | equalEqual => ['=', '=']
  | bangEqual => ['!', '=']
  | less => ['<']
  | greater => ['>']
  | lessEqual => ['<', '=']
  | greaterEqual => ['>', '=']
  | andAnd => ['&', '&']
  | orOr => ['|', '|']
  | plusPlus => ['+', '+']
  | minusMinus => ['-', '-']
  | plusAssign => ['+', '=']
  | minusAssign => ['-', '=']
  | starAssign => ['*', '=']
  | slashAssign => ['/', '=']
  | slashSlashAssign => ['/', '/', '=']
  | comma => [',']
  | semicolon => [';']
  | colon => [':']
  | leftParen => ['(']
  | rightParen => [')']
  | leftCurly => ['\x7b']
  | rightCurly => ['\x7d']
  | leftBracket => ['[']
  | rightBracket => [']']

/-- The written form of a symbol. -/
def spelling (s : Symbol) : String :=
  String.ofList s.chars

/-- Every symbol, longer spellings before shorter ones, so that the first one that fits is the
    longest one that fits. -/
def longestFirst : List Symbol :=
  [slashSlashAssign,
    starStar, slashSlash, equalEqual, bangEqual, lessEqual, greaterEqual, andAnd, orOr,
    plusPlus, minusMinus, plusAssign, minusAssign, starAssign, slashAssign,
    assign, plus, minus, star, slash, percent, bang, less, greater,
    comma, semicolon, colon, leftParen, rightParen, leftCurly, rightCurly, leftBracket, rightBracket]

/-- The longest symbol with which a text begins. -/
def leading? (cs : List Char) : Option Symbol :=
  longestFirst.find? (fun s => s.chars.isPrefixOf cs)

end Symbol

/-- Reserved words. -/
inductive Keyword where
  | letWord
  | constWord
  | fnWord
  | trueWord
  | falseWord
  | nullWord
  | ifWord
  | elseWord
  | returnWord
  | macroWord
  | whileWord
  | forWord
  | switchWord
  | caseWord
  | defaultWord
deriving DecidableEq

namespace Keyword

/-- The written form of a reserved word. -/
def spelling : Keyword → String
  | letWord => "let"
  | constWord => "const"
  | fnWord => "fn"
  | trueWord => "true"
  | falseWord => "false"
  | nullWord => "null"
  | ifWord => "if"
  | elseWord => "else"
  | returnWord => "return"
  | macroWord => "macro"
  | whileWord => "while"
  | forWord => "for"
  | switchWord => "switch"
  | caseWord => "case"
  | defaultWord => "default"

/-- Every reserved word. -/
def all : List Keyword :=
  [letWord, constWord, fnWord, trueWord, falseWord, nullWord, ifWord, elseWord, returnWord,
    macroWord, whileWord, forWord, switchWord, caseWord, defaultWord]

/-- The reserved word spelled `word`, if there is one. -/
def ofSpelling? (word : String) : Option Keyword :=
  all.find? (fun k => k.spelling == word)

end Keyword

/-- What one token says. Quoted texts are kept without their quotes and numbers as written; an
    `illegal` lexeme is a character that starts no token, or a quoted text that is never closed. -/
inductive Lexeme where
  | endOfText
  | illegal (text : String)
  | identifier (name : String)
  | integer (digits : String)
  | decimal (digits : String)
  | quoted (content : String)
  | symbol (s : Symbol)
  | keyword (k : Keyword)
deriving DecidableEq

/-- The class of a lexeme, which is what the grammar asks for. -/
inductive Kind where
  | endOfText
  | illegal
  | identifier
  | integer
  | decimal
  | quoted
  | symbol (s : Symbol)
  | keyword (k : Keyword)
deriving DecidableEq

/-- How a class of lexemes is named in messages. -/
def Kind.label : Kind → String
  | endOfText => "EOF"
  | illegal => "ILLEGAL"
  | identifier => "identifier"
  | integer => "integer"
  | decimal => "float"
  | quoted => "string"
  | symbol s => s.spelling
  | keyword k => k.spelling

namespace Lexeme

/-- The class of a lexeme. -/
def kind : Lexeme → Kind
  | endOfText => .endOfText
  | illegal _ => .illegal
  | identifier _ => .identifier
  | integer _ => .integer
  | decimal _ => .decimal
  | quoted _ => .quoted
  | symbol s => .symbol s
  | keyword k => .keyword k

/-- The content of a lexeme: its text, without the quotes of a quoted text. -/
def content : Lexeme → String
  | endOfText => ""
  | illegal text => text
  | identifier name => name
  | integer digits => digits
  | decimal digits => digits
  | quoted content => content
  | symbol s => s.spelling
  | keyword k => k.spelling

/-- A lexeme as it stands in the source; the end of the text, which has no characters, is named. -/
def spelling : Lexeme → String
  | endOfText => "EOF"
  | quoted content => "\"" ++ content ++ "\""
  | l => l.content

end Lexeme

/-- A lexeme and the position of its first character. -/
structure Token where
  lexeme : Lexeme
  position : Position
deriving DecidableEq

/-- Whether a token's lexeme is of the given class. -/
def Token.hasKind (t : Token) (k : Kind) : Bool :=
  t.lexeme.kind = k

end Quill
