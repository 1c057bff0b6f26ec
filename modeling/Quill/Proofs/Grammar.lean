/-
Module: Quill.Proofs.Grammar
Layer: Proofs
Purpose: The grammar of the language, as rules over lexemes. A phrase is a syntactic category together with
  the tree that it stands for, and `Derives phrase words` says that the words, all of them and in their
  order, are such a phrase. Expressions are stratified by grades: an expression of a grade is built from
  operators that bind at least as tightly. Where a statement may end without a semicolon, the grammar looks
  one lexeme ahead: a statement takes in every lexeme that could continue its last expression, and only a
  semicolon, a closing brace or the end of the text can stand behind `return` without a value.
Main exports: Level.tighter, BinaryOp.leftGrade, BinaryOp.rightGrade, Phrase, separated, Derives, AllWords
-/
import Quill.Parser

namespace Quill

/-!
### Grades
-/

/-- The next tighter level. -/
def Level.tighter : Level → Level
  | lowest => logical
  | logical => equality
  | equality => relational
  | relational => additive
  | additive => multiplicative
  | multiplicative => exponent
  | exponent => unary
  | unary => call
  | call => call

/-- The grade of the left operand: chains of an operator group to the left, but those of the power do
    not. -/
def BinaryOp.leftGrade : BinaryOp → Level
  | power => .unary
  | op => op.level

/-- The grade of the right operand: only chains of the power group to the right. -/
def BinaryOp.rightGrade : BinaryOp → Level
  | power => .exponent
  | op => op.level.tighter

/-!
### Phrases
-/

/-- Syntactic categories with their trees. Statements know the lexeme that stands behind them. -/
inductive Phrase where
  | expression (grade : Level) (e : Expr)
  /-- the entries between the braces of a hash -/
  | entries (pairs : List (Expr × Expr))
  /-- statements between braces -/
  | block (body : Block)
  /-- a condition and a block -/
  | guarded (guard : Expr) (body : Block)
  /-- what may follow the first clause of a conditional -/
  | elses (clauses : List (Expr × Block)) (otherwise : Option Block)
  /-- what stands between the braces of a switch -/
  | cases (cases : List (Expr × Block)) (otherwise : Option Block)
  /-- a statement without its semicolon -/
  | statement (next : Lexeme) (s : Stmt)
  | statements (next : Lexeme) (ss : List Stmt)
  | program (p : Program)

/-- Runs of words with commas between them. -/
def separated : List (List Lexeme) → List Lexeme
  | [] => []
  | first :: others => first ++ others.flatMap (fun other => .symbol .comma :: other)

/-- Names as words with commas between them. -/
def separatedNames (names : List String) : List Lexeme :=
  separated (names.map fun name => [.identifier name])

/-- The lexemes before which a `return` may lack its value. -/
def Lexeme.endsReturn (l : Lexeme) : Bool :=
  l = .symbol .semicolon || l = .symbol .rightCurly || l = .endOfText

/-- The rules of the grammar. -/
inductive Derives : Phrase → List Lexeme → Prop where
  /- primary expressions -/
  | ident (name : String) : Derives (.expression .call (.ident name)) [.identifier name]
  | integer {digits : String} {n : Int64} (spelled : Decimal.readInteger? digits = some n) :
      Derives (.expression .call (.integer n)) [.integer digits]
  | float {digits : String} {x : Float} (spelled : Decimal.readFloat? digits = some x) :
      Derives (.expression .call (.float x)) [.decimal digits]
  | text (content : String) : Derives (.expression .call (.text content)) [.quoted content]
  | trueWord : Derives (.expression .call (.boolean true)) [.keyword .trueWord]
  | falseWord : Derives (.expression .call (.boolean false)) [.keyword .falseWord]
  | null : Derives (.expression .call .null) [.keyword .nullWord]
  | parenthesised {e : Expr} {ws : List Lexeme} (inner : Derives (.expression .logical e) ws) :
      Derives (.expression .call e) (.symbol .leftParen :: ws ++ [.symbol .rightParen])
  | array {items : List (Expr × List Lexeme)}
      (each : ∀ item ∈ items, Derives (.expression .logical item.1) item.2) :
      Derives (.expression .call (.array (items.map Prod.fst)))
        (.symbol .leftBracket :: separated (items.map Prod.snd) ++ [.symbol .rightBracket])
  | hash {pairs : List (Expr × Expr)} {ws : List Lexeme} (inner : Derives (.entries pairs) ws) :
      Derives (.expression .call (.hash pairs))
        (.symbol .leftCurly :: ws ++ [.symbol .rightCurly])
  | conditional {guard : Expr} {body : Block} {clauses : List (Expr × Block)}
      {otherwise : Option Block} {first rest : List Lexeme}
      (clause : Derives (.guarded guard body) first) (elses : Derives (.elses clauses otherwise) rest) :
      Derives (.expression .call (.conditional ((guard, body) :: clauses) otherwise))
        (.keyword .ifWord :: first ++ rest)
  | switch {subject : Expr} {first : Expr × Block} {others : List (Expr × Block)}
      {otherwise : Option Block} {head inner : List Lexeme}
      (subjectDerives : Derives (.expression .logical subject) head)
      (casesDerive : Derives (.cases (first :: others) otherwise) inner) :
      Derives (.expression .call (.switch subject (first :: others) otherwise))
        (.keyword .switchWord :: head ++ .symbol .leftCurly :: inner ++ [.symbol .rightCurly])
  | whileLoop {condition : Expr} {body : Block} {ws : List Lexeme}
      (clause : Derives (.guarded condition body) ws) :
      Derives (.expression .call (.whileLoop condition body)) (.keyword .whileWord :: ws)
  | forLoop {start step : Stmt} {condition : Expr} {body : Block} {w₁ w₂ w₃ w₄ : List Lexeme}
      (startDerives : Derives (.statement (.symbol .semicolon) start) w₁)
      (conditionDerives : Derives (.expression .logical condition) w₂)
      (stepDerives : Derives (.statement (.symbol .rightParen) step) w₃)
      (bodyDerives : Derives (.block body) w₄) :
      Derives (.expression .call (.forLoop start condition step body))
        (.keyword .forWord :: .symbol .leftParen :: w₁ ++ .symbol .semicolon :: w₂ ++
          .symbol .semicolon :: w₃ ++ .symbol .rightParen :: w₄)
  | function {params : List String} {body : Block} {ws : List Lexeme}
      (bodyDerives : Derives (.block body) ws) :
      Derives (.expression .call (.function none params body))
        (.keyword .fnWord :: .symbol .leftParen :: separatedNames params ++ .symbol .rightParen :: ws)
  | macroLiteral {params : List String} {body : Block} {ws : List Lexeme}
      (bodyDerives : Derives (.block body) ws) :
      Derives (.expression .call (.macroLiteral params body))
        (.keyword .macroWord :: .symbol .leftParen :: separatedNames params ++
          .symbol .rightParen :: ws)
  /- operators, calls and indexing -/
  | call {callee : Expr} {head : List Lexeme} {args : List (Expr × List Lexeme)}
      (calleeDerives : Derives (.expression .call callee) head)
      (each : ∀ arg ∈ args, Derives (.expression .logical arg.1) arg.2) :
      Derives (.expression .call (.call callee (args.map Prod.fst)))
        (head ++ .symbol .leftParen :: separated (args.map Prod.snd) ++ [.symbol .rightParen])
  | index {subject key : Expr} {head inner : List Lexeme}
      (subjectDerives : Derives (.expression .call subject) head)
      (keyDerives : Derives (.expression .logical key) inner) :
      Derives (.expression .call (.index subject key))
        (head ++ .symbol .leftBracket :: inner ++ [.symbol .rightBracket])
  | unary (op : UnaryOp) {operand : Expr} {ws : List Lexeme}
      (operandDerives : Derives (.expression .unary operand) ws) :
      Derives (.expression .unary (.unary op operand)) (.symbol op.symbol :: ws)
  | binary (op : BinaryOp) {left right : Expr} {w₁ w₂ : List Lexeme}
      (leftDerives : Derives (.expression op.leftGrade left) w₁)
      (rightDerives : Derives (.expression op.rightGrade right) w₂) :
      Derives (.expression op.level (.binary op left right)) (w₁ ++ .symbol op.symbol :: w₂)
  | looser {loose tight : Level} {e : Expr} {ws : List Lexeme} (le : loose.rank ≤ tight.rank)
      (derives : Derives (.expression tight e) ws) : Derives (.expression loose e) ws
  /- parts of expressions -/
  | noEntries : Derives (.entries []) []
  | lastEntry {key value : Expr} {w₁ w₂ : List Lexeme}
      (keyDerives : Derives (.expression .logical key) w₁)
      (valueDerives : Derives (.expression .logical value) w₂) :
      Derives (.entries [(key, value)]) (w₁ ++ .symbol .colon :: w₂)
  | moreEntries {key value : Expr} {pairs : List (Expr × Expr)} {w₁ w₂ w₃ : List Lexeme}
      (keyDerives : Derives (.expression .logical key) w₁)
      (valueDerives : Derives (.expression .logical value) w₂)
      (others : Derives (.entries pairs) w₃) :
      Derives (.entries ((key, value) :: pairs)) (w₁ ++ .symbol .colon :: w₂ ++ .symbol .comma :: w₃)
  | block {body : Block} {ws : List Lexeme}
      (inner : Derives (.statements (.symbol .rightCurly) body) ws) :
      Derives (.block body) (.symbol .leftCurly :: ws ++ [.symbol .rightCurly])
  | guarded {guard : Expr} {body : Block} {w₁ w₂ : List Lexeme}
      (guardDerives : Derives (.expression .logical guard) w₁)
      (bodyDerives : Derives (.block body) w₂) : Derives (.guarded guard body) (w₁ ++ w₂)
  | noElse : Derives (.elses [] none) []
  | elseBlock {body : Block} {ws : List Lexeme} (bodyDerives : Derives (.block body) ws) :
      Derives (.elses [] (some body)) (.keyword .elseWord :: ws)
  | elseIf {guard : Expr} {body : Block} {clauses : List (Expr × Block)} {otherwise : Option Block}
      {first rest : List Lexeme} (clause : Derives (.guarded guard body) first)
      (elses : Derives (.elses clauses otherwise) rest) :
      Derives (.elses ((guard, body) :: clauses) otherwise)
        (.keyword .elseWord :: .keyword .ifWord :: first ++ rest)
  | noCase : Derives (.cases [] none) []
  | defaultCase {body : Block} {ws : List Lexeme}
      (inner : Derives (.statements (.symbol .rightCurly) body) ws) :
      Derives (.cases [] (some body)) (.keyword .defaultWord :: .symbol .colon :: ws)
  | moreCases {value : Expr} {body : Block} {cases : List (Expr × Block)} {otherwise : Option Block}
      {w₁ w₂ w₃ : List Lexeme}
      (valueDerives : Derives (.expression .logical value) w₁)
      (bodyDerives : Derives (.statements (w₃.headD (.symbol .rightCurly)) body) w₂)
      (others : Derives (.cases cases otherwise) w₃) :
      Derives (.cases ((value, body) :: cases) otherwise)
        (.keyword .caseWord :: w₁ ++ .symbol .colon :: w₂ ++ w₃)
  /- statements -/
  | bind {next : Lexeme} (name : String) {value : Expr} {ws : List Lexeme}
      (ends : next.level = .lowest) (valueDerives : Derives (.expression .logical value) ws) :
      Derives (.statement next (.bind name (value.named name)))
        (.keyword .letWord :: .identifier name :: .symbol .assign :: ws)
  | bindConst {next : Lexeme} (name : String) {value : Expr} {ws : List Lexeme}
      (ends : next.level = .lowest) (valueDerives : Derives (.expression .logical value) ws) :
      Derives (.statement next (.bindConst name (value.named name)))
        (.keyword .constWord :: .identifier name :: .symbol .assign :: ws)
  | assign {next : Lexeme} (name : String) {value : Expr} {ws : List Lexeme}
      (ends : next.level = .lowest) (valueDerives : Derives (.expression .logical value) ws) :
      Derives (.statement next (.assign name (value.named name)))
        (.identifier name :: .symbol .assign :: ws)
  | compound {next : Lexeme} (name : String) {s : Symbol} {op : BinaryOp} {value : Expr}
      {ws : List Lexeme} (isCompound : s.compound? = some op) (ends : next.level = .lowest)
      (valueDerives : Derives (.expression .logical value) ws) :
      Derives (.statement next (.assign name (.binary op (.ident name) value)))
        (.identifier name :: .symbol s :: ws)
  | step {next : Lexeme} (name : String) {s : Symbol} {op : BinaryOp} (isStep : s.step? = some op) :
      Derives (.statement next (.assign name (.binary op (.ident name) (.integer 1))))
        [.identifier name, .symbol s]
  | ret {next : Lexeme} {value : Expr} {ws : List Lexeme} (ends : next.level = .lowest)
      (valueDerives : Derives (.expression .logical value) ws) :
      Derives (.statement next (.ret value)) (.keyword .returnWord :: ws)
  | retNull {next : Lexeme} (ends : next.endsReturn = true) :
      Derives (.statement next (.ret .null)) [.keyword .returnWord]
  | expr {next : Lexeme} {e : Expr} {ws : List Lexeme} (ends : next.level = .lowest)
      (derives : Derives (.expression .logical e) ws) : Derives (.statement next (.expr e)) ws
  /- sequences of statements -/
  | noStatements (next : Lexeme) : Derives (.statements next []) []
  | semicolon {next : Lexeme} {ss : List Stmt} {ws : List Lexeme}
      (others : Derives (.statements next ss) ws) :
      Derives (.statements next ss) (.symbol .semicolon :: ws)
  | closed {next : Lexeme} {s : Stmt} {ss : List Stmt} {w₁ w₂ : List Lexeme}
      (first : Derives (.statement (.symbol .semicolon) s) w₁)
      (others : Derives (.statements next ss) w₂) :
      Derives (.statements next (s :: ss)) (w₁ ++ .symbol .semicolon :: w₂)
  | unclosed {next : Lexeme} {s : Stmt} {ss : List Stmt} {w₁ w₂ : List Lexeme}
      (isOpen : w₂.headD next ≠ .symbol .semicolon)
      (first : Derives (.statement (w₂.headD next) s) w₁)
      (others : Derives (.statements next ss) w₂) :
      Derives (.statements next (s :: ss)) (w₁ ++ w₂)
  | program {ss : List Stmt} {ws : List Lexeme} (inner : Derives (.statements .endOfText ss) ws) :
      Derives (.program ⟨ss⟩) (ws ++ [.endOfText])

/-!
### Words that pass a test
-/

/-- All the words pass a test. -/
def AllWords (test : Lexeme → Bool) (ws : List Lexeme) : Prop :=
  ∀ w ∈ ws, test w = true

namespace AllWords

variable {test : Lexeme → Bool} {ws vs : List Lexeme}

@[simp] theorem nil : AllWords test [] :=
  nofun

@[simp] theorem cons {w : Lexeme} : AllWords test (w :: ws) ↔ test w = true ∧ AllWords test ws :=
  List.forall_mem_cons

@[simp] theorem append : AllWords test (ws ++ vs) ↔ AllWords test ws ∧ AllWords test vs :=
  List.forall_mem_append

/-- A test that commas pass is passed by items if it is passed by each item. -/
theorem separated (comma : test (.symbol .comma) = true) {runs : List (List Lexeme)} :
    AllWords test (separated runs) ↔ ∀ run ∈ runs, AllWords test run := by
  cases runs with
  | nil => simp [Quill.separated]
  | cons first others =>
      have behind : AllWords test (others.flatMap fun run => .symbol .comma :: run) ↔
          ∀ run ∈ others, AllWords test run := by
        induction others with
        | nil => simp
        | cons other others inductionHypothesis => simp [comma, inductionHypothesis]
      rw [Quill.separated, append, behind, List.forall_mem_cons]

theorem separatedNames (comma : test (.symbol .comma) = true) {names : List String} :
    AllWords test (separatedNames names) ↔ ∀ name ∈ names, test (.identifier name) = true := by
  simp [Quill.separatedNames, separated comma]

end AllWords

end Quill
