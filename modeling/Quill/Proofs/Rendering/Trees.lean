/-
Module: Quill.Proofs.Rendering.Trees
Layer: Proofs
Purpose: Trees whose text splits into words that derive them again, built from such parts: one lemma for each
  kind of expression and statement. An expression's text derives it at the tightest grade, so it can stand
  in every place; a statement's text ends before its semicolon, which a loop's last statement lacks.
Main exports: ExprWritten, StmtWritten, BlockWritten, BlockWritten.of_statements
-/
import Quill.Proofs.Rendering.Legible
import Quill.Proofs.Rendering.Plain

namespace Quill

/-!
### Written trees
-/

/-- An expression's text splits into words that derive it, in a place where any operator can follow. -/
def ExprWritten (e : Expr) : Prop :=
  ∃ ws, Written e.render ws ∧ Derives (.expression .call e) ws

/-- What stands behind a statement's text and is not part of it. -/
def Stmt.tail (s : Stmt) : String :=
  if s.isExpression then "" else ";"

/-- A statement's text, up to its semicolon, splits into words that derive it before anything that does not
    go on with an expression. -/
def StmtWritten (s : Stmt) : Prop :=
  ∃ piece ws, s.render = piece ++ s.tail ∧ Written piece ws ∧
    ∀ next : Lexeme, next.level = .lowest → Derives (.statement next s) ws

/-- A block's text splits into words that derive it. -/
def BlockWritten (body : Block) : Prop :=
  ∃ ws, Legible (renderBlock body) ws anything ∧ Derives (.block body) ws

namespace ExprWritten

variable {e left right : Expr}

theorem logical {ws : List Lexeme} (derives : Derives (.expression .call e) ws) :
    Derives (.expression .logical e) ws :=
  .looser (by decide) derives

theorem ident {name : String} (spelled : (Lexeme.identifier name).spelled = true) :
    ExprWritten (.ident name) := by
  refine ⟨_, ?_, .ident name⟩
  rw [Expr.render]
  exact .identifier spelled

theorem integer {n : Int64} (natural : 0 ≤ n.toInt) : ExprWritten (.integer n) := by
  refine ⟨_, ?_, .integer (Decimal.readInteger?_renderInteger natural)⟩
  rw [Expr.render]
  exact .integer natural

theorem text {content : String} (spelled : (Lexeme.quoted content).spelled = true) :
    ExprWritten (.text content) := by
  refine ⟨_, ?_, .text content⟩
  rw [Expr.render]
  exact .quoted spelled

theorem boolean (b : Bool) : ExprWritten (.boolean b) := by
  cases b with
  | true =>
      refine ⟨_, ?_, .trueWord⟩
      rw [Expr.render]
      exact .keyword .trueWord
  | false =>
      refine ⟨_, ?_, .falseWord⟩
      rw [Expr.render]
      exact .keyword .falseWord

theorem null : ExprWritten .null := by
  refine ⟨_, ?_, .null⟩
  rw [Expr.render]
  exact .keyword .nullWord

end ExprWritten

/-!
### Operators, indexing and literals
-/

/-- The symbol of an operator as a piece of its own. -/
theorem symbol_legible (s : Symbol) : Legible s.spelling [.symbol s] (Lexeme.symbol s).stops :=
  .word (l := .symbol s) rfl fun _ stops => stops

theorem keyword_legible (k : Keyword) : Legible k.spelling [.keyword k] isBreak :=
  (Written.keyword k).legible

/-- A written piece with a piece in brackets behind it. -/
theorem Written.enclosing {first inner : String} {firstWords words : List Lexeme} {after : Char → Bool}
    (written : Written first firstWords) (b : Bracket) (legible : Legible inner words isBreak) :
    Legible (first ++ (b.opening.spelling ++ inner ++ b.closing.spelling))
      (firstWords ++ (.symbol b.opening :: words ++ [.symbol b.closing])) after :=
  written.legible.append (legible.enclosed b) (b.meets inner)

/-- A symbol with a blank behind it. -/
theorem symbol_blank (s : Symbol) {after : Char → Bool} : Legible (s.spelling ++ " ") [.symbol s] after :=
  (symbol_legible s).append .blank ⟨' ', rfl, Lexeme.stops_blank _⟩

/-- A reserved word with a blank behind it. -/
theorem keyword_blank (k : Keyword) {after : Char → Bool} : Legible (k.spelling ++ " ") [.keyword k] after :=
  (keyword_legible k).append .blank ⟨' ', rfl, rfl⟩

/-- A piece with a blank behind it. -/
theorem Legible.spaced {piece : String} {words : List Lexeme} (legible : Legible piece words isBreak)
    {after : Char → Bool} : Legible (piece ++ " ") words after := by
  have whole : Legible (piece ++ " ") (words ++ []) after := legible.append .blank ⟨' ', rfl, rfl⟩
  rwa [List.append_nil] at whole

/-- A written piece with a blank behind it. -/
theorem Written.blank {piece : String} {words : List Lexeme} (written : Written piece words)
    {after : Char → Bool} : Legible (piece ++ " ") words after :=
  written.legible.spaced

/-- A written piece with a semicolon, a blank and more behind it. -/
theorem Written.semicolon {piece more : String} {words others : List Lexeme} {after : Char → Bool}
    (written : Written piece words) (legible : Legible more others after) :
    Legible (piece ++ (";" ++ " " ++ more)) (words ++ .symbol .semicolon :: others) after :=
  written.legible.append ((symbol_blank .semicolon).join legible) ⟨';', by simp, rfl⟩

theorem UnaryOp.stops_opening (op : UnaryOp) (d : Char) (opening : isOpening d = true) :
    (Lexeme.symbol op.symbol).stops d = true := by
  simp only [Lexeme.stops, Bool.not_eq_true']
  rw [← Bool.not_eq_true]
  intro extended
  cases op with
  | not =>
      have longer : d = '=' := by
        simpa [UnaryOp.symbol, Symbol.extendedBy, Symbol.longestFirst, Symbol.chars] using extended
      rw [longer] at opening
      cases opening
  | negate =>
      have longer : d = '-' ∨ d = '=' := by
        simpa [UnaryOp.symbol, Symbol.extendedBy, Symbol.longestFirst, Symbol.chars] using extended
      rcases longer with rfl | rfl <;> cases opening

section Operators

variable {e left right : Expr} {ws w₁ w₂ : List Lexeme}

/-- An operator in front of a piece whose first character does not run into it. -/
theorem unary_written (op : UnaryOp) (legible : Legible e.render ws isBreak)
    (meets : ∃ d, e.render.toList.head? = some d ∧ (Lexeme.symbol op.symbol).stops d = true) :
    Written (Expr.unary op e).render (.symbol .leftParen :: (.symbol op.symbol :: ws) ++ [.symbol .rightParen]) := by
  have inner : Legible (op.symbol.spelling ++ e.render) (.symbol op.symbol :: ws) isBreak :=
    (symbol_legible op.symbol).append legible meets
  have text : (Expr.unary op e).render = "(" ++ (op.symbol.spelling ++ e.render) ++ ")" := by
    simp only [Expr.render, UnaryOp.spelling, String.append_assoc]
  rw [text]
  exact .enclosed .round inner

theorem binary_written (op : BinaryOp) (leftLegible : Legible left.render w₁ isBreak)
    (rightLegible : Legible right.render w₂ isBreak) :
    Written (Expr.binary op left right).render
      (.symbol .leftParen :: (w₁ ++ .symbol op.symbol :: w₂) ++ [.symbol .rightParen]) := by
  have inner := leftLegible.spaced.join ((symbol_blank op.symbol).join rightLegible)
  have text : (Expr.binary op left right).render =
      "(" ++ (left.render ++ " " ++ (op.symbol.spelling ++ " " ++ right.render)) ++ ")" := by
    simp only [Expr.render, BinaryOp.spelling, String.append_assoc]
  rw [text]
  exact .enclosed .round inner

theorem Derives.unary_parenthesised (op : UnaryOp) (derives : Derives (.expression .unary e) ws) :
    Derives (.expression .call (.unary op e))
      (.symbol .leftParen :: (.symbol op.symbol :: ws) ++ [.symbol .rightParen]) :=
  .parenthesised (.looser (by decide) (.unary op derives))

/-- Operands that bind as tightly as a sign does can stand on both sides of every operator. -/
theorem Derives.binary_parenthesised (op : BinaryOp) (leftDerives : Derives (.expression .unary left) w₁)
    (rightDerives : Derives (.expression .unary right) w₂) :
    Derives (.expression .call (.binary op left right))
      (.symbol .leftParen :: (w₁ ++ .symbol op.symbol :: w₂) ++ [.symbol .rightParen]) := by
  have leftGraded : Derives (.expression op.leftGrade left) w₁ := .looser (by cases op <;> decide) leftDerives
  have rightGraded : Derives (.expression op.rightGrade right) w₂ := .looser (by cases op <;> decide) rightDerives
  exact .parenthesised (.looser (by cases op <;> decide) (.binary op leftGraded rightGraded))

end Operators

namespace ExprWritten

variable {left right subject key : Expr}

theorem unary (op : UnaryOp) (operand : ExprWritten e) : ExprWritten (.unary op e) := by
  obtain ⟨ws, written, derives⟩ := operand
  exact ⟨_, unary_written op written.legible (written.meets op.stops_opening),
    .unary_parenthesised op (.looser (by decide) derives)⟩

theorem binary (op : BinaryOp) (leftWritten : ExprWritten left) (rightWritten : ExprWritten right) :
    ExprWritten (.binary op left right) := by
  obtain ⟨w₁, written₁, derives₁⟩ := leftWritten
  obtain ⟨w₂, written₂, derives₂⟩ := rightWritten
  exact ⟨_, binary_written op written₁.legible written₂.legible,
    .binary_parenthesised op (.looser (by decide) derives₁) (.looser (by decide) derives₂)⟩

theorem index (subjectWritten : ExprWritten subject) (keyWritten : ExprWritten key) :
    ExprWritten (.index subject key) := by
  obtain ⟨w₁, written₁, derives₁⟩ := subjectWritten
  obtain ⟨w₂, written₂, derives₂⟩ := keyWritten
  refine ⟨.symbol .leftParen :: (w₁ ++ (.symbol .leftBracket :: w₂ ++ [.symbol .rightBracket])) ++
    [.symbol .rightParen], ?_, ?_⟩
  · have inner : Legible (subject.render ++ ("[" ++ key.render ++ "]")) _ isBreak :=
      written₁.enclosing .square written₂.legible
    have text : (Expr.index subject key).render =
        "(" ++ (subject.render ++ ("[" ++ key.render ++ "]")) ++ ")" := by
      have closing : "])" = "]" ++ ")" := rfl
      simp only [Expr.render, closing, String.append_assoc]
    rw [text]
    exact .enclosed .round inner
  · have whole : Derives (.expression .call (.index subject key)) _ := .index derives₁ (logical derives₂)
    have inParens := Derives.parenthesised (logical whole)
    simpa using inParens

end ExprWritten
/-!
### Lists in brackets
-/

theorem renderExprs_eq_map (es : List Expr) : renderExprs es = es.map Expr.render := by
  induction es with
  | nil => rfl
  | cons e es inductionHypothesis => rw [renderExprs, inductionHypothesis, List.map_cons]

/-- The text of an entry of a hash. -/
def renderPair (pair : Expr × Expr) : String :=
  pair.1.render ++ ": " ++ pair.2.render

theorem renderPairs_eq_map (pairs : List (Expr × Expr)) : renderPairs pairs = pairs.map renderPair := by
  induction pairs with
  | nil => rfl
  | cons pair pairs inductionHypothesis => rw [renderPairs, inductionHypothesis, List.map_cons, renderPair]

/-- The words of an entry derive its key and its value. -/
def PairDerives (pair : Expr × Expr) (ws : List Lexeme) : Prop :=
  ∃ w₁ w₂, ws = w₁ ++ .symbol .colon :: w₂ ∧ Derives (.expression .logical pair.1) w₁ ∧
    Derives (.expression .logical pair.2) w₂

theorem Derives.entries {found : List ((Expr × Expr) × List Lexeme)} :
    (∀ one ∈ found, PairDerives one.1 one.2) →
    Derives (.entries (found.map Prod.fst)) (separated (found.map Prod.snd)) := by
  induction found with
  | nil =>
      intro _
      exact .noEntries
  | cons one others inductionHypothesis =>
      intro each
      obtain ⟨⟨key, value⟩, ws⟩ := one
      obtain ⟨⟨w₁, w₂, rfl, keyDerives, valueDerives⟩, behind⟩ := List.forall_mem_cons.1 each
      cases others with
      | nil => simpa [separated] using Derives.lastEntry keyDerives valueDerives
      | cons next further =>
          simpa [separated] using Derives.moreEntries keyDerives valueDerives (inductionHypothesis behind)

namespace ExprWritten

variable {callee : Expr} {es : List Expr} {pairs : List (Expr × Expr)}

/-- Expressions with commas between them, and words that derive each of them. -/
theorem items (each : ∀ e ∈ es, ExprWritten e) :
    ∃ found : List (Expr × List Lexeme), found.map Prod.fst = es ∧
      (∀ one ∈ found, Derives (.expression .logical one.1) one.2) ∧
      Legible (commaSeparated (renderExprs es)) (separated (found.map Prod.snd)) isBreak := by
  rw [renderExprs_eq_map]
  apply commaSeparated_found (p := fun e ws => Derives (.expression .logical e) ws)
  intro e member
  obtain ⟨ws, written, derives⟩ := each e member
  exact ⟨ws, written, logical derives⟩

theorem array (each : ∀ e ∈ es, ExprWritten e) : ExprWritten (.array es) := by
  obtain ⟨found, rfl, derive, legible⟩ := items each
  refine ⟨_, ?_, .array derive⟩
  rw [Expr.render]
  exact .enclosed .square legible

theorem call (calleeWritten : ExprWritten callee) (each : ∀ e ∈ es, ExprWritten e) :
    ExprWritten (.call callee es) := by
  obtain ⟨ws, written, derives⟩ := calleeWritten
  obtain ⟨found, rfl, derive, legible⟩ := items each
  refine ⟨ws ++ (.symbol .leftParen :: separated (found.map Prod.snd) ++ [.symbol .rightParen]), ?_, ?_⟩
  · have text : (Expr.call callee (found.map Prod.fst)).render =
        callee.render ++ ("(" ++ commaSeparated (renderExprs (found.map Prod.fst)) ++ ")") := by
      simp only [Expr.render, String.append_assoc]
    rw [text]
    constructor
    · exact written.enclosing .round legible
    · exact written.begins.append
    · exact (Bracket.round.closing_ends.append).append
  · have whole := Derives.call derives derive
    rwa [List.append_assoc] at whole

/-- An entry of a hash: a colon and a blank between two expressions. -/
theorem pair {pair : Expr × Expr} (keyWritten : ExprWritten pair.1) (valueWritten : ExprWritten pair.2) :
    ∃ ws, Written (renderPair pair) ws ∧ PairDerives pair ws := by
  obtain ⟨w₁, written₁, derives₁⟩ := keyWritten
  obtain ⟨w₂, written₂, derives₂⟩ := valueWritten
  refine ⟨w₁ ++ .symbol .colon :: w₂, ?_, w₁, w₂, rfl, logical derives₁, logical derives₂⟩
  rw [renderPair, String.append_assoc]
  constructor
  · exact written₁.legible.append ((symbol_blank .colon).join written₂.legible) ⟨':', by simp, rfl⟩
  · exact written₁.begins.append
  · exact written₂.ends.append.append

theorem hash (each : ∀ pair ∈ pairs, ExprWritten pair.1 ∧ ExprWritten pair.2) : ExprWritten (.hash pairs) := by
  have listed := commaSeparated_found (p := PairDerives) (f := renderPair) (l := pairs) fun one member =>
    pair (each one member).1 (each one member).2
  obtain ⟨found, rfl, derive, legible⟩ := listed
  refine ⟨_, ?_, .hash (.entries derive)⟩
  rw [Expr.render, renderPairs_eq_map]
  exact .enclosed .curly legible

end ExprWritten

/-- Parameters in parentheses. -/
theorem params_legible {params : List String} (spelled : ∀ name ∈ params, (Lexeme.identifier name).spelled = true)
    {after : Char → Bool} :
    Legible (renderParams params) (.symbol .leftParen :: separatedNames params ++ [.symbol .rightParen]) after := by
  have pieces := commaSeparated_legible (params.map fun name => (name, [.identifier name])) (by
    intro one member
    obtain ⟨name, isParam, rfl⟩ := List.mem_map.1 member
    exact .identifier (spelled name isParam))
  simp only [List.map_map, Function.comp_def, List.map_id'] at pieces
  exact pieces.enclosed .round

/-!
### Conditionals, loops and functions
-/

/-- A reserved word and a blank in front of a written piece. -/
theorem Written.after_keyword {piece : String} {words : List Lexeme} (k : Keyword)
    (written : Written piece words) : Written (k.spelling ++ " " ++ piece) (.keyword k :: words) := by
  constructor
  · exact (keyword_blank k).join written.legible
  · exact (keyword_begins k).append_text
  · exact written.ends.append

theorem renderBlock_ends (body : Block) : Ends (renderBlock body) :=
  Bracket.curly.closing_ends.append

theorem withoutSemicolons_of_ends {piece : String} (ends : Ends piece) (s : Stmt) :
    withoutSemicolons (piece ++ s.tail) = piece := by
  obtain ⟨chars, d, isPiece, notSemicolon⟩ := ends
  have dropped : ((piece ++ s.tail).toList.reverse.dropWhile (· = ';')).reverse = piece.toList := by
    unfold Stmt.tail
    split <;> simp [isPiece, notSemicolon]
  rw [withoutSemicolons, dropped, String.ofList_toList]

/-- A condition, a blank and a block. -/
theorem guarded_written {guard : Expr} {body : Block} (guardWritten : ExprWritten guard)
    (bodyWritten : BlockWritten body) :
    ∃ ws, Legible (guard.render ++ " " ++ renderBlock body) ws anything ∧
      Begins (guard.render ++ " " ++ renderBlock body) ws ∧ Derives (.guarded guard body) ws := by
  obtain ⟨w₁, written, derives₁⟩ := guardWritten
  obtain ⟨w₂, legible, derives₂⟩ := bodyWritten
  refine ⟨w₁ ++ w₂, written.blank.join legible, ?_, .guarded (ExprWritten.logical derives₁) derives₂⟩
  rw [String.append_assoc]
  exact written.begins.append

/-- What is written behind the first clause of a conditional. -/
def renderElses (clauses : List (Expr × Block)) (otherwise : Option Block) : String :=
  String.join ((renderClauses "if " " " "" clauses).map (" else " ++ ·)) ++
    renderOtherwise " else " "" otherwise

theorem intercalate_cons_join (between first : String) (others : List String) :
    between.intercalate (first :: others) = first ++ String.join (others.map (between ++ ·)) := by
  induction others generalizing first with
  | nil => simp
  | cons next others inductionHypothesis =>
      rw [String.intercalate_cons_cons, inductionHypothesis, List.map_cons, String.join_cons]
      simp only [String.append_assoc]

theorem renderElses_nil (body : Block) :
    renderElses [] (some body) = " " ++ ("else" ++ " " ++ renderBlock body) := by
  have words : " else " = " " ++ ("else" ++ " ") := rfl
  simp only [renderElses, renderClauses, renderOtherwise, List.map_nil, String.join_nil, renderBlock,
    String.empty_append, String.append_empty, words, String.append_assoc]

theorem renderElses_cons (guard : Expr) (body : Block) (clauses : List (Expr × Block))
    (otherwise : Option Block) :
    renderElses ((guard, body) :: clauses) otherwise =
      " " ++ ("else" ++ " " ++ ("if" ++ " " ++ (guard.render ++ " " ++ renderBlock body) ++
        renderElses clauses otherwise)) := by
  have words : " else " = " " ++ ("else" ++ " ") := rfl
  have word : "if " = "if" ++ " " := rfl
  simp only [renderElses, renderClauses, List.map_cons, String.join_cons, renderBlock, String.append_empty,
    words, word, String.append_assoc]

theorem render_conditional (guard : Expr) (body : Block) (clauses : List (Expr × Block))
    (otherwise : Option Block) :
    (Expr.conditional ((guard, body) :: clauses) otherwise).render =
      "if" ++ " " ++ (guard.render ++ " " ++ renderBlock body) ++ renderElses clauses otherwise := by
  have word : "if " = "if" ++ " " := rfl
  simp only [Expr.render, renderClauses, intercalate_cons_join, renderElses, renderBlock, String.append_empty,
    word, String.append_assoc]

theorem renderElses_ends {first : String} (ends : Ends first) (clauses : List (Expr × Block))
    (otherwise : Option Block) : Ends (first ++ renderElses clauses otherwise) := by
  induction clauses generalizing first with
  | nil =>
      cases otherwise with
      | none => simpa [renderElses, renderClauses, renderOtherwise] using ends
      | some body =>
          rw [renderElses_nil]
          exact (renderBlock_ends body).append.append.append
  | cons clause clauses inductionHypothesis =>
      obtain ⟨guard, body⟩ := clause
      have clauseEnds : Ends
          (first ++ (" " ++ ("else" ++ " " ++ ("if" ++ " " ++ (guard.render ++ " " ++ renderBlock body))))) :=
        (renderBlock_ends body).append.append.append.append.append
      have before := inductionHypothesis clauseEnds
      rw [renderElses_cons]
      simpa only [String.append_assoc] using before

theorem elses_legible {clauses : List (Expr × Block)} {otherwise : Option Block}
    (each : ∀ clause ∈ clauses, ExprWritten clause.1 ∧ BlockWritten clause.2)
    (last : ∀ body ∈ otherwise, BlockWritten body) :
    ∃ ws, Legible (renderElses clauses otherwise) ws anything ∧ Derives (.elses clauses otherwise) ws := by
  induction clauses with
  | nil =>
      cases otherwise with
      | none => exact ⟨[], .empty, .noElse⟩
      | some body =>
          obtain ⟨ws, legible, derives⟩ := last body rfl
          refine ⟨_, ?_, .elseBlock derives⟩
          rw [renderElses_nil]
          exact Legible.blank.join ((keyword_blank .elseWord).join legible)
  | cons clause clauses inductionHypothesis =>
      obtain ⟨guard, body⟩ := clause
      obtain ⟨⟨guardWritten, bodyWritten⟩, behind⟩ := List.forall_mem_cons.1 each
      obtain ⟨w₁, legible₁, _, derives₁⟩ := guarded_written guardWritten bodyWritten
      obtain ⟨w₂, legible₂, derives₂⟩ := inductionHypothesis behind
      refine ⟨_, ?_, .elseIf derives₁ derives₂⟩
      rw [renderElses_cons]
      have clauseLegible := ((keyword_blank .ifWord).join legible₁).join legible₂
      exact Legible.blank.join ((keyword_blank .elseWord).join clauseLegible)

namespace ExprWritten

variable {guard condition : Expr} {body : Block}

theorem conditional {clauses : List (Expr × Block)} {otherwise : Option Block}
    (guardWritten : ExprWritten guard) (bodyWritten : BlockWritten body)
    (each : ∀ clause ∈ clauses, ExprWritten clause.1 ∧ BlockWritten clause.2)
    (last : ∀ body ∈ otherwise, BlockWritten body) :
    ExprWritten (.conditional ((guard, body) :: clauses) otherwise) := by
  obtain ⟨w₁, legible₁, _, derives₁⟩ := guarded_written guardWritten bodyWritten
  obtain ⟨w₂, legible₂, derives₂⟩ := elses_legible each last
  refine ⟨_, ?_, .conditional derives₁ derives₂⟩
  rw [render_conditional]
  constructor
  · exact (((keyword_blank .ifWord).join legible₁).join legible₂).of_anything
  · exact (keyword_begins .ifWord).append_text.append_text
  · exact renderElses_ends (renderBlock_ends body).append.append _ _

theorem whileLoop (conditionWritten : ExprWritten condition) (bodyWritten : BlockWritten body) :
    ExprWritten (.whileLoop condition body) := by
  obtain ⟨ws, legible, begins, derives⟩ := guarded_written conditionWritten bodyWritten
  refine ⟨_, ?_, .whileLoop derives⟩
  have text : (Expr.whileLoop condition body).render =
      "while" ++ " " ++ (condition.render ++ " " ++ renderBlock body) := by
    have word : "while " = "while" ++ " " := rfl
    simp only [Expr.render, renderBlock, word, String.append_assoc]
  rw [text]
  exact .after_keyword .whileWord ⟨legible.of_anything, begins, (renderBlock_ends body).append⟩

theorem forLoop {start step : Stmt} (notExpression : start.isExpression = false)
    (startWritten : StmtWritten start) (conditionWritten : ExprWritten condition)
    (stepWritten : StmtWritten step) (bodyWritten : BlockWritten body) :
    ExprWritten (.forLoop start condition step body) := by
  obtain ⟨first, w₁, startText, written₁, derives₁⟩ := startWritten
  obtain ⟨w₂, written₂, derives₂⟩ := conditionWritten
  obtain ⟨last, w₃, stepText, written₃, derives₃⟩ := stepWritten
  obtain ⟨w₄, legible₄, derives₄⟩ := bodyWritten
  have inner := written₁.semicolon (written₂.semicolon written₃.legible)
  have legible := ((keyword_blank .forWord).join (inner.enclosed .round)).join (Legible.blank.join legible₄)
  have text : (Expr.forLoop start condition step body).render =
      "for" ++ " " ++ ("(" ++ (first ++ (";" ++ " " ++ (condition.render ++ (";" ++ " " ++ last)))) ++ ")") ++
        (" " ++ renderBlock body) := by
    have opening : "for (" = "for" ++ (" " ++ "(") := rfl
    have middle : "; " = ";" ++ " " := rfl
    have closing : ") " = ")" ++ " " := rfl
    rw [Expr.render, stepText, withoutSemicolons_of_ends written₃.ends, startText, Stmt.tail, notExpression]
    simp only [opening, middle, closing, renderBlock, Bool.false_eq_true, if_false, String.append_assoc]
  have derives := Derives.forLoop (derives₁ _ rfl) (logical derives₂) (derives₃ _ rfl) derives₄
  refine ⟨.keyword .forWord :: (.symbol .leftParen :: (w₁ ++ .symbol .semicolon ::
    (w₂ ++ .symbol .semicolon :: w₃)) ++ [.symbol .rightParen]) ++ w₄, ?_, by simpa using derives⟩
  rw [text]
  constructor
  · exact legible.of_anything
  · exact (keyword_begins .forWord).append_text.append_text
  · exact (renderBlock_ends body).append.append

end ExprWritten

/-- A function or a macro: a word, parameters and a block. -/
theorem abstraction_written (k : Keyword) {params : List String} {body : Block}
    (spelled : ∀ name ∈ params, (Lexeme.identifier name).spelled = true) (bodyWritten : BlockWritten body) :
    ∃ ws, Derives (.block body) ws ∧
      Written (k.spelling ++ renderParams params ++ " " ++ braces (renderSpaced body))
        (.keyword k :: .symbol .leftParen :: separatedNames params ++ .symbol .rightParen :: ws) := by
  obtain ⟨ws, legible, derives⟩ := bodyWritten
  refine ⟨ws, derives, ?_, ?_, ?_⟩
  · have paramsLegible : Legible (renderParams params) _ anything := params_legible spelled
    have head := (keyword_legible k).append paramsLegible (Bracket.round.meets (commaSeparated params))
    have whole := head.join (Legible.blank.join legible)
    simpa [renderBlock, String.append_assoc] using whole.of_anything
  · exact (keyword_begins k).append_text.append_text
  · exact (renderBlock_ends body).append

namespace ExprWritten

variable {params : List String} {body : Block}

theorem function (spelled : ∀ name ∈ params, (Lexeme.identifier name).spelled = true)
    (bodyWritten : BlockWritten body) : ExprWritten (.function none params body) := by
  obtain ⟨ws, derives, written⟩ := abstraction_written .fnWord spelled bodyWritten
  refine ⟨_, ?_, .function derives⟩
  rw [Expr.render]
  exact written

theorem macroLiteral (spelled : ∀ name ∈ params, (Lexeme.identifier name).spelled = true)
    (bodyWritten : BlockWritten body) : ExprWritten (.macroLiteral params body) := by
  obtain ⟨ws, derives, written⟩ := abstraction_written .macroWord spelled bodyWritten
  refine ⟨_, ?_, .macroLiteral derives⟩
  rw [Expr.render]
  exact written

end ExprWritten

/-!
### Statements
-/

/-- A name, the assignment sign and an expression. -/
theorem assignment_written {name piece : String} {ws : List Lexeme}
    (spelled : (Lexeme.identifier name).spelled = true) (written : Written piece ws) :
    Written (name ++ " = " ++ piece) (.identifier name :: .symbol .assign :: ws) := by
  have sign : " = " = " " ++ ("=" ++ " ") := rfl
  have nameWritten := Written.identifier spelled
  constructor
  · have whole := nameWritten.blank.join ((symbol_blank .assign).join written.legible)
    simp only [sign, String.append_assoc] at whole ⊢
    exact whole
  · have begins : Begins (name ++ " = ") ([.identifier name] ++ .symbol .assign :: ws) :=
      nameWritten.begins.append
    exact begins.append_text
  · exact written.ends.append

namespace StmtWritten

variable {name : String} {value e : Expr}

theorem expr (written : ExprWritten e) : StmtWritten (.expr e) := by
  obtain ⟨ws, written, derives⟩ := written
  refine ⟨e.render, ws, ?_, written, fun next loose => .expr loose (ExprWritten.logical derives)⟩
  rw [Stmt.render, Stmt.tail, Stmt.isExpression, if_pos rfl, String.append_empty]

theorem ret (written : ExprWritten value) : StmtWritten (.ret value) := by
  obtain ⟨ws, written, derives⟩ := written
  refine ⟨"return" ++ " " ++ value.render, _, ?_, written.after_keyword .returnWord,
    fun next loose => .ret loose (ExprWritten.logical derives)⟩
  have word : "return " = "return" ++ " " := rfl
  simp only [Stmt.render, Stmt.tail, Stmt.isExpression, word, Bool.false_eq_true, if_false]

theorem assign (spelled : (Lexeme.identifier name).spelled = true) (written : ExprWritten value) :
    StmtWritten (.assign name (value.named name)) := by
  obtain ⟨ws, written, derives⟩ := written
  refine ⟨name ++ " = " ++ value.render, _, ?_, assignment_written spelled written,
    fun next loose => .assign name loose (ExprWritten.logical derives)⟩
  simp only [Stmt.render, Stmt.tail, Stmt.isExpression, Expr.render_named, Bool.false_eq_true, if_false]

theorem bind (spelled : (Lexeme.identifier name).spelled = true) (written : ExprWritten value) :
    StmtWritten (.bind name (value.named name)) := by
  obtain ⟨ws, written, derives⟩ := written
  refine ⟨"let" ++ " " ++ (name ++ " = " ++ value.render), _, ?_,
    (assignment_written spelled written).after_keyword .letWord,
    fun next loose => .bind name loose (ExprWritten.logical derives)⟩
  have word : "let " = "let" ++ " " := rfl
  simp only [Stmt.render, Stmt.tail, Stmt.isExpression, Expr.render_named, word, Bool.false_eq_true, if_false,
    String.append_assoc]

theorem bindConst (spelled : (Lexeme.identifier name).spelled = true) (written : ExprWritten value) :
    StmtWritten (.bindConst name (value.named name)) := by
  obtain ⟨ws, written, derives⟩ := written
  refine ⟨"const" ++ " " ++ (name ++ " = " ++ value.render), _, ?_,
    (assignment_written spelled written).after_keyword .constWord,
    fun next loose => .bindConst name loose (ExprWritten.logical derives)⟩
  have word : "const " = "const" ++ " " := rfl
  simp only [Stmt.render, Stmt.tail, Stmt.isExpression, Expr.render_named, word, Bool.false_eq_true, if_false,
    String.append_assoc]

end StmtWritten

/-!
### Blocks and programs
-/

theorem Stmt.tail_of_isExpression {s : Stmt} (isExpression : s.isExpression = true) : s.tail = "" := by
  rw [Stmt.tail, if_pos isExpression]

theorem Stmt.tail_of_not_isExpression {s : Stmt} (notExpression : s.isExpression = false) : s.tail = ";" := by
  rw [Stmt.tail, notExpression]
  rfl

/-- The first word of a statement is no semicolon, and continues an expression only if it is a bracket. -/
theorem StmtWritten.first_word {s : Stmt} {piece : String} {ws others : List Lexeme} {next : Lexeme}
    (isText : s.render = piece ++ s.tail) (written : Written piece ws) :
    (ws ++ others).headD next ≠ .symbol .semicolon ∧
      (s.opensBracket = false → ((ws ++ others).headD next).level = .lowest) := by
  obtain ⟨d, chars, w, more, isPiece, rfl, _, loose, notSemicolon⟩ := written.begins
  have isFirst : s.render.toList.head? = some d := by simp [isText, isPiece]
  refine ⟨notSemicolon, ?_⟩
  intro noBracket
  simp only [Stmt.opensBracket, isFirst, Option.some.injEq, Bool.or_eq_false_iff,
    decide_eq_false_iff_not] at noBracket
  exact loose noBracket.1 noBracket.2

/-- The words of a block's statements. An expression takes in what follows it as long as that continues it,
    so the first word behind it must not. -/
theorem spaced_legible {body : Block} (each : ∀ s ∈ body, StmtWritten s) (plain : plainBlock body = true) :
    ∃ ws, Legible (renderSpaced body) ws anything ∧ Derives (.statements (.symbol .rightCurly) body) ws ∧
      ws.headD (.symbol .rightCurly) ≠ .symbol .semicolon ∧
      (∀ s ∈ body.head?, s.opensBracket = false → (ws.headD (.symbol .rightCurly)).level = .lowest) ∧
      (body = [] → ws = []) := by
  induction body with
  | nil => exact ⟨[], .empty, .noStatements _, (by simp), (by simp), fun _ => rfl⟩
  | cons s ss inductionHypothesis =>
      obtain ⟨⟨piece, w₁, isText, written, derives₁⟩, behind⟩ := List.forall_mem_cons.1 each
      simp only [plainBlock, Bool.and_eq_true] at plain
      obtain ⟨w₂, legible, derives₂, notSemicolon, loose, isEnd⟩ := inductionHypothesis behind plain.2
      cases isExpression : s.isExpression with
      | false =>
          have text : renderSpaced (s :: ss) = piece ++ (";" ++ " " ++ renderSpaced ss) := by
            rw [renderSpaced, isText, s.tail_of_not_isExpression isExpression]
            simp only [String.append_assoc]
          obtain ⟨notSemicolon, loose⟩ := StmtWritten.first_word isText written
          refine ⟨w₁ ++ .symbol .semicolon :: w₂, ?_, .closed (derives₁ _ rfl) derives₂, notSemicolon, ?_, (by simp)⟩
          · rw [text]
            exact written.semicolon legible
          · rintro _ ⟨⟩
            exact loose
      | true =>
          have text : renderSpaced (s :: ss) = piece ++ " " ++ renderSpaced ss := by
            rw [renderSpaced, isText, Stmt.tail_of_isExpression isExpression, String.append_empty]
          have stops : (w₂.headD (.symbol .rightCurly)).level = .lowest := by
            cases ss with
            | nil =>
                rw [isEnd rfl]
                rfl
            | cons next further =>
                have apart := plain.1.2
                simp only [Stmt.staysApart, isExpression, Bool.true_and, Bool.not_eq_true'] at apart
                exact loose next rfl apart
          obtain ⟨notSemicolon', loose'⟩ := StmtWritten.first_word isText written
          refine ⟨w₁ ++ w₂, ?_, .unclosed notSemicolon (derives₁ _ stops) derives₂, notSemicolon', ?_, (by simp)⟩
          · rw [text]
            exact written.blank.join legible
          · rintro _ ⟨⟩
            exact loose'

theorem BlockWritten.of_statements {body : Block} (each : ∀ s ∈ body, StmtWritten s)
    (plain : plainBlock body = true) : BlockWritten body := by
  obtain ⟨ws, legible, derives, _⟩ := spaced_legible each plain
  refine ⟨_, ?_, .block derives⟩
  have text : renderBlock body = "\x7b" ++ (" " ++ renderSpaced body) ++ "\x7d" := by
    have opening : "\x7b " = "\x7b" ++ " " := rfl
    simp only [renderBlock, braces, opening, String.append_assoc]
  have inner : Legible (" " ++ renderSpaced body) ws isBreak := (Legible.blank.join legible).of_anything
  rw [text]
  exact inner.enclosed .curly

/-- The statements of a program, of which only the last one may be an expression, split into words that
    derive them. -/
theorem statements_split {ss : List Stmt} (each : ∀ s ∈ ss, StmtWritten s)
    (closed : ss.dropLast.all (fun s => !s.isExpression) = true) :
    ∃ ws, Splits (String.join (ss.map Stmt.render)).toList (ws ++ [.endOfText]) ∧
      Derives (.statements .endOfText ss) ws := by
  induction ss with
  | nil => exact ⟨[], .done rfl, .noStatements _⟩
  | cons s ss inductionHypothesis =>
      obtain ⟨⟨piece, w₁, isText, written, derives₁⟩, behind⟩ := List.forall_mem_cons.1 each
      cases isExpression : s.isExpression with
      | false =>
          have closedBehind : ss.dropLast.all (fun s => !s.isExpression) = true := by
            cases ss with
            | nil => rfl
            | cons next further => simpa [isExpression] using closed
          obtain ⟨w₂, splits, derives₂⟩ := inductionHypothesis behind closedBehind
          refine ⟨w₁ ++ .symbol .semicolon :: w₂, ?_, .closed (derives₁ _ rfl) derives₂⟩
          have mark : Legible ";" [.symbol .semicolon] anything := .mark (s := .semicolon) fun _ => rfl
          have head := written.legible.append mark ⟨';', rfl, rfl⟩
          have whole := head.front splits fun _ _ => rfl
          rw [List.map_cons, String.join_cons, String.toList_append, isText,
            s.tail_of_not_isExpression isExpression]
          simpa using whole
      | true =>
          have isLast : ss = [] := by
            cases ss with
            | nil => rfl
            | cons next further => simp [isExpression] at closed
          subst isLast
          refine ⟨w₁ ++ [], ?_, .unclosed nofun (derives₁ _ rfl) (.noStatements _)⟩
          have nothing : Splits [] [.endOfText] := .done rfl
          have whole := written.legible.front nothing nofun
          simpa [isText, Stmt.tail_of_isExpression isExpression] using whole

end Quill
