/-
Module: Quill.Proofs.Rendering.Signs
Layer: Proofs
Purpose: The text of trees with negative integers. No text is read as a tree with a negative integer in it, but a
  computed tree may have one. It is written as a minus sign and digits, which are read as the negation of a number. The
  sign binds tighter than every operator between two operands, so this goes well almost everywhere. It does not if
  another minus sign stands right before it, since two minus signs are a step, nor if the digits alone are too large,
  as those of the smallest integer are. These are the only trees whose text cannot be read.
Main exports: Expr.BuiltFrom, Expr.isAtom, Expr.signsLegible, Expr.withNegations, Expr.ReadBy,
  parse_render_of_signsLegible, diagnostics_of_signsIllegible
-/
import Quill.Proofs.Grammar.Placement
import Quill.Proofs.Parsing
import Quill.Proofs.Rendering.Trees

namespace Quill

/-!
### Trees of operators
-/

namespace Expr

/-- Expressions that are built with operators from the expressions of a class. -/
inductive BuiltFrom (leaf : Expr → Prop) : Expr → Prop where
  | leaf {e : Expr} (isLeaf : leaf e) : BuiltFrom leaf e
  | unary (op : UnaryOp) {operand : Expr} (operandBuilt : BuiltFrom leaf operand) :
      BuiltFrom leaf (.unary op operand)
  | binary (op : BinaryOp) {left right : Expr} (leftBuilt : BuiltFrom leaf left)
      (rightBuilt : BuiltFrom leaf right) : BuiltFrom leaf (.binary op left right)

/-- Whether an expression is an integer, or a name as they are written. -/
def isAtom : Expr → Bool
  | ident name => (Lexeme.identifier name).spelled
  | integer _ => true
  | _ => false

/-- Whether an expression is a negative integer. -/
def isNegative : Expr → Bool
  | integer n => n.toInt < 0
  | _ => false

/-- Whether the signs that are written for an expression can be read: no minus sign stands right before a negative
    integer, and no integer is the smallest one. -/
def signsLegible : Expr → Bool
  | integer n => n ≠ Int64.minValue
  | unary op operand => !(op = .negate && operand.isNegative) && operand.signsLegible
  | binary _ left right => left.signsLegible && right.signsLegible
  | _ => true

/-- An expression with negations of numbers for its negative integers. -/
def withNegations : Expr → Expr
  | integer n => if n.toInt < 0 then .unary .negate (.integer (-n)) else .integer n
  | unary op operand => .unary op operand.withNegations
  | binary op left right => .binary op left.withNegations right.withNegations
  | e => e

/-- The words are how the text of an expression is read: they derive the expression with negations, or they are part
    of no phrase. -/
structure ReadBy (e : Expr) (ws : List Lexeme) : Prop where
  derives : e.signsLegible = true → Derives (.expression .unary e.withNegations) ws
  misplaced : e.signsLegible = false → Misplaced ws

theorem eq_integer_of_isNegative {e : Expr} (negative : e.isNegative = true) : ∃ n, e = .integer n ∧ n.toInt < 0 := by
  cases e with
  | integer n => exact ⟨n, rfl, of_decide_eq_true negative⟩
  | _ => cases negative

end Expr

/-!
### Leaves
-/

/-- The words of a negative integer. -/
def signedWords (n : Int64) : List Lexeme :=
  [.symbol .minus, .integer (toString n.toInt.natAbs)]

theorem signed_legible {n : Int64} (negative : n.toInt < 0) : Legible (renderInteger n) (signedWords n) isBreak := by
  have digits := Written.digits n.toInt.natAbs
  rw [renderInteger_of_negative negative]
  exact (symbol_legible .minus).append digits.legible (digits.meets (UnaryOp.stops_opening .negate))

/-- The digits of the smallest integer do not fit. -/
theorem minValue_misplaced : Misplaced [.integer (toString Int64.minValue.toInt.natAbs)] := by
  intro named
  have unread : Decimal.readInteger? (toString Int64.minValue.toInt.natAbs) = none := by
    rw [Decimal.readInteger?_digits]
    rfl
  rw [wellPlaced, Lexeme.fits, unread]
  rfl

namespace Expr.ReadBy

theorem negative {n : Int64} (negative : n.toInt < 0) : (Expr.integer n).ReadBy (signedWords n) where
  derives := by
    intro legible
    have opposed : n ≠ Int64.minValue := of_decide_eq_true legible
    rw [withNegations, if_pos negative]
    exact .unary .negate (.looser (by decide) (.integer (Decimal.readInteger?_magnitude negative opposed)))
  misplaced := by
    intro illegible
    obtain rfl : n = Int64.minValue := by simpa [signsLegible] using illegible
    exact minValue_misplaced.behind [.symbol .minus]

/-- A name, or an integer without a sign, is read as it is. -/
theorem natural {e : Expr} (isAtom : e.isAtom = true) (natural : e.isNegative = false) :
    ∃ ws, Written e.render ws ∧ e.ReadBy ws := by
  have plain : ExprWritten e ∧ e.signsLegible = true ∧ e.withNegations = e := by
    cases e with
    | ident name => exact ⟨.ident isAtom, rfl, rfl⟩
    | integer n =>
        have notNegative : ¬n.toInt < 0 := of_decide_eq_false natural
        refine ⟨.integer (Int.not_lt.1 notNegative), ?_, by rw [withNegations, if_neg notNegative]⟩
        rw [signsLegible, decide_eq_true_iff]
        rintro rfl
        exact notNegative (by decide)
    | _ => cases isAtom
  obtain ⟨⟨ws, written, derives⟩, legible, same⟩ := plain
  refine ⟨ws, written, fun _ => ?_, fun illegible => ?_⟩
  · rw [same]
    exact .looser (by decide) derives
  · rw [legible] at illegible
    cases illegible

/-!
### Operators
-/

variable {e left right : Expr} {ws w₁ w₂ : List Lexeme}

theorem unary {op : UnaryOp} (apart : (op = .negate && e.isNegative) = false) (read : e.ReadBy ws) :
    (Expr.unary op e).ReadBy (.symbol .leftParen :: (.symbol op.symbol :: ws) ++ [.symbol .rightParen]) where
  derives := by
    intro legible
    simp only [signsLegible, apart, Bool.not_false, Bool.true_and] at legible
    rw [withNegations]
    exact .looser (by decide) (.unary_parenthesised op (read.derives legible))
  misplaced := by
    intro illegible
    simp only [signsLegible, apart, Bool.not_false, Bool.true_and] at illegible
    exact ((read.misplaced illegible).behind [.symbol .leftParen, .symbol op.symbol]).before _

theorem binary (op : BinaryOp) (leftRead : left.ReadBy w₁) (rightRead : right.ReadBy w₂) :
    (Expr.binary op left right).ReadBy
      (.symbol .leftParen :: (w₁ ++ .symbol op.symbol :: w₂) ++ [.symbol .rightParen]) where
  derives := by
    intro legible
    rw [signsLegible, Bool.and_eq_true] at legible
    rw [withNegations]
    exact .looser (by decide)
      (.binary_parenthesised op (leftRead.derives legible.1) (rightRead.derives legible.2))
  misplaced := by
    intro illegible
    rw [signsLegible, Bool.and_eq_false_iff] at illegible
    have inside : Misplaced (w₁ ++ .symbol op.symbol :: w₂) := by
      rcases illegible with leftIllegible | rightIllegible
      · exact (leftRead.misplaced leftIllegible).before _
      · exact ((rightRead.misplaced rightIllegible).behind [.symbol op.symbol]).behind w₁
    exact (inside.behind [.symbol .leftParen]).before _

end Expr.ReadBy

/-- Two minus signs with nothing between them are a step, which here stands behind a bracket. -/
theorem negated_written {n : Int64} (negative : n.toInt < 0) :
    ∃ ws, Written (Expr.unary .negate (.integer n)).render ws ∧ (Expr.unary .negate (.integer n)).ReadBy ws := by
  have step : Legible "--" [.symbol .minusMinus] anything := .mark (s := .minusMinus) fun _ => rfl
  have inner := step.join (Written.digits n.toInt.natAbs).legible
  have text : (Expr.unary .negate (.integer n)).render = "(" ++ ("--" ++ toString n.toInt.natAbs) ++ ")" := by
    rw [Expr.render, Expr.render, renderInteger_of_negative negative]
    simp only [String.append_assoc]
    rfl
  rw [text]
  refine ⟨_, .enclosed .round inner, ?_, ?_⟩
  · intro legible
    simp [Expr.signsLegible, Expr.isNegative, negative] at legible
  · intro _ named
    rfl

/-- An exclamation mark does not run into the sign of a negative integer. -/
theorem excluded_written {n : Int64} (negative : n.toInt < 0) :
    ∃ ws, Written (Expr.unary .not (.integer n)).render ws ∧ (Expr.unary .not (.integer n)).ReadBy ws := by
  have legible : Legible (Expr.integer n).render (signedWords n) isBreak := by
    rw [Expr.render]
    exact signed_legible negative
  have minus : ∃ d, (Expr.integer n).render.toList.head? = some d ∧ (Lexeme.symbol .bang).stops d = true := by
    rw [Expr.render, renderInteger_of_negative negative]
    exact ⟨'-', by simp, rfl⟩
  exact ⟨_, unary_written .not legible minus, .unary rfl (.negative negative)⟩

/-- The text of a tree of operators splits into words by which it is read. A text that does not begin with a sign is
    written as expressions are. -/
theorem tree_legible {tree : Expr} (built : tree.BuiltFrom fun e => e.isAtom = true) :
    ∃ ws, Legible tree.render ws isBreak ∧ tree.ReadBy ws ∧ (tree.isNegative = false → Written tree.render ws) := by
  induction built with
  | @leaf e isAtom =>
      cases sign : e.isNegative with
      | false =>
          obtain ⟨ws, written, read⟩ := Expr.ReadBy.natural isAtom sign
          exact ⟨ws, written.legible, read, fun _ => written⟩
      | true =>
          obtain ⟨n, rfl, negative⟩ := Expr.eq_integer_of_isNegative sign
          refine ⟨signedWords n, ?_, .negative negative, nofun⟩
          rw [Expr.render]
          exact signed_legible negative
  | @unary op operand _ inductionHypothesis =>
      have whole : ∃ ws, Written (Expr.unary op operand).render ws ∧ (Expr.unary op operand).ReadBy ws := by
        obtain ⟨ws, legible, read, written⟩ := inductionHypothesis
        cases sign : operand.isNegative with
        | false =>
            have meets := (written sign).meets op.stops_opening
            exact ⟨_, unary_written op legible meets, read.unary (by rw [sign, Bool.and_false])⟩
        | true =>
            obtain ⟨n, rfl, negative⟩ := Expr.eq_integer_of_isNegative sign
            cases op with
            | not => exact excluded_written negative
            | negate => exact negated_written negative
      obtain ⟨ws, written, read⟩ := whole
      exact ⟨ws, written.legible, read, fun _ => written⟩
  | binary op _ _ left right =>
      obtain ⟨w₁, legible₁, read₁, _⟩ := left
      obtain ⟨w₂, legible₂, read₂, _⟩ := right
      have whole := binary_written op legible₁ legible₂
      exact ⟨_, whole.legible, .binary op read₁ read₂, fun _ => whole⟩

/-!
### Whole texts
-/

section Texts

variable {tree : Expr} (built : tree.BuiltFrom fun e => e.isAtom = true)

include built

theorem tree_splits : ∃ ws, Splits tree.render.toList (ws ++ [.endOfText]) ∧ tree.ReadBy ws := by
  obtain ⟨ws, legible, read, _⟩ := tree_legible built
  have nothing : Splits [] [.endOfText] := .done rfl
  have whole := legible.front nothing nofun
  rw [List.append_nil] at whole
  exact ⟨ws, whole, read⟩

/-- If its signs are legible, the text of a tree is read as the tree with negations. -/
theorem parse_render_of_signsLegible (legible : tree.signsLegible = true) :
    parse tree.render = ⟨⟨[.expr tree.withNegations]⟩, []⟩ := by
  obtain ⟨ws, splits, read⟩ := tree_splits built
  have statement : Derives (.statement .endOfText (.expr tree.withNegations)) ws :=
    .expr rfl (.looser (by decide) (read.derives legible))
  have statements : Derives (.statements .endOfText [.expr tree.withNegations]) (ws ++ []) :=
    .unclosed nofun statement (.noStatements _)
  rw [List.append_nil] at statements
  exact parse_of_splits splits (.program statements)

/-- Otherwise it cannot be read. -/
theorem diagnostics_of_signsIllegible (illegible : tree.signsLegible = false) :
    (parse tree.render).diagnostics ≠ [] := by
  intro quiet
  obtain ⟨ws, splits, read⟩ := tree_splits built
  have parsed : parse tree.render = ⟨(parse tree.render).program, []⟩ := by rw [← quiet]
  obtain ⟨words, splits', derives⟩ := splits_of_parse parsed
  rw [splits'.unique splits] at derives
  exact ((read.misplaced illegible).before _).not_derives _ derives

end Texts

end Quill
