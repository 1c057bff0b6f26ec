/-
Module: Quill.Proofs.Precedence
Layer: Proofs
Purpose: Operators bind as the table says. A formula is an expression of names, numbers, operators, calls,
  indexing and arrays. It is written down with parentheses where the table asks for them and, in any other
  place, where one likes; what is written is read back as the formula's tree.
Main exports: precedenceTable, Formula, Formula.tree, Formula.words, spaced, Formula.words_derive,
  parse_formula
-/
import Quill.Proofs.Decimal
import Quill.Proofs.Parsing

namespace Quill

/-!
### The table
-/

/-- The side to which a chain of operators groups. -/
inductive Side where
  | left
  | right
deriving DecidableEq

/-- The binary operators, those that bind loosest first, each row with the side to which it groups. The
    prefix operators bind tighter than all of them, and calls and indexing tighter still. -/
def precedenceTable : List (List BinaryOp × Side) :=
  [([.and, .or], .left),
    ([.equal, .notEqual], .left),
    ([.less, .greater, .lessEqual, .greaterEqual], .left),
    ([.add, .subtract], .left),
    ([.multiply, .divide, .floorDivide, .remainder], .left),
    ([.power], .right)]

/-- The row of the prefix operators. -/
def prefixRow : Nat :=
  precedenceTable.length

/-- The row of calls, indexing and everything that needs no parentheses. -/
def callRow : Nat :=
  prefixRow + 1

namespace BinaryOp

/-- The row in which an operator stands. -/
def row (op : BinaryOp) : Nat :=
  precedenceTable.findIdx (fun entry => entry.1.contains op)

/-- The side to which an operator's chains group. -/
def side (op : BinaryOp) : Side :=
  ((precedenceTable.find? fun entry => entry.1.contains op).map Prod.snd).getD .left

/-- The row that the left operand has to reach to stand without parentheses. -/
def leftRow (op : BinaryOp) : Nat :=
  if op.side = .left then op.row else op.row + 1

/-- The row that the right operand has to reach to stand without parentheses. -/
def rightRow (op : BinaryOp) : Nat :=
  if op.side = .right then op.row else op.row + 1

end BinaryOp

/-!
### Formulas
-/

/-- Expressions of names that are no keywords, numbers that are not negative, operators, calls, indexing and
    arrays. -/
inductive Formula where
  | name (text : String) (isName : (Lexeme.identifier text).spelled = true)
  | integer (value : Int64) (natural : 0 ≤ value.toInt)
  | unary (op : UnaryOp) (operand : Formula)
  | binary (op : BinaryOp) (left right : Formula)
  | call (callee : Formula) (args : List Formula)
  | index (subject key : Formula)
  | array (items : List Formula)

namespace Formula

mutual

/-- The tree of a formula. -/
def tree : Formula → Expr
  | .name text _ => .ident text
  | .integer value _ => .integer value
  | .unary op operand => .unary op operand.tree
  | .binary op left right => .binary op left.tree right.tree
  | .call callee args => .call callee.tree (trees args)
  | .index subject key => .index subject.tree key.tree
  | .array items => .array (trees items)
termination_by structural f => f

/-- The trees of several formulas. -/
def trees : List Formula → List Expr
  | [] => []
  | f :: fs => f.tree :: trees fs
termination_by structural fs => fs

end

/-- Words in parentheses, if these are wanted. -/
def grouped (parens : Bool) (words : List Lexeme) : List Lexeme :=
  if parens then .symbol .leftParen :: words ++ [.symbol .rightParen] else words

mutual

/-- A formula as words, where it has to reach the row `needed` to stand without parentheses. Beyond these,
    the sub-formulas whose place `extra` holds of are put in parentheses too; a place is the way down to a
    sub-formula, with its last step first. -/
def words (extra : List Nat → Bool) (needed : Nat) (place : List Nat) : Formula → List Lexeme
  | .name text _ => grouped (extra place) [.identifier text]
  | .integer value _ => grouped (extra place) [.integer (renderInteger value)]
  | .unary op operand =>
    grouped (extra place || decide (prefixRow < needed))
      (.symbol op.symbol :: operand.words extra prefixRow (0 :: place))
  | .binary op left right =>
    grouped (extra place || decide (op.row < needed))
      (left.words extra op.leftRow (0 :: place) ++
        .symbol op.symbol :: right.words extra op.rightRow (1 :: place))
  | .call callee args =>
    grouped (extra place) (callee.words extra callRow (0 :: place) ++
      .symbol .leftParen :: separated (listWords extra place 1 args) ++ [.symbol .rightParen])
  | .index subject key =>
    grouped (extra place) (subject.words extra callRow (0 :: place) ++
      .symbol .leftBracket :: key.words extra 0 (1 :: place) ++ [.symbol .rightBracket])
  | .array items =>
    grouped (extra place)
      (.symbol .leftBracket :: separated (listWords extra place 0 items) ++ [.symbol .rightBracket])
termination_by structural f => f

/-- The words of the items of a list, of which the first one is the sub-formula with a number. -/
def listWords (extra : List Nat → Bool) (place : List Nat) (number : Nat) : List Formula → List (List Lexeme)
  | [] => []
  | f :: fs => f.words extra 0 (number :: place) :: listWords extra place (number + 1) fs
termination_by structural fs => fs

end

end Formula

/-- Words with one blank between them. -/
def spaced (words : List Lexeme) : String :=
  " ".intercalate (words.map Lexeme.spelling)

/-!
### What is written derives the tree
-/

namespace BinaryOp

theorem level_rank (op : BinaryOp) : op.level.rank = op.row + 1 := by
  cases op <;> rfl

theorem leftGrade_rank (op : BinaryOp) : op.leftGrade.rank = op.leftRow + 1 := by
  cases op <;> rfl

theorem rightGrade_rank (op : BinaryOp) : op.rightGrade.rank = op.rightRow + 1 := by
  cases op <;> rfl

end BinaryOp

namespace Formula

variable {extra : List Nat → Bool} {place : List Nat} {needed : Nat} {grade : Level}

/-- Grouped words derive at every grade; others derive at the grades up to their own. -/
theorem grouped_derives {parens : Bool} {own : Level} {e : Expr} {ws : List Lexeme}
    (derives : Derives (.expression own e) ws) (isOperator : 1 ≤ own.rank)
    (asked : grade.rank ≤ needed + 1) (bare : parens = false → needed + 1 ≤ own.rank) :
    Derives (.expression grade e) (grouped parens ws) := by
  cases parens with
  | false => exact .looser (Nat.le_trans asked (bare rfl)) derives
  | true =>
      have tightest : grade.rank ≤ Level.call.rank := by cases grade <;> decide
      exact .looser tightest (.parenthesised (.looser isOperator derives))

/-- A construct of the tightest row is never put in parentheses for the table's sake. -/
theorem grouped_derives_call {parens : Bool} {e : Expr} {ws : List Lexeme}
    (derives : Derives (.expression .call e) ws) (asked : grade.rank ≤ needed + 1)
    (reachable : needed ≤ callRow) : Derives (.expression grade e) (grouped parens ws) :=
  grouped_derives derives (by decide) asked fun _ => Nat.succ_le_succ reachable

mutual

theorem words_derive : ∀ (f : Formula) (place : List Nat) {needed : Nat} {grade : Level},
    grade.rank ≤ needed + 1 → needed ≤ callRow →
    Derives (.expression grade f.tree) (f.words extra needed place)
  | .name text isName, place, needed, grade, asked, reachable => by
      rw [words, tree]
      exact grouped_derives_call (.ident text) asked reachable
  | .integer value natural, place, needed, grade, asked, reachable => by
      rw [words, tree]
      exact grouped_derives_call (.integer (Decimal.readInteger?_renderInteger natural)) asked reachable
  | .unary op operand, place, needed, grade, asked, reachable => by
      rw [words, tree]
      have inner : Derives (.expression .unary operand.tree) (operand.words extra prefixRow (0 :: place)) :=
        words_derive operand _ (Nat.le_refl _) (by decide)
      apply grouped_derives (.unary op inner) (by decide) asked
      intro bare
      simp only [Bool.or_eq_false_iff, decide_eq_false_iff_not, Nat.not_lt] at bare
      exact Nat.succ_le_succ bare.2
  | .binary op left right, place, needed, grade, asked, reachable => by
      rw [words, tree]
      have leftDerives := words_derive left (0 :: place) (Nat.le_of_eq op.leftGrade_rank)
        (by cases op <;> decide)
      have rightDerives := words_derive right (1 :: place) (Nat.le_of_eq op.rightGrade_rank)
        (by cases op <;> decide)
      apply grouped_derives (.binary op leftDerives rightDerives) (by rw [op.level_rank]; omega) asked
      intro bare
      simp only [Bool.or_eq_false_iff, decide_eq_false_iff_not, Nat.not_lt] at bare
      rw [op.level_rank]
      exact Nat.succ_le_succ bare.2
  | .call callee args, place, needed, grade, asked, reachable => by
      rw [words, tree]
      obtain ⟨found, isTrees, isWords, each⟩ := listWords_derive args place 1
      have calleeDerives : Derives (.expression .call callee.tree) (callee.words extra callRow (0 :: place)) :=
        words_derive callee _ (Nat.le_refl _) (Nat.le_refl _)
      rw [← isTrees, ← isWords]
      exact grouped_derives_call (.call calleeDerives each) asked reachable
  | .index subject key, place, needed, grade, asked, reachable => by
      rw [words, tree]
      have subjectDerives : Derives (.expression .call subject.tree)
          (subject.words extra callRow (0 :: place)) :=
        words_derive subject _ (Nat.le_refl _) (Nat.le_refl _)
      have keyDerives : Derives (.expression .logical key.tree) (key.words extra 0 (1 :: place)) :=
        words_derive key _ (Nat.le_refl _) (Nat.zero_le _)
      exact grouped_derives_call (.index subjectDerives keyDerives) asked reachable
  | .array items, place, needed, grade, asked, reachable => by
      rw [words, tree]
      obtain ⟨found, isTrees, isWords, each⟩ := listWords_derive items place 0
      rw [← isTrees, ← isWords]
      exact grouped_derives_call (.array each) asked reachable
termination_by structural f => f

theorem listWords_derive : ∀ (fs : List Formula) (place : List Nat) (number : Nat),
    ∃ found : List (Expr × List Lexeme), found.map Prod.fst = trees fs ∧
      found.map Prod.snd = listWords extra place number fs ∧
      ∀ one ∈ found, Derives (.expression .logical one.1) one.2
  | [], place, number => ⟨[], by rw [trees]; rfl, by rw [listWords]; rfl, nofun⟩
  | f :: fs, place, number => by
      obtain ⟨found, isTrees, isWords, each⟩ := listWords_derive fs place (number + 1)
      have first : Derives (.expression .logical f.tree) (f.words extra 0 (number :: place)) :=
        words_derive f _ (Nat.le_refl _) (Nat.zero_le _)
      refine ⟨(f.tree, f.words extra 0 (number :: place)) :: found, ?_, ?_, ?_⟩
      · rw [trees, ← isTrees]
        rfl
      · rw [listWords, ← isWords]
        rfl
      · intro one member
        rcases List.mem_cons.1 member with rfl | member
        · exact first
        · exact each one member
termination_by structural fs => fs

end

end Formula

/-!
### What is written splits into its words
-/

/-- Parentheses around words that the lexer finds. -/
theorem Formula.grouped_spelled {parens : Bool} {ws : List Lexeme} (spelled : AllWords Lexeme.spelled ws) :
    AllWords Lexeme.spelled (grouped parens ws) := by
  cases parens with
  | false => exact spelled
  | true => exact AllWords.cons.2 ⟨rfl, AllWords.append.2 ⟨spelled, AllWords.cons.2 ⟨rfl, .nil⟩⟩⟩

namespace Formula

mutual

theorem words_spelled (extra : List Nat → Bool) : ∀ (f : Formula) (needed : Nat) (place : List Nat),
    AllWords Lexeme.spelled (f.words extra needed place)
  | .name text isName, needed, place => by
      rw [words]
      exact grouped_spelled (by simpa using isName)
  | .integer value natural, needed, place => by
      rw [words]
      exact grouped_spelled (by simpa using Lexeme.integer_spelled natural)
  | .unary op operand, needed, place => by
      rw [words]
      have inner := words_spelled extra operand prefixRow (0 :: place)
      exact grouped_spelled (by simp [Lexeme.spelled, inner])
  | .binary op left right, needed, place => by
      rw [words]
      have leftSpelled := words_spelled extra left op.leftRow (0 :: place)
      have rightSpelled := words_spelled extra right op.rightRow (1 :: place)
      exact grouped_spelled (by simp [Lexeme.spelled, leftSpelled, rightSpelled])
  | .call callee args, needed, place => by
      rw [words]
      have calleeSpelled := words_spelled extra callee callRow (0 :: place)
      have argsSpelled := (AllWords.separated rfl).2 (listWords_spelled extra args place 1)
      exact grouped_spelled (by simp [Lexeme.spelled, calleeSpelled, argsSpelled])
  | .index subject key, needed, place => by
      rw [words]
      have subjectSpelled := words_spelled extra subject callRow (0 :: place)
      have keySpelled := words_spelled extra key 0 (1 :: place)
      exact grouped_spelled (by simp [Lexeme.spelled, subjectSpelled, keySpelled])
  | .array items, needed, place => by
      rw [words]
      have itemsSpelled := (AllWords.separated rfl).2 (listWords_spelled extra items place 0)
      exact grouped_spelled (by simp [Lexeme.spelled, itemsSpelled])
termination_by structural f => f

theorem listWords_spelled (extra : List Nat → Bool) : ∀ (fs : List Formula) (place : List Nat) (number : Nat),
    ∀ ws ∈ listWords extra place number fs, AllWords Lexeme.spelled ws
  | [], place, number => by
      rw [listWords]
      exact nofun
  | f :: fs, place, number => by
      rw [listWords]
      intro ws member
      rcases List.mem_cons.1 member with rfl | member
      · exact words_spelled extra f 0 (number :: place)
      · exact listWords_spelled extra fs place (number + 1) ws member
termination_by structural fs => fs

end

end Formula

/-- Words with blanks between them split into these words. -/
theorem splits_spaced {ws : List Lexeme} (spelled : AllWords Lexeme.spelled ws) :
    Splits (spaced ws).toList (ws ++ [.endOfText]) := by
  simp only [spaced, String.toList_intercalate, List.map_map]
  induction ws with
  | nil => exact .done rfl
  | cons w ws inductionHypothesis =>
      obtain ⟨isSpelled, others⟩ := AllWords.cons.1 spelled
      have rest := inductionHypothesis others
      cases ws with
      | nil =>
          have alone := Splits.front isSpelled rest nofun
          simpa using alone
      | cons v vs =>
          have behind := Splits.front isSpelled (rest.blank (c := ' ') rfl) (by simp [w.stops_blank])
          simpa using behind

/-- Operators bind as the table says: however a formula is written with the parentheses that the table asks
    for and any others, it is read as one statement, which is the formula's tree. -/
theorem parse_formula (f : Formula) (extra : List Nat → Bool) :
    parse (spaced (f.words extra 0 [])) = ⟨⟨[.expr f.tree]⟩, []⟩ := by
  apply parse_of_splits (splits_spaced (f.words_spelled extra 0 []))
  have derives : Derives (.expression .logical f.tree) (f.words extra 0 []) :=
    f.words_derive [] (Nat.le_refl _) (Nat.zero_le _)
  have statement : Derives (.statements .endOfText [.expr f.tree]) (f.words extra 0 [] ++ []) :=
    .unclosed nofun (.expr rfl derives) (.noStatements _)
  rw [List.append_nil] at statement
  exact .program statement

end Quill
