/-
Module: Quill.Proofs.Rendering
Layer: Proofs
Purpose: What is written for a program that was read is read as the same program. The induction is over the
  derivation of what was read: from it every plain part of the tree has a text that splits into words which
  derive the part again. That a tree was read matters for its leaves: its names are words that are not
  reserved, its texts have no quotes inside, and its integers have no sign.
Main exports: Phrase.Rewritten, Derives.rewritten, parse_render_of_plain
-/
import Quill.Proofs.Parsing
import Quill.Proofs.Rendering.Trees

namespace Quill

/-!
### Every plain part is written
-/

/-- The plain parts of a phrase's tree are written. -/
def Phrase.Rewritten : Phrase → Prop
  | .expression _ e => e.isPlain = true → ExprWritten e
  | .entries pairs => ∀ pair ∈ pairs,
      (pair.1.isPlain = true → ExprWritten pair.1) ∧ (pair.2.isPlain = true → ExprWritten pair.2)
  | .block body => plainBlock body = true → BlockWritten body
  | .guarded guard body =>
      (guard.isPlain = true → ExprWritten guard) ∧ (plainBlock body = true → BlockWritten body)
  | .elses clauses otherwise =>
      (∀ clause ∈ clauses, (clause.1.isPlain = true → ExprWritten clause.1) ∧
        (plainBlock clause.2 = true → BlockWritten clause.2)) ∧
      ∀ body ∈ otherwise, plainBlock body = true → BlockWritten body
  | .cases _ _ => True
  | .statement _ s => s.isPlain = true → StmtWritten s
  | .statements _ ss => ∀ s ∈ ss, s.isPlain = true → StmtWritten s
  | .program p => ∀ s ∈ p.statements, s.isPlain = true → StmtWritten s

/-- Items of a list that are written if they are plain. -/
theorem items_rewritten {items : List (Expr × List Lexeme)}
    (each : ∀ item ∈ items, AllWords Lexeme.genuine item.2 → (Phrase.expression .logical item.1).Rewritten)
    (genuine : AllWords Lexeme.genuine (separated (items.map Prod.snd)))
    (plain : plainExprs (items.map Prod.fst) = true) :
    ∀ e ∈ items.map Prod.fst, ExprWritten e := by
  intro e member
  obtain ⟨item, isItem, rfl⟩ := List.mem_map.1 member
  have words : AllWords Lexeme.genuine item.2 := (AllWords.separated rfl).1 genuine _ (List.mem_map_of_mem isItem)
  exact each item isItem words (mem_plainExprs plain _ member)

theorem conditional_rewritten {guard : Expr} {body : Block} {clauses : List (Expr × Block)}
    {otherwise : Option Block} (first : (Phrase.guarded guard body).Rewritten)
    (others : (Phrase.elses clauses otherwise).Rewritten)
    (plain : (Expr.conditional ((guard, body) :: clauses) otherwise).isPlain = true) :
    ExprWritten (.conditional ((guard, body) :: clauses) otherwise) := by
  simp only [Expr.isPlain, plainClauses, Bool.and_eq_true] at plain
  apply ExprWritten.conditional (first.1 plain.1.1.1) (first.2 plain.1.1.2)
  · intro one member
    have plainClause := mem_plainClauses plain.1.2 one member
    exact ⟨(others.1 one member).1 plainClause.1, (others.1 one member).2 plainClause.2⟩
  · rintro body ⟨⟩
    exact others.2 body rfl (by simpa [plainOtherwise] using plain.2)

/-- An assignment that applies an operator to the name itself, which is no function that could be named. -/
theorem operation_rewritten {name : String} {op : BinaryOp} {value : Expr}
    (spelled : (Lexeme.identifier name).spelled = true) (written : ExprWritten value) :
    StmtWritten (.assign name (.binary op (.ident name) value)) := by
  have applied : ExprWritten (.binary op (.ident name) value) := .binary op (.ident spelled) written
  have unnamed : (Expr.binary op (.ident name) value).named name = .binary op (.ident name) value := rfl
  rw [← unnamed]
  exact StmtWritten.assign spelled applied

/-- The induction is over the derivation. Each rule puts the words of its parts together, so that these are
    genuine as far as the whole is. -/
theorem Derives.rewritten {phrase : Phrase} {words : List Lexeme} (derives : Derives phrase words)
    (genuine : AllWords Lexeme.genuine words) : phrase.Rewritten := by
  induction derives with
  | ident name =>
      intro _
      exact ExprWritten.ident (genuine _ List.mem_cons_self)
  | integer read =>
      intro _
      exact ExprWritten.integer (Decimal.natural_of_readInteger? (genuine _ List.mem_cons_self) read)
  | float _ =>
      intro plain
      simp [Expr.isPlain] at plain
  | text content =>
      intro _
      exact ExprWritten.text (genuine _ List.mem_cons_self)
  | trueWord =>
      intro _
      exact ExprWritten.boolean true
  | falseWord =>
      intro _
      exact ExprWritten.boolean false
  | null =>
      intro _
      exact ExprWritten.null
  | parenthesised _ inner =>
      rw [AllWords.append, AllWords.cons] at genuine
      exact inner genuine.1.2
  | array _ each =>
      intro plain
      rw [Expr.isPlain] at plain
      rw [AllWords.append, AllWords.cons] at genuine
      exact ExprWritten.array (items_rewritten each genuine.1.2 plain)
  | hash _ inner =>
      intro plain
      rw [Expr.isPlain] at plain
      rw [AllWords.append, AllWords.cons] at genuine
      apply ExprWritten.hash
      intro pair member
      have plainPair := mem_plainPairs plain pair member
      have written := inner genuine.1.2 pair member
      exact ⟨written.1 plainPair.1, written.2 plainPair.2⟩
  | conditional _ _ clause elses =>
      rw [AllWords.append, AllWords.cons] at genuine
      exact conditional_rewritten (clause genuine.1.2) (elses genuine.2)
  | switch _ _ _ _ =>
      intro plain
      simp [Expr.isPlain] at plain
  | whileLoop _ clause =>
      intro plain
      rw [Expr.isPlain, Bool.and_eq_true] at plain
      have parts := clause (AllWords.cons.1 genuine).2
      exact ExprWritten.whileLoop (parts.1 plain.1) (parts.2 plain.2)
  | forLoop _ _ _ _ start condition step body =>
      intro plain
      simp only [Expr.isPlain, Bool.and_eq_true, Bool.not_eq_true'] at plain
      obtain ⟨⟨⟨⟨notExpression, plainStart⟩, plainCondition⟩, plainStep⟩, plainBody⟩ := plain
      simp only [AllWords.append, AllWords.cons] at genuine
      obtain ⟨⟨⟨⟨_, _, inStart⟩, _, inCondition⟩, _, inStep⟩, _, inBody⟩ := genuine
      exact ExprWritten.forLoop notExpression (start inStart plainStart)
        (condition inCondition plainCondition) (step inStep plainStep) (body inBody plainBody)
  | function _ body =>
      intro plain
      rw [Expr.isPlain] at plain
      simp only [AllWords.append, AllWords.cons] at genuine
      obtain ⟨⟨_, _, inParams⟩, _, inBody⟩ := genuine
      have names := (AllWords.separatedNames rfl).1 inParams
      exact ExprWritten.function names (body inBody plain)
  | macroLiteral _ body =>
      intro plain
      rw [Expr.isPlain] at plain
      simp only [AllWords.append, AllWords.cons] at genuine
      obtain ⟨⟨_, _, inParams⟩, _, inBody⟩ := genuine
      have names := (AllWords.separatedNames rfl).1 inParams
      exact ExprWritten.macroLiteral names (body inBody plain)
  | call _ _ callee each =>
      intro plain
      rw [Expr.isPlain, Bool.and_eq_true] at plain
      simp only [AllWords.append, AllWords.cons] at genuine
      obtain ⟨⟨inCallee, _, inArgs⟩, _⟩ := genuine
      exact ExprWritten.call (callee inCallee plain.1) (items_rewritten each inArgs plain.2)
  | index _ _ subject key =>
      intro plain
      rw [Expr.isPlain, Bool.and_eq_true] at plain
      simp only [AllWords.append, AllWords.cons] at genuine
      obtain ⟨⟨inSubject, _, inKey⟩, _⟩ := genuine
      exact ExprWritten.index (subject inSubject plain.1) (key inKey plain.2)
  | unary op _ operand =>
      intro plain
      rw [Expr.isPlain] at plain
      exact ExprWritten.unary op (operand (AllWords.cons.1 genuine).2 plain)
  | binary op _ _ left right =>
      intro plain
      rw [Expr.isPlain, Bool.and_eq_true] at plain
      rw [AllWords.append, AllWords.cons] at genuine
      exact ExprWritten.binary op (left genuine.1 plain.1) (right genuine.2.2 plain.2)
  | looser _ _ inner => exact inner genuine
  | noEntries => simp [Phrase.Rewritten]
  | lastEntry _ _ key value =>
      rw [AllWords.append, AllWords.cons] at genuine
      rw [Phrase.Rewritten, List.forall_mem_singleton]
      exact ⟨key genuine.1, value genuine.2.2⟩
  | moreEntries _ _ _ key value others =>
      simp only [AllWords.append, AllWords.cons] at genuine
      obtain ⟨⟨inKey, _, inValue⟩, _, inOthers⟩ := genuine
      rw [Phrase.Rewritten, List.forall_mem_cons]
      exact ⟨⟨key inKey, value inValue⟩, others inOthers⟩
  | block _ inner =>
      intro plain
      rw [AllWords.append, AllWords.cons] at genuine
      apply BlockWritten.of_statements _ plain
      intro s member
      exact inner genuine.1.2 s member (mem_plainBlock plain s member)
  | guarded _ _ guard body =>
      rw [AllWords.append] at genuine
      exact ⟨guard genuine.1, body genuine.2⟩
  | noElse => simp [Phrase.Rewritten]
  | elseBlock _ inner =>
      refine ⟨by simp, ?_⟩
      rintro _ ⟨⟩
      exact inner (AllWords.cons.1 genuine).2
  | elseIf _ _ clause elses =>
      simp only [AllWords.append, AllWords.cons] at genuine
      obtain ⟨⟨_, _, inClause⟩, inElses⟩ := genuine
      have others := elses inElses
      rw [Phrase.Rewritten, List.forall_mem_cons]
      exact ⟨⟨clause inClause, others.1⟩, others.2⟩
  | noCase | defaultCase _ _ | moreCases _ _ _ _ _ _ => exact trivial
  | bind name _ _ value =>
      intro plain
      rw [Stmt.isPlain, Expr.isPlain_named] at plain
      simp only [AllWords.cons] at genuine
      exact StmtWritten.bind genuine.2.1 (value genuine.2.2.2 plain)
  | bindConst name _ _ value =>
      intro plain
      rw [Stmt.isPlain, Expr.isPlain_named] at plain
      simp only [AllWords.cons] at genuine
      exact StmtWritten.bindConst genuine.2.1 (value genuine.2.2.2 plain)
  | assign name _ _ value =>
      intro plain
      rw [Stmt.isPlain, Expr.isPlain_named] at plain
      simp only [AllWords.cons] at genuine
      exact StmtWritten.assign genuine.1 (value genuine.2.2 plain)
  | compound name _ _ _ value =>
      intro plain
      simp only [Stmt.isPlain, Expr.isPlain, Bool.true_and] at plain
      simp only [AllWords.cons] at genuine
      exact operation_rewritten genuine.1 (value genuine.2.2 plain)
  | step name _ =>
      intro _
      simp only [AllWords.cons] at genuine
      exact operation_rewritten genuine.1 (ExprWritten.integer (by decide))
  | ret _ _ value =>
      intro plain
      rw [Stmt.isPlain] at plain
      exact StmtWritten.ret (value (AllWords.cons.1 genuine).2 plain)
  | retNull _ =>
      intro _
      exact StmtWritten.ret ExprWritten.null
  | expr _ _ inner =>
      intro plain
      rw [Stmt.isPlain] at plain
      exact StmtWritten.expr (inner genuine plain)
  | noStatements _ => simp [Phrase.Rewritten]
  | semicolon _ others => exact others (AllWords.cons.1 genuine).2
  | closed _ _ first others =>
      rw [AllWords.append, AllWords.cons] at genuine
      rw [Phrase.Rewritten, List.forall_mem_cons]
      exact ⟨first genuine.1, others genuine.2.2⟩
  | unclosed _ _ _ first others =>
      rw [AllWords.append] at genuine
      rw [Phrase.Rewritten, List.forall_mem_cons]
      exact ⟨first genuine.1, others genuine.2⟩
  | program _ inner => exact inner (AllWords.append.1 genuine).1

/-!
### Programs
-/

/-- A plain program that was read is read again from its own text. -/
theorem parse_render_of_plain {source : String} {p : Program} (parsed : parse source = ⟨p, []⟩)
    (plain : p.isPlain = true) : parse p.render = ⟨p, []⟩ := by
  obtain ⟨words, splits, derives⟩ := splits_of_parse parsed
  simp only [Program.isPlain, Bool.and_eq_true, List.all_eq_true] at plain
  have each : ∀ s ∈ p.statements, StmtWritten s := fun s member =>
    derives.rewritten splits.genuine s member (plain.1 s member)
  obtain ⟨ws, split, rederived⟩ := statements_split each (List.all_eq_true.2 plain.2)
  exact parse_of_splits split (.program rederived)

/-- A function that takes its name from its binding; one of its blocks has a bracket behind a statement that
    is no expression. -/
theorem parse_render_of_plain_function :
    let p : Program := ⟨[.bind "f" (.function (some "f") ["a"] [.expr (.conditional
      [(.ident "a", [.assign "a" (.binary .add (.ident "a") (.integer 1)), .expr (.array [.ident "a"])])]
      (some [.ret (.hash [(.integer 1, .unary .negate (.ident "a"))])]))])]⟩
    parse "let f = fn(a) { if (a) { a++; [a] } else { return {1: -a}; } };" = ⟨p, []⟩ ∧
      p.isPlain = true ∧ parse p.render = ⟨p, []⟩ := by
  intro p
  have parsed : parse "let f = fn(a) { if (a) { a++; [a] } else { return {1: -a}; } };" = ⟨p, []⟩ := by rfl
  have plain : p.isPlain = true := by decide
  exact ⟨parsed, plain, parse_render_of_plain parsed plain⟩

end Quill
