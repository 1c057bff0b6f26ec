/-
Module: Quill.Proofs.WellFormed
Layer: Proofs
Purpose: What every tree looks like that comes out of reading a text, whether or not there are diagnostics. A node is
  well formed if its names are identifiers, its integer is not negative, its text has no quote in it, it has a clause
  or a case if it should have one, and the functions directly below it have the name that the node gives: that which
  a statement binds or assigns, and else none. A reader may drop what it was reading, but whatever it does yield is
  built from parts that other readers have yielded, so the tokens that are skipped behind a fault play no part.
Main exports: IsIdentifier, Node.WellFormed, Node.Sound, Node.Unbound, Parse.Yields, Parser.expression_yields,
  parse_well_formed
-/
import Quill.Proofs.Decimal
import Quill.Proofs.Parser.Soundness
import Quill.Proofs.Tree.Calls

namespace Quill

/-!
### Well-formed nodes
-/

/-- An identifier: a letter or an underscore, and then letters, digits and underscores, but no reserved word. Letters
    and digits are those of ASCII. -/
structure IsIdentifier (name : String) : Prop where
  spelled : ∃ c cs, name.toList = c :: cs ∧ (c.isAlpha ∨ c = '_') ∧ ∀ d ∈ cs, d.isAlphanum ∨ d = '_'
  notReserved : ∀ k : Keyword, name ≠ k.spelling

namespace Node

/-- What a node has to be like by itself. -/
def Shaped : Node → Prop
  | expr (.ident name) => IsIdentifier name
  | expr (.integer value) => 0 ≤ value.toInt
  | expr (.text content) => '"' ∉ content.toList
  | expr (.conditional clauses _) => clauses ≠ []
  | expr (.switch _ cases _) => cases ≠ []
  | expr (.function _ params _) | expr (.macroLiteral params _) => ∀ param ∈ params, IsIdentifier param
  | stmt (.bind name _) | stmt (.bindConst name _) | stmt (.assign name _) => IsIdentifier name
  | _ => True

/-- The name that a node gives to a function that is its value. -/
def givenName : Node → Option String
  | stmt (.bind name _) | stmt (.bindConst name _) | stmt (.assign name _) => some name
  | _ => none

/-- A function has the given name; nothing is asked of other trees. -/
def NamedAs (name : Option String) : Node → Prop
  | expr (.function own _ _) => own = name
  | _ => True

/-- A node is shaped as it should be, and the functions directly below it have the name that it gives. -/
structure WellFormed (n : Node) : Prop where
  shaped : n.Shaped
  named : ∀ child ∈ n.children, child.NamedAs n.givenName

/-- A tree in which every node is well formed. -/
def Sound (n : Node) : Prop :=
  ∀ part ∈ n.visits, part.WellFormed

/-- A sound tree that has been given no name yet. -/
structure Unbound (n : Node) : Prop where
  sound : n.Sound
  unnamed : n.NamedAs none

theorem sound_of_children {n : Node} (wellFormed : n.WellFormed) (children : ∀ child ∈ n.children, child.Sound) :
    n.Sound := by
  intro part visited
  rw [visits_eq] at visited
  rcases List.mem_append.1 visited with below | isWhole
  · obtain ⟨child, isChild, inChild⟩ := List.mem_flatMap.1 below
    exact children child isChild part inChild
  · rwa [List.mem_singleton.1 isWhole]

namespace Sound

variable {n : Node} (sound : n.Sound)

include sound

theorem wellFormed : n.WellFormed :=
  sound n (List.mem_append_right _ List.mem_cons_self)

theorem children : ∀ child ∈ n.children, child.Sound := by
  intro child isChild part inChild
  refine sound part ?_
  rw [visits_eq]
  exact List.mem_append_left _ (List.mem_flatMap.2 ⟨child, isChild, inChild⟩)

end Sound

/-- A tree that gives no name, put together from trees without names. -/
theorem Unbound.of_children {n : Node} (shaped : n.Shaped) (givesNone : n.givenName = none)
    (unnamed : n.NamedAs none) (children : ∀ child ∈ n.children, child.Unbound) : n.Unbound := by
  refine ⟨sound_of_children ⟨shaped, ?_⟩ fun child isChild => (children child isChild).sound, unnamed⟩
  rw [givesNone]
  exact fun child isChild => (children child isChild).unnamed

theorem Unbound.pair {first second : Node} (firstUnbound : first.Unbound) (secondUnbound : second.Unbound) :
    ∀ child ∈ [first, second], child.Unbound :=
  List.forall_mem_cons.2 ⟨firstUnbound, List.forall_mem_singleton.2 secondUnbound⟩

theorem Unbound.leaf {e : Expr} (shaped : (expr e).Shaped) (isLeaf : e.children = []) : (expr e).Unbound := by
  have unnamed : (expr e).NamedAs none := by
    cases e with
    | function name params body => simp [Expr.children] at isLeaf
    | _ => trivial
  refine .of_children shaped rfl unnamed fun child isChild => ?_
  rw [children, isLeaf] at isChild
  cases isChild

theorem Unbound.block {body : Block} (each : ∀ s ∈ body, (stmt s).Unbound) : (block body).Unbound :=
  .of_children trivial rfl trivial (List.forall_mem_map.2 each)

theorem Unbound.hash {pairs : List (Expr × Expr)}
    (each : ∀ pair ∈ pairs, (expr pair.1).Unbound ∧ (expr pair.2).Unbound) : (expr (.hash pairs)).Unbound := by
  refine .of_children trivial rfl trivial fun child isChild => ?_
  obtain ⟨pair, isPair, inPair⟩ := List.mem_flatMap.1 isChild
  obtain ⟨key, value⟩ := each pair isPair
  exact key.pair value child inPair

end Node

/-- Guarded blocks and the block for the other cases. -/
structure ClausesUnbound (clauses : List (Expr × Block)) (otherwise : Option Block) : Prop where
  each : ∀ clause ∈ clauses, (Node.expr clause.1).Unbound ∧ (Node.block clause.2).Unbound
  other : ∀ body ∈ otherwise, (Node.block body).Unbound

namespace ClausesUnbound

variable {clauses : List (Expr × Block)} {otherwise : Option Block} {body : Block}

theorem empty : ClausesUnbound [] none :=
  ⟨List.forall_mem_nil _, nofun⟩

theorem last (unbound : (Node.block body).Unbound) : ClausesUnbound [] (some body) := by
  refine ⟨List.forall_mem_nil _, ?_⟩
  rintro _ ⟨⟩
  exact unbound

theorem cons {clause : Expr × Block} (others : ClausesUnbound clauses otherwise)
    (first : (Node.expr clause.1).Unbound ∧ (Node.block clause.2).Unbound) :
    ClausesUnbound (clause :: clauses) otherwise :=
  ⟨List.forall_mem_cons.2 ⟨first, others.each⟩, others.other⟩

theorem children (unbound : ClausesUnbound clauses otherwise) :
    ∀ child ∈ clauseChildren clauses ++ otherwise.toList.map .block, child.Unbound := by
  intro child isChild
  rcases List.mem_append.1 isChild with inClauses | isOther
  · obtain ⟨clause, isClause, inClause⟩ := List.mem_flatMap.1 inClauses
    obtain ⟨guard, body⟩ := unbound.each clause isClause
    exact guard.pair body child inClause
  · obtain ⟨body, isBody, rfl⟩ := List.mem_map.1 isOther
    exact unbound.other body (Option.mem_toList.1 isBody)

end ClausesUnbound

/-- The value of a statement that gives a name: a function takes the name, and nothing else changes. -/
theorem Expr.named_sound {e : Expr} (unbound : (Node.expr e).Unbound) (name : String) :
    (Node.expr (e.named name)).Sound ∧ (Node.expr (e.named name)).NamedAs (some name) := by
  cases e with
  | function own params body =>
      obtain rfl : own = none := unbound.unnamed
      refine ⟨Node.sound_of_children ⟨?_, ?_⟩ ?_, rfl⟩
      · exact unbound.sound.wellFormed.shaped
      · exact unbound.sound.wellFormed.named
      · exact unbound.sound.children
  | _ => exact ⟨unbound.sound, trivial⟩

/-- A statement that gives a name to its value. -/
theorem Node.Unbound.naming {s : Stmt} {name : String} {value : Expr} (gives : (Node.stmt s).givenName = some name)
    (holds : (Node.stmt s).children = [.expr (value.named name)]) (isIdentifier : IsIdentifier name)
    (unbound : (Node.expr value).Unbound) : (Node.stmt s).Unbound := by
  obtain ⟨sound, named⟩ := value.named_sound unbound name
  have shaped : (Node.stmt s).Shaped := by
    cases s with
    | bind | bindConst | assign =>
        cases gives
        exact isIdentifier
    | ret | expr => cases gives
  refine ⟨sound_of_children ⟨shaped, ?_⟩ ?_, trivial⟩
  · rw [holds, gives]
    exact List.forall_mem_singleton.2 named
  · rw [holds]
    exact List.forall_mem_singleton.2 sound

/-!
### Identifiers
-/

theorem isAlpha_of_isNameStart {c : Char} (isStart : isNameStart c = true) : c.isAlpha ∨ c = '_' := by
  have upper : 65 ≤ c.toNat ∧ c.toNat ≤ 90 → c.isUpper = true := fun within => decide_eq_true within
  have lower : 97 ≤ c.toNat ∧ c.toNat ≤ 122 → c.isLower = true := fun within =>
    Bool.and_eq_true_iff.2 ⟨decide_eq_true within.1, decide_eq_true within.2⟩
  rcases isNameStart_iff.1 isStart with isLower | isUpper | isUnderscore
  · exact .inl (Bool.or_eq_true_iff.2 (.inr (lower isLower)))
  · exact .inl (Bool.or_eq_true_iff.2 (.inl (upper isUpper)))
  · exact .inr (Char.toNat_inj.1 isUnderscore)

theorem isAlphanum_of_isNameChar {c : Char} (isChar : isNameChar c = true) : c.isAlphanum ∨ c = '_' := by
  rcases Bool.or_eq_true_iff.1 isChar with isStart | isDigit
  · refine (isAlpha_of_isNameStart isStart).imp_left fun isAlpha => ?_
    simp [Char.isAlphanum, isAlpha]
  · have digit : c.isDigit = true := by
      rw [isDigit_iff] at isDigit
      simp only [Char.isDigit, Bool.and_eq_true, decide_eq_true_eq, UInt32.le_iff_toNat_le, ge_iff_le]
      exact isDigit
    simp [Char.isAlphanum, digit]

/-- What the lexer takes as a name is an identifier. -/
theorem isIdentifier_of_genuine {name : String} (genuine : (Lexeme.identifier name).genuine = true) :
    IsIdentifier name := by
  simp only [Lexeme.genuine, Lexeme.spelled, Bool.and_eq_true, Option.isNone_iff_eq_none] at genuine
  obtain ⟨word, notKeyword⟩ := genuine
  constructor
  · rcases chars : name.toList with _ | ⟨c, cs⟩
    · simp [isWord, chars] at word
    · simp only [isWord, chars, Bool.and_eq_true, List.all_eq_true] at word
      exact ⟨c, cs, rfl, isAlpha_of_isNameStart word.1, fun d inside => isAlphanum_of_isNameChar (word.2 d inside)⟩
  · rintro k rfl
    rw [k.ofSpelling?_spelling] at notKeyword
    cases notKeyword

theorem not_mem_of_genuine {content : String} (genuine : (Lexeme.quoted content).genuine = true) :
    '"' ∉ content.toList := by
  simpa [Lexeme.genuine, Lexeme.spelled] using genuine

/-!
### What readers yield
-/

/-- All that is still to be read are lexemes that the lexer can find. -/
def Cursor.Genuine (c : Cursor) : Prop :=
  ∀ w ∈ c.words, w.genuine = true

namespace Parse

variable {α β : Type}

/-- Whatever a computation yields is good, if it reads what the lexer has found. Nothing is said about what it drops
    and what it reports. -/
def Yields (good : α → Prop) (p : Parse α) : Prop :=
  ∀ ⦃c : Cursor⦄ ⦃a : α⦄ ⦃c' : Cursor⦄, c.Genuine → p.run c = (some a, c') → good a

namespace Yields

variable {good : α → Prop} {good' : β → Prop}

theorem pure {a : α} (isGood : good a) : Yields good (Pure.pure a) := by
  intro c b c' _ run
  cases run
  exact isGood

theorem drop : Yields good (Parse.drop : Parse α) := by
  intro c a c' _ run
  cases run

theorem report {position : Position} {problem : Problem} : Yields good (Parse.report position problem) := by
  intro c a c' _ run
  cases run

theorem unexpected {token : Token} {kind : Kind} : Yields good (Parse.unexpected token kind) :=
  report

theorem weaken {p : Parse α} {weaker : α → Prop} (yields : p.Yields good) (weakens : ∀ a, good a → weaker a) :
    p.Yields weaker :=
  fun _ a _ genuine run => weakens a (yields genuine run)

theorem bind {p : Parse α} {f : α → Parse β} (first : p.Yields good) (next : ∀ a, good a → (f a).Yields good') :
    (p >>= f).Yields good' := by
  intro c b c'' genuine run
  change (p.andThen f).run c = _ at run
  rcases firstRun : p.run c with ⟨_ | a, c'⟩
  · simp [andThen, firstRun] at run
  · have nextRun : (f a).run c' = (some b, c'') := by simpa [andThen, firstRun] using run
    -- the second part reads on where the first one has stopped
    have behind : c.Precedes c' := by
      have forward := p.forward c
      rwa [firstRun] at forward
    have genuine' : c'.Genuine := fun w isWord => genuine w (behind.words.subset isWord)
    exact next a (first genuine firstRun) genuine' nextRun

/-- Something of which nothing is known is read first. -/
theorem after {p : Parse α} {f : α → Parse β} (next : ∀ a, (f a).Yields good') : (p >>= f).Yields good' := by
  have anything : p.Yields fun _ => True := fun _ _ _ _ _ => trivial
  exact anything.bind fun a _ => next a

theorem current_bind {f : Token → Parse β} (next : ∀ t : Token, t.lexeme.genuine = true → (f t).Yields good') :
    (Parse.current >>= f).Yields good' := by
  have found : Parse.current.Yields fun t => t.lexeme.genuine = true := by
    intro c t c' genuine run
    cases run
    exact genuine _ List.mem_cons_self
  exact found.bind next

theorem ite {b : Bool} {p q : Parse α} (holds : p.Yields good) (fails : q.Yields good) :
    (if b then p else q).Yields good := by
  cases b with
  | true => exact holds
  | false => exact fails

theorem tolerate {p : Parse α} (yields : p.Yields good) : p.tolerate.Yields fun a? => ∀ a ∈ a?, good a := by
  intro c a? c' genuine run a isSome
  rcases inner : p.run c with ⟨b?, c₁⟩
  simp only [Parse.tolerate, inner, Prod.mk.injEq, Option.some.injEq] at run
  obtain ⟨rfl, rfl⟩ := run
  rw [Option.mem_def.1 isSome] at inner
  exact yields genuine inner

theorem identifier : Parse.identifier.Yields IsIdentifier := by
  refine current_bind fun t genuine => ?_
  split
  · rename_i name isName
    rw [isName] at genuine
    exact pure (isIdentifier_of_genuine genuine)
  · exact unexpected

theorem moreItems {item : Parse α} (yields : item.Yields good) (rounds : Nat) :
    (Parse.moreItems item rounds).Yields fun items => ∀ a ∈ items, good a := by
  induction rounds with
  | zero => exact drop
  | succ rounds inductionHypothesis =>
      refine after fun isComma => .ite ?_ (pure (List.forall_mem_nil _))
      refine after fun _ => after fun _ => yields.bind fun first isGood => ?_
      exact inductionHypothesis.bind fun rest areGood => pure (List.forall_mem_cons.2 ⟨isGood, areGood⟩)

theorem items {item : Parse α} (yields : item.Yields good) (rounds : Nat) (close : Symbol) :
    (Parse.items item rounds close).Yields fun items => ∀ a ∈ items, good a := by
  refine after fun isClosed => .ite (after fun _ => pure (List.forall_mem_nil _)) ?_
  refine after fun _ => yields.bind fun first isGood => (moreItems yields rounds).bind fun rest areGood => ?_
  exact after fun _ => pure (List.forall_mem_cons.2 ⟨isGood, areGood⟩)

end Yields

end Parse

namespace Parser

open Parse

section Readers

variable {sub : Sub} (yields : ∀ level, (sub.expression level).Yields fun e => (Node.expr e).Unbound)

include yields

/-!
### Statements
-/

theorem binding_yields {make : String → Expr → Stmt}
    (gives : ∀ name value, (Node.stmt (make name value)).givenName = some name)
    (holds : ∀ name value, (Node.stmt (make name value)).children = [.expr value]) :
    (binding sub make).Yields fun s => (Node.stmt s).Unbound := by
  refine .after fun _ => Yields.identifier.bind fun name isIdentifier => .after fun _ => .after fun _ => ?_
  exact (yields _).bind fun value unbound => .pure (.naming (gives _ _) (holds _ _) isIdentifier unbound)

theorem returning_yields : (returning sub).Yields fun s => (Node.stmt s).Unbound := by
  refine .after fun next => .ite (.pure ?_) (.after fun _ => (yields _).bind fun value unbound => .pure ?_)
  · have null : (Node.expr .null).Unbound := .leaf trivial rfl
    exact .of_children trivial rfl trivial (List.forall_mem_singleton.2 null)
  · exact .of_children trivial rfl trivial (List.forall_mem_singleton.2 unbound)

theorem expressionStatement_yields : (expressionStatement sub).Yields fun s => (Node.stmt s).Unbound :=
  (yields _).bind fun _ unbound => .pure (.of_children trivial rfl trivial (List.forall_mem_singleton.2 unbound))

section Named

variable {name : String} (isIdentifier : IsIdentifier name)

include isIdentifier

theorem assignment_yields : (assignment sub name).Yields fun s => (Node.stmt s).Unbound :=
  .after fun _ => .after fun _ => (yields _).bind fun _ unbound => .pure (.naming rfl rfl isIdentifier unbound)

omit yields in
/-- A name combined with a value is the value of an assignment to the name. -/
theorem combined_unbound {op : BinaryOp} {value : Expr} (unbound : (Node.expr value).Unbound) :
    (Node.stmt (.assign name (.binary op (.ident name) value))).Unbound := by
  have isName : (Node.expr (.ident name)).Unbound := .leaf isIdentifier rfl
  have combined : (Node.expr (.binary op (.ident name) value)).Unbound :=
    .of_children trivial rfl trivial (isName.pair unbound)
  exact .naming rfl rfl isIdentifier combined

theorem compoundAssignment_yields (op : BinaryOp) :
    (compoundAssignment sub name op).Yields fun s => (Node.stmt s).Unbound :=
  .after fun _ => .after fun _ => (yields _).bind fun _ unbound => .pure (combined_unbound isIdentifier unbound)

omit yields in
theorem stepping_yields (op : BinaryOp) : (stepping name op).Yields fun s => (Node.stmt s).Unbound := by
  have natural : 0 ≤ (1 : Int64).toInt := by decide
  have one : (Node.expr (.integer 1)).Unbound := .leaf natural rfl
  exact .after fun _ => .pure (combined_unbound isIdentifier one)

theorem namedStatement_yields : (namedStatement sub name).Yields fun s => (Node.stmt s).Unbound := by
  refine .after fun next => ?_
  split
  · exact assignment_yields yields isIdentifier
  · split
    · exact compoundAssignment_yields yields isIdentifier _
    · exact stepping_yields isIdentifier _
    · exact expressionStatement_yields yields
  · exact expressionStatement_yields yields

end Named

theorem simpleStatement_yields : (simpleStatement sub).Yields fun s => (Node.stmt s).Unbound := by
  refine .current_bind fun t genuine => ?_
  split
  · exact binding_yields yields (fun _ _ => rfl) fun _ _ => rfl
  · exact binding_yields yields (fun _ _ => rfl) fun _ _ => rfl
  · exact returning_yields yields
  · rename_i name isName
    rw [isName] at genuine
    exact namedStatement_yields yields (isIdentifier_of_genuine genuine)
  · exact expressionStatement_yields yields

theorem statement_yields : (statement sub).Yields fun s? => ∀ s ∈ s?, (Node.stmt s).Unbound := by
  refine .after fun isLone => .ite (.pure nofun) ?_
  refine (simpleStatement_yields yields).tolerate.bind fun s? unbound => .after fun isClosed => ?_
  exact .ite (.after fun _ => .pure unbound) (.pure unbound)

theorem statementsUntil_yields (closes : Kind → Bool) (rounds : Nat) :
    (statementsUntil sub closes rounds).Yields fun ss => ∀ s ∈ ss, (Node.stmt s).Unbound := by
  induction rounds with
  | zero => exact .drop
  | succ rounds inductionHypothesis =>
      refine .after fun t => .ite (.pure (List.forall_mem_nil _)) (.ite .unexpected ?_)
      refine (statement_yields yields).bind fun first isGood => .after fun _ => ?_
      refine inductionHypothesis.bind fun rest areGood => .pure (List.forall_mem_append.2 ⟨?_, areGood⟩)
      exact fun s isFirst => isGood s (Option.mem_toList.1 isFirst)

theorem block_yields : (block sub).Yields fun body => (Node.block body).Unbound :=
  .after fun _ => (statementsUntil_yields yields _ _).weaken fun _ => .block

/-!
### Constructs with blocks
-/

theorem guardedBlock_yields : (guardedBlock sub).Yields fun clause =>
    (Node.expr clause.1).Unbound ∧ (Node.block clause.2).Unbound := by
  refine .after fun _ => (yields _).bind fun guard guardUnbound => .after fun _ => ?_
  exact (block_yields yields).bind fun body bodyUnbound => .pure ⟨guardUnbound, bodyUnbound⟩

theorem elseClauses_yields (rounds : Nat) :
    (elseClauses sub rounds).Yields fun read => ClausesUnbound read.1 read.2 := by
  induction rounds with
  | zero => exact .drop
  | succ rounds inductionHypothesis =>
      refine .after fun isElse => .ite ?_ (.pure .empty)
      refine .after fun _ => .after fun isIf => .ite ?_ ?_
      · refine .after fun _ => (guardedBlock_yields yields).bind fun clause first => ?_
        exact inductionHypothesis.bind fun read others => .pure (others.cons first)
      · exact .after fun _ => (block_yields yields).bind fun body unbound => .pure (.last unbound)

theorem conditional_yields : (conditional sub).Yields fun e => (Node.expr e).Unbound := by
  refine (guardedBlock_yields yields).bind fun clause first => ?_
  refine (elseClauses_yields yields _).bind fun read others => .pure ?_
  exact .of_children (List.cons_ne_nil _ _) rfl trivial (others.cons first).children

theorem whileLoop_yields : (whileLoop sub).Yields fun e => (Node.expr e).Unbound := by
  refine (guardedBlock_yields yields).bind fun clause unbound => .pure ?_
  exact .of_children trivial rfl trivial (unbound.1.pair unbound.2)

theorem forLoop_yields : (forLoop sub).Yields fun e => (Node.expr e).Unbound := by
  refine .after fun _ => .after fun _ => (simpleStatement_yields yields).bind fun start startUnbound => ?_
  refine .after fun _ => .after fun _ => (yields _).bind fun condition conditionUnbound => ?_
  refine .after fun _ => .after fun _ => (simpleStatement_yields yields).bind fun step stepUnbound => ?_
  refine .after fun _ => .after fun _ => (block_yields yields).bind fun body bodyUnbound => .pure ?_
  have children : ∀ child ∈ [Node.stmt start, .expr condition] ++ [.stmt step, .block body], child.Unbound :=
    List.forall_mem_append.2 ⟨startUnbound.pair conditionUnbound, stepUnbound.pair bodyUnbound⟩
  exact .of_children trivial rfl trivial children

theorem caseBody_yields : (caseBody sub).Yields fun body => (Node.block body).Unbound :=
  .after fun _ => .after fun _ => (statementsUntil_yields yields _ _).weaken fun _ => .block

theorem switchCases_yields (rounds : Nat) :
    (switchCases sub rounds).Yields fun read => ClausesUnbound read.1 read.2 := by
  induction rounds with
  | zero => exact .drop
  | succ rounds inductionHypothesis =>
      refine .after fun t => ?_
      split
      · refine .after fun _ => (yields _).bind fun value valueUnbound => ?_
        refine (caseBody_yields yields).bind fun body bodyUnbound => ?_
        exact inductionHypothesis.bind fun read others => .pure (others.cons ⟨valueUnbound, bodyUnbound⟩)
      · refine (caseBody_yields yields).bind fun body unbound => .after fun closing => ?_
        exact .ite (.pure (.last unbound)) .unexpected
      · exact .pure .empty
      · exact .unexpected

theorem switch_yields : (switch sub).Yields fun e => (Node.expr e).Unbound := by
  refine .after fun _ => (yields _).bind fun subject subjectUnbound => .after fun _ => .after fun _ => ?_
  refine (switchCases_yields yields _).bind fun read unbound => ?_
  show Yields _ (if read.1.isEmpty = true then _ else _)
  split
  · exact .after fun t => .report
  · rename_i someCase
    refine .pure (.of_children ?_ rfl trivial (List.forall_mem_cons.2 ⟨subjectUnbound, unbound.children⟩))
    intro isEmpty
    exact someCase (List.isEmpty_iff.2 isEmpty)

theorem paramsAndBody_yields : (paramsAndBody sub).Yields fun read =>
    (∀ param ∈ read.1, IsIdentifier param) ∧ (Node.block read.2).Unbound := by
  refine .after fun _ => (Yields.identifier.items _ _).bind fun params areIdentifiers => .after fun _ => ?_
  exact (block_yields yields).bind fun body unbound => .pure ⟨areIdentifiers, unbound⟩

omit yields in
/-- Parameters are names below a function or a macro. -/
theorem abstraction_children {params : List String} {body : Block}
    (areIdentifiers : ∀ param ∈ params, IsIdentifier param) (unbound : (Node.block body).Unbound) :
    ∀ child ∈ paramParts params ++ [.block body], child.Unbound := by
  refine List.forall_mem_append.2 ⟨?_, List.forall_mem_singleton.2 unbound⟩
  refine List.forall_mem_map.2 fun param isParam => ?_
  exact .leaf (areIdentifiers param isParam) rfl

/-!
### Expressions
-/

theorem hashEntries_yields (rounds : Nat) : (hashEntries sub rounds).Yields fun pairs =>
    ∀ pair ∈ pairs, (Node.expr pair.1).Unbound ∧ (Node.expr pair.2).Unbound := by
  induction rounds with
  | zero => exact .drop
  | succ rounds inductionHypothesis =>
      refine .after fun isClosed => .ite (.after fun _ => .pure (List.forall_mem_nil _)) ?_
      refine .after fun _ => (yields _).bind fun key keyUnbound => .after fun _ => .after fun _ => ?_
      refine (yields _).bind fun value valueUnbound => .after fun isLast => ?_
      have others : (hashEntries sub rounds >>= fun rest => pure ((key, value) :: rest)).Yields fun pairs =>
          ∀ pair ∈ pairs, (Node.expr pair.1).Unbound ∧ (Node.expr pair.2).Unbound :=
        inductionHypothesis.bind fun rest areGood =>
          .pure (List.forall_mem_cons.2 ⟨⟨keyUnbound, valueUnbound⟩, areGood⟩)
      cases isLast with
      | true => exact others
      | false => exact .after fun _ => others

theorem unary_yields (op : UnaryOp) : (unary sub op).Yields fun e => (Node.expr e).Unbound :=
  .after fun _ => (yields _).bind fun _ unbound =>
    .pure (.of_children trivial rfl trivial (List.forall_mem_singleton.2 unbound))

theorem parenthesised_yields : (parenthesised sub).Yields fun e => (Node.expr e).Unbound :=
  .after fun _ => (yields _).bind fun _ unbound => .after fun _ => .pure unbound

theorem operand_yields : (operand sub).Yields fun e => (Node.expr e).Unbound := by
  refine .current_bind fun t genuine => ?_
  generalize isLexeme : t.lexeme = l at genuine ⊢
  split
  · exact .pure (.leaf (isIdentifier_of_genuine genuine) rfl)
  · split
    · rename_i n read
      exact .pure (.leaf (Decimal.natural_of_readInteger? genuine read) rfl)
    · exact .report
  · split
    · exact .pure (.leaf trivial rfl)
    · exact .report
  · exact .pure (.leaf (not_mem_of_genuine genuine) rfl)
  · exact .pure (.leaf trivial rfl)
  · exact .pure (.leaf trivial rfl)
  · exact .pure (.leaf trivial rfl)
  · exact unary_yields yields _
  · exact unary_yields yields _
  · exact parenthesised_yields yields
  · exact ((yields _).items _ _).bind fun _ each =>
      .pure (.of_children trivial rfl trivial (List.forall_mem_map.2 each))
  · exact (hashEntries_yields yields _).bind fun _ each => .pure (.hash each)
  · exact conditional_yields yields
  · exact switch_yields yields
  · exact whileLoop_yields yields
  · exact forLoop_yields yields
  · exact (paramsAndBody_yields yields).bind fun _ read =>
      .pure (.of_children read.1 rfl rfl (abstraction_children read.1 read.2))
  · exact (paramsAndBody_yields yields).bind fun _ read =>
      .pure (.of_children read.1 rfl trivial (abstraction_children read.1 read.2))
  · exact .report
  · exact .report

theorem continuation_yields {left : Expr} (unbound : (Node.expr left).Unbound) (position : Position) (s : Symbol) :
    (continuation sub left position s).Yields fun e => (Node.expr e).Unbound := by
  unfold continuation
  split
  · exact ((yields _).items _ _).bind fun _ each =>
      .pure (.of_children trivial rfl trivial (List.forall_mem_cons.2 ⟨unbound, List.forall_mem_map.2 each⟩))
  · refine .after fun _ => (yields _).bind fun key keyUnbound => .after fun _ => .pure ?_
    exact .of_children trivial rfl trivial (unbound.pair keyUnbound)
  · split
    · exact .report
    · refine .after fun _ => (yields _).bind fun right rightUnbound => .pure ?_
      exact .of_children trivial rfl trivial (unbound.pair rightUnbound)
    · exact .drop

theorem extend_yields (level : Level) (rounds : Nat) : ∀ {left : Expr}, (Node.expr left).Unbound →
    (extend sub level rounds left).Yields fun e => (Node.expr e).Unbound := by
  induction rounds with
  | zero => exact fun _ => .drop
  | succ rounds inductionHypothesis =>
      intro left unbound
      refine .after fun next => .ite (.after fun _ => ?_) (.pure unbound)
      split
      · exact (continuation_yields yields unbound _ _).bind fun _ longer => inductionHypothesis longer
      · exact .drop

end Readers

/-- The induction is on the depth: an expression hands its readers one that goes less deep. -/
theorem expression_yields (rounds depth : Nat) : ∀ level,
    (expression rounds depth level).Yields fun e => (Node.expr e).Unbound := by
  induction depth with
  | zero => exact fun _ => .drop
  | succ depth inductionHypothesis =>
      intro level
      exact (operand_yields inductionHypothesis).bind fun _ unbound =>
        extend_yields inductionHypothesis level rounds unbound

end Parser

/-!
### Main result
-/

theorem Cursor.genuine_ofTokens (source : String) : (Cursor.ofTokens (Token.scan source)).Genuine := by
  intro w isWord
  rw [Parser.ofTokens_words (Token.scan_ended source)] at isWord
  exact (Token.scan_splits source).genuine w isWord

/-- Every node of what is read from a text is well formed, whether or not the text has faults. -/
theorem parse_well_formed (source : String) : ∀ n ∈ (parse source).program.visits, n.WellFormed := by
  let bound := (Token.scan source).length + 1
  let sub : Parser.Sub := ⟨Parser.expression bound bound, bound⟩
  let reader := Parser.statementsUntil sub (· = .endOfText) bound
  have yields : reader.Yields fun ss => ∀ s ∈ ss, (Node.stmt s).Unbound :=
    Parser.statementsUntil_yields (Parser.expression_yields bound bound) _ bound
  have isProgram : (parse source).program = ⟨(reader.run (Cursor.ofTokens (Token.scan source))).1.getD []⟩ := rfl
  have each : ∀ s ∈ (parse source).program.statements, (Node.stmt s).Unbound := by
    rw [isProgram]
    rcases run : reader.run (Cursor.ofTokens (Token.scan source)) with ⟨_ | ss, c⟩
    · exact List.forall_mem_nil _
    · exact yields (Cursor.genuine_ofTokens source) run
  have unbound : (Node.program (parse source).program).Unbound :=
    .of_children trivial rfl trivial (List.forall_mem_map.2 each)
  exact unbound.sound

/-- The statement with a fault is left out, but the value that stands behind the fault is read as a statement; only the
    function that is bound has a name. -/
theorem parse_well_formed_around_fault :
    let source := "let f = fn(x) \x7b x \x7d; let = 1; g(fn() \x7b \x7d)"
    let binding : Stmt := .bind "f" (.function (some "f") ["x"] [.expr (.ident "x")])
    let passing : Expr := .call (.ident "g") [.function none [] []]
    (parse source).diagnostics.map Diagnostic.position = [⟨1, 25⟩, ⟨1, 25⟩] ∧
      (parse source).program = ⟨[binding, .expr (.integer 1), .expr passing]⟩ ∧
      (Node.stmt binding).WellFormed ∧ (Node.expr passing).WellFormed := by
  intro source binding passing
  have program : (parse source).program = ⟨[binding, .expr (.integer 1), .expr passing]⟩ := by
    dsimp only [source, binding, passing]
    rfl
  have bindingVisited : .stmt binding ∈ (parse source).program.visits := by
    rw [program]
    exact List.mem_of_getElem? (i := 5) rfl
  have passingVisited : .expr passing ∈ (parse source).program.visits := by
    rw [program]
    exact List.mem_of_getElem? (i := 11) rfl
  refine ⟨?_, program, parse_well_formed source _ bindingVisited, parse_well_formed source _ passingVisited⟩
  dsimp only [source]
  rfl

end Quill
