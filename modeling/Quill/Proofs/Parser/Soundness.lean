/-
Module: Quill.Proofs.Parser.Soundness
Layer: Proofs
Purpose: Whatever is read without a report is a phrase of the grammar. Each reader has one lemma: the words
  between the cursor where it starts and the cursor where it ends derive the tree that it yields. Readers of
  expressions also say what cannot follow, which is how the loop over operators keeps to the grades.
Main exports: Spans, Parser.Sub.Sound, Parser.statementsUntil_sound, Parser.extend_sound,
  Parser.expression_sound, Parser.parseTokens_sound
-/
import Quill.Proofs.Grammar
import Quill.Proofs.Parser.Settling

namespace Quill

/-!
### Kinds
-/

namespace Token

variable {t : Token}

@[simp] theorem hasKind_symbol {s : Symbol} : t.hasKind (.symbol s) = true ↔ t.lexeme = .symbol s := by
  cases lexeme : t.lexeme <;> simp [hasKind, lexeme, Lexeme.kind]

@[simp] theorem hasKind_keyword {k : Keyword} :
    t.hasKind (.keyword k) = true ↔ t.lexeme = .keyword k := by
  cases lexeme : t.lexeme <;> simp [hasKind, lexeme, Lexeme.kind]

@[simp] theorem hasKind_endOfText : t.hasKind .endOfText = true ↔ t.lexeme = .endOfText := by
  cases lexeme : t.lexeme <;> simp [hasKind, lexeme, Lexeme.kind]

end Token

/-!
### The words between two cursors
-/

/-- Of some words that end, the first ones are `ws`, and the others lie ahead of `c'`. -/
structure Spans (before ws : List Lexeme) (c' : Cursor) : Prop where
  words : before = ws ++ c'.ahead
  ended : Ended c'.ahead

namespace Spans

variable {before ws vs : List Lexeme} {c c' c'' : Cursor}

theorem none (ended : Ended c.ahead) : Spans c.ahead [] c :=
  ⟨rfl, ended⟩

theorem append (first : Spans before ws c') (second : Spans c'.ahead vs c'') :
    Spans before (ws ++ vs) c'' := by
  constructor
  · rw [first.words, second.words, List.append_assoc]
  · exact second.ended

theorem current (spans : Spans c.ahead ws c') : Spans c.words (c.current.lexeme :: ws) c' := by
  constructor
  · rw [Cursor.words, spans.words, List.cons_append]
  · exact spans.ended

/-- What is read from the next token on has been read behind the current one. -/
theorem behind (ended : Ended c.ahead) (spans : Spans c.advance.words ws c') : Spans c.ahead ws c' := by
  rwa [Cursor.advance_words ended.nonempty] at spans

/-- One more token, which is not the last one. -/
theorem next {w : Lexeme} (ended : Ended c.ahead) (isNext : c.peek.lexeme = w) (more : w ≠ .endOfText) :
    Spans c.ahead [w] c.advance := by
  obtain ⟨v, vs, isAhead⟩ := List.exists_cons_of_ne_nil ended.nonempty
  obtain ⟨words, _, isPeek⟩ := Cursor.advance_of_ahead isAhead
  have same : v = w := by
    rw [← isNext, isPeek]
    exact (List.cons.inj words).1.symm
  have left : c.advance.ahead = vs := (List.cons.inj words).2
  subst same
  constructor
  · rw [isAhead, left]
    rfl
  · rw [left]
    rw [isAhead] at ended
    exact ended.tail more

/-- The words that end at a token are those before it and the token itself. -/
theorem closed (ended : Ended c.words) (words : c.words = ws ++ c'.words)
    (more : c'.current.lexeme ≠ .endOfText) : Spans c.words (ws ++ [c'.current.lexeme]) c' := by
  constructor
  · rw [words, Cursor.words]
    simp
  · have isSuffix : c'.words <:+ c.words := ⟨ws, words.symm⟩
    exact (ended.suffix isSuffix c'.words_ne_nil).tail more

end Spans

theorem Cursor.peek_of_ahead {c : Cursor} {w : Lexeme} {ws : List Lexeme} (isAhead : c.ahead = w :: ws) :
    c.peek.lexeme = w := by
  rw [Cursor.peek_lexeme, isAhead]
  rfl

/-- Moving on takes up room wherever words lie ahead. -/
theorem Parse.Room.behind {n : Nat} {c : Cursor} (room : Room (n + 1) c) (ended : Ended c.ahead) :
    Room n c.advance := by
  apply room.advance
  intro last
  have isEmpty : c.ahead = [] := by
    have all := room.1
    simpa [Cursor.words, Ended, last] using all
  exact ended.nonempty isEmpty

theorem Ended.ahead {c : Cursor} (ended : Ended c.words) (more : c.current.lexeme ≠ .endOfText) :
    Ended c.ahead :=
  ended.tail more

/-!
### Levels and grades
-/

namespace Level

/-- The grade of an expression that is read above a level. -/
def above : Level → Level
  | exponent | unary | call => unary
  | level => level.tighter

/-- Whether an expression of a grade can stand before a symbol of a level without taking it in. -/
def admits (grade next : Level) : Bool :=
  decide (next.rank ≤ grade.rank) && !(grade = exponent && next = exponent)

theorem eq_lowest_of_not_looser {level : Level} (stops : lowest.looser level = false) : level = lowest := by
  cases level <;> first | rfl | contradiction

theorem above_rank_le {level next : Level} (looser : level.looser next = true) :
    level.above.rank ≤ next.rank := by
  cases level <;> cases next <;> simp_all [above, tighter, rank, Level.looser]

theorem above_rank_le_unary (level : Level) : level.above.rank ≤ unary.rank := by
  cases level <;> simp [above, tighter, rank]

end Level

namespace BinaryOp

variable {op : BinaryOp} {grade next : Level}

theorem leftGrade_rank_le (admits : grade.admits op.level = true) : op.leftGrade.rank ≤ grade.rank := by
  cases op <;> cases grade <;> simp_all [leftGrade, level, Level.admits, Level.rank]

theorem level_admits (stops : op.rightLevel.looser next = false) : op.level.admits next = true := by
  cases op <;> cases next <;> simp_all [rightLevel, level, Level.admits, Level.looser, Level.rank]

theorem rightLevel_above (op : BinaryOp) : op.rightLevel.above = op.rightGrade := by
  cases op <;> rfl

end BinaryOp

theorem Symbol.level_of_binary {s : Symbol} {op : BinaryOp} (isBinary : s.binary? = some op) :
    s = op.symbol ∧ s.level = op.level := by
  cases s <;> cases isBinary <;> exact ⟨rfl, rfl⟩

namespace Parser

open Parse

variable {sub : Sub} {c c' : Cursor} {n : Nat}

/-!
### Lists
-/

theorem moreItems_sound {α : Type} {item : Parse α} {P : α → List Lexeme → Prop}
    (sound : ∀ {c a c'}, Room n c → item.Reads c a c' → ∃ ws, Spans c.words ws c' ∧ P a ws)
    (rounds : Nat) : ∀ {c as c'}, Room n c → Ended c.ahead → (moreItems item rounds).Reads c as c' →
    ∃ found : List (α × List Lexeme), as = found.map Prod.fst ∧ (∀ one ∈ found, P one.1 one.2) ∧
      Spans c.ahead ((found.map Prod.snd).flatMap fun other => .symbol .comma :: other) c' := by
  induction rounds with
  | zero =>
      intro c as c' _ _ reads
      exact absurd reads reads_drop
  | succ rounds inductionHypothesis =>
      intro c as c' room ended reads
      simp only [moreItems, reads_bind, reads_peekIs] at reads
      obtain ⟨isComma, c, ⟨isPeek, rfl⟩, reads⟩ := reads
      cases isComma with
      | false =>
          obtain ⟨rfl, rfl⟩ := reads_pure.1 reads
          exact ⟨[], rfl, by simp, Spans.none ended⟩
      | true =>
          simp only [if_true, reads_bind, reads_advance, reads_pure] at reads
          obtain ⟨_, _, rfl, _, _, rfl, first, c₁, readsFirst, rest, c₂, readsRest, rfl, rfl⟩ := reads
          have comma := Spans.next ended (Token.hasKind_symbol.1 isPeek.symm) (by simp)
          have room₁ := (room.precedes c.precedes_advance).precedes c.advance.precedes_advance
          obtain ⟨ws, spans, holds⟩ := sound room₁ readsFirst
          have spans₁ := Spans.behind comma.ended spans
          obtain ⟨found, rfl, each, spans₂⟩ :=
            inductionHypothesis (room₁.reads readsFirst) spans₁.ended readsRest
          refine ⟨(first, ws) :: found, rfl, ?_, (comma.append spans₁).append spans₂⟩
          intro one member
          rcases List.mem_cons.1 member with rfl | member
          · exact holds
          · exact each one member

theorem items_sound {α : Type} {item : Parse α} {P : α → List Lexeme → Prop} {rounds : Nat}
    {close : Symbol} {as : List α}
    (sound : ∀ {c a c'}, Room n c → item.Reads c a c' → ∃ ws, Spans c.words ws c' ∧ P a ws)
    (room : Room n c.advance) (ended : Ended c.ahead)
    (reads : (items item rounds close).Reads c as c') :
    ∃ found : List (α × List Lexeme), as = found.map Prod.fst ∧ (∀ one ∈ found, P one.1 one.2) ∧
      Spans c.ahead (separated (found.map Prod.snd) ++ [.symbol close]) c' := by
  simp only [items, reads_bind, reads_peekIs] at reads
  obtain ⟨isClose, _, ⟨isPeek, rfl⟩, reads⟩ := reads
  cases isClose with
  | true =>
      simp only [if_true, reads_bind, reads_advance, reads_pure] at reads
      obtain ⟨_, _, rfl, rfl, rfl⟩ := reads
      exact ⟨[], rfl, by simp, Spans.next ended (Token.hasKind_symbol.1 isPeek.symm) (by simp)⟩
  | false =>
      simp only [if_false, Bool.false_eq_true, reads_bind, reads_advance, reads_expectSymbol,
        reads_pure] at reads
      obtain ⟨_, _, rfl, first, c₁, readsFirst, rest, c₂, readsRest, _, _, ⟨isClose, rfl⟩, rfl, rfl⟩ := reads
      obtain ⟨ws, spans, holds⟩ := sound room readsFirst
      have spans₁ := Spans.behind ended spans
      obtain ⟨found, rfl, each, spans₂⟩ :=
        moreItems_sound sound rounds (room.reads readsFirst) spans₁.ended readsRest
      have closing := Spans.next spans₂.ended (Token.hasKind_symbol.1 isClose) (by simp)
      refine ⟨(first, ws) :: found, rfl, ?_, (spans₁.append spans₂).append closing⟩
      intro one member
      rcases List.mem_cons.1 member with rfl | member
      · exact holds
      · exact each one member

theorem identifier_sound {name : String} (room : Room n c) (reads : identifier.Reads c name c') :
    ∃ ws, Spans c.words ws c' ∧ ws = [.identifier name] := by
  simp only [identifier, reads_bind, reads_current] at reads
  obtain ⟨_, _, ⟨rfl, rfl⟩, reads⟩ := reads
  split at reads
  · rename_i isName
    obtain ⟨rfl, rfl⟩ := reads_pure.1 reads
    have ended := room.1.ahead (by simp [isName])
    have spans := (Spans.none ended).current
    rw [isName] at spans
    exact ⟨_, spans, rfl⟩
  · exact absurd reads reads_unexpected

/-!
### Statements
-/

/-- Expressions settle and derive wherever there is room for `n` words, and what follows them does not
    bind more tightly than the level asked for. -/
structure Sub.Sound (n : Nat) (sub : Sub) : Prop extends sub.Settles n where
  derives : ∀ {level c e c'}, Room n c → (sub.expression level).Reads c e c' →
    ∃ ws, Spans c.words ws c' ∧ Derives (.expression level.above e) ws ∧
      level.looser c'.peek.lexeme.level = false

/-- The expression behind the current token. -/
theorem Sub.Sound.behind {e : Expr} (sound : sub.Sound n) (room : Room n c.advance) (ended : Ended c.ahead)
    (reads : (sub.expression .lowest).Reads c.advance e c') :
    ∃ ws, Spans c.ahead ws c' ∧ Derives (.expression .logical e) ws ∧
      c'.peek.lexeme.level = .lowest := by
  obtain ⟨ws, spans, derives, stops⟩ := sound.derives room reads
  exact ⟨ws, Spans.behind ended spans, derives, Level.eq_lowest_of_not_looser stops⟩

theorem binding_sound {make : String → Expr → Stmt} {s : Stmt} (sound : sub.Sound n) (room : Room n c)
    (ended : Ended c.ahead) (reads : (binding sub make).Reads c s c') :
    ∃ name value ws, s = make name (value.named name) ∧
      Spans c.ahead (.identifier name :: .symbol .assign :: ws) c' ∧
      Derives (.expression .logical value) ws ∧ c'.peek.lexeme.level = .lowest := by
  simp only [binding, reads_bind, reads_expect, reads_expectSymbol, reads_advance, reads_pure] at reads
  obtain ⟨_, c₁, ⟨isName, rfl⟩, name, c₂, readsName, _, c₃, ⟨isAssign, rfl⟩, _, c₄, rfl, value, c₅,
    readsValue, rfl, rfl⟩ := reads
  have room₁ := room.precedes c.precedes_advance
  obtain ⟨_, spans, rfl⟩ := identifier_sound room₁ readsName
  have spans₁ := Spans.behind ended spans
  have spans₂ := Spans.next spans₁.ended (Token.hasKind_symbol.1 isAssign) (by simp)
  have room₂ := ((room₁.reads readsName).precedes c₂.precedes_advance).precedes
    c₂.advance.precedes_advance
  obtain ⟨ws, spans₃, derives, ends⟩ := sound.behind room₂ spans₂.ended readsValue
  exact ⟨name, value, ws, rfl, (spans₁.append spans₂).append spans₃, derives, ends⟩

theorem returning_sound {s : Stmt} (sound : sub.Sound n) (room : Room n c) (ended : Ended c.ahead)
    (reads : (returning sub).Reads c s c') :
    ∃ ws, Spans c.ahead ws c' ∧
      Derives (.statement c'.peek.lexeme s) (.keyword .returnWord :: ws) := by
  simp only [returning, reads_bind, reads_peek] at reads
  obtain ⟨_, c, ⟨rfl, rfl⟩, reads⟩ := reads
  split at reads
  · rename_i endsReturn
    obtain ⟨rfl, rfl⟩ := reads_pure.1 reads
    have ends : c'.peek.lexeme.endsReturn = true := by
      simpa [Lexeme.endsReturn, or_assoc] using endsReturn
    exact ⟨[], Spans.none ended, .retNull ends⟩
  · simp only [reads_bind, reads_advance, reads_pure] at reads
    obtain ⟨_, _, rfl, value, c₁, readsValue, rfl, rfl⟩ := reads
    obtain ⟨ws, spans, derives, ends⟩ := sound.behind (room.precedes c.precedes_advance) ended readsValue
    exact ⟨ws, spans, .ret ends derives⟩

/-- The value behind the two tokens `name` and `=`, or behind `name` and a compound assignment. -/
theorem assigned_sound {value : Expr} {s : Symbol} (sound : sub.Sound n) (room : Room n c)
    (ended : Ended c.ahead) (isNext : c.peek.lexeme = .symbol s)
    (reads : (sub.expression .lowest).Reads c.advance.advance value c') :
    ∃ ws, Spans c.ahead (.symbol s :: ws) c' ∧ Derives (.expression .logical value) ws ∧
      c'.peek.lexeme.level = .lowest := by
  have spans := Spans.next ended isNext nofun
  have room₁ := (room.precedes c.precedes_advance).precedes c.advance.precedes_advance
  obtain ⟨ws, spans₁, derives, ends⟩ := sound.behind room₁ spans.ended reads
  exact ⟨ws, spans.append spans₁, derives, ends⟩

theorem expressionStatement_sound {s : Stmt} (sound : sub.Sound n) (room : Room n c)
    (reads : (expressionStatement sub).Reads c s c') :
    ∃ ws, Spans c.words ws c' ∧ Derives (.statement c'.peek.lexeme s) ws := by
  simp only [expressionStatement, reads_bind, reads_pure] at reads
  obtain ⟨e, c₁, readsExpression, rfl, rfl⟩ := reads
  obtain ⟨ws, spans, derives, stops⟩ := sound.derives room readsExpression
  exact ⟨ws, spans, .expr (Level.eq_lowest_of_not_looser stops) derives⟩

theorem namedStatement_sound {name : String} {s : Stmt} (sound : sub.Sound n) (room : Room n c)
    (isName : c.current.lexeme = .identifier name) (reads : (namedStatement sub name).Reads c s c') :
    ∃ ws, Spans c.words ws c' ∧ Derives (.statement c'.peek.lexeme s) ws := by
  have ended := room.1.ahead (by simp [isName])
  simp only [namedStatement, reads_bind, reads_peek] at reads
  obtain ⟨_, c, ⟨rfl, rfl⟩, reads⟩ := reads
  split at reads
  · rename_i isAssign
    simp only [assignment, reads_bind, reads_advance, reads_pure] at reads
    obtain ⟨_, _, rfl, _, _, rfl, value, c₁, readsValue, rfl, rfl⟩ := reads
    obtain ⟨ws, spans, derives, ends⟩ := assigned_sound sound room ended isAssign readsValue
    exact ⟨_, isName ▸ spans.current, .assign name ends derives⟩
  · rename_i s _ isSymbol
    split at reads
    · rename_i isCompound
      simp only [compoundAssignment, reads_bind, reads_advance, reads_pure] at reads
      obtain ⟨_, _, rfl, _, _, rfl, value, c₁, readsValue, rfl, rfl⟩ := reads
      obtain ⟨ws, spans, derives, ends⟩ := assigned_sound sound room ended isSymbol readsValue
      exact ⟨_, isName ▸ spans.current, .compound name isCompound ends derives⟩
    · rename_i isStep
      simp only [stepping, reads_bind, reads_advance, reads_pure] at reads
      obtain ⟨_, _, rfl, rfl, rfl⟩ := reads
      have spans := Spans.next ended isSymbol (by simp)
      exact ⟨_, isName ▸ spans.current, .step name isStep⟩
    · exact expressionStatement_sound sound room reads
  · exact expressionStatement_sound sound room reads

theorem simpleStatement_sound {s : Stmt} (sound : sub.Sound n) (room : Room n c)
    (reads : (simpleStatement sub).Reads c s c') :
    ∃ ws, Spans c.words ws c' ∧ Derives (.statement c'.peek.lexeme s) ws := by
  simp only [simpleStatement, reads_bind, reads_current] at reads
  obtain ⟨_, c, ⟨rfl, rfl⟩, reads⟩ := reads
  split at reads
  · rename_i isLet
    obtain ⟨name, value, ws, rfl, spans, derives, ends⟩ :=
      binding_sound sound room (room.1.ahead (by simp [isLet])) reads
    exact ⟨_, isLet ▸ spans.current, .bind name ends derives⟩
  · rename_i isConst
    obtain ⟨name, value, ws, rfl, spans, derives, ends⟩ :=
      binding_sound sound room (room.1.ahead (by simp [isConst])) reads
    exact ⟨_, isConst ▸ spans.current, .bindConst name ends derives⟩
  · rename_i isReturn
    obtain ⟨ws, spans, derives⟩ := returning_sound sound room (room.1.ahead (by simp [isReturn])) reads
    exact ⟨_, isReturn ▸ spans.current, derives⟩
  · rename_i isName
    exact namedStatement_sound sound room isName reads
  · exact expressionStatement_sound sound room reads

/-- A statement that was read was not dropped, because readers of statements settle. -/
theorem statement_sound {s? : Option Stmt} (sound : sub.Sound n) (room : Room n c)
    (reads : (statement sub).Reads c s? c') :
    (s? = none ∧ c.current.lexeme = .symbol .semicolon ∧ c' = c) ∨
    ∃ s ws, s? = some s ∧
      (Spans c.words (ws ++ [.symbol .semicolon]) c' ∧ Derives (.statement (.symbol .semicolon) s) ws ∨
        Spans c.words ws c' ∧ Derives (.statement c'.peek.lexeme s) ws ∧
          c'.peek.lexeme ≠ .symbol .semicolon) := by
  simp only [statement, reads_bind, reads_currentIs] at reads
  obtain ⟨isEmpty, c, ⟨isCurrent, rfl⟩, reads⟩ := reads
  cases isEmpty with
  | true =>
      simp only [if_true, reads_pure] at reads
      obtain ⟨rfl, rfl⟩ := reads
      exact .inl ⟨rfl, Token.hasKind_symbol.1 isCurrent.symm, rfl⟩
  | false =>
      simp only [if_false, Bool.false_eq_true, reads_bind, reads_peekIs] at reads
      obtain ⟨s?, c₁, tolerated, isSemicolon, c₁, ⟨isPeek, rfl⟩, reads⟩ := reads
      obtain ⟨s, rfl, readsStatement⟩ := (simpleStatement_settles sound.toSettles room).reads tolerated
      obtain ⟨ws, spans, derives⟩ := simpleStatement_sound sound room readsStatement
      cases isSemicolon with
      | true =>
          simp only [if_true, reads_bind, reads_advance, reads_pure] at reads
          obtain ⟨_, _, rfl, rfl, rfl⟩ := reads
          have isNext := Token.hasKind_symbol.1 isPeek.symm
          rw [isNext] at derives
          exact .inr ⟨s, ws, rfl, .inl ⟨spans.append (Spans.next spans.ended isNext (by simp)), derives⟩⟩
      | false =>
          simp only [if_false, Bool.false_eq_true, reads_pure] at reads
          obtain ⟨rfl, rfl⟩ := reads
          have notNext : c'.peek.lexeme ≠ .symbol .semicolon := by
            intro isNext
            rw [Token.hasKind_symbol.2 isNext] at isPeek
            cases isPeek
          exact .inr ⟨s, ws, rfl, .inr ⟨spans, derives, notNext⟩⟩

/-- The cursor ends at the token that closes the statements. -/
theorem statementsUntil_sound (sound : sub.Sound n) (closes : Kind → Bool) (rounds : Nat) :
    ∀ {c ss c'}, Room n c → (statementsUntil sub closes rounds).Reads c ss c' →
    ∃ ws, c.words = ws ++ c'.words ∧ Derives (.statements c'.current.lexeme ss) ws ∧
      closes c'.current.lexeme.kind = true := by
  induction rounds with
  | zero =>
      intro c ss c' _ reads
      exact absurd reads reads_drop
  | succ rounds inductionHypothesis =>
      intro c ss c' room reads
      simp only [statementsUntil, reads_bind, reads_current] at reads
      obtain ⟨_, c, ⟨rfl, rfl⟩, reads⟩ := reads
      split at reads
      · rename_i isClosed
        obtain ⟨rfl, rfl⟩ := reads_pure.1 reads
        exact ⟨[], rfl, .noStatements _, isClosed⟩
      · split at reads
        · exact absurd reads reads_unexpected
        · rename_i notLast
          simp only [reads_bind, reads_advance, reads_pure] at reads
          obtain ⟨s?, c₁, readsFirst, _, _, rfl, ss, c₂, readsRest, rfl, rfl⟩ := reads
          have more : c.current.lexeme ≠ .endOfText := fun last => notLast (Token.hasKind_endOfText.2 last)
          have room₁ := (room.reads readsFirst).precedes c₁.precedes_advance
          obtain ⟨ws, words, derives, isClosed⟩ := inductionHypothesis room₁ readsRest
          rcases statement_sound sound room readsFirst with
            ⟨rfl, isSemicolon, rfl⟩ | ⟨s, vs, rfl, ⟨spans, first⟩ | ⟨spans, first, isOpen⟩⟩
          · have ended := room.1.ahead more
            rw [Cursor.advance_words ended.nonempty] at words
            refine ⟨.symbol .semicolon :: ws, ?_, .semicolon derives, isClosed⟩
            rw [Cursor.words, words, isSemicolon, List.cons_append]
          · rw [Cursor.advance_words spans.ended.nonempty] at words
            refine ⟨vs ++ .symbol .semicolon :: ws, ?_, .closed first derives, isClosed⟩
            rw [spans.words, words]
            simp
          · rw [Cursor.advance_words spans.ended.nonempty] at words
            have isNext : c₁.peek.lexeme = ws.headD c'.current.lexeme := by
              rw [Cursor.peek_lexeme, words]
              cases ws <;> rfl
            rw [isNext] at first isOpen
            refine ⟨vs ++ ws, ?_, .unclosed isOpen first derives, isClosed⟩
            rw [spans.words, words, List.append_assoc]

theorem block_sound {body : Block} (sound : sub.Sound n) (room : Room n c.advance) (ended : Ended c.ahead)
    (reads : (block sub).Reads c body c') :
    ∃ ws, Spans c.ahead ws c' ∧ Derives (.block body) (.symbol .leftCurly :: ws) := by
  simp only [block, reads_bind, reads_advance] at reads
  obtain ⟨_, _, rfl, reads⟩ := reads
  obtain ⟨ws, words, derives, isClosed⟩ := statementsUntil_sound sound _ _ room reads
  have isBrace : c'.current.lexeme = .symbol .rightCurly := by
    simpa [Token.hasKind] using (Token.hasKind_symbol (t := c'.current)).1 isClosed
  have spans := Spans.closed room.1 words (by simp [isBrace])
  rw [isBrace] at spans derives
  exact ⟨_, Spans.behind ended spans, .block derives⟩

/-- A block behind an opening brace that was expected. -/
theorem braced_sound {body : Block} (sound : sub.Sound n) (room : Room (n + 1) c) (ended : Ended c.ahead)
    (isOpen : c.peek.hasKind (.symbol .leftCurly) = true) (reads : (block sub).Reads c.advance body c') :
    ∃ ws, Spans c.ahead ws c' ∧ Derives (.block body) ws := by
  have isNext := Token.hasKind_symbol.1 isOpen
  have spans := Spans.next ended isNext nofun
  have more := room.advance_of_peek (by simp [isNext])
  have room₁ := (room.precedes c.precedes_advance).advance more
  obtain ⟨ws, spans₁, derives⟩ := block_sound sound room₁ spans.ended reads
  exact ⟨_, spans.append spans₁, derives⟩

/-!
### Parts of expressions
-/

theorem hashEntries_at_close {rounds : Nat} {pairs : List (Expr × Expr)}
    (isClose : c.peek.hasKind (.symbol .rightCurly) = true)
    (reads : (hashEntries sub rounds).Reads c pairs c') : pairs = [] ∧ c' = c.advance := by
  cases rounds with
  | zero => exact absurd reads reads_drop
  | succ rounds =>
      simp only [hashEntries, reads_bind, reads_peekIs, isClose] at reads
      obtain ⟨_, _, ⟨rfl, rfl⟩, reads⟩ := reads
      simp only [if_true, reads_bind, reads_advance, reads_pure] at reads
      obtain ⟨_, _, rfl, rfl, rfl⟩ := reads
      exact ⟨rfl, rfl⟩

/-- Behind an entry stands the closing brace, which ends the hash, or a comma, which may end it too. -/
theorem hashEntries_sound (sound : sub.Sound n) (rounds : Nat) : ∀ {c pairs c'}, Room (n + 1) c →
    Ended c.ahead → (hashEntries sub rounds).Reads c pairs c' →
    ∃ ws, Spans c.ahead (ws ++ [.symbol .rightCurly]) c' ∧ Derives (.entries pairs) ws := by
  induction rounds with
  | zero =>
      intro c pairs c' _ _ reads
      exact absurd reads reads_drop
  | succ rounds inductionHypothesis =>
      intro c pairs c' room ended reads
      simp only [hashEntries, reads_bind, reads_peekIs] at reads
      obtain ⟨isClose, c, ⟨isPeek, rfl⟩, reads⟩ := reads
      cases isClose with
      | true =>
          simp only [if_true, reads_bind, reads_advance, reads_pure] at reads
          obtain ⟨_, _, rfl, rfl, rfl⟩ := reads
          exact ⟨[], Spans.next ended (Token.hasKind_symbol.1 isPeek.symm) (by simp), .noEntries⟩
      | false =>
          simp only [if_false, Bool.false_eq_true, reads_bind, reads_advance, reads_expectSymbol,
            reads_peekIs] at reads
          obtain ⟨_, _, rfl, key, c₁, readsKey, _, _, ⟨isColon, rfl⟩, _, _, rfl, value, c₂, readsValue,
            isClose, c₂, ⟨isPeek', rfl⟩, reads⟩ := reads
          have room₁ := room.behind ended
          obtain ⟨w₁, spans₁, keyDerives, _⟩ := sound.behind room₁ ended readsKey
          have colon := Spans.next spans₁.ended (Token.hasKind_symbol.1 isColon) (by simp)
          have room₂ := ((room₁.reads readsKey).precedes c₁.precedes_advance).precedes
            c₁.advance.precedes_advance
          obtain ⟨w₂, spans₂, valueDerives, _⟩ := sound.behind room₂ colon.ended readsValue
          have entry := (spans₁.append colon).append spans₂
          have room₃ := (room₂.reads readsValue).mono (Nat.le_succ n)
          cases isClose with
          | true =>
              simp only [Bool.not_true, Bool.false_eq_true, if_false, reads_bind, reads_pure] at reads
              obtain ⟨others, c₃, readsRest, rfl, rfl⟩ := reads
              obtain ⟨rfl, rfl⟩ := hashEntries_at_close isPeek'.symm readsRest
              have close := Spans.next spans₂.ended (Token.hasKind_symbol.1 isPeek'.symm) (by simp)
              refine ⟨w₁ ++ .symbol .colon :: w₂, ?_, .lastEntry keyDerives valueDerives⟩
              simpa using entry.append close
          | false =>
              simp only [Bool.not_false, if_true, reads_bind, reads_expectSymbol, reads_pure] at reads
              obtain ⟨_, _, ⟨isComma, rfl⟩, others, c₃, readsRest, rfl, rfl⟩ := reads
              have comma := Spans.next spans₂.ended (Token.hasKind_symbol.1 isComma) (by simp)
              obtain ⟨w₃, spans₃, derives⟩ :=
                inductionHypothesis (room₃.precedes c₂.precedes_advance) comma.ended readsRest
              refine ⟨w₁ ++ .symbol .colon :: w₂ ++ .symbol .comma :: w₃, ?_,
                .moreEntries keyDerives valueDerives derives⟩
              simpa using (entry.append comma).append spans₃

theorem guardedBlock_sound {clause : Expr × Block} (sound : sub.Sound n) (room : Room (n + 1) c)
    (ended : Ended c.ahead) (reads : (guardedBlock sub).Reads c clause c') :
    ∃ ws, Spans c.ahead ws c' ∧ Derives (.guarded clause.1 clause.2) ws := by
  simp only [guardedBlock, reads_bind, reads_advance, reads_expectSymbol, reads_pure] at reads
  obtain ⟨_, _, rfl, guard, c₁, readsGuard, _, _, ⟨isOpen, rfl⟩, body, c₂, readsBody, rfl, rfl⟩ := reads
  have room₁ := room.behind ended
  obtain ⟨w₁, spans₁, guardDerives, _⟩ := sound.behind room₁ ended readsGuard
  have room₂ := (room₁.reads readsGuard).mono (Nat.le_succ n)
  obtain ⟨w₂, spans₂, bodyDerives⟩ := braced_sound sound room₂ spans₁.ended isOpen readsBody
  exact ⟨_, spans₁.append spans₂, .guarded guardDerives bodyDerives⟩

theorem elseClauses_sound (sound : sub.Sound n) (rounds : Nat) : ∀ {c found c'}, Room (n + 1) c →
    Ended c.ahead → (elseClauses sub rounds).Reads c found c' →
    ∃ ws, Spans c.ahead ws c' ∧ Derives (.elses found.1 found.2) ws := by
  induction rounds with
  | zero =>
      intro c found c' _ _ reads
      exact absurd reads reads_drop
  | succ rounds inductionHypothesis =>
      intro c found c' room ended reads
      simp only [elseClauses, reads_bind, reads_peekIs] at reads
      obtain ⟨isElse, c, ⟨isPeek, rfl⟩, reads⟩ := reads
      cases isElse with
      | false =>
          simp only [if_false, Bool.false_eq_true, reads_pure] at reads
          obtain ⟨rfl, rfl⟩ := reads
          exact ⟨[], Spans.none ended, .noElse⟩
      | true =>
          simp only [if_true, reads_bind, reads_advance, reads_peekIs] at reads
          obtain ⟨_, _, rfl, isIf, c₁, ⟨isPeek', rfl⟩, reads⟩ := reads
          have elseWord := Spans.next ended (Token.hasKind_keyword.1 isPeek.symm) (by simp)
          have room₁ := room.precedes c.precedes_advance
          cases isIf with
          | true =>
              simp only [if_true, reads_bind, reads_advance, reads_pure] at reads
              obtain ⟨_, _, rfl, clause, c₂, readsClause, others, c₃, readsRest, rfl, rfl⟩ := reads
              have ifWord := Spans.next elseWord.ended (Token.hasKind_keyword.1 isPeek'.symm) (by simp)
              have room₂ := room₁.precedes c.advance.precedes_advance
              obtain ⟨w₁, spans₁, clauseDerives⟩ :=
                guardedBlock_sound sound room₂ ifWord.ended readsClause
              obtain ⟨w₂, spans₂, derives⟩ :=
                inductionHypothesis (room₂.reads readsClause) spans₁.ended readsRest
              exact ⟨_, ((elseWord.append ifWord).append spans₁).append spans₂,
                .elseIf clauseDerives derives⟩
          | false =>
              simp only [if_false, Bool.false_eq_true, reads_bind, reads_expectSymbol,
                reads_pure] at reads
              obtain ⟨_, _, ⟨isOpen, rfl⟩, body, c₂, readsBody, rfl, rfl⟩ := reads
              obtain ⟨w₁, spans₁, derives⟩ := braced_sound sound room₁ elseWord.ended isOpen readsBody
              exact ⟨_, elseWord.append spans₁, .elseBlock derives⟩

theorem forLoop_sound {e : Expr} (sound : sub.Sound n) (room : Room (n + 1) c) (ended : Ended c.ahead)
    (reads : (forLoop sub).Reads c e c') :
    ∃ ws, Spans c.ahead ws c' ∧ Derives (.expression .call e) (.keyword .forWord :: ws) := by
  simp only [forLoop, reads_bind, reads_advance, reads_expectSymbol, reads_pure] at reads
  obtain ⟨_, _, ⟨isOpen, rfl⟩, _, _, rfl, start, c₁, readsStart, _, _, ⟨isSemicolon, rfl⟩, _, _, rfl,
    condition, c₂, readsCondition, _, _, ⟨isSemicolon', rfl⟩, _, _, rfl, step, c₃, readsStep,
    _, _, ⟨isClose, rfl⟩, _, _, ⟨isBrace, rfl⟩, body, c₄, readsBody, rfl, rfl⟩ := reads
  have opening := Spans.next ended (Token.hasKind_symbol.1 isOpen) (by simp)
  have room₁ := (room.behind ended).precedes c.advance.precedes_advance
  obtain ⟨w₁, spans₁, startDerives⟩ := simpleStatement_sound sound room₁ readsStart
  have isNext₁ := Token.hasKind_symbol.1 isSemicolon
  have semicolon₁ := Spans.next spans₁.ended isNext₁ (by simp)
  have room₂ := ((room₁.reads readsStart).precedes c₁.precedes_advance).precedes
    c₁.advance.precedes_advance
  obtain ⟨w₂, spans₂, conditionDerives, _⟩ := sound.behind room₂ semicolon₁.ended readsCondition
  have semicolon₂ := Spans.next spans₂.ended (Token.hasKind_symbol.1 isSemicolon') (by simp)
  have room₃ := ((room₂.reads readsCondition).precedes c₂.precedes_advance).precedes
    c₂.advance.precedes_advance
  obtain ⟨w₃, spans₃, stepDerives⟩ := simpleStatement_sound sound room₃ readsStep
  have isNext₃ := Token.hasKind_symbol.1 isClose
  have closing := Spans.next spans₃.ended isNext₃ (by simp)
  have room₄ := ((room₃.reads readsStep).precedes c₃.precedes_advance).mono (Nat.le_succ n)
  obtain ⟨w₄, spans₄, bodyDerives⟩ := braced_sound sound room₄ closing.ended isBrace readsBody
  rw [isNext₁] at startDerives
  rw [isNext₃] at stepDerives
  refine ⟨_, ?_, .forLoop startDerives conditionDerives stepDerives bodyDerives⟩
  have head := (opening.append (Spans.behind opening.ended spans₁)).append semicolon₁
  have middle := (head.append spans₂).append semicolon₂
  have last := ((middle.append (Spans.behind semicolon₂.ended spans₃)).append closing).append spans₄
  simpa using last

/-- The cursor ends at the token that closes the case. -/
theorem caseBody_sound {body : Block} (sound : sub.Sound n) (room : Room (n + 1) c) (ended : Ended c.ahead)
    (reads : (caseBody sub).Reads c body c') :
    ∃ ws, c.ahead = .symbol .colon :: ws ++ c'.words ∧ Derives (.statements c'.current.lexeme body) ws := by
  simp only [caseBody, reads_bind, reads_advance, reads_expectSymbol] at reads
  obtain ⟨_, _, ⟨isColon, rfl⟩, _, _, rfl, reads⟩ := reads
  have colon := Spans.next ended (Token.hasKind_symbol.1 isColon) (by simp)
  have room₁ := (room.behind ended).precedes c.advance.precedes_advance
  obtain ⟨ws, words, derives, _⟩ := statementsUntil_sound sound _ _ room₁ reads
  rw [Cursor.advance_words colon.ended.nonempty] at words
  refine ⟨ws, ?_, derives⟩
  rw [colon.words, words]
  simp

/-- The cursor ends at the closing brace. -/
theorem switchCases_sound (sound : sub.Sound n) (rounds : Nat) : ∀ {c found c'}, Room (n + 1) c →
    (switchCases sub rounds).Reads c found c' →
    ∃ ws, c.words = ws ++ c'.words ∧ c'.current.lexeme = .symbol .rightCurly ∧
      Derives (.cases found.1 found.2) ws := by
  induction rounds with
  | zero =>
      intro c found c' _ reads
      exact absurd reads reads_drop
  | succ rounds inductionHypothesis =>
      intro c found c' room reads
      simp only [switchCases, reads_bind, reads_current] at reads
      obtain ⟨_, c, ⟨rfl, rfl⟩, reads⟩ := reads
      split at reads
      · rename_i isCase
        simp only [reads_bind, reads_advance, reads_pure] at reads
        obtain ⟨_, _, rfl, value, c₁, readsValue, body, c₂, readsBody, others, c₃, readsRest, rfl, rfl⟩ := reads
        have ended := room.1.ahead (by simp [isCase])
        have room₁ := room.behind ended
        obtain ⟨w₁, spans₁, valueDerives, _⟩ := sound.behind room₁ ended readsValue
        have room₂ := (room₁.reads readsValue).mono (Nat.le_succ n)
        obtain ⟨w₂, words₂, bodyDerives⟩ := caseBody_sound sound room₂ spans₁.ended readsBody
        obtain ⟨w₃, words₃, isBrace, derives⟩ := inductionHypothesis (room₂.reads readsBody) readsRest
        have isNext : c₂.current.lexeme = w₃.headD (.symbol .rightCurly) := by
          cases w₃ with
          | nil =>
              rw [List.nil_append] at words₃
              exact (List.cons.inj words₃).1.trans isBrace
          | cons w ws => exact (List.cons.inj words₃).1
        rw [isNext] at bodyDerives
        refine ⟨_, ?_, isBrace, .moreCases valueDerives bodyDerives derives⟩
        rw [Cursor.words, isCase, spans₁.words, words₂, words₃]
        simp
      · rename_i isDefault
        simp only [reads_bind, reads_current] at reads
        obtain ⟨body, c₁, readsBody, _, _, ⟨rfl, rfl⟩, reads⟩ := reads
        split at reads
        · rename_i isBrace
          obtain ⟨rfl, rfl⟩ := reads_pure.1 reads
          have isBrace := Token.hasKind_symbol.1 isBrace
          have ended := room.1.ahead (by simp [isDefault])
          obtain ⟨ws, words, derives⟩ := caseBody_sound sound room ended readsBody
          rw [isBrace] at derives
          refine ⟨_, ?_, isBrace, .defaultCase derives⟩
          rw [Cursor.words, isDefault, words]
          rfl
        · exact absurd reads reads_unexpected
      · rename_i isBrace
        obtain ⟨rfl, rfl⟩ := reads_pure.1 reads
        exact ⟨[], rfl, isBrace, .noCase⟩
      · exact absurd reads reads_unexpected

theorem switch_sound {e : Expr} (sound : sub.Sound n) (room : Room (n + 1) c) (ended : Ended c.ahead)
    (reads : (switch sub).Reads c e c') :
    ∃ ws, Spans c.ahead ws c' ∧ Derives (.expression .call e) (.keyword .switchWord :: ws) := by
  simp only [switch, reads_bind, reads_advance, reads_expectSymbol] at reads
  obtain ⟨_, _, rfl, subject, c₁, readsSubject, _, _, ⟨isOpen, rfl⟩, _, _, rfl, ⟨cases, otherwise⟩, c₂,
    readsCases, reads⟩ := reads
  have room₁ := room.behind ended
  obtain ⟨w₁, spans₁, subjectDerives, _⟩ := sound.behind room₁ ended readsSubject
  have opening := Spans.next spans₁.ended (Token.hasKind_symbol.1 isOpen) (by simp)
  have room₂ := (((room₁.reads readsSubject).precedes c₁.precedes_advance).precedes
    c₁.advance.precedes_advance).mono (Nat.le_succ n)
  obtain ⟨w₂, words, isBrace, derives⟩ := switchCases_sound sound sub.rounds room₂ readsCases
  have inner := Spans.behind opening.ended (Spans.closed room₂.1 words (by simp [isBrace]))
  cases cases with
  | nil =>
      simp only [List.isEmpty_nil, if_true, reads_bind, reads_report, and_false, exists_false] at reads
  | cons first others =>
      simp only [List.isEmpty_cons, Bool.false_eq_true, if_false, reads_pure] at reads
      obtain ⟨rfl, rfl⟩ := reads
      refine ⟨_, ?_, .switch subjectDerives derives⟩
      rw [isBrace] at inner
      simpa using (spans₁.append opening).append inner

theorem paramsAndBody_sound {found : List String × Block} (sound : sub.Sound n) (room : Room (n + 1) c)
    (ended : Ended c.ahead) (reads : (paramsAndBody sub).Reads c found c') :
    ∃ ws, Spans c.ahead (.symbol .leftParen :: separatedNames found.1 ++ .symbol .rightParen :: ws) c' ∧
      Derives (.block found.2) ws := by
  simp only [paramsAndBody, reads_bind, reads_expectSymbol, reads_pure] at reads
  obtain ⟨_, _, ⟨isOpen, rfl⟩, params, c₁, readsParams, _, _, ⟨isBrace, rfl⟩, body, c₂, readsBody, rfl,
    rfl⟩ := reads
  have opening := Spans.next ended (Token.hasKind_symbol.1 isOpen) (by simp)
  have room₁ := room.precedes c.precedes_advance
  obtain ⟨named, rfl, each, spans₁⟩ :=
    items_sound identifier_sound (room₁.precedes c.advance.precedes_advance) opening.ended readsParams
  have room₂ := room₁.reads readsParams
  obtain ⟨ws, spans₂, derives⟩ := braced_sound sound room₂ spans₁.ended isBrace readsBody
  refine ⟨ws, ?_, derives⟩
  have names : separatedNames (named.map Prod.fst) = separated (named.map Prod.snd) := by
    rw [separatedNames, List.map_map]
    exact congrArg separated (List.map_congr_left fun one member => (each one member).symm)
  rw [names]
  simpa using (opening.append spans₁).append spans₂

/-!
### Expressions
-/

theorem parenthesised_sound {e : Expr} (sound : sub.Sound n) (room : Room (n + 1) c) (ended : Ended c.ahead)
    (reads : (parenthesised sub).Reads c e c') :
    ∃ ws, Spans c.ahead ws c' ∧ Derives (.expression .call e) (.symbol .leftParen :: ws) := by
  simp only [parenthesised, reads_bind, reads_advance, reads_expectSymbol, reads_pure] at reads
  obtain ⟨_, _, rfl, e, c₁, readsInner, _, _, ⟨isClose, rfl⟩, rfl, rfl⟩ := reads
  obtain ⟨ws, spans, derives, _⟩ := sound.behind (room.behind ended) ended readsInner
  have closing := Spans.next spans.ended (Token.hasKind_symbol.1 isClose) (by simp)
  exact ⟨_, spans.append closing, .parenthesised derives⟩

/-- Expressions with commas between them, up to a closing symbol. -/
theorem expressions_sound {close : Symbol} {es : List Expr} (sound : sub.Sound n) (room : Room (n + 1) c)
    (ended : Ended c.ahead) (reads : (items (sub.expression .lowest) sub.rounds close).Reads c es c') :
    ∃ found : List (Expr × List Lexeme), es = found.map Prod.fst ∧
      (∀ one ∈ found, Derives (.expression .logical one.1) one.2) ∧
      Spans c.ahead (separated (found.map Prod.snd) ++ [.symbol close]) c' := by
  have expression : ∀ {c e c'}, Room n c → (sub.expression .lowest).Reads c e c' →
      ∃ ws, Spans c.words ws c' ∧ Derives (.expression .logical e) ws := by
    intro c e c' room reads
    obtain ⟨ws, spans, derives, _⟩ := sound.derives room reads
    exact ⟨ws, spans, derives⟩
  exact items_sound expression (room.behind ended) ended reads

/-- The words up to `c'` are an expression that can be an operand, and that can stand before what follows. -/
def OperandSpans (c : Cursor) (e : Expr) (c' : Cursor) : Prop :=
  ∃ grade ws, Spans c.words ws c' ∧ Derives (.expression grade e) ws ∧
    Level.unary.rank ≤ grade.rank ∧ grade.admits c'.peek.lexeme.level = true

/-- Anything can follow a primary expression. -/
theorem OperandSpans.primary {e : Expr} {w : Lexeme} (isFirst : c.current.lexeme = w)
    (rest : ∃ ws, Spans c.ahead ws c' ∧ Derives (.expression .call e) (w :: ws)) : OperandSpans c e c' := by
  obtain ⟨ws, spans, derives⟩ := rest
  refine ⟨.call, w :: ws, isFirst ▸ spans.current, derives, by decide, ?_⟩
  cases c'.peek.lexeme.level <;> rfl

theorem OperandSpans.word {e a : Expr} {w : Lexeme} (isFirst : c.current.lexeme = w)
    (ended : Ended c.ahead) (derives : Derives (.expression .call a) [w])
    (reads : (pure a : Parse Expr).Reads c e c') : OperandSpans c e c' := by
  obtain ⟨rfl, rfl⟩ := reads_pure.1 reads
  exact .primary isFirst ⟨[], Spans.none ended, derives⟩

theorem unary_sound (op : UnaryOp) {e : Expr} (sound : sub.Sound n) (room : Room (n + 1) c)
    (isOperator : c.current.lexeme = .symbol op.symbol) (reads : (unary sub op).Reads c e c') :
    OperandSpans c e c' := by
  simp only [unary, reads_bind, reads_advance, reads_pure] at reads
  obtain ⟨_, _, rfl, operand, c₁, readsOperand, rfl, rfl⟩ := reads
  have ended := room.1.ahead (by simp [isOperator])
  obtain ⟨ws, spans, derives, stops⟩ := sound.derives (room.behind ended) readsOperand
  have spans₁ := (Spans.behind ended spans).current
  rw [isOperator] at spans₁
  refine ⟨.unary, _, spans₁, .unary op derives, Nat.le_refl _, ?_⟩
  simpa [Level.admits, Level.looser] using stops

theorem operand_sound {e : Expr} (sound : sub.Sound n) (room : Room (n + 1) c)
    (reads : (operand sub).Reads c e c') : OperandSpans c e c' := by
  simp only [operand, reads_bind, reads_current] at reads
  obtain ⟨_, c, ⟨rfl, rfl⟩, reads⟩ := reads
  have ended : ∀ {w : Lexeme}, c.current.lexeme = w → w ≠ .endOfText → Ended c.ahead :=
    fun isFirst more => room.1.ahead (isFirst ▸ more)
  split at reads
  · rename_i isFirst
    exact .word isFirst (ended isFirst (by simp)) (.ident _) reads
  · rename_i isFirst
    split at reads
    · rename_i spelled
      exact .word isFirst (ended isFirst (by simp)) (.integer spelled) reads
    · exact absurd reads reads_report
  · rename_i isFirst
    split at reads
    · rename_i spelled
      exact .word isFirst (ended isFirst (by simp)) (.float spelled) reads
    · exact absurd reads reads_report
  · rename_i isFirst
    exact .word isFirst (ended isFirst (by simp)) (.text _) reads
  · rename_i isFirst
    exact .word isFirst (ended isFirst (by simp)) .trueWord reads
  · rename_i isFirst
    exact .word isFirst (ended isFirst (by simp)) .falseWord reads
  · rename_i isFirst
    exact .word isFirst (ended isFirst (by simp)) .null reads
  · rename_i isFirst
    exact unary_sound .not sound room isFirst reads
  · rename_i isFirst
    exact unary_sound .negate sound room isFirst reads
  · rename_i isFirst
    exact .primary isFirst (parenthesised_sound sound room (ended isFirst (by simp)) reads)
  · rename_i isFirst
    simp only [reads_bind, reads_pure] at reads
    obtain ⟨elements, c₁, readsItems, rfl, rfl⟩ := reads
    obtain ⟨found, rfl, each, spans⟩ := expressions_sound sound room (ended isFirst (by simp)) readsItems
    exact .primary isFirst ⟨_, spans, .array each⟩
  · rename_i isFirst
    simp only [reads_bind, reads_pure] at reads
    obtain ⟨entries, c₁, readsEntries, rfl, rfl⟩ := reads
    obtain ⟨ws, spans, derives⟩ := hashEntries_sound sound _ room (ended isFirst (by simp)) readsEntries
    exact .primary isFirst ⟨_, spans, .hash derives⟩
  · rename_i isFirst
    simp only [conditional, reads_bind, reads_pure] at reads
    obtain ⟨clause, c₁, readsClause, others, c₂, readsElse, rfl, rfl⟩ := reads
    obtain ⟨w₁, spans₁, clauseDerives⟩ := guardedBlock_sound sound room (ended isFirst (by simp)) readsClause
    obtain ⟨w₂, spans₂, derives⟩ :=
      elseClauses_sound sound _ (room.reads readsClause) spans₁.ended readsElse
    exact .primary isFirst ⟨_, spans₁.append spans₂, .conditional clauseDerives derives⟩
  · rename_i isFirst
    exact .primary isFirst (switch_sound sound room (ended isFirst (by simp)) reads)
  · rename_i isFirst
    simp only [whileLoop, reads_bind, reads_pure] at reads
    obtain ⟨clause, c₁, readsClause, rfl, rfl⟩ := reads
    obtain ⟨ws, spans, derives⟩ := guardedBlock_sound sound room (ended isFirst (by simp)) readsClause
    exact .primary isFirst ⟨_, spans, .whileLoop derives⟩
  · rename_i isFirst
    exact .primary isFirst (forLoop_sound sound room (ended isFirst (by simp)) reads)
  · rename_i isFirst
    simp only [reads_bind, reads_pure] at reads
    obtain ⟨found, c₁, readsParts, rfl, rfl⟩ := reads
    obtain ⟨ws, spans, derives⟩ := paramsAndBody_sound sound room (ended isFirst (by simp)) readsParts
    exact .primary isFirst ⟨_, spans, .function derives⟩
  · rename_i isFirst
    simp only [reads_bind, reads_pure] at reads
    obtain ⟨found, c₁, readsParts, rfl, rfl⟩ := reads
    obtain ⟨ws, spans, derives⟩ := paramsAndBody_sound sound room (ended isFirst (by simp)) readsParts
    exact .primary isFirst ⟨_, spans, .macroLiteral derives⟩
  · exact absurd reads reads_report
  · exact absurd reads reads_report

/-- The current token is the symbol that continues the expression `left`, which spans `ws`. -/
theorem continuation_sound {left e : Expr} {position : Position} {s : Symbol} {grade : Level}
    {ws : List Lexeme} (sound : sub.Sound n) (room : Room (n + 1) c) (ended : Ended c.ahead)
    (leftDerives : Derives (.expression grade left) ws) (admits : grade.admits s.level = true)
    (reads : (continuation sub left position s).Reads c e c') :
    ∃ grade' vs, Spans c.ahead vs c' ∧ Derives (.expression grade' e) (ws ++ .symbol s :: vs) ∧
      s.level.rank ≤ grade'.rank ∧ grade'.admits c'.peek.lexeme.level = true := by
  have tightest : ∀ {s : Symbol}, s.level = .call → grade.admits s.level = true →
      Derives (.expression .call left) ws := by
    intro s isTightest admits
    rw [isTightest] at admits
    have isCall : grade = .call := by cases grade <;> first | rfl | contradiction
    exact isCall ▸ leftDerives
  have anything : ∀ level : Level, Level.call.admits level = true := by
    intro level
    cases level <;> rfl
  unfold continuation at reads
  split at reads
  · simp only [reads_bind, reads_pure] at reads
    obtain ⟨args, c₁, readsArgs, rfl, rfl⟩ := reads
    obtain ⟨found, rfl, each, spans⟩ := expressions_sound sound room ended readsArgs
    refine ⟨.call, _, spans, ?_, Nat.le_refl _, anything _⟩
    simpa using Derives.call (tightest (s := .leftParen) rfl admits) each
  · simp only [reads_bind, reads_advance, reads_expectSymbol, reads_pure] at reads
    obtain ⟨_, _, rfl, key, c₁, readsKey, _, _, ⟨isClose, rfl⟩, rfl, rfl⟩ := reads
    obtain ⟨vs, spans, keyDerives, _⟩ := sound.behind (room.behind ended) ended readsKey
    have closing := Spans.next spans.ended (Token.hasKind_symbol.1 isClose) (by simp)
    refine ⟨.call, _, spans.append closing, ?_, Nat.le_refl _, anything _⟩
    simpa using Derives.index (tightest (s := .leftBracket) rfl admits) keyDerives
  · split at reads
    · exact absurd reads reads_report
    · rename_i op _ isBinary
      simp only [reads_bind, reads_advance, reads_pure] at reads
      obtain ⟨_, _, rfl, right, c₁, readsRight, rfl, rfl⟩ := reads
      obtain ⟨vs, spans, rightDerives, stops⟩ := sound.derives (room.behind ended) readsRight
      obtain ⟨isSymbol, isLevel⟩ := Symbol.level_of_binary isBinary
      rw [isLevel] at admits ⊢
      rw [op.rightLevel_above] at rightDerives
      rw [isSymbol]
      have leftTight : Derives (.expression op.leftGrade left) ws :=
        .looser (BinaryOp.leftGrade_rank_le admits) leftDerives
      exact ⟨op.level, vs, Spans.behind ended spans, .binary op leftTight rightDerives, Nat.le_refl _,
        BinaryOp.level_admits stops⟩
    · exact absurd reads reads_drop

/-- The invariant of the loop: what was read so far is an expression of some grade, tight enough for the
    level, that can stand before the symbol that follows. -/
theorem extend_sound (sound : sub.Sound n) (level : Level) (rounds : Nat) :
    ∀ {c left e c' grade ws}, Room (n + 1) c → Ended c.ahead → Derives (.expression grade left) ws →
    level.above.rank ≤ grade.rank → grade.admits c.peek.lexeme.level = true →
    (extend sub level rounds left).Reads c e c' →
    ∃ vs, Spans c.ahead vs c' ∧ Derives (.expression level.above e) (ws ++ vs) ∧
      level.looser c'.peek.lexeme.level = false := by
  induction rounds with
  | zero =>
      intro c left e c' grade ws _ _ _ _ _ reads
      exact absurd reads reads_drop
  | succ rounds inductionHypothesis =>
      intro c left e c' grade ws room ended derives tight admits reads
      simp only [extend, reads_bind, reads_peek] at reads
      obtain ⟨_, c, ⟨rfl, rfl⟩, reads⟩ := reads
      split at reads
      · rename_i looser
        obtain ⟨s, isSymbol, _⟩ := Lexeme.symbol_of_looser looser
        simp only [reads_bind, reads_advance] at reads
        obtain ⟨_, _, rfl, reads⟩ := reads
        rw [isSymbol] at reads admits looser
        simp only [reads_bind] at reads
        obtain ⟨longer, c₁, readsLonger, readsRest⟩ := reads
        have next := Spans.next ended isSymbol (by simp)
        have room₁ := room.precedes c.precedes_advance
        obtain ⟨grade', vs, spans, longerDerives, tight', admits'⟩ :=
          continuation_sound sound room₁ next.ended derives admits readsLonger
        have tighter : level.above.rank ≤ grade'.rank :=
          Nat.le_trans (Level.above_rank_le looser) tight'
        obtain ⟨more, spans', wholeDerives, stops⟩ := inductionHypothesis (room₁.reads readsLonger)
          spans.ended longerDerives tighter admits' readsRest
        refine ⟨_, (next.append spans).append spans', ?_, stops⟩
        simpa using wholeDerives
      · rename_i stops
        obtain ⟨rfl, rfl⟩ := reads_pure.1 reads
        refine ⟨[], Spans.none ended, ?_, Bool.eq_false_iff.2 stops⟩
        rw [List.append_nil]
        exact .looser tight derives

/-- Expressions are sound if the bounds are as large as the number of words left. -/
theorem expression_sound (rounds depth : Nat) : ∀ {k}, k ≤ depth → k < rounds →
    Sub.Sound k ⟨expression rounds depth, rounds⟩ := by
  induction depth with
  | zero =>
      intro k small short
      refine ⟨⟨expression_settles rounds 0 small (Nat.le_of_lt short), short⟩, ?_⟩
      intro level c e c' room
      exact absurd (Nat.le_zero.1 small) room.pos
  | succ depth inductionHypothesis =>
      intro k small short
      refine ⟨⟨expression_settles rounds (depth + 1) small (Nat.le_of_lt short), short⟩, ?_⟩
      intro level c e c' room reads
      obtain ⟨n, rfl⟩ := Nat.exists_eq_succ_of_ne_zero room.pos
      have sound := inductionHypothesis (Nat.le_of_succ_le_succ small) (Nat.lt_of_succ_lt short)
      change Reads (operand ⟨expression rounds depth, rounds⟩ >>= _) c e c' at reads
      obtain ⟨left, c₁, readsLeft, readsRest⟩ := reads_bind.1 reads
      obtain ⟨grade, ws, spans, derives, tight, admits⟩ := operand_sound sound room readsLeft
      have enough := Nat.le_trans level.above_rank_le_unary tight
      obtain ⟨vs, spans', wholeDerives, stops⟩ :=
        extend_sound sound level rounds (room.reads readsLeft) spans.ended derives enough admits readsRest
      exact ⟨_, spans.append spans', wholeDerives, stops⟩

/-!
### Whole texts
-/

/-- The reader of a text of `n` tokens. -/
def programReader (n : Nat) : Parse (List Stmt) :=
  statementsUntil ⟨expression (n + 1) (n + 1), n + 1⟩ (· = .endOfText) (n + 1)

theorem ofTokens_words {tokens : List Token} (ended : Ended (tokens.map Token.lexeme)) :
    (Cursor.ofTokens tokens).words = tokens.map Token.lexeme := by
  cases tokens with
  | nil => exact ended.elim
  | cons token rest => rfl

theorem ofTokens_room {tokens : List Token} (ended : Ended (tokens.map Token.lexeme)) :
    Room tokens.length (Cursor.ofTokens tokens) := by
  constructor
  · rwa [ofTokens_words ended]
  · simp [ofTokens_words ended]

/-- Reading a text gives a program without diagnostics just when its reader reads all of it; nothing is
    dropped, because the reader settles. -/
theorem parseTokens_eq_iff {tokens : List Token} {p : Program} (ended : Ended (tokens.map Token.lexeme)) :
    parseTokens tokens = ⟨p, []⟩ ↔
      ∃ c', (programReader tokens.length).Reads (Cursor.ofTokens tokens) p.statements c' := by
  have start : (Cursor.ofTokens tokens).diagnostics = [] := by cases tokens <;> rfl
  have settles : (programReader tokens.length).Settles (Cursor.ofTokens tokens) :=
    statementsUntil_settles _ _ (Nat.le_succ _) (ofTokens_room ended)
  have unfolded : parseTokens tokens =
      ⟨⟨((programReader tokens.length).run (Cursor.ofTokens tokens)).1.getD []⟩,
        ((programReader tokens.length).run (Cursor.ofTokens tokens)).2.diagnostics.reverse⟩ := rfl
  unfold Settles at settles
  unfold Reads
  rw [unfolded, start]
  rw [start] at settles
  rcases run : (programReader tokens.length).run (Cursor.ofTokens tokens) with ⟨ss?, c'⟩
  rw [run] at settles
  constructor
  · intro same
    obtain ⟨rfl, quiet⟩ := Parsed.mk.inj same
    have silent : c'.diagnostics = [] := List.reverse_eq_nil_iff.1 quiet
    obtain ⟨ss, rfl⟩ := settles silent
    exact ⟨c', rfl, silent⟩
  · rintro ⟨c'', same, silent⟩
    cases same
    simp [silent]

/-- What is read without a diagnostic derives its words. -/
theorem parseTokens_sound {tokens : List Token} {p : Program} (ended : Ended (tokens.map Token.lexeme))
    (parsed : parseTokens tokens = ⟨p, []⟩) : Derives (.program p) (tokens.map Token.lexeme) := by
  obtain ⟨c', reads⟩ := (parseTokens_eq_iff ended).1 parsed
  have sound := expression_sound (tokens.length + 1) (tokens.length + 1) (Nat.le_succ tokens.length)
    (Nat.lt_succ_self tokens.length)
  obtain ⟨ws, split, derives, isClosed⟩ := statementsUntil_sound sound _ _ (ofTokens_room ended) reads
  rw [ofTokens_words ended] at split
  have isLast : c'.current.lexeme = .endOfText := Token.hasKind_endOfText.1 isClosed
  have isEmpty : c'.ahead = [] := by
    have last := ended.suffix ⟨ws, split.symm⟩ c'.words_ne_nil
    simpa [Cursor.words, Ended, isLast] using last
  rw [isLast] at derives
  rw [split, Cursor.words, isLast, isEmpty]
  exact .program derives

end Parser

end Quill
