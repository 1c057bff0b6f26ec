/-
Module: Quill.Proofs.Juxtaposition
Layer: Proofs
Purpose: Two texts with a semicolon on a line of its own between them. If both can be read, so can the whole, as
  the statements of the first text and then those of the second. The line feed ends a comment and every lexeme of
  the first text but a quotation that is never closed, which no program has; so the whole splits into the words of
  the first, a semicolon and the words of the second. Wherever the grammar looks ahead to the end of a text, a
  semicolon serves as well.
Main exports: Splits.before_lineFeed, Derives.legal, Derives.before_semicolon, juxtaposed, juxtaposed_derives,
  parse_juxtaposed
-/
import Quill.Proofs.Layout
import Quill.Proofs.Parsing

namespace Quill

/-!
### Words in front of a line feed
-/

/-- Lexemes that a program can have. -/
def Lexeme.legal : Lexeme → Bool
  | illegal _ => false
  | _ => true

/-- No symbol has a line feed in it, so none begins differently if a line feed follows. -/
theorem Symbol.leading?_before_lineFeed (text tail : List Char) :
    leading? (text ++ '\n' :: tail) = leading? text := by
  have same : ∀ s : Symbol, s.chars.isPrefixOf (text ++ '\n' :: tail) = s.chars.isPrefixOf text := by
    intro s
    have noLineFeed : '\n' ∉ s.chars := by cases s <;> decide
    rw [Bool.eq_iff_iff, List.isPrefixOf_iff_prefix, List.isPrefixOf_iff_prefix]
    constructor
    · intro isPrefix
      rcases List.prefix_or_prefix_of_prefix isPrefix (List.prefix_append text _) with inside | ⟨more, longer⟩
      · exact inside
      · rw [← longer] at isPrefix noLineFeed ⊢
        rw [List.prefix_append_right_inj] at isPrefix
        cases more with
        | nil => simp
        | cons d ds => simp [(List.cons_prefix_cons.1 isPrefix).1] at noLineFeed
    · exact fun inside => inside.trans (List.prefix_append text _)
  simp only [leading?, same]

namespace Lexer

variable {c : Char} {text : List Char}

/-- Layout in front of a line feed ends there, if not before: no comment goes on behind it. -/
theorem skipLayout_before_lineFeed (tail text : List Char) : ∀ (inComment : Bool) (p : Position),
    (skipLayout inComment p (text ++ '\n' :: tail)).rest =
      match (skipLayout inComment p text).rest with
      | [] => behindLayout tail
      | c :: rest => c :: (rest ++ '\n' :: tail) := by
  induction text with
  | nil =>
      intro inComment p
      cases inComment <;> exact skipLayout_rest tail false _ _
  | cons d ds inductionHypothesis =>
      intro inComment p
      simp only [List.cons_append, skipLayout]
      split
      · split
        · exact inductionHypothesis _ _
        · exact inductionHypothesis _ _
      · split
        · exact inductionHypothesis _ _
        · split
          · exact inductionHypothesis _ _
          · rfl

theorem run_before_lineFeed {p : Char → Bool} (stops : p '\n' = false) (text tail : List Char) :
    (text ++ '\n' :: tail).takeWhile p = text.takeWhile p ∧
      (text ++ '\n' :: tail).dropWhile p = text.dropWhile p ++ '\n' :: tail := by
  induction text with
  | nil => simp [stops]
  | cons d ds inductionHypothesis =>
      by_cases inside : p d = true
      · simp [inside, inductionHypothesis]
      · simp [inside]

/-- A quotation that is closed ends at its closing quote, whatever follows. -/
theorem quotedLexeme_append (closed : (quotedLexeme text).1.legal = true) (tail : List Char) :
    quotedLexeme (text ++ tail) = ((quotedLexeme text).1, (quotedLexeme text).2 ++ tail) := by
  unfold quotedLexeme at closed ⊢
  cases dropped : text.dropWhile (· ≠ '"') with
  | nil =>
      rw [dropped] at closed
      cases closed
  | cons quote rest =>
      have whole := congrArg List.length (List.takeWhile_append_dropWhile (p := (· ≠ '"')) (l := text))
      rw [dropped, List.length_append, List.length_cons] at whole
      have shorter : (text.takeWhile (· ≠ '"')).length ≠ text.length := by omega
      rw [List.takeWhile_append, List.dropWhile_append, if_neg shorter, dropped]
      rfl

/-- A lexeme of a program is found again if more text follows behind a line feed. -/
theorem lexeme_before_lineFeed (legal : (lexeme c text).1.legal = true) (tail : List Char) :
    lexeme c (text ++ '\n' :: tail) = ((lexeme c text).1, (lexeme c text).2 ++ '\n' :: tail) := by
  have leads : Symbol.leading? (c :: (text ++ '\n' :: tail)) = Symbol.leading? (c :: text) :=
    Symbol.leading?_before_lineFeed (c :: text) tail
  unfold lexeme at legal ⊢
  split
  · rename_i isQuote
    rw [if_pos isQuote] at legal
    exact quotedLexeme_append legal _
  · split
    · obtain ⟨taken, dropped⟩ := run_before_lineFeed (p := isNumberChar) rfl text tail
      rw [taken, dropped]
    · split
      · obtain ⟨taken, dropped⟩ := run_before_lineFeed (p := isNameChar) rfl text tail
        rw [taken, dropped]
      · rw [leads]
        cases found : Symbol.leading? (c :: text) with
        | none => rfl
        | some s =>
            unfold Symbol.leading? at found
            have fits := List.find?_some found
            have short := (List.isPrefixOf_iff_prefix.1 fits).length_le
            rw [List.length_cons] at short
            have within : s.chars.length - 1 ≤ text.length := by omega
            simp only [List.drop_append_of_le_length within]

end Lexer

open Lexer

namespace Splits

variable {text tail : List Char} {words others : List Lexeme}

/-- How a text splits is decided behind the layout at its front. -/
theorem of_behindLayout {text' : List Char} (splits : Splits text words)
    (same : behindLayout text' = behindLayout text) : Splits text' words := by
  cases splits with
  | done isEnd => exact .done (same.trans isEnd)
  | more isNext rest => exact .more (same.trans isNext) rest

/-- A text and another one behind a line feed split into the words of both. The induction is on the words of the
    first text, the end of which gives way to the second. -/
theorem before_lineFeed (splits : Splits text (words ++ [.endOfText])) (legal : AllWords Lexeme.legal words)
    (behind : Splits tail others) : Splits (text ++ '\n' :: tail) (words ++ others) := by
  generalize whole : words ++ [.endOfText] = all at splits
  induction splits generalizing words with
  | @done text isEnd =>
      obtain rfl : words = [] := by simpa using whole
      apply behind.of_behindLayout
      have skips := skipLayout_before_lineFeed tail text false Position.start
      rwa [show (skipLayout false Position.start text).rest = [] from isEnd] at skips
  | @more text rest c found isNext _ inductionHypothesis =>
      cases words with
      | nil =>
          have isEnd := (List.cons.inj whole).1
          exact absurd isEnd.symm (lexeme_ne_endOfText c rest)
      | cons w ws =>
          obtain ⟨isFirst, isRest⟩ := List.cons.inj whole
          obtain ⟨legalFirst, legalRest⟩ := AllWords.cons.1 legal
          rw [isFirst] at legalFirst ⊢
          have again := lexeme_before_lineFeed legalFirst tail
          have skips := skipLayout_before_lineFeed tail text false Position.start
          rw [show (skipLayout false Position.start text).rest = c :: rest from isNext] at skips
          have onward : Splits (lexeme c (rest ++ '\n' :: tail)).2 (ws ++ others) := by
            rw [again]
            exact inductionHypothesis legalRest isRest
          have joined := Splits.more skips onward
          rwa [again] at joined

end Splits

/-!
### Statements in front of a semicolon
-/

/-- The grammar has no place for illegal lexemes. -/
theorem Derives.legal {phrase : Phrase} {ws : List Lexeme} (derives : Derives phrase ws) :
    AllWords Lexeme.legal ws := by
  have items : ∀ {items : List (Expr × List Lexeme)}, (∀ item ∈ items, AllWords Lexeme.legal item.2) →
      AllWords Lexeme.legal (separated (items.map Prod.snd)) := by
    intro items each
    exact (AllWords.separated rfl).2 (List.forall_mem_map.2 each)
  have names : ∀ names, AllWords Lexeme.legal (separatedNames names) := fun _ =>
    (AllWords.separatedNames rfl).2 fun _ _ => rfl
  induction derives with
  | array _ each => simp [Lexeme.legal, items each]
  | call _ _ callee each => simp [Lexeme.legal, callee, items each]
  | function _ body => simp [Lexeme.legal, names, body]
  | macroLiteral _ body => simp [Lexeme.legal, names, body]
  | _ => simp_all [Lexeme.legal]

namespace Derives

variable {s : Stmt} {ss others : List Stmt} {next : Lexeme} {ws vs : List Lexeme}

/-- A statement may end in front of a semicolon if it may end in front of the end of the text. -/
theorem closed_by_semicolon (derives : Derives (.statement .endOfText s) ws) :
    Derives (.statement (.symbol .semicolon) s) ws := by
  cases derives with
  | bind name _ value => exact .bind name rfl value
  | bindConst name _ value => exact .bindConst name rfl value
  | assign name _ value => exact .assign name rfl value
  | compound name isCompound _ value => exact .compound name isCompound rfl value
  | step name isStep => exact .step name isStep
  | ret _ value => exact .ret rfl value
  | retNull _ => exact .retNull rfl
  | expr _ value => exact .expr rfl value

theorem eq_nil_of_statements (derives : Derives (.statements next ss) []) : ss = [] := by
  generalize isEmpty : [] = ws at derives
  cases derives with
  | noStatements _ => rfl
  | semicolon _ => cases isEmpty
  | closed first _ => simp at isEmpty
  | unclosed _ first _ =>
      obtain ⟨w, rest, rfl, _⟩ := first.opensStatement
      cases isEmpty

/-- Statements up to the end of a text can be followed by a semicolon and other statements. -/
theorem before_semicolon (derives : Derives (.statements .endOfText ss) ws)
    (behind : Derives (.statements next others) vs) :
    Derives (.statements next (ss ++ others)) (ws ++ .symbol .semicolon :: vs) := by
  generalize isPhrase : Phrase.statements .endOfText ss = phrase at derives
  induction derives generalizing ss with
  | noStatements _ =>
      cases isPhrase
      exact .semicolon behind
  | semicolon _ inductionHypothesis =>
      cases isPhrase
      exact .semicolon (inductionHypothesis rfl)
  | closed first _ _ inductionHypothesis =>
      cases isPhrase
      rw [List.append_assoc]
      exact .closed first (inductionHypothesis rfl)
  | @unclosed _ s rest w₁ w₂ isOpen first others' _ inductionHypothesis =>
      cases isPhrase
      rw [List.append_assoc]
      cases w₂ with
      | nil =>
          rw [others'.eq_nil_of_statements]
          exact .closed (closed_by_semicolon first) behind
      | cons w w₂ => exact .unclosed isOpen first (inductionHypothesis rfl)
  | _ => cases isPhrase

end Derives

/-!
### Two texts
-/

/-- A text that can be read splits into words that derive its statements, and the end of the text. -/
theorem statements_of_readable {source : String} (readable : (parse source).diagnostics = []) :
    ∃ words, Splits source.toList (words ++ [.endOfText]) ∧
      Derives (.statements .endOfText (parse source).program.statements) words := by
  have parsed : parse source = ⟨(parse source).program, []⟩ := by rw [← readable]
  obtain ⟨_, splits, derives⟩ := splits_of_parse parsed
  generalize (parse source).program = p at derives
  cases derives with
  | program inner => exact ⟨_, splits, inner⟩

/-- With a semicolon on a line between them, two texts that can be read split into words that derive the
    statements of both. -/
theorem juxtaposed_derives {a b : String} (readableA : (parse a).diagnostics = [])
    (readableB : (parse b).diagnostics = []) :
    ∃ words, Splits (a ++ "\n;\n" ++ b).toList words ∧
      Derives (.program ⟨(parse a).program.statements ++ (parse b).program.statements⟩) words := by
  obtain ⟨wordsA, splitsA, derivesA⟩ := statements_of_readable readableA
  obtain ⟨wordsB, splitsB, derivesB⟩ := statements_of_readable readableB
  have chars : (a ++ "\n;\n" ++ b).toList = a.toList ++ '\n' :: (';' :: '\n' :: b.toList) := by simp
  have stops : ∀ d ∈ ('\n' :: b.toList).head?, (Lexeme.symbol .semicolon).stops d = true := by
    rintro d ⟨⟩
    rfl
  have behind : Splits (';' :: '\n' :: b.toList) (.symbol .semicolon :: (wordsB ++ [.endOfText])) :=
    Splits.front rfl (splitsB.blank rfl) stops
  refine ⟨wordsA ++ .symbol .semicolon :: (wordsB ++ [.endOfText]), ?_, ?_⟩
  · rw [chars]
    exact splitsA.before_lineFeed derivesA.legal behind
  · have program := Derives.program (derivesA.before_semicolon derivesB)
    rwa [List.append_assoc] at program

/-- Reading is compositional: with a semicolon on a line between them, two texts that can be read are read as the
    statements of the first and then those of the second. -/
theorem parse_juxtaposed {a b : String} (readableA : (parse a).diagnostics = [])
    (readableB : (parse b).diagnostics = []) :
    (parse (a ++ "\n;\n" ++ b)).diagnostics = [] ∧
      (parse (a ++ "\n;\n" ++ b)).program.statements =
        (parse a).program.statements ++ (parse b).program.statements := by
  obtain ⟨words, splits, derives⟩ := juxtaposed_derives readableA readableB
  rw [parse_of_splits splits derives]
  exact ⟨rfl, rfl⟩

/-- The first text ends within a comment, behind a `return` without a value that only the end of the text closes;
    the second one begins with an empty statement. -/
theorem parse_juxtaposed_after_comment :
    (parse "let m = macro(x) { x }; return # no value").diagnostics = [] ∧
      (parse ";(1); else_").diagnostics = [] ∧
        (parse ("let m = macro(x) { x }; return # no value" ++ "\n;\n" ++ ";(1); else_")).program.statements =
          [.bind "m" (.macroLiteral ["x"] [.expr (.ident "x")]), .ret .null, .expr (.integer 1),
            .expr (.ident "else_")] := by
  have readableA : (parse "let m = macro(x) { x }; return # no value").diagnostics = [] := by rfl
  have readableB : (parse ";(1); else_").diagnostics = [] := by rfl
  refine ⟨readableA, readableB, (parse_juxtaposed readableA readableB).2.trans ?_⟩
  rfl

end Quill
