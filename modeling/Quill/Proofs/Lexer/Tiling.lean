/-
Module: Quill.Proofs.Lexer.Tiling
Layer: Proofs
Purpose: Tokens tile the text. Between the lexemes of a text, as they are written, lie only blanks and comments;
  put together again they are the text, so that no character is lost and none is used twice. The position of a
  token is counted from the characters in front of it: one line for each line feed, and one column for each
  character since the last one. Behind the last lexeme the lexer stands at the end of the text for good.
Main exports: Position.behind, Layout, Tile, Lexer.call, Tiling, tiling_of_source
-/
import Quill.Proofs.Lexer.Front

namespace Quill

/-!
### Counting lines and columns
-/

namespace Position

/-- The number of the line behind some characters at the front of a text. -/
def lineBehind (before : List Char) : Nat :=
  1 + before.count '\n'

/-- The number of the column behind some characters at the front of a text. -/
def columnBehind (before : List Char) : Nat :=
  (before.reverse.takeWhile (· ≠ '\n')).length

/-- The place behind some characters at the front of a text, as far as the counters tell. -/
def behind (before : List Char) : Position :=
  ⟨.ofNat (lineBehind before), .ofNat (columnBehind before)⟩

/-- The counters hold the numbers of the line and the column behind some characters. -/
structure IsBehind (p : Position) (before : List Char) : Prop where
  line : p.line.toNat = lineBehind before
  column : p.column.toNat = columnBehind before

/-- The counters do not overflow at any place of a text: it has at most 2³² - 1 lines, and fewer than 2³² characters
    stand on each of them. -/
structure Fits (text : List Char) : Prop where
  lines : lineBehind text < UInt32.size
  columns : ∀ before, before <+: text → columnBehind before < UInt32.size

/-- The order of reading. -/
def Before (p q : Position) : Prop :=
  p.line < q.line ∨ p.line = q.line ∧ p.column < q.column

theorem lineBehind_append (before more : List Char) :
    lineBehind (before ++ more) = lineBehind before + more.count '\n' := by
  rw [lineBehind, List.count_append, ← Nat.add_assoc, lineBehind]

/-- As long as no line feed comes, each character is one column. -/
theorem columnBehind_append {more : List Char} (sameLine : '\n' ∉ more) (before : List Char) :
    columnBehind (before ++ more) = columnBehind before + more.length := by
  have whole : ∀ c ∈ more.reverse, (decide (c ≠ '\n')) = true := by
    intro c member
    exact decide_eq_true fun isLineFeed => sameLine (isLineFeed ▸ List.mem_reverse.1 member)
  rw [columnBehind, List.reverse_append, List.takeWhile_append_of_pos whole, List.length_append, List.length_reverse,
    columnBehind, Nat.add_comm]

theorem columnBehind_lineFeed (before : List Char) : columnBehind (before ++ ['\n']) = 0 := by
  simp [columnBehind]

theorem columnBehind_le (before : List Char) : columnBehind before ≤ before.length := by
  have taken := (List.takeWhile_prefix (l := before.reverse) (· ≠ '\n')).length_le
  rwa [List.length_reverse] at taken

theorem behind_advance (before : List Char) (c : Char) :
    (behind before).advance c = behind (before ++ [c]) := by
  by_cases isLineFeed : c = '\n'
  · subst isLineFeed
    rw [behind, behind, lineBehind_append, columnBehind_lineFeed, UInt32.ofNat_add]
    rfl
  · have sameLine : '\n' ∉ [c] := by simpa using Ne.symm isLineFeed
    rw [behind, behind, lineBehind_append, columnBehind_append sameLine, List.count_eq_zero.2 sameLine,
      UInt32.ofNat_add]
    simp [advance, isLineFeed]

/-- The lexer, which counts on from where it stands, counts as if from the start of the text. -/
theorem behind_after (more : List Char) : ∀ before : List Char,
    (behind before).after more = behind (before ++ more) := by
  induction more with
  | nil =>
      intro before
      simp [after]
  | cons c more inductionHypothesis =>
      intro before
      have counted := inductionHypothesis (before ++ [c])
      rw [← behind_advance, List.append_assoc] at counted
      exact counted

theorem after_start (text : List Char) : start.after text = behind text :=
  behind_after text []

/-- Every character moves the place on, if the counters hold the places. -/
theorem IsBehind.before {p q : Position} {front more : List Char} (first : p.IsBehind front)
    (second : q.IsBehind (front ++ more)) (nonempty : more ≠ []) : p.Before q := by
  rw [Before, UInt32.lt_iff_toNat_lt, UInt32.lt_iff_toNat_lt, ← UInt32.toNat_inj, first.line, first.column, second.line,
    second.column, lineBehind_append]
  by_cases lineFeed : '\n' ∈ more
  · have counted : 0 < more.count '\n' := List.count_pos_iff.2 lineFeed
    exact .inl (by omega)
  · have longer : 0 < more.length := List.length_pos_iff.2 nonempty
    rw [columnBehind_append lineFeed, List.count_eq_zero.2 lineFeed]
    exact .inr ⟨rfl, by omega⟩

namespace Fits

variable {text : List Char}

theorem isBehind (fits : Fits text) {before : List Char} (front : before <+: text) :
    (behind before).IsBehind before := by
  have counted : before.count '\n' ≤ text.count '\n' := front.sublist.count_le '\n'
  have lines : lineBehind before < UInt32.size := by
    have all := fits.lines
    simp only [lineBehind] at all ⊢
    exact Nat.lt_of_le_of_lt (Nat.add_le_add_left counted 1) all
  exact ⟨UInt32.toNat_ofNat_of_lt' lines, UInt32.toNat_ofNat_of_lt' (fits.columns before front)⟩

/-- A text of fewer than 2³² characters fits if not all of 2³² - 1 characters are line feeds. -/
theorem of_length_lt (short : text.length < UInt32.size) (lines : text.count '\n' < UInt32.size - 1) : Fits text where
  lines := by
    rw [lineBehind]
    omega
  columns before front := Nat.lt_of_le_of_lt (Nat.le_trans (columnBehind_le before) front.length_le) short

end Fits

end Position

/-!
### Layout
-/

/-- Blanks and comments. A comment runs from `#` up to a line feed, which is itself a blank, or, if the layout is
    the last thing in a text, up to the end. -/
inductive Layout (isLast : Bool) : List Char → Prop where
  | nil : Layout isLast []
  | blank {c : Char} {rest : List Char} (isBlank : isBlank c = true) (others : Layout isLast rest) :
      Layout isLast (c :: rest)
  | comment {body rest : List Char} (oneLine : '\n' ∉ body) (others : Layout isLast ('\n' :: rest)) :
      Layout isLast ('#' :: (body ++ '\n' :: rest))
  | lastComment {body : List Char} (oneLine : '\n' ∉ body) (atEnd : isLast = true) :
      Layout isLast ('#' :: body)

/-- A comment may have any other character than a line feed in front of its text. -/
theorem Layout.commented {isLast : Bool} {c : Char} {text : List Char} (sameLine : c ≠ '\n')
    (layout : Layout isLast ('#' :: text)) : Layout isLast ('#' :: c :: text) := by
  cases layout with
  | blank isBlank _ => cases isBlank
  | @comment body rest oneLine others =>
      have oneLine' : '\n' ∉ c :: body := by simp [oneLine, Ne.symm sameLine]
      exact .comment oneLine' others
  | lastComment oneLine atEnd =>
      have oneLine' : '\n' ∉ c :: text := by simp [oneLine, Ne.symm sameLine]
      exact .lastComment oneLine' atEnd

namespace Lexer

/-- What is skipped in front of a lexeme is layout; inside of a comment it is the rest of the comment, and then
    layout. -/
theorem skipLayout_tiles (text : List Char) : ∀ (inComment : Bool) (p : Position),
    ∃ gap, text = gap ++ (skipLayout inComment p text).rest ∧
      (skipLayout inComment p text).position = p.after gap ∧
        Layout (skipLayout inComment p text).rest.isEmpty (if inComment then '#' :: gap else gap) := by
  induction text with
  | nil =>
      intro inComment p
      refine ⟨[], rfl, rfl, ?_⟩
      cases inComment with
      | true => exact .lastComment List.not_mem_nil rfl
      | false => exact .nil
  | cons c cs inductionHypothesis =>
      intro inComment p
      have goesOn : ∀ inside, ∃ gap, cs = gap ++ _ ∧ _ ∧ _ := fun inside =>
        inductionHypothesis inside (p.advance c)
      cases inComment with
      | true =>
          -- the gap lacks the `#` with which the comment began, so the layout is stated with it
          by_cases isLineFeed : c = '\n'
          · subst isLineFeed
            obtain ⟨gap, covers, counts, layout⟩ := goesOn false
            refine ⟨'\n' :: gap, ?_, ?_, ?_⟩
            · exact congrArg ('\n' :: ·) covers
            · exact counts
            · have empty : '\n' ∉ ([] : List Char) := List.not_mem_nil
              exact .comment empty (.blank rfl layout)
          · obtain ⟨gap, covers, counts, layout⟩ := goesOn true
            simp only [skipLayout, isLineFeed, if_true, if_false]
            refine ⟨c :: gap, ?_, counts, ?_⟩
            · exact congrArg (c :: ·) covers
            · exact layout.commented isLineFeed
      | false =>
          by_cases isBlank : isBlank c = true
          · obtain ⟨gap, covers, counts, layout⟩ := goesOn false
            simp only [skipLayout, isBlank, Bool.false_eq_true, if_true, if_false]
            refine ⟨c :: gap, ?_, counts, ?_⟩
            · exact congrArg (c :: ·) covers
            · exact .blank isBlank layout
          · by_cases isComment : c = '#'
            · subst isComment
              obtain ⟨gap, covers, counts, layout⟩ := goesOn true
              refine ⟨'#' :: gap, ?_, counts, ?_⟩
              · exact congrArg ('#' :: ·) covers
              · exact layout
            · simp only [skipLayout, isBlank, isComment, Bool.false_eq_true, if_false]
              exact ⟨[], rfl, rfl, .nil⟩

/-!
### Lexemes as they are written
-/

theorem numberLexeme_spelling (run : List Char) : (numberLexeme run).spelling.toList = run := by
  unfold numberLexeme
  split
  · exact String.toList_ofList
  · exact String.toList_ofList

theorem wordLexeme_spelling (word : String) : (wordLexeme word).spelling = word := by
  unfold wordLexeme
  split
  · rename_i k found
    have isSpelling := List.find?_some found
    exact eq_of_beq isSpelling
  · rfl

theorem quotedLexeme_spelling (text : List Char) :
    (quotedLexeme text).1.spelling.toList ++ (quotedLexeme text).2 = '"' :: text := by
  have parts : text.takeWhile (· ≠ '"') ++ text.dropWhile (· ≠ '"') = text := List.takeWhile_append_dropWhile
  unfold quotedLexeme
  split
  · rename_i quote rest dropped
    have isQuote : quote = '"' := by
      have stopped := List.head?_dropWhile_not (· ≠ '"') text
      rw [dropped] at stopped
      simpa using stopped
    rw [dropped, isQuote] at parts
    simpa [Lexeme.spelling] using parts
  · simp [Lexeme.spelling, Lexeme.content]

/-- A lexeme, as it is written, and what follows it are the text in which it was found. -/
theorem lexeme_spelling (c : Char) (text : List Char) :
    (lexeme c text).1.spelling.toList ++ (lexeme c text).2 = c :: text := by
  unfold lexeme
  split
  · rename_i isQuote
    rw [isQuote]
    exact quotedLexeme_spelling text
  · split
    · rw [numberLexeme_spelling, List.cons_append, List.takeWhile_append_dropWhile]
    · split
      · rw [wordLexeme_spelling, String.toList_ofList, List.cons_append, List.takeWhile_append_dropWhile]
      · split
        · rename_i s found
          unfold Symbol.leading? at found
          have fits := List.find?_some found
          obtain ⟨rest, whole⟩ := List.isPrefixOf_iff_prefix.1 fits
          obtain ⟨first, others, chars, _⟩ := s.chars_begin
          rw [chars, List.cons_append] at whole
          obtain ⟨rfl, rfl⟩ := List.cons.inj whole
          simp [Lexeme.spelling, Lexeme.content, Symbol.spelling, chars]
        · simp [Lexeme.spelling, Lexeme.content]

theorem lexeme_spelling_ne_nil (c : Char) (text : List Char) : (lexeme c text).1.spelling.toList ≠ [] := by
  intro isEmpty
  have whole := lexeme_spelling c text
  rw [isEmpty, List.nil_append] at whole
  have shorter := lexeme_length_le c text
  rw [whole] at shorter
  exact Nat.not_succ_le_self _ shorter

end Lexer

/-!
### Tiles
-/

/-- A lexeme with the layout in front of it. -/
structure Tile where
  gap : List Char
  lexeme : Lexeme

namespace Tile

/-- The characters that a tile takes up. -/
def chars (t : Tile) : List Char :=
  t.gap ++ t.lexeme.spelling.toList

/-- A tile of a text has layout and then a lexeme of at least one character. -/
structure Proper (t : Tile) : Prop where
  layout : Layout false t.gap
  nonempty : t.lexeme.spelling.toList ≠ []
  notEnd : t.lexeme ≠ .endOfText

theorem length_le_flatMap_chars {tiles : List Tile} (proper : ∀ t ∈ tiles, t.Proper) :
    tiles.length ≤ (tiles.flatMap chars).length := by
  induction tiles with
  | nil => exact Nat.le_refl 0
  | cons t ts inductionHypothesis =>
      have nonempty := List.length_pos_iff.2 (proper t List.mem_cons_self).nonempty
      have others := inductionHypothesis fun u member => proper u (List.mem_cons_of_mem t member)
      simp only [List.flatMap_cons, List.length_append, List.length_cons, chars]
      omega

/-- The tiles up to a later one contain the tile number `i`. -/
theorem flatMap_chars_take (tiles : List Tile) : ∀ {i j : Nat} {t : Tile}, tiles[i]? = some t → i < j →
    ∃ more, (tiles.take j).flatMap chars = (tiles.take i).flatMap chars ++ (t.chars ++ more) := by
  induction tiles with
  | nil =>
      intro i j t found
      cases found
  | cons first others inductionHypothesis =>
      intro i j t found later
      obtain ⟨j, rfl⟩ := Nat.exists_eq_add_one_of_ne_zero (Nat.ne_zero_of_lt later)
      cases i with
      | zero =>
          simp only [List.getElem?_cons_zero, Option.some.injEq] at found
          rw [found]
          exact ⟨(others.take j).flatMap chars, by simp⟩
      | succ i =>
          obtain ⟨more, whole⟩ := inductionHypothesis found (Nat.lt_of_succ_lt_succ later)
          exact ⟨more, by simp [whole]⟩

end Tile

namespace Lexer

/-- The token that the lexer yields when it is called for the time number `i`, counted from zero. -/
def call (l : Lexer) : (i : Nat) → Token
  | 0 => l.next.1
  | i + 1 => l.next.2.call i

/-- What a lexer has to split, behind the characters `before`, consists of tiles and a last gap, and the tokens
    that it yields are those of the tiles; after that it yields the end of the text for ever. -/
structure Tiling (l : Lexer) (before : List Char) (tiles : List Tile) (lastGap : List Char) : Prop where
  covers : l.rest = tiles.flatMap Tile.chars ++ lastGap
  proper : ∀ t ∈ tiles, t.Proper
  layout : Layout true lastGap
  tokens : ∀ i t, tiles[i]? = some t →
    l.call i = ⟨t.lexeme, .behind (before ++ (tiles.take i).flatMap Tile.chars ++ t.gap)⟩
  ended : ∀ i, tiles.length ≤ i → l.call i = ⟨.endOfText, .behind (before ++ l.rest)⟩

variable {l : Lexer} {before : List Char}

/-- At the end of the text the lexer stays where it is. -/
theorem call_of_end {p : Position} (i : Nat) : (Lexer.mk [] p).call i = ⟨.endOfText, p⟩ := by
  induction i with
  | zero => rfl
  | succ i inductionHypothesis => exact inductionHypothesis

/-- A lexer in front of the last gap has only the end of the text to yield. -/
theorem tiling_of_layout {place : Position} (stands : l.position = .behind before)
    (skips : skipLayout false l.position l.rest = ⟨[], place⟩) : l.Tiling before [] l.rest := by
  obtain ⟨gap, covers, counts, layout⟩ := skipLayout_tiles l.rest false l.position
  rw [skips] at covers counts layout
  obtain rfl : l.rest = gap := covers.trans (List.append_nil gap)
  obtain rfl : place = .behind (before ++ l.rest) := by
    rw [← Position.behind_after, ← stands]
    exact counts
  refine ⟨rfl, by simp, layout, by simp, ?_⟩
  intro i _
  cases i with
  | zero => simp only [call, next, skips]
  | succ i => simp only [call, next, skips, call_of_end]

/-- A lexer in front of a lexeme yields its token and goes on behind it. -/
theorem next_of_lexeme {place : Position} {c : Char} {cs : List Char} (stands : l.position = .behind before)
    (skips : skipLayout false l.position l.rest = ⟨c :: cs, place⟩) :
    ∃ t : Tile, t.Proper ∧ l.rest = t.chars ++ (lexeme c cs).2 ∧
      l.next = (⟨t.lexeme, .behind (before ++ t.gap)⟩, ⟨(lexeme c cs).2, .behind (before ++ t.chars)⟩) := by
  obtain ⟨gap, covers, counts, layout⟩ := skipLayout_tiles l.rest false l.position
  rw [skips] at covers counts layout
  obtain rfl : place = .behind (before ++ gap) := by
    rw [← Position.behind_after, ← stands]
    exact counts
  refine ⟨⟨gap, (lexeme c cs).1⟩, ⟨layout, lexeme_spelling_ne_nil c cs, lexeme_ne_endOfText c cs⟩, ?_, ?_⟩
  · rw [Tile.chars, List.append_assoc, lexeme_spelling]
    exact covers
  · have further := Position.behind_after (lexeme c cs).1.spelling.toList (before ++ gap)
    simp only [next, skips, further, Tile.chars, List.append_assoc]

/-- A tile in front of what is tiled. -/
theorem Tiling.cons {t : Tile} {rest : List Char} {tiles : List Tile} {lastGap : List Char} (proper : t.Proper)
    (covers : l.rest = t.chars ++ rest)
    (isNext : l.next = (⟨t.lexeme, .behind (before ++ t.gap)⟩, ⟨rest, .behind (before ++ t.chars)⟩))
    (others : Tiling ⟨rest, .behind (before ++ t.chars)⟩ (before ++ t.chars) tiles lastGap) :
    l.Tiling before (t :: tiles) lastGap := by
  refine ⟨?_, ?_, others.layout, ?_, ?_⟩
  · rw [covers, List.flatMap_cons, List.append_assoc, ← others.covers]
  · intro u member
    rcases List.mem_cons.1 member with rfl | isOther
    · exact proper
    · exact others.proper u isOther
  · intro i u found
    cases i with
    | zero =>
        simp only [List.getElem?_cons_zero, Option.some.injEq] at found
        simp [call, isNext, found]
    | succ i =>
        have token := others.tokens i u found
        simpa [call, isNext] using token
  · intro i isBehind
    cases i with
    | zero => cases isBehind
    | succ i =>
        have ended := others.ended i (Nat.le_of_succ_le_succ isBehind)
        simpa [call, isNext, covers] using ended

/-- The induction is on a bound of the characters that are left, of which a lexeme takes up at least one. -/
theorem exists_tiling (bound : Nat) : ∀ {l : Lexer} {before : List Char}, l.rest.length < bound →
    l.position = .behind before → ∃ tiles lastGap, l.Tiling before tiles lastGap := by
  induction bound with
  | zero =>
      intro l before short
      exact absurd short (Nat.not_lt_zero _)
  | succ bound inductionHypothesis =>
      intro l before short stands
      rcases skips : skipLayout false l.position l.rest with ⟨_ | ⟨c, cs⟩, place⟩
      · exact ⟨[], l.rest, tiling_of_layout stands skips⟩
      · obtain ⟨t, proper, covers, isNext⟩ := next_of_lexeme stands skips
        have shorter : (lexeme c cs).2.length < bound := by
          have nonempty := List.length_pos_iff.2 proper.nonempty
          rw [covers, Tile.chars, List.length_append, List.length_append] at short
          omega
        obtain ⟨tiles, lastGap, others⟩ :=
          inductionHypothesis (l := ⟨(lexeme c cs).2, .behind (before ++ t.chars)⟩) shorter rfl
        exact ⟨t :: tiles, lastGap, others.cons proper covers isNext⟩

/-- A lexer that has yielded the end of the text has yielded every token. -/
theorem tokens_eq_calls (count : Nat) : ∀ {l : Lexer} {bound : Nat}, count < bound →
    (∀ i < count, (l.call i).lexeme ≠ .endOfText) → (l.call count).lexeme = .endOfText →
      l.tokens bound = (List.range (count + 1)).map l.call := by
  induction count with
  | zero =>
      intro l bound enough _ atEnd
      obtain ⟨bound, rfl⟩ := Nat.exists_eq_add_one_of_ne_zero (Nat.ne_zero_of_lt enough)
      have isLast : l.next.1.lexeme = .endOfText := atEnd
      simp [tokens, call, isLast]
  | succ count inductionHypothesis =>
      intro l bound enough goesOn atEnd
      obtain ⟨bound, rfl⟩ := Nat.exists_eq_add_one_of_ne_zero (Nat.ne_zero_of_lt enough)
      have notLast : l.next.1.lexeme ≠ .endOfText := goesOn 0 (Nat.succ_pos count)
      have others := inductionHypothesis (l := l.next.2) (Nat.lt_of_succ_lt_succ enough)
        (fun i inside => goesOn (i + 1) (Nat.succ_lt_succ inside)) atEnd
      rw [List.range_succ_eq_map, List.map_cons, List.map_map]
      simp only [tokens, notLast, if_false, others]
      rfl

/-!
### Positions and numbers of tokens
-/

/-- The positions of the tokens are those of the tiles, that of the end of the text is the end, and all of them come in
    the order of reading. -/
structure Exact (l : Lexer) (tiles : List Tile) : Prop where
  tokens : ∀ i t, tiles[i]? = some t →
    (l.call i).position.IsBehind ((tiles.take i).flatMap Tile.chars ++ t.gap)
  ended : ∀ i, tiles.length ≤ i → (l.call i).position.IsBehind l.rest
  increasing : ∀ i j, i < j → j ≤ tiles.length → (l.call i).position.Before (l.call j).position

namespace Tiling

variable {tiles : List Tile} {lastGap : List Char}

/-- What stands in front of a lexeme, and the lexeme, are the front of the text. -/
theorem tile_prefix (tiling : l.Tiling before tiles lastGap) {i : Nat} {t : Tile} (found : tiles[i]? = some t) :
    (tiles.take i).flatMap Tile.chars ++ t.chars <+: l.rest := by
  have inside : i < tiles.length := (List.getElem?_eq_some_iff.1 found).1
  obtain ⟨more, taken⟩ := Tile.flatMap_chars_take tiles found inside
  rw [List.take_length] at taken
  refine ⟨more ++ lastGap, ?_⟩
  simp only [tiling.covers, taken, List.append_assoc]

theorem tokens_eq (tiling : l.Tiling before tiles lastGap) {bound : Nat} (enough : l.rest.length < bound) :
    l.tokens bound = (List.range (tiles.length + 1)).map l.call := by
  have count : tiles.length < bound := by
    have least := Tile.length_le_flatMap_chars tiling.proper
    rw [tiling.covers, List.length_append] at enough
    omega
  refine tokens_eq_calls tiles.length count ?_ ?_
  · intro i inside
    have found : tiles[i]? = some tiles[i] := List.getElem?_eq_getElem inside
    rw [tiling.tokens i _ found]
    exact (tiling.proper _ (List.mem_of_getElem? found)).notEnd
  · rw [tiling.ended _ (Nat.le_refl _)]

/-- In a text in which the counters do not overflow they hold the places of all tokens. -/
theorem exact (tiling : l.Tiling [] tiles lastGap) (fits : Position.Fits l.rest) : l.Exact tiles := by
  have tokens : ∀ i t, tiles[i]? = some t →
      (l.call i).position.IsBehind ((tiles.take i).flatMap Tile.chars ++ t.gap) := by
    intro i t found
    rw [tiling.tokens i t found]
    refine fits.isBehind (List.IsPrefix.trans ?_ (tiling.tile_prefix found))
    exact ⟨t.lexeme.spelling.toList, by simp [Tile.chars]⟩
  have ended : ∀ i, tiles.length ≤ i → (l.call i).position.IsBehind l.rest := by
    intro i isBehind
    rw [tiling.ended i isBehind]
    exact fits.isBehind List.prefix_rfl
  refine ⟨tokens, ended, fun i j earlier inside => ?_⟩
  obtain ⟨t, found⟩ : ∃ t, tiles[i]? = some t :=
    ⟨_, List.getElem?_eq_getElem (Nat.lt_of_lt_of_le earlier inside)⟩
  have nonempty := (tiling.proper t (List.mem_of_getElem? found)).nonempty
  -- the later token stands behind the lexeme of the earlier one, and whatever comes in between
  obtain ⟨between, place⟩ : ∃ between, (l.call j).position.IsBehind
      ((tiles.take i).flatMap Tile.chars ++ t.gap ++ (t.lexeme.spelling.toList ++ between)) := by
    rcases isLater : tiles[j]? with _ | u
    · obtain ⟨between, whole⟩ := tiling.tile_prefix found
      refine ⟨between, ?_⟩
      have place := ended j (List.getElem?_eq_none_iff.1 isLater)
      rw [← whole] at place
      simpa [Tile.chars] using place
    · obtain ⟨more, taken⟩ := Tile.flatMap_chars_take tiles found earlier
      refine ⟨more ++ u.gap, ?_⟩
      have place := tokens j u isLater
      rw [taken] at place
      simpa [Tile.chars] using place
  exact (tokens i t found).before place (List.append_ne_nil_of_left_ne_nil nonempty _)

end Tiling

end Lexer

theorem Lexer.exists_tiling_of_source (source : String) :
    ∃ tiles lastGap, (Lexer.ofSource source).Tiling [] tiles lastGap :=
  exists_tiling _ (Nat.lt_succ_self _) rfl

/-- The token stream tiles the source: called again and again, the lexer yields the tokens of finitely many tiles and
    then the end of the text for ever. In a text in which the counters of lines and columns do not overflow, as it is in
    those of fewer than 2³² characters other than 2³² - 1 line feeds, they hold the positions of all tokens, which
    strictly increase up to the end of the text. -/
theorem tiling_of_source (source : String) : ∃ tiles lastGap,
    (Lexer.ofSource source).Tiling [] tiles lastGap ∧
      Token.scan source = (List.range (tiles.length + 1)).map (Lexer.ofSource source).call ∧
        (Position.Fits source.toList → (Lexer.ofSource source).Exact tiles) := by
  obtain ⟨tiles, lastGap, tiling⟩ := Lexer.exists_tiling_of_source source
  exact ⟨tiles, lastGap, tiling, tiling.tokens_eq (Nat.lt_succ_self _), tiling.exact⟩

/-- A comment runs up to a line feed, and a quoted text goes on in the next line. -/
theorem tiling_of_source_over_lines :
    let source := "a # b\n\"x\ny\"z"
    Position.Fits source.toList ∧ ∃ tiles lastGap, (Lexer.ofSource source).Tiling [] tiles lastGap ∧
      (Lexer.ofSource source).Exact tiles := by
  intro source
  have fits : Position.Fits source.toList := .of_length_lt (by decide) (by decide)
  obtain ⟨tiles, lastGap, tiling, _, exact⟩ := tiling_of_source source
  exact ⟨fits, tiles, lastGap, tiling, exact fits⟩

/-- Blanks in front of a text move only the place at which it is read. -/
theorem Lexer.skipLayout_replicate {c : Char} (isBlank : isBlank c = true) (count : Nat) :
    ∀ (p : Position) (text : List Char),
    skipLayout false p (List.replicate count c ++ text) = skipLayout false (p.after (List.replicate count c)) text := by
  induction count with
  | zero => exact fun _ _ => rfl
  | succ count inductionHypothesis =>
      intro p text
      rw [List.replicate_succ, List.cons_append, skipLayout, if_neg Bool.false_ne_true, if_pos isBlank]
      exact inductionHypothesis (p.advance c) text

/-- The end of a text of line feeds stands at the start of the line behind them, as far as the counters tell. -/
theorem Token.scan_lineFeeds (count : Nat) :
    Token.scan (String.ofList (List.replicate count '\n')) = [⟨.endOfText, ⟨.ofNat (1 + count), 0⟩⟩] := by
  have place : Position.behind (List.replicate count '\n') = ⟨.ofNat (1 + count), 0⟩ := by
    simp [Position.behind, Position.lineBehind, Position.columnBehind]
  have skips := Lexer.skipLayout_replicate (c := '\n') rfl count .start []
  rw [List.append_nil, Position.after_start, place] at skips
  have isEnd : Lexer.skipLayout false .start (List.replicate count '\n') = ⟨[], ⟨.ofNat (1 + count), 0⟩⟩ := skips
  rw [Token.scan, Lexer.ofSource, String.toList_ofList, Lexer.tokens]
  simp only [Lexer.next, isEnd, if_true]

/-- Behind 2³² - 1 line feeds the counter of the lines has overflowed, so that the end of the text stands on line 0. -/
theorem end_of_text_misplaced :
    let source := String.ofList (List.replicate (UInt32.size - 1) '\n')
    source.length < UInt32.size ∧ Token.scan source = [⟨.endOfText, ⟨0, 0⟩⟩] ∧
      ¬(⟨0, 0⟩ : Position).IsBehind source.toList := by
  intro source
  refine ⟨?_, Token.scan_lineFeeds _, ?_⟩
  · rw [String.length_ofList, List.length_replicate]
    decide
  · intro stands
    have counted : 0 = 1 + source.toList.count '\n' := stands.line
    omega

end Quill
