/-
Module: Quill.Parser.Cursor
Layer: Parsing
Purpose: A cursor over the tokens of a text and the computations that read through it. The cursor shows
  the current token and the one after it, stands still at the end of the text, and collects
  diagnostics. A computation yields a tree or drops the construct it was reading; either way the cursor
  keeps the place it reached and the diagnostics it collected, so that reading goes on behind a fault.
  That it only goes forward is part of what a computation is.
Main exports: Cursor, Cursor.Precedes, Parse, Parse.expect, Parse.report, Parse.tolerate
-/
import Quill.Diagnostic

namespace Quill

/-- The tokens still to be read and the diagnostics so far, latest first. The last token of a text is
    its end, at which the cursor stays. -/
structure Cursor where
  current : Token
  upcoming : List Token
  diagnostics : List Diagnostic

namespace Cursor

/-- A cursor at the first of some tokens. -/
def ofTokens : List Token → Cursor
  | [] => ⟨⟨.endOfText, .start⟩, [], []⟩
  | t :: ts => ⟨t, ts, []⟩

/-- The token after the current one; behind the last token stands that token again. -/
def peek (c : Cursor) : Token :=
  c.upcoming.headD c.current

/-- The cursor one token further. -/
def advance (c : Cursor) : Cursor :=
  match c.upcoming with
  | [] => c
  | t :: ts => { c with current := t, upcoming := ts }

/-- The cursor with one more diagnostic. -/
def report (c : Cursor) (d : Diagnostic) : Cursor :=
  { c with diagnostics := d :: c.diagnostics }

/-- Reading leads from one cursor to another only in this way: tokens are left behind from the front, and
    diagnostics are added to those there are. -/
structure Precedes (c c' : Cursor) : Prop where
  tokens : c'.current :: c'.upcoming <:+ c.current :: c.upcoming
  diagnostics : c.diagnostics <:+ c'.diagnostics

namespace Precedes

theorem refl (c : Cursor) : c.Precedes c :=
  ⟨List.suffix_rfl, List.suffix_rfl⟩

theorem trans {c c' c'' : Cursor} (first : c.Precedes c') (second : c'.Precedes c'') :
    c.Precedes c'' :=
  ⟨second.tokens.trans first.tokens, first.diagnostics.trans second.diagnostics⟩

end Precedes

theorem precedes_advance (c : Cursor) : c.Precedes c.advance := by
  obtain ⟨token, upcoming, diagnostics⟩ := c
  cases upcoming with
  | nil => exact Precedes.refl _
  | cons next rest => exact ⟨List.suffix_cons token (next :: rest), List.suffix_rfl⟩

theorem precedes_report (c : Cursor) (d : Diagnostic) : c.Precedes (c.report d) :=
  ⟨List.suffix_rfl, List.suffix_cons d c.diagnostics⟩

end Cursor

/-- A computation that reads tokens: `none` means that the construct is dropped. It never goes back, and
    never takes a diagnostic back. -/
structure Parse (α : Type) where
  run : Cursor → Option α × Cursor
  forward : ∀ c : Cursor, c.Precedes (run c).2

namespace Parse

/-- Yields a value without reading. -/
def yield {α : Type} (a : α) : Parse α where
  run c := (some a, c)
  forward := Cursor.Precedes.refl

/-- Reads one thing and then another; what is dropped inside drops the whole. -/
def andThen {α β : Type} (p : Parse α) (f : α → Parse β) : Parse β where
  run c :=
    match p.run c with
    | (some a, c') => (f a).run c'
    | (none, c') => (none, c')
  forward c := by
    have first := p.forward c
    rcases h : p.run c with ⟨_ | a, c'⟩
    · simpa [h] using first
    · rw [h] at first
      exact first.trans ((f a).forward c')

instance : Monad Parse where
  pure := yield
  bind := andThen

/-- Drops the construct without a diagnostic. -/
def drop {α : Type} : Parse α where
  run c := (none, c)
  forward := Cursor.Precedes.refl

/-- What the cursor shows, without moving it. -/
def look {α : Type} (view : Cursor → α) : Parse α where
  run c := (some (view c), c)
  forward := Cursor.Precedes.refl

/-- The current token. -/
def current : Parse Token :=
  look Cursor.current

/-- The token after the current one. -/
def peek : Parse Token :=
  look Cursor.peek

/-- Moves on by one token. -/
def advance : Parse Unit where
  run c := (some (), c.advance)
  forward := Cursor.precedes_advance

/-- Reports a problem and drops the construct. -/
def report {α : Type} (position : Position) (problem : Problem) : Parse α where
  run c := (none, c.report ⟨position, problem⟩)
  forward c := c.precedes_report ⟨position, problem⟩

/-- Reports that a token is not of the kind that has to stand in its place. -/
def unexpected {α : Type} (found : Token) (expected : Kind) : Parse α :=
  report found.position (.unexpected found.lexeme expected)

/-- Whether the current token is of a kind. -/
def currentIs (k : Kind) : Parse Bool :=
  look (fun c => c.current.hasKind k)

/-- Whether the token after the current one is of a kind. -/
def peekIs (k : Kind) : Parse Bool :=
  look (fun c => c.peek.hasKind k)

/-- Moves on to the next token if it is of the given kind, and reports it otherwise. -/
def expect (k : Kind) : Parse Unit := do
  if ← peekIs k then
    advance
  else
    unexpected (← peek) k

/-- Moves on to the next token if it is the given symbol, and reports it otherwise. -/
def expectSymbol (s : Symbol) : Parse Unit :=
  expect (.symbol s)

/-- Reads something that may be dropped without dropping what surrounds it. -/
def tolerate {α : Type} (p : Parse α) : Parse (Option α) where
  run c :=
    match p.run c with
    | (a?, c') => (some a?, c')
  forward := p.forward

/-- The name that is the current token. -/
def identifier : Parse String := do
  let token ← current
  match token.lexeme with
  | .identifier name => return name
  | _ => unexpected token .identifier

/-!
### Lists

Each round of a list reads at least one token, so a bound of the number of tokens is never reached.
-/

/-- The further items of a list, as long as commas follow. -/
def moreItems {α : Type} (item : Parse α) : (rounds : Nat) → Parse (List α)
  | 0 => drop
  | rounds + 1 => do
    if ← peekIs (.symbol .comma) then
      advance
      advance
      let first ← item
      let rest ← moreItems item rounds
      return first :: rest
    else
      return []

/-- Items with commas between them, from an opening bracket, which is the current token, to a closing
    one. -/
def items {α : Type} (item : Parse α) (rounds : Nat) (close : Symbol) : Parse (List α) := do
  if ← peekIs (.symbol close) then
    advance
    return []
  else
    advance
    let first ← item
    let rest ← moreItems item rounds
    expectSymbol close
    return first :: rest

end Parse

end Quill
