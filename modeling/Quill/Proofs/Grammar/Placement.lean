/-
Module: Quill.Proofs.Grammar.Placement
Layer: Proofs
Purpose: Words that stand in no phrase. The grammar has numbers only whose digits can be read, and a step `--` only
  behind a name. So words with a number that is too large, or with a step behind a bracket, are part of no phrase,
  whatever stands around them.
Main exports: Lexeme.fits, wellPlaced, Derives.placed, Misplaced, Misplaced.not_derives
-/
import Quill.Proofs.Grammar

namespace Quill

namespace Lexeme

/-- Whether a lexeme is a name. -/
def isName : Lexeme → Bool
  | identifier _ => true
  | _ => false

/-- Whether a lexeme can stand where it does, given whether a name stands right before it. -/
def fits (named : Bool) : Lexeme → Bool
  | integer digits => (Decimal.readInteger? digits).isSome
  | symbol .minusMinus => named
  | _ => true

theorem fits_mono {w : Lexeme} (fits : w.fits false = true) (named : Bool) : w.fits named = true := by
  unfold Lexeme.fits at fits ⊢
  split <;> simp_all

end Lexeme

/-- Whether each of the words can stand where it does, given whether a name stands right before them. -/
def wellPlaced (named : Bool) : List Lexeme → Bool
  | [] => true
  | w :: ws => w.fits named && wellPlaced w.isName ws

/-- Whether a name stands right before what follows the words. -/
def endsInName (named : Bool) : List Lexeme → Bool
  | [] => named
  | w :: ws => endsInName w.isName ws

theorem wellPlaced_append (named : Bool) (ws vs : List Lexeme) :
    wellPlaced named (ws ++ vs) = (wellPlaced named ws && wellPlaced (endsInName named ws) vs) := by
  induction ws generalizing named with
  | nil => rfl
  | cons w ws inductionHypothesis =>
      simp only [List.cons_append, wellPlaced, endsInName, inductionHypothesis, Bool.and_assoc]

/-!
### Words of phrases
-/

/-- The words can stand where they do, whatever stands before them. -/
def Placed (ws : List Lexeme) : Prop :=
  ∀ named, wellPlaced named ws = true

namespace Placed

variable {ws vs : List Lexeme}

@[simp] theorem nil : Placed [] :=
  fun _ => rfl

theorem cons {w : Lexeme} (fits : w.fits false = true) (placed : Placed ws) : Placed (w :: ws) := by
  intro named
  rw [wellPlaced, Lexeme.fits_mono fits named, placed, Bool.and_self]

theorem append (first : Placed ws) (second : Placed vs) : Placed (ws ++ vs) := by
  intro named
  rw [wellPlaced_append, first, second, Bool.and_self]

theorem separated {runs : List (List Lexeme)} (each : ∀ ws ∈ runs, Placed ws) : Placed (separated runs) := by
  cases runs with
  | nil => exact nil
  | cons first others =>
      obtain ⟨isFirst, behind⟩ := List.forall_mem_cons.1 each
      refine isFirst.append ?_
      clear each
      induction others with
      | nil => exact nil
      | cons other others inductionHypothesis =>
          obtain ⟨isOther, further⟩ := List.forall_mem_cons.1 behind
          exact (isOther.cons rfl).append (inductionHypothesis further)

theorem separatedNames (names : List String) : Placed (separatedNames names) := by
  refine separated fun ws member => ?_
  obtain ⟨name, _, rfl⟩ := List.mem_map.1 member
  exact nil.cons rfl

/-- A step stands behind a name. -/
theorem step (name : String) (s : Symbol) : Placed [.identifier name, .symbol s] := by
  intro named
  cases s <;> rfl

end Placed

theorem UnaryOp.fits_symbol (op : UnaryOp) : (Lexeme.symbol op.symbol).fits false = true := by
  cases op <;> rfl

theorem BinaryOp.fits_symbol (op : BinaryOp) : (Lexeme.symbol op.symbol).fits false = true := by
  cases op <;> rfl

theorem Symbol.fits_of_compound {s : Symbol} {op : BinaryOp} (isCompound : s.compound? = some op) :
    (Lexeme.symbol s).fits false = true := by
  cases s <;> first | rfl | cases isCompound

/-- The words of a phrase can stand where they do. -/
theorem Derives.placed {phrase : Phrase} {ws : List Lexeme} (derives : Derives phrase ws) : Placed ws := by
  have items : ∀ {items : List (Expr × List Lexeme)}, (∀ item ∈ items, Placed item.2) →
      Placed (separated (items.map Prod.snd)) := by
    intro items each
    refine .separated fun ws member => ?_
    obtain ⟨item, isItem, rfl⟩ := List.mem_map.1 member
    exact each item isItem
  induction derives with
  | integer read => exact Placed.nil.cons (by simp [Lexeme.fits, read])
  | array _ each => exact ((items each).cons rfl).append (.cons rfl .nil)
  | call _ _ callee each => exact (callee.append ((items each).cons rfl)).append (.cons rfl .nil)
  | @function params _ _ _ body =>
      exact (((Placed.separatedNames params).cons rfl).cons rfl).append (body.cons rfl)
  | @macroLiteral params _ _ _ body =>
      exact (((Placed.separatedNames params).cons rfl).cons rfl).append (body.cons rfl)
  | unary op _ operand => exact operand.cons op.fits_symbol
  | binary op _ _ left right => exact left.append (right.cons op.fits_symbol)
  | compound _ isCompound _ _ value => exact (value.cons (Symbol.fits_of_compound isCompound)).cons rfl
  | step name _ => exact .step name _
  | _ => grind [Placed.nil, Placed.cons, Placed.append, Lexeme.fits]

/-!
### Words of no phrase
-/

/-- One of the words cannot stand where it does, whatever stands before them. -/
def Misplaced (ws : List Lexeme) : Prop :=
  ∀ named, wellPlaced named ws = false

namespace Misplaced

variable {ws vs : List Lexeme}

theorem before (misplaced : Misplaced ws) (vs : List Lexeme) : Misplaced (ws ++ vs) := by
  intro named
  rw [wellPlaced_append, misplaced named, Bool.false_and]

theorem behind (misplaced : Misplaced ws) (vs : List Lexeme) : Misplaced (vs ++ ws) := by
  intro named
  rw [wellPlaced_append, misplaced, Bool.and_false]

theorem not_derives (misplaced : Misplaced ws) (phrase : Phrase) : ¬Derives phrase ws := by
  intro derives
  have placed := derives.placed false
  rw [misplaced false] at placed
  cases placed

end Misplaced

end Quill
