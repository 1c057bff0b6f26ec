/-
Module: Quill.Proofs.Tree.Noting
Layer: Proofs
Purpose: Traversals by functions that cannot stop. A function that only answers trees cannot end a walk: what it can
  do is to note the first stop and to answer every tree from then on with the tree itself. The walk goes on to its
  end, where the note decides, but it does nothing more. So it ends as the walk does that stops at once, in the same
  machine, and quotations and expansions may be made in either way.
Main exports: Noting, Noting.settle, noting, SettlesAs, transform_noting, quotation_noting, expandMacrosBy_noting
-/
import Quill.Proofs.Tree.Traversal
import Quill.Expansion

namespace Quill

variable {α : Type}

/-- Computations that go on behind a stop, of which they keep a note. -/
abbrev Noting :=
  StateM (Option Stop × Machine)

namespace Noting

/-- What a run amounts to: the stop that it has noted, or else its value. -/
def ending : α × Option Stop × Machine → Except Stop α × Machine
  | (a, none, m) => (.ok a, m)
  | (_, some s, m) => (.error s, m)

/-- The computation that ends with what is noted, from a machine for which nothing is noted. -/
def settle (p : Noting α) : Eval α :=
  fun m => ending (p (none, m))

end Noting

/-- Answers as `f` does until `f` stops, which is noted. The tree at which it stopped, and every tree behind it, is
    answered with itself. -/
def noting (f : Node → Eval Node) (n : Node) : Noting Node
  | (some s, m) => (n, some s, m)
  | (none, m) =>
    match f n m with
    | (.ok after, m') => (after, none, m')
    | (.error s, m') => (n, some s, m')

/-- The computations end with the same, and the second one does nothing behind a stop. -/
structure SettlesAs (α : Type) (p : Eval α) (p' : Noting α) : Prop where
  same : p'.settle = p
  idle : ∀ s m, (p' (some s, m)).2 = (some s, m)

namespace SettlesAs

theorem pure (a : α) : SettlesAs α (Pure.pure a) (Pure.pure a) :=
  ⟨rfl, fun _ _ => rfl⟩

/-- If the first part notes a stop, then the second one is idle. -/
theorem bind {β : Type} {p : Eval α} {p' : Noting α} {f : α → Eval β} {f' : α → Noting β}
    (first : SettlesAs α p p') (next : ∀ a, SettlesAs β (f a) (f' a)) : SettlesAs β (p >>= f) (p' >>= f') where
  same := by
    funext m
    have ends : p'.settle m = p m := congrFun first.same m
    rcases run : p' (none, m) with ⟨a, noted, m'⟩
    have onward : (p' >>= f').settle m = Noting.ending (f' a (noted, m')) := by
      show Noting.ending (f' (p' (none, m)).1 (p' (none, m)).2) = _
      rw [run]
    rw [Noting.settle, run] at ends
    rw [onward]
    cases noted with
    | none =>
        rw [Eval.bind_of_ok ends.symm]
        exact congrFun (next a).same m'
    | some s =>
        rw [Eval.bind_of_error ends.symm]
        have idle := (next a).idle s m'
        rcases rest : f' a (some s, m') with ⟨b, noted', m''⟩
        rw [rest] at idle
        cases idle
        rfl
  idle s m := by
    have before : (p' (some s, m)).2 = (some s, m) := first.idle s m
    show (f' (p' (some s, m)).1 (p' (some s, m)).2).2 = (some s, m)
    rw [before]
    exact (next _).idle s m

theorem noting (f : Node → Eval Node) (n : Node) : SettlesAs Node (f n) (noting f n) where
  same := by
    funext m
    rcases answered : f n m with ⟨stop | after, m'⟩
    · simp only [Noting.settle, Quill.noting, answered, Noting.ending]
    · simp only [Noting.settle, Quill.noting, answered, Noting.ending]
  idle _ _ := rfl

end SettlesAs

theorem sequential_settlesAs : Sequential SettlesAs where
  pure := .pure
  bind := .bind

/-- A walk that notes the first stop ends as the walk that stops at once. -/
theorem transform_noting (f : Node → Eval Node) (n : Node) : SettlesAs Node (n.transform f) (n.transform (noting f)) :=
  sequential_settlesAs.transform (.noting f) n

/-!
### Main results
-/

/-- A quotation is that of a walk in which the first splice that stops is noted. -/
theorem quotation_noting (ev : Expr → Eval Value) (e : Expr) :
    quotation ev e = Noting.settle (do
      let n ← Node.transform (noting (splice ev)) (.expr e)
      return .quote n) :=
  ((transform_noting (splice ev) (.expr e)).bind fun n => .pure (Value.quote n)).same.symm

/-- An expansion is that of a walk in which the first macro call that stops is noted. -/
theorem expandMacrosBy_noting (ev : Evaluator) (macros : ScopeId) (p : Program) :
    expandMacrosBy ev macros p = (p.transform (noting (expandNode ev macros))).settle := by
  have walks : SettlesAs Program (p.transform (expandNode ev macros))
      (p.transform (noting (expandNode ev macros))) := by
    refine (transform_noting (expandNode ev macros) (.program p)).bind fun after => ?_
    cases after <;> exact .pure _
  exact walks.same.symm

end Quill
