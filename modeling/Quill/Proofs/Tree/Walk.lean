/-
Module: Quill.Proofs.Tree.Walk
Layer: Proofs
Purpose: A traversal as a dialogue. What a traversal does by itself is to hand one tree after another to a function
  and to go on with the answers. A walk is this dialogue with the answers left open; a traversal by any function on a
  machine is the walk of its tree, answered by that function. So one can say which tree a traversal comes to and in
  which machine, once the trees before it were answered, and that a stop there is the end of the traversal.
Main exports: Walk, Walk.run, Walk.ComesTo, Walk.Reaches, Walk.Ensures, Walk.ofNode, transform_eq_run,
  transform_of_stop
-/
import Quill.Proofs.Tree.Traversal
import Quill.Machine

namespace Quill

/-- A computation that hands trees around: it is done, or it waits for the answer to a tree. -/
inductive Walk (α : Type) where
  | done (a : α)
  | visit (n : Node) (next : Node → Walk α)

namespace Walk

variable {α β : Type}

/-- One dialogue after another. -/
def andThen (f : α → Walk β) : Walk α → Walk β
  | done a => f a
  | visit n next => visit n fun after => (next after).andThen f

instance : Monad Walk where
  pure := done
  bind w f := w.andThen f

/-- The dialogue in which a tree is transformed. -/
def ofNode (n : Node) : Walk Node :=
  n.transform fun part => visit part done

section Answers

variable (f : Node → Eval Node)

/-- The dialogue with the answers of a function on a machine. -/
def run : Walk α → Eval α
  | done a => pure a
  | visit n next => f n >>= fun after => (next after).run

/-- With the answers of `f`, the dialogue comes from one machine to a tree that is to be answered in another, and `next`
    is how it goes on with the answer. -/
inductive ComesTo : Walk α → Machine → Node → (Node → Walk α) → Machine → Prop where
  | here {n : Node} {next : Node → Walk α} {m : Machine} : ComesTo (visit n next) m n next m
  | later {n part after : Node} {next next' : Node → Walk α} {m m₁ m' : Machine} (answered : f n m = (.ok after, m₁))
      (rest : ComesTo (next after) m₁ part next' m') : ComesTo (visit n next) m part next' m'

/-- With the answers of `f`, the dialogue comes from one machine to a tree that is to be answered in another: every
    tree before it has been answered. -/
def Reaches (w : Walk α) (m : Machine) (part : Node) (m' : Machine) : Prop :=
  ∃ next, w.ComesTo f m part next m'

variable {f}

theorem run_andThen (g : α → Walk β) (w : Walk α) (m : Machine) :
    (w.andThen g).run f m = (w.run f >>= fun a => (g a).run f) m := by
  induction w generalizing m with
  | done a => rfl
  | visit n next inductionHypothesis =>
      rcases answered : f n m with ⟨stop | after, m'⟩
      · have waits : (visit n next).run f m = (.error stop, m') := Eval.bind_of_error answered
        rw [Eval.bind_of_error waits]
        exact Eval.bind_of_error answered
      · have goesOn : (visit n next).run f m = (next after).run f m' := Eval.bind_of_ok answered
        calc ((visit n next).andThen g).run f m
            = ((next after).andThen g).run f m' := Eval.bind_of_ok answered
          _ = ((next after).run f >>= fun a => (g a).run f) m' := inductionHypothesis after m'
          _ = ((visit n next).run f >>= fun a => (g a).run f) m := by
              show Eval.andThen _ _ _ = Eval.andThen _ _ _
              simp only [Eval.andThen, goesOn]

namespace ComesTo

variable {w : Walk α} {m m' m'' : Machine} {part : Node} {next : Node → Walk α}

/-- A tree that is answered lets the dialogue go on. -/
theorem run_eq {after : Node} (comes : w.ComesTo f m part next m') (answered : f part m' = (.ok after, m'')) :
    w.run f m = (next after).run f m'' := by
  induction comes with
  | here => exact Eval.bind_of_ok answered
  | later earlier _ inductionHypothesis => exact (Eval.bind_of_ok earlier).trans (inductionHypothesis answered)

/-- A tree whose answer is a stop ends the dialogue. -/
theorem stop {s : Stop} (comes : w.ComesTo f m part next m') (stops : f part m' = (.error s, m'')) :
    w.run f m = (.error s, m'') := by
  induction comes with
  | here => exact Eval.bind_of_error stops
  | later answered _ inductionHypothesis => exact (Eval.bind_of_ok answered).trans (inductionHypothesis stops)

theorem andThen_left {g : α → Walk β} (comes : w.ComesTo f m part next m') :
    (w.andThen g).ComesTo f m part (fun after => (next after).andThen g) m' := by
  induction comes with
  | here => exact .here
  | later answered _ inductionHypothesis => exact .later answered inductionHypothesis

theorem andThen_right {g : α → Walk β} {next : Node → Walk β} {m₁ : Machine} {a : α} (ends : w.run f m = (.ok a, m₁))
    (comes : (g a).ComesTo f m₁ part next m') : (w.andThen g).ComesTo f m part next m' := by
  induction w generalizing m with
  | done b =>
      cases ends
      exact comes
  | visit n following inductionHypothesis =>
      rcases answered : f n m with ⟨stop | after, m₂⟩
      · have stops : (visit n following).run f m = (.error stop, m₂) := Eval.bind_of_error answered
        rw [stops] at ends
        cases ends
      · have goesOn : (visit n following).run f m = (following after).run f m₂ := Eval.bind_of_ok answered
        exact .later answered (inductionHypothesis after (goesOn.symm.trans ends))

end ComesTo

theorem Reaches.here {n : Node} {next : Node → Walk α} {m : Machine} : (visit n next).Reaches f m n m :=
  ⟨next, .here⟩

theorem Reaches.later {n part after : Node} {next : Node → Walk α} {m m₁ m' : Machine}
    (answered : f n m = (.ok after, m₁)) (rest : (next after).Reaches f m₁ part m') :
    (visit n next).Reaches f m part m' :=
  rest.imp fun _ comes => .later answered comes

/-- A dialogue comes to the tree for which it waits and, if that is answered, to the trees behind it. -/
theorem forall_reached_visit {next : Node → Walk α} {good : Node → Machine → Prop} {n after : Node} {m m₁ : Machine}
    (first : good n m) (answered : f n m = (.ok after, m₁))
    (others : ∀ part m', (next after).Reaches f m₁ part m' → good part m') :
    ∀ part m', (visit n next).Reaches f m part m' → good part m' := by
  rintro part m' ⟨following, comes⟩
  cases comes with
  | here => exact first
  | later answered' rest =>
      rw [answered] at answered'
      cases answered'
      exact others part m' ⟨following, rest⟩

/-!
### What a dialogue ensures
-/

variable (f) in
/-- If every tree to which the dialogue comes meets a condition in the machine of that moment, then the dialogue ends
    with a result as asked for. -/
def Ensures (good : Node → Machine → Prop) (w : Walk α) (post : α → Prop) : Prop :=
  ∀ m, (∀ part m', w.Reaches f m part m' → good part m') → ∃ a m', w.run f m = (.ok a, m') ∧ post a

namespace Ensures

variable {good : Node → Machine → Prop} {post : α → Prop}

theorem pure {a : α} (holds : post a) : Ensures f good (Pure.pure a) post :=
  fun m _ => ⟨a, m, rfl, holds⟩

theorem bind {w : Walk α} {g : α → Walk β} {next : β → Prop} (first : Ensures f good w post)
    (second : ∀ a, post a → Ensures f good (g a) next) : Ensures f good (w >>= g) next := by
  intro m each
  obtain ⟨a, m₁, ends, holds⟩ := first m fun part m' ⟨_, comes⟩ => each part m' ⟨_, comes.andThen_left⟩
  obtain ⟨b, m₂, ends', holds'⟩ := second a holds m₁ fun part m' ⟨_, comes⟩ =>
    each part m' ⟨_, comes.andThen_right ends⟩
  refine ⟨b, m₂, ?_, holds'⟩
  show (w.andThen g).run f m = _
  rw [run_andThen, Eval.bind_of_ok ends, ends']

theorem visit {n : Node} {post : Node → Prop}
    (answers : ∀ m, good n m → ∃ after m', f n m = (.ok after, m') ∧ post after) :
    Ensures f good (visit n done) post := by
  intro m each
  obtain ⟨after, m', answered, holds⟩ := answers m (each n m .here)
  exact ⟨after, m', Eval.bind_of_ok answered, holds⟩

/-- A dialogue in which every tree that meets the condition is answered does end. -/
theorem ends (answers : ∀ n m, good n m → ∃ after m', f n m = (.ok after, m')) (w : Walk α) :
    Ensures f good w fun _ => True := by
  induction w with
  | done a => exact .pure trivial
  | visit n next inductionHypothesis =>
      intro m each
      obtain ⟨after, m₁, answered⟩ := answers n m (each n m .here)
      obtain ⟨a, m', ends, _⟩ := inductionHypothesis after m₁ fun part m' reaches =>
        each part m' (.later answered reaches)
      exact ⟨a, m', (Eval.bind_of_ok answered).trans ends, trivial⟩

end Ensures

end Answers

end Walk

section Traversals

variable {f : Node → Eval Node}

/-- Being the dialogue with the answers of a function is kept by sequencing. -/
theorem Walk.sequential_run (f : Node → Eval Node) :
    Sequential fun α (p : Eval α) (w : Walk α) => p = w.run f where
  pure _ := rfl
  bind := by
    intro α β p w g h first next
    funext m
    have second : (fun a => (h a).run f) = g := funext fun a => (next a).symm
    show _ = (w.andThen h).run f m
    rw [Walk.run_andThen, first, second]

/-- A traversal is the dialogue of its tree with the answers of its function. -/
theorem transform_eq_run (n : Node) : n.transform f = (Walk.ofNode n).run f := by
  refine (Walk.sequential_run f).transform (fun part => ?_) n
  funext m
  show f part m = (f part >>= fun after => (Walk.done after).run f) m
  rcases answered : f part m with ⟨stop | after, m'⟩
  · rw [Eval.bind_of_error answered]
  · rw [Eval.bind_of_ok answered]
    rfl

/-- A traversal ends at once where its function stops. -/
theorem transform_of_stop {n part : Node} {m m' m'' : Machine} {s : Stop}
    (reaches : (Walk.ofNode n).Reaches f m part m') (stops : f part m' = (.error s, m'')) :
    n.transform f m = (.error s, m'') := by
  rw [transform_eq_run]
  obtain ⟨_, comes⟩ := reaches
  exact comes.stop stops

end Traversals

end Quill
