/-
Module: Quill.Proofs.Tree.Rejection
Layer: Proofs
Purpose: Roots whose answer is rejected. A tree that is to be transformed into one of its own kind gets an answer of
  another kind for its root. The tree that was handed over has all children transformed, but it is not the one that
  stays: what was done below the root is undone, and the tree is as it was before the walk. The two are the same for
  every function only if there are no children.
Main exports: Node.getLast?_calls, exists_answering_last, RejectionUndoes, rejected_root_undoes_walk
-/
import Quill.Proofs.Tree.Calls
import Quill.Proofs.Tree.Traversal

namespace Quill

variable {σ : Type}

/-- The tree that is handed over last is the root with its parts transformed. -/
theorem Node.getLast?_calls (f : Node → StateM σ Node) (s : σ) (n : Node) :
    (n.calls f s).getLast? = some (n.mapParts f s).1 := by
  obtain ⟨below, run, -, -⟩ := recorded_mapNode (f := f) n s
  have calls : n.calls f s = [] ++ below ++ [(n.mapParts f s).1] := by
    have inTurn : n.calls f s = (recording f (n.mapParts (recording f) (s, [])).1
      (n.mapParts (recording f) (s, [])).2).2.2 := rfl
    rw [inTurn, run]
    rfl
  rw [calls, List.getLast?_concat]

/-- A tree without children is handed over as it is. -/
theorem Node.mapParts_of_childless (f : Node → StateM σ Node) (s : σ) : ∀ {n : Node}, n.children = [] →
    (n.mapParts f s).1 = n
  | .program ⟨[]⟩, _ | .block [], _ | .expr (.array []), _ | .expr (.hash []), _ => rfl
  | .expr (.conditional [] none), _ | .expr (.ident _), _ | .expr (.integer _), _ | .expr (.float _), _ => rfl
  | .expr (.boolean _), _ | .expr (.text _), _ | .expr .null, _ => rfl
  | .stmt s, childless => by cases s <;> cases childless
  -- the children of a function begin with its parameters, but there is always a body
  | .expr (.function _ params _), childless | .expr (.macroLiteral params _), childless => by
      cases params <;> cases childless

section Rejections

variable {f : Node → StateM σ Node} {s : σ}

theorem Node.transformInKind_of_rejected {n : Node} (rejected : (n.transform f s).1.kind ≠ n.kind) :
    n.transformInKind f s = (n, (n.transform f s).2) :=
  congrArg (·, (n.transform f s).2) (if_neg rejected)

theorem Program.transform_of_rejected {p : Program}
    (rejected : ((Node.program p).transform f s).1.kind ≠ (Node.program p).kind) :
    p.transform f s = (p, ((Node.program p).transform f s).2) := by
  rcases walked : (Node.program p).transform f s with ⟨after, s'⟩
  rw [walked] at rejected
  simp only [Program.transform, bind, StateT.bind, walked]
  cases after with
  | program after => exact absurd rfl rejected
  | _ => rfl

end Rejections

/-!
### Rejecting the root only

The walk below the root is that of any function we like; the answer for the root is any tree we like. The function
tells the root by the number of trees that it was handed before.
-/

/-- Answers as `g` does until so many trees are written down, and with the tree `last` from then on. -/
def answeringUpTo (limit : Nat) (g : Node → StateM σ Node) (last n : Node) : StateM (σ × List Node) Node :=
  fun (s, log) => if log.length < limit then recording g n (s, log) else (last, s, log ++ [n])

/-- The second computation only adds to what is written down, and as long as no more than so many trees are, the first
    one does the same. -/
def SameUpTo (limit : Nat) (α : Type) (p p' : StateM (σ × List Node) α) : Prop :=
  (∀ s, s.2.length ≤ (p' s).2.2.length) ∧ ∀ s, (p' s).2.2.length ≤ limit → p s = p' s

theorem sequential_sameUpTo (limit : Nat) : Sequential (@SameUpTo σ limit) where
  pure a := ⟨fun _ => Nat.le_refl _, fun _ _ => rfl⟩
  bind := by
    intro α β p p' q q' first next
    have grows : ∀ s, (p' s).2.2.length ≤ ((p' >>= q') s).2.2.length := fun s => (next (p' s).1).1 (p' s).2
    refine ⟨fun s => Nat.le_trans (first.1 s) (grows s), fun s within => ?_⟩
    have same : p s = p' s := first.2 s (Nat.le_trans (grows s) within)
    have same' : q (p' s).1 (p' s).2 = q' (p' s).1 (p' s).2 := (next (p' s).1).2 (p' s).2 within
    show q (p s).1 (p s).2 = q' (p' s).1 (p' s).2
    rw [same, same']

theorem sameUpTo_answeringUpTo (limit : Nat) (g : Node → StateM σ Node) (last n : Node) :
    SameUpTo limit Node (answeringUpTo limit g last n) (recording g n) := by
  constructor
  · rintro ⟨s, log⟩
    show log.length ≤ (log ++ [n]).length
    rw [List.length_append]
    omega
  · rintro ⟨s, log⟩ within
    have writes : (log ++ [n]).length ≤ limit := within
    rw [List.length_append, List.length_singleton] at writes
    exact if_pos writes

/-- For every function there is one under which the same tree is handed over for the root, but answered with a tree of
    our choice. -/
theorem exists_answering_last (g : Node → StateM σ Node) (s : σ) (n last : Node) :
    ∃ f : Node → StateM (σ × List Node) Node,
      (n.mapParts f (s, [])).1 = (n.mapParts g s).1 ∧ (n.transform f (s, [])).1 = last := by
  obtain ⟨below, run, kept, -⟩ := recorded_mapNode (f := g) n s
  have count : below.length = n.parts.length := by simpa using congrArg List.length kept.outline
  have recorded : n.mapParts (recording g) (s, []) = ((n.mapParts g s).1, (n.mapParts g s).2, below) := run []
  let f := answeringUpTo n.parts.length g last
  have same : n.mapParts f (s, []) = ((n.mapParts g s).1, (n.mapParts g s).2, below) := by
    rw [← recorded]
    refine ((sequential_sameUpTo _).mapNode (sameUpTo_answeringUpTo _ g last) n).2 (s, []) ?_
    rw [recorded]
    exact Nat.le_of_eq count
  refine ⟨f, by rw [same], ?_⟩
  show (f (n.mapParts f (s, [])).1 (n.mapParts f (s, [])).2).1 = last
  rw [same]
  have full : ¬ below.length < n.parts.length := Nat.not_lt_of_le (Nat.le_of_eq count.symm)
  exact congrArg Prod.fst (if_neg full)

/-!
### Changing the children
-/

/-- A tree of the same kind that consists of a name. -/
def Node.named (name : String) : Node → Node
  | program _ => .program ⟨[.expr (.ident name)]⟩
  | block _ => .block [.expr (.ident name)]
  | stmt _ => .stmt (.expr (.ident name))
  | expr _ => .expr (.ident name)

/-- Answers every tree with a name. -/
def answeringNamed (name : String) (n : Node) : StateM Unit Node :=
  pure (n.named name)

theorem Node.named_injective {name name' : String} {n : Node} (same : n.named name = n.named name') :
    name = name' := by
  cases n <;> simpa [named] using same

theorem Node.exists_kind_ne (n : Node) : ∃ other : Node, other.kind ≠ n.kind := by
  cases n with
  | program p => exact ⟨.block [], nofun⟩
  | _ => exact ⟨.program ⟨[]⟩, nofun⟩

/-- If every tree is answered with a name, the first child becomes one. -/
theorem Node.head?_children_answeringNamed (name : String) (n : Node) :
    (n.mapParts (answeringNamed name) ()).1.children.head? = n.children.head?.map (Node.named name) := by
  cases n with
  | program p => rcases p with ⟨_ | ⟨first, rest⟩⟩ <;> rfl
  | block b => cases b <;> rfl
  | stmt s => cases s <;> rfl
  | expr e =>
      cases e with
      | array items => cases items <;> rfl
      | hash pairs => cases pairs <;> rfl
      | conditional clauses otherwise => cases clauses <;> cases otherwise <;> rfl
      | function function params body => cases params <;> rfl
      | macroLiteral params body => cases params <;> rfl
      | _ => rfl

/-- A tree that stays as it is whatever name its children become has no children. -/
theorem Node.childless_of_unchanged {n : Node} (unchanged : ∀ name, (n.mapParts (answeringNamed name) ()).1 = n) :
    n.children = [] := by
  have first : ∀ name, n.children.head? = n.children.head?.map (Node.named name) := by
    intro name
    rw [← n.head?_children_answeringNamed name, unchanged]
  rcases children : n.children with _ | ⟨child, others⟩
  · rfl
  · rw [children] at first
    have same : child.named "a" = child.named "b" := by
      rw [← Option.some.inj (first "a"), ← Option.some.inj (first "b")]
    exact absurd (Node.named_injective same) (by decide)

/-!
### Main result
-/

/-- What becomes of a tree that is transformed into one of its own kind, if the answer for its root is of another
    kind. -/
structure RejectionUndoes (n : Node) : Prop where
  /-- the tree is as it was before the walk, and only the state tells that there was one -/
  restored : ∀ {σ : Type} (f : Node → StateM σ Node) (s : σ), (n.transform f s).1.kind ≠ n.kind →
    n.transformInKind f s = (n, (n.transform f s).2)
  /-- so is a program -/
  restoredProgram : ∀ {σ : Type} (f : Node → StateM σ Node) (s : σ) (p : Program), n = .program p →
    (n.transform f s).1.kind ≠ n.kind → p.transform f s = (p, (n.transform f s).2)
  /-- it is the tree that was handed over for the root, whatever the function, just in case there are no children -/
  childless : (∀ {σ : Type} (f : Node → StateM σ Node) (s : σ), (n.transform f s).1.kind ≠ n.kind →
    (n.calls f s).getLast? = some (n.transformInKind f s).1) ↔ n.children = []

/-- An answer of another kind for the root undoes the walk. -/
theorem rejected_root_undoes_walk (n : Node) : RejectionUndoes n where
  restored _ _ rejected := Node.transformInKind_of_rejected rejected
  restoredProgram := by
    rintro σ f s p rfl rejected
    exact Program.transform_of_rejected rejected
  childless := by
    constructor
    · intro keeps
      refine Node.childless_of_unchanged fun name => ?_
      obtain ⟨last, otherKind⟩ := n.exists_kind_ne
      obtain ⟨f, handed, answered⟩ := exists_answering_last (answeringNamed name) () n last
      have rejected : (n.transform f ((), [])).1.kind ≠ n.kind := by rwa [answered]
      have kept := keeps f ((), []) rejected
      rw [Node.getLast?_calls, Node.transformInKind_of_rejected rejected, handed] at kept
      exact Option.some.inj kept
    · intro childless σ f s rejected
      rw [Node.getLast?_calls, Node.transformInKind_of_rejected rejected, Node.mapParts_of_childless f s childless]

/-- If numbers become 2 and an array becomes a statement, `[2]` is handed over for the root of `[1]`, but what stays is
    `[1]`. -/
theorem rejected_root_loses_change_below :
    let f : Node → StateM Unit Node
      | .expr (.integer _) => pure (.expr (.integer 2))
      | .expr (.array _) => pure (.stmt (.expr (.integer 3)))
      | n => pure n
    let n : Node := .expr (.array [.integer 1])
    (n.transform f ()).1.kind ≠ n.kind ∧ (n.calls f ()).getLast? = some (.expr (.array [.integer 2])) ∧
      (n.transformInKind f ()).1 = .expr (.array [.integer 1]) :=
  ⟨nofun, rfl, rfl⟩

end Quill
