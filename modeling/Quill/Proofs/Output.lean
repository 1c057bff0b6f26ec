/-
Module: Quill.Proofs.Output
Layer: Proofs
Purpose: A refused byte stops everything at once. A program that prints to a sink of some capacity does what it
  does with an unlimited sink for as long as everything fits. At the first byte that does not fit, it fails:
  it has printed exactly the bytes that fit, and nothing else is evaluated, called, bound or printed.
  The last point is stated with an evaluator that exchanges the machine for another one at the refusal and
  raises an alarm whenever something is evaluated or called in a machine without a limit: it ends in just
  that machine, and without alarm.
Main exports: Machine.limited, Cuts, evalAlarmed, evalProgram_limited
-/
import Quill.Proofs.Simulation

namespace Quill

/-- The machine with a sink that holds at most `n` bytes. -/
def Machine.limited (n : Nat) (m : Machine) : Machine :=
  { m with sink := { m.sink with capacity := some n } }

/-- The fault with which a program fails whose output is refused. -/
def refused : Stop :=
  .fault (.output Sink.refusal)

/-!
### Sinks
-/

theorem extract_append_of_le {n : Nat} {a b : ByteArray} (enough : n ≤ a.size) :
    (a ++ b).extract 0 n = a.extract 0 n := by
  rw [ByteArray.extract_append, Nat.sub_eq_zero_of_le enough]
  simp

theorem extract_append_of_size_le {n : Nat} {a b : ByteArray} (fitted : a.size ≤ n) :
    (a ++ b).extract 0 n = a ++ b.extract 0 (n - a.size) := by
  have whole : a.extract 0 n = a := by
    apply ByteArray.ext
    rw [ByteArray.data_extract]
    exact Array.extract_eq_self_of_le fitted
  rw [ByteArray.extract_append, whole, Nat.zero_sub]

namespace Sink

variable {n : Nat} {written bytes : ByteArray}

theorem write_of_fits (fitted : (written ++ bytes).size ≤ n) :
    write ⟨written, some n⟩ bytes = (true, ⟨written ++ bytes, some n⟩) := by
  rw [ByteArray.size_append] at fitted
  have room : bytes.size ≤ n - written.size := by omega
  simp [write, room]

/-- Bytes that do not fit are kept as far as they fit. -/
theorem write_of_overflows (fitted : written.size ≤ n) (tooMuch : n < (written ++ bytes).size) :
    write ⟨written, some n⟩ bytes = (false, ⟨(written ++ bytes).extract 0 n, some n⟩) := by
  rw [ByteArray.size_append] at tooMuch
  have noRoom : ¬bytes.size ≤ n - written.size := by omega
  simp [write, noRoom, extract_append_of_size_le fitted]

end Sink

/-!
### Runs cut short
-/

/-- With room for `n` bytes, `p'` does what `p` does without a limit, up to the first byte that does not fit.
    There it fails, and ends in what `ending` makes of the machine that it has reached. -/
structure Cuts (n : Nat) (ending : Machine → Machine) (α : Type) (p p' : Eval α) : Prop where
  prints : ∀ m, m.sink.capacity = none →
    (p m).2.sink.capacity = none ∧ ∃ more, (p m).2.sink.written = m.sink.written ++ more
  fits : ∀ m, m.sink.capacity = none → (p m).2.sink.written.size ≤ n →
    p' (m.limited n) = ((p m).1, (p m).2.limited n)
  overflows : ∀ m, m.sink.capacity = none → m.sink.written.size ≤ n → n < (p m).2.sink.written.size →
    ∃ reached : Machine, reached.sink = ⟨(p m).2.sink.written.extract 0 n, some n⟩ ∧
      p' (m.limited n) = (.error refused, ending reached)

namespace Cuts

variable {n : Nat} {ending : Machine → Machine} {α β : Type}

/-- Computations that neither print nor look at the sink. -/
theorem silent {p : Eval α}
    (blind : ∀ m sink, p { m with sink := sink } = ((p m).1, { (p m).2 with sink := sink })) :
    Cuts n ending α p p := by
  have quiet : ∀ m, (p m).2.sink = m.sink := by
    intro m
    exact congrArg (fun run => run.2.sink) (blind m m.sink)
  refine ⟨fun m isOpen => ?_, fun m _ _ => ?_, fun m _ fitted tooMuch => ?_⟩
  · rw [quiet]
    exact ⟨isOpen, ByteArray.empty, ByteArray.append_empty.symm⟩
  · rw [Machine.limited, blind, Machine.limited, quiet]
  · rw [quiet] at tooMuch
    exact absurd fitted (Nat.not_le_of_lt tooMuch)

/-- What is printed first is part of what is printed in all. -/
theorem bind {p p' : Eval α} {f f' : α → Eval β} (first : Cuts n ending α p p')
    (next : ∀ a, Cuts n ending β (f a) (f' a)) : Cuts n ending β (p >>= f) (p' >>= f') where
  prints m isOpen := by
    obtain ⟨isOpen', more, written⟩ := first.prints m isOpen
    rcases run : p m with ⟨stop | a, m'⟩ <;> rw [run] at isOpen' written
    · rw [Eval.bind_of_error run]
      exact ⟨isOpen', more, written⟩
    · rw [Eval.bind_of_ok run]
      obtain ⟨isOpen'', more', written'⟩ := (next a).prints m' isOpen'
      exact ⟨isOpen'', more ++ more', by rw [written', written, ByteArray.append_assoc]⟩
  fits m isOpen fitted := by
    have isOpen' := (first.prints m isOpen).1
    have limited := first.fits m isOpen
    rcases run : p m with ⟨stop | a, m'⟩ <;> rw [run] at isOpen' limited
    · rw [Eval.bind_of_error run] at fitted ⊢
      exact Eval.bind_of_error (limited fitted)
    · rw [Eval.bind_of_ok run] at fitted ⊢
      obtain ⟨_, more, written⟩ := (next a).prints m' isOpen'
      have fittedFirst : m'.sink.written.size ≤ n := by
        rw [written, ByteArray.size_append] at fitted
        omega
      rw [Eval.bind_of_ok (limited fittedFirst)]
      exact (next a).fits m' isOpen' fitted
  overflows m isOpen room tooMuch := by
    have isOpen' := (first.prints m isOpen).1
    have limited := first.fits m isOpen
    have cut := first.overflows m isOpen room
    rcases run : p m with ⟨stop | a, m'⟩ <;> rw [run] at isOpen' limited cut
    · rw [Eval.bind_of_error run] at tooMuch ⊢
      obtain ⟨reached, atLimit, fails⟩ := cut tooMuch
      exact ⟨reached, atLimit, Eval.bind_of_error fails⟩
    · rw [Eval.bind_of_ok run] at tooMuch ⊢
      by_cases fittedFirst : m'.sink.written.size ≤ n
      · rw [Eval.bind_of_ok (limited fittedFirst)]
        exact (next a).overflows m' isOpen' fittedFirst tooMuch
      · -- the first part alone is refused, and what the second part prints lies behind the limit
        have tooMuchFirst := Nat.lt_of_not_le fittedFirst
        obtain ⟨reached, atLimit, fails⟩ := cut tooMuchFirst
        obtain ⟨_, more, written⟩ := (next a).prints m' isOpen'
        refine ⟨reached, ?_, Eval.bind_of_error fails⟩
        rw [atLimit, written, extract_append_of_le (Nat.le_of_lt tooMuchFirst)]

theorem simulation (n : Nat) (ending : Machine → Machine) : Simulation (Cuts n ending) where
  pure _ := silent fun _ _ => rfl
  bind := bind
  stop _ := silent fun _ _ => rfl
  newScope _ := silent fun _ _ => rfl
  lookup _ _ := silent fun _ _ => rfl
  bindAt place name binding := by
    refine silent fun m sink => ?_
    rcases found : place m.store with f | owner <;> simp [Eval.bindAt, found]
  freshIdentity := silent fun _ _ => rfl

/-!
### Printing
-/

theorem write (text : String) : Cuts n id Unit (Eval.write text) (Eval.write text) where
  prints := by
    rintro ⟨store, next, written, _⟩ rfl
    exact ⟨rfl, text.toUTF8, rfl⟩
  fits := by
    rintro ⟨store, next, written, _⟩ rfl fitted
    show Eval.write text ⟨store, next, written, some n⟩ = _
    rw [Eval.write, Sink.write_of_fits fitted]
    rfl
  overflows := by
    rintro ⟨store, next, written, _⟩ rfl room tooMuch
    refine ⟨⟨store, next, (written ++ text.toUTF8).extract 0 n, some n⟩, rfl, ?_⟩
    show Eval.write text ⟨store, next, written, some n⟩ = _
    rw [Eval.write, Sink.write_of_overflows room tooMuch]
    rfl

theorem printLines (vs : List Value) : Cuts n id Value (Builtin.printLines vs) (Builtin.printLines vs) := by
  induction vs with
  | nil => exact (simulation n id).pure Value.null
  | cons v rest inductionHypothesis => exact (write _).bind fun _ => inductionHypothesis

theorem callBuiltin (b : Builtin) (args : List Value) : Cuts n id Value (b.call args) (b.call args) := by
  unfold Builtin.call
  split
  · exact printLines args
  · split
    · exact (simulation n id).ofExcept _
    · exact (simulation n id).stop _

end Cuts

/-- Evaluation with a limit is evaluation without one, cut short. -/
theorem evalExpr_cuts (n bound : Nat) (e : Expr) (scope : ScopeId) :
    Cuts n id Value (evalExpr bound e scope) (evalExpr bound e scope) := by
  have simulation := Cuts.simulation n id
  induction bound generalizing e scope with
  | zero => exact simulation.stop .exhausted
  | succ bound inductionHypothesis =>
      refine simulation.evalForm inductionHypothesis (fun f args => ?_) bound scope e
      cases f with
      | function c => exact simulation.applyClosure inductionHypothesis c args
      | builtin b => exact Cuts.callBuiltin b args
      | _ => exact simulation.stop _

/-!
### Nothing happens after a refusal
-/

namespace Eval

/-- Ends in another machine if output is refused. -/
def exchanging {α : Type} (after : Machine) (p : Eval α) : Eval α :=
  fun m =>
    match p m with
    | (.error (.fault (.output reason)), _) => (.error (.fault (.output reason)), after)
    | other => other

/-- Raises an alarm in a machine whose sink has no limit. -/
def whileLimited {α : Type} (alarm p : Eval α) : Eval α :=
  fun m => if m.sink.capacity.isSome then p m else alarm m

end Eval

/-- Calls like `applyValue`, and goes on in the machine `after` once output is refused. Calls in a machine
    without a limit raise the alarm. -/
def callAlarmed (alarm : Eval Value) (after : Machine) (ev : Evaluator) : Caller :=
  fun f args => Eval.whileLimited alarm
    (match f with
      | .builtin b => (b.call args).exchanging after
      | other => applyValue ev other args)

/-- Evaluates like `evalExpr`, and goes on in the machine `after` once output is refused. Whatever is evaluated
    in a machine without a limit raises the alarm; so if `after` has none, all that is evaluated after a refusal
    does. -/
def evalAlarmed (alarm : Eval Value) (after : Machine) : (bound : Nat) → Evaluator
  | 0, _, _ => Eval.whileLimited alarm Eval.exhausted
  | bound + 1, e, scope =>
    let call := callAlarmed alarm after (evalAlarmed alarm after bound)
    Eval.whileLimited alarm (evalForm (evalAlarmed alarm after bound) call bound scope e)

namespace Cuts

variable {n : Nat} {α : Type}

/-- The runs that are compared have a limit. -/
theorem whileLimited {ending : Machine → Machine} {alarm p p' : Eval α} (cuts : Cuts n ending α p p') :
    Cuts n ending α p (Eval.whileLimited alarm p') :=
  ⟨cuts.prints, cuts.fits, cuts.overflows⟩

/-- A computation whose output is refused only if it is limited ends in the other machine just when it is
    cut short. -/
theorem exchanging {p : Eval α} (after : Machine) (cuts : Cuts n id α p p)
    (delivers : ∀ m, m.sink.capacity = none → ∀ reason, (p m).1 ≠ .error (.fault (.output reason))) :
    Cuts n (fun _ => after) α p (p.exchanging after) where
  prints := cuts.prints
  fits m isOpen fitted := by
    have limited := cuts.fits m isOpen fitted
    have delivered := delivers m isOpen
    rcases run : p m with ⟨result, m'⟩
    rw [run] at limited delivered
    unfold Eval.exchanging
    rw [limited]
    split
    · rename_i reason _ isRefusal
      cases isRefusal
      exact absurd rfl (delivered reason)
    · rfl
  overflows m isOpen room tooMuch := by
    obtain ⟨reached, atLimit, fails⟩ := cuts.overflows m isOpen room tooMuch
    refine ⟨reached, atLimit, ?_⟩
    unfold Eval.exchanging
    rw [fails]
    rfl

end Cuts

theorem printLines_delivers (vs : List Value) : ∀ m : Machine, m.sink.capacity = none → ∀ reason,
    (Builtin.printLines vs m).1 ≠ .error (.fault (.output reason)) := by
  induction vs with
  | nil => simp [Builtin.printLines, pure, Eval.yield]
  | cons v rest inductionHypothesis =>
      rintro ⟨store, next, written, _⟩ rfl reason
      exact inductionHypothesis _ rfl reason

theorem callBuiltin_delivers (b : Builtin) (args : List Value) (m : Machine) (isOpen : m.sink.capacity = none)
    (reason : String) : (b.call args m).1 ≠ .error (.fault (.output reason)) := by
  cases takes : b.arity? with
  | none =>
      simp only [Builtin.call, takes]
      exact printLines_delivers args m isOpen reason
  | some count =>
      simp only [Builtin.call, takes]
      split
      · unfold Builtin.value
        split <;> simp [Eval.ofExcept, Eval.yield, Eval.fault, Eval.stop]
      · simp [Eval.fault, Eval.stop]

theorem callAlarmed_cuts {n : Nat} {ev ev' : Evaluator} (alarm : Eval Value) (after : Machine)
    (evaluates : ∀ e scope, Cuts n (fun _ => after) Value (ev e scope) (ev' e scope)) (f : Value)
    (args : List Value) :
    Cuts n (fun _ => after) Value (applyValue ev f args) (callAlarmed alarm after ev' f args) := by
  have simulation := Cuts.simulation n fun _ => after
  refine Cuts.whileLimited ?_
  cases f with
  | function c => exact simulation.applyClosure evaluates c args
  | builtin b => exact (Cuts.callBuiltin b args).exchanging after (callBuiltin_delivers b args)
  | _ => exact simulation.stop _

theorem evalAlarmed_cuts (n : Nat) (alarm : Eval Value) (after : Machine) (bound : Nat) (e : Expr)
    (scope : ScopeId) :
    Cuts n (fun _ => after) Value (evalExpr bound e scope) (evalAlarmed alarm after bound e scope) := by
  have simulation := Cuts.simulation n fun _ => after
  induction bound generalizing e scope with
  | zero => exact Cuts.whileLimited (simulation.stop .exhausted)
  | succ bound inductionHypothesis =>
      have calls := callAlarmed_cuts alarm after inductionHypothesis
      exact Cuts.whileLimited (simulation.evalForm inductionHypothesis calls bound scope e)

/-!
### Programs
-/

/-- What holds of a program's statements holds of the program, which yields the fault with which it fails. -/
theorem evalProgramBy_limited {n : Nat} {ending : Machine → Machine} {ev ev' : Evaluator}
    (evaluates : ∀ e scope, Cuts n ending Value (ev e scope) (ev' e scope)) (p : Program) (scope : ScopeId)
    {m : Machine} (isOpen : m.sink.capacity = none) (room : m.sink.written.size ≤ n) :
    let full := evalProgramBy ev p scope m
    (full.2.sink.written.size ≤ n → evalProgramBy ev' p scope (m.limited n) = (full.1, full.2.limited n)) ∧
    (n < full.2.sink.written.size →
      ∃ reached : Machine, reached.sink = ⟨full.2.sink.written.extract 0 n, some n⟩ ∧
        evalProgramBy ev' p scope (m.limited n) =
          (.ok (.error (.output Sink.refusal)), ending reached)) := by
  have cuts := (Cuts.simulation n ending).evalBlock evaluates scope p.statements
  have machine : (evalProgramBy ev p scope m).2 = (evalBlock ev scope p.statements m).2 := by
    rcases run : evalBlock ev scope p.statements m with ⟨(f | x | _) | v, m'⟩ <;> simp [evalProgramBy, run]
  intro full
  refine ⟨fun fitted => ?_, fun tooMuch => ?_⟩
  · have limited := cuts.fits m isOpen (by rwa [← machine])
    rcases run : evalBlock ev scope p.statements m with ⟨(f | x | _) | v, m'⟩ <;>
      simp [full, evalProgramBy, limited, run]
  · rw [show full.2 = _ from machine] at tooMuch ⊢
    obtain ⟨reached, atLimit, fails⟩ := cuts.overflows m isOpen room tooMuch
    exact ⟨reached, atLimit, by simp [evalProgramBy, fails, refused]⟩

/-- A failed write stops everything at once. Let a program print `printed` without a limit. With room for all
    of it, the program does the same. With less room, it prints just the bytes that fit and yields the fault of
    the output; and from the refusal on, nothing is evaluated or called and the machine is left as it is. -/
theorem evalProgram_limited (bound : Nat) (p : Program) (scope : ScopeId) (store : Store) (next n : Nat) :
    let full := evalProgram bound p scope ⟨store, next, Sink.unlimited⟩
    let m : Machine := ⟨store, next, Sink.ofCapacity (some n)⟩
    let cut := evalProgram bound p scope m
    let printed := full.2.sink.written
    (printed.size ≤ n →
      cut.1 = full.1 ∧ cut.2.sink.written = printed ∧ cut.2.store = full.2.store ∧
        cut.2.nextIdentity = full.2.nextIdentity) ∧
    (n < printed.size →
      cut.1 = .ok (.error (.output Sink.refusal)) ∧ cut.2.sink.written = printed.extract 0 n ∧
        ∀ alarm after, evalProgramBy (evalAlarmed alarm after bound) p scope m =
          (.ok (.error (.output Sink.refusal)), after)) := by
  intro full m cut printed
  have plain := evalProgramBy_limited (evalExpr_cuts n bound) p scope
    (m := ⟨store, next, Sink.unlimited⟩) rfl (Nat.zero_le n)
  refine ⟨fun fitted => ?_, fun tooMuch => ?_⟩
  · have same : cut = (full.1, full.2.limited n) := plain.1 fitted
    rw [same]
    exact ⟨rfl, rfl, rfl, rfl⟩
  · obtain ⟨reached, atLimit, fails⟩ := plain.2 tooMuch
    have isCut : cut = (.ok (.error (.output Sink.refusal)), reached) := fails
    refine ⟨by rw [isCut], ?_, fun alarm after => ?_⟩
    · rw [isCut]
      exact congrArg Sink.written atLimit
    · have alarmed := evalProgramBy_limited (evalAlarmed_cuts n alarm after bound) p scope
        (m := ⟨store, next, Sink.unlimited⟩) rfl (Nat.zero_le n)
      obtain ⟨_, _, failsQuietly⟩ := alarmed.2 tooMuch
      exact failsQuietly

/-- The second of two lines is refused after its first byte. -/
theorem evalProgram_limited_within_line :
    let p : Program :=
      ⟨[.expr (.call (.ident "puts") [.text "hi"]), .expr (.call (.ident "puts") [.text "there"])]⟩
    let m : Machine := ⟨⟨#[⟨none, []⟩]⟩, 0, Sink.ofCapacity (some 4)⟩
    (evalProgram 2 p 0 m).1 = .ok (.error (.output Sink.refusal)) ∧
      (evalProgram 2 p 0 m).2.sink.written = "hi\nt".toUTF8 ∧
        ∀ alarm after, evalProgramBy (evalAlarmed alarm after 2) p 0 m =
          (.ok (.error (.output Sink.refusal)), after) := by
  intro p m
  have limited := (evalProgram_limited 2 p 0 ⟨#[⟨none, []⟩]⟩ 0 4).2 (by decide)
  exact ⟨limited.1, limited.2.1.trans rfl, limited.2.2⟩

end Quill
