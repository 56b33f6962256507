/-
Signals stand for completions. A statement that completes abruptly leaves a
signal in the activation, and whatever encloses it must look for the signal in
the right place: a block after each statement, a loop after each round, and
nothing in between may run while one is set. `Encoding` says how an outcome is
told by signals and a value; `Run.Encodes` says that a run from a state without
signals does what a run with outcomes does and then tells the outcome. The
second run never sets a signal, and that is the invariant that carries every
case: between statements there is none.

`runBody_completes` is the result: from an activation without signals a body
runs as the semantics in `OpTree.Proofs.Completion` says.
-/
import OpTree.Proofs.Completion
import OpTree.Proofs.Growth
import OpTree.Scripted

namespace OpTree

/-- No signal is set. -/
def Machine.Clear {σ : Type} (s : Machine σ) : Prop := s.activation.interrupted = false

/-- The signal that tells a completion. -/
def Completion.signal : Completion → Activation → Activation
  | normal _, a => a
  | broke, a => { a with branch := some .breakLoop }
  | continued, a => { a with branch := some .continueLoop }
  | returned v, a => { a with pendingReturn := some v }

def Completion.isAbrupt : Completion → Bool
  | normal _ => false
  | broke | continued | returned _ => true

/-- How an outcome is told: by the signal of a completion and by a value. -/
structure Encoding (β α : Type) where
  completion : β → Completion
  value : β → α

namespace Encoding

def silent {α : Type} : Encoding α α := ⟨fun _ => .normal .void, id⟩

/-- A statement's completion; an abrupt one has no value. -/
def statement : Encoding Completion Value where
  completion := id
  value
    | .normal v => v
    | _ => .void

/-- A round's outcome: whether there is another round, and what was returned. -/
def round : Encoding Round Bool where
  completion
    | .again | .ends => .normal .void
    | .returns v => .returned v
  value
    | .again => true
    | .ends | .returns _ => false

/-- Tell an outcome. -/
def tell {σ α β : Type} (e : Encoding β α) (b : β) : Run (Machine σ) α := do
  Run.modifyActivation (e.completion b).signal
  return e.value b

end Encoding

namespace Completion

/-- A statement leaves a signal when it completes abruptly. -/
theorem interrupted_signal {σ : Type} (k : Completion) {s : Machine σ} (hs : s.Clear) :
    (k.signal s.activation).interrupted = k.isAbrupt := by
  cases k with
  | normal v => exact hs
  | broke | continued | returned => simp [signal, isAbrupt, Activation.interrupted]

theorem scopes_signal (k : Completion) (a : Activation) :
    { k.signal a with scopes := (k.signal a).scopes.tail } = k.signal { a with scopes := a.scopes.tail } := by
  cases k <;> rfl

end Completion

namespace Run

variable {σ α β γ δ : Type}

/-- From a state without signals the first run does what the second one does,
and then tells the outcome. The second run sets no signal. -/
def Encodes (e : Encoding β α) (m : Run (Machine σ) α) (m' : Run (Machine σ) β) : Prop :=
  ∀ s, s.Clear → m s = (m' >>= e.tell) s ∧ (m' s).2.Clear

namespace Encodes

theorem bind {e : Encoding β α} {e' : Encoding δ γ} {m : Run (Machine σ) α}
    {m' : Run (Machine σ) β} {f : α → Run (Machine σ) γ} {f' : β → Run (Machine σ) δ}
    (h : Encodes e m m') (hf : ∀ b, Encodes e' (e.tell b >>= f) (f' b)) :
    Encodes e' (m >>= f) (m' >>= f') := by
  intro s hs
  obtain ⟨hm, hc⟩ := h s hs
  have hbind : (m >>= f) s = (m' >>= fun b => e.tell b >>= f) s := by
    rw [← bind_assoc, bind_def, hm, ← bind_def (m' >>= e.tell) f]
  rw [hbind, bind_assoc]
  simp only [bind_def]
  rcases hr : m' s with ⟨r, t⟩
  rw [hr] at hc
  cases r with
  | error x => exact ⟨rfl, hc⟩
  | ok b => exact hf b t hc

theorem tell (e : Encoding β α) (b : β) : Encodes (σ := σ) e (e.tell b) (Pure.pure b) :=
  fun _ hs => ⟨rfl, hs⟩

theorem pure (a : α) : Encodes (σ := σ) .silent (Pure.pure a) (Pure.pure a) :=
  fun _ hs => ⟨rfl, hs⟩

theorem exhausted (e : Encoding β α) : Encodes (σ := σ) e Run.exhausted Run.exhausted :=
  fun _ hs => ⟨rfl, hs⟩

theorem silent {m : Run (Machine σ) α} (h : ∀ s, s.Clear → (m s).2.Clear) :
    Encodes .silent m m := by
  refine fun s hs => ⟨?_, h s hs⟩
  rw [bind_def]
  rcases m s with ⟨r, t⟩
  cases r <;> rfl

theorem normal {m : Run (Machine σ) Value} (h : Encodes .silent m m) :
    Encodes .statement m (do return .normal (← m)) := by
  intro s hs
  obtain ⟨hm, hc⟩ := h s hs
  rw [bind_def] at hm
  simp only [bind_def]
  rcases hr : m s with ⟨r, t⟩
  rw [hr] at hc
  cases r <;> exact ⟨rfl, hc⟩

/-- After a silent run the state is as clear as before it. -/
theorem after {e : Encoding δ γ} {m : Run (Machine σ) α} {f : α → Run (Machine σ) γ}
    {f' : α → Run (Machine σ) δ} (h : Encodes .silent m m) (hf : ∀ a, Encodes e (f a) (f' a)) :
    Encodes e (m >>= f) (m >>= f') :=
  bind h hf

theorem orSpan {e : Encoding β α} {m : Run (Machine σ) α} {m' : Run (Machine σ) β} (span : Span)
    (h : Encodes e m m') : Encodes e (Run.orSpan span m) (Run.orSpan span m') := by
  intro s hs
  obtain ⟨hm, hc⟩ := h s hs
  rw [bind_def] at hm ⊢
  simp only [Run.orSpan, hm]
  rcases hr : m' s with ⟨r, t⟩
  rw [hr] at hc
  rcases r with (x | _) | b <;> exact ⟨rfl, hc⟩

theorem withScope {e : Encoding β α} {m : Run (Machine σ) α} {m' : Run (Machine σ) β}
    (h : Encodes e m m') : Encodes e (Run.withScope m) (Run.withScope m') := by
  intro s hs
  obtain ⟨hm, hc⟩ := h s.inScope hs
  rw [bind_def] at hm ⊢
  rw [withScope_apply, withScope_apply, hm]
  rcases hr : m' s.inScope with ⟨r, t⟩
  rw [hr] at hc
  cases r with
  | error x => exact ⟨rfl, hc⟩
  | ok b =>
    refine ⟨?_, hc⟩
    simp only [Encoding.tell, Run.modifyActivation, bind_def, modify_def, pure_def,
      Machine.outOfScope, Completion.scopes_signal]

theorem ite {e : Encoding β α} {c : Prop} [Decidable c] {m n : Run (Machine σ) α}
    {m' n' : Run (Machine σ) β} (h : Encodes e m m') (h' : Encodes e n n') :
    Encodes e (if c then m else n) (if c then m' else n') := by
  split
  · exact h
  · exact h'

/-- Loops: the rounds of one tell what the rounds of the other come to. -/
theorem rounds {round : Run (Machine σ) Bool} {round' : Run (Machine σ) Round}
    (h : Encodes .round round round') (n : Nat) :
    Encodes .statement (do Run.repeatWhile round n; return .void) (Run.rounds round' n) := by
  induction n with
  | zero => exact exhausted .statement
  | succ n ih =>
    simp only [Run.repeatWhile, bind_assoc]
    refine bind h fun outcome => ?_
    cases outcome with
    | again => exact ih
    | ends => exact fun _ hs => ⟨rfl, hs⟩
    | returns v => exact tell .statement (.returned v)

end Encodes

end Run

namespace Node

theorem Plain.operand {x y : Node} (h : x.Plain) (hy : y ∈ x.op.operands) : y.Plain := by
  cases h with
  | mk _ below => exact below y hy

theorem Plain.signals {x : Node} (h : x.Plain) : x.op.signals = false := by
  cases h with
  | mk hs _ => exact hs

theorem Statement.items {span : Span} {statements : List Node}
    (h : Statement (.mk span (.block statements))) : ∀ x ∈ statements, x.Statement := by
  cases h with
  | plain hp => exact fun x hx => .plain (hp.operand hx)
  | block hs => exact hs

theorem Statement.condition {span : Span} {condition whenTrue : Node} {whenFalse : Option Node}
    (h : Statement (.mk span (.conditional condition whenTrue whenFalse))) : condition.Plain := by
  cases h with
  | plain hp => exact hp.operand (by simp [Node.op, Op.operands])
  | conditional hc _ _ => exact hc

theorem Statement.arms {span : Span} {condition whenTrue : Node} {whenFalse : Option Node}
    (h : Statement (.mk span (.conditional condition whenTrue whenFalse))) :
    whenTrue.Statement ∧ ∀ x ∈ whenFalse.toList, x.Statement := by
  cases h with
  | plain hp =>
    refine ⟨.plain (hp.operand (by simp [Node.op, Op.operands])), fun x hx => .plain (hp.operand ?_)⟩
    simp only [Node.op, Op.operands, List.mem_cons]
    exact .inr (.inr hx)
  | conditional _ ht hf => exact ⟨ht, hf⟩

end Node

/-- The plain nodes, as they are, which leave no signal. -/
def NodeTerms.plain {σ : Type} {host : Host σ} (W : WorldTerms host) : NodeTerms W :=
  { NodeTerms.all W with
    nodes := Node.Plain
    quiet := True
    operand := fun hx hy => hx.operand hy
    mentions := fun _ _ _ => trivial
    silent := fun _ hx => hx.signals
    selfless := fun h => absurd trivial h }

theorem Run.Agrees.clear {σ α : Type} {host : Host σ} {m : Run (Machine σ) α}
    (h : Run.Agrees (NodeTerms.plain (World.growing host False False)).machine m m) {s : Machine σ}
    (hs : s.Clear) : (m s).2.Clear := by
  rcases h.keepingMachine (s := s) rfl with ⟨-, -, -, hq⟩ | ⟨hl, -⟩ | ⟨hl, -⟩
  · obtain ⟨hr, hb⟩ := hq trivial
    rw [Machine.Clear, Activation.interrupted, hr, hb]
    exact hs
  · exact hl.elim
  · exact hl.elim

namespace Context

variable {σ : Type}

/-- Statements are evaluated to what they complete to, and plain nodes set no
signal. -/
structure Tells (c : Context σ) (run : Node → Run (Machine σ) Completion) : Prop where
  statement : ∀ {x}, x.Statement → Run.Encodes .statement (c.eval x) (run x)
  plain : ∀ {x}, x.Plain → Run.Encodes .silent (c.eval x) (c.eval x)
  operation : ∀ {span op}, Node.Plain (.mk span op) → Run.Encodes .silent (c.evalOp op) (c.evalOp op)

namespace Tells

variable {c : Context σ} {run : Node → Run (Machine σ) Completion} (h : c.Tells run)

include h

theorem test {x : Node} (hx : x.Plain) : Run.Encodes .silent (c.test x) (c.test x) :=
  .after (h.plain hx) fun _ => .silent fun _ hs => hs

theorem exec {x : Node} (hx : x.Plain) : Run.Encodes .silent (c.exec x) (c.exec x) :=
  .after (h.plain hx) fun _ => .pure ()

theorem execEach {xs : List Node} (hx : ∀ x ∈ xs, x.Plain) :
    Run.Encodes .silent (Run.forList c.exec xs) (Run.forList c.exec xs) := by
  induction xs with
  | nil => exact .pure ()
  | cons x xs ih =>
    exact .after (h.exec (hx x (by simp))) fun _ => ih fun y hy => hx y (by simp [hy])

/-- A block looks for a signal after each statement. -/
theorem execStatements {statements : List Node} (hx : ∀ x ∈ statements, x.Statement) :
    Run.Encodes .statement (do c.execStatements statements; return .void)
      (completeAll run statements) := by
  induction statements with
  | nil => exact .tell .statement (.normal .void)
  | cons x xs ih =>
    have rest := ih fun y hy => hx y (by simp [hy])
    simp only [Context.execStatements, Context.exec, Run.bind_assoc]
    refine .bind (h.statement (hx x (by simp))) fun completion s hs => ?_
    have interrupted : ((Encoding.statement.completion completion).signal s.activation).interrupted =
        completion.isAbrupt := completion.interrupted_signal hs
    cases completion with
    | normal v =>
      obtain ⟨hrest, hc⟩ := rest s hs
      refine ⟨?_, hc⟩
      rw [← hrest]
      simp only [Encoding.tell, Run.modifyActivation, Run.bind_def, Run.modify_def, Run.pure_def,
        Run.gets_def, interrupted, Completion.isAbrupt, Bool.false_eq_true, if_false]
      rfl
    | broke | continued | returned v =>
      refine ⟨?_, hs⟩
      simp only [Encoding.tell, Run.modifyActivation, Run.bind_def, Run.modify_def, Run.pure_def,
        Run.gets_def, interrupted, Completion.isAbrupt, if_true]
      rfl

theorem runBlock {statements : List Node} (hx : ∀ x ∈ statements, x.Statement) :
    Run.Encodes .statement (c.runBlock statements) (Run.withScope (completeAll run statements)) :=
  .withScope (h.execStatements hx)

theorem choose {condition whenTrue : Node} {whenFalse : Option Node} (hc : condition.Plain)
    (ht : whenTrue.Statement) (hf : ∀ x ∈ whenFalse.toList, x.Statement) :
    Run.Encodes .statement (c.choose condition whenTrue whenFalse)
      (c.completeArm run condition whenTrue whenFalse) := by
  refine .after (h.test hc) fun b => .ite (.withScope (h.statement ht)) ?_
  cases whenFalse with
  | some x => exact .withScope (h.statement (hf x (by simp)))
  | none => exact .tell .statement (.normal .void)

/-- A loop takes a branch back after its body, and leaves a return. -/
theorem execBody {body : Node} (hb : body.Statement) :
    Run.Encodes .round (c.execBody body) (completeBody run body) := by
  simp only [Context.execBody, Context.exec, completeBody, Run.bind_assoc]
  refine .bind (h.statement hb) fun completion s hs => ?_
  have hn : s.activation.pendingReturn = none ∧ s.activation.branch = none := by
    simpa [Machine.Clear, Activation.interrupted] using hs
  refine ⟨?_, hs⟩
  obtain ⟨w, a⟩ := s
  obtain ⟨base, scopes, inst, receivers, conditionals, inits, pending, branch, prepared⟩ := a
  obtain ⟨rfl, rfl⟩ := hn
  cases completion with
  | normal v | broke | continued | returned v => rfl

theorem guardedRound {condition body : Node} (hc : condition.Plain) (hb : body.Statement) :
    Run.Encodes .round (c.guardedRound condition body) (c.whileRound run condition body) :=
  .after (h.test hc) fun _ => .ite (h.execBody hb) (.tell .round .ends)

theorem runWhile {condition body : Node} (testFirst : Bool) (hc : condition.Plain)
    (hb : body.Statement) :
    Run.Encodes .statement (c.runWhile condition body testFirst)
      (c.completeWhile run condition body testFirst) := by
  have loop := (h.guardedRound hc hb).rounds c.fuel
  refine .withScope ?_
  cases testFirst with
  | true => exact loop
  | false =>
    refine .bind (h.execBody hb) fun outcome => ?_
    cases outcome with
    | again => exact loop
    | ends => exact .tell .statement (.normal .void)
    | returns v => exact .tell .statement (.returned v)

theorem steppedRound {condition : Option Node} {after : List Node} {body : Node}
    (hc : ∀ x ∈ condition.toList, x.Plain) (ha : ∀ x ∈ after, x.Plain) (hb : body.Statement) :
    Run.Encodes .round (c.steppedRound condition after body)
      (c.forRound run condition after body) := by
  cases condition
  case' some x => refine .after (h.test (hc x (by simp))) fun _ => ?_
  case' none => refine .after (.pure true) fun _ => ?_
  -- with or without a condition, what follows it is one
  all_goals
    refine .ite (.bind (h.execBody hb) fun outcome => ?_) (.tell .round .ends)
    cases outcome with
    | again => exact .after (h.execEach ha) fun _ => .tell .round .again
    | ends => exact .tell .round .ends
    | returns v => exact .tell .round (.returns v)

theorem runFor {before : List Node} {condition : Option Node} {after : List Node} {body : Node}
    (hp : ∀ x ∈ before, x.Plain) (hc : ∀ x ∈ condition.toList, x.Plain)
    (ha : ∀ x ∈ after, x.Plain) (hb : body.Statement) :
    Run.Encodes .statement (c.runFor before condition after body)
      (c.completeFor run before condition after body) :=
  .withScope (.after (h.execEach hp) fun _ => (h.steppedRound hc ha hb).rounds c.fuel)

theorem execItems (name : String) {body : Node} (hb : body.Statement) (items : List Value) :
    Run.Encodes .statement (do c.execItems name body items; return .void)
      (completeItems run name body items) := by
  induction items with
  | nil => exact .tell .statement (.normal .void)
  | cons item rest ih =>
    have agrees : Run.Agrees (NodeTerms.plain (World.growing c.host False False)).machine
        (Run.defineLocal name item) (Run.defineLocal name item) := .defineLocal name item
    have define := Run.Encodes.silent fun _ hs => agrees.clear hs
    simp only [Context.execItems, Run.bind_assoc]
    refine .bind (.withScope (.after define fun _ => h.execBody hb)) fun outcome => ?_
    cases outcome with
    | again => exact ih
    | ends => exact .tell .statement (.normal .void)
    | returns v => exact .tell .statement (.returned v)

theorem runForEach (name : String) {collection body : Node} (hc : collection.Plain)
    (hb : body.Statement) :
    Run.Encodes .statement (c.runForEach name collection body)
      (c.completeForEach run name collection body) := by
  refine .after (h.plain hc) fun v => .after (.silent fun _ hs => hs) fun items => ?_
  exact .after (.silent fun _ hs => hs) fun items => h.execItems name hb items

theorem evalReturn {value : Option Node} (hv : ∀ x ∈ value.toList, x.Plain) :
    Run.Encodes .statement (c.evalReturn value) (c.completeOp run (.returnWith value)) := by
  cases value with
  | some x => exact .after (h.plain (hv x (by simp))) fun v => .tell .statement (.returned v)
  | none => exact .tell .statement (.returned .void)

/-- Every operation of a statement leaves the signal of its completion. -/
theorem evalOp {span : Span} {op : Op} (hx : Node.Statement (.mk span op)) :
    Run.Encodes .statement (c.evalOp op) (c.completeOp run op) := by
  cases op
  case block statements => exact h.runBlock hx.items
  case conditional condition whenTrue whenFalse =>
    exact h.choose hx.condition hx.arms.1 hx.arms.2
  case whileLoop condition body testFirst =>
    cases hx with
    | plain hp => cases hp.signals
    | whileLoop hc hb => exact h.runWhile testFirst hc hb
  case forLoop before condition after body =>
    cases hx with
    | plain hp => cases hp.signals
    | forLoop hp hc ha hb => exact h.runFor hp hc ha hb
  case forEachLoop name collection body =>
    cases hx with
    | plain hp => cases hp.signals
    | forEachLoop hc hb => exact h.runForEach name hc hb
  case branch kind =>
    cases kind with
    | breakLoop => exact .tell .statement .broke
    | continueLoop => exact .tell .statement .continued
  case returnWith value =>
    cases hx with
    | plain hp => cases hp.signals
    | returnWith hv => exact h.evalReturn hv
  all_goals
    cases hx with
    | plain hp => exact .normal (h.operation hp)

end Tells

variable (host : Host σ)

theorem within_silent (n : Nat) (session : SessionId) :
    (∀ {x}, x.Plain → Run.Encodes .silent ((Context.within host n session).eval x)
      ((Context.within host n session).eval x)) ∧
    (∀ {span op}, Node.Plain (.mk span op) →
      Run.Encodes .silent ((Context.within host n session).evalOp op)
        ((Context.within host n session).evalOp op)) := by
  let T := NodeTerms.plain (World.growing host False False)
  have hid (x : Node) : x.mapTypes T.types = x := x.mapTypes_id
  have hidOp (op : Op) : op.mapTypes T.types = op := op.mapTypes_id
  have on : (Context.within host n session).AgreesOn T (Context.within host n session) :=
    { Context.within_grows host n session with
      node := fun hx => T.evalWithin session n n (.same n) hx }
  refine ⟨fun {x} hx => .silent fun _ hs => ?_, fun {span op} hx => .silent fun _ hs => ?_⟩
  · have agrees := on.node hx
    rw [hid] at agrees
    exact agrees.clear hs
  · have agrees := on.evalOp hx
    rw [hidOp] at agrees
    exact agrees.clear hs

/-- Whatever the bound on nested steps, statements are evaluated to what they
complete to. -/
theorem within_tells (session : SessionId) (n : Nat) :
    (Context.within host n session).Tells (completeWithin host n session) := by
  have silent (n : Nat) := Context.within_silent host n session
  induction n with
  | zero => exact ⟨fun _ => .exhausted .statement, (silent 0).1, (silent 0).2⟩
  | succ n ih =>
    refine ⟨fun {x} hx => ?_, (silent (n + 1)).1, (silent (n + 1)).2⟩
    obtain ⟨span, op⟩ := x
    exact .orSpan span (ih.evalOp hx)

end Context

/-- A body in which blocks, loops, branches and returns stand only where
statements do runs as its statements complete. From an activation without
signals, in every world and with every bound on the steps, the two runs have the
same answer, leave the same world and make the same calls to the host. -/
theorem runBody_completes {σ : Type} (host : Host σ) (fuel : Nat) (session : SessionId)
    {body : Node} (statement : body.Statement) {a : Activation} (clear : a.interrupted = false)
    (w : World σ) :
    (Context.within host fuel session).runBody a body w =
      completeBodyWithin host fuel session a body w := by
  obtain ⟨he, hc⟩ := (Context.within_tells host session fuel).statement statement ⟨w, a⟩ clear
  rw [Run.bind_def] at he
  simp only [Context.runBody, completeBodyWithin, Run.within, Run.bind_def, he]
  rcases hr : completeWithin host fuel session body ⟨w, a⟩ with ⟨r, t⟩
  rw [hr] at hc
  cases r with
  | error e => rfl
  | ok completion =>
    -- without a signal of its own the final state has just the root's
    obtain ⟨world, base, scopes, inst, receivers, conditionals, inits, pending, branch, prepared⟩ := t
    obtain ⟨rfl, rfl⟩ : pending = none ∧ branch = none := by
      simpa [Machine.Clear, Activation.interrupted] using hc
    cases completion with
    | normal v | broke | continued | returned v => rfl

/-- A loop around a loop: the inner one ends by its break, the outer one by the
return after it. -/
def breakThenReturn : Node :=
  let yes : Node := .mk .dummy (.literal (.bool true))
  .mk .dummy (.whileLoop yes
    (.mk .dummy (.block [
      .mk .dummy (.whileLoop yes (.mk .dummy (.branch .breakLoop)) true),
      .mk .dummy (.returnWith (some (.mk .dummy (.literal (.int .i32 7)))))]))
    true)

theorem breakThenReturn_completes :
    let c := Context.within (Scripted.Program.host ⟨[], []⟩) 5 ⟨0⟩
    let a := Activation.start ⟨0⟩ none
    let w := World.initial Scripted.State.initial
    breakThenReturn.Statement ∧ a.interrupted = false ∧
      c.runBody a breakThenReturn w =
        completeBodyWithin (Scripted.Program.host ⟨[], []⟩) 5 ⟨0⟩ a breakThenReturn w ∧
      (match c.runBody a breakThenReturn w with
        | (.ok v, _) => v.display
        | _ => "") = "7" := by
  intro c a w
  have literal (value : Constant) : Node.Plain (.mk .dummy (.literal value)) :=
    .mk rfl fun y hy => absurd hy List.not_mem_nil
  have statement : breakThenReturn.Statement := by
    refine .whileLoop (literal _) (.block fun x hx => ?_)
    rcases List.mem_cons.1 hx with rfl | hx
    · exact .whileLoop (literal _) .branch
    · obtain rfl := List.mem_singleton.1 hx
      refine .returnWith fun x hx => ?_
      obtain rfl := List.mem_singleton.1 hx
      exact literal _
  exact ⟨statement, rfl, runBody_completes _ 5 ⟨0⟩ statement rfl w, by decide +kernel⟩

end OpTree
