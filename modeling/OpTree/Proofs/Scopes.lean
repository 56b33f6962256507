/-
Scopes. An evaluation ends on the frame that it began on, with the constructs around
it as they were, whether it succeeds or fails and however deep it failed; so all
that it can leave behind for the code after it are names bound in that frame. A
block, a loop or an arm of a conditional runs on a frame of its own, and so leaves no
name at all (`Run.withScope_sameSight`). What is evaluated before such a frame is made
is not inside: the condition of a conditional, and the collection of a loop over one,
are evaluated on the frame of the statement, and a name that they declare is visible
after it.
-/
import OpTree.Proofs.Sparing
import OpTree.Scripted

namespace OpTree

/-- The operation is a block, a loop or a conditional. The part of it that is given is
evaluated first and outside; all else has scopes of its own. -/
inductive Op.Encloses : Op → Option Node → Prop where
  | block (statements) : Encloses (.block statements) none
  | whileLoop (condition body testFirst) : Encloses (.whileLoop condition body testFirst) none
  | forLoop (before condition after body) : Encloses (.forLoop before condition after body) none
  | forEachLoop (item collection body) :
      Encloses (.forEachLoop item collection body) (some collection)
  | conditional (condition whenTrue whenFalse) :
      Encloses (.conditional condition whenTrue whenFalse) (some condition)

namespace Machine

variable {σ : Type} {s t u : Machine σ}

def sees (s : Machine σ) (name : String) : Bool :=
  s.world.frames.isBound s.activation.frame name

/-- The code runs on frames that exist. -/
def Standing (s : Machine σ) : Prop :=
  ∀ f ∈ s.world.frames.chain s.activation.frame, s.world.frames.Has f

instance (s : Machine σ) : Decidable s.Standing :=
  inferInstanceAs (Decidable (∀ f ∈ s.world.frames.chain s.activation.frame, s.world.frames.Has f))

/-- The code is on the frame it was on, and no name was bound in any frame that there
was. -/
structure SameSight (s t : Machine σ) : Prop where
  frame : t.activation.frame = s.activation.frame
  frames : s.world.frames.Extends t.world.frames
  names : ∀ f, s.world.frames.Has f → s.world.frames.SameNames t.world.frames f

end Machine

theorem Machine.Standing.grown {σ : Type} {s t : Machine σ} (h : s.Standing)
    (hs : s.world.frames.Extends t.world.frames) (hf : t.activation.frame = s.activation.frame) :
    t.Standing := by
  have has : s.world.frames.Has s.activation.frame := h _ (FrameStore.mem_chain_self ..)
  intro f hm
  rw [hf, hs.chain has] at hm
  exact (h f hm).extends hs

namespace Machine.SameSight

variable {σ : Type} {s t u : Machine σ}

theorem refl (s : Machine σ) : s.SameSight s := ⟨rfl, .refl _, fun _ _ _ => rfl⟩

theorem trans (h : s.SameSight t) (h' : t.SameSight u) : s.SameSight u where
  frame := h'.frame.trans h.frame
  frames := h.frames.trans h'.frames
  names f hf := (h.names f hf).trans (h'.names f (hf.extends h.frames))

theorem sees (h : s.SameSight t) (hs : s.Standing) (name : String) : t.sees name = s.sees name := by
  have has : s.world.frames.Has s.activation.frame := hs _ (FrameStore.mem_chain_self ..)
  simp only [Machine.sees, FrameStore.isBound_eq, h.frame, h.frames.chain has]
  refine Bool.eq_iff_iff.2 ?_
  simp only [List.any_eq_true]
  refine exists_congr fun f => and_congr_right fun hf => ?_
  rw [h.names f (hs f hf) name]

end Machine.SameSight

namespace Run

variable {σ α : Type} {host : Host σ}

/-- What the frames hold after a run in an activation that began on a frame where
names may be bound. -/
theorem Agrees.sparing {framed : Prop} {named : FrameId → Prop} {m : Run (Machine σ) α}
    (h : Agrees (NodeTerms.all (World.sparing host framed named)).machine m m) {s : Machine σ}
    (hw : s.world.Watched framed named)
    (hs : (NodeTerms.all (World.sparing host framed named)).Tied s.world s.activation s.activation) :
    s.world.frames.Spares framed named (m s).2.world.frames ∧
      (m s).2.world.Watched framed named ∧ s.activation.Rests (m s).2.activation := by
  have he := h.apply (b := ⟨s.world, s.activation, s.activation⟩) ⟨⟨rfl, rfl, hw⟩, hs, rfl, rfl⟩
  generalize m s = x at he
  cases he with
  | short hl => exact hl.elim
  | short' hl => exact hl.elim
  | ok hle ht _ =>
    obtain ⟨⟨hb, -, hw⟩, -, ha, -⟩ := ht
    exact ⟨hb ▸ hle.1, hb ▸ hw, ha ▸ hle.2.1⟩
  | error hle ht =>
    obtain ⟨⟨hb, -, hw⟩, -, ha, -⟩ := ht
    exact ⟨hb ▸ hle.1, hb ▸ hw, ha ▸ hle.2.1⟩

theorem bind_ofExcept_snd {σ α β : Type} (m : Run σ α) (f : α → Except EvalError β) (s : σ) :
    ((m >>= fun a => Run.ofExcept (f a)) s).2 = (m s).2 := by
  rw [bind_def]
  rcases m s with ⟨_ | _, _⟩ <;> rfl

theorem orSpan_snd {σ α : Type} (span : Span) (m : Run σ α) (s : σ) :
    (orSpan span m s).2 = (m s).2 := by
  simp only [orSpan]
  rcases m s with ⟨(_ | _) | _, _⟩ <;> rfl

theorem withScope_sameSight (host : Host σ) {m : Run (Machine σ) α}
    (h : ∀ named, Agrees (NodeTerms.all (World.sparing host False named)).machine m m)
    (s : Machine σ) : s.SameSight (Run.withScope m s).2 := by
  let named (f : FrameId) : Prop := s.world.frames.Has f
  have start : s.world.Watched False named := ⟨fun _ => id, False.elim⟩
  obtain ⟨made, inside⟩ := World.childFrame_keeps s.activation.frame .scope start
  have fresh : s.inScope.world.frames.Fresh named s.inScope.activation.frame :=
    FrameStore.fresh_addChild (fun _ => id) _ rfl
  have tied : (NodeTerms.all (World.sparing host False named)).Tied s.inScope.world
      s.inScope.activation s.inScope.activation := by
    refine ⟨⟨rfl, fresh, False.elim⟩, fun _ => ?_, ⟨rfl, rfl, rfl, rfl, rfl, rfl⟩, False.elim⟩
    cases s.inScope.activation.instanceFrame with
    | none => exact .none
    | some f => exact .some ⟨rfl, False.elim⟩
  obtain ⟨spared, -, rests⟩ := (h named).sparing inside tied
  have whole : s.world.frames.Spares False named (m s.inScope).2.world.frames := made.trans spared
  rw [withScope_apply]
  refine ⟨?_, whole.frames, whole.names⟩
  have scopes := congrArg List.tail rests.scopes
  simp only [Machine.outOfScope, Activation.frame, scopes, rests.base]
  rfl

end Run

namespace Context

variable {σ : Type} {host : Host σ}

/-! ## What is run in scopes -/

section

variable {W : WorldTerms host} {c c' : Context σ} (h : c.Agrees W c')

include h

theorem Agrees.execStatements (statements : List Node) : Run.Agrees (NodeTerms.all W).machine
    (c.execStatements statements) (c'.execStatements statements) := by
  have agrees : Run.Agrees (NodeTerms.all W).machine (c.execStatements statements)
      (c'.execStatements (Node.mapTypesAll (fun t => t) statements)) :=
    h.onAll.execStatements fun _ _ => trivial
  rwa [Node.mapTypesAll_id] at agrees

theorem Agrees.execBody (body : Node) :
    Run.Agrees (NodeTerms.all W).machine (c.execBody body) (c'.execBody body) := by
  have agrees : Run.Agrees (NodeTerms.all W).machine (c.execBody body)
      (c'.execBody (body.mapTypes fun t => t)) := h.onAll.execBody (fun hq => hq) trivial
  rwa [Node.mapTypes_id] at agrees

theorem Agrees.whileRounds (condition body : Node) (testFirst : Bool) :
    Run.Agrees (NodeTerms.all W).machine (c.whileRounds condition body testFirst)
      (c'.whileRounds condition body testFirst) := by
  have agrees : Run.Agrees (NodeTerms.all W).machine (c.whileRounds condition body testFirst)
      (c'.whileRounds (condition.mapTypes fun t => t) (body.mapTypes fun t => t) testFirst) :=
    h.onAll.whileRounds (fun hq => hq) testFirst trivial trivial
  rwa [Node.mapTypes_id, Node.mapTypes_id] at agrees

theorem Agrees.forRounds (before : List Node) (condition : Option Node) (after : List Node)
    (body : Node) : Run.Agrees (NodeTerms.all W).machine
      (c.forRounds before condition after body) (c'.forRounds before condition after body) := by
  have agrees : Run.Agrees (NodeTerms.all W).machine (c.forRounds before condition after body)
      (c'.forRounds (Node.mapTypesAll (fun t => t) before)
        (Node.mapTypesOption (fun t => t) condition) (Node.mapTypesAll (fun t => t) after)
        (body.mapTypes fun t => t)) :=
    h.onAll.forRounds (fun hq => hq) (fun _ _ => trivial) (fun _ _ => trivial)
      (fun _ _ => trivial) trivial
  rwa [Node.mapTypesAll_id, Node.mapTypesOption_id, Node.mapTypesAll_id, Node.mapTypes_id] at agrees

end

/-! ## What they leave behind -/

/-- The state after the part of an operation that is evaluated first, if there is one. -/
def afterFirst (c : Context σ) : Option Node → Machine σ → Machine σ
  | none, s => s
  | some x, s => (c.eval x s).2

variable {c : Context σ} (h : ∀ named, c.Agrees (World.sparing host False named) c)

include h

theorem eval_inScope (x : Node) (s : Machine σ) : s.SameSight (Run.withScope (c.eval x) s).2 :=
  Run.withScope_sameSight host (fun named => (h named).eval x) s

/-- The arm that is chosen has a scope. -/
theorem choose_sameSight (condition whenTrue : Node) (whenFalse : Option Node) (s : Machine σ) :
    (c.eval condition s).2.SameSight (c.choose condition whenTrue whenFalse s).2 := by
  have tested : (c.test condition s).2 = (c.eval condition s).2 := Run.bind_ofExcept_snd ..
  rw [← tested]
  simp only [choose, Run.bind_def]
  rcases c.test condition s with ⟨e | b, t⟩
  · exact .refl t
  · cases b with
    | true => exact eval_inScope h whenTrue t
    | false =>
      cases whenFalse with
      | some x => exact eval_inScope h x t
      | none => exact .refl t

/-- Each item has a scope. -/
theorem execItems_sameSight (name : String) (body : Node) (items : List Value) (s : Machine σ) :
    s.SameSight (c.execItems name body items s).2 := by
  induction items generalizing s with
  | nil => exact .refl s
  | cons item rest ih =>
    have round : s.SameSight (Run.withScope (do Run.defineLocal name item; c.execBody body) s).2 :=
      Run.withScope_sameSight host
        (fun named => .bind (.defineLocal name item) fun _ => (h named).execBody body) s
    simp only [execItems, Run.bind_def]
    generalize Run.withScope (do Run.defineLocal name item; c.execBody body) s = x at round
    obtain ⟨e | goes, t⟩ := x
    · exact round
    · cases goes with
      | true => exact round.trans (ih t)
      | false => exact round

theorem runForEach_sameSight (name : String) (collection body : Node) (s : Machine σ) :
    (c.eval collection s).2.SameSight (c.runForEach name collection body s).2 := by
  simp only [runForEach, Run.bind_def]
  rcases c.eval collection s with ⟨e | v, t⟩
  · exact .refl t
  · simp only [Run.gets_def]
    cases itemsOf t.world v with
    | error e => exact .refl t
    | ok items =>
      have whole := execItems_sameSight h name body items t
      simp only [Run.ofExcept_ok]
      generalize c.execItems name body items t = x at whole
      obtain ⟨e | a, t'⟩ := x <;> exact whole

/-- What an operation encloses leaves no name behind. -/
theorem evalOp_encloses {op : Op} {first : Option Node} (e : op.Encloses first) (s : Machine σ) :
    (c.afterFirst first s).SameSight (c.evalOp op s).2 := by
  cases e with
  | block statements =>
    exact Run.withScope_sameSight host
      (fun named => .bind ((h named).execStatements statements) fun _ => .pure Value.void) s
  | whileLoop condition body testFirst =>
    exact Run.withScope_sameSight host
      (fun named => (h named).whileRounds condition body testFirst) s
  | forLoop before condition after body =>
    exact Run.withScope_sameSight host
      (fun named => (h named).forRounds before condition after body) s
  | forEachLoop item collection body => exact runForEach_sameSight h item collection body s
  | conditional condition whenTrue whenFalse =>
    exact choose_sameSight h condition whenTrue whenFalse s

end Context

section

variable {σ : Type} (host : Host σ)

theorem evalWithin_encloses (n : Nat) (session : SessionId) {x : Node} {first : Option Node}
    (e : x.op.Encloses first) (s : Machine σ) :
    ((Context.within host (n - 1) session).afterFirst first s).SameSight
      (evalWithin host n session x s).2 := by
  cases n with
  | zero => cases first <;> exact .refl s
  | succ n =>
    have whole := Context.evalOp_encloses
      (fun named => Context.within_self (World.sparing host False named) n session) e s
    rw [← Run.orSpan_snd x.span] at whole
    exact whole

/-- However an evaluation ends, its activation is on the scopes that it was on, with
the receivers, the conditional accesses and the arrays being filled that it was
within, each at the index path that it was at; and a name that is visible after a
block, a loop or a conditional was visible before what that encloses. -/
theorem evalWithin_restores (n : Nat) (session : SessionId) (x : Node) (s : Machine σ) :
    let t := (evalWithin host n session x s).2
    t.activation.scopes = s.activation.scopes ∧
    t.activation.receivers = s.activation.receivers ∧
    t.activation.conditionals = s.activation.conditionals ∧
    t.activation.arrayInits = s.activation.arrayInits ∧
    ∀ first, x.op.Encloses first → s.Standing → ∀ name,
      t.sees name = ((Context.within host (n - 1) session).afterFirst first s).sees name := by
  obtain ⟨-, rests⟩ := evalWithin_grows host n session x s
  refine ⟨rests.scopes, rests.receivers, rests.conditionals, rests.arrayInits, ?_⟩
  intro first e standing name
  refine (evalWithin_encloses host n session e s).sees ?_ name
  cases first with
  | none => exact standing
  | some y =>
    obtain ⟨grows, rests⟩ := evalWithin_grows host (n - 1) session y s
    exact standing.grown grows.frames rests.frame

end

/-- A method is called that has no parameters. -/
def inPlainMethod : Machine Scripted.State :=
  ⟨{ World.initial Scripted.State.initial with
      frames := ⟨#[⟨.ofClass (.named ⟨0⟩ []), [], .empty⟩, ⟨.ofMethod ⟨0⟩ [], [⟨0⟩], .empty⟩]⟩ },
    .start ⟨1⟩ none⟩

/-- A block that declares a local. -/
def declaringBlock : Node := .mk .dummy (.block [.mk .dummy (.variableDeclaration "y" none)])

theorem declaringBlock_restores :
    let s := inPlainMethod
    let t := (evalWithin (Scripted.Program.host ⟨[], []⟩) 3 ⟨0⟩ declaringBlock s).2
    s.Standing ∧ t.activation.scopes = [] ∧ t.activation.receivers = [] ∧
      t.activation.conditionals = [] ∧ t.activation.arrayInits = [] ∧ t.sees "y" = false := by
  have standing : inPlainMethod.Standing := by decide
  obtain ⟨scopes, receivers, conditionals, arrays, names⟩ :=
    evalWithin_restores (Scripted.Program.host ⟨[], []⟩) 3 ⟨0⟩ declaringBlock inPlainMethod
  refine ⟨standing, scopes, receivers, conditionals, arrays, ?_⟩
  rw [names none (.block _) standing "y"]
  decide

/-- A loop over a collection that is assigned to a local as it is declared. -/
def loopOverDeclared : Node :=
  let collection : Node := .mk .dummy
    (.assign (.mk .dummy (.declarationTarget "y")) (.mk .dummy (.literal (.text ""))))
  .mk .dummy (.forEachLoop "c" collection (.mk .dummy (.block [])))

/-- The collection of a loop is not inside its scopes. -/
theorem loopOverDeclared_leaves_name :
    let s := inPlainMethod
    let r := evalWithin (Scripted.Program.host ⟨[], []⟩) 5 ⟨0⟩ loopOverDeclared s
    r.1 = .ok .void ∧ s.sees "y" = false ∧ r.2.sees "y" = true := by
  refine ⟨rfl, rfl, rfl⟩

end OpTree
