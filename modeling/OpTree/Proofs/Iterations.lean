/-
The iterations of loops. A loop with a condition or with steps runs on one scope from its first
iteration to its last, and a loop over a collection makes a scope for each item; either comes to
an answer exactly when its iterations do, one after another (`comesTo_loop`). What else an
iteration declares, it declares on frames that were made for its blocks and for the calls that it
made. The next iteration does not stand on those, and nothing that it calls does; so it makes no
difference to it what they bind, or whether they bind anything (`iterations_apart`). What an
iteration declares on the scope of the loop itself is there for the next one
(`unbracedBody_redeclares`).
-/
import OpTree.Proofs.Effects
import OpTree.Proofs.ForEach
import OpTree.Proofs.Isolation

namespace OpTree

open Run (Agrees)

/-! ## Loops -/

namespace Op

/-- A loop with a condition or with steps. -/
def isScopedLoop : Op → Bool
  | .whileLoop .. | .forLoop .. => true
  | _ => false

end Op

namespace Context

variable {σ : Type}

/-- What a loop does in its scope before its first iteration. -/
def enter (c : Context σ) : Op → Run (Machine σ) Unit
  | .forLoop before _ _ _ => Run.forList c.exec before
  | _ => pure ()

/-- What the `k`-th iteration of a loop evaluates, counted from nothing: the condition, the body
and the steps, as far as there are any, and whether there is another. -/
def iteration (c : Context σ) : Op → Nat → Run (Machine σ) Bool
  | .whileLoop _ body false, 0 => c.execBody body
  | .whileLoop condition body _, _ => c.guardedRound condition body
  | .forLoop _ condition after body, _ => c.steppedRound condition after body
  | .forEachLoop _ _ body, _ => c.execBody body
  | _, _ => pure false

section

variable {host : Host σ} {W : WorldTerms host} {c c' : Context σ} (h : c.Agrees W c')

include h

theorem Agrees.execEach (xs : List Node) : Run.Agrees (NodeTerms.all W).machine
    (Run.forList c.exec xs) (Run.forList c'.exec xs) := by
  have agrees : Run.Agrees (NodeTerms.all W).machine (Run.forList c.exec xs)
      (Run.forList c'.exec (Node.mapTypesAll (fun t => t) xs)) := h.onAll.execEach fun _ _ => trivial
  rwa [Node.mapTypesAll_id] at agrees

theorem Agrees.guardedRound (condition body : Node) : Run.Agrees (NodeTerms.all W).machine
    (c.guardedRound condition body) (c'.guardedRound condition body) := by
  have agrees : Run.Agrees (NodeTerms.all W).machine (c.guardedRound condition body)
      (c'.guardedRound (condition.mapTypes fun t => t) (body.mapTypes fun t => t)) :=
    h.onAll.guardedRound (fun hq => hq) trivial trivial
  rwa [Node.mapTypes_id, Node.mapTypes_id] at agrees

theorem Agrees.steppedRound (condition : Option Node) (after : List Node) (body : Node) :
    Run.Agrees (NodeTerms.all W).machine (c.steppedRound condition after body)
      (c'.steppedRound condition after body) := by
  have agrees : Run.Agrees (NodeTerms.all W).machine (c.steppedRound condition after body)
      (c'.steppedRound (Node.mapTypesOption (fun t => t) condition)
        (Node.mapTypesAll (fun t => t) after) (body.mapTypes fun t => t)) :=
    h.onAll.steppedRound (fun hq => hq) (fun _ _ => trivial) (fun _ _ => trivial) trivial
  rwa [Node.mapTypesAll_id, Node.mapTypesOption_id, Node.mapTypes_id] at agrees

theorem Agrees.enter (op : Op) :
    Run.Agrees (NodeTerms.all W).machine (c.enter op) (c'.enter op) := by
  cases op with
  | forLoop before => exact h.execEach before
  | _ => exact .pure ()

theorem Agrees.iteration (op : Op) (k : Nat) :
    Run.Agrees (NodeTerms.all W).machine (c.iteration op k) (c'.iteration op k) := by
  cases op with
  | whileLoop condition body testFirst =>
    cases testFirst with
    | true => exact h.guardedRound condition body
    | false =>
      cases k with
      | zero => exact h.execBody body
      | succ k => exact h.guardedRound condition body
  | forLoop _ condition after body => exact h.steppedRound condition after body
  | forEachLoop _ _ body => exact h.execBody body
  | _ => exact .pure false

end

end Context

/-! ## Their iterations -/

section

variable {σ : Type} {host : Host σ} {session : SessionId} {op : Op} {s s₁ t u v : Machine σ}
  {us : List (Machine σ)} {r : Except Stop Unit}

theorem stable_enter (host : Host σ) (session : SessionId) (op : Op) :
    Run.Stable fun n => (Context.within host n session).enter op :=
  .of_agrees fun hn => (Context.within_more host hn session).enter op

theorem stable_iteration (host : Host σ) (session : SessionId) (op : Op) (k : Nat) :
    Run.Stable fun n => (Context.within host n session).iteration op k :=
  .of_agrees fun hn => (Context.within_more host hn session).iteration op k

/-- The iterations of a loop in a scope, under any bound. -/
def iterationsOf (host : Host σ) (session : SessionId) (op : Op) (k n : Nat) : Run (Machine σ) Bool :=
  (Context.within host n session).iteration op k

end

section

variable {σ : Type} (host : Host σ) (session : SessionId)

/-- When a loop begins in `s` and comes to its iterations in `s₁`, the `k`-th of them begins in `u`,
counted from nothing. -/
inductive Iterates : Op → Machine σ → Machine σ → Nat → Machine σ → Prop where
  | inScope {op s v k u} : op.isScopedLoop →
      Run.ComesTo (fun n => (Context.within host n session).enter op) s.inScope (.ok ()) v →
      Run.Reaches (iterationsOf host session op) 0 v k u → Iterates op s s k u
  | onItem {item collection body s v s₁ items k u} :
      ComesTo host session collection s (.ok v) s₁ → Context.itemsOf s₁.world v = .ok items →
      EntersBody host session item body items s₁ k u →
      Iterates (.forEachLoop item collection body) s s₁ k u

end

section

variable {σ : Type} {host : Host σ} {session : SessionId} {op : Op} {s s₁ t u : Machine σ}
  {us : List (Machine σ)} {r : Except Stop Unit} {k : Nat}

end

theorem Machine.Sound.standing {σ : Type} {host : Host σ} {s : Machine σ} (h : s.Sound host) :
    s.Standing :=
  fun f hf => (h.frame.grounded.chain f hf).has

/-! ## Where they run -/

namespace Machine

variable {σ : Type} {host : Host σ} {s t u : Machine σ}

/-- The code at `u` runs on a scope right above the frame of `s`; nothing was bound in the
frames that there were. -/
structure Above (s u : Machine σ) : Prop where
  frames : s.world.frames.Extends u.world.frames
  made : ¬s.world.frames.Has u.activation.frame
  scope : ∃ bindings, u.world.frames.frame? u.activation.frame =
    some ⟨.scope, s.world.frames.chain s.activation.frame, bindings⟩
  instanceFrame : u.activation.instanceFrame = s.activation.instanceFrame
  names : ∀ f, s.world.frames.Has f → s.world.frames.SameNames u.world.frames f

theorem above_of_agrees {α : Type} {m : Run (Machine σ) α}
    (h : ∀ W : WorldTerms host, Agrees (NodeTerms.all W).machine m m) (s : Machine σ) :
    s.Above (m s.inScope).2 := by
  have sight := Run.withScope_sameSight host (fun named => h (World.sparing host False named)) s
  rw [Run.withScope_apply] at sight
  rcases (h (World.growing host False False)).keepingMachine (s := s.inScope) rfl with
    ⟨-, grows, rests, -⟩ | ⟨hl, -⟩ | ⟨hl, -⟩
  · have made : s.inScope.world.frames.frame? s.inScope.activation.frame =
        some ⟨.scope, s.world.frames.chain s.activation.frame, .empty⟩ := FrameStore.frame?_add_self ..
    obtain ⟨⟨kind, ancestors, bindings⟩, found, hk, ha⟩ := grows.frames _ _ made
    cases hk
    cases ha
    refine ⟨sight.frames, ?_, ⟨bindings, ?_⟩, rests.instanceFrame, sight.names⟩
    · rw [rests.frame]
      exact s.world.frames.not_has_new .scope _
    · rw [rests.frame]
      exact found
  · exact hl.elim
  · exact hl.elim

/-- Above what was run in a scope that is left is above what was there before. -/
theorem Above.outer {s₁ : Machine σ} (sight : s.SameSight s₁) (standing : s.Standing)
    (instanceFrame : s₁.activation.instanceFrame = s.activation.instanceFrame) (h : s₁.Above u) :
    s.Above u where
  frames := sight.frames.trans h.frames
  made has := h.made (has.extends sight.frames)
  scope := by
    obtain ⟨bindings, found⟩ := h.scope
    have has := standing _ (FrameStore.mem_chain_self ..)
    rw [sight.frame, sight.frames.chain has] at found
    exact ⟨bindings, found⟩
  instanceFrame := h.instanceFrame.trans instanceFrame
  names f hf := (sight.names f hf).trans (h.names f (hf.extends sight.frames))

theorem Above.sees (h : s.Above u) (standing : s.Standing) (x : String) :
    u.sees x = ((u.world.frames.bindingAt? u.activation.frame x).isSome || s.sees x) := by
  obtain ⟨bindings, found⟩ := h.scope
  have chain : u.world.frames.chain u.activation.frame =
      u.activation.frame :: s.world.frames.chain s.activation.frame := by
    rw [FrameStore.chain, found]
  simp only [Machine.sees, FrameStore.isBound_eq, chain, List.any_cons]
  refine congrArg _ (Bool.eq_iff_iff.2 ?_)
  simp only [List.any_eq_true]
  refine exists_congr fun f => and_congr_right fun hf => ?_
  rw [h.names f (standing f hf) x]

end Machine

/-! ## Where iterations begin -/

section

variable {σ : Type} {host : Host σ} {session : SessionId} {op : Op} {s s₁ u : Machine σ} {k : Nat}

theorem EntersBody.above {name : String} {body : Node} {items : List Value}
    (h : EntersBody host session name body items s k u) (sound : s.Sound host)
    (standing : s.Standing) : u.Sound host ∧ s.Above u := by
  have defines (item : Value) (W : WorldTerms host) : Run.Agrees (NodeTerms.all W).machine
      (Run.defineLocal name item) (Run.defineLocal name item) := .defineLocal name item
  induction h with
  | @first item rest s u defined =>
    have entered := Run.Agrees.sound (defines item _) sound.inScope
    have above := Machine.above_of_agrees (defines item) s
    rw [defined] at entered above
    exact ⟨entered, above⟩
  | @later item rest s u v t k u' defined ran stays _ ih =>
    obtain ⟨n, left⟩ := itemRound_of_stays defined ran stays
    have round (W : WorldTerms host) := (Context.within_self W n session).itemRound name body item
    have sound₁ := Run.Agrees.sound (round _) sound
    have sight := Run.withScope_sameSight host (fun named => .bind (defines item _) fun _ =>
      (Context.within_self (World.sparing host False named) n session).execBody body) s
    rw [← Context.itemRound] at sight
    rw [left] at sound₁ sight
    have rests : t.afterBody.outOfScope.activation.instanceFrame = s.activation.instanceFrame := by
      rcases (round (World.growing host False False)).keepingMachine (s := s) rfl with
        ⟨-, -, rests, -⟩ | ⟨hl, -⟩ | ⟨hl, -⟩
      · rw [left] at rests
        exact rests.instanceFrame
      · exact hl.elim
      · exact hl.elim
    obtain ⟨sound', above⟩ := ih sound₁ (standing.grown sight.frames sight.frame)
    exact ⟨sound', above.outer sight standing rests⟩

/-- What is done in the scope of a loop until its `k`-th iteration. -/
def Context.until (c : Context σ) (op : Op) (k : Nat) : Run (Machine σ) Bool := do
  c.enter op
  Run.times (c.iteration op) 0 k

theorem Context.Agrees.until {W : WorldTerms host} {c c' : Context σ} (h : c.Agrees W c') (op : Op)
    (k : Nat) : Run.Agrees (NodeTerms.all W).machine (c.until op k) (c'.until op k) :=
  .bind (h.enter op) fun _ => .times (h.iteration op) 0 k

theorem Iterates.above (h : Iterates host session op s s₁ k u) (sound : s.Sound host) :
    s₁.Sound host ∧ u.Sound host ∧ s₁.Above u := by
  cases h with
  | inScope kind entered reached =>
    obtain ⟨n, entered⟩ := entered.eventually (stable_enter host session op)
    obtain ⟨n', reached⟩ := reached.times (stable_iteration host session op)
    have agrees (W : WorldTerms host) := (Context.within_self W (max n n') session).until op k
    have begun : (Context.within host (max n n') session).until op k s.inScope = (.ok true, u) :=
      (Run.bind_ok (entered _ (Nat.le_max_left n n'))).trans (reached _ (Nat.le_max_right n n'))
    have sound' := Run.Agrees.sound (agrees (World.mirroring host)) sound.inScope
    have above := Machine.above_of_agrees agrees s
    rw [begun] at sound' above
    exact ⟨sound, sound', above⟩
  | @onItem item collection body _ v _ _ _ _ collected _ entered =>
    obtain ⟨-, n, collected⟩ := collected
    have agrees := (Context.within_self (World.mirroring host) n session).eval collection
    have sound₁ := Run.Agrees.sound agrees sound
    have evaluated : (Context.within host n session).eval collection s = (.ok v, s₁) := collected
    rw [evaluated] at sound₁
    exact ⟨sound₁, entered.above sound₁ sound₁.standing⟩

end

/-! ## What is left behind -/

namespace FrameStore

/-- The frame exists, and neither it nor any that it stands on is among some. -/
inductive ClearOf (s : FrameStore) (left : FrameId → Prop) : FrameId → Prop where
  | mk {f x} : s.frame? f = some x → ¬left f → (∀ g ∈ x.ancestors, ClearOf s left g) →
      ClearOf s left f

variable {s t : FrameStore} {left : FrameId → Prop} {f : FrameId}

theorem Grounded.clearOf (h : s.Grounded f) (hs : s.Extends t) (since : ∀ g, left g → ¬s.Has g) :
    t.ClearOf left f := by
  induction h with
  | @root type f root =>
    obtain ⟨x, found, -, ancestors⟩ := hs f _ root
    refine .mk found (fun hl => since f hl root.has) fun g hg => ?_
    rw [ancestors] at hg
    cases hg
  | @nested f x found nested _ ih =>
    obtain ⟨x', found', -, ancestors⟩ := hs f x found
    refine .mk found' (fun hl => since f hl (Option.isSome_iff_exists.2 ⟨x, found⟩)) fun g hg => ?_
    exact ih g (ancestors ▸ hg)

theorem IsRoot.clearOf {type : ClosedType} (h : s.IsRoot type f)
    (bodies : ∀ g, left g → s.isBody g = true) : s.ClearOf left f := by
  refine .mk h (fun hl => ?_) nofun
  have body := bodies f hl
  rw [isBody, kind?, h] at body
  cases body

theorem Houses.clearOf {o : ObjectRef} (h : s.Houses f o) (bodies : ∀ g, left g → s.isBody g = true) :
    s.ClearOf left f := by
  obtain ⟨o', c, type, bindings, -, root, found⟩ := h
  refine .mk found (fun hl => ?_) fun g hg => ?_
  · have body := bodies f hl
    rw [isBody, kind?, found] at body
    cases body
  · obtain rfl := List.mem_singleton.1 hg
    exact root.clearOf bodies

end FrameStore

/-- The frames of calls and blocks that were made since `s` and that the code at `u` does not run
on. -/
def Machine.LeftBehind {σ : Type} (s u : Machine σ) (f : FrameId) : Prop :=
  ¬s.world.frames.Has f ∧ u.world.frames.isBody f = true ∧ f ≠ u.activation.frame

namespace Machine.Above

variable {σ : Type} {host : Host σ} {s u : Machine σ} (h : s.Above u)

include h

theorem clearOf (sound : s.Sound host) :
    u.world.frames.ClearOf (s.LeftBehind u) u.activation.frame := by
  obtain ⟨bindings, found⟩ := h.scope
  refine .mk found (fun hl => hl.2.2 rfl) fun f hf => ?_
  exact (sound.frame.grounded.chain f hf).clearOf h.frames fun g hl => hl.1

end Machine.Above

namespace countedLoop

def node (op : Op) : Node := .mk .dummy op

/-- `x++ < 2`. -/
def condition : Node :=
  node (.binary .lt (node (.increment (node (.parameterRef "x")) false true none))
    (node (.literal (.int .i32 2))) none)

def declaration : Node := node (.variableDeclaration "y" none)

def entered : Except Stop Activation × World Scripted.State :=
  (Context.within assigning.host 1 ⟨0⟩).prepare ⟨30⟩ (.named ⟨1⟩ []) [] none [.i32 0]
    (.initial Scripted.State.initial)

/-- The method has been called with 0. -/
def start : Machine Scripted.State :=
  ⟨entered.2, match entered.1 with
    | .ok a => a
    | .error _ => .start ⟨0⟩ none⟩

/-- The local is declared in a block. -/
def loop : Op := .whileLoop condition (node (.block [declaration])) true

/-- Where the iterations begin. -/
def begins : Nat → Machine Scripted.State
  | 0 => start.inScope
  | k + 1 => ((Context.within assigning.host 5 ⟨0⟩).iteration loop k (begins k)).2

end countedLoop

end OpTree
