/-
Activations of two runs. Two activations may differ in their frames, and in nothing
else that an operation can see: `NodeTerms` says which nodes are spoken of, which type
references they may mention and what the second run has in the place of each, and which
innermost frames stand for each other. Such frames have to close those references alike;
they need not supply the same arguments. `NodeTerms.machine` is what two runs in an
activation are then held to. That a run leaves the frames and the enclosing constructs of
its activation as they were is part of it, however the run ends.

The lemmas are the ways in which operations use an activation.
-/
import OpTree.Eval.Step
import OpTree.Proofs.TypeMap
import OpTree.Proofs.Worlds

namespace OpTree

/-- The frames and the enclosing constructs that an activation refers to are as
they were; its signals may not be. The arguments that it holds prepared may have
been taken, and none have been put there. -/
structure Activation.Rests (a b : Activation) : Prop where
  base : b.base = a.base
  scopes : b.scopes = a.scopes
  instanceFrame : b.instanceFrame = a.instanceFrame
  receivers : b.receivers = a.receivers
  conditionals : b.conditionals = a.conditionals
  arrayInits : b.arrayInits = a.arrayInits
  prepared : a.prepared = [] → b.prepared = []

/-- The signals of an activation are as they were. -/
def Activation.SameSignals (a b : Activation) : Prop :=
  b.pendingReturn = a.pendingReturn ∧ b.branch = a.branch

/-- Two activations that differ in nothing but their frames. -/
structure Activation.Alike (a a' : Activation) : Prop where
  receivers : a.receivers = a'.receivers
  conditionals : a.conditionals = a'.conditionals
  arrayInits : a.arrayInits = a'.arrayInits
  pendingReturn : a.pendingReturn = a'.pendingReturn
  branch : a.branch = a'.branch
  prepared : a.prepared = a'.prepared

namespace Activation

theorem Rests.refl (a : Activation) : a.Rests a := ⟨rfl, rfl, rfl, rfl, rfl, rfl, id⟩

theorem Rests.trans {a b c : Activation} (h : a.Rests b) (h' : b.Rests c) : a.Rests c :=
  ⟨h'.base.trans h.base, h'.scopes.trans h.scopes, h'.instanceFrame.trans h.instanceFrame,
    h'.receivers.trans h.receivers, h'.conditionals.trans h.conditionals,
    h'.arrayInits.trans h.arrayInits, fun hp => h'.prepared (h.prepared hp)⟩

theorem Rests.frame {a b : Activation} (h : a.Rests b) : b.frame = a.frame := by
  simp [Activation.frame, h.base, h.scopes]

theorem Rests.same {a c c' : Activation} (h : a.Rests c) (h' : a.Rests c') (hc : c.Alike c') :
    c = c' := by
  obtain ⟨_, _, _, _, _, _, _, _, _⟩ := c
  obtain ⟨_, _, _, _, _, _, _, _, _⟩ := c'
  simp only [Activation.mk.injEq]
  exact ⟨h.base.trans h'.base.symm, h.scopes.trans h'.scopes.symm,
    h.instanceFrame.trans h'.instanceFrame.symm, hc.receivers, hc.conditionals, hc.arrayInits,
    hc.pendingReturn, hc.branch, hc.prepared⟩

theorem Alike.interrupted {a a' : Activation} (h : a.Alike a') : a.interrupted = a'.interrupted := by
  simp only [Activation.interrupted, h.pendingReturn, h.branch]

/-- A way in and a way back out, in an activation. Neither touches the frames, and
the way out leads back to the constructs around the way in. -/
structure Brackets (before after : Activation → Activation) : Prop where
  frame : ∀ a, (before a).frame = a.frame
  instanceFrame : ∀ a, (before a).instanceFrame = a.instanceFrame
  into : ∀ {a a'}, a.Alike a' → (before a).Alike (before a')
  out : ∀ {a a'}, a.Alike a' → (after a).Alike (after a')
  undo : ∀ {a b}, (before a).Rests b → a.Rests (after b)
  signals : ∀ {a b}, (before a).SameSignals b → a.SameSignals (after b)

theorem Brackets.receivers (o : Value) :
    Brackets (fun a => { a with receivers := o :: a.receivers })
      (fun a => { a with receivers := a.receivers.tail }) where
  frame _ := rfl
  instanceFrame _ := rfl
  into h := { h with receivers := congrArg (o :: ·) h.receivers }
  out h := { h with receivers := congrArg List.tail h.receivers }
  undo h := { h with receivers := congrArg List.tail h.receivers }
  signals := id

theorem Brackets.conditionals (v : Value) :
    Brackets (fun a => { a with conditionals := v :: a.conditionals })
      (fun a => { a with conditionals := a.conditionals.tail }) where
  frame _ := rfl
  instanceFrame _ := rfl
  into h := { h with conditionals := congrArg (v :: ·) h.conditionals }
  out h := { h with conditionals := congrArg List.tail h.conditionals }
  undo h := { h with conditionals := congrArg List.tail h.conditionals }
  signals := id

theorem Brackets.arrayInits (init : ArrayInit) :
    Brackets (fun a => { a with arrayInits := init :: a.arrayInits })
      (fun a => { a with arrayInits := a.arrayInits.tail }) where
  frame _ := rfl
  instanceFrame _ := rfl
  into h := { h with arrayInits := congrArg (init :: ·) h.arrayInits }
  out h := { h with arrayInits := congrArg List.tail h.arrayInits }
  undo h := { h with arrayInits := congrArg List.tail h.arrayInits }
  signals := id

theorem Brackets.innerPath (position : Int) :
    Brackets (Context.mapInnerPath (· ++ [position])) (Context.mapInnerPath List.dropLast) where
  frame _ := rfl
  instanceFrame _ := rfl
  into h := { h with arrayInits := by simp only [Context.mapInnerPath, h.arrayInits] }
  out h := { h with arrayInits := by simp only [Context.mapInnerPath, h.arrayInits] }
  undo {a b} h := { h with
    arrayInits := by
      have hi := h.arrayInits
      simp only [Context.mapInnerPath] at hi ⊢
      rw [hi]
      cases a.arrayInits with
      | nil => rfl
      | cons init rest => simp }
  signals := id

end Activation

/-- A member that is reached on the current instance when no receiver is given. -/
def Host.hasReceiver {σ : Type} (host : Host σ) (m : SymbolId) : Bool :=
  match host.member m with
  | .ok member => !member.isStatic
  | .error _ => false

/-- The operation refers to the current instance itself, not only through its
operands. -/
def Op.onInstance {σ : Type} (host : Host σ) : Op → Bool
  | .this | .constructorInitializer .. => true
  | .fieldRef m none | .propertyRef m none _ _ | .invocation m none _ _ => host.hasReceiver m.symbol
  | _ => false

/-- What evaluating trees is held to. -/
structure NodeTerms {σ : Type} {host : Host σ} (W : WorldTerms host) where
  /-- The nodes that are spoken of. -/
  nodes : Node → Prop
  /-- The type references that they may mention. -/
  known : TypeRef → Prop
  /-- What the second run has in the place of a type. -/
  types : TypeRef → TypeRef
  /-- The innermost frames that stand for each other. -/
  start : W.Bond → FrameId → FrameId → Prop
  /-- The instance frames stand for each other too. -/
  self : Prop
  /-- There is no instance. -/
  alone : Prop := False
  /-- No run leaves a signal or takes one back. -/
  quiet : Prop
  operand : ∀ {x y}, nodes x → y ∈ x.op.operands → nodes y
  mentions : ∀ {x}, nodes x → ∀ t ∈ x.types, known t
  silent : ∀ {x}, quiet → nodes x → x.op.signals = false
  selfless : ∀ {x}, ¬self → nodes x → x.op.onInstance host = false
  sights : ∀ {b f f'}, start b f f' → W.sights b f f'
  later : ∀ {b b' f f'}, W.le b b' → start b f f' → start b' f f'
  scope : ∀ {b f f'}, start b f f' → Run.AgreesBy W.toTerms b start
    (World.childFrame f .scope) (World.childFrame f' .scope)
  declare : ∀ {b f f'} name, start b f f' →
    Run.AgreesBy W.toTerms b (fun _ => Eq) (World.declare f name) (World.declare f' name)
  define : ∀ {b f f'} name v, start b f f' →
    Run.AgreesBy W.toTerms b (fun _ => Eq) (World.define f name v) (World.define f' name v)
  close : ∀ {b w w' f f' t}, W.ties b w w' → start b f f' → known t →
    t.close (w.frames.genericArgument f) = (types t).close (w'.frames.genericArgument f')

theorem WorldTerms.itemsOf {σ : Type} {host : Host σ} (W : WorldTerms host) {b : W.Bond}
    {w w' : World σ} (h : W.ties b w w') (v : Value) : Context.itemsOf w v = Context.itemsOf w' v := by
  cases v <;> simp only [Context.itemsOf, W.elements h]

/-- What is known of two machines. -/
structure Machine.Bond (β : Type) where
  world : β
  first : Activation
  second : Activation

namespace NodeTerms

variable {σ : Type} {host : Host σ} {W : WorldTerms host}

/-- All trees. -/
def everywhere (types : TypeRef → TypeRef) (start : W.Bond → FrameId → FrameId → Prop)
    (frames : ∀ {b f f'}, start b f f' → W.frames b f f')
    (later : ∀ {b b' f f'}, W.le b b' → start b f f' → start b' f f')
    (scope : ∀ {b f f'}, start b f f' → Run.AgreesBy W.toTerms b start
      (World.childFrame f .scope) (World.childFrame f' .scope))
    (close : ∀ {b w w' f f'}, W.ties b w w' → start b f f' → ∀ t,
      t.close (w.frames.genericArgument f) = (types t).close (w'.frames.genericArgument f')) :
    NodeTerms W where
  nodes _ := True
  known _ := True
  types := types
  start := start
  self := True
  quiet := False
  operand _ _ := trivial
  mentions _ _ _ := trivial
  silent h := h.elim
  selfless h := absurd trivial h
  sights h := W.seen (frames h)
  later := later
  scope := scope
  declare name h := W.declare name (frames h)
  define name v h := W.define name v (frames h)
  close hw hf _ := close hw hf _

/-- All trees, as they are, from frames that stand for each other. -/
def all (W : WorldTerms host) : NodeTerms W :=
  everywhere (fun t => t) W.frames (fun h => h) W.later W.scopeFrame
    fun hw hf t => by rw [W.arguments hw hf]

variable (T : NodeTerms W)

/-- Two activations that stand for each other. -/
structure Tied (b : W.Bond) (a a' : Activation) : Prop where
  frame : T.start b a.frame a'.frame
  self : T.self → Option.Rel (W.sights b) a.instanceFrame a'.instanceFrame
  alike : a.Alike a'
  alone : T.alone → a.instanceFrame = none ∧ a'.instanceFrame = none := by exact fun h => False.elim h

/-- The terms for runs in an activation: the worlds stay tied, and what encloses
the operation at hand stays in place. -/
def machine : Terms (Machine σ) where
  Bond := Machine.Bond W.Bond
  ties b s s' := W.ties b.world s.world s'.world ∧ T.Tied b.world s.activation s'.activation ∧
    b.first = s.activation ∧ b.second = s'.activation
  stops b e s s' := W.stops b.world e s.world s'.world ∧
    T.Tied b.world s.activation s'.activation ∧ b.first = s.activation ∧ b.second = s'.activation
  le b c := W.le b.world c.world ∧ b.first.Rests c.first ∧ b.second.Rests c.second ∧
    (T.quiet → b.first.SameSignals c.first)
  lax := W.lax
  lax' := W.lax'
  refl _ := ⟨W.refl _, .refl _, .refl _, fun _ => ⟨rfl, rfl⟩⟩
  trans h h' := ⟨W.trans h.1 h'.1, h.2.1.trans h'.2.1, h.2.2.1.trans h'.2.2.1, fun hq =>
    ⟨(h'.2.2.2 hq).1.trans (h.2.2.2 hq).1, (h'.2.2.2 hq).2.trans (h.2.2.2 hq).2⟩⟩
  stop e h := ⟨W.stop e h.1, h.2⟩
  spanned span h := ⟨W.spanned span h.1, h.2⟩

variable {T}

theorem Tied.later {b b' : W.Bond} {a a' : Activation} (hb : W.le b b') (h : T.Tied b a a') :
    T.Tied b' a a' where
  frame := T.later hb h.frame
  self hs := by
    have hi := h.self hs
    generalize a.instanceFrame = i at hi
    generalize a'.instanceFrame = i' at hi
    cases hi with
    | none => exact .none
    | some hf => exact .some (W.laterSights hb hf)
  alike := h.alike
  alone := h.alone

theorem Tied.atStart {b : W.Bond} {f f' : FrameId} {i i' : Option FrameId} (hf : T.start b f f')
    (hi : T.self → Option.Rel (W.sights b) i i') (alone : T.alone → i = none ∧ i' = none) :
    T.Tied b (.start f i) (.start f' i') :=
  ⟨hf, hi, ⟨rfl, rfl, rfl, rfl, rfl, rfl⟩, alone⟩

theorem Tied.rests {b : W.Bond} {a a' c c' : Activation} (h : T.Tied b a a') (hr : a.Rests c)
    (hr' : a'.Rests c') (hc : c.Alike c') : T.Tied b c c' where
  frame := by rw [hr.frame, hr'.frame]; exact h.frame
  self := by rw [hr.instanceFrame, hr'.instanceFrame]; exact h.self
  alike := hc
  alone := by rw [hr.instanceFrame, hr'.instanceFrame]; exact h.alone

theorem machine_eq {w : W.Bond} {a : Activation} {b : T.machine.Bond} {s s' : Machine σ}
    (hle : T.machine.le ⟨w, a, a⟩ b) (hw : s.world = s'.world)
    (hs : T.Tied b.world s.activation s'.activation ∧ b.first = s.activation ∧
      b.second = s'.activation) : s = s' := by
  obtain ⟨_, c⟩ := s
  obtain ⟨_, c'⟩ := s'
  obtain ⟨ha, rfl, rfl⟩ := hs
  cases hw
  rw [hle.2.1.same hle.2.2.1 ha.alike]

theorem closeAll (T : NodeTerms W) {b : W.Bond} {w w' : World σ} {f f'} (hw : W.ties b w w')
    (hf : T.start b f f') {ts : List TypeRef} (ht : ∀ t ∈ ts, T.known t) :
    TypeRef.closeAll (w.frames.genericArgument f) ts =
      TypeRef.closeAll (w'.frames.genericArgument f') (ts.map T.types) := by
  induction ts with
  | nil => rfl
  | cons t ts ih =>
    have first := T.close hw hf (ht t (by simp))
    have rest := ih fun u hu => ht u (by simp [hu])
    simp only [List.map_cons, TypeRef.closeAll, first, rest]

end NodeTerms

namespace Run

variable {σ α : Type} {host : Host σ} {W : WorldTerms host} {T : NodeTerms W}

theorem AgreesBy.onWorld {β : Type} {b : T.machine.Bond} {Q : W.Bond → α → β → Prop}
    {m : Run (World σ) α} {m' : Run (World σ) β} (h : AgreesBy W.toTerms b.world Q m m') :
    AgreesBy T.machine b (fun b => Q b.world) (Run.onWorld m) (Run.onWorld m') := by
  rintro b₁ ⟨w, a⟩ ⟨w', a'⟩ hb ⟨hw, ha, hf, hs⟩
  have after {b₂} (hle : W.le b₁.world b₂) : T.machine.le b₁ ⟨b₂, a, a'⟩ :=
    ⟨hle, hf ▸ .refl a, hs ▸ .refl a', fun _ => hf ▸ ⟨rfl, rfl⟩⟩
  refine (h b₁.world w w' hb.1 hw).map (fun w => Machine.mk w a) (fun w => Machine.mk w a') id id
    (fun b₂ t t' hle ht => ?_) fun b₂ e t t' hle ht => ?_
  · exact ⟨_, after hle, ⟨ht, ha.later hle, rfl, rfl⟩, fun _ _ hq => hq⟩
  · exact ⟨_, after hle, ht, ha.later hle, rfl, rfl⟩

theorem Agrees.onWorld {m m' : Run (World σ) α} (h : Agrees W.toTerms m m') :
    Agrees T.machine (Run.onWorld m) (Run.onWorld m') :=
  fun b => (h b.world).onWorld

/-- A run in an activation of its own, seen from outside. -/
theorem AgreesBy.within {b : W.Bond} {a a' : Activation} (ha : T.Tied b a a')
    {m m' : Run (Machine σ) α} (h : Agrees T.machine m m') :
    AgreesBy W.toTerms b (fun _ => Eq) (Run.within a m) (Run.within a' m') := by
  intro b₁ w w' hb hw
  have hs : T.machine.ties ⟨b₁, a, a'⟩ ⟨w, a⟩ ⟨w', a'⟩ := ⟨hw, ha.later hb, rfl, rfl⟩
  refine (h.apply hs).map Machine.world Machine.world id id (fun b₂ t t' hle ht => ?_)
    fun b₂ e t t' hle ht => ?_
  · exact ⟨b₂.world, hle.1, ht.1, fun _ _ hq => hq⟩
  · exact ⟨b₂.world, hle.1, ht.1⟩

/-- A run in an activation of its own that ends as a body does. -/
def asBody (a : Activation) (m : Run (Machine σ) Value) : Run (World σ) Value := fun w =>
  match m ⟨w, a⟩ with
  | (.ok v, s) =>
    match s.activation.branch with
    | some _ => (.error (.failed (.of (.missingContext "enclosing loop"))), s.world)
    | none => (.ok (s.activation.pendingReturn.getD v), s.world)
  | (.error e, s) => (.error e, s.world)

/-- What a body comes to at its end is read off what is alike. -/
theorem AgreesBy.asBody {b : W.Bond} {a a' : Activation} (ha : T.Tied b a a')
    {m m' : Run (Machine σ) Value} (h : Agrees T.machine m m') :
    AgreesBy W.toTerms b (fun _ => Eq) (Run.asBody a m) (Run.asBody a' m') := by
  intro b₁ w w' hb hw
  have hs : T.machine.ties ⟨b₁, a, a'⟩ ⟨w, a⟩ ⟨w', a'⟩ := ⟨hw, ha.later hb, rfl, rfl⟩
  have ran := h.apply hs
  simp only [Run.asBody]
  generalize m ⟨w, a⟩ = x at ran
  generalize m' ⟨w', a'⟩ = x' at ran
  cases ran with
  | short hl => exact .short hl
  | short' hl => exact .short' hl
  | error hle ht => exact .error hle.1 ht.1
  | @ok b₂ v _ s s' hle ht hv =>
    cases hv
    have alike := ht.2.1.alike
    dsimp only
    rw [← alike.branch, ← alike.pendingReturn]
    split
    · exact .error hle.1 (W.stop _ ht.1)
    · exact .ok hle.1 ht.1 rfl

theorem Agrees.getsWorld {f f' : World σ → α} (h : ∀ b w w', W.ties b w w' → f w = f' w') :
    Agrees T.machine (Run.gets fun s => f s.world) (Run.gets fun s => f' s.world) :=
  .gets fun _ _ _ hs => h _ _ _ hs.1

theorem Agrees.getsActivation {f : Activation → α} (h : ∀ a a' : Activation, a.Alike a' → f a = f a') :
    Agrees T.machine (Run.gets fun s => f s.activation) (Run.gets fun s => f s.activation) :=
  .gets fun _ _ _ hs => h _ _ hs.2.1.alike

theorem AgreesBy.currentFrame (b : T.machine.Bond) :
    AgreesBy T.machine b (fun b => T.start b.world) Run.currentFrame Run.currentFrame :=
  .gets fun _ _ _ _ hs => hs.2.1.frame

/-- A change to an activation that leaves its frames and enclosing constructs. -/
theorem Agrees.changeActivation {g : Activation → α × Activation}
    (rests : ∀ a : Activation, a.Rests (g a).2)
    (alike : ∀ a a' : Activation, a.Alike a' → (g a).1 = (g a').1 ∧ (g a).2.Alike (g a').2)
    (signals : T.quiet → ∀ a : Activation, a.SameSignals (g a).2) :
    Agrees T.machine
      (Run.modifyGet fun s => ((g s.activation).1, { s with activation := (g s.activation).2 }))
      (Run.modifyGet fun s => ((g s.activation).1, { s with activation := (g s.activation).2 })) := by
  refine .of_ends ?_
  rintro b ⟨w, a⟩ ⟨w', a'⟩ ⟨hw, ha, hf, hs⟩
  obtain ⟨he, hc⟩ := alike a a' ha.alike
  let after : T.machine.Bond := ⟨b.world, (g a).2, (g a').2⟩
  have hle : T.machine.le b after := ⟨W.refl _, ?_, ?_, ?_⟩
  · exact .ok hle ⟨hw, ha.rests (rests a) (rests a') hc, rfl, rfl⟩ he
  · rw [hf]; exact rests a
  · rw [hs]; exact rests a'
  · rw [hf]; exact fun hq => signals hq a

theorem Agrees.modifyActivation {f : Activation → Activation} (rests : ∀ a : Activation, a.Rests (f a))
    (alike : ∀ a a' : Activation, a.Alike a' → (f a).Alike (f a'))
    (signals : T.quiet → ∀ a : Activation, a.SameSignals (f a)) :
    Agrees T.machine (Run.modifyActivation f) (Run.modifyActivation f) :=
  .changeActivation (g := fun a => ((), f a)) rests (fun a a' h => ⟨rfl, alike a a' h⟩) signals

/-- Whether a loop ends after its body, and the branch taken back. -/
theorem Agrees.loopExit (loud : ¬T.quiet) : Agrees T.machine Run.loopExit Run.loopExit := by
  let exit (a : Activation) : Bool × Activation :=
    if a.pendingReturn.isSome then (true, a)
    else (a.branch = some .breakLoop, { a with branch := none })
  have he : Run.loopExit = Run.modifyGet fun s : Machine σ =>
      ((exit s.activation).1, { s with activation := (exit s.activation).2 }) := by
    simp only [Run.loopExit, exit]
    congr 1
    funext s
    split <;> rfl
  rw [he]
  refine .changeActivation (fun a => ?_) (fun a a' h => ?_) fun hq => absurd hq loud
  · simp only [exit]
    split
    · exact .refl a
    · exact ⟨rfl, rfl, rfl, rfl, rfl, rfl, id⟩
  · simp only [exit, ← h.pendingReturn, ← h.branch]
    split
    · exact ⟨rfl, h⟩
    · exact ⟨rfl, h.receivers, h.conditionals, h.arrayInits, rfl, rfl, h.prepared⟩

theorem Ends.leave {b b₁ : T.machine.Bond} {x x' : Except Stop α × Machine σ}
    (h : Ends T.machine b₁ (fun _ => Eq) x x') (after : Activation → Activation)
    (left : ∀ b₂, T.machine.le b₁ b₂ → T.Tied b₂.world b₂.first b₂.second →
      T.machine.le b ⟨b₂.world, after b₂.first, after b₂.second⟩ ∧
        T.Tied b₂.world (after b₂.first) (after b₂.second)) :
    Ends T.machine b (fun _ => Eq) (x.1, { x.2 with activation := after x.2.activation })
      (x'.1, { x'.2 with activation := after x'.2.activation }) := by
  let leave (s : Machine σ) : Machine σ := { s with activation := after s.activation }
  refine h.map leave leave id id ?_ ?_
  · rintro ⟨b₂, _, _⟩ ⟨t, c⟩ ⟨t', c'⟩ hle ⟨ht, hc, rfl, rfl⟩
    obtain ⟨hle, hc⟩ := left _ hle hc
    exact ⟨_, hle, ⟨ht, hc, rfl, rfl⟩, fun _ _ hq => hq⟩
  · rintro ⟨b₂, _, _⟩ e ⟨t, c⟩ ⟨t', c'⟩ hle ⟨ht, hc, rfl, rfl⟩
    obtain ⟨hle, hc⟩ := left _ hle hc
    exact ⟨_, hle, ht, hc, rfl, rfl⟩

/-- A run between a way in and the way back out. -/
theorem Agrees.between {before after : Activation → Activation} {m m' : Run (Machine σ) α}
    (h : Agrees T.machine m m') (hb : Activation.Brackets before after) :
    Agrees T.machine (Run.between before after m) (Run.between before after m') := by
  refine .of_ends ?_
  rintro b ⟨w, a⟩ ⟨w', a'⟩ ⟨hw, ha, hf, hs⟩
  have inside : T.Tied b.world (before a) (before a') :=
    { frame := by rw [hb.frame, hb.frame]; exact ha.frame
      self := by rw [hb.instanceFrame, hb.instanceFrame]; exact ha.self
      alone := by rw [hb.instanceFrame, hb.instanceFrame]; exact ha.alone
      alike := hb.into ha.alike }
  have hin : T.machine.ties ⟨b.world, before a, before a'⟩ ⟨w, before a⟩ ⟨w', before a'⟩ :=
    ⟨hw, inside, rfl, rfl⟩
  refine (h.apply hin).leave after ?_
  rintro b₁ ⟨hle, hr, hr', hq⟩ hc
  refine ⟨⟨hle, ?_, ?_, ?_⟩, ?_⟩
  · rw [hf]; exact hb.undo hr
  · rw [hs]; exact hb.undo hr'
  · rw [hf]; exact fun q => hb.signals (hq q)
  · exact (ha.later hle).rests (hb.undo hr) (hb.undo hr') (hb.out hc.alike)

end Run

/-- With a new scope on top of the innermost frame. -/
def Machine.inScope {σ : Type} (s : Machine σ) : Machine σ where
  world := { s.world with frames := (s.world.frames.addChild s.activation.frame .scope).2 }
  activation := { s.activation with
    scopes := (s.world.frames.addChild s.activation.frame .scope).1 :: s.activation.scopes }

/-- Without the innermost scope. -/
def Machine.outOfScope {σ : Type} (s : Machine σ) : Machine σ :=
  { s with activation := { s.activation with scopes := s.activation.scopes.tail } }

namespace Run

variable {σ α : Type} {host : Host σ} {W : WorldTerms host} {T : NodeTerms W}

/-- A run in a scope begins with the scope on top and ends without it. -/
theorem withScope_apply (m : Run (Machine σ) α) (s : Machine σ) :
    Run.withScope m s = match m s.inScope with
      | (r, t) => (r, t.outOfScope) := rfl

theorem inScope_tied {b : T.machine.Bond} {s s' : Machine σ} (h : T.machine.ties b s s') :
    ∃ b₁, W.le b.world b₁ ∧
      T.machine.ties ⟨b₁, s.inScope.activation, s'.inScope.activation⟩ s.inScope s'.inScope := by
  obtain ⟨hw, ha, -, -⟩ := h
  have made := T.scope ha.frame b.world s.world s'.world (W.refl _) hw
  simp only [World.childFrame, Run.modifyGet] at made
  cases made with
  | ok hle ht hf => exact ⟨_, hle, ht, ⟨hf, (ha.later hle).self, { ha.alike with }, ha.alone⟩, rfl, rfl⟩

theorem Agrees.withScope {m m' : Run (Machine σ) α} (h : Agrees T.machine m m') :
    Agrees T.machine (Run.withScope m) (Run.withScope m') := by
  refine .of_ends fun b s s' hs => ?_
  obtain ⟨b₁, hb, hin⟩ := inScope_tied hs
  obtain ⟨-, ha, hf, hs⟩ := hs
  let leave (a : Activation) : Activation := { a with scopes := a.scopes.tail }
  have undo {t : Machine σ} {c} (hr : t.inScope.activation.Rests c) : t.activation.Rests (leave c) :=
    { base := hr.base, scopes := congrArg List.tail hr.scopes, instanceFrame := hr.instanceFrame,
      receivers := hr.receivers, conditionals := hr.conditionals, arrayInits := hr.arrayInits,
      prepared := hr.prepared }
  refine (h.apply hin).leave leave ?_
  rintro b₂ ⟨hle, hr, hr', hq⟩ hc
  have hle : W.le b.world b₂.world := W.trans hb hle
  refine ⟨⟨hle, ?_, ?_, ?_⟩, ?_⟩
  · rw [hf]; exact undo hr
  · rw [hs]; exact undo hr'
  · rw [hf]; exact hq
  · exact (ha.later hle).rests (undo hr) (undo hr') { hc.alike with }

theorem Agrees.defineLocal (name : String) (v : Value) :
    Agrees T.machine (Run.defineLocal name v) (Run.defineLocal name v) :=
  .tied .currentFrame fun _ _ _ hf => .onWorld (T.define name v hf)

theorem Agrees.declareLocal (name : String) :
    Agrees T.machine (Run.declareLocal name) (Run.declareLocal name) :=
  .tied .currentFrame fun _ _ _ hf => .onWorld (T.declare name hf)

theorem Agrees.closeType {t : TypeRef} (ht : T.known t) :
    Agrees T.machine (Run.closeType t) (Run.closeType (T.types t)) := by
  refine .still fun b s s' hs => ?_
  exact ⟨_, rfl, by simp only [Run.closeType, ← T.close hs.1 hs.2.1.frame ht]; rfl⟩

theorem AgreesBy.closeMember {use : MemberUse} (hu : ∀ t ∈ use.types, T.known t)
    (b : T.machine.Bond) :
    AgreesBy T.machine b (fun _ m m' => m = m' ∧ m.symbol = use.symbol) (Run.closeMember use)
      (Run.closeMember (use.mapTypes T.types)) := by
  intro b₁ s s' _ hs
  have containing := T.close hs.1 hs.2.1.frame (hu _ List.mem_cons_self)
  have typeArgs := T.closeAll hs.1 hs.2.1.frame fun t ht => hu t (List.mem_cons_of_mem _ ht)
  simp only [Run.closeMember, MemberUse.mapTypes, ← containing, ← typeArgs]
  cases use.containing.close (s.world.frames.genericArgument s.activation.frame) with
  | error e => exact .error (T.machine.refl _) (T.machine.stop _ hs)
  | ok containing =>
    cases TypeRef.closeAll (s.world.frames.genericArgument s.activation.frame) use.typeArgs with
    | error e => exact .error (T.machine.refl _) (T.machine.stop _ hs)
    | ok typeArgs => exact .ok (T.machine.refl _) hs ⟨rfl, rfl⟩

theorem Agrees.closeMember {use : MemberUse} (hu : ∀ t ∈ use.types, T.known t) :
    Agrees T.machine (Run.closeMember use) (Run.closeMember (use.mapTypes T.types)) := by
  intro b b₁ s s' hb hs
  refine (AgreesBy.closeMember hu b b₁ s s' hb hs).imp fun _ _ _ h => h.1

theorem Agrees.currentInstance (self : T.self) :
    Agrees T.machine Run.currentInstance Run.currentInstance := by
  refine .still fun b s s' hs => ?_
  obtain ⟨hw, ha, -, -⟩ := hs
  have hi := ha.self self
  simp only [Run.currentInstance]
  generalize s.activation.instanceFrame = i at hi
  generalize s'.activation.instanceFrame = i' at hi
  cases hi with
  | none => exact ⟨_, rfl, rfl⟩
  | @some f f' hf =>
    simp only [Option.bind_some, ← W.instances hw hf]
    cases s.world.frames.currentInstance? f <;> exact ⟨_, rfl, rfl⟩

theorem Agrees.innermost {values : Activation → List Value} (construct : String)
    (h : ∀ a a' : Activation, a.Alike a' → values a = values a') :
    Agrees T.machine (Context.innermost values construct) (Context.innermost values construct) := by
  refine .still fun b s s' hs => ?_
  simp only [Context.innermost, ← h _ _ hs.2.1.alike]
  cases values s.activation <;> exact ⟨_, rfl, rfl⟩

theorem Agrees.repeatWhile {round round' : Run (Machine σ) Bool} (h : Agrees T.machine round round') :
    ∀ n n', Enough W.lax W.lax' n n' →
      Agrees T.machine (Run.repeatWhile round n) (Run.repeatWhile round' n') := by
  refine Enough.induction (fun n n' hn h0 => ?_) fun n n' _ ih => ?_
  · exact Enough.exhausted (T := T.machine) hn h0 (by rintro rfl; rfl) (by rintro rfl; rfl)
  · exact .bind h fun goes => .ite (fun _ => ih) fun _ => .pure ()

end Run

end OpTree
