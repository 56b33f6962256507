/-
Calls and their callers. Whatever code of a body asks for outside of the body is one of
a few things (`Call`): a member is called, read or written, an object is made, the body
of another constructor is run, or the host calls a member of an object back. Each is a
run over the world alone. It has no access to the caller's scopes, receivers,
conditional accesses and arrays, because it is not given the caller's activation; that it
does not reach the caller's frames either is what is shown here.

In one direction, nothing leaks out: the frames of calls and blocks that there were keep
their bindings, and no class frame gains a name, although all calls on a type share one.
In the other, nothing leaks in: callers in worlds that are alike but for such frames get
one answer, with the same effects.
-/
import OpTree.Proofs.Likeness
import OpTree.Proofs.Scopes

namespace OpTree

/-- What is done for the code of a body outside of the body. -/
inductive Call where
  /-- A method is called, or an operator. -/
  | invoke (m : ResolvedMember) (receiver : Option Value) (args : List Value) (isVirtual : Bool)
  | read (m : ResolvedMember) (receiver : Option Value) (index : List Value) (isVirtual : Bool)
  | write (m : ResolvedMember) (receiver : Option Value) (index : List Value) (v : Value)
      (isVirtual : Bool)
  /-- An object is made through a constructor. -/
  | construct (constructor : MemberDescriptor) (type : ClosedType) (args : List Value)
  /-- An object is made through the constructor that the arguments select. -/
  | create (type : ClosedType) (args : List Value)
  /-- The body of a constructor is run for the initializer of another, and takes over
  the arguments that were evaluated beforehand. -/
  | initializer (tree : Node) (m : ResolvedMember) (o : ObjectRef) (args : List Value)
      (prepared : List (List Value))
  /-- The host calls a member of an object. -/
  | reenter (o : ObjectRef) (m : SymbolId) (typeArgs : List ClosedType) (args : List Value)

namespace Call

variable {σ : Type}

/-- Carry out a call; what has no value is answered as void. -/
def run (c : Context σ) : Call → Run (World σ) Value
  | invoke m receiver args isVirtual => c.callMember m receiver args isVirtual
  | read m receiver index isVirtual => c.getMember m receiver index isVirtual
  | write m receiver index v isVirtual => do
    c.setMember m receiver index v isVirtual
    return .void
  | construct constructor type args => do return .object (← c.activateWith constructor type args)
  | create type args => do return .object (← c.activate type args)
  | initializer tree m o args prepared => do
    let activation ← c.prepare m.symbol m.containing [] (some o) args
    let _ ← c.runBody { activation with prepared := prepared } tree
    return .void
  | reenter o m typeArgs args => c.dispatch o m typeArgs args

theorem agrees {host : Host σ} {W : WorldTerms host} {c c' : Context σ} (h : c.Agrees W c') :
    ∀ call : Call, Run.Agrees W.toTerms (call.run c) (call.run c')
  | invoke m receiver args isVirtual => h.callMember m receiver args isVirtual
  | read m receiver index isVirtual => h.getMember m receiver index isVirtual
  | write m receiver index v isVirtual =>
    .bind (h.setMember m receiver index v isVirtual) fun _ => .pure _
  | construct constructor type args => .bind (h.activateWith constructor type args) fun _ => .pure _
  | create type args => .bind (h.activate type args) fun _ => .pure _
  | initializer tree m o args prepared => by
    refine .tied (h.prepare m.symbol m.containing [] (some o) args) fun b a a' ha => ?_
    have ha : (NodeTerms.all W).Tied b { a with prepared := prepared }
        { a' with prepared := prepared } :=
      { frame := ha.frame, self := ha.self, alike := { ha.alike with prepared := rfl } }
    exact (h.runBody ha tree).bind fun b₁ _ _ _ _ => Run.Agrees.pure _ b₁
  | reenter o m typeArgs args => h.dispatch o m typeArgs args

theorem grows (host : Host σ) (n : Nat) (session : SessionId) (call : Call) (w : World σ) :
    w.Grows host (call.run (.within host n session) w).2 := by
  have agrees := call.agrees (Context.within_grows host n session)
  exact agrees.grows rfl

end Call

/-- What a call leaves as it was in the frames. -/
structure World.Isolates {σ : Type} (w w' : World σ) : Prop where
  framed : w'.Framed
  frames : w.frames.Extends w'.frames
  /-- Calls and blocks keep their bindings. -/
  bodies : ∀ f, w.frames.isBody f = true → w'.frames.bindings f = w.frames.bindings f
  /-- Class frames gain no name. -/
  classes : ∀ f, w'.frames.isClass f = true → w.frames.SameNames w'.frames f

theorem Run.Agrees.isolates {σ α : Type} {host : Host σ} {m : Run (World σ) α}
    (h : ∀ named, Run.Agrees (World.sparing host True named).toTerms m m) {w : World σ}
    (framed : w.Framed) : w.Isolates (m w).2 := by
  let named (f : FrameId) : Prop := w.frames.Has f
  have watched : w.Watched True named := ⟨fun _ => id, fun _ => framed⟩
  have h : Run.AgreesBy (.holding (World.Watched True named)
      (fun w w' => w.frames.Spares True named w'.frames) (fun _ => .refl _) .trans) w
      (fun _ => Eq) m m := h named w
  obtain ⟨spares, watched⟩ := h.holding watched
  exact ⟨watched.framed trivial, spares.frames,
    fun f hf => spares.bodies trivial f (FrameStore.has_of_isBody hf) hf, spares.classes⟩

/-- A world with other frames in place of those of calls and blocks. -/
theorem World.Framed.like {σ : Type} {w : World σ} (h : w.Framed) (frames : FrameStore)
    (nested : ∀ f, w.frames.Bare f →
      ∀ g ∈ w.frames.chain f, ∀ k ∈ w.frames.chain g, k ∈ w.frames.chain f)
    (same : ∀ f, w.frames.Bare f → frames.frame? f = w.frames.frame? f) :
    w.Like w.trace w.trace (fun f f' => f = f' ∧ w.frames.Bare f) { w with frames := frames } where
  frames :=
    { one := fun {f f' g g'} hf hg => by rw [hf.1, hg.1]
      frames := fun {f f'} hf => by
        obtain ⟨rfl, bare⟩ := hf
        obtain ⟨x, hx⟩ := Option.isSome_iff_exists.1 bare.has
        refine ⟨x, x, hx, (same f bare).trans hx, rfl, rfl, List.forall₂_same.2 fun g hg => ⟨rfl, ?_⟩⟩
        have hg : g ∈ w.frames.chain f := by
          simp only [FrameStore.chain, hx]
          exact List.mem_cons_of_mem f hg
        exact fun k hk => bare k (nested f bare g hg k hk) }
  size := rfl
  objects := World.objects_alike fun linked => ⟨rfl, h.links linked⟩
  arrays := rfl
  sessions s :=
    { classFrames := fun type => by
        show Option.Rel _ ((w.session s).classFrames.get? type) ((w.session s).classFrames.get? type)
        cases hc : (w.session s).classFrames.get? type with
        | none => exact .none
        | some f => exact .some ⟨rfl, h.classes hc⟩
      targets := rfl, statics := rfl, registry := rfl, tables := rfl, isOpen := rfl }
  host := rfl
  trace := ⟨[], rfl, rfl⟩

section

variable {σ : Type} (host : Host σ)

theorem evalWithin_framed (n : Nat) (session : SessionId) (x : Node) {s : Machine σ}
    (framed : s.world.Framed) (standing : s.Standing)
    (own : s.world.frames.isClass s.activation.frame = false)
    (instance' : ∀ f ∈ s.activation.instanceFrame, ∀ g ∈ s.world.frames.chain f,
      s.world.frames.Has g) : (evalWithin host n session x s).2.world.Framed := by
  have watched : s.world.Watched True fun _ => False := ⟨fun _ => False.elim, fun _ => framed⟩
  have agrees := (Context.within_self (World.sparing host True fun _ => False) n session).eval x
  obtain ⟨-, watched, -⟩ := agrees.sparing watched
    { frame := ⟨rfl, ⟨standing _ (FrameStore.mem_chain_self ..), id, own⟩,
        fun _ g hg => ⟨standing g hg, fun _ => id⟩⟩
      self := fun _ => by
        cases hi : s.activation.instanceFrame with
        | none => exact .none
        | some f => exact .some ⟨rfl, fun _ g hg => ⟨instance' f hi g hg, fun _ => id⟩⟩
      alike := ⟨rfl, rfl, rfl, rfl, rfl, rfl⟩ }
  exact watched.framed trivial

/-- Calls are isolated from their callers. From every framed state, the calls and blocks
that there are keep their bindings, no class frame gains a name, and the caller's
activation is as it was. And callers whose worlds are the same but for frames that the
classes and the objects do not stand on get the same answer, with the same calls to the
host, and the same worlds again: whatever the locals and scopes of the two are, and the
receivers, conditional accesses and arrays around them. -/
theorem calls_isolated (n : Nat) (session : SessionId) (call : Call) :
    (∀ s : Machine σ, s.world.Framed →
      let t := (Run.onWorld (call.run (.within host n session)) s).2
      s.world.Isolates t.world ∧ t.activation = s.activation) ∧
    ∀ (s s' : Machine σ) (b : Pairing),
      s.world.Like s.world.trace s'.world.trace b s'.world →
      let x := Run.onWorld (call.run (.within host n session)) s
      let x' := Run.onWorld (call.run (.within host n session)) s'
      x.1 = x'.1 ∧ x.2.activation = s.activation ∧ x'.2.activation = s'.activation ∧
        ∃ b', b.Le b' ∧ x.2.world.Like s.world.trace s'.world.trace b' x'.2.world := by
  refine ⟨fun s framed => ⟨?_, rfl⟩, fun s s' b like => ?_⟩
  · exact Run.Agrees.isolates
      (fun named => call.agrees (Context.within_self (World.sparing host True named) n session)) framed
  · have agrees := call.agrees (Context.within_self
      (World.likeness host s.world.trace s'.world.trace) n session)
    have ends := agrees.apply like
    simp only [Run.onWorld]
    generalize call.run (.within host n session) s.world = x at ends
    generalize call.run (.within host n session) s'.world = x' at ends
    cases ends with
    | short hl => exact hl.elim
    | short' hl => exact hl.elim
    | ok hb ht hv => exact ⟨congrArg Except.ok hv, trivial, trivial, _, hb, ht⟩
    | error hb ht => exact ⟨rfl, trivial, trivial, _, hb, ht⟩

end

/-- A static method that assigns its parameter and answers it. -/
def assigning : Scripted.Program :=
  let x : Node := .mk .dummy (.parameterRef "x")
  let seven : Node := .mk .dummy (.literal (.int .i32 7))
  ⟨[⟨⟨⟨1⟩, "T", .classType, true, 0, none, [], [⟨30⟩]⟩, .fresh⟩],
    [⟨⟨⟨30⟩, "Set", ⟨1⟩, true, .source, .method [⟨"x", .primitive .i32⟩] (.primitive .i32) 0 false none⟩,
      some (.mk .dummy (.block [.mk .dummy (.assign x seven), .mk .dummy (.returnWith (some x))])),
      none⟩]⟩

/-- Another method of the type is running, where a local of the same name holds `v`. -/
def callerWith (v : Value) : Machine Scripted.State :=
  let type : ClosedType := .named ⟨1⟩ []
  ⟨{ World.initial Scripted.State.initial with
      frames := ⟨#[⟨.ofClass type, [], .empty⟩, ⟨.ofMethod ⟨31⟩ [], [⟨0⟩], ⟨[("x", .assigned v)]⟩⟩]⟩
      sessions := ⟨[(⟨0⟩, { SessionState.fresh with classFrames := ⟨[(type, ⟨0⟩)]⟩ })]⟩ },
    .start ⟨1⟩ none⟩

theorem callerWith_framed (v : Value) : (callerWith v).world.Framed where
  classes {s type f} h := by
    by_cases hs : (⟨0⟩ : SessionId) = s
    · subst hs
      by_cases ht : ClosedType.named ⟨1⟩ [] = type
      · subst ht
        cases h
        intro g hg
        change g ∈ [(⟨0⟩ : FrameId)] at hg
        obtain rfl := List.mem_singleton.1 hg
        exact ⟨rfl, rfl⟩
      · simp [callerWith, World.session, Table.get?, Table.find, ht] at h
    · simp [callerWith, World.session, Table.get?, Table.find, hs, SessionState.fresh, Table.empty] at h
  links h := by simp [callerWith, World.link?, World.initial] at h

theorem callerWith_bare {v : Value} {f : FrameId} (h : (callerWith v).world.frames.Bare f) :
    f = ⟨0⟩ := by
  obtain ⟨_ | _ | i⟩ := f
  · rfl
  · exact absurd (h ⟨1⟩ (FrameStore.mem_chain_self ..)).2 nofun
  · exact absurd h.has nofun

theorem callerWith_like (v v' : Value) :
    World.Like (callerWith v).world.trace (callerWith v').world.trace
      (fun f f' => f = f' ∧ (callerWith v).world.frames.Bare f)
      (callerWith v).world (callerWith v').world := by
  refine (callerWith_framed v).like (callerWith v').world.frames (fun f bare g hg k hk => ?_) ?_
  · obtain rfl := callerWith_bare bare
    change g ∈ [(⟨0⟩ : FrameId)] at hg
    obtain rfl := List.mem_singleton.1 hg
    exact hk
  · intro f bare
    obtain rfl := callerWith_bare bare
    rfl

theorem callerWith_isolated :
    let host := assigning.host
    let call : Call := .invoke ⟨⟨30⟩, .named ⟨1⟩ [], []⟩ none [.i32 1] false
    let s := callerWith (.i32 1)
    let s' := callerWith .null
    let x := Run.onWorld (call.run (.within host 6 ⟨0⟩)) s
    let x' := Run.onWorld (call.run (.within host 6 ⟨0⟩)) s'
    s.world.Framed ∧ s.world.Isolates x.2.world ∧ x.1 = .ok (.i32 7) ∧ x'.1 = .ok (.i32 7) := by
  obtain ⟨isolated, alike⟩ := calls_isolated assigning.host 6 ⟨0⟩
    (.invoke ⟨⟨30⟩, .named ⟨1⟩ [], []⟩ none [.i32 1] false)
  have framed := callerWith_framed (.i32 1)
  have same := (alike _ _ _ (callerWith_like (.i32 1) .null)).1
  exact ⟨framed, (isolated _ framed).1, rfl, same.symm.trans rfl⟩

end OpTree
