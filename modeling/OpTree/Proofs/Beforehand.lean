/-
Evaluation where there is no instance. The operands of a node are evaluated in the node's
own activation, so where that has no instance, none of them sees one, however deep it is.
Only the bodies of members that are called may have instances, and those run on frames of
their own.

So operands and bodies are told apart by their frames. In a framed world, what is called
stands on none of the calls and blocks that there were (`World.besides`): evaluation may
then be anything on those as soon as there is an instance, and a node without one is
evaluated as before (`evalNode_withoutInstance`).
-/
import OpTree.Proofs.Engine
import OpTree.Proofs.Sparing

namespace OpTree

namespace World

variable {σ α β : Type}

/-- Frames stay, those that are looked after among them, and the world stays framed. -/
def besidesTerms (σ : Type) (named : FrameId → Prop) : Terms (World σ) :=
  .holding (Watched True named) (fun w w' => w.frames.Extends w'.frames) (fun _ => .refl _) .trans

section

variable {host : Host σ} {named : FrameId → Prop}

theorem ends_besides {b : World σ} {Q R : World σ → α → β → Prop} {x : Except Stop α × World σ}
    {x' : Except Stop β × World σ} (h : Run.Ends (sparing host True named).toTerms b Q x x')
    (hq : ∀ b₁ a a', Q b₁ a a' → R b₁ a a') : Run.Ends (besidesTerms σ named) b R x x' := by
  cases h with
  | short hl => exact hl.elim
  | short' hl => exact hl.elim
  | ok hle ht ha => exact .ok hle.frames ht (hq _ _ _ ha)
  | error hle ht => exact .error hle.frames ht

theorem agreesBy_besides {b : World σ} {Q R : World σ → α → β → Prop} {m : Run (World σ) α}
    {m' : Run (World σ) β}
    (h : ∀ b₁ : World σ, b.frames.Extends b₁.frames →
      Run.AgreesBy (sparing host True named).toTerms b₁ Q m m')
    (hq : ∀ b₁ a a', Q b₁ a a' → R b₁ a a') : Run.AgreesBy (besidesTerms σ named) b R m m' :=
  fun b₁ _ _ hb hw => ends_besides ((h b₁ hb).apply hw) hq

theorem agrees_besides {m m' : Run (World σ) α}
    (h : Run.Agrees (sparing host True named).toTerms m m') :
    Run.Agrees (besidesTerms σ named) m m' :=
  fun _ => agreesBy_besides (fun b₁ _ => h b₁) fun _ _ _ => id

theorem tied_besides {b w w' : World σ}
    (h : ∃ b', (sparing host True named).le b b' ∧ (sparing host True named).ties b' w w') :
    ∃ b', (besidesTerms σ named).le b b' ∧ (besidesTerms σ named).ties b' w w' := by
  obtain ⟨b', hb, ht⟩ := h
  exact ⟨b', hb.frames, ht⟩

theorem changeFrames_besides {b : World σ} {name : String}
    {change : FrameStore → Except FrameError FrameStore}
    (h : ∀ s s', change s = .ok s' → s.Extends s') :
    Run.AgreesBy (besidesTerms σ named) b (fun _ => Eq) (World.changeFrames name change)
      (World.changeFrames name change) := by
  rintro w _ _ _ ⟨rfl, rfl, hw⟩
  simp only [World.changeFrames]
  split
  · next frames changed =>
    have hs : (besidesTerms σ named).le w { w with frames := frames } := h _ _ changed
    exact .ok hs ⟨rfl, rfl, hw.of_frames hs⟩ rfl
  · exact .error (.refl _) ⟨rfl, rfl, hw⟩

theorem scopeFrame_besides {b : World σ} {f : FrameId} (h : b.frames.Apart named f) :
    Run.AgreesBy (besidesTerms σ named) b (fun b g g' => g = g' ∧ b.frames.Apart named g)
      (World.childFrame f .scope) (World.childFrame f .scope) := by
  rintro w _ _ hb ⟨rfl, rfl, hw⟩
  obtain ⟨hk, hw'⟩ := childFrame_keeps f .scope hw
  exact .ok hk.frames ⟨rfl, rfl, hw'⟩ ⟨rfl, (h.extends hb).addChild hw.has _⟩

end

/-- What a run over a world keeps to: what is called stands on no call and no block that is
looked after. -/
def besides (host : Host σ) (named : FrameId → Prop) : WorldTerms host where
  toTerms := besidesTerms σ named
  sights _ f f' := f = f'
  frames b f f' := f = f' ∧ b.frames.Apart named f
  roots b f f' := f = f' ∧ b.frames.Bare f
  holders b _ f f' := f = f' ∧ b.frames.Bare f
  seen h := h.1
  holds h := h.1
  laterSights _ h := h
  later hb h := ⟨h.1, h.2.extends hb⟩
  laterRoots hb h := ⟨h.1, h.2.extends hb⟩
  laterHolders hb h := ⟨h.1, h.2.extends hb⟩
  names h hf name := by obtain ⟨rfl, rfl, -⟩ := h; rw [hf]
  arguments h hf := by obtain ⟨rfl, rfl, -⟩ := h; rw [hf.1]
  instances h hf := by obtain ⟨rfl, rfl, -⟩ := h; rw [hf]
  links {b w w'} h o := (link_sparing h o).strengthen fun _ _ hf => ⟨hf.1, hf.2 trivial⟩
  slots h _ _ := by obtain ⟨rfl, rfl, -⟩ := h; rfl
  statics h _ _ := by obtain ⟨rfl, rfl, -⟩ := h; rfl
  entries h _ _ := by obtain ⟨rfl, rfl, -⟩ := h; rfl
  tables h _ _ := by obtain ⟨rfl, rfl, -⟩ := h; rfl
  isOpen h _ := by obtain ⟨rfl, rfl, -⟩ := h; rfl
  cells h _ := by obtain ⟨rfl, rfl, -⟩ := h; rfl
  state h := by obtain ⟨rfl, rfl, -⟩ := h; rfl
  classFrame b s type := agreesBy_besides (fun b₁ _ => (sparing host True named).classFrame b₁ s type)
    fun _ _ _ hf => ⟨hf.1, hf.2 trivial⟩
  methodFrame {b f f'} m typeArgs hf := agreesBy_besides
    (fun b₁ hb => (sparing host True named).methodFrame m typeArgs
      ⟨hf.1, fun _ => hf.2.extends hb⟩) fun _ _ _ hg => ⟨hg.1, hg.2.2 trivial⟩
  instanceFrame {b f f'} o hf := agreesBy_besides
    (fun b₁ hb => (sparing host True named).instanceFrame o ⟨hf.1, fun _ => hf.2.extends hb⟩)
    fun _ _ _ hg => ⟨⟨hg.1.1, hg.1.2 trivial⟩, hg.1.1, hg.2.2.2 trivial⟩
  scopeFrame hf := hf.1 ▸ scopeFrame_besides hf.2
  declare name hf := hf.1 ▸ changeFrames_besides fun _ _ => FrameStore.extends_insert
  define name v hf := hf.1 ▸ changeFrames_besides fun _ _ => FrameStore.extends_insert
  assign name v hf := hf ▸ changeFrames_besides fun _ _ => FrameStore.extends_assign
  target c m hc := agrees_besides ((sparing host True named).target c m hc)
  register s entry := agrees_besides ((sparing host True named).register s entry)
  keepTable s type table h hn made :=
    tied_besides ((sparing host True named).keepTable s type table h hn made)
  storeStatic s place v h := tied_besides ((sparing host True named).storeStatic s place v h)
  storeSlot o field v h := tied_besides ((sparing host True named).storeSlot o field v h)
  bindLink o s type table h hf kept := ends_besides
    ((sparing host True named).bindLink o s type table h ⟨hf.1, fun _ => hf.2⟩ kept) fun _ _ _ => id
  newObject type := agrees_besides ((sparing host True named).newObject type)
  newArray element cell := agrees_besides ((sparing host True named).newArray element cell)
  setElement a indices v := agrees_besides ((sparing host True named).setElement a indices v)
  record call h := tied_besides ((sparing host True named).record call h)
  write state h := tied_besides ((sparing host True named).write state h)
  noteFailure call e h := tied_besides ((sparing host True named).noteFailure call e h)

end World

/-- All trees, in activations without an instance. -/
def NodeTerms.instanceless {σ : Type} (host : Host σ) (named : FrameId → Prop) :
    NodeTerms (World.besides host named) :=
  { NodeTerms.all (World.besides host named) with
    start := fun _ f f' => f = f'
    alone := True
    sights := fun h => h
    later := fun _ h => h
    scope := fun {b f f'} hf => by
      cases hf
      rintro w _ _ - ⟨rfl, rfl, hw⟩
      obtain ⟨hk, hw'⟩ := World.childFrame_keeps f .scope hw
      exact .ok hk.frames ⟨rfl, rfl, hw'⟩ rfl
    declare := fun {b f f'} name hf => by
      cases hf
      exact World.changeFrames_besides fun _ _ => FrameStore.extends_insert
    define := fun {b f f'} name v hf => by
      cases hf
      exact World.changeFrames_besides fun _ _ => FrameStore.extends_insert
    close := fun {b w w' f f' t} h hf _ => by
      obtain ⟨rfl, rfl, -⟩ := h
      rw [hf]
      rfl }

variable {σ : Type}

/-- The other evaluation does the same where there is no instance, and on frames that stand
on none of the calls and blocks among `frames`. On those, and with an instance, it may do
anything. -/
def Context.SameUninstanced (c : Context σ) (frames : FrameStore)
    (eval' : Node → Run (Machine σ) Value) : Prop :=
  ∀ x (s : Machine σ), s.activation.instanceFrame = none ∨
    s.world.frames.Apart frames.Has s.activation.frame → eval' x s = c.eval x s

/-- **Operands see no instance where their node sees none.** -/
theorem evalNode_withoutInstance (host : Host σ) (n : Nat) (session : SessionId) {t : Machine σ}
    (framed : t.world.Framed) (alone : t.activation.instanceFrame = none)
    {eval' : Node → Run (Machine σ) Value}
    (same : (Context.within host n session).SameUninstanced t.world.frames eval') (x : Node) :
    Context.evalNode { Context.within host n session with eval := eval' } x t =
      (Context.within host n session).evalNode x t := by
  let named := t.world.frames.Has
  let W := World.besides host named
  let T := NodeTerms.instanceless host named
  let c := Context.within host n session
  have self : c.Agrees W c := Context.within_self W n session
  have copy (y : Node) : y.mapTypes T.types = y := y.mapTypes_id
  have on : c.AgreesOn T { c with eval := eval' } :=
    { of_host := rfl, of_host' := rfl, session := rfl, fuel := .same n, dispatch := self.dispatch
      -- what is called stands apart from the frames that there are
      eval := fun y => (self.eval y).replace fun b s s' hs => same y s' <| .inr <| by
        obtain ⟨⟨-, hw, -⟩, ha, -⟩ := hs
        obtain ⟨one, apart⟩ := ha.frame
        rw [← hw, ← one]
        exact apart
      node := fun {y} _ => by
        have known : T.nodes y := trivial
        have agrees := T.evalWithin session n n (.same n) known
        rw [copy y] at agrees ⊢
        exact agrees.replace fun b s s' hs => same y s' (.inl (hs.2.1.alone trivial).2) }
  have agrees := on.evalNode (x := x) trivial
  rw [copy x] at agrees
  have tied : T.machine.ties ⟨t.world, t.activation, t.activation⟩ t t := by
    refine ⟨⟨rfl, rfl, fun _ => id, fun _ => framed⟩, ⟨rfl, fun _ => ?_, ?_, ?_⟩, rfl, rfl⟩
    · rw [alone]
      exact .none
    · exact ⟨rfl, rfl, rfl, rfl, rfl, rfl⟩
    · exact fun _ => ⟨alone, alone⟩
  have ends := agrees.apply tied
  generalize c.evalNode x t = y at ends
  generalize Context.evalNode { c with eval := eval' } x t = y' at ends
  cases ends with
  | short hl => exact hl.elim
  | short' hl => exact hl.elim
  | ok hle hs hv =>
    cases hv
    rw [NodeTerms.machine_eq hle (hs.1.1.symm.trans hs.1.2.1) hs.2]
  | error hle hs => rw [NodeTerms.machine_eq hle (hs.1.1.symm.trans hs.1.2.1) hs.2]

end OpTree
