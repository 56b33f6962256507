/-
Freedom from effects. What is evaluated may leave a trace that nobody can see: frames of
calls that have returned, class frames that were asked for, decisions on how members are
reached. If everything else is as it was, the evaluation has settled (`Machine.Settles`),
and an expression is free of effects if, from every state that bodies run in, evaluating it
settles (`Node.EffectFree`). Expressions that only read are (`Node.ReadsOnly.effectFree`),
but so are calls of bodies that do no more than that.

From a settled machine everything evaluates as it did from the machine before, since the
worlds mirror each other: each frame that there was stands for itself, and those that came
beside for none (`Machine.Sound.tied`). That is known of sound machines, in which frames
stand on class frames; bodies begin in such (`Context.prepare_sound`), and evaluation leads
to such (`evalWithin_sound`). So what has no effect may as well be evaluated twice
(`Run.EffectFree.twice`).
-/
import OpTree.Proofs.Bodies
import OpTree.Proofs.MemberStorage
import OpTree.Proofs.Mirroring
import OpTree.Proofs.Targets

namespace OpTree

open Run (Agrees)

/-! ## Frames that stand for themselves -/

namespace FrameStore

/-- The frame is a class frame that binds nothing, or all frames that it stands on lead to
such. -/
inductive Grounded (s : FrameStore) : FrameId → Prop
  | root {type f} : s.IsRoot type f → s.Grounded f
  | nested {f x} : s.frame? f = some x → (∀ type, x.kind ≠ .ofClass type) →
      (∀ g ∈ x.ancestors, s.Grounded g) → s.Grounded f

/-- The frame stands on class frames and is none. -/
structure Stands (s : FrameStore) (f : FrameId) : Prop where
  grounded : s.Grounded f
  nested : s.isClass f = false

/-- Frames that stand on class frames, each for itself. -/
def itself (s : FrameStore) : Pairing := fun f f' => f = f' ∧ s.Stands f

variable {s t : FrameStore} {f g : FrameId}

theorem isClass_eq_false {x : Frame} (found : s.frame? f = some x)
    (nested : ∀ type, x.kind ≠ .ofClass type) : s.isClass f = false := by
  rw [isClass, kind?, found, Option.map_some]
  cases hk : x.kind with
  | ofClass type => exact absurd hk (nested type)
  | ofInstance | ofMethod | scope => rfl

namespace Grounded

theorem has (h : s.Grounded f) : s.Has f := by
  cases h with
  | root root => exact root.has
  | nested found => exact Option.isSome_iff_exists.2 ⟨_, found⟩

theorem keeps (h : s.Grounded f) (hs : s.KeepsRoots t) : t.Grounded f := by
  induction h with
  | root root => exact .root (hs.roots root)
  | @nested f x found nested _ ih =>
    obtain ⟨x', found', kind, ancestors⟩ := hs.frames f x found
    exact .nested found' (kind ▸ nested) (ancestors ▸ ih)

theorem root_or_stands (h : s.Grounded f) : (∃ type, s.IsRoot type f) ∨ s.Stands f := by
  cases h with
  | root root => exact .inl ⟨_, root⟩
  | nested found nested below =>
    exact .inr ⟨.nested found nested below, isClass_eq_false found nested⟩

theorem chain (h : s.Grounded f) : ∀ g ∈ s.chain f, s.Grounded g := by
  intro g hg
  cases h with
  | root root =>
    rw [root.chain, List.mem_singleton] at hg
    exact hg ▸ .root root
  | nested found nested below =>
    simp only [FrameStore.chain, found, List.mem_cons] at hg
    rcases hg with rfl | hg
    · exact .nested found nested below
    · exact below g hg

theorem addChild (h : s.Grounded f) {kind : FrameKind} (nested : ∀ type, kind ≠ .ofClass type) :
    (s.addChild f kind).2.Stands (s.addChild f kind).1 := by
  have found := frame?_add_self s kind (s.chain f)
  refine ⟨.nested found nested fun g hg => ?_, isClass_eq_false found nested⟩
  exact (h.chain g hg).keeps (.add s kind _)

end Grounded

theorem Stands.keeps (h : s.Stands f) (hs : s.KeepsRoots t) : t.Stands f :=
  ⟨h.grounded.keeps hs, (hs.frames.isClass h.grounded.has).trans h.nested⟩

theorem Houses.stands {o : ObjectRef} (h : s.Houses f o) : s.Stands f := by
  obtain ⟨o', c, type, bindings, -, root, found⟩ := h
  refine ⟨.nested found nofun fun g hg => ?_, isClass_eq_false found nofun⟩
  obtain rfl := List.mem_singleton.1 hg
  exact .root root

theorem itself_mirrors (s : FrameStore) : s.Mirrors s.itself s where
  one hf hg := by rw [hf.1, hg.1]
  frames {f f'} hf := by
    obtain ⟨rfl, grounded, nested⟩ := hf
    cases grounded with
    | root root =>
      rw [root.isClass] at nested
      cases nested
    | nested found nested below =>
      refine ⟨_, _, found, found, rfl, nested, rfl, List.forall₂_same.2 fun g hg => ?_⟩
      rcases (below g hg).root_or_stands with ⟨type, root⟩ | stands
      · exact .inr ⟨type, type, root, root⟩
      · exact .inl ⟨rfl, stands⟩

end FrameStore

/-! ## Settled machines -/

namespace World

variable {σ : Type} {host : Host σ} {w t u : World σ}

theorem Settles.trans (h : w.Settles t) (h' : t.Settles u) : w.Settles u where
  frames f x hx := h'.frames f x (h.frames f x hx)
  objects := h'.objects.trans h.objects
  arrays := h'.arrays.trans h.arrays
  sessions s := by
    obtain ⟨st, rg, tb, op⟩ := h.sessions s
    obtain ⟨st', rg', tb', op'⟩ := h'.sessions s
    exact ⟨st'.trans st, rg'.trans rg, tb'.trans tb, op'.trans op⟩
  host := h'.host.trans h.host
  trace := h'.trace.trans h.trace
  failures := h'.failures.trans h.failures

theorem Settles.keepsRoots (h : w.Settles t) : w.frames.KeepsRoots t.frames where
  frames f x hx := ⟨x, h.frames f x hx, rfl, rfl⟩
  roots hf := h.frames _ _ hf

/-- A sound world mirrors what it settles into. -/
theorem Sound.mirrors (h : w.Sound host) (ht : w.Settles t) : w.Mirrors w.frames.itself t := by
  have itself : w.Mirrors w.frames.itself w :=
    { frames := w.frames.itself_mirrors
      size := rfl
      objects := objects_alike fun linked => ⟨rfl, (h.housed.links linked).stands⟩
      arrays := rfl
      sessions := fun _ => ⟨rfl, rfl, rfl, rfl⟩
      host := rfl
      trace := rfl
      failures := rfl }
  exact itself.settle (.refl w) ht (.refl _) ht.keepsRoots

end World

namespace Machine

variable {σ : Type} {host : Host σ} {s t u : Machine σ}

/-- Two runs in activations over worlds that mirror each other. -/
abbrev mirroring (host : Host σ) : Terms (Machine σ) :=
  (NodeTerms.all (World.mirroring host)).machine

/-- Each frame that there was stands for itself. -/
def bond (host : Host σ) (s t : Machine σ) : (mirroring host).Bond :=
  ⟨⟨s.world.frames, t.world.frames, s.world.frames.itself⟩, s.activation, s.activation⟩

/-- A machine as bodies run in it: the world is sound, and the frames of the activation stand on
class frames. -/
structure Sound (host : Host σ) (s : Machine σ) : Prop where
  world : s.world.Sound host
  frame : s.world.frames.Stands s.activation.frame
  supplies : ∃ args, s.world.frames.Supplies s.activation.frame args
  instanceFrame : ∀ f ∈ s.activation.instanceFrame, s.world.frames.Stands f

/-- Nothing happened that can be seen. -/
structure Settles (s t : Machine σ) : Prop where
  world : s.world.Settles t.world
  activation : t.activation = s.activation

theorem Settles.refl (s : Machine σ) : s.Settles s := ⟨.refl _, rfl⟩

theorem Settles.trans (h : s.Settles t) (h' : t.Settles u) : s.Settles u :=
  ⟨h.world.trans h'.world, h'.activation.trans h.activation⟩

namespace Sound

variable (h : s.Sound host)

include h

/-- A sound machine stays so while its frames are kept and the enclosing constructs are what
they were. -/
theorem later (world : t.world.Sound host) (kept : s.world.frames.KeepsRoots t.world.frames)
    (rests : s.activation.Rests t.activation) : t.Sound host where
  world := world
  frame := rests.frame ▸ h.frame.keeps kept
  supplies := by
    obtain ⟨args, supplies⟩ := h.supplies
    exact ⟨args, rests.frame ▸ supplies.grown kept.frames⟩
  instanceFrame f hf := (h.instanceFrame f (rests.instanceFrame ▸ hf)).keeps kept

theorem settles (hs : s.Settles t) (world : t.world.Sound host) : t.Sound host :=
  h.later world hs.world.keepsRoots (hs.activation ▸ .refl _)

theorem tied (hs : s.Settles t) (world : t.world.Sound host) :
    (mirroring host).ties (bond host s t) s t := by
  refine ⟨⟨rfl, rfl, h.world.mirrors hs.world, h.world, world⟩, ?_, rfl, hs.activation.symm⟩
  obtain ⟨args, supplies⟩ := h.supplies
  rw [hs.activation]
  refine ⟨⟨⟨rfl, h.frame⟩, args, supplies, supplies.grown hs.world.keepsRoots.frames⟩, fun _ => ?_,
    ⟨rfl, rfl, rfl, rfl, rfl, rfl⟩, False.elim⟩
  cases hi : s.activation.instanceFrame with
  | none => exact .none
  | some f => exact .some ⟨rfl, h.instanceFrame f hi⟩

end Sound

end Machine

/-- Whatever agrees with itself leads from sound machines to sound machines. -/
theorem Run.Agrees.sound {σ α : Type} {host : Host σ} {m : Run (Machine σ) α}
    (h : Agrees (Machine.mirroring host) m m) {s : Machine σ}
    (hs : s.Sound host) : (m s).2.Sound host := by
  have ends := h.apply (hs.tied (.refl s) hs.world)
  generalize m s = x at ends
  cases ends with
  | short hl => exact hl.elim
  | short' hl => exact hl.elim
  | ok hle ht _ | error hle ht =>
    obtain ⟨⟨kept, -⟩, rests, -⟩ := hle
    obtain ⟨mirrored, -, first, -⟩ := ht
    exact hs.later mirrored.sound (mirrored.left ▸ kept) (first ▸ rests)

/-- What agrees with itself over worlds leads from sound worlds to sound worlds. -/
theorem Run.AgreesBy.sound {σ α : Type} {host : Host σ} {m : Run (World σ) α} {w w' : World σ}
    {Q : (World.mirroring host).Bond → α → α → Prop} {r : Except Stop α}
    (h : ∀ b, AgreesBy (World.mirroring host).toTerms b Q m m) (hw : w.Sound host)
    (hm : m w = (r, w')) : w'.Sound host := by
  have tied : w.MirroredBy host ⟨w.frames, w.frames, w.frames.itself⟩ w :=
    ⟨rfl, rfl, hw.mirrors (.refl w), hw, hw⟩
  have ends := (h _).apply tied
  rw [hm] at ends
  cases ends with
  | short hl => exact hl.elim
  | short' hl => exact hl.elim
  | ok _ ht _ | error _ ht => exact ht.sound'

theorem evalWithin_sound {σ : Type} (host : Host σ) (n : Nat) (session : SessionId) (x : Node)
    {s : Machine σ} (h : s.Sound host) : (evalWithin host n session x s).2.Sound host :=
  Run.Agrees.sound ((Context.within_self (World.mirroring host) n session).eval x) h

/-! ## Machines that are alike -/

/-- The machines are in one activation and nothing that can be seen tells their worlds apart;
each frame that there was at `s` stands for itself. -/
structure Machine.AlikeSince {σ : Type} (s t t' : Machine σ) : Prop where
  activation : t.activation = t'.activation
  worlds : ∃ pairs : Pairing, s.world.frames.itself.Le pairs ∧ t.world.Mirrors pairs t'.world

/-- Runs that agree from a sound machine and one that it settled into come to one answer, in
machines that are alike. -/
theorem Run.Ends.alikeSince {σ α : Type} {host : Host σ} {s t : Machine σ}
    {b : (Machine.mirroring host).Bond} {x x' : Except Stop α × Machine σ}
    (ends : Run.Ends (Machine.mirroring host) b (fun _ => Eq) x x')
    (later : (Machine.mirroring host).le (Machine.bond host s t) b) :
    x.1 = x'.1 ∧ s.AlikeSince x.2 x'.2 := by
  have alike {b' : (Machine.mirroring host).Bond} {u u' : Machine σ}
      (hle : (Machine.mirroring host).le b b') (ht : (Machine.mirroring host).ties b' u u') :
      s.AlikeSince u u' := by
    obtain ⟨⟨-, -, paired⟩, rests, rests', -⟩ := Terms.trans _ later hle
    obtain ⟨mirrored, tied, left, right⟩ := ht
    exact ⟨(left ▸ rests).same (right ▸ rests') tied.alike, _, paired, mirrored.mirrors⟩
  cases ends with
  | short hl => exact hl.elim
  | short' hl => exact hl.elim
  | ok hle ht hq => exact ⟨congrArg Except.ok hq, alike hle ht⟩
  | error hle ht => exact ⟨rfl, alike hle ht⟩

/-! ## Bodies begin in sound machines -/

namespace World

variable {σ : Type} {host : Host σ} {w t : World σ}

theorem Sound.classFrame (h : w.Sound host) {s : SessionId} {type : ClosedType} {f : FrameId}
    (made : World.classFrame s type w = (.ok f, t)) : w.StaysSound host t ∧ t.frames.IsRoot type f := by
  obtain ⟨houses, root⟩ := h.housed.classFrame s type
  have grows : w.Grows host _ := classFrame_grows s type w
  rw [made] at houses root grows
  exact ⟨h.stays houses grows, root f rfl⟩

theorem Sound.childFrame (h : w.Sound host) {f g : FrameId} {kind : FrameKind}
    (made : World.childFrame f kind w = (.ok g, t)) (grounded : w.frames.Grounded f)
    (nested : ∀ type, kind ≠ .ofClass type) :
    w.StaysSound host t ∧ t.frames.Stands g := by
  cases made
  have kept : w.frames.KeepsRoots (w.frames.addChild f kind).2 := .add w.frames kind _
  exact ⟨h.stays (h.housed.frames kept) (.of_frames kept.frames), grounded.addChild nested⟩

theorem Sound.define {f : FrameId} {l : List (Parameter × Value)} :
    ∀ {w : World σ}, w.Sound host → w.frames.Stands f →
      Run.forList (fun p : Parameter × Value => World.define f p.1.name p.2) l w = (.ok (), t) →
      w.StaysSound host t := by
  induction l with
  | nil =>
    rintro w h - ⟨⟩
    exact ⟨.refl _, h⟩
  | cons p l ih =>
    intro w h stands bound
    obtain ⟨⟨⟩, u, first, rest⟩ := Run.bind_eq_ok.1 bound
    have stays : w.StaysSound host u := by
      simp only [World.define, World.changeFrames] at first
      split at first
      · rename_i frames inserted
        cases first
        have kept : w.frames.KeepsRoots frames := .insert stands.nested inserted
        exact h.stays (h.housed.frames kept) (.of_frames kept.frames)
      · cases first
    have later := ih stays.sound (stands.keeps stays.roots) rest
    exact ⟨stays.roots.trans later.roots, later.sound⟩

end World

/-- Every body begins in a sound machine, and in such a one, prepared without a receiver, a
constructor evaluates the arguments that it passes on. -/
theorem Context.prepare_sound {σ : Type} {host : Host σ} {c : Context σ} {m : SymbolId}
    {type : ClosedType} {typeArgs : List ClosedType} {receiver : Option ObjectRef} {args : List Value}
    {w t : World σ} {a : Activation} (h : w.Sound host)
    (prepared : c.prepare m type typeArgs receiver args w = (.ok a, t)) :
    Machine.Sound host ⟨t, a⟩ := by
  simp only [prepare, Run.bind_eq_ok] at prepared
  obtain ⟨member, w₀, found, prepared⟩ := prepared
  obtain ⟨-, rfl⟩ := Run.ofExcept_eq_ok.1 found
  split at prepared
  · cases prepared
  · simp only [Run.bind_eq_ok] at prepared
    obtain ⟨classFrame, w₁, hc, methodFrame, w₂, hm, ⟨⟩, w₃, hd, prepared⟩ := prepared
    obtain ⟨stays₁, root⟩ := h.classFrame hc
    obtain ⟨stays₂, stands⟩ := stays₁.sound.childFrame hm (.root root) fun _ he => by cases he
    have stays₃ := World.Sound.define stays₂.sound stands hd
    have supplies : w₃.frames.Supplies methodFrame ⟨type.typeArgs, typeArgs⟩ := by
      cases hm
      exact (root.supplies.child (.ofMethod m typeArgs) rfl).grown stays₃.roots.frames
    have stands := stands.keeps stays₃.roots
    cases receiver with
    | none =>
      cases prepared
      exact ⟨stays₃.sound, stands, ⟨_, supplies⟩, fun _ he => by cases he⟩
    | some o =>
      simp only [Run.bind_eq_ok] at prepared
      obtain ⟨bound, w₄, asked, prepared⟩ := prepared
      obtain ⟨answer, rfl⟩ := Prod.mk.inj asked
      have answer : w₃.instanceFrame? c.session o = bound := Except.ok.inj answer
      cases bound with
      | some f =>
        cases prepared
        refine ⟨stays₃.sound, stands, ⟨_, supplies⟩, fun f' hf => ?_⟩
        cases hf
        exact (stays₃.sound.housed.houses answer).stands
      | none =>
        obtain ⟨f, w₅, hi, ⟨⟩⟩ := Run.bind_eq_ok.1 prepared
        have root := stays₃.roots.roots (stays₂.roots.roots root)
        obtain ⟨stays, inside⟩ := stays₃.sound.childFrame hi (.root root) fun _ he => by cases he
        refine ⟨stays.sound, stands.keeps stays.roots, ⟨_, supplies.grown stays.roots.frames⟩,
          fun f' hf => ?_⟩
        cases hf
        exact inside

/-- So do blocks and loops inside a body. -/
theorem Machine.Sound.inScope {σ : Type} {host : Host σ} {s : Machine σ} (h : s.Sound host) :
    s.inScope.Sound host := by
  have made : World.childFrame s.activation.frame .scope s.world =
      (.ok s.inScope.activation.frame, s.inScope.world) := rfl
  obtain ⟨stays, stands⟩ := h.world.childFrame made h.frame.grounded nofun
  obtain ⟨args, supplies⟩ := h.supplies
  exact ⟨stays.sound, stands, ⟨args, supplies.scope⟩, fun f hf =>
    (h.instanceFrame f hf).keeps stays.roots⟩

/-! ## Freedom from effects -/

namespace Run

variable {σ α β : Type} {host : Host σ}

/-- From a sound machine nothing happens that can be seen, unless the run wants for steps. -/
def EffectFree (host : Host σ) (m : Run (Machine σ) α) : Prop :=
  ∀ s, s.Sound host → (m s).1 ≠ .error .exhausted → s.Settles (m s).2 ∧ (m s).2.Sound host

namespace EffectFree

theorem still {m : Run (Machine σ) α} (h : m.Still) : EffectFree host m := by
  intro s hs _
  rw [h s]
  exact ⟨.refl s, hs⟩

theorem bind_of {m : Run (Machine σ) α} {f : α → Run (Machine σ) β} (h : EffectFree host m)
    (hf : ∀ s a t, m s = (.ok a, t) → EffectFree host (f a)) : EffectFree host (m >>= f) := by
  intro s hs ended
  have free := h s hs
  rw [bind_def] at ended ⊢
  rcases hm : m s with ⟨r, t⟩
  rw [hm] at free ended
  cases r with
  | ok a =>
    obtain ⟨settles, sound⟩ := free nofun
    obtain ⟨settles', sound'⟩ := hf s a t hm t sound ended
    exact ⟨settles.trans settles', sound'⟩
  | error e =>
    refine free fun he => ended ?_
    cases he
    rfl

theorem bind {m : Run (Machine σ) α} {f : α → Run (Machine σ) β} (h : EffectFree host m)
    (hf : ∀ a, EffectFree host (f a)) : EffectFree host (m >>= f) :=
  h.bind_of fun _ a _ _ => hf a

theorem pure (a : α) : EffectFree host (Pure.pure a) := still fun _ => rfl

theorem ofExcept (r : Except EvalError α) : EffectFree host (Run.ofExcept r) :=
  still (still_ofExcept r)

theorem orSpan {m : Run (Machine σ) α} (h : EffectFree host m) (span : Span) :
    EffectFree host (Run.orSpan span m) := by
  intro s hs ended
  have free := h s hs
  simp only [Run.orSpan] at ended ⊢
  rcases hm : m s with ⟨(e | _) | a, t⟩ <;> rw [hm] at free ended
  · exact free (by simp)
  · exact absurd rfl ended
  · exact free (by simp)

theorem mapList {f : β → Run (Machine σ) α} {l : List β} (h : ∀ b ∈ l, EffectFree host (f b)) :
    EffectFree host (Run.mapList f l) := by
  induction l with
  | nil => exact .pure []
  | cons b l ih =>
    exact .bind (h b List.mem_cons_self) fun a =>
      .bind (ih fun b' hb => h b' (List.mem_cons_of_mem b hb)) fun as => .pure (a :: as)

end EffectFree

end Run

/-- It does not matter whether what has no effect is run once more right away: it answers the
same, and what comes after goes on alike. -/
theorem Run.EffectFree.twice {σ α β : Type} {host : Host σ} {find : Run (Machine σ) α}
    {k : α → α → Run (Machine σ) β} (free : Run.EffectFree host find)
    (finds : Agrees (Machine.mirroring host) find find)
    (agrees : ∀ a, Agrees (Machine.mirroring host) (k a a) (k a a)) {s : Machine σ}
    (sound : s.Sound host) :
    let once := (find >>= fun a => k a a) s
    let twice := (find >>= fun a => find >>= fun b => k a b) s
    once.1 = twice.1 ∧ s.AlikeSince once.2 twice.2 := by
  intro once twice
  cases ha : find s with
  | mk r s₁ =>
    cases r with
    | error e =>
      have ends := finds.apply (sound.tied (.refl s) sound.world)
      rw [ha] at ends
      obtain ⟨-, alike⟩ := ends.alikeSince (Terms.refl _ _)
      have once' : once = (.error e, s₁) := Run.bind_error ha
      have twice' : twice = (.error e, s₁) := Run.bind_error ha
      rw [once', twice']
      exact ⟨rfl, alike⟩
    | ok a =>
      have settled := free s sound
      rw [ha] at settled
      obtain ⟨settles, sound₁⟩ := settled nofun
      -- the second time starts where the first has settled, and finds what that found
      have ends := finds.apply (sound.tied settles sound₁.world)
      rw [ha] at ends
      cases hb : find s₁ with
      | mk r' s₂ =>
        rw [hb] at ends
        cases ends with
        | short' hl => exact hl.elim
        | ok hle ht he =>
          subst he
          have once' : once = k a a s₁ := Run.bind_ok ha
          have twice' : twice = k a a s₂ := (Run.bind_ok ha).trans (Run.bind_ok hb)
          rw [once', twice']
          exact ((agrees a).apply ht).alikeSince hle

/-- From every machine in which bodies run, evaluating the node has no effect that can be seen. -/
def Node.EffectFree {σ : Type} (host : Host σ) (session : SessionId) (x : Node) : Prop :=
  ∀ n s, s.Sound host → (evalWithin host n session x s).1 ≠ .error .exhausted →
    s.Settles (evalWithin host n session x s).2

theorem Node.EffectFree.run {σ : Type} {host : Host σ} {session : SessionId} {x : Node}
    (h : x.EffectFree host session) (n : Nat) :
    Run.EffectFree host (evalWithin host n session x) :=
  fun s hs ended => ⟨h n s hs ended, evalWithin_sound host n session x hs⟩

namespace Context

variable {σ : Type} {c : Context σ}

theorem target_settles {m : SymbolId} {t : Target σ} (h : c.host.decide m = .ok t)
    {s : Machine σ} (hs : s.Sound c.host) : ∃ w, c.target m s.world = (.ok t, w) ∧
      s.Settles ⟨w, s.activation⟩ ∧ Machine.Sound c.host ⟨w, s.activation⟩ := by
  obtain ⟨w, reached, same, decided⟩ := c.target_of_decide hs.world.decided h
  have settles : s.Settles ⟨w, s.activation⟩ := ⟨same.settles, rfl⟩
  exact ⟨w, reached, settles, hs.settles settles ⟨same.housed hs.world.housed, decided⟩⟩

/-- Reading a member that is kept changes nothing once it is known how. -/
theorem getMember_stored {m : ResolvedMember} {storage : Storage} {w w' : World σ}
    (reached : c.target m.symbol w = (.ok storage.target, w')) (receiver : Option Value)
    (index : List Value) (isVirtual : Bool) : (c.getMember m receiver index isVirtual w).2 = w' := by
  unfold getMember
  rw [Run.bind_ok reached]
  cases storage with
  | slot =>
    refine Run.Still.bind (Run.still_ofExcept _) (fun o => Run.Still.bind (fun _ => rfl) fun v => ?_) w'
    cases v with
    | some v => exact fun _ => rfl
    | none => exact Run.still_ofExcept _
  | static =>
    refine Run.Still.bind (fun _ => rfl) (fun v => ?_) w'
    cases v with
    | some v => exact fun _ => rfl
    | none => exact Run.still_ofExcept _
  | property name =>
    refine Run.Still.bind (Run.still_ofExcept _) (fun o => Run.Still.bind (fun w => ?_) fun f =>
      Run.Still.bind (fun _ => rfl) fun r => Run.still_ofExcept r) w'
    unfold boundFrame
    split <;> rfl

theorem getMember_effectFree {m : ResolvedMember} (stored : (c.host.storage? m.symbol).isSome = true)
    (receiver : Option Value) (index : List Value) (isVirtual : Bool) :
    Run.EffectFree c.host (Run.onWorld (c.getMember m receiver index isVirtual)) := by
  obtain ⟨storage, hs⟩ := Option.isSome_iff_exists.1 stored
  intro s sound _
  obtain ⟨w, reached, settles, sound'⟩ := target_settles (c.host.decide_of_storage? hs) sound
  have world := getMember_stored reached receiver index isVirtual
  have left : (Run.onWorld (c.getMember m receiver index isVirtual) s).2 = ⟨w, s.activation⟩ := by
    simp only [Run.onWorld, world]
  rw [left]
  exact ⟨settles, sound'⟩

end Context

/-- What can be read and written. -/
def Op.isPlace : Op → Bool
  | .localRef _ | .parameterRef _ | .fieldRef .. | .propertyRef .. | .arrayElement .. => true
  | _ => false

namespace Context

variable {σ : Type} {c : Context σ}

theorem innermost_still (values : Activation → List Value) (construct : String) :
    (innermost values construct : Run (Machine σ) Value).Still := by
  intro s
  simp only [innermost]
  split <;> rfl

section

variable {host : Host σ}

theorem evalList_effectFree {xs : List Node} (free : ∀ x ∈ xs, Run.EffectFree host (c.eval x)) :
    Run.EffectFree host (c.evalList xs) :=
  .mapList free

theorem receiverFor_effectFree (m : ResolvedMember) {receiver : Option Node}
    (free : ∀ x ∈ receiver.toList, Run.EffectFree host (c.eval x)) :
    Run.EffectFree host (c.receiverFor m receiver) := by
  cases receiver with
  | some x => exact .bind (free x (by simp)) fun v => .pure _
  | none =>
    refine .bind (.ofExcept _) fun member => ?_
    split
    · exact .pure none
    · exact .bind (.still Run.currentInstance_still) fun o => .pure _

theorem elementTarget_effectFree {array : Node} {index : List Node}
    (free : ∀ x ∈ array :: index, Run.EffectFree host (c.eval x)) :
    Run.EffectFree host (c.elementTarget array index) := by
  obtain ⟨first, rest⟩ := List.forall_mem_cons.1 free
  refine .bind first fun v => ?_
  split
  · exact .bind (evalList_effectFree rest) fun values => .bind (.ofExcept _) fun is => .pure _
  · exact .still fun _ => rfl
  · exact .still fun _ => rfl

/-- Finding a place has no effect when what stands below the target has none. -/
theorem leafPlace_effectFree (span : Span) {op : Op} (place : op.isPlace = true)
    (free : ∀ x ∈ op.operands, Run.EffectFree host (c.eval x)) :
    Run.EffectFree host (c.leafPlace span op) := by
  have member (use : MemberUse) {receiver : Option Node} {index : List Node} (isVirtual : Bool)
      (free : ∀ x ∈ receiver.toList ++ index, Run.EffectFree host (c.eval x)) :
      Run.EffectFree host (c.memberPlace use receiver index isVirtual) := by
    obtain ⟨receivers, indices⟩ := List.forall_mem_append.1 free
    exact .bind (.still (Run.closeMember_still use)) fun m => .bind (receiverFor_effectFree m receivers)
      fun r => .bind (evalList_effectFree indices) fun is => .pure _
  cases op with
  | localRef | parameterRef => exact .pure _
  | fieldRef field receiver => exact member field false (by rwa [List.append_nil])
  | propertyRef property receiver index isVirtual => exact member property isVirtual free
  | arrayElement array index => exact .bind (elementTarget_effectFree free) fun _ => .pure _
  | _ => cases place

end

end Context

/-- The operation itself does no more than to read. -/
def Op.readsOnly {σ : Type} (host : Host σ) : Op → Bool
  | .literal _ | .defaultValue _ | .typeOf _ | .localRef _ | .parameterRef _ | .this
  | .implicitReceiver | .conditionalInstance | .arrayElement .. | .coalesce .. | .isType ..
  | .tuple _ | .interpolatedString _ | .interpolatedText _ | .interpolation .. => true
  | .fieldRef m _ | .propertyRef m .. => (host.storage? m.symbol).isSome
  | .binary _ _ _ operator | .unary _ _ operator | .conversion _ _ _ operator => operator.isNone
  | _ => false

/-- All that is evaluated does no more than to read. -/
inductive Node.ReadsOnly {σ : Type} (host : Host σ) : Node → Prop
  | mk {span op} : op.readsOnly host = true → (∀ x ∈ op.operands, x.ReadsOnly host) →
      Node.ReadsOnly host (.mk span op)

namespace Context

variable {σ : Type} {c : Context σ}

theorem evalOp_effectFree {op : Op} (reads : op.readsOnly c.host = true)
    (free : ∀ x ∈ op.operands, Run.EffectFree c.host (c.eval x)) :
    Run.EffectFree c.host (c.evalOp op) := by
  have member (use : MemberUse) {receiver : Option Node} {index : List Node} (isVirtual : Bool)
      (stored : (c.host.storage? use.symbol).isSome = true)
      (free : ∀ x ∈ receiver.toList ++ index, Run.EffectFree c.host (c.eval x)) :
      Run.EffectFree c.host (c.readMember use receiver index isVirtual) := by
    obtain ⟨receivers, indices⟩ := List.forall_mem_append.1 free
    refine .bind_of (.still (Run.closeMember_still use)) fun s m t closed => ?_
    refine .bind (receiverFor_effectFree m receivers) fun r => ?_
    refine .bind (evalList_effectFree indices) fun is => getMember_effectFree ?_ r is isVirtual
    rwa [(closeMember_eq_ok closed).2.1]
  cases op with
  | literal value => exact .pure _
  | interpolatedText text => exact .pure _
  | defaultValue type => exact .bind (.still (Run.closeType_still type)) fun t => .pure _
  | typeOf type => exact .bind (.still (Run.closeType_still type)) fun t => .pure _
  | localRef name | parameterRef name => exact .still fun _ => rfl
  | this => exact .bind (.still Run.currentInstance_still) fun o => .pure _
  | implicitReceiver | conditionalInstance => exact .still (innermost_still _ _)
  | fieldRef m receiver => exact member m false reads (by rwa [List.append_nil])
  | propertyRef m receiver index isVirtual => exact member m isVirtual reads free
  | arrayElement array index =>
    refine .bind (elementTarget_effectFree free) fun p => ?_
    exact .bind (.still fun _ => rfl) fun r => .ofExcept r
  | coalesce value whenNull =>
    refine .bind (free value (by simp [Op.operands])) fun v => ?_
    split
    · exact free whenNull (by simp [Op.operands])
    · exact .pure v
  | isType operand target negated =>
    refine .bind (free operand (by simp [Op.operands])) fun v => ?_
    refine .bind (.still (Run.closeType_still target)) fun t => ?_
    split
    · exact .pure _
    · exact .bind (.still fun _ => rfl) fun b => .pure _
  | tuple elements => exact .bind (evalList_effectFree free) fun vs => .pure _
  | interpolatedString parts => exact .bind (evalList_effectFree free) fun vs => .pure _
  | interpolation value alignment format =>
    obtain ⟨values, alignments⟩ := List.forall_mem_cons.1 free
    refine .bind values fun v => ?_
    have formatted (width : Option Int) : Run.EffectFree c.host
        (Run.ofExcept (v.format format width) >>= fun text => pure (Value.text text)) :=
      .bind (.ofExcept _) fun text => .pure _
    cases alignment with
    | none => exact .bind (.pure none) formatted
    | some x =>
      exact .bind (alignments x (by simp)) fun w => .bind (.ofExcept _) fun n =>
        .bind (.pure (some n)) formatted
  | binary op left right operator =>
    have leftFree := free left (by simp [Op.operands])
    have rightFree := free right (by simp [Op.operands])
    obtain rfl := Option.isNone_iff_eq_none.1 reads
    refine .bind leftFree fun l => ?_
    split
    · split
      · exact .pure _
      · exact .bind (.bind rightFree fun v => .ofExcept _) fun b => .pure _
    · exact .bind rightFree fun r => .ofExcept _
  | unary op operand operator =>
    obtain rfl := Option.isNone_iff_eq_none.1 reads
    exact .bind (free operand List.mem_cons_self) fun v => .ofExcept _
  | conversion operand target kind operator =>
    obtain rfl := Option.isNone_iff_eq_none.1 reads
    refine .bind (free operand List.mem_cons_self) fun v => ?_
    exact .bind (.still (Run.closeType_still target)) fun t => .still fun _ => rfl
  | _ => cases reads

end Context

/-- **Expressions that only read are free of effects.** Literals, variables, the instance, stored
members, elements, built-in operators and conversions, tests, tuples and texts: evaluating a
tree of these leaves no more than decisions on how members are reached. -/
theorem Node.ReadsOnly.effectFree {σ : Type} {host : Host σ} {x : Node} (h : x.ReadsOnly host)
    (session : SessionId) : x.EffectFree host session := by
  intro n
  induction n generalizing x with
  | zero => exact fun s _ ended => absurd rfl ended
  | succ n ih =>
    obtain @⟨span, op, reads, operands⟩ := h
    intro s hs ended
    have free (y : Node) (hy : y ∈ op.operands) :
        Run.EffectFree host ((Context.within host n session).eval y) :=
      fun t ht ended => ⟨ih (operands y hy) t ht ended, evalWithin_sound host n session y ht⟩
    have evaluated : Run.EffectFree host ((Context.within host n session).evalOp op) :=
      Context.evalOp_effectFree (c := .within host n session) reads free
    exact (evaluated.orSpan span s hs ended).1

end OpTree
