/-
Worlds in which code stands on class frames of different types. As in worlds that are
alike, some frames of the one stand for frames of the other and have one content; but at
the roots of their chains there may be class frames of any two types
(`FrameStore.Over`). Code sees little of that: a class frame binds no name and holds no
object, so what it is asked for is the arguments of its type. Two runs that start above
the class frames of two types therefore come to the same as long as every type reference
of the code closes to one type above the one and above the other
(`NodeTerms.mirroring`), whatever else the types are. What such code calls starts on a
class frame of its own, and that is of one type in both worlds.

Which class frames there are, and which members have been decided on, may differ
besides (`World.Settles`): either is only ever made the first time that it is asked
for, and both are then what they would have been.
-/
import OpTree.Proofs.Decisions
import OpTree.Proofs.Generic
import OpTree.Proofs.Instances

namespace OpTree

namespace FrameStore

/-- The frames stand for each other, or both are class frames, of whatever types. -/
def Over (pairs : Pairing) (s s' : FrameStore) (f f' : FrameId) : Prop :=
  pairs f f' ∨ ∃ type type', s.IsRoot type f ∧ s'.IsRoot type' f'

end FrameStore

/-- Frames of one kind and content, which stand on frames that stand for each other and on
class frames, and are none themselves. -/
structure Frame.Mirrors (pairs : Pairing) (s s' : FrameStore) (x x' : Frame) : Prop where
  kind : x.kind = x'.kind
  nested : ∀ type, x.kind ≠ .ofClass type
  bindings : x.bindings = x'.bindings
  ancestors : List.Forall₂ (FrameStore.Over pairs s s') x.ancestors x'.ancestors

/-- No frame stands for two, and frames that stand for each other mirror each other. -/
structure FrameStore.Mirrors (pairs : Pairing) (s s' : FrameStore) : Prop where
  one : ∀ {f f' g g'}, pairs f f' → pairs g g' → (f = g ↔ f' = g')
  frames : ∀ {f f'}, pairs f f' → ∃ x x', s.frame? f = some x ∧ s'.frame? f' = some x' ∧
    x.Mirrors pairs s s' x'

namespace FrameStore

variable {pairs pairs' : Pairing} {s s' t t' : FrameStore} {f f' : FrameId}

theorem IsRoot.supplies {type : ClosedType} (h : s.IsRoot type f) :
    s.Supplies f ⟨type.typeArgs, []⟩ := by
  have hf : s.frame? f = some ⟨.ofClass type, [], .empty⟩ := h
  refine ⟨?_, ?_, ?_⟩
  · rw [Rooted, h.chain]
    intro g hg
    obtain rfl := List.mem_singleton.1 hg
    exact h.has
  · simp only [h.chain, argumentsOf?, kind?, hf, Option.map_some, Option.bind_some,
      FrameKind.arguments?]
  · simp only [h.chain, argumentsOf?, kind?, hf, Option.map_some, Option.bind_some,
      FrameKind.arguments?, Option.getD_none]

theorem Over.later (h : Over pairs s s' f f') (hb : pairs.Le pairs') (hs : s.KeepsRoots t)
    (hs' : s'.KeepsRoots t') : Over pairs' t t' f f' := by
  rcases h with h | ⟨type, type', root, root'⟩
  · exact .inl (hb f f' h)
  · exact .inr ⟨type, type', hs.roots root, hs'.roots root'⟩

end FrameStore

theorem Frame.Mirrors.later {pairs pairs' : Pairing} {s s' t t' : FrameStore} {x x' : Frame}
    (h : x.Mirrors pairs s s' x') (hb : pairs.Le pairs') (hs : s.KeepsRoots t)
    (hs' : s'.KeepsRoots t') : x.Mirrors pairs' t t' x' :=
  { h with ancestors := h.ancestors.imp fun _ _ hf => hf.later hb hs hs' }

namespace FrameStore.Mirrors

variable {pairs : Pairing} {s s' : FrameStore} (h : s.Mirrors pairs s') {f f' : FrameId}

include h

/-! ## What is read -/

theorem has (hf : pairs f f') : s.Has f ∧ s'.Has f' := by
  obtain ⟨x, x', hx, hx', -⟩ := h.frames hf
  exact ⟨Option.isSome_iff_exists.2 ⟨x, hx⟩, Option.isSome_iff_exists.2 ⟨x', hx'⟩⟩

theorem not_isRoot (hf : pairs f f') :
    (∀ type, ¬s.IsRoot type f) ∧ ∀ type, ¬s'.IsRoot type f' := by
  obtain ⟨x, x', hx, hx', hm⟩ := h.frames hf
  refine ⟨fun type root => ?_, fun type root => ?_⟩
  · cases hx.symm.trans root
    exact hm.nested type rfl
  · cases hx'.symm.trans root
    exact hm.nested type hm.kind

theorem bindingAt? (hf : pairs f f') (name : String) :
    s.bindingAt? f name = s'.bindingAt? f' name := by
  obtain ⟨x, x', hx, hx', hm⟩ := h.frames hf
  simp only [FrameStore.bindingAt?, FrameStore.bindings, hx, hx', hm.bindings]

theorem chain (hf : Over pairs s s' f f') :
    List.Forall₂ (Over pairs s s') (s.chain f) (s'.chain f') := by
  rcases hf with hf | ⟨type, type', root, root'⟩
  · obtain ⟨x, x', hx, hx', hm⟩ := h.frames hf
    simp only [FrameStore.chain, hx, hx']
    exact .cons (.inl hf) hm.ancestors
  · rw [root.chain, root'.chain]
    exact .cons (.inr ⟨type, type', root, root'⟩) .nil

/-- A name is found in frames that stand for each other, or in none. -/
theorem owner? (name : String) {fs fs' : List FrameId} (hs : List.Forall₂ (Over pairs s s') fs fs') :
    Option.Rel (fun x y => pairs x.1 y.1 ∧ x.2 = y.2) (s.owner? name fs) (s'.owner? name fs') := by
  induction hs with
  | nil => exact .none
  | cons hf _ ih =>
    simp only [FrameStore.owner?]
    rcases hf with hf | ⟨type, type', root, root'⟩
    · rw [← h.bindingAt? hf name]
      split
      · exact .some ⟨hf, rfl⟩
      · exact ih
    · rw [root.bindingAt?, root'.bindingAt?]
      exact ih

theorem instanceOf? {fs fs' : List FrameId} (hs : List.Forall₂ (Over pairs s s') fs fs') :
    s.instanceOf? fs = s'.instanceOf? fs' := by
  induction hs with
  | nil => rfl
  | cons hf _ ih =>
    rcases hf with hf | ⟨type, type', root, root'⟩
    · obtain ⟨x, x', hx, hx', hm⟩ := h.frames hf
      simp only [FrameStore.instanceOf?, FrameStore.kind?, hx, hx', Option.map_some, ← hm.kind, ih]
    · have hk : s.frame? _ = some ⟨.ofClass type, [], .empty⟩ := root
      have hk' : s'.frame? _ = some ⟨.ofClass type', [], .empty⟩ := root'
      simp only [FrameStore.instanceOf?, FrameStore.kind?, hk, hk', Option.map_some]

theorem lookup? (hf : pairs f f') (name : String) :
    Option.Rel (fun x y => pairs x.1 y.1 ∧ x.2 = y.2) (s.lookup? f name) (s'.lookup? f' name) :=
  h.owner? name (h.chain (.inl hf))

theorem read (hf : pairs f f') (name : String) : s.read f name = s'.read f' name :=
  read_alike (h.lookup? hf name)

/-! ## What is changed -/

/-- The frames that there were are as they were. -/
theorem settle {t t' : FrameStore} (hs : ∀ f x, s.frame? f = some x → t.frame? f = some x)
    (hs' : ∀ f x, s'.frame? f = some x → t'.frame? f = some x) (kept : s.KeepsRoots t)
    (kept' : s'.KeepsRoots t') : t.Mirrors pairs t' where
  one := h.one
  frames {f f'} hf := by
    obtain ⟨x, x', hx, hx', hm⟩ := h.frames hf
    exact ⟨x, x', hs f x hx, hs' f' x' hx', hm.later (fun _ _ hg => hg) kept kept'⟩

theorem addChild {kind : FrameKind} (nested : ∀ type, kind ≠ .ofClass type)
    (hf : Over pairs s s' f f') :
    (s.addChild f kind).2.Mirrors (pairs.add (s.addChild f kind).1 (s'.addChild f' kind).1)
      (s'.addChild f' kind).2 where
  one {f₁ f₁' g g'} hf₁ hg := by
    rcases hf₁ with hf₁ | ⟨rfl, rfl⟩ <;> rcases hg with hg | ⟨rfl, rfl⟩
    · exact h.one hf₁ hg
    · exact ⟨fun he => absurd (he ▸ (h.has hf₁).1) (not_has_new s kind _),
        fun he => absurd (he ▸ (h.has hf₁).2) (not_has_new s' kind _)⟩
    · exact ⟨fun he => absurd (he ▸ (h.has hg).1) (not_has_new s kind _),
        fun he => absurd (he ▸ (h.has hg).2) (not_has_new s' kind _)⟩
    · exact ⟨fun _ => rfl, fun _ => rfl⟩
  frames {g g'} hg := by
    have kept : s.KeepsRoots (s.addChild f kind).2 := .add s kind _
    have kept' : s'.KeepsRoots (s'.addChild f' kind).2 := .add s' kind _
    have later := pairs.le_add (s.addChild f kind).1 (s'.addChild f' kind).1
    rcases hg with hg | ⟨rfl, rfl⟩
    · obtain ⟨x, x', hx, hx', hm⟩ := h.frames hg
      obtain ⟨has, has'⟩ := h.has hg
      refine ⟨x, x', ?_, ?_, hm.later later kept kept'⟩
      · exact (frame?_add_of_has s kind _ has).trans hx
      · exact (frame?_add_of_has s' kind _ has').trans hx'
    · exact ⟨_, _, frame?_add_self s kind _, frame?_add_self s' kind _, rfl, nested, rfl,
        (h.chain hf).imp fun _ _ hk => hk.later later kept kept'⟩

theorem bindAt (hf : pairs f f') (name : String) (binding : Binding) :
    (s.bindAt f name binding).Mirrors pairs (s'.bindAt f' name binding) where
  one := h.one
  frames {g g'} hg := by
    obtain ⟨unrooted, unrooted'⟩ := h.not_isRoot hf
    have kept : s.KeepsRoots (s.bindAt f name binding) := .bindAt unrooted name binding
    have kept' : s'.KeepsRoots (s'.bindAt f' name binding) := .bindAt unrooted' name binding
    obtain ⟨x, x', hx, hx', hm⟩ := h.frames hg
    have hm := hm.later (fun _ _ hg => hg) kept kept'
    by_cases he : g = f
    · have he' : g' = f' := (h.one hg hf).1 he
      subst he he'
      exact ⟨_, _, frame?_bindAt_self name binding hx, frame?_bindAt_self name binding hx',
        { hm with bindings := by simp only [hm.bindings] }⟩
    · have he' : g' ≠ f' := fun he' => he ((h.one hg hf).2 he')
      refine ⟨x, x', ?_, ?_, hm⟩
      · rw [frame?_bindAt_other name binding he, hx]
      · rw [frame?_bindAt_other name binding he', hx']

end FrameStore.Mirrors

/-- Changes of two stores end alike: with one error, or in stores that mirror each other and
have the class frames that there were. -/
inductive FrameStore.ChangedInMirror (pairs : Pairing) (s s' : FrameStore) :
    Except FrameError FrameStore → Except FrameError FrameStore → Prop where
  | error (e) : ChangedInMirror pairs s s' (.error e) (.error e)
  | ok {t t'} : s.KeepsRoots t → s'.KeepsRoots t' → t.Mirrors pairs t' →
      ChangedInMirror pairs s s' (.ok t) (.ok t')

namespace FrameStore.Mirrors

variable {pairs : Pairing} {s s' : FrameStore} (h : s.Mirrors pairs s') {f f' : FrameId}
  (hf : pairs f f')

include h hf

theorem changed (name : String) (binding : Binding) :
    ChangedInMirror pairs s s' (.ok (s.bindAt f name binding)) (.ok (s'.bindAt f' name binding)) := by
  obtain ⟨unrooted, unrooted'⟩ := h.not_isRoot hf
  exact .ok (.bindAt unrooted name binding) (.bindAt unrooted' name binding) (h.bindAt hf name binding)

theorem insert (name : String) (binding : Binding) :
    ChangedInMirror pairs s s' (s.insert f name binding) (s'.insert f' name binding) := by
  have bound : s.isBound f name = s'.isBound f' name := isBound_alike (h.lookup? hf name)
  simp only [FrameStore.insert, ← bound]
  split
  · exact .error _
  · exact h.changed hf name binding

theorem assign (name : String) (v : Value) :
    ChangedInMirror pairs s s' (s.assign f name v) (s'.assign f' name v) := by
  have hl := h.lookup? hf name
  simp only [FrameStore.assign]
  generalize s.lookup? f name = l at hl
  generalize s'.lookup? f' name = l' at hl
  cases hl with
  | none => exact .error _
  | some hr => exact h.changed hr.1 name _

end FrameStore.Mirrors

/-! ## Worlds -/

/-- Two sessions have stored and registered the same. -/
structure SessionState.SameButCaches {σ : Type} (a a' : SessionState σ) : Prop where
  statics : a.statics = a'.statics
  registry : a.registry = a'.registry
  tables : a.tables = a'.tables
  isOpen : a.isOpen = a'.isOpen

namespace World

variable {σ : Type} {host : Host σ}

/-- The worlds are the same but for frames that are not paired, for which class frames
there are, and for the decisions that have been recorded. -/
structure Mirrors (pairs : Pairing) (w w' : World σ) : Prop where
  frames : w.frames.Mirrors pairs w'.frames
  size : w.objects.size = w'.objects.size
  objects : ∀ i : Nat, Option.Rel (ObjectCell.Like pairs) w.objects[i]? w'.objects[i]?
  arrays : w.arrays = w'.arrays
  sessions : ∀ s, (w.session s).SameButCaches (w'.session s)
  host : w.host = w'.host
  trace : w.trace = w'.trace
  failures : w.failures = w'.failures

/-- Class frames were made and decisions recorded, and nothing else happened. -/
structure Settles (w t : World σ) : Prop where
  frames : ∀ f x, w.frames.frame? f = some x → t.frames.frame? f = some x
  objects : t.objects = w.objects
  arrays : t.arrays = w.arrays
  sessions : ∀ s, (t.session s).SameButCaches (w.session s)
  host : t.host = w.host
  trace : t.trace = w.trace
  failures : t.failures = w.failures

theorem Settles.refl (w : World σ) : w.Settles w where
  frames _ _ h := h
  objects := rfl
  arrays := rfl
  sessions _ := ⟨rfl, rfl, rfl, rfl⟩
  host := rfl
  trace := rfl
  failures := rfl

theorem SameButTargets.settles {w t : World σ} (h : w.SameButTargets t) : w.Settles t where
  frames f x hx := by rw [← h.frames]; exact hx
  objects := h.objects.symm
  arrays := h.arrays.symm
  sessions s := by
    obtain ⟨-, st, rg, tb, op⟩ := h.sessions s
    exact ⟨st.symm, rg.symm, tb.symm, op.symm⟩
  host := h.host.symm
  trace := h.trace.symm
  failures := h.failures.symm

theorem classFrame_settles (s : SessionId) (type : ClosedType) (w : World σ) :
    ∃ f t, World.classFrame s type w = (.ok f, t) ∧ w.Settles t := by
  simp only [World.classFrame, Run.modifyGet]
  cases (w.session s).classFrames.get? type with
  | some f => exact ⟨f, w, rfl, .refl w⟩
  | none =>
    refine ⟨_, _, rfl, ?_⟩
    exact
    { Settles.refl w with
      frames := fun f x hx => by
        have has : w.frames.Has f := Option.isSome_iff_exists.2 ⟨x, hx⟩
        exact (FrameStore.frame?_add_of_has w.frames (.ofClass type) [] has).trans hx
      sessions := fun s' => by
        rw [session_mapSession]
        split
        · rename_i hs
          subst hs
          exact ⟨rfl, rfl, rfl, rfl⟩
        · exact ⟨rfl, rfl, rfl, rfl⟩ }

theorem childFrame_settles (f : FrameId) (kind : FrameKind) (w : World σ) :
    w.Settles (World.childFrame f kind w).2 :=
  { Settles.refl w with
    frames := fun g x hg => by
      have has : w.frames.Has g := Option.isSome_iff_exists.2 ⟨x, hg⟩
      exact (FrameStore.frame?_add_of_has w.frames kind _ has).trans hg
    sessions := fun _ => ⟨rfl, rfl, rfl, rfl⟩ }

/-- What a world is held to: its frames are those of objects and classes as they should be,
and what has been recorded is what the host says. -/
structure Sound (host : Host σ) (w : World σ) : Prop where
  housed : w.Housed
  decided : w.Decided host

/-- The world is sound on, with the class frames that there were. -/
structure StaysSound (host : Host σ) (w t : World σ) : Prop where
  roots : w.frames.KeepsRoots t.frames
  sound : t.Sound host

theorem Sound.stays {w t : World σ} (h : w.Sound host) (houses : w.Houses t)
    (grows : w.Grows host t) : w.StaysSound host t :=
  ⟨houses.1, houses.2, h.decided.grows grows⟩

theorem Sound.initial (state : σ) : (World.initial state).Sound host :=
  ⟨.initial state, .initial state⟩

theorem Sound.stays_mapSession {w : World σ} (h : w.Sound host) {s : SessionId}
    {f : SessionState σ → SessionState σ}
    (hf : (f (w.session s)).classFrames = (w.session s).classFrames)
    (grows : (w.session s).Extends host (f (w.session s))) : w.StaysSound host (w.mapSession s f) :=
  h.stays (h.housed.mapSession hf) (.mapSession grows)

theorem Sound.stays_unlinked {w t : World σ} (h : w.Sound host) (hf : t.frames = w.frames)
    (hs : t.session = w.session) (ho : t.objects = w.objects) (grows : w.Grows host t) :
    w.StaysSound host t :=
  h.stays (h.housed.unlinked hf hs ho) grows

theorem Sound.stays_arrays {w : World σ} (h : w.Sound host) (arrays : Array ArrayCell) :
    w.StaysSound host { w with arrays := arrays } :=
  h.stays_unlinked rfl rfl rfl (.of_arrays arrays)

theorem Sound.stays_newObject {w : World σ} (h : w.Sound host) (type : ClosedType) :
    w.StaysSound host (w.newObject type).2 :=
  h.stays (h.housed.newObject type) (.newObject type)

theorem Sound.stays_storeSlot {w : World σ} (h : w.Sound host) (o : ObjectRef) (field : SymbolId)
    (v : Value) : w.StaysSound host (w.storeSlot o field v) :=
  h.stays (h.housed.storeSlot o field v) (.storeSlot o field v)

/-- The frames of objects, each for itself. -/
def instanceFrames (w : World σ) : Pairing := fun f f' => f = f' ∧ ∃ o, w.frames.Houses f o

theorem Housed.mirrors {w : World σ} (h : w.Housed) : w.Mirrors w.instanceFrames w where
  frames :=
    { one := fun {f f' g g'} hf hg => by rw [hf.1, hg.1]
      frames := fun {f f'} hf => by
        obtain ⟨rfl, o, o', c, type, bindings, -, root, found⟩ := hf
        exact ⟨_, _, found, found, rfl, nofun, rfl, .cons (.inr ⟨type, type, root, root⟩) .nil⟩ }
  size := rfl
  objects := objects_alike fun linked => ⟨rfl, _, h.links linked⟩
  arrays := rfl
  sessions _ := ⟨rfl, rfl, rfl, rfl⟩
  host := rfl
  trace := rfl
  failures := rfl

namespace Mirrors

variable {pairs pairs' : Pairing} {w w' t t' : World σ} (h : w.Mirrors pairs w')

include h

theorem settle (ht : w.Settles t) (ht' : w'.Settles t') (kept : w.frames.KeepsRoots t.frames)
    (kept' : w'.frames.KeepsRoots t'.frames) : t.Mirrors pairs t' where
  frames := h.frames.settle ht.frames ht'.frames kept kept'
  size := by rw [ht.objects, ht'.objects, h.size]
  objects := by rw [ht.objects, ht'.objects]; exact h.objects
  arrays := ht.arrays.trans (h.arrays.trans ht'.arrays.symm)
  sessions s := by
    obtain ⟨st, rg, tb, op⟩ := ht.sessions s
    obtain ⟨st', rg', tb', op'⟩ := ht'.sessions s
    obtain ⟨hst, hrg, htb, hop⟩ := h.sessions s
    exact ⟨st.trans (hst.trans st'.symm), rg.trans (hrg.trans rg'.symm),
      tb.trans (htb.trans tb'.symm), op.trans (hop.trans op'.symm)⟩
  host := ht.host.trans (h.host.trans ht'.host.symm)
  trace := ht.trace.trans (h.trace.trans ht'.trace.symm)
  failures := ht.failures.trans (h.failures.trans ht'.failures.symm)

theorem withFrames {s s' : FrameStore} (hs : s.Mirrors pairs' s') (hb : pairs.Le pairs') :
    Mirrors pairs' { w with frames := s } { w' with frames := s' } where
  frames := hs
  size := h.size
  objects i := Option.Rel.imp (fun _ _ hc => hc.later hb) (h.objects i)
  arrays := h.arrays
  sessions := h.sessions
  host := h.host
  trace := h.trace
  failures := h.failures

theorem mapSession (s : SessionId) {g g' : SessionState σ → SessionState σ}
    (same : (g (w.session s)).SameButCaches (g' (w'.session s))) :
    Mirrors pairs (w.mapSession s g) (w'.mapSession s g') :=
  { h with
    sessions := fun s' => by
      rw [session_mapSession, session_mapSession]
      split
      · exact same
      · exact h.sessions s' }

theorem modifyObject (i : Nat) {g g' : ObjectCell σ → ObjectCell σ}
    (hg : ∀ c c', c.Like pairs c' → (g c).Like pairs (g' c')) :
    Mirrors pairs { w with objects := w.objects.modify i g }
      { w' with objects := w'.objects.modify i g' } :=
  { h with
    size := by simpa using h.size
    sessions := h.sessions
    objects := ObjectCell.Like.modify h.objects hg i }

theorem newObject (type : ClosedType) :
    Mirrors pairs (w.newObject type).2 (w'.newObject type).2 :=
  { h with
    size := by simp only [World.newObject, Array.size_push, h.size]
    sessions := h.sessions
    objects := ObjectCell.Like.push h.objects h.size }

theorem withArrays (arrays : Array ArrayCell) :
    Mirrors pairs { w with arrays := arrays } { w' with arrays := arrays } :=
  { h with arrays := rfl, sessions := h.sessions }

theorem keepTable (s : SessionId) (type : ClosedType) (table : MemberTable) :
    Mirrors pairs (w.keepTable s type table) (w'.keepTable s type table) := by
  have hs := h.sessions s
  exact h.mapSession s { hs with tables := by rw [hs.tables] }

theorem storeStatic (s : SessionId) (place : ClosedType × SymbolId) (v : Value) :
    Mirrors pairs (w.storeStatic s place v) (w'.storeStatic s place v) := by
  have hs := h.sessions s
  exact h.mapSession s { hs with statics := by rw [hs.statics] }

theorem storeSlot (o : ObjectRef) (field : SymbolId) (v : Value) :
    Mirrors pairs (w.storeSlot o field v) (w'.storeSlot o field v) :=
  h.modifyObject o.id fun c c' hc => { hc with slots := by simp only [hc.slots] }

theorem record (call : HostCall) : Mirrors pairs (w.record call) (w'.record call) :=
  { h with trace := congrArg (call :: ·) h.trace, sessions := h.sessions }

theorem write (state : σ) :
    Mirrors pairs { w with host := state } { w' with host := state } :=
  { h with host := rfl, sessions := h.sessions }

theorem noteFailure (call : HostCall) (e : EvalError) :
    Mirrors pairs (w.noteFailure call e) (w'.noteFailure call e) :=
  { h with
    failures := by simp only [World.noteFailure, h.trace, h.failures]
    sessions := h.sessions }

end Mirrors

end World

/-- What is known of two worlds that mirror each other: the frames there are, and which of
them stand for each other. -/
structure Mirror where
  left : FrameStore
  right : FrameStore
  pairs : Pairing

namespace World

variable {σ : Type} {host : Host σ}

/-- The worlds are sound, and mirror each other in what is known of them. -/
structure MirroredBy (host : Host σ) (b : Mirror) (w w' : World σ) : Prop where
  left : b.left = w.frames
  right : b.right = w'.frames
  mirrors : w.Mirrors b.pairs w'
  sound : w.Sound host
  sound' : w'.Sound host

/-- Two runs over worlds in which code stands on class frames of different types. -/
def mirroringTerms (host : Host σ) : Terms (World σ) where
  Bond := Mirror
  ties b w w' := w.MirroredBy host b w'
  le b b' := b.left.KeepsRoots b'.left ∧ b.right.KeepsRoots b'.right ∧ b.pairs.Le b'.pairs
  lax := False
  lax' := False
  refl _ := ⟨.refl _, .refl _, fun _ _ h => h⟩
  trans h h' := ⟨h.1.trans h'.1, h.2.1.trans h'.2.1, fun f f' hf => h'.2.2 f f' (h.2.2 f f' hf)⟩

section steps

open Run (AgreesBy Agrees)

variable {b : Mirror} {w w' t t' : World σ}

/-- Worlds that went on to mirror each other are tied by what is known then. -/
theorem MirroredBy.later (h : w.MirroredBy host b w') {pairs : Pairing} (hb : b.pairs.Le pairs)
    (stays : w.StaysSound host t) (stays' : w'.StaysSound host t') (mirrors : t.Mirrors pairs t') :
    (mirroringTerms host).le b ⟨t.frames, t'.frames, pairs⟩ ∧
      (mirroringTerms host).ties ⟨t.frames, t'.frames, pairs⟩ t t' := by
  refine ⟨⟨?_, ?_, hb⟩, rfl, rfl, mirrors, stays.sound, stays'.sound⟩
  · rw [h.left]
    exact stays.roots
  · rw [h.right]
    exact stays'.roots

theorem MirroredBy.goesOn (h : w.MirroredBy host b w') (stays : w.StaysSound host t)
    (stays' : w'.StaysSound host t') (mirrors : t.Mirrors b.pairs t') :
    ∃ b', (mirroringTerms host).le b b' ∧ (mirroringTerms host).ties b' t t' :=
  ⟨_, h.later (fun _ _ hf => hf) stays stays' mirrors⟩

/-- Frames of classes, of whatever types, stay what they are and mirror nothing. -/
theorem classFrame_mirrors (s : SessionId) (type type' : ClosedType) (b : Mirror) :
    AgreesBy (mirroringTerms host) b
      (fun b f f' => b.left.IsRoot type f ∧ b.right.IsRoot type' f') (World.classFrame s type)
      (World.classFrame s type') := by
  intro b₁ w w' _ h
  obtain ⟨f, t, ht, settles⟩ := classFrame_settles s type w
  obtain ⟨f', t', ht', settles'⟩ := classFrame_settles s type' w'
  obtain ⟨houses, root⟩ := h.sound.housed.classFrame s type
  obtain ⟨houses', root'⟩ := h.sound'.housed.classFrame s type'
  have grows : w.Grows host _ := classFrame_grows s type w
  have grows' : w'.Grows host _ := classFrame_grows s type' w'
  rw [ht] at houses root grows ⊢
  rw [ht'] at houses' root' grows' ⊢
  obtain ⟨hb, tied⟩ := h.later (fun _ _ hf => hf) (h.sound.stays houses grows)
    (h.sound'.stays houses' grows') (h.mirrors.settle settles settles' houses.1 houses'.1)
  exact .ok hb tied ⟨root f rfl, root' f' rfl⟩

/-- A frame is made on top of two that stand for each other or are class frames. What a new
frame has on either side, it has in the worlds that come of it. -/
theorem childFrame_mirrors {kind : FrameKind} (nested : ∀ type, kind ≠ .ofClass type)
    {f f' : FrameId} (hf : FrameStore.Over b.pairs b.left b.right f f')
    (P P' : FrameStore → FrameId → Prop)
    (hP : ∀ s, b.left.KeepsRoots s → P (s.addChild f kind).2 (s.addChild f kind).1)
    (hP' : ∀ s, b.right.KeepsRoots s → P' (s.addChild f' kind).2 (s.addChild f' kind).1) :
    AgreesBy (mirroringTerms host) b (fun b g g' => b.pairs g g' ∧ P b.left g ∧ P' b.right g')
      (World.childFrame f kind) (World.childFrame f' kind) := by
  rintro b₁ w w' ⟨kept, kept', hle⟩ h
  have kept : b.left.KeepsRoots w.frames := h.left ▸ kept
  have kept' : b.right.KeepsRoots w'.frames := h.right ▸ kept'
  have made := h.mirrors.frames.addChild nested (hf.later hle kept kept')
  have houses := h.sound.housed.frames (.add w.frames kind (w.frames.chain f))
  have houses' := h.sound'.housed.frames (.add w'.frames kind (w'.frames.chain f'))
  have grows : w.Grows host _ := childFrame_grows f kind w
  have grows' : w'.Grows host _ := childFrame_grows f' kind w'
  obtain ⟨hb, tied⟩ := h.later (b₁.pairs.le_add _ _) (h.sound.stays houses grows)
    (h.sound'.stays houses' grows') (h.mirrors.withFrames made (b₁.pairs.le_add _ _))
  exact .ok hb tied ⟨.inr ⟨rfl, rfl⟩, hP w.frames kept, hP' w'.frames kept'⟩

/-- What the frames under it supply, a new frame supplies too. -/
theorem childFrame_mirrors_supplies (kind : FrameKind) (nested : kind.arguments? .type = none)
    {f f' : FrameId} {args args' : Substitution}
    (hf : FrameStore.Over b.pairs b.left b.right f f') (supplies : b.left.Supplies f args)
    (supplies' : b.right.Supplies f' args') :
    AgreesBy (mirroringTerms host) b
      (fun b g g' => b.pairs g g' ∧
        b.left.Supplies g ⟨args.typeArgs, (kind.arguments? .method).getD args.methodArgs⟩ ∧
        b.right.Supplies g' ⟨args'.typeArgs, (kind.arguments? .method).getD args'.methodArgs⟩)
      (World.childFrame f kind) (World.childFrame f' kind) := by
  refine childFrame_mirrors (fun type he => ?_) hf
    (fun s g => s.Supplies g ⟨args.typeArgs, (kind.arguments? .method).getD args.methodArgs⟩)
    (fun s g => s.Supplies g ⟨args'.typeArgs, (kind.arguments? .method).getD args'.methodArgs⟩)
    (fun s hs => (supplies.grown hs.frames).child kind nested)
    (fun s hs => (supplies'.grown hs.frames).child kind nested)
  rw [he] at nested
  cases nested

theorem methodFrame_mirrors {f f' : FrameId} {type : ClosedType} (root : b.left.IsRoot type f)
    (root' : b.right.IsRoot type f') (m : SymbolId) (typeArgs : List ClosedType) :
    AgreesBy (mirroringTerms host) b
      (fun b g g' => b.pairs g g' ∧ ∃ args, b.left.Supplies g args ∧ b.right.Supplies g' args)
      (World.childFrame f (.ofMethod m typeArgs)) (World.childFrame f' (.ofMethod m typeArgs)) :=
  (childFrame_mirrors_supplies (.ofMethod m typeArgs) rfl (.inr ⟨type, type, root, root'⟩)
    root.supplies root'.supplies).imp fun _ _ _ made => ⟨made.1, _, made.2⟩

/-- An object's frame is its own on either side. -/
theorem instanceFrame_mirrors {f f' : FrameId} {type : ClosedType} (root : b.left.IsRoot type f)
    (root' : b.right.IsRoot type f') (o : ObjectRef) :
    AgreesBy (mirroringTerms host) b
      (fun b g g' => (b.pairs g g' ∧ b.left.Houses g o ∧ b.right.Houses g' o) ∧ b.pairs g g' ∧
        ∃ args, b.left.Supplies g args ∧ b.right.Supplies g' args)
      (World.childFrame f (.ofInstance (some o))) (World.childFrame f' (.ofInstance (some o))) := by
  refine (childFrame_mirrors (fun type he => by cases he) (.inr ⟨type, type, root, root'⟩)
    (fun s g => s.Houses g o ∧ s.Supplies g ⟨type.typeArgs, []⟩)
    (fun s g => s.Houses g o ∧ s.Supplies g ⟨type.typeArgs, []⟩)
    (fun s hs => ⟨FrameStore.houses_addChild (hs.roots root) o,
      (hs.roots root).supplies.child _ rfl⟩)
    (fun s hs => ⟨FrameStore.houses_addChild (hs.roots root') o,
      (hs.roots root').supplies.child _ rfl⟩)).imp fun _ _ _ made => ?_
  obtain ⟨paired, ⟨houses, supplies⟩, houses', supplies'⟩ := made
  exact ⟨⟨paired, houses, houses'⟩, paired, _, supplies, supplies'⟩

theorem scopeFrame_mirrors {f f' : FrameId} {args : Substitution} (hf : b.pairs f f')
    (supplies : b.left.Supplies f args) (supplies' : b.right.Supplies f' args) :
    AgreesBy (mirroringTerms host) b
      (fun b g g' => b.pairs g g' ∧ ∃ args, b.left.Supplies g args ∧ b.right.Supplies g' args)
      (World.childFrame f .scope) (World.childFrame f' .scope) :=
  (childFrame_mirrors_supplies .scope rfl (.inl hf) supplies supplies').imp
    fun _ _ _ made => ⟨made.1, args, made.2⟩

theorem changeFrames_mirrors {name : String}
    {change change' : FrameStore → Except FrameError FrameStore}
    (changed : ∀ pairs s s', b.pairs.Le pairs → s.Mirrors pairs s' →
      FrameStore.ChangedInMirror pairs s s' (change s) (change' s')) :
    AgreesBy (mirroringTerms host) b (fun _ => Eq) (World.changeFrames name change)
      (World.changeFrames name change') := by
  rintro b₁ w w' ⟨-, -, hle⟩ h
  have hc := changed b₁.pairs w.frames w'.frames hle h.mirrors.frames
  simp only [World.changeFrames]
  generalize change w.frames = x at hc
  generalize change' w'.frames = x' at hc
  cases hc with
  | error e => exact .error (Terms.refl _ b₁) h
  | ok roots roots' mirrors =>
    obtain ⟨hb, tied⟩ := h.later (fun _ _ hf => hf)
      (h.sound.stays (h.sound.housed.frames roots) (.of_frames roots.frames))
      (h.sound'.stays (h.sound'.housed.frames roots') (.of_frames roots'.frames))
      (h.mirrors.withFrames mirrors fun _ _ hf => hf)
    exact .ok hb tied rfl

theorem target_mirrors (c : Context σ) (hc : c.host = host) (m : SymbolId) :
    Agrees (mirroringTerms host) (c.target m) (c.target m) := by
  subst hc
  refine .of_ends fun b w w' h => ?_
  cases hd : c.host.decide m with
  | error e =>
    rw [c.target_of_undecided h.sound.decided hd, c.target_of_undecided h.sound'.decided hd]
    exact .stay h
  | ok t =>
    obtain ⟨w₁, ht, same, -⟩ := c.target_of_decide h.sound.decided hd
    obtain ⟨w₁', ht', same', -⟩ := c.target_of_decide h.sound'.decided hd
    have houses := h.sound.housed.target c m
    have houses' := h.sound'.housed.target c m
    have grows := c.target_grows m w
    have grows' := c.target_grows m w'
    rw [ht] at houses grows ⊢
    rw [ht'] at houses' grows' ⊢
    obtain ⟨hb, tied⟩ := h.later (fun _ _ hf => hf) (h.sound.stays houses grows)
      (h.sound'.stays houses' grows')
      (h.mirrors.settle same.settles same'.settles houses.1 houses'.1)
    exact .ok hb tied rfl

theorem register_mirrors (s : SessionId) (entry : RegistryEntry) :
    Agrees (mirroringTerms host) (World.register s entry) (World.register s entry) := by
  refine .of_ends fun b w w' h => ?_
  have hs := h.mirrors.sessions s
  have stays {w : World σ} (sound : w.Sound host) : w.StaysSound host
      (w.mapSession s fun state =>
        { state with registry := ((w.session s).registry.register entry).2 }) :=
    sound.stays_mapSession rfl (.register entry)
  obtain ⟨b', hb, tied⟩ := h.goesOn (stays h.sound) (stays h.sound')
    (h.mirrors.mapSession s { hs with registry := by rw [hs.registry] })
  simp only [World.register, Run.modifyGet, hs.registry] at hb tied ⊢
  exact .ok hb tied rfl

theorem bind_mirrors {f f' : FrameId} (o : ObjectRef) (s : SessionId) (table : MemberTable)
    (hf : b.pairs f f') (houses : b.left.Houses f o) (houses' : b.right.Houses f' o) :
    AgreesBy (mirroringTerms host) b (fun _ => Eq) (World.bind o (.session s f table))
      (World.bind o (.session s f' table)) := by
  rintro b₁ w w' ⟨kept, kept', hle⟩ h
  have houses := h.sound.housed.bind o s table (h.left ▸ houses.keeps kept)
  have houses' := h.sound'.housed.bind o s table (h.right ▸ houses'.keeps kept')
  have grows : w.Grows host _ := bind_grows o (.session s f table) w
  have grows' : w'.Grows host _ := bind_grows o (.session s f' table) w'
  have bound : w.isBound o = w'.isBound o := by
    have hl := link_alike h.mirrors.objects o
    simp only [World.isBound]
    generalize w.link? o = l at hl
    generalize w'.link? o = l' at hl
    cases hl <;> rfl
  simp only [World.bind, ← bound] at houses houses' grows grows' ⊢
  by_cases hbound : w.isBound o = true
  · simp only [if_pos hbound]
    exact .error (Terms.refl _ b₁) h
  · simp only [if_neg hbound] at houses houses' grows grows' ⊢
    obtain ⟨hb, tied⟩ := h.later (fun _ _ hf => hf) (h.sound.stays houses grows)
      (h.sound'.stays houses' grows') (h.mirrors.modifyObject o.id fun c c' hc =>
        { hc with link := .session s table (hle f f' hf) })
    exact .ok hb tied rfl

theorem setElement_mirrors (a : ArrayRef) (indices : List Int) (v : Value) :
    Agrees (mirroringTerms host) (World.setElement a indices v)
      (World.setElement a indices v) := by
  refine .of_ends fun b w w' h => ?_
  simp only [World.setElement, World.cell?, ← h.mirrors.arrays]
  split
  · split
    · obtain ⟨b', hb, tied⟩ := h.goesOn (h.sound.stays_arrays _) (h.sound'.stays_arrays _)
        (h.mirrors.withArrays _)
      exact .ok hb tied rfl
    · exact .error (Terms.refl _ b) h
  · exact .ok (Terms.refl _ b) h rfl

theorem newObject_mirrors (type : ClosedType) :
    Agrees (mirroringTerms host) (Run.modifyGet fun w => w.newObject type)
      (Run.modifyGet fun w => w.newObject type) := by
  refine .of_ends fun b w w' h => ?_
  obtain ⟨b', hb, tied⟩ := h.goesOn (h.sound.stays_newObject type) (h.sound'.stays_newObject type)
    (h.mirrors.newObject type)
  have same : (w.newObject type).1 = (w'.newObject type).1 := by
    simp only [World.newObject, h.mirrors.size]
  exact .ok hb tied same

theorem newArray_mirrors (element : ClosedType) (cell : ArrayCell) :
    Agrees (mirroringTerms host) (Run.modifyGet fun w => w.newArray element cell)
      (Run.modifyGet fun w => w.newArray element cell) := by
  refine .of_ends fun b w w' h => ?_
  simp only [Run.modifyGet, World.newArray, ← h.mirrors.arrays]
  obtain ⟨b', hb, tied⟩ := h.goesOn (h.sound.stays_arrays _) (h.sound'.stays_arrays _)
    (h.mirrors.withArrays (w.arrays.push cell))
  exact .ok hb tied rfl

theorem keepTable_mirrors (h : w.MirroredBy host b w') (s : SessionId) {type : ClosedType}
    (missing : (w.session s).tables.get? type = none) (table : MemberTable) :
    ∃ b', (mirroringTerms host).le b b' ∧
      (mirroringTerms host).ties b' (w.keepTable s type table) (w'.keepTable s type table) := by
  have missing' : (w'.session s).tables.get? type = none := (h.mirrors.sessions s).tables ▸ missing
  exact h.goesOn (h.sound.stays_mapSession rfl (.table missing table))
    (h.sound'.stays_mapSession rfl (.table missing' table)) (h.mirrors.keepTable s type table)

theorem link_mirrors (h : w.MirroredBy host b w') (o : ObjectRef) :
    Link.Tied (fun f f' => b.pairs f f' ∧ b.left.Houses f o ∧ b.right.Houses f' o) (w.link? o)
      (w'.link? o) := by
  refine (link_alike h.mirrors.objects o).strengthen fun {s f f' table} hl hl' hf => ?_
  rw [h.left, h.right]
  exact ⟨hf, h.sound.housed.links hl, h.sound'.housed.links hl'⟩

end steps

/-- Two runs over worlds in which code stands on class frames of different types. -/
def mirroring (host : Host σ) : WorldTerms host where
  toTerms := mirroringTerms host
  sights b f f' := b.pairs f f'
  frames b f f' := b.pairs f f' ∧ ∃ args, b.left.Supplies f args ∧ b.right.Supplies f' args
  roots b f f' := ∃ type, b.left.IsRoot type f ∧ b.right.IsRoot type f'
  holders b o f f' := b.pairs f f' ∧ b.left.Houses f o ∧ b.right.Houses f' o
  seen h := h.1
  holds h := h.1
  laterSights hb hf := hb.2.2 _ _ hf
  later hb hf := ⟨hb.2.2 _ _ hf.1, hf.2.imp fun _ h => ⟨h.1.grown hb.1.frames, h.2.grown hb.2.1.frames⟩⟩
  laterRoots hb hf := hf.imp fun _ h => ⟨hb.1.roots h.1, hb.2.1.roots h.2⟩
  laterHolders hb hf := ⟨hb.2.2 _ _ hf.1, hf.2.1.keeps hb.1, hf.2.2.keeps hb.2.1⟩
  names h hf name := by simp only [World.readName, h.mirrors.frames.read hf]
  arguments h hf := by
    obtain ⟨-, args, supplies, supplies'⟩ := hf
    rw [← h.left, ← h.right, supplies.resolver, supplies'.resolver]
  instances h hf := by
    have hs := h.mirrors.frames
    exact hs.instanceOf? (hs.chain (.inl hf))
  links := link_mirrors
  slots h := slot_alike h.mirrors.objects
  statics h s place := by rw [(h.mirrors.sessions s).statics]
  entries h s id := by rw [(h.mirrors.sessions s).registry]
  tables h s type := by rw [(h.mirrors.sessions s).tables]
  isOpen h s := (h.mirrors.sessions s).isOpen
  cells h a := by simp only [World.cell?, h.mirrors.arrays]
  state h := h.mirrors.host
  classFrame b s type := (classFrame_mirrors s type type b).imp fun _ _ _ hf => ⟨type, hf⟩
  methodFrame m typeArgs hf := by
    obtain ⟨type, root, root'⟩ := hf
    exact methodFrame_mirrors root root' m typeArgs
  instanceFrame o hf := by
    obtain ⟨type, root, root'⟩ := hf
    exact instanceFrame_mirrors root root' o
  scopeFrame hf := by
    obtain ⟨paired, args, supplies, supplies'⟩ := hf
    exact scopeFrame_mirrors paired supplies supplies'
  declare name hf := changeFrames_mirrors fun _ _ _ hb hs => hs.insert (hb _ _ hf.1) name .unassigned
  define name v hf := changeFrames_mirrors fun _ _ _ hb hs => hs.insert (hb _ _ hf.1) name (.assigned v)
  assign name v hf := changeFrames_mirrors fun _ _ _ hb hs => hs.assign (hb _ _ hf) name v
  target c m hc := target_mirrors c hc m
  register := register_mirrors
  keepTable s type table h missing _ := keepTable_mirrors h s missing table
  storeStatic s place v h := h.goesOn (h.sound.stays_mapSession rfl (.statics _))
    (h.sound'.stays_mapSession rfl (.statics _)) (h.mirrors.storeStatic s place v)
  storeSlot o field v h := h.goesOn (h.sound.stays_storeSlot o field v)
    (h.sound'.stays_storeSlot o field v) (h.mirrors.storeSlot o field v)
  bindLink o s _ table h hf _ := (bind_mirrors o s table hf.1 hf.2.1 hf.2.2).apply h
  newObject := newObject_mirrors
  newArray := newArray_mirrors
  setElement := setElement_mirrors
  record call h := h.goesOn (h.sound.stays_unlinked rfl rfl rfl (.record call))
    (h.sound'.stays_unlinked rfl rfl rfl (.record call)) (h.mirrors.record call)
  write state h := h.goesOn (h.sound.stays_unlinked rfl rfl rfl (.of_host state))
    (h.sound'.stays_unlinked rfl rfl rfl (.of_host state)) (h.mirrors.write state)
  noteFailure call e h := h.goesOn (h.sound.stays_unlinked rfl rfl rfl (.noteFailure call e))
    (h.sound'.stays_unlinked rfl rfl rfl (.noteFailure call e)) (h.mirrors.noteFailure call e)

end World

theorem Call.sound {σ : Type} (host : Host σ) (n : Nat) (session : SessionId) (call : Call)
    {w : World σ} (h : w.Sound host) : (call.run (.within host n session) w).2.Sound host :=
  ⟨call.housed host n session h.housed, h.decided.grows (call.grows host n session w)⟩

/-- Runs that agree answer the same and leave worlds that mirror each other. -/
theorem Run.Agrees.mirroring {σ α : Type} {host : Host σ} {m m' : Run (World σ) α}
    (h : Run.Agrees (World.mirroring host).toTerms m m') {b : Mirror} {w w' : World σ}
    (tied : w.MirroredBy host b w') :
    (m w).1 = (m' w').1 ∧ ∃ pairs, b.pairs.Le pairs ∧ (m w).2.Mirrors pairs (m' w').2 := by
  have ends := h.apply tied
  generalize m w = x at ends
  generalize m' w' = x' at ends
  cases ends with
  | short hl => exact hl.elim
  | short' hl => exact hl.elim
  | ok hb ht hq => exact ⟨congrArg Except.ok hq, _, hb.2.2, ht.mirrors⟩
  | error hb ht => exact ⟨rfl, _, hb.2.2, ht.mirrors⟩

/-- The type reference closes to one type under either arguments, or fails to in one way. -/
def TypeRef.ClosesAlike (args args' : Substitution) (t : TypeRef) : Prop :=
  t.close args.resolver = t.close args'.resolver

variable {σ : Type} (host : Host σ)

/-- Trees whose type references close alike where the frames supply the one arguments and
where they supply the other. -/
def NodeTerms.mirroring (args args' : Substitution) : NodeTerms (World.mirroring host) where
  nodes x := ∀ t ∈ x.types, t.ClosesAlike args args'
  known := TypeRef.ClosesAlike args args'
  types t := t
  start b f f' := b.pairs f f' ∧ b.left.Supplies f args ∧ b.right.Supplies f' args'
  self := True
  quiet := False
  operand {x _} hx hy t ht := by
    obtain ⟨span, op⟩ := x
    exact hx t (Op.types_of_operand hy ht)
  mentions hx := hx
  silent h := h.elim
  selfless h := absurd trivial h
  sights h := h.1
  later hb h := ⟨hb.2.2 _ _ h.1, h.2.1.grown hb.1.frames, h.2.2.grown hb.2.1.frames⟩
  scope h := World.childFrame_mirrors_supplies .scope rfl (.inl h.1) h.2.1 h.2.2
  declare name h := World.changeFrames_mirrors fun _ _ _ hb hs =>
    hs.insert (hb _ _ h.1) name .unassigned
  define name v h := World.changeFrames_mirrors fun _ _ _ hb hs =>
    hs.insert (hb _ _ h.1) name (.assigned v)
  close h hf ht := by
    obtain ⟨-, supplies, supplies'⟩ := hf
    rw [← h.left, ← h.right, supplies.resolver, supplies'.resolver]
    exact ht

/-- A body runs above the class frame of one type as it does above that of another, if its
type references close alike above both. -/
theorem Context.runInterpreted_mirrors (n : Nat) (session : SessionId) {tree : Node}
    {type type' : ClosedType} {typeArgs : List ClosedType}
    (alike : ∀ t ∈ tree.types, t.ClosesAlike ⟨type.typeArgs, typeArgs⟩ ⟨type'.typeArgs, typeArgs⟩)
    (m : SymbolId) (receiver : Option ObjectRef) (args : List Value) :
    let c := Context.within host n session
    Run.Agrees (World.mirroring host).toTerms (c.runInterpreted tree m type typeArgs receiver args)
      (c.runInterpreted tree m type' typeArgs receiver args) := by
  intro c
  let T := NodeTerms.mirroring host ⟨type.typeArgs, typeArgs⟩ ⟨type'.typeArgs, typeArgs⟩
  have self : c.Agrees (World.mirroring host) c := Context.within_self _ n session
  have evaluates : Run.Agrees T.machine (c.eval tree) (c.eval tree) := by
    have agrees := T.evalWithin session n n (.same n) alike
    have hid : tree.mapTypes T.types = tree := tree.mapTypes_id
    rw [hid] at agrees
    exact agrees
  have prepares := self.prepareOn T id
    (fun b f f' => b.left.IsRoot type f ∧ b.right.IsRoot type' f')
    (fun hb hf => ⟨hb.1.roots hf.1, hb.2.1.roots hf.2⟩)
    (World.classFrame_mirrors session type type')
    (fun {b f f'} hf => World.childFrame_mirrors_supplies (.ofMethod m typeArgs) rfl
      (.inr ⟨type, type', hf⟩) hf.1.supplies hf.2.supplies)
    (fun {b f f'} o hf b₁ w w' hb h => (World.childFrame_mirrors_supplies (.ofInstance (some o)) rfl
      (.inr ⟨type, type', hf⟩) hf.1.supplies hf.2.supplies b₁ w w' hb h).imp fun _ _ _ made => made.1)
    receiver args
  refine .tied prepares fun b a a' ha => ?_
  rw [runBody_eq, runBody_eq]
  exact .asBody ha evaluates

end OpTree
