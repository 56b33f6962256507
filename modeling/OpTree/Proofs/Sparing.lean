/-
What evaluation leaves alone in the frames. Every name is bound in a frame that was
made for the code that binds it: a call's parameters in the frame of the call, a
local in the innermost block around it, the properties of an anonymous object in the
frame of the object. An assignment goes further, to whatever frame of the chain binds
the name; but a call's frame stands on a class frame, so the chain of the called
code does not lead to the frames of the code that calls.

`FrameStore.Spares` says this of a store and a later one, for frames that are looked
after. That names are not bound in them holds from every state. That their bindings
stay needs to be known of the frames that calls are put on: `World.Framed` says that
class frames and the frames of objects stand on no call and no block, as they do
from the beginning on.
-/
import OpTree.Proofs.Growth

namespace OpTree

/-- The frame of a call or of a block: it holds the locals of one body. -/
def FrameKind.isBody : FrameKind → Bool
  | .ofMethod .. | .scope => true
  | .ofClass _ | .ofInstance _ => false

def FrameKind.isClass : FrameKind → Bool
  | .ofClass _ => true
  | _ => false

namespace FrameStore

def isBody (s : FrameStore) (f : FrameId) : Bool := (s.kind? f).any FrameKind.isBody

def isClass (s : FrameStore) (f : FrameId) : Bool := (s.kind? f).any FrameKind.isClass

/-- The same names are bound in a frame itself. -/
def SameNames (s s' : FrameStore) (f : FrameId) : Prop :=
  ∀ name, (s'.bindingAt? f name).isSome = (s.bindingAt? f name).isSome

/-- The frame exists and stands on no call and no block. -/
def Bare (s : FrameStore) (f : FrameId) : Prop := ∀ g ∈ s.chain f, s.Has g ∧ s.isBody g = false

instance (s : FrameStore) (f : FrameId) : Decidable (s.Bare f) :=
  inferInstanceAs (Decidable (∀ g ∈ s.chain f, s.Has g ∧ s.isBody g = false))

/-- The frame exists and stands on no call and no block that is looked after. -/
def Apart (named : FrameId → Prop) (s : FrameStore) (f : FrameId) : Prop :=
  ∀ g ∈ s.chain f, s.Has g ∧ (s.isBody g = true → ¬named g)

/-- Names may be bound in the frame. -/
structure Fresh (named : FrameId → Prop) (s : FrameStore) (f : FrameId) : Prop where
  has : s.Has f
  named : ¬named f
  class' : s.isClass f = false

/-- What the frames `named` and the class frames hold was spared: no name was bound in
them, and, where worlds are known to be framed, the bindings of calls and blocks stayed. -/
structure Spares (framed : Prop) (named : FrameId → Prop) (s s' : FrameStore) : Prop where
  frames : s.Extends s'
  names : ∀ f, named f → s.SameNames s' f
  classes : ∀ f, s'.isClass f = true → s.SameNames s' f
  bodies : framed → ∀ f, named f → s.isBody f = true → s'.bindings f = s.bindings f

variable {framed : Prop} {named : FrameId → Prop} {s s' s'' : FrameStore} {f g : FrameId}

theorem Extends.isBody (hs : s.Extends s') (h : s.Has f) : s'.isBody f = s.isBody f := by
  rw [FrameStore.isBody, FrameStore.isBody, hs.kind? h]

theorem Extends.isClass (hs : s.Extends s') (h : s.Has f) : s'.isClass f = s.isClass f := by
  rw [FrameStore.isClass, FrameStore.isClass, hs.kind? h]

theorem has_of_isBody (h : s.isBody f = true) : s.Has f := by
  simp only [isBody, kind?, Option.any_map, Option.any_eq_true] at h
  obtain ⟨frame, hf, -⟩ := h
  exact Option.isSome_iff_exists.2 ⟨frame, hf⟩

theorem mem_chain_self (s : FrameStore) (f : FrameId) : f ∈ s.chain f := List.mem_cons_self

theorem Bare.has (h : s.Bare f) : s.Has f := (h f (s.mem_chain_self f)).1

theorem Bare.extends (h : s.Bare f) (hs : s.Extends s') : s'.Bare f := by
  intro g hg
  rw [hs.chain h.has] at hg
  obtain ⟨hg, hb⟩ := h g hg
  exact ⟨hg.extends hs, (hs.isBody hg).trans hb⟩

theorem Apart.extends (h : s.Apart named f) (hs : s.Extends s') : s'.Apart named f := by
  intro g hg
  rw [hs.chain (h f (s.mem_chain_self f)).1] at hg
  obtain ⟨hg, hb⟩ := h g hg
  exact ⟨hg.extends hs, fun hk => hb ((hs.isBody hg).symm.trans hk)⟩

theorem Bare.apart (h : s.Bare f) : s.Apart named f := fun g hg =>
  ⟨(h g hg).1, fun hb => absurd (hb.symm.trans (h g hg).2) nofun⟩

theorem Fresh.extends (h : s.Fresh named f) (hs : s.Extends s') : s'.Fresh named f where
  has := h.has.extends hs
  named := h.named
  class' := (hs.isClass h.has).trans h.class'

/-! ## New frames -/

theorem bindings_of_not_has (h : ¬s.Has f) : s.bindings f = .empty := by
  rw [bindings, Option.not_isSome_iff_eq_none.1 h]

/-- A new frame is empty, and the others are as they were. -/
theorem bindings_add (s : FrameStore) (kind : FrameKind) (as : List FrameId) (f : FrameId) :
    (s.add kind as).2.bindings f = s.bindings f := by
  by_cases hf : s.Has f
  · rw [bindings, bindings, frame?_add_of_has s kind as hf]
  · rw [bindings_of_not_has hf]
    by_cases hn : f = (s.add kind as).1
    · rw [bindings, hn, frame?_add_self]
    · refine bindings_of_not_has fun h => hn ?_
      have hlt : f.index < s.frames.size + 1 := by simpa [add] using has_iff_lt.1 h
      have hge : ¬f.index < s.frames.size := fun h => hf (has_iff_lt.2 h)
      have hi : f.index = s.frames.size := by omega
      cases f
      exact congrArg FrameId.mk hi

theorem bindingAt?_add (s : FrameStore) (kind : FrameKind) (as : List FrameId) (f : FrameId)
    (name : String) : (s.add kind as).2.bindingAt? f name = s.bindingAt? f name := by
  rw [bindingAt?, bindings_add, bindingAt?]

/-- Names are found from a new frame where they are found from the frame below it. -/
theorem lookup?_addChild (s : FrameStore) (parent : FrameId) (kind : FrameKind) (name : String) :
    (s.addChild parent kind).2.lookup? (s.addChild parent kind).1 name = s.lookup? parent name := by
  have fresh : s.bindingAt? (s.addChild parent kind).1 name = none := by
    rw [bindingAt?, addChild, bindings_of_not_has (s.not_has_new kind (s.chain parent)),
      Table.get?_empty]
  have below (fs : List FrameId) : (s.addChild parent kind).2.owner? name fs = s.owner? name fs := by
    induction fs with
    | nil => rfl
    | cons g fs ih =>
      rw [addChild] at ih ⊢
      simp only [owner?, ih, bindingAt?_add]
  have skipped : (s.addChild parent kind).2.bindingAt? (s.addChild parent kind).1 name = none :=
    (bindingAt?_add ..).trans fresh
  rw [lookup?, chain_addChild, owner?, skipped]
  exact below (s.chain parent)

theorem bare_addClass (s : FrameStore) (type : ClosedType) :
    (s.addClass type).2.Bare (s.addClass type).1 := by
  intro g hg
  simp only [addClass, chain, frame?_add_self, List.mem_singleton] at hg ⊢
  subst hg
  exact ⟨has_add .., by simp [isBody, kind?, FrameKind.isBody]⟩

/-- The new frame is the only one of its chain that was not there. -/
theorem forall_chain_addChild {P : FrameId → Prop} (s : FrameStore) (parent : FrameId)
    (kind : FrameKind) (hnew : P (s.addChild parent kind).1) (h : ∀ g ∈ s.chain parent, P g) :
    ∀ g ∈ (s.addChild parent kind).2.chain (s.addChild parent kind).1, P g := by
  rw [chain_addChild]
  simpa using ⟨hnew, h⟩

theorem isBody_addChild (s : FrameStore) (parent : FrameId) (kind : FrameKind) :
    (s.addChild parent kind).2.isBody (s.addChild parent kind).1 = kind.isBody := by
  simp [isBody, kind?_addChild]

theorem isClass_addChild (s : FrameStore) (parent : FrameId) (kind : FrameKind) :
    (s.addChild parent kind).2.isClass (s.addChild parent kind).1 = kind.isClass := by
  simp [isClass, kind?_addChild]

theorem Bare.addChild (h : s.Bare f) (o : Option ObjectRef) :
    (s.addChild f (.ofInstance o)).2.Bare (s.addChild f (.ofInstance o)).1 := by
  have hs : s.Extends (s.addChild f (.ofInstance o)).2 := extends_add s _ _
  refine forall_chain_addChild s f _ ⟨has_add .., isBody_addChild ..⟩ fun g hg => ?_
  obtain ⟨hg, hb⟩ := h g hg
  exact ⟨hg.extends hs, (hs.isBody hg).trans hb⟩

theorem Apart.addChild (h : s.Apart named f) (hn : ∀ f, named f → s.Has f) (kind : FrameKind) :
    (s.addChild f kind).2.Apart named (s.addChild f kind).1 := by
  have hs : s.Extends (s.addChild f kind).2 := extends_add s _ _
  refine forall_chain_addChild s f _ ⟨has_add .., fun _ hk => ?_⟩ fun g hg => ?_
  · exact not_has_new s kind (s.chain f) (hn _ hk)
  · obtain ⟨hg, hb⟩ := h g hg
    exact ⟨hg.extends hs, fun hk => hb ((hs.isBody hg).symm.trans hk)⟩

theorem fresh_addChild (hn : ∀ f, named f → s.Has f) (parent : FrameId) {kind : FrameKind}
    (hk : kind.isClass = false) :
    (s.addChild parent kind).2.Fresh named (s.addChild parent kind).1 where
  has := has_add ..
  named h := not_has_new s kind (s.chain parent) (hn _ h)
  class' := (isClass_addChild s parent kind).trans hk

/-! ## What is spared -/

theorem SameNames.of_eq (h : s'.bindings f = s.bindings f) : s.SameNames s' f := by
  intro name
  rw [bindingAt?, bindingAt?, h]

theorem SameNames.trans (h : s.SameNames s' f) (h' : s'.SameNames s'' f) : s.SameNames s'' f :=
  fun name => (h' name).trans (h name)

namespace Spares

theorem of_bindings (hs : s.Extends s') (h : ∀ f, s'.bindings f = s.bindings f) :
    s.Spares framed named s' where
  frames := hs
  names f _ := .of_eq (h f)
  classes f _ := .of_eq (h f)
  bodies _ f _ _ := h f

theorem refl (s : FrameStore) : s.Spares framed named s := .of_bindings (.refl s) fun _ => rfl

theorem trans (h : s.Spares framed named s') (h' : s'.Spares framed named s'') :
    s.Spares framed named s'' where
  frames := h.frames.trans h'.frames
  names f hf := (h.names f hf).trans (h'.names f hf)
  classes f hf := by
    by_cases hs : s'.Has f
    · have hc : s'.isClass f = true := (h'.frames.isClass hs).symm.trans hf
      exact (h.classes f hc).trans (h'.classes f hf)
    · have hb : s'.bindings f = s.bindings f := by
        rw [bindings_of_not_has hs, bindings_of_not_has fun hf => hs (hf.extends h.frames)]
      exact (SameNames.of_eq hb).trans (h'.classes f hf)
  bodies ha f hf hb := by
    have hb' : s'.isBody f = true := (h.frames.isBody (has_of_isBody hb)).trans hb
    exact (h'.bodies ha f hf hb').trans (h.bodies ha f hf hb)

/-- A binding was put into a frame that may hold it. -/
theorem bindAt (s : FrameStore) {f : FrameId} (hf : s.Has f) (name : String) (b : Binding)
    (hn : (s.bindingAt? f name).isSome = true ∨ s.Fresh named f)
    (hb : framed → s.isBody f = true → ¬named f) : s.Spares framed named (s.bindAt f name b) := by
  have hs : s.Extends (s.bindAt f name b) := extends_bindAt s f name b
  have other (g : FrameId) (hg : g ≠ f) : (s.bindAt f name b).bindings g = s.bindings g := by
    rw [bindings, bindings, frame?_bindAt_other name b hg]
  -- only a binding that is there already is put into a frame that is looked after
  have same (g : FrameId) (hg : g = f → (s.bindingAt? f name).isSome = true) :
      s.SameNames (s.bindAt f name b) g := by
    intro name'
    rw [bindingAt?_bindAt hf]
    split
    · rename_i h
      obtain ⟨rfl, rfl⟩ := h
      rw [hg rfl]
      rfl
    · rfl
  refine ⟨hs, fun g hg => same g ?_, fun g hg => same g ?_, fun ha g hg hk => other g ?_⟩
  · rintro rfl
    exact hn.resolve_right fun h => h.named hg
  · rintro rfl
    refine hn.resolve_right fun h => ?_
    rw [hs.isClass hf, h.class'] at hg
    cases hg
  · rintro rfl
    exact hb ha hk hg

theorem insert {name : String} {b : Binding} (hf : s.Fresh named f) (ha : framed → s.Apart named f)
    (h : s.insert f name b = .ok s') : s.Spares framed named s' := by
  simp only [FrameStore.insert] at h
  split at h
  · cases h
  · cases h
    exact .bindAt s hf.has name b (.inr hf) fun h => (ha h f (s.mem_chain_self f)).2

theorem assign {name : String} {v : Value} (ha : framed → s.Apart named f)
    (h : s.assign f name v = .ok s') : s.Spares framed named s' := by
  simp only [FrameStore.assign] at h
  split at h
  · rename_i g x hl
    cases h
    obtain ⟨hg, hx⟩ := owner?_eq_some hl
    have bound : (s.bindingAt? g name).isSome = true := by rw [hx]; rfl
    have has : s.Has g := Decidable.byContradiction fun hno => by
      rw [bindingAt?, bindings_of_not_has hno] at hx
      cases hx
    exact .bindAt s has name _ (.inl bound) fun h => (ha h g hg).2
  · cases h

end Spares

end FrameStore

/-! ## Worlds -/

/-- The frames that calls are put on and the frames of objects stand on no call and on
no block. -/
structure World.Framed {σ : Type} (w : World σ) : Prop where
  classes : ∀ {s type f}, (w.session s).classFrames.get? type = some f → w.frames.Bare f
  links : ∀ {o s f table}, w.link? o = some (.session s f table) → w.frames.Bare f

/-- The frames that are looked after exist, in a world that is framed if worlds are. -/
structure World.Watched {σ : Type} (framed : Prop) (named : FrameId → Prop) (w : World σ) :
    Prop where
  has : ∀ f, named f → w.frames.Has f
  framed : framed → w.Framed

namespace World

variable {σ : Type} {framed : Prop} {named : FrameId → Prop} {w : World σ}

theorem Framed.initial (host : σ) : (World.initial host).Framed where
  classes h := by cases h
  links h := by simp [link?, World.initial] at h

/-- Frames stay bare while there are only more of them. -/
theorem Framed.of_frames {frames : FrameStore} (h : w.Framed) (hs : w.frames.Extends frames) :
    ({ w with frames := frames } : World σ).Framed where
  classes hf := (h.classes hf).extends hs
  links hl := (h.links hl).extends hs

/-- A session has changed, and has made no class frame of another kind. -/
theorem Framed.mapSession {s : SessionId} {f : SessionState σ → SessionState σ} (h : w.Framed)
    (hf : ∀ {type g}, (f (w.session s)).classFrames.get? type = some g → w.frames.Bare g) :
    (w.mapSession s f).Framed where
  classes {s' type g} hg := by
    rw [session_mapSession] at hg
    split at hg
    · exact hf hg
    · exact h.classes hg
  links hl := h.links hl

theorem link?_newObject (type : ClosedType) {o : ObjectRef} {l : Link σ}
    (h : (w.newObject type).2.link? o = some l) : w.link? o = some l := by
  simp only [link?, World.newObject, Array.getElem?_push] at h ⊢
  split at h
  · cases h
  · exact h

/-- A link of an object whose cell may have been changed. -/
theorem link?_modify {i : Nat} {f : ObjectCell σ → ObjectCell σ} {o : ObjectRef} {l : Link σ}
    (h : ({ w with objects := w.objects.modify i f } : World σ).link? o = some l) :
    w.link? o = some l ∨ ∃ cell, w.objects[o.id]? = some cell ∧ (f cell).link = some l := by
  simp only [link?, Array.getElem?_modify] at h ⊢
  by_cases hi : i = o.id
  · subst hi
    simp only [if_true, Option.bind_map, Option.bind_eq_some_iff] at h
    exact .inr h
  · simp only [hi, if_false] at h
    exact .inl h

namespace Watched

/-- Nothing has changed that frames are found by. -/
theorem of_same {w' : World σ} (h : w.Watched framed named) (hf : w'.frames = w.frames)
    (hs : ∀ s, (w'.session s).classFrames = (w.session s).classFrames)
    (hl : ∀ o s f table, w'.link? o = some (.session s f table) →
      w.link? o = some (.session s f table)) : w'.Watched framed named where
  has f hn := hf ▸ h.has f hn
  framed hfr := by
    refine ⟨fun {s type f} hc => ?_, fun {o s f table} hl' => ?_⟩
    · rw [hs] at hc
      exact hf ▸ (h.framed hfr).classes hc
    · exact hf ▸ (h.framed hfr).links (hl _ _ _ _ hl')

theorem of_frames {frames : FrameStore} (h : w.Watched framed named)
    (hs : w.frames.Extends frames) :
    ({ w with frames := frames } : World σ).Watched framed named where
  has f hn := (h.has f hn).extends hs
  framed hfr := (h.framed hfr).of_frames hs

theorem mapSession {s : SessionId} {f : SessionState σ → SessionState σ}
    (h : w.Watched framed named) (hf : (f (w.session s)).classFrames = (w.session s).classFrames) :
    (w.mapSession s f).Watched framed named :=
  h.of_same rfl (fun s' => by rw [session_mapSession]; split <;> simp_all) fun _ _ _ _ hl => hl

end Watched

/-- What is spared when frames change and the world is watched on. -/
def Keeps (framed : Prop) (named : FrameId → Prop) (w w' : World σ) : Prop :=
  w.frames.Spares framed named w'.frames ∧ w'.Watched framed named

theorem Watched.keeps_of_same {w' : World σ} (h : w.Watched framed named)
    (hf : w'.frames = w.frames)
    (hs : ∀ s, (w'.session s).classFrames = (w.session s).classFrames)
    (hl : ∀ o s f table, w'.link? o = some (.session s f table) →
      w.link? o = some (.session s f table)) : w.Keeps framed named w' :=
  ⟨hf ▸ .refl _, h.of_same hf hs hl⟩

/-- Neither frames nor sessions nor objects have changed. -/
theorem Watched.keeps_unlinked {w' : World σ} (h : w.Watched framed named)
    (hf : w'.frames = w.frames) (hs : w'.session = w.session) (ho : w'.objects = w.objects) :
    w.Keeps framed named w' := by
  refine h.keeps_of_same hf (fun s => by rw [hs]) fun o s f table hl => ?_
  rw [← hl, link?, link?, ho]

theorem Watched.keeps_newObject (h : w.Watched framed named) (type : ClosedType) :
    w.Keeps framed named (w.newObject type).2 :=
  h.keeps_of_same rfl (fun _ => rfl) fun _ _ _ _ => link?_newObject type

theorem Watched.keeps_mapSession {s : SessionId} {f : SessionState σ → SessionState σ}
    (h : w.Watched framed named) (hf : (f (w.session s)).classFrames = (w.session s).classFrames) :
    w.Keeps framed named (w.mapSession s f) :=
  ⟨.refl _, h.mapSession hf⟩

theorem Watched.keeps_frames {frames : FrameStore} (h : w.Watched framed named)
    (hs : w.frames.Spares framed named frames) : w.Keeps framed named { w with frames := frames } :=
  ⟨hs, h.of_frames hs.frames⟩

/-- A class frame is bare, whether it was there or is made. -/
theorem classFrame_keeps (s : SessionId) (type : ClosedType) (h : w.Watched framed named) :
    w.Keeps framed named (World.classFrame s type w).2 ∧
      ∀ f, (World.classFrame s type w).1 = .ok f →
        framed → (World.classFrame s type w).2.frames.Bare f := by
  simp only [World.classFrame, Run.modifyGet]
  cases hc : (w.session s).classFrames.get? type with
  | some f =>
    refine ⟨⟨.refl _, h⟩, fun f' hf' hfr => ?_⟩
    cases hf'
    exact (h.framed hfr).classes hc
  | none =>
    dsimp only
    have hs : w.frames.Extends (w.frames.addClass type).2 := FrameStore.extends_add w.frames _ _
    have bare : (w.frames.addClass type).2.Bare (w.frames.addClass type).1 :=
      w.frames.bare_addClass type
    refine ⟨⟨.of_bindings hs (FrameStore.bindings_add w.frames _ _), ?_⟩, ?_⟩
    · have grown : ({ w with frames := (w.frames.addClass type).2 } : World σ).Watched framed named :=
        h.of_frames hs
      refine ⟨grown.has, fun hfr => (grown.framed hfr).mapSession fun {type' g} hg => ?_⟩
      by_cases ht : type = type'
      · subst ht
        rw [Table.get?_insert_self] at hg
        cases hg
        exact bare
      · rw [Table.get?_insert_other _ ht] at hg
        exact (grown.framed hfr).classes hg
    · intro f hf _
      cases hf
      exact bare

theorem childFrame_keeps (f : FrameId) (kind : FrameKind) (h : w.Watched framed named) :
    w.Keeps framed named (World.childFrame f kind w).2 :=
  h.keeps_frames (.of_bindings (FrameStore.extends_add w.frames kind _)
    (FrameStore.bindings_add w.frames kind _))

theorem changeFrames_keeps (name : String) (change : FrameStore → Except FrameError FrameStore)
    (h : w.Watched framed named)
    (hc : ∀ s', change w.frames = .ok s' → w.frames.Spares framed named s') :
    w.Keeps framed named (World.changeFrames name change w).2 := by
  simp only [World.changeFrames]
  split
  · exact h.keeps_frames (hc _ ‹_›)
  · exact ⟨.refl _, h⟩

theorem target_keeps (c : Context σ) (m : SymbolId) (h : w.Watched framed named) :
    w.Keeps framed named (c.target m w).2 := by
  cases hm : (w.session c.session).targets.get? m with
  | some t => rw [c.target_of_cached hm]; exact ⟨.refl _, h⟩
  | none =>
    cases hd : c.host.decide m with
    | error e => rw [c.target_of_error hm hd]; exact ⟨.refl _, h⟩
    | ok t => rw [c.target_of_decided hm hd]; exact h.keeps_mapSession rfl

theorem bind_keeps {f : FrameId} (o : ObjectRef) (s : SessionId) (table : MemberTable)
    (h : w.Watched framed named) (hf : framed → w.frames.Bare f) :
    w.Keeps framed named (World.bind o (.session s f table) w).2 := by
  simp only [World.bind]
  split
  · exact ⟨.refl _, h⟩
  · refine ⟨.refl _, h.has, fun hfr => ⟨(h.framed hfr).classes, fun {o' s' f' table'} hl => ?_⟩⟩
    rcases link?_modify hl with hl | ⟨cell, -, hl⟩
    · exact (h.framed hfr).links hl
    · cases hl
      exact hf hfr

theorem setElement_keeps (a : ArrayRef) (indices : List Int) (v : Value)
    (h : w.Watched framed named) : w.Keeps framed named (World.setElement a indices v w).2 := by
  simp only [World.setElement]
  split
  · split
    · exact h.keeps_unlinked rfl rfl rfl
    · exact ⟨.refl _, h⟩
  · exact ⟨.refl _, h⟩

theorem storeSlot_keeps (o : ObjectRef) (field : SymbolId) (v : Value)
    (h : w.Watched framed named) : w.Keeps framed named (w.storeSlot o field v) := by
  refine h.keeps_of_same rfl (fun _ => rfl) fun o' s f table hl => ?_
  rcases link?_modify hl with hl | ⟨cell, hc, hl⟩
  · exact hl
  · simp only [link?, hc, Option.bind_some]
    exact hl

/-- What a run over a world keeps to: no name is bound in the frames `named` or in a
class frame, and, if worlds are known to be framed, they stay so, and calls and blocks
among the frames keep their bindings. -/
def sparingTerms (σ : Type) (framed : Prop) (named : FrameId → Prop) : Terms (World σ) :=
  .holding (World.Watched framed named) (fun w w' => w.frames.Spares framed named w'.frames)
    (fun _ => .refl _) .trans

section steps

open Run

variable {b : World σ} {f : FrameId}

theorem agreesBy_sparing {α : Type} {Q : World σ → α → α → Prop} {m : Run (World σ) α}
    (keeps : ∀ w : World σ, b.frames.Spares framed named w.frames → w.Watched framed named →
      w.Keeps framed named (m w).2 ∧ ∀ a, (m w).1 = .ok a → Q (m w).2 a a) :
    AgreesBy (sparingTerms σ framed named) b Q m m := by
  have held : AgreesBy (.holding (World.Watched framed named)
      (fun w w' => w.frames.Spares framed named w'.frames) (fun _ => .refl _) .trans) b Q m m :=
    agreesBy_holding fun w hb hw => by
      obtain ⟨⟨hk, hw⟩, hq⟩ := keeps w hb hw
      exact ⟨hk, hw, hq⟩
  exact held

theorem agrees_sparing {α : Type} {m : Run (World σ) α}
    (keeps : ∀ w : World σ, w.Watched framed named → w.Keeps framed named (m w).2) :
    Agrees (sparingTerms σ framed named) m m :=
  fun _ => agreesBy_sparing fun w _ hw => ⟨keeps w hw, fun _ _ => rfl⟩

theorem tied_sparing (change : World σ → World σ) {w w' : World σ}
    (h : (sparingTerms σ framed named).ties b w w')
    (keeps : w.Watched framed named → w.Keeps framed named (change w)) :
    ∃ b', (sparingTerms σ framed named).le b b' ∧
      (sparingTerms σ framed named).ties b' (change w) (change w') := by
  obtain ⟨rfl, rfl, hw⟩ := h
  obtain ⟨hk, hw⟩ := keeps hw
  exact ⟨change b, hk, rfl, rfl, hw⟩

theorem classFrame_sparing (s : SessionId) (type : ClosedType) (b : World σ) :
    AgreesBy (sparingTerms σ framed named) b (fun b f f' => f = f' ∧ (framed → b.frames.Bare f))
      (World.classFrame s type) (World.classFrame s type) :=
  agreesBy_sparing fun _ _ hw => (classFrame_keeps s type hw).imp_right fun bare f hf => ⟨rfl, bare f hf⟩

/-- A frame that is added is fresh, and as far apart from `named` as its parent is. -/
theorem childFrame_sparing (ha : framed → b.frames.Apart named f) {kind : FrameKind}
    (hk : kind.isClass = false) :
    AgreesBy (sparingTerms σ framed named) b
      (fun b g g' => g = g' ∧ b.frames.Fresh named g ∧ (framed → b.frames.Apart named g))
      (World.childFrame f kind) (World.childFrame f kind) := by
  refine agreesBy_sparing fun w hb hw => ⟨childFrame_keeps f kind hw, fun g hg => ?_⟩
  cases hg
  exact ⟨rfl, FrameStore.fresh_addChild hw.has f hk,
    fun hfr => ((ha hfr).extends hb.frames).addChild hw.has kind⟩

/-- The frame of an object is bare where the class frame is that it is made on. -/
theorem instanceFrame_sparing (bare : framed → b.frames.Bare f) (o : ObjectRef) :
    AgreesBy (sparingTerms σ framed named) b
      (fun b g g' => (g = g' ∧ (framed → b.frames.Bare g)) ∧ g = g' ∧ b.frames.Fresh named g ∧
        (framed → b.frames.Apart named g))
      (World.childFrame f (.ofInstance (some o))) (World.childFrame f (.ofInstance (some o))) := by
  refine agreesBy_sparing fun w hb hw => ⟨childFrame_keeps f _ hw, fun g hg => ?_⟩
  cases hg
  have bare (hfr : framed) := ((bare hfr).extends hb.frames).addChild (some o)
  exact ⟨⟨rfl, bare⟩, rfl, FrameStore.fresh_addChild hw.has f rfl, fun hfr => (bare hfr).apart⟩

theorem changeFrames_sparing {name : String} {change : FrameStore → Except FrameError FrameStore}
    (spares : ∀ s s', b.frames.Spares framed named s → change s = .ok s' → s.Spares framed named s') :
    AgreesBy (sparingTerms σ framed named) b (fun _ => Eq) (World.changeFrames name change)
      (World.changeFrames name change) :=
  agreesBy_sparing fun w hb hw =>
    ⟨changeFrames_keeps name change hw fun s' => spares w.frames s' hb, fun _ _ => rfl⟩

theorem insert_sparing (fresh : b.frames.Fresh named f) (ha : framed → b.frames.Apart named f)
    (name : String) (binding : Binding) :
    AgreesBy (sparingTerms σ framed named) b (fun _ => Eq)
      (World.changeFrames name fun frames => frames.insert f name binding)
      (World.changeFrames name fun frames => frames.insert f name binding) :=
  changeFrames_sparing fun _ _ hb =>
    .insert (fresh.extends hb.frames) fun hfr => (ha hfr).extends hb.frames

theorem bind_sparing (o : ObjectRef) (s : SessionId) (table : MemberTable)
    (bare : framed → b.frames.Bare f) :
    AgreesBy (sparingTerms σ framed named) b (fun _ => Eq) (World.bind o (.session s f table))
      (World.bind o (.session s f table)) :=
  agreesBy_sparing fun _ hb hw =>
    ⟨bind_keeps o s table hw fun hfr => (bare hfr).extends hb.frames, fun _ _ => rfl⟩

theorem link_sparing {w w' : World σ} (h : (sparingTerms σ framed named).ties b w w') (o : ObjectRef) :
    Link.Tied (fun f f' => f = f' ∧ (framed → b.frames.Bare f)) (w.link? o) (w'.link? o) := by
  obtain ⟨rfl, rfl, hw⟩ := h
  exact (Link.Tied.refl (fun _ => rfl) (b.link? o)).strengthen fun hl _ same =>
    ⟨same, fun hfr => (hw.framed hfr).links hl⟩

end steps

/-- Runs over worlds of which something is to be spared. -/
def sparing {σ : Type} (host : Host σ) (framed : Prop) (named : FrameId → Prop) :
    WorldTerms host where
  toTerms := sparingTerms σ framed named
  sights b f f' := f = f' ∧ (framed → b.frames.Apart named f)
  frames b f f' := f = f' ∧ b.frames.Fresh named f ∧ (framed → b.frames.Apart named f)
  roots b f f' := f = f' ∧ (framed → b.frames.Bare f)
  holders b _ f f' := f = f' ∧ (framed → b.frames.Bare f)
  seen h := ⟨h.1, h.2.2⟩
  holds h := ⟨h.1, fun hf => (h.2 hf).apart⟩
  laterSights hb h := ⟨h.1, fun hf => (h.2 hf).extends hb.frames⟩
  later hb h := ⟨h.1, h.2.1.extends hb.frames, fun hf => (h.2.2 hf).extends hb.frames⟩
  laterRoots hb h := ⟨h.1, fun hf => (h.2 hf).extends hb.frames⟩
  laterHolders hb h := ⟨h.1, fun hf => (h.2 hf).extends hb.frames⟩
  names h hf name := by obtain ⟨rfl, rfl, -⟩ := h; rw [hf.1]
  arguments h hf := by obtain ⟨rfl, rfl, -⟩ := h; rw [hf.1]
  instances h hf := by obtain ⟨rfl, rfl, -⟩ := h; rw [hf.1]
  links := link_sparing
  slots h _ _ := by obtain ⟨rfl, rfl, -⟩ := h; rfl
  statics h _ _ := by obtain ⟨rfl, rfl, -⟩ := h; rfl
  entries h _ _ := by obtain ⟨rfl, rfl, -⟩ := h; rfl
  tables h _ _ := by obtain ⟨rfl, rfl, -⟩ := h; rfl
  isOpen h _ := by obtain ⟨rfl, rfl, -⟩ := h; rfl
  cells h _ := by obtain ⟨rfl, rfl, -⟩ := h; rfl
  state h := by obtain ⟨rfl, rfl, -⟩ := h; rfl
  classFrame b s type := classFrame_sparing s type b
  methodFrame m typeArgs hf := hf.1 ▸ childFrame_sparing (fun hfr => (hf.2 hfr).apart) rfl
  instanceFrame o hf := hf.1 ▸ instanceFrame_sparing hf.2 o
  scopeFrame hf := hf.1 ▸ childFrame_sparing hf.2.2 rfl
  declare name hf := hf.1 ▸ insert_sparing hf.2.1 hf.2.2 name .unassigned
  define name v hf := hf.1 ▸ insert_sparing hf.2.1 hf.2.2 name (.assigned v)
  assign name v hf := hf.1 ▸ changeFrames_sparing fun _ _ hb =>
    .assign fun hfr => (hf.2 hfr).extends hb.frames
  target c m _ := agrees_sparing fun _ => target_keeps c m
  register s entry := agrees_sparing fun _ hw => hw.keeps_mapSession rfl
  keepTable s type table h _ _ :=
    tied_sparing (·.keepTable s type table) h fun hw => hw.keeps_mapSession rfl
  storeStatic s place v h := tied_sparing (·.storeStatic s place v) h fun hw => hw.keeps_mapSession rfl
  storeSlot o field v h := tied_sparing (·.storeSlot o field v) h (storeSlot_keeps o field v)
  bindLink o s _ table h hf _ := hf.1 ▸ (bind_sparing o s table hf.2).apply h
  newObject type := agrees_sparing fun _ hw => hw.keeps_newObject type
  newArray element cell := agrees_sparing fun _ hw => hw.keeps_unlinked rfl rfl rfl
  setElement a indices v := agrees_sparing fun _ => setElement_keeps a indices v
  record call h := tied_sparing (·.record call) h fun hw => hw.keeps_unlinked rfl rfl rfl
  write state h := tied_sparing ({ · with host := state }) h fun hw => hw.keeps_unlinked rfl rfl rfl
  noteFailure call e h := tied_sparing (·.noteFailure call e) h fun hw => hw.keeps_unlinked rfl rfl rfl

end World

end OpTree
