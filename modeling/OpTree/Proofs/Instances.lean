/-
The frames of objects. An object of a session has a frame of its own: made for it, on the
class frame of its type and on nothing else (`FrameStore.Houses`). A class frame stands on
nothing and binds no name (`FrameStore.IsRoot`), so a name that is looked up for an object
is found in the object's own frame or not at all, and what is assigned for one object is
not found for another.

Both hold from the beginning on, whatever is called (`Call.housed`): the frame that an
object is bound to is one that was just made for it, names are bound in other frames than
those of classes, and an assignment goes to a frame that binds the name.
-/
import OpTree.Proofs.Isolation

namespace OpTree

namespace FrameStore

/-- The frame is a class frame that binds nothing. -/
def IsRoot (s : FrameStore) (type : ClosedType) (f : FrameId) : Prop :=
  s.frame? f = some ⟨.ofClass type, [], .empty⟩

/-- The frame is the object's, on the class frame of a type. -/
def Houses (s : FrameStore) (f : FrameId) (o : ObjectRef) : Prop :=
  ∃ o' c type bindings, o'.id = o.id ∧ s.IsRoot type c ∧
    s.frame? f = some ⟨.ofInstance (some o'), [c], bindings⟩

/-- Frames are only added or bound in, and class frames are not bound in. -/
structure KeepsRoots (s s' : FrameStore) : Prop where
  frames : s.Extends s'
  roots : ∀ {type f}, s.IsRoot type f → s'.IsRoot type f

variable {s s' s'' : FrameStore} {f g c : FrameId} {type : ClosedType} {o : ObjectRef}

theorem IsRoot.has (h : s.IsRoot type f) : s.Has f := Option.isSome_iff_exists.2 ⟨_, h⟩

theorem IsRoot.chain (h : s.IsRoot type f) : s.chain f = [f] := by
  have hf : s.frame? f = some ⟨.ofClass type, [], .empty⟩ := h
  rw [FrameStore.chain, hf]

theorem IsRoot.isClass (h : s.IsRoot type f) : s.isClass f = true := by
  have hf : s.frame? f = some ⟨.ofClass type, [], .empty⟩ := h
  rw [FrameStore.isClass, FrameStore.kind?, hf]
  rfl

theorem IsRoot.bindingAt? (h : s.IsRoot type f) (name : String) : s.bindingAt? f name = none := by
  have hf : s.frame? f = some ⟨.ofClass type, [], .empty⟩ := h
  rw [FrameStore.bindingAt?, bindings, hf]
  rfl

theorem isRoot_addClass (s : FrameStore) (type : ClosedType) :
    (s.addClass type).2.IsRoot type (s.addClass type).1 :=
  frame?_add_self s (.ofClass type) []

namespace Houses

theorem has (h : s.Houses f o) : s.Has f := by
  obtain ⟨o', c, type, bindings, -, -, hf⟩ := h
  exact Option.isSome_iff_exists.2 ⟨_, hf⟩

theorem id_eq {o' : ObjectRef} (h : s.Houses f o) (h' : s.Houses f o') : o.id = o'.id := by
  obtain ⟨p, _, _, _, hid, -, hf⟩ := h
  obtain ⟨p', _, _, _, hid', -, hf'⟩ := h'
  rw [hf] at hf'
  cases hf'
  exact hid.symm.trans hid'

theorem not_isRoot (h : s.Houses f o) (type : ClosedType) : ¬s.IsRoot type f := by
  intro root
  obtain ⟨_, _, _, _, -, -, hf⟩ := h
  have clash := hf.symm.trans root
  cases clash

/-- A name is found in the object's own frame or not at all. -/
theorem lookup? (h : s.Houses f o) (name : String) :
    s.lookup? f name = (s.bindingAt? f name).map fun b => (f, b) := by
  obtain ⟨o', c, type, bindings, -, root, hf⟩ := h
  have chain : s.chain f = [f, c] := by rw [FrameStore.chain, hf]
  rw [FrameStore.lookup?, chain, owner?]
  cases s.bindingAt? f name with
  | some b => rfl
  | none =>
    rw [owner?, root.bindingAt?]
    rfl

theorem keeps (h : s.Houses f o) (hs : s.KeepsRoots s') : s'.Houses f o := by
  obtain ⟨o', c, type, bindings, hid, root, hf⟩ := h
  obtain ⟨frame, hf', hk, ha⟩ := hs.frames f _ hf
  obtain ⟨kind, ancestors, bindings'⟩ := frame
  cases hk
  cases ha
  exact ⟨o', c, type, bindings', hid, hs.roots root, hf'⟩

end Houses

theorem houses_addChild (h : s.IsRoot type c) (o : ObjectRef) :
    (s.addChild c (.ofInstance (some o))).2.Houses (s.addChild c (.ofInstance (some o))).1 o := by
  refine ⟨o, c, type, .empty, rfl, ?_, ?_⟩
  · exact (frame?_add_of_has s _ (s.chain c) h.has).trans h
  · rw [← h.chain]
    exact frame?_add_self s _ (s.chain c)

namespace KeepsRoots

theorem refl (s : FrameStore) : s.KeepsRoots s := ⟨.refl s, fun h => h⟩

theorem trans (h : s.KeepsRoots s') (h' : s'.KeepsRoots s'') : s.KeepsRoots s'' :=
  ⟨h.frames.trans h'.frames, fun hf => h'.roots (h.roots hf)⟩

theorem add (s : FrameStore) (kind : FrameKind) (ancestors : List FrameId) :
    s.KeepsRoots (s.add kind ancestors).2 where
  frames := extends_add s kind ancestors
  roots h := (frame?_add_of_has s kind ancestors h.has).trans h

theorem bindAt (hf : ∀ type, ¬s.IsRoot type f) (name : String) (b : Binding) :
    s.KeepsRoots (s.bindAt f name b) where
  frames := extends_bindAt s f name b
  roots {type g} hg := by
    have other : g ≠ f := by
      rintro rfl
      exact hf type hg
    exact (frame?_bindAt_other name b other).trans hg

theorem insert {name : String} {b : Binding} (hf : s.isClass f = false)
    (h : s.insert f name b = .ok s') : s.KeepsRoots s' := by
  unfold FrameStore.insert at h
  split at h
  · cases h
  · cases h
    refine bindAt (fun type root => ?_) name b
    rw [root.isClass] at hf
    cases hf

/-- What is assigned to was bound, and so is not a class frame. -/
theorem assign {name : String} {v : Value} (h : s.assign f name v = .ok s') : s.KeepsRoots s' := by
  unfold FrameStore.assign at h
  split at h
  · rename_i g x found
    cases h
    obtain ⟨-, hx⟩ := owner?_eq_some found
    refine bindAt (fun type root => ?_) name (.assigned v)
    rw [root.bindingAt?] at hx
    cases hx
  · cases h

end KeepsRoots

end FrameStore

/-- Class frames bind nothing, and every object of a session has a frame of its own. -/
structure World.Housed {σ : Type} (w : World σ) : Prop where
  roots : ∀ {s type f}, (w.session s).classFrames.get? type = some f → w.frames.IsRoot type f
  links : ∀ {o s f table}, w.link? o = some (.session s f table) → w.frames.Houses f o

namespace World

variable {σ : Type} {w w' : World σ}

theorem Housed.initial (host : σ) : (World.initial host).Housed where
  roots h := by cases h
  links h := by simp [link?, World.initial] at h

/-- The world is housed on, with the class frames that there were. -/
def Houses (w w' : World σ) : Prop := w.frames.KeepsRoots w'.frames ∧ w'.Housed

namespace Housed

variable (h : w.Housed)

include h

theorem frames {frames : FrameStore} (hs : w.frames.KeepsRoots frames) :
    w.Houses { w with frames := frames } :=
  ⟨hs, fun hf => hs.roots (h.roots hf), fun hl => (h.links hl).keeps hs⟩

/-- Nothing has changed that frames are found by. -/
theorem same (hf : w'.frames = w.frames)
    (hs : ∀ s, (w'.session s).classFrames = (w.session s).classFrames)
    (hl : ∀ o s f table, w'.link? o = some (.session s f table) →
      w.link? o = some (.session s f table)) : w.Houses w' := by
  refine ⟨hf ▸ .refl _, fun {s type f} hc => ?_, fun {o s f table} hl' => ?_⟩
  · rw [hs] at hc
    rw [hf]
    exact h.roots hc
  · rw [hf]
    exact h.links (hl o s f table hl')

theorem unlinked (hf : w'.frames = w.frames) (hs : w'.session = w.session)
    (ho : w'.objects = w.objects) : w.Houses w' := by
  refine h.same hf (fun s => by rw [hs]) fun o s f table hl => ?_
  rw [← hl, link?, link?, ho]

theorem newObject (type : ClosedType) : w.Houses (w.newObject type).2 :=
  h.same rfl (fun _ => rfl) fun _ _ _ _ => link?_newObject type

theorem mapSession {s : SessionId} {f : SessionState σ → SessionState σ}
    (hf : (f (w.session s)).classFrames = (w.session s).classFrames) :
    w.Houses (w.mapSession s f) := by
  refine h.same rfl (fun s' => ?_) fun _ _ _ _ hl => hl
  rw [session_mapSession]
  split
  · rename_i hs
    rw [hf, hs]
  · rfl

theorem classFrame (s : SessionId) (type : ClosedType) :
    w.Houses (World.classFrame s type w).2 ∧ ∀ f, (World.classFrame s type w).1 = .ok f →
      (World.classFrame s type w).2.frames.IsRoot type f := by
  simp only [World.classFrame, Run.modifyGet]
  cases hc : (w.session s).classFrames.get? type with
  | some f =>
    refine ⟨⟨.refl _, h⟩, fun f' hf' => ?_⟩
    cases hf'
    exact h.roots hc
  | none =>
    dsimp only
    have added : w.frames.KeepsRoots (w.frames.addClass type).2 := .add w.frames (.ofClass type) []
    have root := w.frames.isRoot_addClass type
    obtain ⟨keeps, housed⟩ := h.frames added
    refine ⟨⟨keeps, fun {s' type' g} hg => ?_, housed.links⟩, fun f hf => ?_⟩
    · rw [session_mapSession] at hg
      by_cases hs : s = s'
      · rw [if_pos hs] at hg
        by_cases ht : type = type'
        · subst ht
          rw [Table.get?_insert_self] at hg
          cases hg
          exact root
        · rw [Table.get?_insert_other _ ht] at hg
          exact housed.roots hg
      · rw [if_neg hs] at hg
        exact housed.roots hg
    · cases hf
      exact root

theorem changeFrames (name : String) (change : FrameStore → Except FrameError FrameStore)
    (hc : ∀ s', change w.frames = .ok s' → w.frames.KeepsRoots s') :
    w.Houses (World.changeFrames name change w).2 := by
  unfold World.changeFrames
  split
  · exact h.frames (hc _ ‹_›)
  · exact ⟨.refl _, h⟩

theorem target (c : Context σ) (m : SymbolId) : w.Houses (c.target m w).2 := by
  cases hm : (w.session c.session).targets.get? m with
  | some t =>
    rw [c.target_of_cached hm]
    exact ⟨.refl _, h⟩
  | none =>
    cases hd : c.host.decide m with
    | error e =>
      rw [c.target_of_error hm hd]
      exact ⟨.refl _, h⟩
    | ok t =>
      rw [c.target_of_decided hm hd]
      exact h.mapSession rfl

theorem bind {f : FrameId} (o : ObjectRef) (s : SessionId) (table : MemberTable)
    (hf : w.frames.Houses f o) : w.Houses (World.bind o (.session s f table) w).2 := by
  unfold World.bind
  split
  · exact ⟨.refl _, h⟩
  · refine ⟨.refl _, h.roots, fun {o' s' f' table'} hl => ?_⟩
    by_cases hid : o.id = o'.id
    · rcases link?_modify hl with hl | ⟨cell, -, hl⟩
      · exact h.links hl
      · cases hl
        obtain ⟨p, c, type, bindings, hp, root, found⟩ := hf
        exact ⟨p, c, type, bindings, hp.trans hid, root, found⟩
    · have other : w.link? o' = some (.session s' f' table') := by
        rw [← hl]
        simp only [link?, Array.getElem?_modify, if_neg hid]
      exact h.links other

theorem setElement (a : ArrayRef) (indices : List Int) (v : Value) :
    w.Houses (World.setElement a indices v w).2 := by
  unfold World.setElement
  split
  · split
    · exact h.unlinked rfl rfl rfl
    · exact ⟨.refl _, h⟩
  · exact ⟨.refl _, h⟩

theorem storeSlot (o : ObjectRef) (field : SymbolId) (v : Value) :
    w.Houses (w.storeSlot o field v) := by
  refine h.same rfl (fun _ => rfl) fun o' s f table hl => ?_
  rcases link?_modify hl with hl | ⟨cell, hc, hl⟩
  · exact hl
  · simp only [link?, hc, Option.bind_some]
    exact hl

end Housed

/-- What a run over a world keeps to: objects are housed, and class frames bind nothing. -/
def housingTerms (σ : Type) : Terms (World σ) :=
  .holding World.Housed (fun w w' => w.frames.KeepsRoots w'.frames) (fun _ => .refl _) .trans

section steps

open Run

variable {b : World σ} {f : FrameId}

theorem agreesBy_housing {α : Type} {Q : World σ → α → α → Prop} {m : Run (World σ) α}
    (houses : ∀ w : World σ, b.frames.KeepsRoots w.frames → w.Housed →
      w.Houses (m w).2 ∧ ∀ a, (m w).1 = .ok a → Q (m w).2 a a) : AgreesBy (housingTerms σ) b Q m m := by
  have held : AgreesBy (.holding World.Housed (fun w w' => w.frames.KeepsRoots w'.frames)
      (fun _ => .refl _) .trans) b Q m m := agreesBy_holding fun w hb hw => by
    obtain ⟨⟨hk, hw⟩, hq⟩ := houses w hb hw
    exact ⟨hk, hw, hq⟩
  exact held

theorem agrees_housing {α : Type} {m : Run (World σ) α}
    (houses : ∀ w : World σ, w.Housed → w.Houses (m w).2) : Agrees (housingTerms σ) m m :=
  fun _ => agreesBy_housing fun w _ hw => ⟨houses w hw, fun _ _ => rfl⟩

theorem tied_housing (change : World σ → World σ) {w w' : World σ} (h : (housingTerms σ).ties b w w')
    (houses : w.Housed → w.Houses (change w)) :
    ∃ b', (housingTerms σ).le b b' ∧ (housingTerms σ).ties b' (change w) (change w') := by
  obtain ⟨rfl, rfl, hw⟩ := h
  obtain ⟨hk, hw⟩ := houses hw
  exact ⟨change b, hk, rfl, rfl, hw⟩

theorem classFrame_housing (s : SessionId) (type : ClosedType) (b : World σ) :
    AgreesBy (housingTerms σ) b (fun b f f' => f = f' ∧ ∃ type, b.frames.IsRoot type f)
      (World.classFrame s type) (World.classFrame s type) :=
  agreesBy_housing fun _ _ hw => (hw.classFrame s type).imp_right fun root f hf => ⟨rfl, type, root f hf⟩

/-- A frame that is added is a child, and no class frame if that is not its kind. -/
theorem childFrame_housing (f : FrameId) {kind : FrameKind} (hk : kind.isClass = false) (b : World σ) :
    AgreesBy (housingTerms σ) b (fun b g g' => g = g' ∧ b.frames.Has g ∧ b.frames.isClass g = false)
      (World.childFrame f kind) (World.childFrame f kind) := by
  refine agreesBy_housing fun w _ hw => ⟨hw.frames (.add w.frames kind (w.frames.chain f)), fun g hg => ?_⟩
  cases hg
  exact ⟨rfl, FrameStore.has_add .., (FrameStore.isClass_addChild w.frames f kind).trans hk⟩

/-- A frame that is made for an object on a class frame is its own. -/
theorem instanceFrame_housing {type : ClosedType} (root : b.frames.IsRoot type f) (o : ObjectRef) :
    AgreesBy (housingTerms σ) b
      (fun b g g' => (g = g' ∧ b.frames.Houses g o) ∧ g = g' ∧ b.frames.Has g ∧
        b.frames.isClass g = false)
      (World.childFrame f (.ofInstance (some o))) (World.childFrame f (.ofInstance (some o))) := by
  refine agreesBy_housing fun w hb hw =>
    ⟨hw.frames (.add w.frames (.ofInstance (some o)) (w.frames.chain f)), fun g hg => ?_⟩
  cases hg
  have houses := FrameStore.houses_addChild (hb.roots root) o
  exact ⟨⟨rfl, houses⟩, rfl, houses.has, FrameStore.isClass_addChild w.frames f _⟩

theorem changeFrames_housing {name : String} {change : FrameStore → Except FrameError FrameStore}
    (keeps : ∀ s s', b.frames.KeepsRoots s → change s = .ok s' → s.KeepsRoots s') :
    AgreesBy (housingTerms σ) b (fun _ => Eq) (World.changeFrames name change)
      (World.changeFrames name change) :=
  agreesBy_housing fun w hb hw =>
    ⟨hw.changeFrames name change fun s' => keeps w.frames s' hb, fun _ _ => rfl⟩

theorem insert_housing (has : b.frames.Has f) (hf : b.frames.isClass f = false) (name : String)
    (binding : Binding) :
    AgreesBy (housingTerms σ) b (fun _ => Eq)
      (World.changeFrames name fun frames => frames.insert f name binding)
      (World.changeFrames name fun frames => frames.insert f name binding) :=
  changeFrames_housing fun _ _ hb => .insert ((hb.frames.isClass has).trans hf)

theorem bind_housing (o : ObjectRef) (s : SessionId) (table : MemberTable)
    (hf : b.frames.Houses f o) :
    AgreesBy (housingTerms σ) b (fun _ => Eq) (World.bind o (.session s f table))
      (World.bind o (.session s f table)) :=
  agreesBy_housing fun _ hb hw => ⟨hw.bind o s table (hf.keeps hb), fun _ _ => rfl⟩

theorem link_housing {w w' : World σ} (h : (housingTerms σ).ties b w w') (o : ObjectRef) :
    Link.Tied (fun f f' => f = f' ∧ b.frames.Houses f o) (w.link? o) (w'.link? o) := by
  obtain ⟨rfl, rfl, hw⟩ := h
  exact (Link.Tied.refl (fun _ => rfl) (b.link? o)).strengthen fun hl _ same => ⟨same, hw.links hl⟩

end steps

/-- Runs over worlds in which objects are housed. -/
def housing {σ : Type} (host : Host σ) : WorldTerms host where
  toTerms := housingTerms σ
  sights _ f f' := f = f'
  frames b f f' := f = f' ∧ b.frames.Has f ∧ b.frames.isClass f = false
  roots b f f' := f = f' ∧ ∃ type, b.frames.IsRoot type f
  holders b o f f' := f = f' ∧ b.frames.Houses f o
  seen h := h.1
  holds h := h.1
  laterSights _ h := h
  later hb h := ⟨h.1, h.2.1.extends hb.frames, (hb.frames.isClass h.2.1).trans h.2.2⟩
  laterRoots hb h := ⟨h.1, h.2.imp fun _ => hb.roots⟩
  laterHolders hb h := ⟨h.1, h.2.keeps hb⟩
  names h hf name := by obtain ⟨rfl, rfl, -⟩ := h; rw [hf]
  arguments h hf := by obtain ⟨rfl, rfl, -⟩ := h; rw [hf.1]
  instances h hf := by obtain ⟨rfl, rfl, -⟩ := h; rw [hf]
  links := link_housing
  slots h _ _ := by obtain ⟨rfl, rfl, -⟩ := h; rfl
  statics h _ _ := by obtain ⟨rfl, rfl, -⟩ := h; rfl
  entries h _ _ := by obtain ⟨rfl, rfl, -⟩ := h; rfl
  tables h _ _ := by obtain ⟨rfl, rfl, -⟩ := h; rfl
  isOpen h _ := by obtain ⟨rfl, rfl, -⟩ := h; rfl
  cells h _ := by obtain ⟨rfl, rfl, -⟩ := h; rfl
  state h := by obtain ⟨rfl, rfl, -⟩ := h; rfl
  classFrame b s type := classFrame_housing s type b
  methodFrame m typeArgs hf := hf.1 ▸ childFrame_housing _ rfl _
  instanceFrame o hf := by
    obtain ⟨rfl, type, root⟩ := hf
    exact instanceFrame_housing root o
  scopeFrame hf := hf.1 ▸ childFrame_housing _ rfl _
  declare name hf := hf.1 ▸ insert_housing hf.2.1 hf.2.2 name .unassigned
  define name v hf := hf.1 ▸ insert_housing hf.2.1 hf.2.2 name (.assigned v)
  assign name v hf := hf ▸ changeFrames_housing fun _ _ _ => .assign
  target c m _ := agrees_housing fun _ hw => hw.target c m
  register s entry := agrees_housing fun _ hw => hw.mapSession rfl
  keepTable s type table h _ _ := tied_housing (·.keepTable s type table) h fun hw => hw.mapSession rfl
  storeStatic s place v h := tied_housing (·.storeStatic s place v) h fun hw => hw.mapSession rfl
  storeSlot o field v h := tied_housing (·.storeSlot o field v) h fun hw => hw.storeSlot o field v
  bindLink o s _ table h hf _ := hf.1 ▸ (bind_housing o s table hf.2).apply h
  newObject type := agrees_housing fun _ hw => hw.newObject type
  newArray element cell := agrees_housing fun _ hw => hw.unlinked rfl rfl rfl
  setElement a indices v := agrees_housing fun _ hw => hw.setElement a indices v
  record call h := tied_housing (·.record call) h fun hw => hw.unlinked rfl rfl rfl
  write state h := tied_housing ({ · with host := state }) h fun hw => hw.unlinked rfl rfl rfl
  noteFailure call e h := tied_housing (·.noteFailure call e) h fun hw => hw.unlinked rfl rfl rfl

end World

theorem Call.housed {σ : Type} (host : Host σ) (n : Nat) (session : SessionId) (call : Call)
    {w : World σ} (h : w.Housed) : (call.run (.within host n session) w).2.Housed := by
  have agrees := call.agrees (Context.within_self (World.housing host) n session)
  have holds : Run.AgreesBy (.holding World.Housed (fun w w' => w.frames.KeepsRoots w'.frames)
      (fun _ => .refl _) .trans) w (fun _ => Eq) _ _ := agrees w
  exact (holds.holding h).2

end OpTree
