/-
Worlds that differ in their frames. Some frames of the one stand for frames of the
other: of one kind, with one content, and on top of frames that stand for each other.
All else that a world holds is the same in both, where it leads to a frame up to which
frame that is: what objects and arrays hold, what the sessions have stored, decided
and registered, the state of the host, and the calls made to it since some moment.
There may be any other frames besides, in the one world or in the other, and nothing
is asked of them.

Every step on a world keeps to this (`World.likeness`): the frames that code is put on
stand for each other, and what code does to them it does to both. So what the other
frames hold, and whether there are any, makes no difference to a run that does not
start on them.
-/
import Mathlib.Data.List.Forall2
import OpTree.Proofs.Engine
import OpTree.Proofs.Frames

namespace OpTree

/-- Frames of one store and the frames of another that they stand for. -/
def Pairing : Type := FrameId → FrameId → Prop

/-- The later pairing has all pairs of the former. -/
def Pairing.Le (b b' : Pairing) : Prop := ∀ f f', b f f' → b' f f'

/-- With one pair more. -/
def Pairing.add (b : Pairing) (f f' : FrameId) : Pairing := fun g g' => b g g' ∨ g = f ∧ g' = f'

theorem Pairing.le_add (b : Pairing) (f f' : FrameId) : b.Le (b.add f f') := fun _ _ => .inl

/-- Frames of one kind and content, on frames that stand for each other. -/
structure Frame.Like (b : Pairing) (x x' : Frame) : Prop where
  kind : x.kind = x'.kind
  bindings : x.bindings = x'.bindings
  ancestors : List.Forall₂ b x.ancestors x'.ancestors

/-- No frame stands for two, and frames that stand for each other are alike. -/
structure FrameStore.Like (b : Pairing) (s s' : FrameStore) : Prop where
  one : ∀ {f f' g g'}, b f f' → b g g' → (f = g ↔ f' = g')
  frames : ∀ {f f'}, b f f' → ∃ x x', s.frame? f = some x ∧ s'.frame? f' = some x' ∧ x.Like b x'

theorem Option.Rel.imp {α β : Type} {R S : α → β → Prop} (h : ∀ a b, R a b → S a b) :
    ∀ {x y}, Option.Rel R x y → Option.Rel S x y
  | _, _, .none => .none
  | _, _, .some hr => .some (h _ _ hr)

theorem Frame.Like.later {b b' : Pairing} {x x' : Frame} (h : x.Like b x') (hb : b.Le b') :
    x.Like b' x' :=
  { h with ancestors := h.ancestors.imp hb }

/-- A name that is found with one binding, in whatever frames, is read alike. -/
theorem FrameStore.read_alike {b : Pairing} {s s' : FrameStore} {f f' : FrameId} {name : String}
    (h : Option.Rel (fun x y => b x.1 y.1 ∧ x.2 = y.2) (s.lookup? f name) (s'.lookup? f' name)) :
    s.read f name = s'.read f' name := by
  simp only [FrameStore.read]
  generalize s.lookup? f name = l at h
  generalize s'.lookup? f' name = l' at h
  cases h with
  | none => rfl
  | @some x y hr =>
    obtain ⟨g, binding⟩ := x
    obtain ⟨g', _⟩ := y
    obtain ⟨-, rfl⟩ := hr
    cases binding <;> rfl

/-- So it is bound in both or in neither. -/
theorem FrameStore.isBound_alike {b : Pairing} {s s' : FrameStore} {f f' : FrameId} {name : String}
    (h : Option.Rel (fun x y => b x.1 y.1 ∧ x.2 = y.2) (s.lookup? f name) (s'.lookup? f' name)) :
    s.isBound f name = s'.isBound f' name := by
  simp only [FrameStore.isBound]
  generalize s.lookup? f name = l at h
  generalize s'.lookup? f' name = l' at h
  cases h <;> rfl

namespace FrameStore.Like

variable {b : Pairing} {s s' : FrameStore} (h : s.Like b s') {f f' : FrameId} (hf : b f f')

include h

/-! ## What is read -/

section

include hf

theorem kind? : s.kind? f = s'.kind? f' := by
  obtain ⟨x, x', hx, hx', hl⟩ := h.frames hf
  simp only [FrameStore.kind?, hx, hx', Option.map_some, hl.kind]

theorem bindingAt? (name : String) : s.bindingAt? f name = s'.bindingAt? f' name := by
  obtain ⟨x, x', hx, hx', hl⟩ := h.frames hf
  simp only [FrameStore.bindingAt?, FrameStore.bindings, hx, hx', hl.bindings]

theorem has : s.Has f ∧ s'.Has f' := by
  obtain ⟨x, x', hx, hx', -⟩ := h.frames hf
  exact ⟨Option.isSome_iff_exists.2 ⟨x, hx⟩, Option.isSome_iff_exists.2 ⟨x', hx'⟩⟩

theorem chain : List.Forall₂ b (s.chain f) (s'.chain f') := by
  obtain ⟨x, x', hx, hx', hl⟩ := h.frames hf
  simp only [FrameStore.chain, hx, hx']
  exact .cons hf hl.ancestors

end

theorem owner? (name : String) {fs fs' : List FrameId} (hs : List.Forall₂ b fs fs') :
    Option.Rel (fun x y => b x.1 y.1 ∧ x.2 = y.2) (s.owner? name fs) (s'.owner? name fs') := by
  induction hs with
  | nil => exact .none
  | cons hf _ ih =>
    simp only [FrameStore.owner?, ← h.bindingAt? hf name]
    split
    · exact .some ⟨hf, rfl⟩
    · exact ih

theorem argumentsOf? (level : GenericLevel) {fs fs' : List FrameId} (hs : List.Forall₂ b fs fs') :
    s.argumentsOf? level fs = s'.argumentsOf? level fs' := by
  induction hs with
  | nil => rfl
  | cons hf _ ih => simp only [FrameStore.argumentsOf?, ← h.kind? hf, ih]

theorem instanceOf? {fs fs' : List FrameId} (hs : List.Forall₂ b fs fs') :
    s.instanceOf? fs = s'.instanceOf? fs' := by
  induction hs with
  | nil => rfl
  | cons hf _ ih => simp only [FrameStore.instanceOf?, ← h.kind? hf, ih]

theorem lookup? (hf : b f f') (name : String) :
    Option.Rel (fun x y => b x.1 y.1 ∧ x.2 = y.2) (s.lookup? f name) (s'.lookup? f' name) :=
  h.owner? name (h.chain hf)

theorem read (hf : b f f') (name : String) : s.read f name = s'.read f' name :=
  FrameStore.read_alike (h.lookup? hf name)

/-! ## What is changed -/

/-- New frames on frames that stand for each other. -/
theorem add (kind : FrameKind) {as as' : List FrameId} (hs : List.Forall₂ b as as') :
    (s.add kind as).2.Like (b.add (s.add kind as).1 (s'.add kind as').1) (s'.add kind as').2 where
  one {f f' g g'} hf hg := by
    rcases hf with hf | ⟨rfl, rfl⟩ <;> rcases hg with hg | ⟨rfl, rfl⟩
    · exact h.one hf hg
    · exact ⟨fun he => absurd (he ▸ (h.has hf).1) (not_has_new s kind as),
        fun he => absurd (he ▸ (h.has hf).2) (not_has_new s' kind as')⟩
    · exact ⟨fun he => absurd (he ▸ (h.has hg).1) (not_has_new s kind as),
        fun he => absurd (he ▸ (h.has hg).2) (not_has_new s' kind as')⟩
    · exact ⟨fun _ => rfl, fun _ => rfl⟩
  frames {f f'} hf := by
    rcases hf with hf | ⟨rfl, rfl⟩
    · obtain ⟨x, x', hx, hx', hl⟩ := h.frames hf
      obtain ⟨has, has'⟩ := h.has hf
      refine ⟨x, x', ?_, ?_, hl.later (b.le_add _ _)⟩
      · rw [frame?_add_of_has s kind as has, hx]
      · rw [frame?_add_of_has s' kind as' has', hx']
    · exact ⟨_, _, frame?_add_self s kind as, frame?_add_self s' kind as',
        rfl, rfl, hs.imp (b.le_add _ _)⟩

theorem addChild (hf : b f f') (kind : FrameKind) :
    (s.addChild f kind).2.Like (b.add (s.addChild f kind).1 (s'.addChild f' kind).1)
      (s'.addChild f' kind).2 :=
  h.add kind (h.chain hf)

/-- One binding is put into frames that stand for each other. -/
theorem bindAt (hf : b f f') (name : String) (binding : Binding) :
    (s.bindAt f name binding).Like b (s'.bindAt f' name binding) where
  one := h.one
  frames {g g'} hg := by
    obtain ⟨x, x', hx, hx', hl⟩ := h.frames hg
    by_cases he : g = f
    · have he' : g' = f' := (h.one hg hf).1 he
      subst he he'
      exact ⟨_, _, frame?_bindAt_self name binding hx, frame?_bindAt_self name binding hx',
        { hl with bindings := by simp only [hl.bindings] }⟩
    · have he' : g' ≠ f' := fun he' => he ((h.one hg hf).2 he')
      refine ⟨x, x', ?_, ?_, hl⟩
      · rw [frame?_bindAt_other name binding he, hx]
      · rw [frame?_bindAt_other name binding he', hx']

end FrameStore.Like

/-- Changes of two stores end alike: with one error, or in stores that are alike. -/
inductive FrameStore.ChangedAlike (b : Pairing) :
    Except FrameError FrameStore → Except FrameError FrameStore → Prop where
  | error (e) : ChangedAlike b (.error e) (.error e)
  | ok {s s'} : s.Like b s' → ChangedAlike b (.ok s) (.ok s')

namespace FrameStore.Like

variable {b : Pairing} {s s' : FrameStore} (h : s.Like b s') {f f' : FrameId} (hf : b f f')

include h hf

theorem insert (name : String) (binding : Binding) :
    ChangedAlike b (s.insert f name binding) (s'.insert f' name binding) := by
  have bound : s.isBound f name = s'.isBound f' name := isBound_alike (h.lookup? hf name)
  simp only [FrameStore.insert, ← bound]
  split
  · exact .error _
  · exact .ok (h.bindAt hf name binding)

theorem assign (name : String) (v : Value) :
    ChangedAlike b (s.assign f name v) (s'.assign f' name v) := by
  have hl := h.lookup? hf name
  simp only [FrameStore.assign]
  generalize s.lookup? f name = l at hl
  generalize s'.lookup? f' name = l' at hl
  cases hl with
  | none => exact .error _
  | some hr => exact .ok (h.bindAt hr.1 name _)

end FrameStore.Like

/-! ## Worlds -/

/-- Two sessions have stored, decided and registered the same, and have made class
frames that stand for each other. -/
structure SessionState.Like {σ : Type} (b : Pairing) (a a' : SessionState σ) : Prop where
  classFrames : ∀ type, Option.Rel b (a.classFrames.get? type) (a'.classFrames.get? type)
  targets : a.targets = a'.targets
  statics : a.statics = a'.statics
  registry : a.registry = a'.registry
  tables : a.tables = a'.tables
  isOpen : a.isOpen = a'.isOpen

/-- Two objects hold the same, and are served by one session or other thing, or by
none. -/
structure ObjectCell.Like {σ : Type} (b : Pairing) (c c' : ObjectCell σ) : Prop where
  slots : c.slots = c'.slots
  link : Link.Tied b c.link c'.link

/-- The worlds are the same but for frames that are not paired, and but for the calls
to the host that were made when it was `past` and `past'`. The note of which calls failed
counts those calls too, and nothing reads it. -/
structure World.Like {σ : Type} (past past' : List HostCall) (b : Pairing) (w w' : World σ) :
    Prop where
  frames : w.frames.Like b w'.frames
  size : w.objects.size = w'.objects.size
  objects : ∀ i : Nat, Option.Rel (ObjectCell.Like b) w.objects[i]? w'.objects[i]?
  arrays : w.arrays = w'.arrays
  sessions : ∀ s, (w.session s).Like b (w'.session s)
  host : w.host = w'.host
  trace : ∃ calls, w.trace = calls ++ past ∧ w'.trace = calls ++ past'

theorem Link.Tied.imp {σ : Type} {R S : FrameId → FrameId → Prop} {l l' : Option (Link σ)}
    (h : Link.Tied R l l') (hi : ∀ f f', R f f' → S f f') : Link.Tied S l l' := by
  cases h with
  | none => exact .none
  | session s table hf => exact .session s table (hi _ _ hf)
  | foreign serve => exact .foreign serve

theorem SessionState.Like.later {σ : Type} {b b' : Pairing} {a a' : SessionState σ}
    (h : a.Like b a') (hb : b.Le b') : a.Like b' a' :=
  { h with classFrames := fun type => Option.Rel.imp hb (h.classFrames type) }

theorem ObjectCell.Like.later {σ : Type} {b b' : Pairing} {c c' : ObjectCell σ} (h : c.Like b c')
    (hb : b.Le b') : c.Like b' c' :=
  { h with link := h.link.imp hb }

section objects

variable {σ : Type} {b : Pairing} {w w' : World σ} {cells cells' : Array (ObjectCell σ)}

theorem World.link_alike (h : ∀ i : Nat, Option.Rel (ObjectCell.Like b) w.objects[i]? w'.objects[i]?)
    (o : ObjectRef) : Link.Tied b (w.link? o) (w'.link? o) := by
  have hc := h o.id
  simp only [World.link?]
  generalize w.objects[o.id]? = c at hc
  generalize w'.objects[o.id]? = c' at hc
  cases hc with
  | none => exact .none
  | some hc => exact hc.link

theorem World.slot_alike (h : ∀ i : Nat, Option.Rel (ObjectCell.Like b) w.objects[i]? w'.objects[i]?)
    (o : ObjectRef) (field : SymbolId) : w.loadSlot? o field = w'.loadSlot? o field := by
  have hc := h o.id
  simp only [World.loadSlot?]
  generalize w.objects[o.id]? = c at hc
  generalize w'.objects[o.id]? = c' at hc
  cases hc with
  | none => rfl
  | some hc => simp only [Option.bind_some, hc.slots]

/-- Objects are like themselves where the frames that they are bound to stand for themselves. -/
theorem World.objects_alike
    (h : ∀ {o s f table}, w.link? o = some (.session s f table) → b f f) (i : Nat) :
    Option.Rel (ObjectCell.Like b) w.objects[i]? w.objects[i]? := by
  cases hc : w.objects[i]? with
  | none => exact .none
  | some cell =>
    refine .some ⟨rfl, ?_⟩
    cases hl : cell.link with
    | none => exact .none
    | some l =>
      cases l with
      | foreign serve => exact .foreign serve
      | session s f table =>
        have linked : w.link? ⟨i, .primitive .object⟩ = some (.session s f table) := by
          simp only [World.link?, hc, Option.bind_some, hl]
        exact .session s table (h linked)

/-- One cell is changed in both. -/
theorem ObjectCell.Like.modify (h : ∀ i : Nat, Option.Rel (ObjectCell.Like b) cells[i]? cells'[i]?)
    {g g' : ObjectCell σ → ObjectCell σ} (hg : ∀ c c', c.Like b c' → (g c).Like b (g' c')) (i j : Nat) :
    Option.Rel (ObjectCell.Like b) (cells.modify i g)[j]? (cells'.modify i g')[j]? := by
  have hc := h j
  simp only [Array.getElem?_modify]
  generalize cells[j]? = c at hc
  generalize cells'[j]? = c' at hc
  cases hc with
  | none => split <;> exact .none
  | some hc =>
    split
    · exact .some (hg _ _ hc)
    · exact .some hc

/-- An object is made in both. -/
theorem ObjectCell.Like.push (h : ∀ i : Nat, Option.Rel (ObjectCell.Like b) cells[i]? cells'[i]?)
    (size : cells.size = cells'.size) (j : Nat) :
    Option.Rel (ObjectCell.Like b) (cells.push ⟨.empty, none⟩)[j]? (cells'.push ⟨.empty, none⟩)[j]? := by
  simp only [Array.getElem?_push, size]
  split
  · exact .some ⟨rfl, .none⟩
  · exact h j

end objects

namespace World.Like

variable {σ : Type} {past past' : List HostCall} {b b' : Pairing} {w w' : World σ}
  (h : w.Like past past' b w')

include h

theorem link (o : ObjectRef) : Link.Tied b (w.link? o) (w'.link? o) := link_alike h.objects o

theorem slot (o : ObjectRef) (field : SymbolId) : w.loadSlot? o field = w'.loadSlot? o field :=
  slot_alike h.objects o field

/-- Frames were made or bound in. -/
theorem withFrames {s s' : FrameStore} (hs : s.Like b' s') (hb : b.Le b') :
    World.Like past past' b' { w with frames := s } { w' with frames := s' } where
  frames := hs
  size := h.size
  objects i := Option.Rel.imp (fun _ _ hc => hc.later hb) (h.objects i)
  arrays := h.arrays
  sessions s := (h.sessions s).later hb
  host := h.host
  trace := h.trace

theorem mapSession (s : SessionId) (g g' : SessionState σ → SessionState σ)
    (like : (g (w.session s)).Like b (g' (w'.session s))) :
    World.Like past past' b (w.mapSession s g) (w'.mapSession s g') :=
  { h with
    sessions := fun s' => by
      rw [session_mapSession, session_mapSession]
      split
      · exact like
      · exact h.sessions s' }

theorem modifyObject (i : Nat) {g g' : ObjectCell σ → ObjectCell σ}
    (hg : ∀ c c', c.Like b c' → (g c).Like b (g' c')) :
    World.Like past past' b { w with objects := w.objects.modify i g }
      { w' with objects := w'.objects.modify i g' } :=
  { h with
    size := by simpa using h.size
    sessions := h.sessions
    objects := ObjectCell.Like.modify h.objects hg i }

theorem newObject (type : ClosedType) :
    (w.newObject type).1 = (w'.newObject type).1 ∧
      World.Like past past' b (w.newObject type).2 (w'.newObject type).2 := by
  refine ⟨by simp only [World.newObject, h.size], ?_⟩
  exact
  { h with
    size := by simp only [World.newObject, Array.size_push, h.size]
    sessions := h.sessions
    objects := ObjectCell.Like.push h.objects h.size }

theorem withArrays (arrays : Array ArrayCell) :
    World.Like past past' b { w with arrays := arrays } { w' with arrays := arrays } :=
  { h with arrays := rfl, sessions := h.sessions }

end World.Like

namespace World

variable {σ : Type} {past past' : List HostCall}

/-- Two runs over worlds that differ in their frames. -/
def likenessTerms (σ : Type) (past past' : List HostCall) : Terms (World σ) where
  Bond := Pairing
  ties b w w' := w.Like past past' b w'
  le := Pairing.Le
  lax := False
  lax' := False
  refl _ _ _ := id
  trans h h' f f' hf := h' f f' (h f f' hf)

section steps

open Run (AgreesBy Agrees)

theorem classFrame_like (b : Pairing) (s : SessionId) (type : ClosedType) :
    AgreesBy (likenessTerms σ past past') b (fun b f f' => b f f') (World.classFrame s type)
      (World.classFrame s type) := by
  intro b₁ w w' _ h
  have hc := (h.sessions s).classFrames type
  simp only [World.classFrame, Run.modifyGet]
  cases hf : (w.session s).classFrames.get? type <;>
    cases hf' : (w'.session s).classFrames.get? type <;> rw [hf, hf'] at hc
  case some.some =>
    cases hc with
    | some hr => exact .ok (Terms.refl _ b₁) h hr
  case none.some | some.none => cases hc
  case none.none =>
    have hs := h.frames.add (.ofClass type) (.nil : List.Forall₂ b₁ [] [])
    have framed := h.withFrames hs (b₁.le_add _ _)
    have made := framed.mapSession s
      (fun state => { state with
        classFrames := state.classFrames.insert type (w.frames.addClass type).1 })
      (fun state => { state with
        classFrames := state.classFrames.insert type (w'.frames.addClass type).1 })
      { framed.sessions s with classFrames := fun type' => ?_ }
    · exact .ok (b₁.le_add _ _) made (.inr ⟨rfl, rfl⟩)
    · by_cases ht : type = type'
      · subst ht
        rw [Table.get?_insert_self, Table.get?_insert_self]
        exact .some (.inr ⟨rfl, rfl⟩)
      · rw [Table.get?_insert_other _ ht, Table.get?_insert_other _ ht]
        exact (framed.sessions s).classFrames type'

theorem childFrame_like {b : Pairing} {f f' : FrameId} (kind : FrameKind) (hf : b f f') :
    AgreesBy (likenessTerms σ past past') b (fun b f f' => b f f') (World.childFrame f kind)
      (World.childFrame f' kind) := by
  intro b₁ w w' hb h
  exact .ok (b₁.le_add _ _) (h.withFrames (h.frames.addChild (hb _ _ hf) kind) (b₁.le_add _ _))
    (.inr ⟨rfl, rfl⟩)

theorem changeFrames_like {b : Pairing} {name : String}
    {change change' : FrameStore → Except FrameError FrameStore}
    (changed : ∀ b₁ s s', b.Le b₁ → s.Like b₁ s' →
      FrameStore.ChangedAlike b₁ (change s) (change' s')) :
    AgreesBy (likenessTerms σ past past') b (fun _ => Eq) (World.changeFrames name change)
      (World.changeFrames name change') := by
  intro b₁ w w' hb h
  have hc := changed b₁ _ _ hb h.frames
  simp only [World.changeFrames]
  generalize change w.frames = x at hc
  generalize change' w'.frames = x' at hc
  cases hc with
  | error e => exact .error (Terms.refl _ b₁) h
  | ok hs => exact .ok (Terms.refl _ b₁) (h.withFrames hs fun _ _ => id) rfl

theorem target_like (c : Context σ) (member : SymbolId) :
    Agrees (likenessTerms σ past past') (c.target member) (c.target member) := by
  have cached : Agrees (likenessTerms σ past past')
      (Run.gets fun w => (w.session c.session).targets.get? member)
      (Run.gets fun w => (w.session c.session).targets.get? member) :=
    .gets fun _ _ _ h => by rw [(h.sessions c.session).targets]
  refine .bind cached fun found => ?_
  cases found with
  | some t => exact .pure t
  | none =>
    refine .bind (.ofExcept _) fun t => .bind (.modify fun b w w' h => ?_) fun _ => .pure t
    have hs := h.sessions c.session
    exact ⟨b, Terms.refl _ b, h.mapSession c.session _ _
      { hs with targets := by simp only [hs.targets] }⟩

theorem register_like (s : SessionId) (entry : RegistryEntry) :
    Agrees (likenessTerms σ past past') (World.register s entry) (World.register s entry) := by
  refine .of_ends fun b w w' h => ?_
  have hs := h.sessions s
  simp only [World.register, Run.modifyGet, hs.registry]
  exact .ok (Terms.refl _ b) (h.mapSession s _ _ { hs with registry := rfl }) rfl

theorem bind_like {b : Pairing} {f f' : FrameId} (o : ObjectRef) (s : SessionId)
    (table : MemberTable) (hf : b f f') : AgreesBy (likenessTerms σ past past') b (fun _ => Eq)
      (World.bind o (.session s f table)) (World.bind o (.session s f' table)) := by
  intro b₁ w w' hb h
  have bound : w.isBound o = w'.isBound o := by
    have hl := h.link o
    simp only [World.isBound]
    generalize w.link? o = l at hl
    generalize w'.link? o = l' at hl
    cases hl <;> rfl
  simp only [World.bind, ← bound]
  split
  · exact .error (Terms.refl _ b₁) h
  · exact .ok (Terms.refl _ b₁) (h.modifyObject o.id fun c c' hc =>
      { hc with link := .session s table (hb _ _ hf) }) rfl

theorem setElement_like (a : ArrayRef) (indices : List Int) (v : Value) :
    Agrees (likenessTerms σ past past') (World.setElement a indices v)
      (World.setElement a indices v) := by
  refine .of_ends fun b w w' h => ?_
  simp only [World.setElement, World.cell?, ← h.arrays]
  split
  · split
    · exact .ok (Terms.refl _ b) (h.withArrays _) rfl
    · exact .error (Terms.refl _ b) h
  · exact .ok (Terms.refl _ b) h rfl

end steps

/-- Runs over worlds that differ in their frames only. -/
def likeness (host : Host σ) (past past' : List HostCall) : WorldTerms host where
  toTerms := likenessTerms σ past past'
  sights b f f' := b f f'
  frames b f f' := b f f'
  roots b f f' := b f f'
  holders b _ f f' := b f f'
  seen h := h
  holds h := h
  laterSights hb hf := hb _ _ hf
  later hb hf := hb _ _ hf
  laterRoots hb hf := hb _ _ hf
  laterHolders hb hf := hb _ _ hf
  names h hf name := by simp only [World.readName, h.frames.read hf]
  arguments h hf := by
    funext p
    have hs := World.Like.frames h
    simp only [FrameStore.genericArgument, hs.argumentsOf? p.level (hs.chain hf)]
  instances h hf := by
    have hs := World.Like.frames h
    simp only [FrameStore.currentInstance?, hs.instanceOf? (hs.chain hf)]
  links h o := h.link o
  slots h := h.slot
  statics h s place := by rw [(h.sessions s).statics]
  entries h s id := by rw [(h.sessions s).registry]
  tables h s type := by rw [(h.sessions s).tables]
  isOpen h s := (h.sessions s).isOpen
  cells h a := by simp only [World.cell?, h.arrays]
  state h := h.host
  classFrame b s type := classFrame_like b s type
  methodFrame m typeArgs hf := childFrame_like _ hf
  instanceFrame {b _ _} o hf := fun b₁ w w' hb h =>
    (childFrame_like (.ofInstance (some o)) hf b₁ w w' hb h).imp fun _ _ _ hf => ⟨hf, hf⟩
  scopeFrame hf := childFrame_like _ hf
  declare name hf := changeFrames_like fun _ _ _ hb hs => hs.insert (hb _ _ hf) name .unassigned
  define name v hf := changeFrames_like fun _ _ _ hb hs => hs.insert (hb _ _ hf) name (.assigned v)
  assign name v hf := changeFrames_like fun _ _ _ hb hs => hs.assign (hb _ _ hf) name v
  target c member _ := target_like c member
  register := register_like
  keepTable {b _ _} s type table h _ _ := by
    have hs := h.sessions s
    exact ⟨b, Terms.refl _ b, h.mapSession s _ _ { hs with tables := by simp only [hs.tables] }⟩
  storeStatic {b _ _} s place v h := by
    have hs := h.sessions s
    exact ⟨b, Terms.refl _ b, h.mapSession s _ _ { hs with statics := by simp only [hs.statics] }⟩
  storeSlot {b _ _} o field v h :=
    ⟨b, Terms.refl _ b, h.modifyObject o.id fun c c' hc =>
      { hc with slots := by simp only [hc.slots] }⟩
  bindLink o s _ table h hf _ := (bind_like o s table hf).apply h
  newObject type := .of_ends fun b w w' h => by
    obtain ⟨ho, hw⟩ := h.newObject type
    exact .ok (Terms.refl _ b) hw ho
  newArray element cell := .of_ends fun b w w' h => by
    simp only [Run.modifyGet, World.newArray, ← h.arrays]
    exact .ok (Terms.refl _ b) (h.withArrays _) rfl
  setElement := setElement_like
  record {b _ _} call h := by
    obtain ⟨calls, hl, hr⟩ := h.trace
    exact ⟨b, Terms.refl _ b, { h with
      trace := ⟨call :: calls, congrArg (call :: ·) hl, congrArg (call :: ·) hr⟩
      sessions := h.sessions }⟩
  write {b _ _} state h :=
    ⟨b, Terms.refl _ b, { h with host := rfl, sessions := h.sessions }⟩
  noteFailure {b _ _} _ _ h := ⟨b, Terms.refl _ b, { h with sessions := h.sessions }⟩

end World

end OpTree
