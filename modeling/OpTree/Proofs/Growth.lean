/-
What a run never takes back. Frames stay where they are, of the kind they were
made with and on top of the same frames; what a session has decided, registered
or put into a table stays decided, registered and in the table; an object that
has a link keeps it. `World.Grows` says this of a world and a later one, and
`World.growing` of every step that the library takes on a world. Bindings, slots,
static storage, elements of arrays and the host's state are not spoken of: these
do change.

As a run is held against one with a greater bound on its steps, this comes with the
answer's being the same: an answer that some bound was enough for is the answer under
every greater bound (`evalWithin_mono`), and every run leaves its activation's frames and
enclosing constructs as they were, also when it fails (`evalWithin_grows`).
-/
import OpTree.Proofs.Engine
import OpTree.Proofs.Frames

namespace OpTree

/-- The session has kept what it had decided, registered and put into tables,
and what it has decided since is what `host` says. -/
structure SessionState.Extends {σ : Type} (host : Host σ) (a b : SessionState σ) : Prop where
  classFrames : ∀ {type f}, a.classFrames.get? type = some f → b.classFrames.get? type = some f
  targets : ∀ {m t}, a.targets.get? m = some t → b.targets.get? m = some t
  decided : ∀ {m t}, b.targets.get? m = some t → a.targets.get? m = some t ∨ host.decide m = .ok t
  registry : ∀ {id e}, a.registry.get? id = some e → b.registry.get? id = some e
  tables : ∀ {type t}, a.tables.get? type = some t → b.tables.get? type = some t
  isOpen : b.isOpen = a.isOpen

namespace SessionState.Extends

variable {σ : Type} {host : Host σ} {a b c : SessionState σ}

theorem refl (a : SessionState σ) : a.Extends host a where
  classFrames h := h
  targets h := h
  decided h := .inl h
  registry h := h
  tables h := h
  isOpen := rfl

theorem trans (h : a.Extends host b) (h' : b.Extends host c) : a.Extends host c where
  classFrames hf := h'.classFrames (h.classFrames hf)
  targets ht := h'.targets (h.targets ht)
  decided ht := by
    rcases h'.decided ht with ht | ht
    · exact h.decided ht
    · exact .inr ht
  registry he := h'.registry (h.registry he)
  tables ht := h'.tables (h.tables ht)
  isOpen := h'.isOpen.trans h.isOpen

/-- A class frame was made for a type that had none. -/
theorem classFrame {type : ClosedType} (h : a.classFrames.get? type = none) (f : FrameId) :
    a.Extends host { a with classFrames := a.classFrames.insert type f } :=
  { refl a with
    classFrames := fun {type' f'} hf' => by
      have hne : type ≠ type' := by rintro rfl; cases h.symm.trans hf'
      rw [Table.get?_insert_other _ hne]
      exact hf' }

/-- A member was decided on that was not before. -/
theorem target {m : SymbolId} {t : Target σ} (h : a.targets.get? m = none)
    (ht : host.decide m = .ok t) : a.Extends host { a with targets := a.targets.insert m t } where
  classFrames h := h
  targets {m' t'} hm' := by
    have hne : m ≠ m' := by rintro rfl; cases h.symm.trans hm'
    rw [Table.get?_insert_other _ hne]
    exact hm'
  decided {m' t'} hm' := by
    by_cases hne : m = m'
    · subst hne
      rw [Table.get?_insert_self] at hm'
      cases hm'
      exact .inr ht
    · rw [Table.get?_insert_other _ hne] at hm'
      exact .inl hm'
  registry h := h
  tables h := h
  isOpen := rfl

/-- A table was made for a type that had none. -/
theorem table {type : ClosedType} (h : a.tables.get? type = none) (t : MemberTable) :
    a.Extends host { a with tables := a.tables.insert type t } :=
  { refl a with
    tables := fun {type' t'} ht' => by
      have hne : type ≠ type' := by rintro rfl; cases h.symm.trans ht'
      rw [Table.get?_insert_other _ hne]
      exact ht' }

/-- A body was registered. -/
theorem register (entry : RegistryEntry) :
    a.Extends host { a with registry := (a.registry.register entry).2 } :=
  { refl a with
    registry := fun {id e} he => by
      simp only [Registry.get?, Registry.register] at he ⊢
      obtain ⟨hlt, -⟩ := Array.getElem?_eq_some_iff.1 he
      rw [Array.getElem?_push_lt hlt, ← Array.getElem?_eq_getElem hlt]
      exact he }

theorem statics (t : Table (ClosedType × SymbolId) Value) :
    a.Extends host { a with statics := t } :=
  { refl a with }

end SessionState.Extends

/-- The second world is a later one: nothing that lasts was taken back. -/
structure World.Grows {σ : Type} (host : Host σ) (w w' : World σ) : Prop where
  frames : w.frames.Extends w'.frames
  sessions : ∀ s, (w.session s).Extends host (w'.session s)
  objects : w.objects.size ≤ w'.objects.size
  links : ∀ {o l}, w.link? o = some l → w'.link? o = some l

namespace World

variable {σ : Type} {host : Host σ} {w w' w'' : World σ}

namespace Grows

theorem refl (w : World σ) : w.Grows host w where
  frames := .refl _
  sessions _ := .refl _
  objects := Nat.le_refl _
  links h := h

theorem trans (h : w.Grows host w') (h' : w'.Grows host w'') : w.Grows host w'' where
  frames := h.frames.trans h'.frames
  sessions s := (h.sessions s).trans (h'.sessions s)
  objects := Nat.le_trans h.objects h'.objects
  links hl := h'.links (h.links hl)

/-- Only frames were added or bound in. -/
theorem of_frames {frames : FrameStore} (h : w.frames.Extends frames) :
    w.Grows host { w with frames := frames } where
  frames := h
  sessions _ := .refl _
  objects := Nat.le_refl _
  links h := h

theorem of_arrays (arrays : Array ArrayCell) : w.Grows host { w with arrays := arrays } where
  frames := .refl _
  sessions _ := .refl _
  objects := Nat.le_refl _
  links h := h

theorem of_host (state : σ) : w.Grows host { w with host := state } where
  frames := .refl _
  sessions _ := .refl _
  objects := Nat.le_refl _
  links h := h

theorem record (call : HostCall) : w.Grows host (w.record call) where
  frames := .refl _
  sessions _ := .refl _
  objects := Nat.le_refl _
  links h := h

theorem noteFailure (call : HostCall) (e : EvalError) : w.Grows host (w.noteFailure call e) where
  frames := .refl _
  sessions _ := .refl _
  objects := Nat.le_refl _
  links h := h

end Grows

theorem Grows.mapSession {s : SessionId} {f : SessionState σ → SessionState σ}
    (h : (w.session s).Extends host (f (w.session s))) : w.Grows host (w.mapSession s f) where
  frames := .refl _
  sessions s' := by
    rw [session_mapSession]
    split
    · rename_i hs; subst hs; exact h
    · exact .refl _
  objects := Nat.le_refl _
  links h := h

theorem Grows.newObject (type : ClosedType) : w.Grows host (w.newObject type).2 where
  frames := .refl _
  sessions _ := .refl _
  objects := by simp [World.newObject]
  links {o l} h := by
    simp only [link?, World.newObject] at h ⊢
    obtain ⟨cell, hc, hl⟩ := Option.bind_eq_some_iff.1 h
    obtain ⟨hlt, -⟩ := Array.getElem?_eq_some_iff.1 hc
    rw [Array.getElem?_push_lt hlt, ← Array.getElem?_eq_getElem hlt, hc]
    exact hl

/-- A cell of an object was changed, and its link only if there was none. -/
theorem Grows.modifyObject {i : Nat} {f : ObjectCell σ → ObjectCell σ}
    (h : ∀ cell l, w.objects[i]? = some cell → cell.link = some l → (f cell).link = some l) :
    w.Grows host { w with objects := w.objects.modify i f } where
  frames := .refl _
  sessions _ := .refl _
  objects := by simp
  links {o l} hl := by
    simp only [link?, Array.getElem?_modify] at hl ⊢
    obtain ⟨cell, hc, hl⟩ := Option.bind_eq_some_iff.1 hl
    by_cases hi : i = o.id
    · subst hi; simp [hc, h cell l hc hl]
    · simp [hi, hc, hl]

theorem Grows.storeSlot (o : ObjectRef) (field : SymbolId) (v : Value) :
    w.Grows host (w.storeSlot o field v) :=
  .modifyObject fun _ _ _ h => h

end World

namespace Context

variable {σ : Type} (c : Context σ) {m : SymbolId} {w : World σ}

theorem target_of_cached {t : Target σ} (h : (w.session c.session).targets.get? m = some t) :
    c.target m w = (.ok t, w) := by
  simp [Context.target, h]

theorem target_of_decided {t : Target σ} (h : (w.session c.session).targets.get? m = none)
    (hd : c.host.decide m = .ok t) :
    c.target m w = (.ok t, w.mapSession c.session fun state =>
      { state with targets := state.targets.insert m t }) := by
  simp [Context.target, h, Run.liftM_except, hd]

theorem target_of_error {e : EvalError} (h : (w.session c.session).targets.get? m = none)
    (hd : c.host.decide m = .error e) : c.target m w = (.error (.failed e), w) := by
  simp [Context.target, h, Run.liftM_except, hd]

theorem target_grows (m : SymbolId) (w : World σ) : w.Grows c.host (c.target m w).2 := by
  cases hm : (w.session c.session).targets.get? m with
  | some t => rw [c.target_of_cached hm]; exact .refl w
  | none =>
    cases hd : c.host.decide m with
    | error e => rw [c.target_of_error hm hd]; exact .refl w
    | ok t =>
      rw [c.target_of_decided hm hd]
      exact .mapSession (f := fun state => { state with targets := state.targets.insert m t })
        (.target hm hd)

end Context

namespace World

variable {σ : Type} {host : Host σ}

theorem classFrame_grows (s : SessionId) (type : ClosedType) (w : World σ) :
    w.Grows host (World.classFrame s type w).2 := by
  simp only [World.classFrame, Run.modifyGet]
  cases h : (w.session s).classFrames.get? type with
  | some f => exact .refl w
  | none =>
    have hf : w.Grows host { w with frames := (w.frames.addClass type).2 } :=
      .of_frames (FrameStore.extends_add w.frames (.ofClass type) [])
    exact hf.trans (World.Grows.mapSession (f := fun state =>
      { state with classFrames := state.classFrames.insert type ⟨w.frames.frames.size⟩ })
      (.classFrame h _))

theorem childFrame_grows (f : FrameId) (kind : FrameKind) (w : World σ) :
    w.Grows host (World.childFrame f kind w).2 :=
  .of_frames (FrameStore.extends_add w.frames kind _)

theorem changeFrames_grows {name : String} {change : FrameStore → Except FrameError FrameStore}
    (h : ∀ s s', change s = .ok s' → s.Extends s') (w : World σ) :
    w.Grows host (World.changeFrames name change w).2 := by
  simp only [World.changeFrames]
  split
  · exact .of_frames (h _ _ ‹_›)
  · exact .refl w

theorem setElement_grows (a : ArrayRef) (indices : List Int) (v : Value) (w : World σ) :
    w.Grows host (World.setElement a indices v w).2 := by
  simp only [World.setElement]
  split
  · split
    · exact .of_arrays _
    · exact .refl w
  · exact .refl w

theorem bind_grows (o : ObjectRef) (link : Link σ) (w : World σ) :
    w.Grows host (World.bind o link w).2 := by
  simp only [World.bind]
  split
  · exact .refl w
  · rename_i hb
    refine .modifyObject fun cell l hc hl => absurd ?_ hb
    simp [World.isBound, World.link?, hc, hl]

theorem register_grows (s : SessionId) (entry : RegistryEntry) (w : World σ) :
    w.Grows host (World.register s entry w).2 :=
  .mapSession (f := fun state =>
    { state with registry := ((w.session s).registry.register entry).2 }) (.register entry)

/-- Runs over worlds of which one may want for steps, and which take nothing
back. -/
def growing (host : Host σ) (lax lax' : Prop) : WorldTerms host where
  toTerms := .keeping (World.Grows host) lax lax' .refl .trans
  sights _ f f' := f = f'
  frames _ f f' := f = f'
  roots _ f f' := f = f'
  holders _ _ f f' := f = f'
  seen h := h
  holds h := h
  laterSights _ h := h
  later _ h := h
  laterRoots _ h := h
  laterHolders _ h := h
  names h hf name := by obtain ⟨rfl, rfl⟩ := h; rw [hf]
  arguments h hf := by obtain ⟨rfl, rfl⟩ := h; rw [hf]
  instances h hf := by obtain ⟨rfl, rfl⟩ := h; rw [hf]
  links h o := by
    obtain ⟨rfl, rfl⟩ := h
    exact .refl (fun _ => rfl) _
  slots h _ _ := by obtain ⟨rfl, rfl⟩ := h; rfl
  statics h _ _ := by obtain ⟨rfl, rfl⟩ := h; rfl
  entries h _ _ := by obtain ⟨rfl, rfl⟩ := h; rfl
  tables h _ _ := by obtain ⟨rfl, rfl⟩ := h; rfl
  isOpen h _ := by obtain ⟨rfl, rfl⟩ := h; rfl
  cells h _ := by obtain ⟨rfl, rfl⟩ := h; rfl
  state h := by obtain ⟨rfl, rfl⟩ := h; rfl
  classFrame b s type := Run.agrees_keeping (classFrame_grows s type) b
  methodFrame m typeArgs hf := hf ▸ Run.agrees_keeping (childFrame_grows _ (.ofMethod m typeArgs)) _
  instanceFrame o hf := Run.AgreesBy.imp
    (hf ▸ Run.agrees_keeping (childFrame_grows _ (.ofInstance (some o))) _) fun _ _ _ made => ⟨made, made⟩
  scopeFrame hf := hf ▸ Run.agrees_keeping (childFrame_grows _ .scope) _
  declare name hf := hf ▸ Run.agrees_keeping (changeFrames_grows fun _ _ => FrameStore.extends_insert) _
  define name v hf := hf ▸ Run.agrees_keeping (changeFrames_grows fun _ _ => FrameStore.extends_insert) _
  assign name v hf := hf ▸ Run.agrees_keeping (changeFrames_grows fun _ _ => FrameStore.extends_assign) _
  target c m hc := hc ▸ Run.agrees_keeping (c.target_grows m)
  register s entry := Run.agrees_keeping (register_grows s entry)
  keepTable s type table h missing _ :=
    Run.tied_keeping (fun w : World σ => w.keepTable s type table) h (.mapSession (.table missing table))
  storeStatic s place v h :=
    Run.tied_keeping (fun w : World σ => w.storeStatic s place v) h (.mapSession (.statics _))
  storeSlot o field v h :=
    Run.tied_keeping (fun w : World σ => w.storeSlot o field v) h (.storeSlot o field v)
  bindLink o s _ table h hf _ := hf ▸ (Run.agrees_keeping (bind_grows o _)).apply h
  newObject type := Run.agrees_keeping fun _ => .newObject type
  newArray element cell := Run.agrees_keeping fun _ => .of_arrays _
  setElement a indices v := Run.agrees_keeping (setElement_grows a indices v)
  record call h := Run.tied_keeping (fun w : World σ => w.record call) h (.record call)
  write state h := Run.tied_keeping (fun w : World σ => { w with host := state }) h (.of_host state)
  noteFailure call e h :=
    Run.tied_keeping (fun w : World σ => w.noteFailure call e) h (.noteFailure call e)

end World

/-- An activation is tied to itself. -/
theorem NodeTerms.Tied.itself {σ : Type} {host : Host σ} {lax lax' : Prop}
    {T : NodeTerms (World.growing host lax lax')} {w : World σ} {a : Activation}
    (h : T.start w a.frame a.frame)
    (alone : T.alone → a.instanceFrame = none := by exact False.elim) : T.Tied w a a where
  frame := h
  self _ := by
    cases a.instanceFrame with
    | none => exact .none
    | some f => exact .some rfl
  alike := ⟨rfl, rfl, rfl, rfl, rfl, rfl⟩
  alone h := ⟨alone h, alone h⟩

namespace Run

variable {σ α : Type} {host : Host σ} {lax lax' : Prop}

/-- From one world, runs that agree end in one way and in a later world. -/
theorem AgreesBy.keepingWorld {m m' : Run (World σ) α} {w : World σ}
    (h : AgreesBy (World.growing host lax lax').toTerms w (fun _ => Eq) m m') :
    m w = m' w ∧ w.Grows host (m w).2 ∨ lax ∧ (m w).1 = .error .exhausted ∨
      lax' ∧ (m' w).1 = .error .exhausted := by
  have h : AgreesBy (.keeping (World.Grows host) lax lax' .refl .trans) w (fun _ => Eq) m m' := h
  exact h.keeping

theorem AgreesBy.grows {w w' : World σ}
    {Q : (World.growing host False False).Bond → α → α → Prop} {m m' : Run (World σ) α}
    (h : AgreesBy (World.growing host False False).toTerms w Q m m') {r : Except Stop α}
    (hm : m w = (r, w')) : w.Grows host w' := by
  have he := h w w w (.refl w) ⟨rfl, rfl⟩
  rw [hm] at he
  generalize m' w = x' at he
  cases he with
  | short hl => exact hl.elim
  | short' hl => exact hl.elim
  | ok hk ht _ =>
    obtain ⟨rfl, -⟩ := ht
    exact hk
  | error hk ht =>
    obtain ⟨rfl, -⟩ := ht
    exact hk

theorem Agrees.grows {m m' : Run (World σ) α}
    (h : Agrees (World.growing host False False).toTerms m m') {r : Except Stop α} {w w' : World σ}
    (hm : m w = (r, w')) : w.Grows host w' :=
  (h w).grows hm

/-- From one machine, runs that agree end in one way: in a later world, with the
enclosing constructs as they were. -/
theorem Agrees.keepingMachine {T : NodeTerms (World.growing host lax lax')}
    {m m' : Run (Machine σ) α} (h : Agrees T.machine m m') {s : Machine σ}
    (hs : T.start s.world s.activation.frame s.activation.frame)
    (alone : T.alone → s.activation.instanceFrame = none := by exact False.elim) :
    m s = m' s ∧ s.world.Grows host (m s).2.world ∧ s.activation.Rests (m s).2.activation ∧
        (T.quiet → s.activation.SameSignals (m s).2.activation) ∨
      lax ∧ (m s).1 = .error .exhausted ∨ lax' ∧ (m' s).1 = .error .exhausted := by
  have tied : T.machine.ties ⟨s.world, s.activation, s.activation⟩ s s :=
    ⟨⟨rfl, rfl⟩, .itself hs alone, rfl, rfl⟩
  have same {b : T.machine.Bond} {t t' : Machine σ}
      (hle : T.machine.le ⟨s.world, s.activation, s.activation⟩ b) (ht : T.machine.ties b t t') :
      t = t' ∧ s.world.Grows host t.world ∧ s.activation.Rests t.activation ∧
        (T.quiet → s.activation.SameSignals t.activation) := by
    obtain ⟨⟨first, second⟩, hs⟩ := ht
    obtain rfl := NodeTerms.machine_eq hle (first.symm.trans second) hs
    obtain ⟨hg, hr, -, hq⟩ := hle
    rw [← first, ← hs.2.1]
    exact ⟨rfl, hg, hr, hq⟩
  have he := h.apply tied
  generalize m s = x at he
  generalize m' s = x' at he
  cases he with
  | short hl => exact .inr (.inl ⟨hl, rfl⟩)
  | short' hl => exact .inr (.inr ⟨hl, rfl⟩)
  | ok hle ht hq =>
    cases hq
    obtain ⟨rfl, hk⟩ := same hle ht
    exact .inl ⟨rfl, hk⟩
  | error hle ht =>
    obtain ⟨rfl, hk⟩ := same hle ht
    exact .inl ⟨rfl, hk⟩

theorem AgreesBy.more {m m' : Run (World σ) α} {w w' : World σ} {r : Except Stop α}
    (h : AgreesBy (World.growing host True False).toTerms w (fun _ => Eq) m m')
    (hm : m w = (r, w')) (hr : r ≠ .error .exhausted) : m' w = (r, w') := by
  rcases h.keepingWorld with ⟨he, -⟩ | ⟨-, hx⟩ | ⟨hl, -⟩
  · exact he.symm.trans hm
  · exact absurd ((congrArg Prod.fst hm).symm.trans hx) hr
  · exact hl.elim

theorem Agrees.more {T : NodeTerms (World.growing host True False)} {m m' : Run (Machine σ) α}
    (h : Agrees T.machine m m') {s t : Machine σ}
    (hs : T.start s.world s.activation.frame s.activation.frame) {r : Except Stop α}
    (hm : m s = (r, t)) (hr : r ≠ .error .exhausted)
    (alone : T.alone → s.activation.instanceFrame = none := by exact False.elim) :
    m' s = (r, t) := by
  rcases h.keepingMachine hs alone with ⟨he, -⟩ | ⟨-, hx⟩ | ⟨hl, -⟩
  · exact he.symm.trans hm
  · exact absurd ((congrArg Prod.fst hm).symm.trans hx) hr
  · exact hl.elim

end Run

variable {σ : Type} (host : Host σ)

theorem Context.within_more {n n' : Nat} (hn : n ≤ n') (session : SessionId) :
    (Context.within host n session).Agrees (World.growing host True False)
      (Context.within host n' session) :=
  Context.within_agrees _ n n' (.inr (.inl ⟨trivial, hn⟩)) session

theorem Context.within_grows (n : Nat) (session : SessionId) :
    (Context.within host n session).Agrees (World.growing host False False)
      (Context.within host n session) :=
  Context.within_self _ n session

theorem evalWithin_mono {n n' : Nat} (hn : n ≤ n') {session : SessionId} {x : Node}
    {s t : Machine σ} {r : Except Stop Value} (h : evalWithin host n session x s = (r, t))
    (hr : r ≠ .error .exhausted) : evalWithin host n' session x s = (r, t) := by
  have agrees := (Context.within_more host hn session).eval x
  exact agrees.more rfl h hr

/-- However a run ends, the world has only grown, and the frames and enclosing
constructs of the activation are what they were. -/
theorem evalWithin_grows (n : Nat) (session : SessionId) (x : Node) (s : Machine σ) :
    s.world.Grows host (evalWithin host n session x s).2.world ∧
      s.activation.Rests (evalWithin host n session x s).2.activation := by
  have agrees := (Context.within_grows host n session).eval x
  rcases agrees.keepingMachine (s := s) rfl with ⟨-, hg, hr, -⟩ | ⟨hl, -⟩ | ⟨hl, -⟩
  · exact ⟨hg, hr⟩
  · exact hl.elim
  · exact hl.elim

end OpTree
