/-
How much it matters when a member is decided on. A session decides how a member is
reached the first time that it is reached, and records the decision; the decision is
the host's alone, so worlds that differ in what has been recorded run alike
(`World.deciding`), as long as what is recorded is what the host says
(`World.Decided`).

Virtual calls and calls from outside differ in just this. Both run the body that the
table of the receiver has for the member; a virtual call decides on the named member
first, and a call from outside never does. So the two come to the same where the named
member can be decided on, and where it cannot, as with a loaded member without a handle,
the virtual call fails with the decision's error before the table is looked at
(`virtualCall_dispatches`).
-/
import OpTree.Proofs.Registration
import OpTree.Scripted

namespace OpTree

/-- Two states of a session that differ in the recorded decisions only. -/
structure SessionState.SameButTargets {σ : Type} (a a' : SessionState σ) : Prop where
  classFrames : a.classFrames = a'.classFrames
  statics : a.statics = a'.statics
  registry : a.registry = a'.registry
  tables : a.tables = a'.tables
  isOpen : a.isOpen = a'.isOpen

namespace World

variable {σ : Type} {host : Host σ}

/-- Two worlds that differ in the recorded decisions only. -/
structure SameButTargets (w w' : World σ) : Prop where
  objects : w.objects = w'.objects
  arrays : w.arrays = w'.arrays
  frames : w.frames = w'.frames
  sessions : ∀ s, (w.session s).SameButTargets (w'.session s)
  host : w.host = w'.host
  trace : w.trace = w'.trace
  failures : w.failures = w'.failures

/-- What has been recorded is what the host says. -/
def Decided (host : Host σ) (w : World σ) : Prop :=
  ∀ s {m t}, (w.session s).targets.get? m = some t → host.decide m = .ok t

theorem Decided.initial (state : σ) : (World.initial state).Decided host := fun _ _ _ h => by cases h

theorem Decided.grows {w w' : World σ} (h : w.Decided host) (hg : w.Grows host w') :
    w'.Decided host := by
  intro s m t ht
  rcases (hg.sessions s).decided ht with ht | ht
  · exact h s ht
  · exact ht

namespace SameButTargets

variable {w w' w'' : World σ} (h : w.SameButTargets w')

theorem refl (w : World σ) : w.SameButTargets w where
  objects := rfl
  arrays := rfl
  frames := rfl
  sessions _ := ⟨rfl, rfl, rfl, rfl, rfl⟩
  host := rfl
  trace := rfl
  failures := rfl

include h

theorem symm : w'.SameButTargets w where
  objects := h.objects.symm
  arrays := h.arrays.symm
  frames := h.frames.symm
  sessions s := by
    obtain ⟨cf, st, rg, tb, op⟩ := h.sessions s
    exact ⟨cf.symm, st.symm, rg.symm, tb.symm, op.symm⟩
  host := h.host.symm
  trace := h.trace.symm
  failures := h.failures.symm

theorem trans (h' : w'.SameButTargets w'') : w.SameButTargets w'' where
  objects := h.objects.trans h'.objects
  arrays := h.arrays.trans h'.arrays
  frames := h.frames.trans h'.frames
  sessions s := by
    obtain ⟨cf, st, rg, tb, op⟩ := h.sessions s
    obtain ⟨cf', st', rg', tb', op'⟩ := h'.sessions s
    exact ⟨cf.trans cf', st.trans st', rg.trans rg', tb.trans tb', op.trans op'⟩
  host := h.host.trans h'.host
  trace := h.trace.trans h'.trace
  failures := h.failures.trans h'.failures

theorem mapSession {s : SessionId} {f f' : SessionState σ → SessionState σ}
    (hf : (f (w.session s)).SameButTargets (f' (w'.session s))) :
    (w.mapSession s f).SameButTargets (w'.mapSession s f') :=
  { h with
    sessions := fun s' => by
      rw [session_mapSession, session_mapSession]
      split
      · exact hf
      · exact h.sessions s' }

theorem withFrames (frames : FrameStore) :
    SameButTargets { w with frames := frames } { w' with frames := frames } :=
  { h with frames := rfl, sessions := h.sessions }

theorem withObjects (objects : Array (ObjectCell σ)) :
    SameButTargets { w with objects := objects } { w' with objects := objects } :=
  { h with objects := rfl, sessions := h.sessions }

theorem withArrays (arrays : Array ArrayCell) :
    SameButTargets { w with arrays := arrays } { w' with arrays := arrays } :=
  { h with arrays := rfl, sessions := h.sessions }

theorem childFrame (f : FrameId) (kind : FrameKind) : ∃ r t t',
    World.childFrame f kind w = (r, t) ∧ World.childFrame f kind w' = (r, t') ∧
      t.SameButTargets t' := by
  simp only [World.childFrame, Run.modifyGet, h.frames]
  exact ⟨_, _, _, rfl, rfl, h.withFrames _⟩

theorem changeFrames (name : String) (change : FrameStore → Except FrameError FrameStore) :
    ∃ r t t', World.changeFrames name change w = (r, t) ∧
      World.changeFrames name change w' = (r, t') ∧ t.SameButTargets t' := by
  simp only [World.changeFrames, h.frames]
  split
  · exact ⟨_, _, _, rfl, rfl, h.withFrames _⟩
  · exact ⟨_, _, _, rfl, rfl, h⟩

theorem classFrame (s : SessionId) (type : ClosedType) : ∃ r t t',
    World.classFrame s type w = (r, t) ∧ World.classFrame s type w' = (r, t') ∧
      t.SameButTargets t' := by
  have hs := h.sessions s
  simp only [World.classFrame, Run.modifyGet, hs.classFrames, h.frames]
  split
  · exact ⟨_, _, _, rfl, rfl, h⟩
  · have framed := h.withFrames (w'.frames.addClass type).2
    have hs := framed.sessions s
    dsimp only
    exact ⟨_, _, _, rfl, rfl, framed.mapSession { hs with classFrames := by rw [hs.classFrames] }⟩

theorem register (s : SessionId) (entry : RegistryEntry) : ∃ r t t',
    World.register s entry w = (r, t) ∧ World.register s entry w' = (r, t') ∧
      t.SameButTargets t' := by
  have hs := h.sessions s
  simp only [World.register, Run.modifyGet, hs.registry]
  exact ⟨_, _, _, rfl, rfl, h.mapSession { hs with registry := rfl }⟩

theorem bind (o : ObjectRef) (l : Link σ) : ∃ r t t',
    World.bind o l w = (r, t) ∧ World.bind o l w' = (r, t') ∧ t.SameButTargets t' := by
  have bound : w.isBound o = w'.isBound o := by simp only [isBound, link?, h.objects]
  simp only [World.bind, bound, h.objects]
  cases w'.isBound o with
  | false => exact ⟨_, _, _, rfl, rfl, h.withObjects _⟩
  | true => exact ⟨_, _, _, rfl, rfl, h⟩

theorem newObject (type : ClosedType) :
    (w.newObject type).1 = (w'.newObject type).1 ∧
      (w.newObject type).2.SameButTargets (w'.newObject type).2 := by
  refine ⟨by simp only [World.newObject, h.objects], ?_⟩
  simp only [World.newObject, h.objects]
  exact h.withObjects _

theorem newArray (element : ClosedType) (cell : ArrayCell) :
    (w.newArray element cell).1 = (w'.newArray element cell).1 ∧
      (w.newArray element cell).2.SameButTargets (w'.newArray element cell).2 := by
  refine ⟨by simp only [World.newArray, h.arrays], ?_⟩
  simp only [World.newArray, h.arrays]
  exact h.withArrays _

theorem setElement (a : ArrayRef) (indices : List Int) (v : Value) : ∃ r t t',
    World.setElement a indices v w = (r, t) ∧ World.setElement a indices v w' = (r, t') ∧
      t.SameButTargets t' := by
  simp only [World.setElement, cell?, h.arrays]
  split
  · split
    · exact ⟨_, _, _, rfl, rfl, h.withArrays _⟩
    · exact ⟨_, _, _, rfl, rfl, h⟩
  · exact ⟨_, _, _, rfl, rfl, h⟩

theorem keepTable (s : SessionId) (type : ClosedType) (table : MemberTable) :
    (w.keepTable s type table).SameButTargets (w'.keepTable s type table) := by
  have hs := h.sessions s
  exact h.mapSession { hs with tables := by rw [hs.tables] }

theorem storeStatic (s : SessionId) (place : ClosedType × SymbolId) (v : Value) :
    (w.storeStatic s place v).SameButTargets (w'.storeStatic s place v) := by
  have hs := h.sessions s
  exact h.mapSession { hs with statics := by rw [hs.statics] }

theorem storeSlot (o : ObjectRef) (field : SymbolId) (v : Value) :
    (w.storeSlot o field v).SameButTargets (w'.storeSlot o field v) := by
  simp only [World.storeSlot, h.objects]
  exact h.withObjects _

theorem record (call : HostCall) : (w.record call).SameButTargets (w'.record call) :=
  { h with trace := congrArg (call :: ·) h.trace, sessions := h.sessions }

theorem write (state : σ) :
    SameButTargets { w with host := state } { w' with host := state } :=
  { h with host := rfl, sessions := h.sessions }

theorem noteFailure (call : HostCall) (e : EvalError) :
    (w.noteFailure call e).SameButTargets (w'.noteFailure call e) :=
  { h with
    failures := by simp only [World.noteFailure, h.trace, h.failures]
    sessions := h.sessions }

end SameButTargets

/-- Runs over worlds in which other decisions are recorded. -/
def decidingTerms (host : Host σ) : Terms (World σ) where
  Bond := Unit
  ties _ w w' := w.SameButTargets w' ∧ w.Decided host ∧ w'.Decided host
  le _ _ := True
  lax := False
  lax' := False
  refl _ := trivial
  trans _ _ := trivial

/-- A step that grows worlds only and is the same from worlds that are. -/
theorem agrees_deciding {α : Type} {m : Run (World σ) α}
    (grows : ∀ w : World σ, w.Grows host (m w).2)
    (same : ∀ w w' : World σ, w.SameButTargets w' →
      ∃ r t t', m w = (r, t) ∧ m w' = (r, t') ∧ t.SameButTargets t') :
    Run.Agrees (decidingTerms host) m m := by
  refine .of_ends ?_
  rintro b w w' ⟨h, hd, hd'⟩
  obtain ⟨r, t, t', hm, hm', ht⟩ := same w w' h
  have grown := grows w
  have grown' := grows w'
  rw [hm] at grown ⊢
  rw [hm'] at grown' ⊢
  exact (Run.Ends.stay (T := decidingTerms host) (b := b) ⟨ht, hd.grows grown, hd'.grows grown'⟩)

theorem childFrame_deciding (f : FrameId) (kind : FrameKind) :
    Run.Agrees (decidingTerms host) (childFrame f kind) (childFrame f kind) :=
  agrees_deciding (childFrame_grows f kind) fun _ _ h => h.childFrame f kind

theorem changeFrames_deciding {name : String} {change : FrameStore → Except FrameError FrameStore}
    (keeps : ∀ s s', change s = .ok s' → s.Extends s') :
    Run.Agrees (decidingTerms host) (changeFrames name change) (changeFrames name change) :=
  agrees_deciding (changeFrames_grows keeps) fun _ _ h => h.changeFrames name change

/-- An object or an array is made in the one as in the other. -/
theorem made_deciding {α : Type} {make : World σ → α × World σ}
    (grows : ∀ w : World σ, w.Grows host (make w).2)
    (same : ∀ w w' : World σ, w.SameButTargets w' →
      (make w).1 = (make w').1 ∧ (make w).2.SameButTargets (make w').2) :
    Run.Agrees (decidingTerms host) (Run.modifyGet make) (Run.modifyGet make) := by
  refine agrees_deciding grows fun w w' h => ?_
  obtain ⟨answer, state⟩ := same w w' h
  refine ⟨.ok (make w).1, (make w).2, (make w').2, rfl, ?_, state⟩
  simp only [Run.modifyGet, answer]

/-- A change that grows worlds only leaves them tied if it leaves them the same. -/
theorem tied_deciding {b : Unit} {w w' t t' : World σ} (h : (decidingTerms host).ties b w w')
    (same : t.SameButTargets t') (grows : w.Grows host t) (grows' : w'.Grows host t') :
    ∃ b', (decidingTerms host).le b b' ∧ (decidingTerms host).ties b' t t' :=
  ⟨b, trivial, same, h.2.1.grows grows, h.2.2.grows grows'⟩

end World

namespace Context

variable {σ : Type} (c : Context σ)

/-- To decide on a member is to record the decision, if there is one. -/
theorem target_sameButTargets (m : SymbolId) (w : World σ) : w.SameButTargets (c.target m w).2 := by
  cases hm : (w.session c.session).targets.get? m with
  | some t => rw [c.target_of_cached hm]; exact .refl w
  | none =>
    cases hd : c.host.decide m with
    | error e => rw [c.target_of_error hm hd]; exact .refl w
    | ok t =>
      rw [c.target_of_decided hm hd]
      refine { World.SameButTargets.refl w with sessions := fun s => ?_ }
      rw [World.session_mapSession]
      split
      · rename_i hs
        subst hs
        exact ⟨rfl, rfl, rfl, rfl, rfl⟩
      · exact ⟨rfl, rfl, rfl, rfl, rfl⟩

theorem target_frames {m : SymbolId} {w w' : World σ} {r : Except Stop (Target σ)}
    (h : c.target m w = (r, w')) : w'.frames = w.frames := by
  have same := c.target_sameButTargets m w
  rw [h] at same
  exact same.frames.symm

/-- A member that can be decided on is reached in one way, whether it was decided on before
or not. -/
theorem target_of_decide {w : World σ} (h : w.Decided c.host) {m : SymbolId} {t : Target σ}
    (hd : c.host.decide m = .ok t) :
    ∃ w', c.target m w = (.ok t, w') ∧ w.SameButTargets w' ∧ w'.Decided c.host := by
  have grows := c.target_grows m w
  have same := c.target_sameButTargets m w
  cases hm : (w.session c.session).targets.get? m with
  | some t' =>
    cases (h c.session hm).symm.trans hd
    exact ⟨w, c.target_of_cached hm, .refl w, h⟩
  | none =>
    have decided := c.target_of_decided hm hd
    rw [decided] at grows same
    exact ⟨_, decided, same, h.grows grows⟩

/-- One that cannot be has never been. -/
theorem target_of_undecided {w : World σ} (h : w.Decided c.host) {m : SymbolId} {e : EvalError}
    (hd : c.host.decide m = .error e) : c.target m w = (.error (.failed e), w) := by
  refine c.target_of_error ?_ hd
  cases hm : (w.session c.session).targets.get? m with
  | none => rfl
  | some t => cases (h c.session hm).symm.trans hd

theorem target_deciding (m : SymbolId) :
    Run.Agrees (World.decidingTerms c.host) (c.target m) (c.target m) := by
  refine .of_ends ?_
  rintro b w w' ⟨h, hw, hw'⟩
  cases hd : c.host.decide m with
  | error e =>
    rw [c.target_of_undecided hw hd, c.target_of_undecided hw' hd]
    exact .stay ⟨h, hw, hw'⟩
  | ok t =>
    obtain ⟨w₁, ht, same, hw₁⟩ := c.target_of_decide hw hd
    obtain ⟨w₁', ht', same', hw₁'⟩ := c.target_of_decide hw' hd
    rw [ht, ht']
    exact .stay ⟨(same.symm.trans h).trans same', hw₁, hw₁'⟩

end Context

namespace World

variable {σ : Type} {host : Host σ}

/-- Runs over worlds in which other decisions are recorded. -/
def deciding (host : Host σ) : WorldTerms host where
  toTerms := decidingTerms host
  sights _ f f' := f = f'
  frames _ f f' := f = f'
  roots _ f f' := f = f'
  holders _ _ f f' := f = f'
  seen h := h
  holds h := h
  laterSights _ h := h
  later _ h := h
  laterRoots _ h := h
  laterHolders _ h := h
  names h hf name := by simp only [readName, h.1.frames, hf]
  arguments h hf := by simp only [h.1.frames, hf]
  instances h hf := by simp only [h.1.frames, hf]
  links h o := by
    simp only [link?, h.1.objects]
    exact .refl (fun _ => rfl) _
  slots h _ _ := by simp only [loadSlot?, h.1.objects]
  statics h s _ := by rw [(h.1.sessions s).statics]
  entries h s _ := by rw [(h.1.sessions s).registry]
  tables h s _ := by rw [(h.1.sessions s).tables]
  isOpen h s := (h.1.sessions s).isOpen
  cells h _ := by simp only [cell?, h.1.arrays]
  state h := h.1.host
  classFrame b s type :=
    agrees_deciding (classFrame_grows s type) (fun _ _ h => h.classFrame s type) b
  methodFrame m typeArgs hf := hf ▸ childFrame_deciding _ (.ofMethod m typeArgs) _
  instanceFrame o hf := Run.AgreesBy.imp
    (hf ▸ childFrame_deciding _ (.ofInstance (some o)) _) fun _ _ _ made => ⟨made, made⟩
  scopeFrame hf := hf ▸ childFrame_deciding _ .scope _
  declare name hf := hf ▸ changeFrames_deciding (fun _ _ => FrameStore.extends_insert) _
  define name v hf := hf ▸ changeFrames_deciding (fun _ _ => FrameStore.extends_insert) _
  assign name v hf := hf ▸ changeFrames_deciding (fun _ _ => FrameStore.extends_assign) _
  target c m hc := hc ▸ c.target_deciding m
  register s entry := agrees_deciding (register_grows s entry) fun _ _ h => h.register s entry
  keepTable s type table h missing _ :=
    tied_deciding h (h.1.keepTable s type table) (.mapSession (.table missing table))
      (.mapSession (.table ((h.1.sessions s).tables ▸ missing) table))
  storeStatic s place v h := tied_deciding h (h.1.storeStatic s place v)
    (.mapSession (.statics _)) (.mapSession (.statics _))
  storeSlot o field v h := tied_deciding h (h.1.storeSlot o field v)
    (.storeSlot o field v) (.storeSlot o field v)
  bindLink o s _ table h hf _ :=
    hf ▸ (agrees_deciding (bind_grows o _) fun _ _ h => h.bind o _).apply h
  newObject type := made_deciding (fun _ => .newObject type) fun _ _ h => h.newObject type
  newArray element cell := made_deciding (fun _ => .of_arrays _) fun _ _ h => h.newArray element cell
  setElement a indices v :=
    agrees_deciding (setElement_grows a indices v) fun _ _ h => h.setElement a indices v
  record call h := tied_deciding h (h.1.record call) (.record call) (.record call)
  write state h := tied_deciding h (h.1.write state) (.of_host state) (.of_host state)
  noteFailure call e h :=
    tied_deciding h (h.1.noteFailure call e) (.noteFailure call e) (.noteFailure call e)

end World

/-- Runs that agree answer the same and leave the same, decisions apart. -/
theorem Run.Agrees.deciding {σ α : Type} {host : Host σ} {m m' : Run (World σ) α}
    (h : Run.Agrees (World.deciding host).toTerms m m') {w w' : World σ}
    (tied : (World.deciding host).ties () w w') :
    (m w).1 = (m' w').1 ∧ (m w).2.SameButTargets (m' w').2 := by
  have ends := h.apply tied
  generalize m w = x at ends
  generalize m' w' = x' at ends
  cases ends with
  | short hl => exact hl.elim
  | short' hl => exact hl.elim
  | ok _ ht hq => exact ⟨congrArg Except.ok hq, ht.1⟩
  | error _ ht => exact ⟨rfl, ht.1⟩

/-- An object of an open session is called from outside by the body that its table has for the
member. -/
theorem dispatchWithin_listed {σ : Type} (host : Host σ) (n : Nat) {session : SessionId} {w : World σ}
    {o : ObjectRef} {frame : FrameId} {table : MemberTable}
    (bound : w.link? o = some (.session session frame table))
    (alive : (w.session session).isOpen = true) {m : SymbolId} {entry : RegistryEntry}
    (listed : table.bodyOf (w.session session).registry m = some entry) (typeArgs : List ClosedType)
    (args : List Value) :
    dispatchWithin host (n + 1) o m typeArgs args w =
      (Context.within host n session).runInterpreted entry.tree entry.symbol entry.context typeArgs
        (some o) args w := by
  rw [MemberTable.bodyOf] at listed
  simp only [dispatchWithin, bound, alive, if_true, Context.serve, Run.bind_def, Run.gets_def, listed]
  rfl

/-- A call from outside runs the body that the table of the object has for the member, and
never decides on the member itself. A virtual call from the session's code comes to the same,
other decisions apart, if the member can be decided on; if it cannot, the call fails with
the error of the decision, and nothing has run. -/
theorem virtualCall_dispatches {σ : Type} (host : Host σ) (n : Nat) (session : SessionId)
    {w : World σ} (decided : w.Decided host) {o : ObjectRef} {frame : FrameId} {table : MemberTable}
    (bound : w.link? o = some (.session session frame table))
    (alive : (w.session session).isOpen = true) (m : ResolvedMember) (args : List Value)
    {entry : RegistryEntry}
    (listed : table.bodyOf (w.session session).registry m.symbol = some entry) :
    let c := Context.within host n session
    let x := c.callMember m (some (.object o)) args true w
    let y := dispatchWithin host (n + 1) o m.symbol m.typeArgs args w
    y = c.runInterpreted entry.tree entry.symbol entry.context m.typeArgs (some o) args w ∧
      (∀ t, host.decide m.symbol = .ok t → x.1 = y.1 ∧ x.2.SameButTargets y.2) ∧
      ∀ e, host.decide m.symbol = .error e → x = (.error (.failed e), w) := by
  intro c x y
  have dispatched : y =
      c.runInterpreted entry.tree entry.symbol entry.context m.typeArgs (some o) args w :=
    dispatchWithin_listed host n bound alive listed m.typeArgs args
  refine ⟨dispatched, fun t ht => ?_, fun e he => ?_⟩
  · obtain ⟨w₁, reached, same, decided₁⟩ := c.target_of_decide decided ht
    have tied : (World.deciding host).ties () w₁ w := ⟨same.symm, decided₁, decided⟩
    have overrides : c.overrideOf w₁ (some (.object o)) m.symbol = some (o, entry) := by
      rw [(World.deciding host).overrideOf tied]
      rw [MemberTable.bodyOf] at listed
      simp only [Context.overrideOf, World.bindingOf?, bound, c, Context.within, if_true, listed,
        Option.map_some]
    have called : x =
        c.runInterpreted entry.tree entry.symbol entry.context m.typeArgs (some o) args w₁ := by
      simp only [x, Context.callMember, Run.bind_def, reached, Run.gets_def, Bool.true_or, if_true,
        overrides]
    have runs := (Context.within_self (World.deciding host) n session).runInterpreted entry.tree
      entry.symbol entry.context m.typeArgs (some o) args
    rw [called, dispatched]
    exact runs.deciding tied
  · simp only [x, Context.callMember]
    exact Run.bind_error (c.target_of_undecided decided he)

/-- A type with a method that overrides one of its base, which is abstract or loaded. -/
def overridden (origin : MemberOrigin) : Scripted.Program :=
  let seven : Node := .mk .dummy (.literal (.int .i32 7))
  let method (overrides : Option SymbolId) : MemberKind := .method [] (.primitive .i32) 0 true overrides
  ⟨[⟨⟨⟨1⟩, "Base", .classType, decide (origin = .source), 0, none, [], [⟨30⟩]⟩, .fresh⟩,
      ⟨⟨⟨2⟩, "D", .classType, true, 0, some (.named ⟨1⟩ []), [], [⟨31⟩]⟩, .fresh⟩],
    [⟨⟨⟨30⟩, "Get", ⟨1⟩, false, origin, method none⟩, none, none⟩,
      ⟨⟨⟨31⟩, "Get", ⟨2⟩, false, .source, method (some ⟨30⟩)⟩,
        some (.mk .dummy (.block [.mk .dummy (.returnWith (some seven))])), none⟩]⟩

/-- An object of the type that is bound to a session. -/
def overridden.bound (origin : MemberOrigin) : World Scripted.State :=
  let type : ClosedType := .named ⟨2⟩ []
  let made := (World.initial Scripted.State.initial).newObject type
  ((Context.within (overridden origin).host 3 ⟨0⟩).bind made.1 type made.2).2

theorem overridden.decided (origin : MemberOrigin) :
    (bound origin).Decided (overridden origin).host := by
  let type : ClosedType := .named ⟨2⟩ []
  let made := (World.initial Scripted.State.initial).newObject type
  let c := Context.within (overridden origin).host 3 ⟨0⟩
  have binds := (Context.within_grows (overridden origin).host 3 ⟨0⟩).bind made.1 type made.2
  have created : made.2.Decided (overridden origin).host :=
    (World.Decided.initial _).grows (.newObject type)
  exact created.grows (binds.grows (r := (c.bind made.1 type made.2).1) rfl)

theorem overriddenAbstract_dispatches :
    let host := (overridden .source).host
    let o : ObjectRef := ⟨0, .named ⟨2⟩ []⟩
    let m : ResolvedMember := ⟨⟨30⟩, .named ⟨1⟩ [], []⟩
    let w := overridden.bound .source
    let x := (Context.within host 5 ⟨0⟩).callMember m (some (.object o)) [] true w
    let y := dispatchWithin host 6 o ⟨30⟩ [] [] w
    w.Decided host ∧ x.1 = .ok (.i32 7) ∧ y.1 = .ok (.i32 7) ∧ x.2.SameButTargets y.2 := by
  intro host o m w x y
  obtain ⟨-, same, -⟩ := virtualCall_dispatches host 5 ⟨0⟩ (overridden.decided .source) (o := o)
    rfl rfl m [] rfl
  obtain ⟨answers, worlds⟩ := same .bodiless rfl
  exact ⟨overridden.decided .source, rfl, answers.symm.trans rfl, worlds⟩

/-- The loaded method has no handle. -/
theorem overriddenLoaded_differs :
    let host := (overridden .loaded).host
    let o : ObjectRef := ⟨0, .named ⟨2⟩ []⟩
    let m : ResolvedMember := ⟨⟨30⟩, .named ⟨1⟩ [], []⟩
    let w := overridden.bound .loaded
    ((Context.within host 5 ⟨0⟩).callMember m (some (.object o)) [] true w).1 =
        .error (.failed (.of (.unresolvedMember "Get" "Base"
          "loaded member has no physical implementation"))) ∧
      (dispatchWithin host 6 o ⟨30⟩ [] [] w).1 = .ok (.i32 7) :=
  ⟨rfl, rfl⟩

end OpTree
