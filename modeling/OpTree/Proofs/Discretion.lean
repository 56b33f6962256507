/-
Code that keeps secrets. Code has the values of its own activation, what it reads from the world,
and what the host and other code answer it with; if the world is discreet and so is the host, no
secret is among them, and what code keeps is no secret either (`Context.Discreet`).

There is one way around values. An array initializer fills the array of the innermost creation
around it, and the array of a creation is a secret until the creation is over. An initializer
belongs to its creation; a node in which none stands anywhere else is `Sealed`, and it is the
sealed nodes that cannot get at an array that is being filled.
-/
import OpTree.Proofs.Failures
import OpTree.Proofs.Secrets
import OpTree.Proofs.TypeMap

namespace OpTree

open Run (Obeys)

/-! ## Bodies that keep secrets -/

def Op.isArrayCreation : Op → Bool
  | .arrayCreation .. => true
  | _ => false

/-- Initializers stand in array creations only, as far as evaluation comes. A creation's own may
hold what it will: what it fills is the array of the creation. -/
inductive Node.Sealed : Node → Prop where
  | creation {span element rank dimensions initializer} : (∀ x ∈ dimensions, Node.Sealed x) →
      Node.Sealed (.mk span (.arrayCreation element rank dimensions initializer))
  | other {span op} : (∀ items, op ≠ .arrayInitializer items) → (∀ x ∈ op.operands, Node.Sealed x) →
      Node.Sealed (.mk span op)

/-- An activation refers to nothing secret. The arrays that it fills are not spoken of. -/
structure Activation.Discreet {σ : Type} (S : Secrecy σ) (w : World σ) (a : Activation) : Prop where
  receivers : ∀ v ∈ a.receivers, S.Allows w v
  conditionals : ∀ v ∈ a.conditionals, S.Allows w v
  pendingReturn : ∀ v ∈ a.pendingReturn, S.Allows w v
  prepared : ∀ values ∈ a.prepared, ∀ v ∈ values, S.Allows w v

/-- Nothing in the world or the activation refers to a secret, and the activation fills some arrays. -/
structure Machine.Discreet {σ : Type} (S : Secrecy σ) (inits : List ArrayInit) (s : Machine σ) :
    Prop where
  world : s.world.Discreet S
  activation : s.activation.Discreet S s.world
  inits : s.activation.arrayInits = inits

/-- Where something is stored into the innermost place. -/
inductive Place.Within (K : Nat → Prop) : Place → Prop where
  | named (name) : Place.Within K (.named name)
  | member {m receiver index isVirtual} : (∀ v ∈ receiver, Value.Within K v) →
      (∀ v ∈ index, Value.Within K v) → Place.Within K (.member m receiver index isVirtual)
  | element {a : ArrayRef} {is} : K a.id → Place.Within K (.element a is)
  | discard : Place.Within K .discard
  | tuple {places} : (∀ p ∈ places, Place.Within K p) → Place.Within K (.tuple places)

namespace Secrecy

variable {σ : Type} (S : Secrecy σ)

/-- Runs in an activation that keep secrets and do not touch them. -/
def machine (inits : List ArrayInit) : Regime (Machine σ) where
  inv s := s.Discreet S inits
  le s t := S.world.le s.world t.world
  refl s := S.world.refl s.world
  trans h h' := S.world.trans h h'

/-- The array that is being filled, if one is, is no secret. -/
def Exposed (inits : List ArrayInit) : Prop := ∀ init ∈ inits.head?, ¬S.hidden init.array.id

/-- The node cannot get at a secret while some arrays are being filled. -/
def Permits (inits : List ArrayInit) (x : Node) : Prop := S.Exposed inits ∨ x.Sealed

variable {S} {inits : List ArrayInit} {span : Span} {op : Op}

theorem Permits.operand (h : S.Permits inits (.mk span op)) (hop : op.isArrayCreation = false) :
    ∀ x ∈ op.operands, S.Permits inits x := by
  intro x hx
  rcases h with exposed | closed
  · exact .inl exposed
  · cases closed with
    | creation => cases hop
    | other _ below => exact .inr (below x hx)

theorem Permits.dimension {element rank dimensions initializer}
    (h : S.Permits inits (.mk span (.arrayCreation element rank dimensions initializer))) :
    ∀ x ∈ dimensions, S.Permits inits x := by
  intro x hx
  rcases h with exposed | closed
  · exact .inl exposed
  · cases closed with
    | creation below => exact .inr (below x hx)
    | other _ below => exact .inr (below x (by simp [Op.operands, hx]))

theorem Permits.exposed {items : List Node} (h : S.Permits inits (.mk span (.arrayInitializer items))) :
    S.Exposed inits := by
  rcases h with exposed | closed
  · exact exposed
  · cases closed with
    | other not => exact absurd rfl (not items)

end Secrecy

/-- Whatever the code runs against keeps secrets. -/
structure Context.Discreet {σ : Type} (S : Secrecy σ) (c : Context σ) : Prop where
  host : c.host.Discreet S.holds
  eval : ∀ {inits x} {s : Machine σ}, s.Discreet S inits → S.Permits inits x →
    Obeys (S.machine inits) (c.eval x) s fun s => S.Allows s.world
  dispatch : ∀ {o m typeArgs args} {w : World σ}, w.Discreet S → (∀ v ∈ args, S.Allows w v) →
    Obeys S.world (c.dispatch o m typeArgs args) w S.Allows

theorem Place.Within.mono {K K' : Nat → Prop} {p : Place} (hp : p.Within K) (hk : ∀ i, K i → K' i) :
    p.Within K' := by
  induction hp with
  | named name => exact .named name
  | member hr hi => exact .member (fun v hv => (hr v hv).mono hk) fun v hv => (hi v hv).mono hk
  | element ha => exact .element (hk _ ha)
  | discard => exact .discard
  | tuple _ ih => exact .tuple ih

theorem Place.Within.later {σ : Type} {S : Secrecy σ} {w w' : World σ} {p : Place}
    (hp : p.Within (S.visible w)) (hl : S.world.le w w') : p.Within (S.visible w') :=
  hp.mono fun _ => Secrecy.visible_later hl

theorem Activation.Discreet.mono {σ : Type} {S S' : Secrecy σ} {w w' : World σ} {a : Activation}
    (h : a.Discreet S w) (later : ∀ {i}, S.visible w i → S'.visible w' i) : a.Discreet S' w' where
  receivers v hv := (h.receivers v hv).mono fun _ => later
  conditionals v hv := (h.conditionals v hv).mono fun _ => later
  pendingReturn v hv := (h.pendingReturn v hv).mono fun _ => later
  prepared vs hvs v hv := (h.prepared vs hvs v hv).mono fun _ => later

theorem Activation.Discreet.later {σ : Type} {S : Secrecy σ} {w w' : World σ} {a : Activation}
    (h : a.Discreet S w) (hl : S.world.le w w') : a.Discreet S w' :=
  h.mono (Secrecy.visible_later hl)

theorem Activation.Discreet.start {σ : Type} {S : Secrecy σ} {w : World σ} (base : FrameId)
    (instanceFrame : Option FrameId) : (Activation.start base instanceFrame).Discreet S w :=
  ⟨nofun, nofun, nofun, nofun⟩

theorem Activation.Discreet.innerPath {σ : Type} {S : Secrecy σ} {w : World σ} {a : Activation}
    (h : a.Discreet S w) (f : List Int → List Int) : (Context.mapInnerPath f a).Discreet S w :=
  ⟨h.receivers, h.conditionals, h.pendingReturn, h.prepared⟩

/-- Further in, the same array is being filled. -/
theorem Secrecy.Exposed.innerPath {σ : Type} {S : Secrecy σ} {a : Activation}
    (h : S.Exposed a.arrayInits) (f : List Int → List Int) :
    S.Exposed (Context.mapInnerPath f a).arrayInits := by
  simp only [Context.mapInnerPath]
  split
  · rename_i init rest filling
    intro init' hi
    cases hi
    exact h init (by rw [filling]; rfl)
  · intro _ hi
    cases hi

/-- The way back out of an initializer. -/
theorem Context.arrayInits_outer {a b : Activation} {position : Int}
    (h : b.arrayInits = (mapInnerPath (· ++ [position]) a).arrayInits) :
    (mapInnerPath List.dropLast b).arrayInits = a.arrayInits := by
  simp only [mapInnerPath, h]
  cases a.arrayInits <;> simp

theorem Host.Discreet.decide {σ : Type} {host : Host σ} {holds : σ → Nat → Prop}
    (h : host.Discreet holds) {m : SymbolId} {t : Target σ} (hd : host.decide m = .ok t) :
    t.Discreet holds := by
  cases t with
  | physical handle => exact h.handle (Host.handle_of_decide hd)
  | _ => trivial

/-- Storage begins with nothing in it. -/
theorem Host.arrays_storageDefault {σ : Type} {host : Host σ} {m : ResolvedMember} {v : Value}
    (hd : host.storageDefault m = .ok v) : v.arrays = [] := by
  simp only [Host.storageDefault, bind, Except.bind] at hd
  split at hd
  · cases hd
  · split at hd
    · split at hd
      · cases hd
      · cases hd
        exact ClosedType.arrays_defaultValue _
    · cases hd
      rfl

/-! ## Runs in an activation -/

namespace Machine.Discreet

variable {σ α : Type} {S : Secrecy σ} {inits inits' : List ArrayInit} {s : Machine σ}

/-- What happens to the world does not change the activation. -/
theorem onWorld (h : s.Discreet S inits) {m : Run (World σ) α} {Q : World σ → α → Prop}
    (hm : Obeys S.world m s.world Q) :
    Obeys (S.machine inits) (Run.onWorld m) s fun s => Q s.world := by
  obtain ⟨hi, hl, hq⟩ := hm
  exact ⟨⟨hi, h.activation.later hl, h.inits⟩, hl, hq⟩

theorem modifyActivation (h : s.Discreet S inits) {f : Activation → Activation}
    (hf : (f s.activation).Discreet S s.world) (hi : (f s.activation).arrayInits = inits) :
    Obeys (S.machine inits) (Run.modifyActivation f) s fun _ _ => True :=
  .modify ⟨h.world, hf, hi⟩ (S.world.refl s.world)

/-- In between, the activation may fill other arrays. -/
theorem between {before after : Activation → Activation} {m : Run (Machine σ) α}
    {Q : World σ → α → Prop}
    (hm : Obeys (S.machine inits') m { s with activation := before s.activation } fun s => Q s.world)
    (ha : ∀ t : Machine σ, t.Discreet S inits' →
      (after t.activation).Discreet S t.world ∧ (after t.activation).arrayInits = inits) :
    Obeys (S.machine inits) (Run.between before after m) s fun s => Q s.world := by
  obtain ⟨hi, hl, hq⟩ := hm
  obtain ⟨activation, kept⟩ := ha _ hi
  exact ⟨⟨hi.world, activation, kept⟩, hl, hq⟩

/-- Values of the constructs around code are provided in between. -/
theorem during (h : s.Discreet S inits) {before after : Activation → Activation}
    {m : Run (Machine σ) α} {Q : World σ → α → Prop}
    (hb : (before s.activation).Discreet S s.world)
    (hbi : (before s.activation).arrayInits = s.activation.arrayInits)
    (ha : ∀ {w : World σ} {a : Activation}, a.Discreet S w → (after a).Discreet S w)
    (hai : ∀ a, (after a).arrayInits = a.arrayInits)
    (hm : ∀ {t : Machine σ}, t.world = s.world → t.Discreet S inits →
      Obeys (S.machine inits) m t fun s => Q s.world) :
    Obeys (S.machine inits) (Run.between before after m) s fun s => Q s.world :=
  between (hm rfl ⟨h.world, hb, hbi.trans h.inits⟩) fun t ht =>
    ⟨ha ht.activation, (hai t.activation).trans ht.inits⟩

/-- A run in an activation of its own is one over the world. -/
theorem within {w : World σ} {a : Activation} {m : Run (Machine σ) α} {Q : World σ → α → Prop}
    (hm : Obeys (S.machine inits) m ⟨w, a⟩ fun s => Q s.world) :
    Obeys S.world (Run.within a m) w Q := by
  obtain ⟨hi, hl, hq⟩ := hm
  exact ⟨hi.world, hl, hq⟩

theorem withScope (h : s.Discreet S inits) {m : Run (Machine σ) α} {Q : World σ → α → Prop}
    (hm : ∀ {t : Machine σ}, S.world.le s.world t.world → t.Discreet S inits →
      Obeys (S.machine inits) m t fun s => Q s.world) :
    Obeys (S.machine inits) (Run.withScope m) s fun s => Q s.world := by
  refine .bind (.gets h) fun frame t hl ht _ => ?_
  refine .bind (ht.onWorld (ht.world.childFrame frame .scope)) fun scope u hl' hu _ => ?_
  refine hu.during ⟨hu.activation.receivers, hu.activation.conditionals, hu.activation.pendingReturn,
    hu.activation.prepared⟩ rfl (fun ha => ⟨ha.receivers, ha.conditionals, ha.pendingReturn,
    ha.prepared⟩) (fun _ => rfl) fun hw hv => hm ?_ hv
  rw [hw]
  exact S.world.trans hl hl'

theorem closeType (h : s.Discreet S inits) (t : TypeRef) :
    Obeys (S.machine inits) (Run.closeType t) s fun _ _ => True :=
  .still rfl h fun _ _ => trivial

theorem closeMember (h : s.Discreet S inits) (use : MemberUse) :
    Obeys (S.machine inits) (Run.closeMember use) s fun _ _ => True :=
  .still rfl h fun _ _ => trivial

theorem currentInstance (h : s.Discreet S inits) :
    Obeys (S.machine inits) Run.currentInstance s fun _ _ => True := by
  cases ho : s.activation.instanceFrame.bind s.world.frames.currentInstance? with
  | some o => exact .still (by simp only [Run.currentInstance, ho]; rfl) h fun _ _ => trivial
  | none => exact .still (by simp only [Run.currentInstance, ho]; rfl) h fun _ _ => trivial

theorem defineLocal (h : s.Discreet S inits) (name : String) {v : Value} (hv : S.Allows s.world v) :
    Obeys (S.machine inits) (Run.defineLocal name v) s fun _ _ => True :=
  .bind (.gets h) fun frame _ hl ht _ =>
    ht.onWorld (ht.world.define frame name (hv.later hl))

theorem declareLocal (h : s.Discreet S inits) (name : String) :
    Obeys (S.machine inits) (Run.declareLocal name) s fun _ _ => True :=
  .bind (.gets h) fun frame _ _ ht _ => ht.onWorld (ht.world.declare frame name)

theorem loopExit (h : s.Discreet S inits) :
    Obeys (S.machine inits) Run.loopExit s fun _ _ => True := by
  by_cases returned : s.activation.pendingReturn.isSome = true
  · exact .still (by simp only [Run.loopExit, Run.modifyGet, returned, if_true]; rfl) h
      fun _ _ => trivial
  · have taken : Run.loopExit s = (.ok (s.activation.branch = some .breakLoop),
        { s with activation := { s.activation with branch := none } }) := by
      simp only [Run.loopExit, Run.modifyGet, returned, Bool.false_eq_true, if_false]
    refine .after taken ⟨h.world, ?_, h.inits⟩ (S.world.refl s.world) fun _ _ => trivial
    exact ⟨h.activation.receivers, h.activation.conditionals, h.activation.pendingReturn,
      h.activation.prepared⟩

theorem innermost (h : s.Discreet S inits) {values : Activation → List Value} (construct : String)
    (hv : ∀ v ∈ values s.activation, S.Allows s.world v) :
    Obeys (S.machine inits) (Context.innermost values construct) s fun s => S.Allows s.world := by
  cases provided : values s.activation with
  | nil =>
    exact .stopped (by simp only [Context.innermost, provided]; rfl) h (S.world.refl s.world)
  | cons v vs =>
    refine .still (by simp only [Context.innermost, provided]; rfl) h fun u hu => ?_
    cases hu
    exact hv v (provided ▸ List.mem_cons_self)

end Machine.Discreet

/-! ## Members -/

namespace Context.Discreet

variable {σ α : Type} {S : Secrecy σ} {c : Context σ} {w : World σ} (h : c.Discreet S)

include h

theorem callHost {tells : (Nat → Prop) → α → Prop} (call : HostCall) {action : HostAction σ α}
    (hw : w.Discreet S) (ha : action.Discreet S.holds tells (S.visible w)) :
    Obeys S.world (c.callHost call action) w fun w a => tells (S.visible w) a :=
  (World.Discreet.noting (World.Discreet.hostAction h.dispatch action (hw.record call) ha)).from rfl
    (Secrecy.le_of_arrays rfl)

theorem target (hw : w.Discreet S) (m : SymbolId) :
    Obeys S.world (c.target m) w fun _ t => t.Discreet S.holds := by
  refine .bind (.gets hw) fun found u _ hu hf => ?_
  cases found with
  | some t => exact .pure hu ((hu.sessions c.session).targets hf.symm)
  | none =>
    refine .bind (.known hu) fun t v _ hv ht => ?_
    have ht := h.host.decide ht
    refine .bind (.modify (hv.mapSession ?_) (Secrecy.le_of_arrays rfl)) fun _ _ _ hx _ =>
      .pure hx ht
    refine ⟨(hv.sessions c.session).statics, fun {m' t'} decided => ?_⟩
    by_cases same : m = m'
    · subst same
      rw [Table.get?_insert_self] at decided
      cases decided
      exact ht
    · rw [Table.get?_insert_other _ same] at decided
      exact (hv.sessions c.session).targets decided

theorem runBody (hw : w.Discreet S) {a : Activation} (ha : a.Discreet S w)
    (hi : a.arrayInits = []) (body : Node) : Obeys S.world (c.runBody a body) w S.Allows := by
  have permitted : S.Permits [] body := .inl nofun
  obtain ⟨inv, le, answer⟩ := h.eval (s := ⟨w, a⟩) ⟨hw, ha, hi⟩ permitted
  rcases ran : c.eval body ⟨w, a⟩ with ⟨e | v, t⟩ <;> rw [ran] at inv le answer
  · exact .stopped (by simp only [Context.runBody, ran]; rfl) inv.world le
  · cases branched : t.activation.branch with
    | some _ => exact .stopped (by simp only [Context.runBody, ran, branched]; rfl) inv.world le
    | none =>
      refine .after (by simp only [Context.runBody, ran, branched]; rfl) inv.world le fun u hu => ?_
      cases hu
      cases returned : t.activation.pendingReturn with
      | none => exact answer v rfl
      | some v => exact inv.activation.pendingReturn v returned

omit h in
theorem prepare (hw : w.Discreet S) (m : SymbolId) (containing : ClosedType)
    (typeArgs : List ClosedType) (receiver : Option ObjectRef) {args : List Value}
    (ha : ∀ v ∈ args, S.Allows w v) :
    Obeys S.world (c.prepare m containing typeArgs receiver args) w fun w a =>
      a.Discreet S w ∧ a.arrayInits = [] := by
  refine .bind (.known hw) fun member w₁ hl₁ hw₁ _ => ?_
  refine .ite (fun _ => .fail hw₁) fun _ => ?_
  refine .bind (hw₁.classFrame c.session containing) fun classFrame w₂ hl₂ hw₂ _ => ?_
  refine .bind (hw₂.childFrame classFrame _) fun frame w₃ hl₃ hw₃ _ => ?_
  have hl := S.world.trans hl₁ (S.world.trans hl₂ hl₃)
  refine .bind (.forList (fun p hp u hu hd => ?_) hw₃) fun _ w₄ _ hw₄ _ => ?_
  · exact hd.define frame p.1.name ((ha p.2 (List.of_mem_zip hp).2).later (S.world.trans hl hu))
  cases receiver with
  | none => exact .pure hw₄ ⟨.start _ _, rfl⟩
  | some o =>
    refine .bind (.gets hw₄) fun found w₅ _ hw₅ _ => ?_
    cases found with
    | some f => exact .pure hw₅ ⟨.start _ _, rfl⟩
    | none =>
      refine .bind (hw₅.childFrame classFrame _) fun f w₆ _ hw₆ _ => ?_
      exact .pure hw₆ ⟨.start _ _, rfl⟩

theorem runInterpreted (hw : w.Discreet S) (tree : Node) (m : SymbolId) (containing : ClosedType)
    (typeArgs : List ClosedType) (receiver : Option ObjectRef) {args : List Value}
    (ha : ∀ v ∈ args, S.Allows w v) :
    Obeys S.world (c.runInterpreted tree m containing typeArgs receiver args) w S.Allows :=
  .bind (prepare hw m containing typeArgs receiver ha) fun _ _ _ hu ⟨ha, hi⟩ =>
    h.runBody hu ha hi tree

theorem invokeHandle (hw : w.Discreet S) (m : ResolvedMember) {handle : Handle σ}
    (hh : handle.Discreet S.holds) {receiver : Option Value} (hr : ∀ v ∈ receiver, S.Allows w v)
    {args : List Value} (ha : ∀ v ∈ args, S.Allows w v) (typeArgs : List ClosedType) :
    Obeys S.world (c.invokeHandle m handle receiver args typeArgs) w S.Allows := by
  simp only [Context.invokeHandle]
  split
  · exact .fail hw
  · exact h.callHost _ hw (hh.invoke _ hr ha)

theorem callTarget (hw : w.Discreet S) (m : ResolvedMember) {target : Target σ}
    (ht : target.Discreet S.holds) {receiver : Option Value} (hr : ∀ v ∈ receiver, S.Allows w v)
    {args : List Value} (ha : ∀ v ∈ args, S.Allows w v) :
    Obeys S.world (c.callTarget m target receiver args) w S.Allows := by
  cases target with
  | interpreted tree =>
    refine .bind (.known hw) fun o u hl hu _ => ?_
    exact h.runInterpreted hu tree _ _ _ o (Secrecy.Allows.all_later ha hl)
  | physical handle => exact h.invokeHandle hw m ht hr ha _
  | empty => exact .pure hw (Secrecy.allows_of_arrays rfl)
  | bodiless | slot | staticSlot | frameSlot | accessors => exact .fail hw

theorem callMember (hw : w.Discreet S) (m : ResolvedMember) {receiver : Option Value}
    (hr : ∀ v ∈ receiver, S.Allows w v) {args : List Value} (ha : ∀ v ∈ args, S.Allows w v)
    (isVirtual : Bool) : Obeys S.world (c.callMember m receiver args isVirtual) w S.Allows := by
  refine .bind (h.target hw m.symbol) fun target u hl hu ht => ?_
  refine .bind (.gets hu) fun derived v hl' hv _ => ?_
  have hl := S.world.trans hl hl'
  cases derived with
  | some entry => exact h.runInterpreted hv _ _ _ _ _ (Secrecy.Allows.all_later ha hl)
  | none =>
    exact h.callTarget hv m ht (Secrecy.Allows.option_later hr hl) (Secrecy.Allows.all_later ha hl)

omit h in
theorem boundFrame (hw : w.Discreet S) (o : ObjectRef) :
    Obeys S.world (c.boundFrame o) w fun _ _ => True := by
  cases hi : w.instanceFrame? c.session o with
  | some f => exact .still (by simp only [Context.boundFrame, hi]; rfl) hw fun _ _ => trivial
  | none => exact .still (by simp only [Context.boundFrame, hi]; rfl) hw fun _ _ => trivial

theorem getMember (hw : w.Discreet S) (m : ResolvedMember) {receiver : Option Value}
    (hr : ∀ v ∈ receiver, S.Allows w v) {index : List Value} (hi : ∀ v ∈ index, S.Allows w v)
    (isVirtual : Bool) : Obeys S.world (c.getMember m receiver index isVirtual) w S.Allows := by
  refine .bind (h.target hw m.symbol) fun target u hl hu ht => ?_
  have hr := Secrecy.Allows.option_later hr hl
  have hi := Secrecy.Allows.all_later hi hl
  cases target with
  | physical handle =>
    refine .ite (fun _ => .fail hu) fun _ => ?_
    refine .bind (.known hu) fun member v hl hv _ => ?_
    have hr := Secrecy.Allows.option_later hr hl
    refine .ite (fun _ => h.callHost _ hv (ht.load receiver hr)) fun _ => ?_
    exact h.invokeHandle hv m ht hr (Secrecy.Allows.all_later hi hl) []
  | slot =>
    refine .bind (.known hu) fun o v _ hv _ => ?_
    refine .bind (.gets hv) fun stored x _ hx hs => ?_
    cases stored with
    | some v => exact .pure hx (hx.loadSlot? hs.symm)
    | none => exact .ofExcept hx fun v hd =>
      Secrecy.allows_of_arrays (Host.arrays_storageDefault hd)
  | staticSlot =>
    refine .bind (.gets hu) fun stored x _ hx hs => ?_
    cases stored with
    | some v => exact .pure hx ((hx.sessions c.session).statics hs.symm)
    | none => exact .ofExcept hx fun v hd =>
      Secrecy.allows_of_arrays (Host.arrays_storageDefault hd)
  | frameSlot name =>
    refine .bind (.known hu) fun o v _ hv _ => ?_
    refine .bind (boundFrame hv o) fun f x _ hx _ => ?_
    refine .bind (.gets hx) fun read y _ hy hs => .ofExcept hy fun v hv => ?_
    exact hy.readName (hs ▸ hv)
  | accessors getter setter =>
    cases getter with
    | some getter => exact h.callMember hu _ hr hi isVirtual
    | none => exact .fail hu
  | interpreted | bodiless | empty => exact .fail hu

theorem setMember (hw : w.Discreet S) (m : ResolvedMember) {receiver : Option Value}
    (hr : ∀ v ∈ receiver, S.Allows w v) {index : List Value} (hi : ∀ v ∈ index, S.Allows w v)
    {v : Value} (hv : S.Allows w v) (isVirtual : Bool) :
    Obeys S.world (c.setMember m receiver index v isVirtual) w fun _ _ => True := by
  refine .bind (h.target hw m.symbol) fun target u hl hu ht => ?_
  have hr := Secrecy.Allows.option_later hr hl
  have hv := hv.later hl
  have hi : ∀ x ∈ index ++ [v], S.Allows u x := by
    simp only [List.mem_append, List.mem_singleton]
    rintro x (hx | rfl)
    · exact (hi x hx).later hl
    · exact hv
  cases target with
  | physical handle =>
    refine .ite (fun _ => .fail hu) fun _ => ?_
    refine .bind (.known hu) fun member x hl hx _ => ?_
    have hr := Secrecy.Allows.option_later hr hl
    refine .ite (fun _ => h.callHost _ hx (ht.store receiver v hr (hv.later hl))) fun _ => ?_
    refine .bind (h.invokeHandle hx m ht hr (Secrecy.Allows.all_later hi hl) []) ?_
    exact fun _ _ _ hy _ => .pure hy trivial
  | slot =>
    refine .bind (.known hu) fun o x hl hx _ => ?_
    exact .modify (hx.storeSlot o m.symbol (hv.later hl)) (Secrecy.le_of_arrays rfl)
  | staticSlot =>
    exact .modify (hu.storeStatic c.session _ hv) (Secrecy.le_of_arrays rfl)
  | frameSlot name =>
    refine .bind (.known hu) fun o x hl hx _ => ?_
    refine .bind (boundFrame hx o) fun f y hl' hy _ => ?_
    exact hy.assign f name (hv.later (S.world.trans hl hl'))
  | accessors getter setter =>
    cases setter with
    | some setter =>
      exact .bind (h.callMember hu _ hr hi isVirtual) fun _ _ _ hy _ => .pure hy trivial
    | none => exact .fail hu
  | interpreted | bodiless | empty => exact .fail hu

/-! ## Member tables -/

omit h

theorem registerBody (hw : w.Discreet S) (context : ClosedType) (m : SymbolId)
    (overrides : Option SymbolId) (table : MemberTable) :
    Obeys S.world (c.registerBody context m overrides table) w fun _ _ => True := by
  simp only [Context.registerBody]
  split
  · exact .pure hw trivial
  · split
    · exact .pure hw trivial
    · exact .bind (hw.register c.session _) fun _ _ _ hu _ => .pure hu trivial

theorem registerAccessors (hw : w.Discreet S) (context : ClosedType) (accessors : List SymbolId)
    (table : MemberTable) :
    Obeys S.world (c.registerAccessors context accessors table) w fun _ _ => True := by
  induction accessors generalizing w table with
  | nil => exact .pure hw trivial
  | cons accessor rest ih =>
    refine .bind (.known hw) fun member u _ hu _ => ?_
    exact .bind (registerBody hu _ _ _ _) fun table _ _ hv _ => ih hv table

theorem registerMember (hw : w.Discreet S) (context : ClosedType) (mostDerived : Bool) (m : SymbolId)
    (table : MemberTable) :
    Obeys S.world (c.registerMember context mostDerived m table) w fun _ _ => True := by
  refine .bind (.known hw) fun member u _ hu _ => .ite (fun _ => .pure hu trivial) fun _ => ?_
  split
  · exact registerBody hu _ _ _ _
  · exact .ite (fun _ => registerBody hu _ _ _ _) fun _ => .pure hu trivial
  · exact registerAccessors hu _ _ _
  · exact .pure hu trivial

theorem registerMembers (hw : w.Discreet S) (context : ClosedType) (mostDerived : Bool)
    (members : List SymbolId) (table : MemberTable) :
    Obeys S.world (c.registerMembers context mostDerived members table) w fun _ _ => True := by
  induction members generalizing w table with
  | nil => exact .pure hw trivial
  | cons m rest ih => exact .bind (registerMember hw _ _ _ _) fun table _ _ hu _ => ih hu table

theorem registerLevels (hw : w.Discreet S) (n : Nat) (type : ClosedType) (mostDerived : Bool)
    (table : MemberTable) :
    Obeys S.world (c.registerLevels n type mostDerived table) w fun _ _ => True := by
  induction n generalizing w type mostDerived table with
  | zero => exact .exhausted hw
  | succ n ih =>
    simp only [Context.registerLevels]
    split
    · exact .pure hw trivial
    · refine .bind (.known hw) fun descriptor u _ hu _ => .ite (fun _ => .pure hu trivial) fun _ => ?_
      refine .bind (registerMembers hu _ _ _ _) fun table v _ hv _ => ?_
      split
      · exact .pure hv trivial
      · exact .bind (.known hv) fun closed _ _ hx _ => ih hx closed false table

theorem memberTable (hw : w.Discreet S) (type : ClosedType) :
    Obeys S.world (c.memberTable type) w fun _ _ => True := by
  refine .bind (.gets hw) fun found u _ hu _ => ?_
  cases found with
  | some table => exact .pure hu trivial
  | none =>
    refine .bind (registerLevels hu _ _ _ _) fun table v _ hv _ => ?_
    refine .bind (.modify (hv.mapSession ?_) (Secrecy.le_of_arrays rfl)) fun _ _ _ hx _ =>
      .pure hx trivial
    exact ⟨(hv.sessions c.session).statics, (hv.sessions c.session).targets⟩

theorem bind (hw : w.Discreet S) (o : ObjectRef) (type : ClosedType) :
    Obeys S.world (c.bind o type) w fun _ _ => True := by
  refine .bind (hw.classFrame _ _) fun classFrame u _ hu _ => ?_
  refine .bind (hu.childFrame _ _) fun frame v _ hv _ => ?_
  refine .bind (memberTable hv type) fun table x _ hx _ => ?_
  exact .bind (hx.bind o trivial) fun _ _ _ hy _ => .pure hy trivial

/-! ## Making objects -/

include h

theorem nodes {inits : List ArrayInit} {xs : List Node} {s : Machine σ} (hs : s.Discreet S inits)
    (hx : ∀ x ∈ xs, S.Permits inits x) :
    Obeys (S.machine inits) (c.evalList xs) s fun s vs => ∀ v ∈ vs, S.Allows s.world v :=
  .mapList (fun x hm _ _ ht => h.eval ht (hx x hm)) hs fun hl hv => hv.later hl

/-- The arguments of an initializer, evaluated in an activation that has nothing else. -/
theorem arguments (hw : w.Discreet S) (frame : FrameId) (args : List Node) :
    Obeys S.world (Run.within (.start frame none) (c.evalList args)) w
      fun w vs => ∀ v ∈ vs, S.Allows w v := by
  have started : Machine.Discreet S [] ⟨w, .start frame none⟩ := ⟨hw, .start frame none, rfl⟩
  exact Machine.Discreet.within (h.nodes started fun _ _ => .inl nofun)

theorem constructorChain (hw : w.Discreet S) (n : Nat) (m : SymbolId) (type : ClosedType)
    {args : List Value} (ha : ∀ v ∈ args, S.Allows w v) :
    Obeys S.world (c.constructorChain n m type args) w fun w chain =>
      (∀ v ∈ chain.physical, S.Allows w v) ∧ ∀ vs ∈ chain.interpreted, ∀ v ∈ vs, S.Allows w v := by
  induction n generalizing w m type args with
  | zero => exact .exhausted hw
  | succ n ih =>
    refine .bind (h.target hw m) fun target w₁ hl₁ hw₁ _ => ?_
    split
    · split
      · exact .pure hw₁ ⟨nofun, nofun⟩
      · rename_i next nextArgs _
        refine .bind (.known hw₁) fun member w₂ hl₂ hw₂ _ => .ite (fun _ => .fail hw₂) fun _ => ?_
        refine .ite (fun _ => .fail hw₂) fun _ => ?_
        refine .bind (hw₂.classFrame _ _) fun classFrame w₃ hl₃ hw₃ _ => ?_
        refine .bind (hw₃.childFrame _ _) fun frame w₄ hl₄ hw₄ _ => ?_
        have hl := S.world.trans hl₁ (S.world.trans hl₂ (S.world.trans hl₃ hl₄))
        refine .bind (.forList (fun p hp u hu hd => ?_) hw₄) fun _ w₅ _ hw₅ _ => ?_
        · exact hd.define frame p.1.name ((ha p.2 (List.of_mem_zip hp).2).later (S.world.trans hl hu))
        refine .bind (.gets hw₅) fun resolver w₆ _ hw₆ _ => ?_
        refine .bind (.known hw₆) fun nextType w₇ _ hw₇ _ => ?_
        refine .bind (h.target hw₇ _) fun nextTarget w₈ _ hw₈ _ => ?_
        split
        · exact .bind (h.arguments hw₈ frame nextArgs) fun values _ _ hu hv => .pure hu ⟨hv, nofun⟩
        · refine .bind (h.arguments hw₈ frame nextArgs) fun values w₉ _ hw₉ hv => ?_
          refine .bind (ih hw₉ next.symbol nextType hv) fun rest u hl hu hr => .pure hu ⟨hr.1, ?_⟩
          exact List.forall_mem_cons.2 ⟨Secrecy.Allows.all_later hv hl, hr.2⟩
        · exact .pure hw₈ ⟨nofun, nofun⟩
    · exact .pure hw₁ ⟨nofun, nofun⟩

theorem manufacture (hw : w.Discreet S) (type : ClosedType) {args : List Value}
    (ha : ∀ v ∈ args, S.Allows w v) :
    Obeys S.world (c.manufacture type args) w fun _ _ => True := by
  refine .bind (.modify (hw.record _) (Secrecy.le_of_arrays rfl)) fun _ u hl hu _ => ?_
  refine .bind (World.Discreet.noting (.known hu)) fun backing v hl' hv given => ?_
  exact h.callHost _ hv (h.host.backing given args (Secrecy.Allows.all_later ha (S.world.trans hl hl')))

omit h in
theorem declareProperties (hw : w.Discreet S) (frame : FrameId) (members : List SymbolId) :
    Obeys S.world (c.declareProperties frame members) w fun _ _ => True := by
  induction members generalizing w with
  | nil => exact .pure hw trivial
  | cons m rest ih =>
    refine .bind (.known hw) fun member u _ hu _ => ?_
    split
    · exact .bind (hu.declare frame member.name) fun _ _ _ hv _ => ih hv
    · exact ih hu

theorem activateImplicit (hw : w.Discreet S) (type : ClosedType) (descriptor : TypeDescriptor) :
    Obeys S.world (c.activateImplicit type descriptor) w fun _ _ => True := by
  refine .bind (h.manufacture hw type nofun) fun o u _ hu _ => ?_
  refine .bind (bind hu o type) fun frame v _ hv _ => ?_
  split
  · exact .bind (declareProperties hv frame _) fun _ _ _ hx _ => .pure hx trivial
  · exact .pure hv trivial

theorem activateWith (hw : w.Discreet S) (constructor : MemberDescriptor) (type : ClosedType)
    {args : List Value} (ha : ∀ v ∈ args, S.Allows w v) :
    Obeys S.world (c.activateWith constructor type args) w fun _ _ => True := by
  refine .ite (fun _ => .fail hw) fun _ => .ite (fun _ => .fail hw) fun _ => ?_
  refine .bind (.known hw) fun descriptor u hl hu _ => ?_
  have ha := Secrecy.Allows.all_later ha hl
  refine .bind (h.target hu _) fun target v hl hv ht => ?_
  have ha := Secrecy.Allows.all_later ha hl
  cases target with
  | physical handle =>
    refine .ite (fun _ => .fail hv) fun _ => ?_
    refine .bind (h.callHost _ hv (ht.invoke _ nofun ha)) fun made x _ hx _ => ?_
    split
    · exact .pure hx trivial
    · exact .fail hx
  | interpreted tree =>
    refine .bind (h.constructorChain hv _ _ _ ha) fun chain x hl hx hc => ?_
    have ha := Secrecy.Allows.all_later ha hl
    refine .bind (h.manufacture hx _ hc.1) fun o y hl hy _ => ?_
    refine .bind (bind hy o type) fun _ z hl' hz _ => ?_
    have hl := S.world.trans hl hl'
    have ha := Secrecy.Allows.all_later ha hl
    refine .bind (prepare hz _ _ _ _ ha) fun a z' hl'' hz' hp => ?_
    have hl := S.world.trans hl hl''
    have started : { a with prepared := chain.interpreted }.Discreet S z' :=
      { hp.1 with prepared := fun vs hv => Secrecy.Allows.all_later (hc.2 vs hv) hl }
    exact .bind (h.runBody hz' started hp.2 tree) fun _ _ _ hu _ => .pure hu trivial
  | empty => exact h.activateImplicit hv type descriptor
  | slot | staticSlot | frameSlot | accessors | bodiless => exact .fail hv

theorem activate (hw : w.Discreet S) (type : ClosedType) {args : List Value}
    (ha : ∀ v ∈ args, S.Allows w v) :
    Obeys S.world (c.activate type args) w fun _ _ => True := by
  refine .bind (.known hw) fun descriptor u hl hu _ => ?_
  refine .bind (.ofStop (Q := fun _ _ => True) hu fun _ _ => trivial) fun chosen v hl' hv _ => ?_
  cases chosen with
  | some constructor =>
    exact h.activateWith hv constructor type (Secrecy.Allows.all_later ha (S.world.trans hl hl'))
  | none => exact h.activateImplicit hv type descriptor

theorem serve (hw : w.Discreet S) (table : MemberTable) (o : ObjectRef) (m : SymbolId)
    (typeArgs : List ClosedType) {args : List Value} (ha : ∀ v ∈ args, S.Allows w v) :
    Obeys S.world (c.serve table o m typeArgs args) w S.Allows := by
  refine .bind (.gets hw) fun entry u hl hu _ => ?_
  have ha := Secrecy.Allows.all_later ha hl
  cases entry with
  | some entry => exact h.runInterpreted hu _ _ _ _ _ ha
  | none =>
    refine h.callMember hu _ (fun v hv => ?_) ha false
    cases hv
    exact Secrecy.allows_of_arrays rfl

end Context.Discreet

end OpTree
