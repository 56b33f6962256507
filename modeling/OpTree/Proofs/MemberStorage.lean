/-
The storage of members. A field, a property without accessors and a property of an
anonymous type are kept by the session when no handle reaches them: in a slot of the
object, in the session's static storage for the containing type, or in the frame of the
object under the property's name (`Host.storage?`). Behind reads and writes these three
are one map: a location (`Location`) is the object and the member, the type and the
member, or the object and the name, and what is read at one is what was last written at
it. What was never written is read as the default of the declared type; only the property
of an anonymous object has none, and reading it fails.

One call keeps to the map (`World.Follows`), so any sequence of calls does
(`Context.storage_latest`). Slots and static storage are keyed by what they are looked up
by; that objects do not share frames, and that no name of an object is found in the class
frame that many objects share, is known of every world that calls lead to (`World.Housed`).
-/
import Mathlib.Data.List.Permutation
import OpTree.Proofs.Decisions
import OpTree.Proofs.Instances

namespace OpTree

/-! ## Locations -/

/-- Where a member is kept that no handle reaches. -/
inductive Storage where
  | slot | static
  | property (name : String)

namespace Storage

def ofStatic (isStatic : Bool) : Storage := if isStatic then static else slot

def target {σ : Type} : Storage → Target σ
  | slot => .slot
  | static => .staticSlot
  | property name => .frameSlot name

end Storage

/-- Where the member is kept: fields and properties are, unless they are loaded, are
reached by a handle or have accessors. The properties of an anonymous type are kept by
name. -/
def Host.storage? {σ : Type} (host : Host σ) (m : SymbolId) : Option Storage :=
  match host.member m, host.handle m with
  | .ok member, .ok none =>
    if member.origin = .loaded then none
    else
      match member.kind with
      | .field _ => some (.ofStatic member.isStatic)
      | .property _ _ getter setter =>
        match host.typeDescriptor member.declaringType with
        | .ok declaring =>
          if declaring.kind = .anonymous then some (.property member.name)
          else if getter.isSome || setter.isSome then none
          else some (.ofStatic member.isStatic)
        | .error _ => none
      | .method .. | .constructor _ => none
  | _, _ => none

/-- What is read and written on its own. -/
inductive Location where
  | slot (object : Nat) (member : SymbolId)
  | static (type : ClosedType) (member : SymbolId)
  | property (object : Nat) (name : String)
deriving DecidableEq

/-- The location of a member that is reached on a receiver. -/
def Storage.location? (m : ResolvedMember) (receiver : Option Value) : Storage → Option Location
  | slot =>
    match receiver with
    | some (.object o) => some (.slot o.id m.symbol)
    | _ => none
  | static => some (.static m.containing m.symbol)
  | property name =>
    match receiver with
    | some (.object o) => some (.property o.id name)
    | _ => none

namespace Storage

variable {m : ResolvedMember} {receiver : Option Value} {l : Location}

theorem location?_slot (h : slot.location? m receiver = some l) :
    ∃ o, receiver = some (.object o) ∧ l = .slot o.id m.symbol := by
  simp only [location?] at h
  split at h
  · cases h
    exact ⟨_, rfl, rfl⟩
  · cases h

theorem location?_property {name : String} (h : (property name).location? m receiver = some l) :
    ∃ o, receiver = some (.object o) ∧ l = .property o.id name := by
  simp only [location?] at h
  split at h
  · cases h
    exact ⟨_, rfl, rfl⟩
  · cases h

end Storage

namespace Host

variable {σ : Type} (host : Host σ)

/-- The location that a call reads or writes. -/
def location? : Call → Option Location
  | .read m receiver _ _ | .write m receiver _ _ _ =>
    (host.storage? m.symbol).bind (Storage.location? m receiver)
  | _ => none

/-- The declared type of a member's storage, closed by the arguments of the containing
type. -/
def storedType (m : ResolvedMember) : Except EvalError ClosedType := do
  let member ← host.member m.symbol
  match member.kind.storedType? with
  | some type => type.close (Substitution.ofType m.containing.typeArgs).resolver
  | none => return .void

theorem decide_of_storage? {m : SymbolId} {s : Storage} (h : host.storage? m = some s) :
    host.decide m = .ok s.target := by
  unfold storage? at h
  split at h
  · rename_i member hm hh
    unfold decide
    rw [hm, hh]
    split at h
    · cases h
    · rename_i loaded
      show (if member.origin = .loaded then _ else _) = _
      rw [if_neg loaded]
      cases hk : member.kind with
      | field type =>
        simp only [hk] at h ⊢
        cases h
        cases member.isStatic <;> rfl
      | property type parameters getter setter =>
        simp only [hk] at h ⊢
        split at h
        · rename_i declaring hd
          rw [hd]
          show (if declaring.kind = .anonymous then _ else _) = _
          split at h
          · rename_i anonymous
            cases h
            rw [if_pos anonymous]
            rfl
          · rename_i named
            rw [if_neg named]
            split at h
            · cases h
            · rename_i automatic
              cases h
              rw [if_neg automatic]
              cases member.isStatic <;> rfl
        · cases h
      | method | constructor =>
        simp only [hk] at h
        cases h
  · cases h

/-- What a slot holds before anything is stored in it is the default of its type. -/
theorem storageDefault_eq (m : ResolvedMember) :
    host.storageDefault m = (host.storedType m).map ClosedType.defaultValue := by
  unfold storageDefault storedType
  cases host.member m.symbol with
  | error e => rfl
  | ok member =>
    show (match member.kind.storedType? with | some type => _ | none => _) =
      Except.map _ (match member.kind.storedType? with | some type => _ | none => _)
    cases member.kind.storedType? with
    | none => rfl
    | some type => cases type.close (Substitution.ofType m.containing.typeArgs).resolver <;> rfl

end Host

/-! ## What is kept -/

namespace World

variable {σ : Type} (w : World σ) (s : SessionId)

/-- What a name is bound to in the frame of an object. -/
def property? (object : Nat) (name : String) : Option Binding :=
  (w.instanceFrame? s ⟨object, .object⟩).bind fun f => w.frames.bindingAt? f name

/-- What was stored at a location. -/
def content? : Location → Option Value
  | .slot object m => w.loadSlot? ⟨object, .object⟩ m
  | .static type m => (w.session s).statics.get? (type, m)
  | .property object name =>
    match w.property? s object name with
    | some (.assigned v) => some v
    | some .unassigned | none => none

/-- Something can be stored at the location: a property of an anonymous object is declared
when the object is made, everything else comes to be when it is written. -/
def accepts : Location → Bool
  | .slot .. | .static .. => true
  | .property object name => (w.property? s object name).isSome

/-- The location is one of the session's: static storage, or an object that the session
has bound. -/
def Owns : Location → Prop
  | .slot object _ | .property object _ => (w.bindingOf? s ⟨object, .object⟩).isSome = true
  | .static .. => True

/-- How a location is read at which nothing was stored. -/
def unwritten (host : Host σ) (m : ResolvedMember) : Location → Except Stop Value
  | .slot .. | .static .. => Stop.ofExcept ((host.storedType m).map ClosedType.defaultValue)
  | .property object name =>
    .error (.failed (.of (if w.accepts s (.property object name) then .unassignedUse name
      else .undefinedName name)))

/-- How a location is read. -/
def readAt (host : Host σ) (m : ResolvedMember) (l : Location) : Except Stop Value :=
  match w.content? s l with
  | some v => .ok v
  | none => w.unwritten s host m l

/-- How a write ends. -/
def writeAt : Location → Except Stop Value
  | .slot .. | .static .. => .ok .void
  | .property object name =>
    if w.accepts s (.property object name) then .ok .void
    else .error (.failed (.of (.undefinedName name)))

end World

section steps

variable {σ : Type} {host : Host σ} {w w' : World σ} {s : SessionId}

theorem World.Housed.houses (housed : w.Housed) {o : ObjectRef} {f : FrameId}
    (h : w.instanceFrame? s o = some f) : w.frames.Houses f o := by
  unfold World.instanceFrame? World.bindingOf? at h
  split at h
  · rename_i s' frame table hl
    split at h
    · cases h
      exact housed.links hl
    · cases h
  · cases h

theorem World.Housed.readName (housed : w.Housed) {o : ObjectRef} {f : FrameId}
    (h : w.instanceFrame? s o = some f) (m : ResolvedMember) (name : String) :
    Stop.ofExcept (w.readName f name) = w.readAt s host m (.property o.id name) := by
  have bound : w.property? s o.id name = w.frames.bindingAt? f name := by
    show (w.instanceFrame? s o).bind _ = _
    rw [h]
    rfl
  simp only [World.readName, FrameStore.read, World.readAt, World.content?, World.unwritten,
    World.accepts, (housed.houses h).lookup?, bound]
  cases w.frames.bindingAt? f name with
  | none => rfl
  | some b => cases b <;> rfl

theorem World.SameButTargets.content? (h : w.SameButTargets w') (l : Location) :
    w'.content? s l = w.content? s l := by
  cases l with
  | slot object m => simp only [World.content?, World.loadSlot?, h.objects]
  | static type m => simp only [World.content?, (h.sessions s).statics]
  | property object name =>
    simp only [World.content?, World.property?, World.instanceFrame?, World.bindingOf?, World.link?,
      h.objects, h.frames]

theorem World.SameButTargets.housed (h : w.SameButTargets w') (housed : w.Housed) : w'.Housed := by
  refine (housed.same h.frames.symm (fun s => (h.sessions s).classFrames.symm) ?_).2
  intro o s f table hl
  rw [← hl]
  simp only [World.link?, h.objects]

/-! ## One write -/

theorem World.link?_storeSlot (o o' : ObjectRef) (m : SymbolId) (v : Value) :
    (w.storeSlot o m v).link? o' = w.link? o' := by
  simp only [World.link?, World.storeSlot, Array.getElem?_modify]
  by_cases hid : o.id = o'.id
  · rw [if_pos hid]
    cases w.objects[o'.id]? <;> rfl
  · rw [if_neg hid]

theorem World.exists_cell {i : Nat} (h : (w.bindingOf? s ⟨i, .object⟩).isSome = true) :
    ∃ cell, w.objects[i]? = some cell := by
  unfold World.bindingOf? World.link? at h
  cases hc : w.objects[i]? with
  | some cell => exact ⟨cell, rfl⟩
  | none =>
    rw [hc] at h
    cases h

theorem World.content?_storeSlot {o : ObjectRef} {m : SymbolId} (owns : w.Owns s (.slot o.id m))
    (v : Value) (l : Location) : (w.storeSlot o m v).content? s l =
      if l = .slot o.id m then some v else w.content? s l := by
  cases l with
  | slot i m' =>
    simp only [World.content?, World.loadSlot?, World.storeSlot, Array.getElem?_modify,
      Location.slot.injEq]
    by_cases hi : o.id = i
    · subst hi
      obtain ⟨cell, hc⟩ := World.exists_cell owns
      by_cases hm : m' = m
      · subst hm
        simp [hc]
      · have hm' : m ≠ m' := fun h => hm h.symm
        simp [hc, hm, Table.get?_insert_other _ hm']
    · have hi' : i ≠ o.id := fun h => hi h.symm
      simp [hi, hi']
  | static type m' =>
    simp only [reduceCtorEq, if_false]
    rfl
  | property i name =>
    simp only [reduceCtorEq, if_false]
    simp only [World.content?, World.property?, World.instanceFrame?, World.bindingOf?,
      World.link?_storeSlot]
    rfl

theorem World.content?_storeStatic (type : ClosedType) (m : SymbolId) (v : Value) (l : Location) :
    (w.storeStatic s (type, m) v).content? s l =
      if l = .static type m then some v else w.content? s l := by
  cases l with
  | slot i m' =>
    simp only [reduceCtorEq, if_false]
    rfl
  | static type' m' =>
    simp only [World.content?, World.storeStatic, World.session_mapSession_self,
      Location.static.injEq]
    by_cases h : type' = type ∧ m' = m
    · obtain ⟨rfl, rfl⟩ := h
      rw [if_pos ⟨rfl, rfl⟩]
      exact Table.get?_insert_self ..
    · rw [if_neg h]
      have other : (type, m) ≠ (type', m') := by
        intro he
        cases he
        exact h ⟨rfl, rfl⟩
      exact Table.get?_insert_other (w.session s).statics other v
  | property i name =>
    simp only [reduceCtorEq, if_false]
    rfl

theorem World.Housed.property?_bindAt (housed : w.Housed) {o : ObjectRef} {f : FrameId}
    (h : w.instanceFrame? s o = some f) (name : String) (b : Binding) (i : Nat) (name' : String) :
    ({ w with frames := w.frames.bindAt f name b } : World σ).property? s i name' =
      if i = o.id ∧ name = name' then some b else w.property? s i name' := by
  have houses := housed.houses h
  show (w.instanceFrame? s ⟨i, .object⟩).bind (fun g => (w.frames.bindAt f name b).bindingAt? g name') =
    if _ then _ else (w.instanceFrame? s ⟨i, .object⟩).bind fun g => w.frames.bindingAt? g name'
  by_cases hi : i = o.id
  · subst hi
    have same : w.instanceFrame? s ⟨o.id, .object⟩ = some f := h
    rw [same, Option.bind_some, Option.bind_some, FrameStore.bindingAt?_bindAt houses.has]
    simp only [true_and]
  · rw [if_neg fun hc => hi hc.1]
    cases hg : w.instanceFrame? s ⟨i, .object⟩ with
    | none => rfl
    | some g =>
      have other : g ≠ f := by
        rintro rfl
        exact hi ((housed.houses hg).id_eq houses)
      rw [Option.bind_some, Option.bind_some, FrameStore.bindingAt?_bindAt houses.has,
        if_neg fun hc => other hc.1]

theorem World.Housed.accepts_bindAt (housed : w.Housed) {o : ObjectRef} {f : FrameId}
    (h : w.instanceFrame? s o = some f) {name : String}
    (declared : w.accepts s (.property o.id name) = true) (v : Value) (l : Location) :
    ({ w with frames := w.frames.bindAt f name (.assigned v) } : World σ).accepts s l =
      w.accepts s l := by
  cases l with
  | slot | static => rfl
  | property i name' =>
    simp only [World.accepts, housed.property?_bindAt h] at declared ⊢
    by_cases hc : i = o.id ∧ name = name'
    · obtain ⟨rfl, rfl⟩ := hc
      rw [if_pos ⟨rfl, rfl⟩, declared]
      rfl
    · rw [if_neg hc]

theorem World.Housed.content?_bindAt (housed : w.Housed) {o : ObjectRef} {f : FrameId}
    (h : w.instanceFrame? s o = some f) (name : String) (v : Value) (l : Location) :
    ({ w with frames := w.frames.bindAt f name (.assigned v) } : World σ).content? s l =
      if l = .property o.id name then some v else w.content? s l := by
  cases l with
  | slot i m' =>
    simp only [reduceCtorEq, if_false]
    rfl
  | static type m' =>
    simp only [reduceCtorEq, if_false]
    rfl
  | property i name' =>
    simp only [World.content?, housed.property?_bindAt h, Location.property.injEq]
    by_cases hc : i = o.id ∧ name = name'
    · rw [if_pos hc, if_pos ⟨hc.1, hc.2.symm⟩]
    · rw [if_neg hc, if_neg fun hc' => hc ⟨hc'.1, hc'.2.symm⟩]

end steps

/-! ## One call -/

/-- What a call wrote at a location, by how it ended. -/
def Host.written? {σ : Type} (host : Host σ) (l : Location) : Call × Except Stop Value → Option Value
  | (.write m receiver index v isVirtual, .ok _) =>
    if host.location? (.write m receiver index v isVirtual) = some l then some v else none
  | _ => none

/-- The world after a read or a write that ended in some way: what was kept is kept, but
for what was written. -/
structure World.Follows {σ : Type} (host : Host σ) (s : SessionId) (entry : Call × Except Stop Value)
    (w w' : World σ) : Prop where
  housed : w'.Housed
  decided : w'.Decided host
  links : ∀ o, w'.link? o = w.link? o
  accepts : ∀ l, w'.accepts s l = w.accepts s l
  content : ∀ l, w'.content? s l = (host.written? l entry).or (w.content? s l)

/-- How a read or a write of a location ends at which something is kept or nothing. -/
def Call.answer {σ : Type} (host : Host σ) (w : World σ) (s : SessionId) (l : Location)
    (kept : Option Value) : Call → Except Stop Value
  | read m _ _ _ =>
    match kept with
    | some v => .ok v
    | none => w.unwritten s host m l
  | _ => w.writeAt s l

section calls

variable {σ : Type} {c : Context σ} {w w' : World σ} {m : ResolvedMember} {index : List Value}
  {isVirtual : Bool} {v : Value}

theorem World.SameButTargets.accepts {s : SessionId} (h : w.SameButTargets w') (l : Location) :
    w'.accepts s l = w.accepts s l := by
  cases l with
  | slot | static => rfl
  | property object name =>
    simp only [World.accepts, World.property?, World.instanceFrame?, World.bindingOf?, World.link?,
      h.objects, h.frames]

/-- Nothing was written, and at most a decision was recorded. -/
theorem World.SameButTargets.follows {host : Host σ} {s : SessionId} (h : w.SameButTargets w')
    (housed : w.Housed) (decided : w'.Decided host) {entry : Call × Except Stop Value}
    (nothing : ∀ l, host.written? l entry = none) : w.Follows host s entry w' where
  housed := h.housed housed
  decided := decided
  links o := by simp only [World.link?, h.objects]
  accepts := h.accepts
  content l := by rw [nothing, h.content?, Option.none_or]

theorem Context.target_stored (decided : w.Decided c.host) {storage : Storage}
    (h : c.host.storage? m.symbol = some storage) :
    ∃ w', c.target m.symbol w = (.ok storage.target, w') ∧ w.SameButTargets w' ∧ w'.Decided c.host :=
  c.target_of_decide decided (c.host.decide_of_storage? h)

theorem World.exists_instanceFrame {s : SessionId} {o : ObjectRef} {name : String}
    (owns : w.Owns s (.property o.id name)) : ∃ f, w.instanceFrame? s o = some f := by
  obtain ⟨x, hx⟩ := Option.isSome_iff_exists.1 owns
  have bound : w.bindingOf? s o = some x := hx
  exact ⟨x.1, by rw [World.instanceFrame?, bound]; rfl⟩

theorem Context.boundFrame_of_some {o : ObjectRef} {f : FrameId}
    (h : w.instanceFrame? c.session o = some f) : c.boundFrame o w = (.ok f, w) := by
  unfold boundFrame
  rw [h]

theorem World.SameButTargets.instanceFrame? (same : w.SameButTargets w') (s : SessionId)
    (o : ObjectRef) : w'.instanceFrame? s o = w.instanceFrame? s o := by
  simp only [World.instanceFrame?, World.bindingOf?, World.link?, same.objects]

theorem World.SameButTargets.readAt {host : Host σ} {s : SessionId} (same : w.SameButTargets w')
    (l : Location) : w'.readAt s host m l = w.readAt s host m l := by
  have unwritten : w'.unwritten s host m l = w.unwritten s host m l := by
    cases l with
    | slot | static => rfl
    | property object name => rw [World.unwritten, World.unwritten, same.accepts]
  rw [World.readAt, World.readAt, same.content?, unwritten]

/-- A read answers what is kept at its location, and writes nothing. -/
theorem Context.read_stored (housed : w.Housed) (decided : w.Decided c.host)
    {receiver : Option Value} {l : Location}
    (located : c.host.location? (.read m receiver index isVirtual) = some l)
    (owns : w.Owns c.session l) :
    ∃ w', c.getMember m receiver index isVirtual w = (w.readAt c.session c.host m l, w') ∧
      w.SameButTargets w' ∧ w'.Decided c.host := by
  obtain ⟨storage, hs, hl⟩ := Option.bind_eq_some_iff.1 located
  obtain ⟨w', reached, same, decided'⟩ := c.target_stored decided hs
  refine ⟨w', ?_, same, decided'⟩
  unfold getMember
  rw [Run.bind_ok reached, ← same.readAt]
  cases storage with
  | slot =>
    obtain ⟨o, rfl, rfl⟩ := Storage.location?_slot hl
    show (match w'.loadSlot? o m.symbol with
      | some v => (pure v : Run (World σ) Value)
      | none => Run.ofExcept (c.host.storageDefault m)) w' =
      (match w'.loadSlot? o m.symbol with
        | some v => .ok v
        | none => Stop.ofExcept ((c.host.storedType m).map ClosedType.defaultValue), w')
    rw [c.host.storageDefault_eq m]
    cases w'.loadSlot? o m.symbol <;> rfl
  | static =>
    cases hl
    show (match (w'.session c.session).statics.get? (m.containing, m.symbol) with
      | some v => (pure v : Run (World σ) Value)
      | none => Run.ofExcept (c.host.storageDefault m)) w' =
      (match (w'.session c.session).statics.get? (m.containing, m.symbol) with
        | some v => .ok v
        | none => Stop.ofExcept ((c.host.storedType m).map ClosedType.defaultValue), w')
    rw [c.host.storageDefault_eq m]
    cases (w'.session c.session).statics.get? (m.containing, m.symbol) <;> rfl
  | property name =>
    obtain ⟨o, rfl, rfl⟩ := Storage.location?_property hl
    obtain ⟨f, hf⟩ := World.exists_instanceFrame owns
    have frame : w'.instanceFrame? c.session o = some f := by
      rw [same.instanceFrame?, hf]
    have read : Stop.ofExcept (w'.readName f name) =
        w'.readAt c.session c.host m (.property o.id name) :=
      (same.housed housed).readName frame m name
    show (c.boundFrame o >>= fun frame =>
      (Run.gets fun w => w.readName frame name) >>= Run.ofExcept) w' = _
    rw [Run.bind_ok (Context.boundFrame_of_some frame), ← read]
    rfl

/-- A value was written at one location, and nothing else has changed that is kept. -/
theorem World.Follows.of_write {host : Host σ} {s : SessionId} {receiver : Option Value}
    {l : Location} (located : host.location? (.write m receiver index v isVirtual) = some l)
    {w₁ w₂ : World σ} (same : w.SameButTargets w₁) (housed : w₂.Housed) (decided : w₂.Decided host)
    (links : ∀ o, w₂.link? o = w₁.link? o) (accepts : ∀ l', w₂.accepts s l' = w₁.accepts s l')
    (content : ∀ l', w₂.content? s l' = if l' = l then some v else w₁.content? s l') :
    w.Follows host s (.write m receiver index v isVirtual, .ok .void) w₂ where
  housed := housed
  decided := decided
  links o := by
    rw [links]
    simp only [World.link?, same.objects]
  accepts l' := (accepts l').trans (same.accepts l')
  content l' := by
    rw [content, same.content?, Host.written?, located]
    by_cases h : l' = l
    · rw [if_pos h, if_pos (congrArg some h.symm), Option.some_or]
    · have h' : some l ≠ some l' := fun he => h (Option.some.inj he).symm
      rw [if_neg h, if_neg h', Option.none_or]

theorem Call.run_write {receiver : Option Value} {w₁ : World σ}
    (h : c.setMember m receiver index v isVirtual w = (.ok (), w₁)) :
    (Call.write m receiver index v isVirtual).run c w = (.ok .void, w₁) := by
  show (c.setMember m receiver index v isVirtual >>= fun _ => pure Value.void) w = _
  rw [Run.bind_ok h]
  rfl

theorem Call.run_write_error {receiver : Option Value} {w₁ : World σ} {e : Stop}
    (h : c.setMember m receiver index v isVirtual w = (.error e, w₁)) :
    (Call.write m receiver index v isVirtual).run c w = (.error e, w₁) := by
  show (c.setMember m receiver index v isVirtual >>= fun _ => pure Value.void) w = _
  rw [Run.bind_error h]

theorem World.owns_of_links {s : SessionId} (links : ∀ o, w'.link? o = w.link? o) {l : Location}
    (h : w.Owns s l) : w'.Owns s l := by
  have bound (o : ObjectRef) : w'.bindingOf? s o = w.bindingOf? s o := by
    rw [World.bindingOf?, World.bindingOf?, links]
  cases l with
  | static => trivial
  | slot object _ | property object _ => exact (congrArg Option.isSome (bound _)).trans h

theorem World.accepts_of_links {s : SessionId} (links : ∀ o, w'.link? o = w.link? o)
    (frames : w'.frames = w.frames) (l : Location) : w'.accepts s l = w.accepts s l := by
  cases l with
  | slot | static => rfl
  | property object name =>
    simp only [World.accepts, World.property?, World.instanceFrame?, World.bindingOf?, links, frames]

theorem World.Housed.assign {s : SessionId} (housed : w.Housed) {o : ObjectRef} {f : FrameId}
    (h : w.instanceFrame? s o = some f) (name : String) (v : Value) :
    World.assign f name v w =
      if w.accepts s (.property o.id name) then
        (.ok (), { w with frames := w.frames.bindAt f name (.assigned v) })
      else (.error (.failed (.of (.undefinedName name))), w) := by
  have bound : w.property? s o.id name = w.frames.bindingAt? f name := by
    show (w.instanceFrame? s o).bind _ = _
    rw [h]
    rfl
  simp only [World.assign, World.changeFrames, FrameStore.assign, (housed.houses h).lookup?,
    World.accepts, bound]
  cases w.frames.bindingAt? f name <;> rfl

/-- A write of a location ends as it should, and only what it wrote is kept otherwise. -/
theorem Context.write_stored (housed : w.Housed) (decided : w.Decided c.host)
    {receiver : Option Value} {l : Location}
    (located : c.host.location? (.write m receiver index v isVirtual) = some l)
    (owns : w.Owns c.session l) :
    ∃ w', (Call.write m receiver index v isVirtual).run c w = (w.writeAt c.session l, w') ∧
      w.Follows c.host c.session
        (.write m receiver index v isVirtual, w.writeAt c.session l) w' := by
  obtain ⟨storage, hs, hl⟩ := Option.bind_eq_some_iff.1 located
  obtain ⟨w₁, reached, same, decided₁⟩ := c.target_stored decided hs
  have housed₁ := same.housed housed
  have set : c.setMember m receiver index v isVirtual w = (match storage with
      | .slot => do
        let o ← c.host.requireObject m receiver
        Run.modify fun w => w.storeSlot o m.symbol v
      | .static => Run.modify fun w => w.storeStatic c.session (m.containing, m.symbol) v
      | .property name => do
        let o ← c.host.requireObject m receiver
        let frame ← c.boundFrame o
        World.assign frame name v : Run (World σ) Unit) w₁ := by
    unfold setMember
    rw [Run.bind_ok reached]
    cases storage <;> rfl
  have links₁ (o : ObjectRef) : w₁.link? o = w.link? o := by simp only [World.link?, same.objects]
  have owns₁ : w₁.Owns c.session l := World.owns_of_links links₁ owns
  cases storage with
  | slot =>
    obtain ⟨o, rfl, rfl⟩ := Storage.location?_slot hl
    have links (o' : ObjectRef) := World.link?_storeSlot (w := w₁) o o' m.symbol v
    refine ⟨w₁.storeSlot o m.symbol v, Call.run_write set, ?_⟩
    exact .of_write located same (housed₁.storeSlot o m.symbol v).2
      (decided₁.grows (.storeSlot o m.symbol v)) links (World.accepts_of_links links rfl)
      (World.content?_storeSlot owns₁ v)
  | static =>
    cases hl
    refine ⟨_, Call.run_write set, ?_⟩
    exact .of_write located same (housed₁.mapSession rfl).2 (decided₁.grows (.mapSession (.statics _)))
      (fun _ => rfl) (World.accepts_of_links (fun _ => rfl) rfl)
      (World.content?_storeStatic m.containing m.symbol v)
  | property name =>
    obtain ⟨o, rfl, rfl⟩ := Storage.location?_property hl
    obtain ⟨f, frame⟩ := World.exists_instanceFrame owns₁
    have assigned : c.setMember m (some (.object o)) index v isVirtual w =
        World.assign f name v w₁ := by
      rw [set]
      exact Run.bind_ok (Context.boundFrame_of_some frame)
    rw [housed₁.assign frame, same.accepts] at assigned
    have ends : w.writeAt c.session (.property o.id name) =
        if w.accepts c.session (.property o.id name) then .ok .void
        else .error (.failed (.of (.undefinedName name))) := rfl
    rw [ends]
    by_cases declared : w.accepts c.session (.property o.id name) = true
    · rw [if_pos declared] at assigned ⊢
      have declared₁ : w₁.accepts c.session (.property o.id name) = true :=
        (same.accepts _).trans declared
      have kept : w₁.frames.KeepsRoots (w₁.frames.bindAt f name (.assigned v)) :=
        .bindAt (housed₁.houses frame).not_isRoot name (.assigned v)
      exact ⟨_, Call.run_write assigned, .of_write located same (housed₁.frames kept).2
        (decided₁.grows (.of_frames kept.frames)) (fun _ => rfl)
        (housed₁.accepts_bindAt frame declared₁ v) (housed₁.content?_bindAt frame name v)⟩
    · rw [if_neg declared] at assigned ⊢
      exact ⟨w₁, Call.run_write_error assigned, same.follows housed decided₁ fun l' => rfl⟩

/-- A read or a write of a location of the session ends as it should, and the world
follows. -/
theorem Call.run_stored (housed : w.Housed) (decided : w.Decided c.host) {call : Call} {l : Location}
    (located : c.host.location? call = some l) (owns : w.Owns c.session l) :
    let r := call.answer c.host w c.session l (w.content? c.session l)
    ∃ w', call.run c w = (r, w') ∧ w.Follows c.host c.session (call, r) w' := by
  cases call with
  | read m receiver index isVirtual =>
    obtain ⟨w', ran, same, decided'⟩ := Context.read_stored housed decided located owns
    exact ⟨w', ran, same.follows housed decided' fun _ => rfl⟩
  | write m receiver index v isVirtual =>
    exact Context.write_stored housed decided located owns
  | invoke | construct | create | initializer | reenter => cases located

end calls

/-! ## Sequences of calls -/

/-- Carry out calls one after another, however each of them ends, and keep how it did. -/
def Call.runAll {σ : Type} (c : Context σ) :
    List Call → World σ → List (Call × Except Stop Value) × World σ
  | [], w => ([], w)
  | call :: calls, w =>
    let (r, w') := call.run c w
    let (history, w'') := runAll c calls w'
    ((call, r) :: history, w'')

/-- The value that the latest write of a location has left there, among those that
succeeded. -/
def Host.latest? {σ : Type} (host : Host σ) (l : Location) (history : List (Call × Except Stop Value)) :
    Option Value :=
  history.reverse.findSome? (host.written? l)

section sequences

variable {σ : Type}

theorem Host.latest?_cons (host : Host σ) (l : Location) (entry : Call × Except Stop Value)
    (history : List (Call × Except Stop Value)) : host.latest? l (entry :: history) =
      (host.latest? l history).or (host.written? l entry) := by
  have single : [entry].findSome? (host.written? l) = host.written? l entry := by
    rw [List.findSome?]
    cases host.written? l entry <;> rfl
  rw [latest?, latest?, List.reverse_cons, List.findSome?_append, single]

theorem Call.runAll_cons {c : Context σ} {w w' : World σ} {call : Call} {r : Except Stop Value}
    (h : call.run c w = (r, w')) (calls : List Call) :
    runAll c (call :: calls) w = ((call, r) :: (runAll c calls w').1, (runAll c calls w').2) := by
  rw [runAll, h]

namespace World.Follows

variable {host : Host σ} {s : SessionId} {entry : Call × Except Stop Value} {w w' : World σ}
  (h : w.Follows host s entry w')

include h

theorem unwritten (m : ResolvedMember) (l : Location) :
    w'.unwritten s host m l = w.unwritten s host m l := by
  cases l with
  | slot | static => rfl
  | property object name => rw [World.unwritten, World.unwritten, h.accepts]

theorem writeAt (l : Location) : w'.writeAt s l = w.writeAt s l := by
  cases l with
  | slot | static => rfl
  | property object name => rw [World.writeAt, World.writeAt, h.accepts]

theorem answer (call : Call) (l : Location) (kept : Option Value) :
    call.answer host w' s l kept = call.answer host w s l kept := by
  cases call with
  | read m => cases kept with
    | some v => rfl
    | none => exact h.unwritten m l
  | write | invoke | construct | create | initializer | reenter => exact h.writeAt l

theorem latest (l : Location) (history : List (Call × Except Stop Value)) :
    (host.latest? l history).or (w'.content? s l) =
      (host.latest? l (entry :: history)).or (w.content? s l) := by
  rw [h.content, host.latest?_cons, Option.or_assoc]

end World.Follows

variable {c : Context σ} {w : World σ}

/-- Reads and writes of the session's locations, one after another, go to one map. What is
kept at a location in the end is what was last written there; a read answers what was last
written at its location or was kept there from the start, and where there is nothing, the
default of the declared type, or an error for a property of an anonymous object. A write
fails only where such a property is not declared. -/
theorem Context.storage_latest (housed : w.Housed) (decided : w.Decided c.host) {calls : List Call}
    (stored : ∀ call ∈ calls, ∃ l, c.host.location? call = some l ∧ w.Owns c.session l) :
    let x := Call.runAll c calls w
    (∀ l, x.2.content? c.session l = (c.host.latest? l x.1).or (w.content? c.session l)) ∧
      ∀ before call r after l, x.1 = before ++ (call, r) :: after →
        c.host.location? call = some l →
        r = call.answer c.host w c.session l ((c.host.latest? l before).or (w.content? c.session l)) := by
  induction calls generalizing w with
  | nil =>
    refine ⟨fun l => rfl, fun before call r after l h => ?_⟩
    cases before <;> cases h
  | cons first calls ih =>
    obtain ⟨l₀, located, owns⟩ := stored first (by simp)
    obtain ⟨w', ran, follows⟩ := Call.run_stored housed decided located owns
    have stored' (call) (hc : call ∈ calls) :
        ∃ l, c.host.location? call = some l ∧ w'.Owns c.session l := by
      obtain ⟨l, hl, owns⟩ := stored call (by simp [hc])
      exact ⟨l, hl, World.owns_of_links follows.links owns⟩
    obtain ⟨contents, answers⟩ := ih follows.housed follows.decided stored'
    rw [Call.runAll_cons ran]
    refine ⟨fun l => (contents l).trans (follows.latest l _), ?_⟩
    intro before call r after l split hl
    cases before with
    | nil =>
      -- the first call finds what was kept from the start
      cases split
      obtain rfl : l₀ = l := Option.some.inj (located.symm.trans hl)
      rfl
    | cons entry before =>
      simp only [List.cons_append, List.cons.injEq] at split
      obtain ⟨rfl, split⟩ := split
      rw [answers before call r after l split hl, follows.latest, follows.answer]

end sequences

theorem Call.decided {σ : Type} (host : Host σ) (n : Nat) (session : SessionId) (call : Call)
    {w : World σ} (h : w.Decided host) : (call.run (.within host n session) w).2.Decided host :=
  h.grows (call.grows host n session w)

theorem Call.runAll_housed {σ : Type} (host : Host σ) (n : Nat) (session : SessionId)
    (calls : List Call) {w : World σ} (h : w.Housed) :
    (runAll (.within host n session) calls w).2.Housed := by
  induction calls generalizing w with
  | nil => exact h
  | cons call calls ih => exact ih (call.housed host n session h)

theorem Call.runAll_decided {σ : Type} (host : Host σ) (n : Nat) (session : SessionId)
    (calls : List Call) {w : World σ} (h : w.Decided host) :
    (runAll (.within host n session) calls w).2.Decided host := by
  induction calls generalizing w with
  | nil => exact h
  | cons call calls ih => exact ih (call.decided host n session h)

/-! ## Three kinds of storage -/

/-- A generic class with a field and a static property of its parameter's type, an anonymous
type with a property, and a class over a loaded one with a field. -/
def storing : Scripted.Program :=
  let parameter : TypeRef := .param ⟨.type, 0⟩
  let member (m : Nat) (name : String) (d : Nat) (isStatic : Bool) (origin : MemberOrigin)
      (kind : MemberKind) : Scripted.MemberScript :=
    ⟨⟨⟨m⟩, name, ⟨d⟩, isStatic, origin, kind⟩, none, none⟩
  ⟨[⟨⟨⟨1⟩, "Box", .classType, true, 1, none, [], [⟨10⟩, ⟨11⟩]⟩, .fresh⟩,
      ⟨⟨⟨2⟩, "Anonymous", .anonymous, true, 0, none, [], [⟨20⟩]⟩, .fresh⟩,
      ⟨⟨⟨3⟩, "Base", .classType, false, 0, none, [], [⟨30⟩]⟩, .fresh⟩,
      ⟨⟨⟨4⟩, "Derived", .classType, true, 0, some (.named ⟨3⟩ []), [], []⟩, .fresh⟩],
    [member 10 "content" 1 false .source (.field parameter),
      member 11 "Latest" 1 true .source (.property parameter [] none none),
      member 20 "Name" 2 false .implicitly (.property (.primitive .text) [] none none),
      member 30 "count" 3 false .loaded (.field (.primitive .i32))]⟩

namespace storing

def context : Context Scripted.State := .within storing.host 5 ⟨0⟩

def box : ObjectRef := ⟨0, .named ⟨1⟩ [.primitive .i32]⟩
def named : ObjectRef := ⟨1, .named ⟨2⟩ []⟩
def derived : ObjectRef := ⟨2, .named ⟨4⟩ []⟩

/-- An object of each type was made. -/
def world : World Scripted.State :=
  (Call.runAll context ([box, named, derived].map fun o => .create o.type [])
    (.initial .initial)).2

def content : ResolvedMember := ⟨⟨10⟩, box.type, []⟩
def latest (argument : PrimitiveType) : ResolvedMember := ⟨⟨11⟩, .named ⟨1⟩ [.primitive argument], []⟩
def name : ResolvedMember := ⟨⟨20⟩, named.type, []⟩
def count : ResolvedMember := ⟨⟨30⟩, .named ⟨3⟩ [], []⟩

/-- Some are written, and some are read. -/
def calls : List Call :=
  [.write content (some (.object box)) [] (.i32 5) false,
    .write (latest .i32) none [] (.i32 7) false,
    .read content (some (.object box)) [] false,
    .read (latest .text) none [] false,
    .read name (some (.object named)) [] false]

theorem housed : world.Housed :=
  Call.runAll_housed storing.host 5 ⟨0⟩ _ (World.Housed.initial Scripted.State.initial)

theorem decided : world.Decided storing.host :=
  Call.runAll_decided storing.host 5 ⟨0⟩ _ (World.Decided.initial Scripted.State.initial)

theorem stored : ∀ call ∈ calls, ∃ l, storing.host.location? call = some l ∧ world.Owns ⟨0⟩ l := by
  have boxed : world.Owns ⟨0⟩ (.slot 0 ⟨10⟩) := by
    show (world.bindingOf? ⟨0⟩ ⟨0, .object⟩).isSome = true
    cbv
  have declared : world.Owns ⟨0⟩ (.property 1 "Name") := by
    show (world.bindingOf? ⟨0⟩ ⟨1, .object⟩).isSome = true
    cbv
  simp only [calls, List.forall_mem_cons]
  refine ⟨⟨_, rfl, boxed⟩, ⟨_, rfl, trivial⟩, ⟨_, rfl, boxed⟩, ⟨_, rfl, trivial⟩,
    ⟨_, rfl, declared⟩, fun call none => ?_⟩
  cases none

end storing

/-- The field of the box is read as it was written, its static property only for the type
for which it was, and the property of the anonymous object, which was not, not at all. -/
theorem storing_latest :
    storing.world.Housed ∧ storing.world.Decided storing.host ∧
      (∀ call ∈ storing.calls, ∃ l, storing.host.location? call = some l ∧
        storing.world.Owns ⟨0⟩ l) ∧
      (Call.runAll storing.context storing.calls storing.world).1.map Prod.snd =
        [.ok .void, .ok .void, .ok (.i32 5), .ok .null,
          .error (.failed (.of (.unassignedUse "Name")))] ∧
      (Call.runAll storing.context storing.calls storing.world).2.content? ⟨0⟩ (.slot 0 ⟨10⟩) =
        some (.i32 5) ∧
      (Call.runAll storing.context storing.calls storing.world).2.content? ⟨0⟩
        (.static (.named ⟨1⟩ [.primitive .text]) ⟨11⟩) = none := by
  obtain ⟨contents, -⟩ :=
    Context.storage_latest (c := storing.context) storing.housed storing.decided storing.stored
  refine ⟨storing.housed, storing.decided, storing.stored, by cbv, ?_, ?_⟩
  · refine (contents _).trans ?_
    cbv
  · refine (contents _).trans ?_
    cbv

/-- A field that is loaded and has no handle is not read as its default. -/
theorem storing_loadedField_unresolved :
    storing.host.handle ⟨30⟩ = .ok none ∧ storing.world.Owns ⟨0⟩ (.slot 2 ⟨30⟩) ∧
      storing.host.storageDefault storing.count = .ok (.i32 0) ∧
      (storing.context.getMember storing.count (some (.object storing.derived)) [] false
        storing.world).1 = .error (.failed (.of (.unresolvedMember "count" "Base"
        "loaded member has no physical implementation"))) := by
  refine ⟨rfl, ?_, rfl, by cbv⟩
  show (storing.world.bindingOf? ⟨0⟩ ⟨2, .object⟩).isSome = true
  cbv

end OpTree
