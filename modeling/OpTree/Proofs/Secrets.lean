/-
Arrays that nothing refers to. An array is reached by a handle and in no other way, and a handle
cannot be made up: a value refers to an array because it was taken from where one was kept. So an
array that is in no slot, local or element, that no session has stored and that the host has
never been given is left alone by all code that does not already have it. Such an array is a
secret (`Secrecy`), and a world that refers to none is discreet. A world without secrets is
discreet when it refers to no array that was not made.

The host is code of its own, and nothing in it keeps it from answering with a handle that it was
never given; one that does not is discreet too (`Host.Discreet`), and the hosts given as data are.

What a session or a body does to a world is one of a few things, and each of them keeps secrets
(`Secrecy.world`).
-/
import OpTree.Proofs.Conversions
import OpTree.Proofs.Decisions
import OpTree.Proofs.Regimes
import OpTree.Proofs.Sparing

namespace OpTree

/-! ## What values refer to -/

namespace Value

mutual

/-- The arrays that a value refers to. -/
def arrays : Value → List Nat
  | array a => [a.id]
  | tuple elements => allArrays elements
  | void | null | bool _ | char _ | int .. | f32 _ | f64 _ | text _ | object _ | type _ => []

def allArrays : List Value → List Nat
  | [] => []
  | v :: vs => v.arrays ++ allArrays vs

end

/-- All arrays that the value refers to are among some. -/
def Within (K : Nat → Prop) (v : Value) : Prop := ∀ i ∈ v.arrays, K i

variable {K K' : Nat → Prop} {v : Value}

theorem Within.mono (h : v.Within K) (hk : ∀ i, K i → K' i) : v.Within K' := fun i hi => hk i (h i hi)

theorem within_of_arrays (h : v.arrays = []) : v.Within K := by simp [Within, h]

theorem within_array {a : ArrayRef} : (array a).Within K ↔ K a.id := by simp [Within, arrays]

theorem mem_allArrays {vs : List Value} {i : Nat} : i ∈ allArrays vs ↔ ∃ v ∈ vs, i ∈ v.arrays := by
  induction vs with
  | nil => simp [allArrays]
  | cons v vs ih => simp [allArrays, ih]

theorem within_tuple {vs : List Value} : (tuple vs).Within K ↔ ∀ v ∈ vs, v.Within K := by
  simp only [Within, arrays, mem_allArrays]
  exact ⟨fun h v hv i hi => h i ⟨v, hv, hi⟩, fun h i ⟨v, hv, hi⟩ => h v hv i hi⟩

end Value

theorem ClosedType.arrays_primitiveDefault (p : PrimitiveType) : (primitiveDefault p).arrays = [] := by
  cases p <;> rfl

mutual

/-- Before anything is stored, nothing is referred to. -/
theorem ClosedType.arrays_defaultValue : ∀ t : ClosedType, t.defaultValue.arrays = []
  | .primitive p => arrays_primitiveDefault p
  | .tuple elements => ClosedType.arrays_defaultValues elements
  | .named .. | .array .. | .nullable _ => rfl

theorem ClosedType.arrays_defaultValues :
    ∀ ts : List ClosedType, Value.allArrays (ClosedType.defaultValues ts) = []
  | [] => rfl
  | t :: ts => by
    rw [ClosedType.defaultValues, Value.allArrays, t.arrays_defaultValue,
      ClosedType.arrays_defaultValues ts, List.append_nil]

end

namespace BinaryOp

variable {op : BinaryOp} {l r v : Value}

theorem arrays_apply (h : op.apply l r = .ok v) : v.arrays = [] := by
  unfold apply at h
  split at h
  · cases op <;> simp only [applyBool] at h <;> cases h <;> rfl
  · cases op <;> simp only [applyChar] at h <;> cases h <;> rfl
  · split at h
    · cases op <;> simp only [applyInt] at h <;> (try split at h) <;> cases h <;> rfl
    · cases h
  · cases op <;> simp only [applyF32] at h <;> cases h <;> rfl
  · cases op <;> simp only [applyF64] at h <;> cases h <;> rfl
  · cases op <;> simp only [applyText] at h <;> cases h <;> rfl
  · cases h

/-- Operators answer with numbers, truth values, characters and texts. -/
theorem arrays_eval (h : op.eval l r = .ok v) : v.arrays = [] := by
  unfold eval at h
  split at h
  · cases h; rfl
  · split at h
    · cases h; rfl
    · exact arrays_apply h

end BinaryOp

theorem UnaryOp.arrays_apply {op : UnaryOp} {v r : Value} (h : op.apply v = .ok r) :
    r.arrays = [] := by
  unfold UnaryOp.apply at h
  split at h
  case h_9 =>
    split at h
    · cases h
    · split at h <;> cases h
  all_goals cases h; rfl

theorem Value.arrays_step {decrement : Bool} {v r : Value} (h : v.step decrement = .ok r) :
    r.arrays = [] := by
  unfold Value.step at h
  dsimp only at h
  split at h
  case h_4 => split at h <;> cases h; rfl
  case h_5 | h_6 => cases h
  all_goals cases h; rfl

namespace Value

theorem arrays_ofNumeric? {n : Numeric} {p : PrimitiveType} {v : Value} (h : ofNumeric? n p = some v) :
    v.arrays = [] := by
  cases p with
  | char =>
    simp only [ofNumeric?] at h
    split at h
    · cases h; rfl
    · cases h
  | void | bool | text | object | typeHandle => cases h
  | f32 | f64 | i8 | u8 | i16 | u16 | i32 | u32 | i64 | u64 => cases h; rfl

theorem arrays_convertPrimitive? {v r : Value} {p : PrimitiveType}
    (h : v.convertPrimitive? p = some r) : r.arrays = [] := by
  unfold convertPrimitive? at h
  split at h
  · cases h; rfl
  · cases h; rfl
  · obtain ⟨n, -, hn⟩ := Option.bind_eq_some_iff.1 h
    exact arrays_ofNumeric? hn

end Value

namespace Host

variable {σ : Type} {host : Host σ} {K : Nat → Prop} {fuel : Nat} {v r : Value}
  {kind : ConversionKind}

theorem conversionFailure_within {target : ClosedType}
    (h : conversionFailure v target kind = .ok r) : r.Within K := by
  cases kind <;> cases h
  exact Value.within_of_arrays rfl

/-- A conversion finds the value as it was, or one that refers to nothing. -/
theorem convert_within {target : ClosedType} (hv : v.Within K)
    (h : host.convert fuel v target kind = .ok r) : r.Within K := by
  rcases convert_outcomes host fuel v target with ⟨w, found, ends⟩ | ⟨-, ends⟩ | ⟨e, -, ends⟩ <;>
    rw [ends] at h
  · obtain rfl : w = r := Except.ok.inj h
    simp only [converted?] at found
    split at found
    · split at found <;> cases found
      exact Value.within_of_arrays rfl
    · rcases formOf?_cases host v target.bare with ⟨-, form⟩ | ⟨p, c, -, -, -, form⟩ | form <;>
        rw [form] at found
      · cases found; exact hv
      · exact Value.within_of_arrays (Value.arrays_convertPrimitive? (Except.ok.inj found))
      · cases ha : host.accepts fuel v target.bare with
        | error e => rw [ha] at found; cases found
        | ok accepted =>
          rw [ha] at found
          cases accepted <;> cases found
          exact hv
  · exact conversionFailure_within h
  · cases h

end Host

/-! ## Secrets of a world -/

/-- Arrays that nothing refers to, and the arrays that the host's own state refers to. -/
structure Secrecy (σ : Type) where
  hidden : Nat → Prop
  holds : σ → Nat → Prop

/-- What refers to some arrays carries the plan out, and comes to refer to others only if a call
answers with them. What the plan ends with is spoken of by `tells`. -/
def HostAction.Discreet {σ α : Type} (holds : σ → Nat → Prop) (tells : (Nat → Prop) → α → Prop) :
    HostAction σ α → (Nat → Prop) → Prop
  | .done result, K => ∀ a, result = .ok a → tells K a
  | .read next, K => ∀ state, (∀ i, holds state i → K i) → (next state).Discreet holds tells K
  | .write state next, K => (∀ i, holds state i → K i) ∧ next.Discreet holds tells K
  | .allocate _ next, K => ∀ o, (next o).Discreet holds tells K
  | .dispatch _ _ _ args next, K => (∀ v ∈ args, v.Within K) ∧
      ∀ K' : Nat → Prop, (∀ i, K i → K' i) → ∀ r, (∀ v, r = .ok v → v.Within K') →
        (next r).Discreet holds tells K'

section

variable {σ : Type} (holds : σ → Nat → Prop)

/-- Whatever is asked of the handle, it makes up no array. -/
structure Handle.Discreet (handle : Handle σ) : Prop where
  invoke : ∀ {K : Nat → Prop} (call : PhysicalCall), (∀ v ∈ call.receiver, v.Within K) →
    (∀ v ∈ call.args, v.Within K) → (handle.invoke call).Discreet holds Value.Within K
  load : ∀ {K : Nat → Prop} (receiver : Option Value), (∀ v ∈ receiver, v.Within K) →
    (handle.load receiver).Discreet holds Value.Within K
  store : ∀ {K : Nat → Prop} (receiver : Option Value) (v : Value), (∀ v ∈ receiver, v.Within K) →
    v.Within K → (handle.store receiver v).Discreet holds (fun _ _ => True) K

def Target.Discreet : Target σ → Prop
  | .physical handle => handle.Discreet holds
  | _ => True

def Link.Discreet : Link σ → Prop
  | .foreign serve => ∀ {K : Nat → Prop} o m typeArgs (args : List Value),
      (∀ v ∈ args, v.Within K) → (serve o m typeArgs args).Discreet holds Value.Within K
  | .session .. => True

/-- The host makes up no array: it has none but those that it was given. -/
structure Host.Discreet (host : Host σ) : Prop where
  handle : ∀ {m handle}, host.handle m = .ok (some handle) → handle.Discreet holds
  backing : ∀ {type backing}, host.synthesize type = .ok backing → ∀ {K : Nat → Prop} (args : List Value),
    (∀ v ∈ args, v.Within K) → (backing args).Discreet holds (fun _ _ => True) K

structure ObjectCell.Discreet (K : Nat → Prop) (cell : ObjectCell σ) : Prop where
  slots : ∀ {field v}, cell.slots.get? field = some v → v.Within K
  link : ∀ {l}, cell.link = some l → l.Discreet holds

structure SessionState.Discreet (K : Nat → Prop) (state : SessionState σ) : Prop where
  statics : ∀ {place v}, state.statics.get? place = some v → v.Within K
  targets : ∀ {m t}, state.targets.get? m = some t → t.Discreet holds

/-- All values that are bound refer to some arrays at most. -/
def FrameStore.Within (K : Nat → Prop) (s : FrameStore) : Prop :=
  ∀ f name v, s.bindingAt? f name = some (.assigned v) → v.Within K

end

/-- The arrays that there are and that are not secret. -/
def Secrecy.visible {σ : Type} (S : Secrecy σ) (w : World σ) (i : Nat) : Prop :=
  i < w.arrays.size ∧ ¬S.hidden i

/-- Nothing in the world refers to a secret, but for secrets themselves. -/
structure World.Discreet {σ : Type} (S : Secrecy σ) (w : World σ) : Prop where
  made : ∀ {i}, S.hidden i → i < w.arrays.size
  objects : ∀ {i : Nat} {cell : ObjectCell σ}, w.objects[i]? = some cell →
    cell.Discreet S.holds (S.visible w)
  arrays : ∀ {i : Nat} {cell : ArrayCell}, w.arrays[i]? = some cell → ¬S.hidden i →
    ∀ v ∈ cell.data, v.Within (S.visible w)
  frames : w.frames.Within (S.visible w)
  sessions : ∀ s, (w.session s).Discreet S.holds (S.visible w)
  host : ∀ {i}, S.holds w.host i → S.visible w i

namespace Secrecy

variable {σ : Type} (S : Secrecy σ)

/-- The value refers to nothing secret. -/
def Allows (w : World σ) (v : Value) : Prop := v.Within (S.visible w)

/-- Runs that keep secrets and do not touch them. -/
def world : Regime (World σ) where
  inv w := w.Discreet S
  le w w' := w.arrays.size ≤ w'.arrays.size ∧ ∀ {i}, S.hidden i → w'.arrays[i]? = w.arrays[i]?
  refl _ := ⟨Nat.le_refl _, fun _ => rfl⟩
  trans h h' := ⟨h.1.trans h'.1, fun hi => (h'.2 hi).trans (h.2 hi)⟩

variable {S} {w w' : World σ} {v : Value} {vs : List Value}

theorem visible_later (h : S.world.le w w') {i : Nat} (hi : S.visible w i) : S.visible w' i :=
  ⟨Nat.lt_of_lt_of_le hi.1 h.1, hi.2⟩

theorem Allows.later (hv : S.Allows w v) (h : S.world.le w w') : S.Allows w' v :=
  hv.mono fun _ => visible_later h

theorem Allows.all_later (hv : ∀ v ∈ vs, S.Allows w v) (h : S.world.le w w') : ∀ v ∈ vs, S.Allows w' v :=
  fun v hm => (hv v hm).later h

theorem Allows.option_later {o : Option Value} (hv : ∀ v ∈ o, S.Allows w v) (h : S.world.le w w') :
    ∀ v ∈ o, S.Allows w' v :=
  fun v hm => (hv v hm).later h

theorem allows_of_arrays (h : v.arrays = []) : S.Allows w v := Value.within_of_arrays h

/-- A run that leaves the arrays as they are does not touch secrets. -/
theorem le_of_arrays (h : w'.arrays = w.arrays) : S.world.le w w' := ⟨h ▸ Nat.le_refl _, fun _ => by rw [h]⟩

end Secrecy

/-! ## What changes a world -/

namespace FrameStore.Within

variable {K : Nat → Prop} {s s' : FrameStore} {f : FrameId} {name : String}

theorem add (h : s.Within K) (kind : FrameKind) (ancestors : List FrameId) :
    (s.add kind ancestors).2.Within K := by
  intro f name v bound
  rw [bindingAt?, bindings_add] at bound
  exact h f name v bound

theorem bindAt (h : s.Within K) {b : Binding} (hb : ∀ v, b = .assigned v → v.Within K) :
    (s.bindAt f name b).Within K := by
  intro g name' v bound
  by_cases hf : s.Has f
  · rw [bindingAt?_bindAt hf] at bound
    split at bound
    · exact hb v (Option.some.inj bound)
    · exact h g name' v bound
  · have same : s.bindAt f name b = s := by
      refine congrArg FrameStore.mk (Array.ext (by simp) fun i _ hi => ?_)
      rw [Array.getElem_modify, if_neg]
      rintro rfl
      exact hf (has_iff_lt.2 hi)
    exact h g name' v (same ▸ bound)

theorem insert (h : s.Within K) {b : Binding} (hb : ∀ v, b = .assigned v → v.Within K)
    (hs : s.insert f name b = .ok s') : s'.Within K := by
  simp only [FrameStore.insert] at hs
  split at hs
  · cases hs
  · cases hs
    exact h.bindAt hb

theorem assign (h : s.Within K) {v : Value} (hv : v.Within K) (hs : s.assign f name v = .ok s') :
    s'.Within K := by
  simp only [FrameStore.assign] at hs
  split at hs
  · cases hs
    exact h.bindAt fun _ hb => by cases hb; exact hv
  · cases hs

theorem read (h : s.Within K) {v : Value} (hr : s.read f name = .ok v) : v.Within K := by
  simp only [FrameStore.read] at hr
  split at hr
  · cases hr
  · cases hr
  · rename_i found
    cases hr
    exact h _ name v (owner?_eq_some found).2

end FrameStore.Within

/-- What an array holds after a store, it held before, or it was stored. -/
theorem ArrayCell.mem_set {a a' : ArrayCell} {is : List Int} {v u : Value} (h : a.set is v = .ok a')
    (hu : u ∈ a'.data) : u ∈ a.data ∨ u = v := by
  simp only [set] at h
  cases hf : flatIndex a.lengths is with
  | error e => rw [hf] at h; cases h
  | ok k =>
    rw [hf] at h
    cases h
    exact Array.mem_or_eq_of_mem_setIfInBounds hu

namespace World.Discreet

open Run (Obeys)

variable {σ α : Type} {S : Secrecy σ} {w : World σ} (h : w.Discreet S)

include h

theorem withFrames {frames : FrameStore} (hf : frames.Within (S.visible w)) :
    ({ w with frames := frames } : World σ).Discreet S :=
  { h with frames := hf }

theorem withObjects {objects : Array (ObjectCell σ)}
    (ho : ∀ {i : Nat} {cell : ObjectCell σ}, objects[i]? = some cell → cell.Discreet S.holds (S.visible w)) :
    ({ w with objects := objects } : World σ).Discreet S :=
  { h with objects := ho }

theorem withHost {state : σ} (hs : ∀ {i}, S.holds state i → S.visible w i) :
    ({ w with host := state } : World σ).Discreet S :=
  { h with host := hs }

theorem record (call : HostCall) : (w.record call).Discreet S := { h with }

theorem noteFailure (call : HostCall) (e : EvalError) : (w.noteFailure call e).Discreet S := { h with }

theorem mapSession {s : SessionId} {f : SessionState σ → SessionState σ}
    (hf : (f (w.session s)).Discreet S.holds (S.visible w)) : (w.mapSession s f).Discreet S :=
  { h with
    sessions := fun s' => by
      rw [session_mapSession]
      split
      · exact hf
      · exact h.sessions s' }

/-- Nothing is stored anywhere else, and what is stored may be known of. -/
theorem modifyObject {i : Nat} {f : ObjectCell σ → ObjectCell σ}
    (hf : ∀ cell : ObjectCell σ, cell.Discreet S.holds (S.visible w) →
      (f cell).Discreet S.holds (S.visible w)) :
    ({ w with objects := w.objects.modify i f } : World σ).Discreet S := by
  refine h.withObjects fun {j cell} found => ?_
  rw [Array.getElem?_modify] at found
  split at found
  · obtain ⟨cell', found', rfl⟩ := Option.map_eq_some_iff.1 found
    exact hf cell' (h.objects found')
  · exact h.objects found

/-- Other arrays may be secret in the end, if none of them is known of. -/
theorem keeping {hidden : Nat → Prop} {arrays : Array ArrayCell} (made : ∀ i, hidden i → i < arrays.size)
    (later : ∀ {i}, S.visible w i → i < arrays.size ∧ ¬hidden i)
    (ha : ∀ {i : Nat} {cell : ArrayCell}, arrays[i]? = some cell → ¬hidden i →
      ∀ v ∈ cell.data, S.Allows w v) :
    ({ w with arrays := arrays } : World σ).Discreet ⟨hidden, S.holds⟩ where
  made hi := made _ hi
  objects found :=
    ⟨fun stored => ((h.objects found).slots stored).mono fun _ => later, (h.objects found).link⟩
  arrays found hi v hv := (ha found hi v hv).mono fun _ => later
  frames f name v bound := (h.frames f name v bound).mono fun _ => later
  sessions s :=
    ⟨fun stored => ((h.sessions s).statics stored).mono fun _ => later, (h.sessions s).targets⟩
  host held := later (h.host held)

/-- There are no fewer arrays, and what is stored in those that are not secret may be known of. -/
theorem withArrays {arrays : Array ArrayCell} (size : w.arrays.size ≤ arrays.size)
    (ha : ∀ {i : Nat} {cell : ArrayCell}, arrays[i]? = some cell → ¬S.hidden i →
      ∀ v ∈ cell.data, S.Allows w v) :
    ({ w with arrays := arrays } : World σ).Discreet S :=
  h.keeping (fun _ hi => Nat.lt_of_lt_of_le (h.made hi) size)
    (fun hi => ⟨Nat.lt_of_lt_of_le hi.1 size, hi.2⟩) ha

/-! ## What is read -/

theorem readName {f : FrameId} {name : String} {v : Value} (hr : w.readName f name = .ok v) :
    S.Allows w v := by
  simp only [World.readName] at hr
  split at hr
  · cases hr
    exact h.frames.read ‹_›
  · cases hr

theorem loadSlot? {o : ObjectRef} {field : SymbolId} {v : Value}
    (hr : w.loadSlot? o field = some v) : S.Allows w v := by
  obtain ⟨cell, found, stored⟩ := Option.bind_eq_some_iff.1 hr
  exact (h.objects found).slots stored

theorem elements {a : ArrayRef} (ha : ¬S.hidden a.id) : ∀ v ∈ w.elements a, S.Allows w v := by
  intro v hv
  simp only [World.elements] at hv
  split at hv
  · rename_i found
    exact h.arrays found ha v (Array.mem_toList_iff.1 hv)
  · cases hv

theorem getElement {a : ArrayRef} (ha : ¬S.hidden a.id) {is : List Int} {v : Value}
    (hr : w.getElement a is = .ok v) : S.Allows w v := by
  simp only [World.getElement] at hr
  split at hr
  · rename_i cell found
    simp only [ArrayCell.get] at hr
    cases hf : ArrayCell.flatIndex cell.lengths is with
    | error e => rw [hf] at hr; cases hr
    | ok k =>
      rw [hf] at hr
      cases hr
      cases hk : cell.data[k]? with
      | none => exact Secrecy.allows_of_arrays rfl
      | some v => exact h.arrays found ha v (Array.mem_of_getElem? hk)
  · cases hr
    exact Secrecy.allows_of_arrays rfl

/-! ## What is done -/

theorem changeFrames {name : String} {change : FrameStore → Except FrameError FrameStore}
    (hc : ∀ frames, change w.frames = .ok frames → frames.Within (S.visible w)) :
    Obeys S.world (World.changeFrames name change) w fun _ _ => True := by
  cases hf : change w.frames with
  | ok frames =>
    have changed : World.changeFrames name change w = (.ok (), { w with frames := frames }) := by
      simp only [World.changeFrames, hf]
    exact .after changed (h.withFrames (hc frames hf)) (Secrecy.le_of_arrays rfl) fun _ _ => trivial
  | error e =>
    have refused : World.changeFrames name change w = (.error (.failed (.of (e.cause name))), w) := by
      simp only [World.changeFrames, hf]
    exact .still refused h fun _ _ => trivial

theorem declare (f : FrameId) (name : String) :
    Obeys S.world (World.declare f name) w fun _ _ => True :=
  h.changeFrames fun _ hs => h.frames.insert (fun _ hb => by cases hb) hs

theorem define (f : FrameId) (name : String) {v : Value} (hv : S.Allows w v) :
    Obeys S.world (World.define f name v) w fun _ _ => True :=
  h.changeFrames fun _ hs => h.frames.insert (fun _ hb => by cases hb; exact hv) hs

theorem assign (f : FrameId) (name : String) {v : Value} (hv : S.Allows w v) :
    Obeys S.world (World.assign f name v) w fun _ _ => True :=
  h.changeFrames fun _ hs => h.frames.assign hv hs

theorem childFrame (parent : FrameId) (kind : FrameKind) :
    Obeys S.world (World.childFrame parent kind) w fun _ _ => True :=
  .after rfl (h.withFrames (h.frames.add kind _)) (Secrecy.le_of_arrays rfl) fun _ _ => trivial

theorem classFrame (s : SessionId) (type : ClosedType) :
    Obeys S.world (World.classFrame s type) w fun _ _ => True := by
  cases hf : (w.session s).classFrames.get? type with
  | some f =>
    have found : World.classFrame s type w = (.ok f, w) := by
      simp only [World.classFrame, Run.modifyGet, hf]
    exact .still found h fun _ _ => trivial
  | none =>
    have made : World.classFrame s type w = (.ok (w.frames.addClass type).1,
        ({ w with frames := (w.frames.addClass type).2 } : World σ).mapSession s fun state =>
          { state with classFrames := state.classFrames.insert type (w.frames.addClass type).1 }) := by
      simp only [World.classFrame, Run.modifyGet, hf]
    refine .after made ?_ (Secrecy.le_of_arrays rfl) fun _ _ => trivial
    exact (h.withFrames (h.frames.add _ _)).mapSession
      ⟨(h.sessions s).statics, (h.sessions s).targets⟩

theorem register (s : SessionId) (entry : RegistryEntry) :
    Obeys S.world (World.register s entry) w fun _ _ => True :=
  .after rfl (h.mapSession ⟨(h.sessions s).statics, (h.sessions s).targets⟩)
    (Secrecy.le_of_arrays rfl) fun _ _ => trivial

theorem storeSlot (o : ObjectRef) (field : SymbolId) {v : Value} (hv : S.Allows w v) :
    (w.storeSlot o field v).Discreet S :=
  h.modifyObject fun cell hc =>
    ⟨fun {field' v'} stored => by
      by_cases same : field = field'
      · subst same
        rw [Table.get?_insert_self] at stored
        cases stored
        exact hv
      · rw [Table.get?_insert_other _ same] at stored
        exact hc.slots stored, hc.link⟩

theorem storeStatic (s : SessionId) (place : ClosedType × SymbolId) {v : Value} (hv : S.Allows w v) :
    (w.storeStatic s place v).Discreet S :=
  h.mapSession ⟨fun {place' v'} stored => by
    by_cases same : place = place'
    · subst same
      rw [Table.get?_insert_self] at stored
      cases stored
      exact hv
    · rw [Table.get?_insert_other _ same] at stored
      exact (h.sessions s).statics stored, (h.sessions s).targets⟩

theorem bind (o : ObjectRef) {link : Link σ} (hl : link.Discreet S.holds) :
    Obeys S.world (World.bind o link) w fun _ _ => True := by
  by_cases bound : w.isBound o = true
  · exact .still (by simp only [World.bind, bound, if_true]; rfl) h fun _ _ => trivial
  · refine .after (by simp only [World.bind, bound]; rfl) (h.modifyObject fun cell hc => ?_)
      (Secrecy.le_of_arrays rfl) fun _ _ => trivial
    exact ⟨hc.slots, fun hs => by cases hs; exact hl⟩

theorem newObject (type : ClosedType) : (w.newObject type).2.Discreet S := by
  refine h.withObjects fun {i cell} found => ?_
  rw [Array.getElem?_push] at found
  split at found
  · cases found
    exact ⟨nofun, nofun⟩
  · exact h.objects found

theorem newArray (element : ClosedType) {cell : ArrayCell} (hc : ∀ v ∈ cell.data, S.Allows w v) :
    Obeys S.world (Run.modifyGet fun w => w.newArray element cell) w fun w a => S.visible w a.id := by
  refine .after rfl (h.withArrays (by simp) fun {i cell'} found hi => ?_) ⟨by simp, fun {i} hi => ?_⟩ fun a ha => ?_
  · rw [Array.getElem?_push] at found
    split at found
    · cases found
      exact hc
    · exact h.arrays found hi
  · exact Array.getElem?_push_lt (h.made hi) ▸ (Array.getElem?_eq_getElem (h.made hi)).symm
  · cases ha
    exact ⟨by simp, fun hidden => Nat.lt_irrefl _ (h.made hidden)⟩

theorem setElement {a : ArrayRef} (ha : ¬S.hidden a.id) (is : List Int) {v : Value}
    (hv : S.Allows w v) : Obeys S.world (World.setElement a is v) w fun _ _ => True := by
  cases found : w.cell? a with
  | none => exact .still (by simp only [World.setElement, found]; rfl) h fun _ _ => trivial
  | some cell =>
    cases stored : cell.set is v with
    | error e => exact .still (by simp only [World.setElement, found, stored]; rfl) h fun _ _ => trivial
    | ok cell' =>
      refine .after (by simp only [World.setElement, found, stored]; rfl)
        (h.withArrays (by simp) fun {i cell''} there hi u hu => ?_) ⟨by simp, fun {i} hi => ?_⟩
        fun _ _ => trivial
      · rw [Array.getElem?_setIfInBounds] at there
        split at there
        · split at there
          · cases there
            rcases ArrayCell.mem_set stored hu with old | rfl
            · exact h.arrays found ha u old
            · exact hv
          · cases there
        · exact h.arrays there hi u hu
      · rw [Array.getElem?_setIfInBounds, if_neg]
        rintro rfl
        exact ha hi

omit h

theorem noting {call : HostCall} {m : Run (World σ) α} {Q : World σ → α → Prop}
    (hm : Obeys S.world m w Q) : Obeys S.world (World.noting call m) w Q := by
  obtain ⟨hi, hl, hq⟩ := hm
  rcases hr : m w with ⟨(e | _) | a, w'⟩ <;> rw [hr] at hi hl hq
  · have failed : World.noting call m w = (.error (.failed e), w'.noteFailure call e) := by
      rw [World.noting, hr]
    refine ⟨failed ▸ hi.noteFailure call e, failed ▸ hl, fun a ha => ?_⟩
    rw [failed] at ha
    cases ha
  · have stopped : World.noting call m w = (.error .exhausted, w') := by rw [World.noting, hr]
    exact ⟨stopped ▸ hi, stopped ▸ hl, fun a ha => by rw [stopped] at ha; cases ha⟩
  · have answered : World.noting call m w = (.ok a, w') := by rw [World.noting, hr]
    exact ⟨answered ▸ hi, answered ▸ hl, answered ▸ hq⟩

/-- A plan is carried out by calls that keep secrets. -/
theorem hostAction {tells : (Nat → Prop) → α → Prop}
    {dispatch : ObjectRef → SymbolId → List ClosedType → List Value → Run (World σ) Value}
    (hd : ∀ {o m typeArgs args} {w : World σ}, w.Discreet S → (∀ v ∈ args, S.Allows w v) →
      Obeys S.world (dispatch o m typeArgs args) w S.Allows)
    (action : HostAction σ α) (h : w.Discreet S) (ha : action.Discreet S.holds tells (S.visible w)) :
    Obeys S.world (action.run dispatch) w fun w a => tells (S.visible w) a := by
  induction action generalizing w with
  | done result => exact .ofExcept h ha
  | read next ih => exact (ih w.host h (ha w.host fun _ => h.host)).from rfl (S.world.refl w)
  | write state next ih =>
    exact (ih (h.withHost fun {i} => ha.1 i) ha.2).from rfl (Secrecy.le_of_arrays rfl)
  | allocate type next ih =>
    exact (ih _ (h.newObject type) (ha _)).from rfl (Secrecy.le_of_arrays rfl)
  | dispatch o m typeArgs args next ih =>
    obtain ⟨hi, hl, hv⟩ := hd h ha.1
    have later := ha.2 (S.visible (dispatch o m typeArgs args w).2) fun _ => Secrecy.visible_later hl
    rcases called : dispatch o m typeArgs args w with ⟨(e | _) | v, w'⟩ <;>
      rw [called] at hi hl hv later
    · have went : (HostAction.dispatch o m typeArgs args next).run dispatch w =
          (next (.error e)).run dispatch w' := by simp only [HostAction.run, called]
      exact (ih _ hi (later (.error e) fun v hr => by cases hr)).from went hl
    · exact .stopped (by simp only [HostAction.run, called]; rfl) hi hl
    · have went : (HostAction.dispatch o m typeArgs args next).run dispatch w =
          (next (.ok v)).run dispatch w' := by simp only [HostAction.run, called]
      exact (ih _ hi (later _ fun v hr => by cases hr; exact hv v rfl)).from went hl

end World.Discreet

/-- Nothing is known of in the beginning. -/
theorem World.Discreet.initial {σ : Type} {S : Secrecy σ} {state : σ} (hidden : ∀ i, ¬S.hidden i)
    (holds : ∀ i, ¬S.holds state i) : (World.initial state).Discreet S where
  made hi := absurd hi (hidden _)
  objects found := by cases found
  arrays found := by cases found
  frames f name v bound := by cases bound
  sessions s := ⟨nofun, nofun⟩
  host held := absurd held (holds _)

/-! ## Hosts given as data -/

namespace Scripted

/-- What is held in cells. -/
def State.holds (s : State) (i : Nat) : Prop := ∃ m v, s.cells.get? m = some v ∧ i ∈ v.arrays

/-- The script was written down without any array. -/
def Script.Plain : Script → Prop
  | .constant v | .cell v => v.arrays = []
  | _ => True

theorem loadCell_discreet {K : Nat → Prop} (m : SymbolId) {start : Value} (hs : start.arrays = []) :
    (loadCell m start).Discreet State.holds Value.Within K := by
  intro s held v hv
  cases hv
  cases stored : s.cells.get? m with
  | none => exact Value.within_of_arrays hs
  | some v => exact fun i hi => held i ⟨m, v, stored, hi⟩

theorem storeCell_discreet {α : Type} {K : Nat → Prop} {tells : (Nat → Prop) → α → Prop}
    (m : SymbolId) {v : Value} {answer : α} (hv : v.Within K) (ha : tells K answer) :
    (storeCell m v answer).Discreet State.holds tells K := by
  intro s held
  refine ⟨fun i ⟨m', u, stored, hi⟩ => ?_, fun a h => by cases h; exact ha⟩
  by_cases same : m = m'
  · subst same
    rw [Table.get?_insert_self] at stored
    cases stored
    exact hv i hi
  · rw [Table.get?_insert_other _ same] at stored
    exact held i ⟨m', u, stored, hi⟩

theorem ofInvoke_discreet {invoke : PhysicalCall → HostAction State Value}
    (h : ∀ {K : Nat → Prop} call, (∀ v ∈ call.receiver, v.Within K) → (∀ v ∈ call.args, v.Within K) →
      (invoke call).Discreet State.holds Value.Within K) :
    (Handle.ofInvoke invoke).Discreet State.holds where
  invoke call hr ha := h call hr ha
  load _ _ _ := nofun
  store _ _ _ _ _ := nofun

theorem Script.handle_discreet (m : SymbolId) {script : Script} (plain : script.Plain) :
    (script.handle m).Discreet State.holds := by
  cases script with
  | constant v =>
    exact ofInvoke_discreet fun call _ _ u hu => by cases hu; exact Value.within_of_arrays plain
  | argument i =>
    refine ofInvoke_discreet fun call _ ha => ?_
    cases hi : call.args[i]? with
    | none => exact nofun
    | some v => exact fun u hu => by cases hu; exact ha v (List.mem_of_getElem? hi)
  | receiver =>
    refine ofInvoke_discreet fun call hr _ u hu => ?_
    cases hu
    cases given : call.receiver with
    | none => exact Value.within_of_arrays rfl
    | some v => exact hr v given
  | create =>
    exact ofInvoke_discreet fun call _ _ o u hu => by cases hu; exact Value.within_of_arrays rfl
  | count =>
    refine ofInvoke_discreet fun call _ _ s held => ⟨fun i hi => held i hi, fun u hu => ?_⟩
    cases hu
    exact Value.within_of_arrays rfl
  | fail message => exact ofInvoke_discreet fun call _ _ => nofun
  | cell start =>
    refine ⟨fun {K} call _ ha => ?_, fun _ _ => loadCell_discreet m plain,
      fun _ v _ hv => storeCell_discreet m hv trivial⟩
    simp only [Script.handle]
    split
    · exact loadCell_discreet m plain
    · rename_i v given
      exact storeCell_discreet m (ha v (List.mem_of_getLast? given)) (Value.within_of_arrays rfl)
  | dispatch member =>
    refine ofInvoke_discreet fun {K} call _ ha => ?_
    split
    · rename_i o rest given
      rw [given] at ha
      exact ⟨fun v hv => ha v (List.mem_cons_of_mem _ hv), fun K' _ r hr => hr⟩
    · exact nofun

/-- Whatever was written down, the host makes up no array when no script begins with one. -/
theorem Program.host_discreet {p : Program}
    (plain : ∀ m ∈ p.members, ∀ script ∈ m.script, script.Plain) : p.host.Discreet State.holds where
  handle {m handle} h := by
    obtain ⟨s, found, given⟩ := Option.bind_eq_some_iff.1 (Except.ok.inj h)
    obtain ⟨script, scripted, rfl⟩ := Option.map_eq_some_iff.1 given
    exact script.handle_discreet m (plain s (List.mem_of_find?_eq_some found) script scripted)
  backing {type backing} h K args _ := by
    simp only [Program.host] at h
    split at h
    · cases h; exact fun _ _ _ => trivial
    · cases h
      intro s held
      dsimp only
      split
      · exact fun _ _ => trivial
      · exact fun _ => ⟨fun i hi => held i hi, fun _ _ => trivial⟩
    · cases h
    · cases h
      intro _ hr
      cases hr

end Scripted

end OpTree
