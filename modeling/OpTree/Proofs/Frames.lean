/-
The store of frames. Every frame stays where it is, of the kind that it was made
with and on top of the same frames; what changes is what names are bound to
(`FrameStore.Extends`). A name is bound in one frame at a time, and a frame that is
made binds nothing. An object that is gone is no longer the current instance anywhere, and
makes no other difference to what is found (`FrameStore.currentInstance?_forget`).
-/
import OpTree.Storage.Frame

namespace OpTree

/-- Every frame is still there, of the same kind and on top of the same frames. -/
def FrameStore.Extends (s s' : FrameStore) : Prop :=
  ∀ f frame, s.frame? f = some frame →
    ∃ frame', s'.frame? f = some frame' ∧ frame'.kind = frame.kind ∧
      frame'.ancestors = frame.ancestors

namespace FrameStore

theorem Extends.refl (s : FrameStore) : s.Extends s := fun _ frame h => ⟨frame, h, rfl, rfl⟩

theorem Extends.trans {s t u : FrameStore} (h : s.Extends t) (h' : t.Extends u) : s.Extends u := by
  intro f frame hf
  obtain ⟨frame', hf', hk, ha⟩ := h f frame hf
  obtain ⟨frame'', hf'', hk', ha'⟩ := h' f frame' hf'
  exact ⟨frame'', hf'', hk'.trans hk, ha'.trans ha⟩

/-- A frame that exists. -/
def Has (s : FrameStore) (f : FrameId) : Prop := (s.frame? f).isSome

instance (s : FrameStore) (f : FrameId) : Decidable (s.Has f) :=
  inferInstanceAs (Decidable ((s.frame? f).isSome = true))

theorem Has.extends {s s' : FrameStore} {f} (h : s.Has f) (hs : s.Extends s') : s'.Has f := by
  obtain ⟨frame, hf⟩ := Option.isSome_iff_exists.1 h
  obtain ⟨frame', hf', -⟩ := hs f frame hf
  exact Option.isSome_iff_exists.2 ⟨frame', hf'⟩

theorem Extends.kind? {s s' : FrameStore} {f} (hs : s.Extends s') (h : s.Has f) :
    s'.kind? f = s.kind? f := by
  obtain ⟨frame, hf⟩ := Option.isSome_iff_exists.1 h
  obtain ⟨frame', hf', hk, -⟩ := hs f frame hf
  simp [FrameStore.kind?, hf, hf', hk]

theorem Extends.chain {s s' : FrameStore} {f} (hs : s.Extends s') (h : s.Has f) :
    s'.chain f = s.chain f := by
  obtain ⟨frame, hf⟩ := Option.isSome_iff_exists.1 h
  obtain ⟨frame', hf', -, ha⟩ := hs f frame hf
  simp [FrameStore.chain, hf, hf', ha]

@[simp] theorem frame?_add_self (s : FrameStore) (kind : FrameKind) (as : List FrameId) :
    (s.add kind as).2.frame? (s.add kind as).1 = some ⟨kind, as, .empty⟩ := by
  simp [add, frame?]

theorem frame?_add_of_has (s : FrameStore) (kind : FrameKind) (as : List FrameId) {f : FrameId}
    (h : s.Has f) : (s.add kind as).2.frame? f = s.frame? f := by
  obtain ⟨frame, hf⟩ := Option.isSome_iff_exists.1 h
  have hlt : f.index < s.frames.size := by
    simp only [frame?] at hf
    exact (Array.getElem?_eq_some_iff.1 hf).1
  simp only [add, frame?]
  rw [Array.getElem?_push_lt hlt, Array.getElem?_eq_getElem hlt]

theorem extends_add (s : FrameStore) (kind : FrameKind) (as : List FrameId) :
    s.Extends (s.add kind as).2 := by
  intro f frame hf
  have h : s.Has f := Option.isSome_iff_exists.2 ⟨frame, hf⟩
  exact ⟨frame, by rw [frame?_add_of_has s kind as h, hf], rfl, rfl⟩

theorem extends_bindAt (s : FrameStore) (f : FrameId) (name : String) (b : Binding) :
    s.Extends (s.bindAt f name b) := by
  intro f' frame hf
  simp only [frame?] at hf
  simp only [frame?, bindAt, Array.getElem?_modify]
  by_cases h : f.index = f'.index
  · exact ⟨{ frame with bindings := frame.bindings.insert name b }, by simp [h, hf], rfl, rfl⟩
  · exact ⟨frame, by simp [h, hf], rfl, rfl⟩

theorem extends_insert {s s' : FrameStore} {f name b} (h : s.insert f name b = .ok s') :
    s.Extends s' := by
  simp only [insert] at h
  split at h
  · cases h
  · cases h; exact extends_bindAt s f name b

theorem extends_assign {s s' : FrameStore} {f name v} (h : s.assign f name v = .ok s') :
    s.Extends s' := by
  simp only [assign] at h
  split at h
  · cases h; exact extends_bindAt s _ name _
  · cases h

theorem kind?_addChild (s : FrameStore) (parent : FrameId) (kind : FrameKind) :
    (s.addChild parent kind).2.kind? (s.addChild parent kind).1 = some kind := by
  simp [addChild, kind?]

theorem chain_addChild (s : FrameStore) (parent : FrameId) (kind : FrameKind) :
    (s.addChild parent kind).2.chain (s.addChild parent kind).1 =
      (s.addChild parent kind).1 :: s.chain parent := by
  simp only [addChild]
  rw [chain, frame?_add_self]

theorem has_add (s : FrameStore) (kind : FrameKind) (ancestors : List FrameId) :
    (s.add kind ancestors).2.Has (s.add kind ancestors).1 := by
  rw [Has, frame?_add_self]
  rfl

theorem has_iff_lt {s : FrameStore} {f : FrameId} : s.Has f ↔ f.index < s.frames.size := by
  simp [Has, frame?]

/-- A frame that is made is not one that there was. -/
theorem not_has_new (s : FrameStore) (kind : FrameKind) (as : List FrameId) :
    ¬s.Has (s.add kind as).1 := by
  rw [has_iff_lt]
  exact Nat.lt_irrefl _

theorem frame?_bindAt_other {s : FrameStore} {f g : FrameId} (name : String) (b : Binding)
    (h : g ≠ f) : (s.bindAt f name b).frame? g = s.frame? g := by
  have hi : f.index ≠ g.index := by
    intro he
    exact h (by cases f; cases g; simp_all)
  simp only [frame?, bindAt, Array.getElem?_modify, if_neg hi]

theorem frame?_bindAt_self {s : FrameStore} {f : FrameId} {frame : Frame} (name : String)
    (b : Binding) (h : s.frame? f = some frame) :
    (s.bindAt f name b).frame? f = some { frame with bindings := frame.bindings.insert name b } := by
  simp only [frame?] at h
  simp only [frame?, bindAt, Array.getElem?_modify, h, if_true, Option.map_some]

/-! ## Bindings -/

theorem owner?_eq_some {s : FrameStore} {name : String} {fs : List FrameId} {f : FrameId}
    {b : Binding} (h : s.owner? name fs = some (f, b)) : f ∈ fs ∧ s.bindingAt? f name = some b := by
  induction fs with
  | nil => cases h
  | cons g fs ih =>
    simp only [owner?] at h
    cases hg : s.bindingAt? g name with
    | some b' =>
      rw [hg] at h
      cases h
      exact ⟨by simp, hg⟩
    | none =>
      rw [hg] at h
      obtain ⟨hf, hb⟩ := ih h
      exact ⟨by simp [hf], hb⟩

/-- A name is bound where a frame of the chain binds it. -/
theorem isBound_eq (s : FrameStore) (f : FrameId) (name : String) :
    s.isBound f name = (s.chain f).any fun g => (s.bindingAt? g name).isSome := by
  simp only [isBound, lookup?]
  induction s.chain f with
  | nil => rfl
  | cons g fs ih =>
    simp only [owner?, List.any_cons, ← ih]
    cases s.bindingAt? g name <;> rfl

theorem bindingAt?_bindAt {s : FrameStore} {f : FrameId} (hf : s.Has f) (name : String) (b : Binding)
    (g : FrameId) (name' : String) : (s.bindAt f name b).bindingAt? g name' =
      if g = f ∧ name = name' then some b else s.bindingAt? g name' := by
  by_cases hg : g = f
  · subst hg
    obtain ⟨frame, hf⟩ := Option.isSome_iff_exists.1 hf
    simp only [bindingAt?, bindings, frame?_bindAt_self name b hf, hf, true_and]
    by_cases hn : name = name'
    · subst hn; simp
    · simp [hn, Table.get?_insert_other _ hn]
  · simp only [bindingAt?, bindings, frame?_bindAt_other name b hg, hg, false_and, if_false]

/-! ## Objects that are gone -/

section forget

variable {s : FrameStore} {f : FrameId} (object : ObjectRef)

/-- A frame whose object is gone has none, and no frame has changed otherwise. -/
theorem frame?_forget {frame : Frame} (h : s.frame? f = some frame) :
    ∃ kind, (s.forget object).frame? f = some { frame with kind := kind } ∧
      ((∃ o, o.id = object.id ∧ frame.kind = .ofInstance (some o) ∧ kind = .ofInstance none) ∨
        (∀ o, frame.kind = .ofInstance (some o) → o.id ≠ object.id) ∧ kind = frame.kind) := by
  obtain ⟨kind, ancestors, bindings⟩ := frame
  simp only [frame?] at h
  simp only [frame?, forget, Array.getElem?_map, h, Option.map_some]
  cases kind with
  | ofInstance o =>
    cases o with
    | none => exact ⟨_, rfl, .inr ⟨fun _ he => (by cases he), rfl⟩⟩
    | some o =>
      by_cases hid : o.id = object.id
      · exact ⟨.ofInstance none, by simp only [hid, if_true], .inl ⟨o, hid, rfl, rfl⟩⟩
      · refine ⟨.ofInstance (some o), by simp only [hid, if_false], .inr ⟨fun _ he => ?_, rfl⟩⟩
        cases he
        exact hid
  | ofClass | ofMethod | scope => exact ⟨_, rfl, .inr ⟨fun _ he => (by cases he), rfl⟩⟩

theorem frame?_forget_none (h : s.frame? f = none) : (s.forget object).frame? f = none := by
  simp only [frame?] at h
  simp only [frame?, forget, Array.getElem?_map, h, Option.map_none]

theorem chain_forget (s : FrameStore) (f : FrameId) : (s.forget object).chain f = s.chain f := by
  cases h : s.frame? f with
  | none => simp only [chain, h, frame?_forget_none object h]
  | some frame =>
    obtain ⟨kind, found, -⟩ := frame?_forget object h
    simp only [chain, h, found]

theorem bindings_forget (s : FrameStore) (f : FrameId) :
    (s.forget object).bindings f = s.bindings f := by
  cases h : s.frame? f with
  | none => simp only [bindings, h, frame?_forget_none object h]
  | some frame =>
    obtain ⟨kind, found, -⟩ := frame?_forget object h
    simp only [bindings, h, found]

/-- Names are found as before. -/
theorem lookup?_forget (s : FrameStore) (f : FrameId) (name : String) :
    (s.forget object).lookup? f name = s.lookup? f name := by
  rw [lookup?, lookup?, chain_forget]
  induction s.chain f with
  | nil => rfl
  | cons g fs ih => simp only [owner?, bindingAt?, bindings_forget, ih]

theorem genericArgument_forget (s : FrameStore) (f : FrameId) :
    (s.forget object).genericArgument f = s.genericArgument f := by
  have arguments (level : GenericLevel) (fs : List FrameId) :
      (s.forget object).argumentsOf? level fs = s.argumentsOf? level fs := by
    induction fs with
    | nil => rfl
    | cons g fs ih =>
      have held : ((s.forget object).kind? g).bind (fun kind => kind.arguments? level) =
          (s.kind? g).bind fun kind => kind.arguments? level := by
        cases h : s.frame? g with
        | none => simp only [kind?, h, frame?_forget_none object h]
        | some frame =>
          obtain ⟨kind, found, ⟨o, -, he, rfl⟩ | ⟨-, rfl⟩⟩ := frame?_forget object h
          · simp only [kind?, h, found, Option.map_some, Option.bind_some, he]
            rfl
          · simp only [kind?, h, found]
      simp only [argumentsOf?, held, ih]
  funext p
  simp only [genericArgument, arguments, chain_forget]

/-- The current instance is what it was, unless it is gone. -/
theorem currentInstance?_forget (s : FrameStore) (f : FrameId) :
    (s.forget object).currentInstance? f =
      (s.currentInstance? f).filter fun o => o.id != object.id := by
  rw [currentInstance?, currentInstance?, chain_forget]
  induction s.chain f with
  | nil => rfl
  | cons g fs ih =>
    cases h : s.frame? g with
    | none => simp [instanceOf?, kind?, h, frame?_forget_none object h]
    | some frame =>
      obtain ⟨kind, found, ⟨o, hid, he, rfl⟩ | ⟨other, rfl⟩⟩ := frame?_forget object h
      · simp [instanceOf?, kind?, h, found, he, hid, Option.filter]
      · simp only [instanceOf?, kind?, h, found, Option.map_some]
        cases hk : frame.kind with
        | ofInstance o =>
          cases o with
          | none => rfl
          | some o => simp [Option.filter, other o hk]
        | ofClass => rfl
        | ofMethod | scope => exact ih

end forget

end FrameStore

end OpTree
