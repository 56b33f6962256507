/-
What lasts in the frames. Every change of the frames is one of two: a frame is made, or a
binding is put into one. So what holds between a store of frames and a later one under both
holds from the beginning of an evaluation to its end (`evalWithin_lasting`), and it is shown
once for all such relations (`World.framing`). Names, in particular, stay bound
(`evalWithin_sees`).
-/
import OpTree.Proofs.Decisions
import OpTree.Proofs.Scopes
import OpTree.Proofs.Shadowing

namespace OpTree

/-- What holds between a store of frames and a later one: frames are made, and names are bound. -/
structure FrameStore.Lasting (R : FrameStore → FrameStore → Prop) : Prop where
  refl : ∀ s, R s s
  trans : ∀ {s t u}, R s t → R t u → R s u
  add : ∀ s kind ancestors, R s (s.add kind ancestors).2
  bindAt : ∀ s f name binding, R s (s.bindAt f name binding)

namespace FrameStore.Lasting

variable {R : FrameStore → FrameStore → Prop} (h : FrameStore.Lasting R) {s s' : FrameStore}

include h

theorem insert {f : FrameId} {name : String} {binding : Binding}
    (hs : s.insert f name binding = .ok s') : R s s' := by
  simp only [FrameStore.insert] at hs
  split at hs
  · cases hs
  · cases hs
    exact h.bindAt s f name binding

theorem assign {f : FrameId} {name : String} {v : Value} (hs : s.assign f name v = .ok s') :
    R s s' := by
  simp only [FrameStore.assign] at hs
  split at hs
  · cases hs
    exact h.bindAt s _ name _
  · cases hs

end FrameStore.Lasting

namespace World

variable {σ : Type} {host : Host σ} {R : FrameStore → FrameStore → Prop}

theorem changeFrames_lasting (h : FrameStore.Lasting R) {name : String}
    {change : FrameStore → Except FrameError FrameStore} (hc : ∀ s s', change s = .ok s' → R s s')
    (w : World σ) : R w.frames (World.changeFrames name change w).2.frames := by
  simp only [World.changeFrames]
  split
  · exact hc _ _ ‹_›
  · exact h.refl _

theorem classFrame_lasting (h : FrameStore.Lasting R) (s : SessionId) (type : ClosedType)
    (w : World σ) : R w.frames (World.classFrame s type w).2.frames := by
  simp only [World.classFrame, Run.modifyGet]
  cases (w.session s).classFrames.get? type with
  | some f => exact h.refl _
  | none => exact h.add w.frames (.ofClass type) []

/-- Runs that change frames in the two ways in which they are changed. -/
def framing (host : Host σ) (h : FrameStore.Lasting R) : WorldTerms host where
  toTerms := .keeping (fun w w' => R w.frames w'.frames) False False (fun w => h.refl w.frames) h.trans
  sights _ f f' := f = f'
  frames _ f f' := f = f'
  roots _ f f' := f = f'
  holders _ _ f f' := f = f'
  seen h := h
  holds h := h
  laterSights _ h := h
  later _ h := h
  laterRoots _ h := h
  laterHolders _ h := h
  names h hf name := by obtain ⟨rfl, rfl⟩ := h; rw [hf]
  arguments h hf := by obtain ⟨rfl, rfl⟩ := h; rw [hf]
  instances h hf := by obtain ⟨rfl, rfl⟩ := h; rw [hf]
  links h o := by
    obtain ⟨rfl, rfl⟩ := h
    exact .refl (fun _ => rfl) _
  slots h _ _ := by obtain ⟨rfl, rfl⟩ := h; rfl
  statics h _ _ := by obtain ⟨rfl, rfl⟩ := h; rfl
  entries h _ _ := by obtain ⟨rfl, rfl⟩ := h; rfl
  tables h _ _ := by obtain ⟨rfl, rfl⟩ := h; rfl
  isOpen h _ := by obtain ⟨rfl, rfl⟩ := h; rfl
  cells h _ := by obtain ⟨rfl, rfl⟩ := h; rfl
  state h := by obtain ⟨rfl, rfl⟩ := h; rfl
  classFrame b s type := Run.agrees_keeping (classFrame_lasting h s type) b
  methodFrame {b f f'} m typeArgs hf := by
    cases hf
    exact Run.agrees_keeping (fun w => h.add w.frames _ _) b
  instanceFrame {b f f'} o hf := by
    cases hf
    intro b₁ w w' hb hw
    refine (Run.agrees_keeping (fun w => h.add w.frames _ _) b b₁ w w' hb hw).imp
      fun _ _ _ h => ⟨h, h⟩
  scopeFrame {b f f'} hf := by
    cases hf
    exact Run.agrees_keeping (fun w => h.add w.frames _ _) b
  declare {b f f'} name hf := by
    cases hf
    exact Run.agrees_keeping (changeFrames_lasting h fun _ _ => h.insert) b
  define {b f f'} name v hf := by
    cases hf
    exact Run.agrees_keeping (changeFrames_lasting h fun _ _ => h.insert) b
  assign {b f f'} name v hf := by
    cases hf
    exact Run.agrees_keeping (changeFrames_lasting h fun _ _ => h.assign) b
  target c m hc := by
    subst hc
    refine Run.agrees_keeping fun w => ?_
    rw [← (c.target_sameButTargets m w).frames]
    exact h.refl _
  register s entry := Run.agrees_keeping fun w => h.refl _
  keepTable s type table hw hnone _ := by
    obtain ⟨rfl, rfl⟩ := hw
    exact ⟨keepTable _ s type table, h.refl _, rfl, rfl⟩
  storeStatic s place v hw := by
    obtain ⟨rfl, rfl⟩ := hw
    exact ⟨storeStatic _ s place v, h.refl _, rfl, rfl⟩
  storeSlot o field v hw := by
    obtain ⟨rfl, rfl⟩ := hw
    exact ⟨storeSlot _ o field v, h.refl _, rfl, rfl⟩
  bindLink o s _ table hw hf _ := by
    cases hf
    refine (Run.agrees_keeping (fun w => ?_)).apply hw
    simp only [World.bind]
    split <;> exact h.refl _
  newObject type := Run.agrees_keeping fun _ => h.refl _
  newArray element cell := Run.agrees_keeping fun _ => h.refl _
  setElement a indices v := Run.agrees_keeping fun w => by
    simp only [World.setElement]
    split
    · split <;> exact h.refl _
    · exact h.refl _
  record call hw := by
    obtain ⟨rfl, rfl⟩ := hw
    exact ⟨World.record _ call, h.refl _, rfl, rfl⟩
  write {b w w'} state hw := by
    obtain ⟨rfl, rfl⟩ := hw
    exact ⟨{ b with host := state }, h.refl _, rfl, rfl⟩
  noteFailure call e hw := by
    obtain ⟨rfl, rfl⟩ := hw
    exact ⟨World.noteFailure _ call e, h.refl _, rfl, rfl⟩

end World

theorem evalWithin_lasting {σ : Type} (host : Host σ) {R : FrameStore → FrameStore → Prop}
    (h : FrameStore.Lasting R) (n : Nat) (session : SessionId) (x : Node) (s : Machine σ) :
    R s.world.frames (evalWithin host n session x s).2.world.frames := by
  have agrees := (Context.within_self (World.framing host h) n session).eval x
  have tied : (NodeTerms.all (World.framing host h)).Tied s.world s.activation s.activation := by
    refine ⟨rfl, fun _ => ?_, ⟨rfl, rfl, rfl, rfl, rfl, rfl⟩, False.elim⟩
    cases s.activation.instanceFrame with
    | none => exact .none
    | some f => exact .some rfl
  have ends := agrees.apply (b := ⟨s.world, s.activation, s.activation⟩) ⟨⟨rfl, rfl⟩, tied, rfl, rfl⟩
  change R s.world.frames ((Context.within host n session).eval x s).2.world.frames
  generalize (Context.within host n session).eval x s = y at ends
  cases ends with
  | short hl => exact hl.elim
  | short' hl => exact hl.elim
  | ok hle ht _ | error hle ht =>
    obtain ⟨⟨hb, -⟩, -⟩ := ht
    exact hb ▸ hle.1

/-! ## Names -/

namespace FrameStore

/-- Frames stay where they are, and names stay bound. -/
structure KeepsNames (s t : FrameStore) : Prop where
  frames : s.Extends t
  names : ∀ f name, (s.bindingAt? f name).isSome = true → (t.bindingAt? f name).isSome = true

theorem bindAt_of_not_has {s : FrameStore} {f : FrameId} (h : ¬s.Has f) (name : String)
    (b : Binding) (g : FrameId) (name' : String) :
    (s.bindAt f name b).bindingAt? g name' = s.bindingAt? g name' := by
  by_cases hg : g = f
  · subst hg
    have h' : ¬(s.bindAt g name b).Has g := by simpa [has_iff_lt, bindAt] using h
    rw [bindingAt?, bindingAt?, bindings_of_not_has h, bindings_of_not_has h']
  · rw [bindingAt?, bindingAt?, bindings, bindings, frame?_bindAt_other name b hg]

theorem keepsNames_lasting : Lasting KeepsNames where
  refl s := ⟨.refl s, fun _ _ h => h⟩
  trans h h' := ⟨h.frames.trans h'.frames, fun f name hb => h'.names f name (h.names f name hb)⟩
  add s kind ancestors := by
    refine ⟨extends_add s kind ancestors, fun f name hb => ?_⟩
    rw [bindingAt?, bindings_add]
    exact hb
  bindAt s f name b := by
    refine ⟨extends_bindAt s f name b, fun g name' hb => ?_⟩
    by_cases hf : s.Has f
    · rw [bindingAt?_bindAt hf]
      split
      · rfl
      · exact hb
    · rw [bindAt_of_not_has hf]
      exact hb

theorem has_of_isBound {s : FrameStore} {f : FrameId} {name : String} (h : s.isBound f name = true) :
    s.Has f :=
  has_of_mem_namesSeen (mem_namesSeen.2 h)

theorem KeepsNames.isBound {s t : FrameStore} (h : s.KeepsNames t) {f : FrameId} {name : String}
    (hb : s.isBound f name = true) : t.isBound f name = true := by
  rw [isBound_eq, List.any_eq_true] at hb ⊢
  obtain ⟨g, hg, bound⟩ := hb
  rw [h.frames.chain (has_of_isBound (isBound_eq .. ▸ List.any_eq_true.2 ⟨g, hg, bound⟩))]
  exact ⟨g, hg, h.names g name bound⟩

end FrameStore

theorem evalWithin_sees {σ : Type} {host : Host σ} {n : Nat} {session : SessionId} {x : Node}
    {s t : Machine σ} {r : Except Stop Value} (h : evalWithin host n session x s = (r, t))
    {name : String} (hs : s.sees name = true) : t.sees name = true := by
  have names := evalWithin_lasting host FrameStore.keepsNames_lasting n session x s
  obtain ⟨-, rests⟩ := evalWithin_grows host n session x s
  rw [h] at names rests
  rw [Machine.sees, rests.frame]
  exact names.isBound hs

end OpTree
