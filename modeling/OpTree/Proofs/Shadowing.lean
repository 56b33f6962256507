/-
Shadowing, over everything that can be done to frames: making one, on no frame or on
another, and declaring, defining or assigning a name in one.

A name is bound only where no frame of the chain binds it, so what a frame binds is
never bound by a frame it stands on at that moment. The check looks at the chain and
not at the frames that stand on it: a name that is bound in an inner frame first and
in an outer frame afterwards is in the inner chain twice. `unshadowed_iff` says that
names get into a chain twice in this way only. A name never leaves the frame it is
bound in, so one such step is never made good.
-/
import Mathlib.Data.List.Basic
import OpTree.Proofs.Sparing

namespace OpTree

namespace Table

variable {κ ν : Type} [DecidableEq κ]

/-- The keys, in the order of first insertion. -/
def keys (t : Table κ ν) : List κ := t.entries.map Prod.fst

theorem find_isSome (k : κ) (es : List (κ × ν)) : (find k es).isSome ↔ k ∈ es.map Prod.fst := by
  induction es with
  | nil => simp [find]
  | cons e es ih =>
    obtain ⟨k', v⟩ := e
    by_cases h : k' = k
    · simp [find, h]
    · simp [find, h, Ne.symm h, ih]

theorem get?_isSome (t : Table κ ν) (k : κ) : (t.get? k).isSome ↔ k ∈ t.keys :=
  find_isSome k t.entries

theorem map_fst_put (k : κ) (v : ν) (es : List (κ × ν)) : (put k v es).map Prod.fst =
    if k ∈ es.map Prod.fst then es.map Prod.fst else es.map Prod.fst ++ [k] := by
  induction es with
  | nil => simp [put]
  | cons e es ih =>
    obtain ⟨k', v'⟩ := e
    by_cases h : k' = k
    · simp [put, h]
    · simp only [put, h, if_false, List.map_cons, ih, List.mem_cons, Ne.symm h, false_or]
      split <;> simp

theorem keys_insert (t : Table κ ν) (k : κ) (v : ν) :
    (t.insert k v).keys = if k ∈ t.keys then t.keys else t.keys ++ [k] :=
  map_fst_put k v t.entries

end Table

/-- Something that is done to the frames. -/
inductive FrameChange where
  | classFrame (type : ClosedType)
  /-- The frame of an object or of a call, or a block. -/
  | childFrame (parent : FrameId) (kind : FrameKind)
  | declare (f : FrameId) (name : String)
  | define (f : FrameId) (name : String) (v : Value)
  | defineOrAssign (f : FrameId) (name : String) (v : Value)
  | assign (f : FrameId) (name : String) (v : Value)

namespace FrameStore

variable {s : FrameStore} {f g : FrameId} {name : String}

def apply (s : FrameStore) : FrameChange → Except FrameError FrameStore
  | .classFrame type => .ok (s.addClass type).2
  | .childFrame parent kind => .ok (s.addChild parent kind).2
  | .declare f name => s.declare f name
  | .define f name v => s.define f name v
  | .defineOrAssign f name v => .ok (s.defineOrAssign f name v)
  | .assign f name v => s.assign f name v

/-- The frames after a change; one that fails changes nothing. -/
def after (s : FrameStore) (c : FrameChange) : FrameStore :=
  match s.apply c with
  | .ok s' => s'
  | .error _ => s

/-- The frames after some changes, one after the other. -/
def afterAll (s : FrameStore) (cs : List FrameChange) : FrameStore := cs.foldl after s

/-- Every one of some changes is as `P` says at the frames that it finds. -/
def Throughout (P : FrameStore → FrameChange → Prop) : FrameStore → List FrameChange → Prop
  | _, [] => True
  | s, c :: cs => P s c ∧ Throughout P (s.after c) cs

instance Throughout.decidable {P : FrameStore → FrameChange → Prop} [∀ s c, Decidable (P s c)] :
    (s : FrameStore) → (cs : List FrameChange) → Decidable (s.Throughout P cs)
  | _, [] => .isTrue trivial
  | s, c :: cs =>
    have : Decidable (Throughout P (s.after c) cs) := Throughout.decidable (s.after c) cs
    inferInstanceAs (Decidable (P s c ∧ Throughout P (s.after c) cs))

/-- The names that the frames of a chain bind, a name as often as it is bound. -/
def namesSeen (s : FrameStore) (f : FrameId) : List String :=
  (s.chain f).flatMap fun g => (s.bindings g).keys

/-- No name is bound twice in any chain. -/
def Unshadowed (s : FrameStore) : Prop := ∀ f, (s.namesSeen f).Nodup

/-- The name is free at a frame, and some frame that stands on it sees the name. -/
def BoundInside (s : FrameStore) (f : FrameId) (name : String) : Prop :=
  s.isBound f name = false ∧ ∃ g, f ∈ s.chain g ∧ s.isBound g name = true

end FrameStore

namespace FrameChange

/-- The change is made on a frame that exists, if it is made on one. -/
def On (s : FrameStore) : FrameChange → Prop
  | classFrame _ => True
  | childFrame f _ | declare f _ | define f .. | defineOrAssign f .. | assign f .. => s.Has f

instance (s : FrameStore) : (c : FrameChange) → Decidable (c.On s)
  | .classFrame _ => .isTrue trivial
  | .childFrame f _ | .declare f _ | .define f .. | .defineOrAssign f .. | .assign f .. =>
    inferInstanceAs (Decidable (s.Has f))

/-- The change binds a name around a frame that sees one. -/
def Shadows (s : FrameStore) : FrameChange → Prop
  | declare f name | define f name _ | defineOrAssign f name _ => s.BoundInside f name
  | classFrame _ | childFrame .. | assign .. => False

end FrameChange

namespace FrameStore

variable {s : FrameStore} {f g : FrameId} {name : String}

/-! ## What a frame sees -/

theorem mem_namesSeen : name ∈ s.namesSeen f ↔ s.isBound f name = true := by
  rw [namesSeen, List.mem_flatMap, isBound_eq, List.any_eq_true]
  refine exists_congr fun g => and_congr_right fun _ => ?_
  rw [bindingAt?, Table.get?_isSome]

theorem chain_of_not_has (h : ¬s.Has f) : s.chain f = [f] := by
  rw [chain, Option.not_isSome_iff_eq_none.1 h]

theorem namesSeen_of_not_has (h : ¬s.Has f) : s.namesSeen f = [] := by
  simp [namesSeen, chain_of_not_has h, bindings_of_not_has h, Table.keys, Table.empty]

theorem has_of_mem_namesSeen (h : name ∈ s.namesSeen f) : s.Has f := by
  by_contra hf
  rw [namesSeen_of_not_has hf] at h
  cases h

/-- Only frames that exist see anything. -/
theorem boundInside_iff : s.BoundInside f name ↔ s.isBound f name = false ∧
    ∃ i : Fin s.frames.size, f ∈ s.chain ⟨i⟩ ∧ s.isBound ⟨i⟩ name = true := by
  refine and_congr_right fun _ => ⟨?_, fun ⟨i, h⟩ => ⟨⟨i⟩, h⟩⟩
  rintro ⟨g, hf, hg⟩
  have hg' : s.Has g := has_of_mem_namesSeen (mem_namesSeen.2 hg)
  exact ⟨⟨g.index, has_iff_lt.1 hg'⟩, hf, hg⟩

instance (s : FrameStore) (f : FrameId) (name : String) : Decidable (s.BoundInside f name) :=
  decidable_of_iff _ boundInside_iff.symm

instance (s : FrameStore) : (c : FrameChange) → Decidable (c.Shadows s)
  | .declare f name | .define f name _ | .defineOrAssign f name _ =>
    inferInstanceAs (Decidable (s.BoundInside f name))
  | .classFrame _ | .childFrame .. | .assign .. => .isFalse not_false

/-! ## One change -/

/-- Every frame stands on frames that were made before it. -/
def Descending (s : FrameStore) : Prop :=
  ∀ f, (s.chain f).Pairwise fun g h => h.index < g.index

theorem Descending.chain_nodup (h : s.Descending) (f : FrameId) : (s.chain f).Nodup := by
  refine (h f).imp fun hlt he => ?_
  rw [he] at hlt
  exact Nat.lt_irrefl _ hlt

theorem Descending.lt_size (h : s.Descending) (hf : s.Has f) (hg : g ∈ s.chain f) :
    g.index < s.frames.size := by
  have hlt : f.index < s.frames.size := has_iff_lt.1 hf
  have hd := h f
  rw [chain, List.pairwise_cons] at hd
  rw [chain, List.mem_cons] at hg
  obtain rfl | hg := hg
  · exact hlt
  · have := hd.1 g hg
    omega

theorem has_add_iff (s : FrameStore) (kind : FrameKind) (as : List FrameId) :
    (s.add kind as).2.Has f ↔ s.Has f ∨ f = (s.add kind as).1 := by
  obtain ⟨i⟩ := f
  simp only [has_iff_lt, add, Array.size_push, FrameId.mk.injEq]
  omega

theorem chain_add (s : FrameStore) (kind : FrameKind) (as : List FrameId) (f : FrameId) :
    (s.add kind as).2.chain f =
      if f = (s.add kind as).1 then f :: as else s.chain f := by
  by_cases hn : f = (s.add kind as).1
  · rw [if_pos hn, chain, hn, frame?_add_self]
  · rw [if_neg hn]
    by_cases hf : s.Has f
    · rw [chain, chain, frame?_add_of_has s kind as hf]
    · rw [chain_of_not_has hf, chain_of_not_has]
      rw [has_add_iff]
      exact fun h => h.elim hf hn

theorem chain_bindAt (s : FrameStore) (f : FrameId) (name : String) (b : Binding) (g : FrameId) :
    (s.bindAt f name b).chain g = s.chain g := by
  by_cases hg : s.Has g
  · exact (extends_bindAt s f name b).chain hg
  · rw [chain_of_not_has hg, chain_of_not_has]
    simpa [has_iff_lt, bindAt] using hg

theorem Descending.empty : empty.Descending := by
  intro f
  rw [chain_of_not_has (by simp [has_iff_lt, FrameStore.empty])]
  exact List.pairwise_singleton ..

theorem Descending.add (h : s.Descending) (kind : FrameKind) {as : List FrameId}
    (hs : as.Pairwise fun g h => h.index < g.index) (hlt : ∀ g ∈ as, g.index < s.frames.size) :
    (s.add kind as).2.Descending := by
  intro f
  rw [chain_add]
  split
  · rename_i hf
    subst hf
    exact List.pairwise_cons.2 ⟨hlt, hs⟩
  · exact h f

theorem Descending.bindAt (h : s.Descending) (f : FrameId) (name : String) (b : Binding) :
    (s.bindAt f name b).Descending := by
  intro g
  rw [chain_bindAt]
  exact h g

theorem keys_bindAt (hf : s.Has f) (name : String) (b : Binding) (g : FrameId) :
    ((s.bindAt f name b).bindings g).keys =
      if g = f ∧ name ∉ (s.bindings f).keys then (s.bindings f).keys ++ [name]
      else (s.bindings g).keys := by
  by_cases hg : g = f
  · subst hg
    obtain ⟨frame, hf⟩ := Option.isSome_iff_exists.1 hf
    simp only [bindings, frame?_bindAt_self name b hf, hf, Table.keys_insert, true_and]
    split <;> simp_all
  · rw [if_neg fun h => hg h.1, bindings, bindings, frame?_bindAt_other name b hg]

theorem namesSeen_overwrite (hf : s.Has f) (h : (s.bindingAt? f name).isSome = true) (b : Binding)
    (g : FrameId) : (s.bindAt f name b).namesSeen g = s.namesSeen g := by
  have hn : name ∈ (s.bindings f).keys := (Table.get?_isSome _ _).1 h
  simp only [namesSeen, chain_bindAt, keys_bindAt hf, hn, not_true, and_false, if_false]

theorem perm_flatMap_of_grown {α : Type} {l : List FrameId} (hl : l.Nodup) (hf : f ∈ l)
    {names names' : FrameId → List α} {a : α} (here : names' f = names f ++ [a])
    (there : ∀ g, g ≠ f → names' g = names g) : (l.flatMap names').Perm (a :: l.flatMap names) := by
  induction l with
  | nil => cases hf
  | cons g l ih =>
    obtain ⟨hg, hl⟩ := List.nodup_cons.1 hl
    rw [List.flatMap_cons, List.flatMap_cons]
    by_cases hgf : g = f
    · subst hgf
      have rest : l.flatMap names' = l.flatMap names := by
        refine List.flatMap_congr fun h hh => there h ?_
        rintro rfl
        exact hg hh
      rw [here, rest, List.append_assoc, List.singleton_append]
      exact List.perm_middle
    · have hf : f ∈ l := (List.mem_cons.1 hf).resolve_left (Ne.symm hgf)
      rw [there g hgf]
      exact ((ih hl hf).append_left _).trans List.perm_middle

/-- Every frame that stands on the frame sees the name now, and the others see what they
saw. -/
theorem namesSeen_bind (hs : s.Descending) (hf : s.Has f) (h : s.isBound f name = false)
    (b : Binding) (g : FrameId) : ((s.bindAt f name b).namesSeen g).Perm
      (if f ∈ s.chain g then name :: s.namesSeen g else s.namesSeen g) := by
  have new : name ∉ (s.bindings f).keys := by
    intro hn
    have : name ∈ s.namesSeen f := List.mem_flatMap.2 ⟨f, s.mem_chain_self f, hn⟩
    rw [mem_namesSeen, h] at this
    cases this
  simp only [namesSeen, chain_bindAt]
  have here : ((s.bindAt f name b).bindings f).keys = (s.bindings f).keys ++ [name] := by
    rw [keys_bindAt hf, if_pos ⟨rfl, new⟩]
  have there (h : FrameId) (hh : h ≠ f) :
      ((s.bindAt f name b).bindings h).keys = (s.bindings h).keys := by
    rw [keys_bindAt hf, if_neg fun ha => hh ha.1]
  split
  · rename_i hg
    exact perm_flatMap_of_grown (hs.chain_nodup g) hg here there
  · rename_i hg
    refine .of_eq (List.flatMap_congr fun h hh => there h ?_)
    rintro rfl
    exact hg hh

theorem unshadowed_bind (hs : s.Descending) (hf : s.Has f) (h : s.isBound f name = false)
    (b : Binding) :
    (s.bindAt f name b).Unshadowed ↔ s.Unshadowed ∧ ¬s.BoundInside f name := by
  have seen (g : FrameId) : ((s.bindAt f name b).namesSeen g).Nodup ↔
      (s.namesSeen g).Nodup ∧ (f ∈ s.chain g → s.isBound g name = false) := by
    rw [(namesSeen_bind hs hf h b g).nodup_iff]
    split
    · rename_i hg
      rw [List.nodup_cons, mem_namesSeen, Bool.not_eq_true, and_comm]
      simp only [hg, true_imp_iff]
    · rename_i hg
      simp only [hg, false_imp_iff, and_true]
  simp only [Unshadowed, seen, forall_and, BoundInside, h, true_and, not_exists, not_and,
    Bool.not_eq_true]

theorem namesSeen_add (s : FrameStore) (kind : FrameKind) (as : List FrameId) (f : FrameId) :
    (s.add kind as).2.namesSeen f = if f = (s.add kind as).1 then
      as.flatMap fun g => (s.bindings g).keys else s.namesSeen f := by
  simp only [namesSeen, chain_add, bindings_add]
  split
  · rename_i hf
    subst hf
    rw [List.flatMap_cons, bindings_of_not_has (s.not_has_new kind as)]
    rfl
  · rfl

theorem unshadowed_add (kind : FrameKind) {as : List FrameId}
    (h : s.Unshadowed → (as.flatMap fun g => (s.bindings g).keys).Nodup) :
    (s.add kind as).2.Unshadowed ↔ s.Unshadowed := by
  constructor
  · intro hu f
    have := hu f
    rw [namesSeen_add] at this
    split at this
    · rename_i hf
      rw [hf, namesSeen_of_not_has (s.not_has_new kind as)]
      exact List.nodup_nil
    · exact this
  · intro hu f
    rw [namesSeen_add]
    split
    · exact h hu
    · exact hu f

/-- What a change comes to. -/
inductive Effect (s : FrameStore) (c : FrameChange) : FrameStore → Prop where
  | made (kind : FrameKind) (as : List FrameId)
      (stands : as = [] ∨ ∃ parent, s.Has parent ∧ as = s.chain parent) (harmless : ¬c.Shadows s) :
      s.Effect c (s.add kind as).2
  | bound (f : FrameId) (name : String) (b : Binding) (has : s.Has f)
      (free : s.isBound f name = false) (shadows : c.Shadows s ↔ s.BoundInside f name) :
      s.Effect c (s.bindAt f name b)
  | overwritten (f : FrameId) (name : String) (b : Binding) (has : s.Has f)
      (old : (s.bindingAt? f name).isSome = true) (harmless : ¬c.Shadows s) :
      s.Effect c (s.bindAt f name b)
  | nothing (harmless : ¬c.Shadows s) : s.Effect c s

theorem not_boundInside (h : s.isBound f name = true) : ¬s.BoundInside f name := fun hi => by
  rw [hi.1] at h
  cases h

theorem insert_effect {c : FrameChange} {b : Binding} (hf : s.Has f)
    (hc : s.apply c = s.insert f name b) (shadows : c.Shadows s ↔ s.BoundInside f name) :
    s.Effect c (s.after c) := by
  rw [after, hc, insert]
  cases hb : s.isBound f name with
  | true => exact .nothing fun h => not_boundInside hb (shadows.1 h)
  | false => exact .bound f name b hf hb shadows

theorem overwrite_effect {c : FrameChange} {b : Binding} {old : FrameId × Binding}
    (hl : s.lookup? f name = some old) (hc : s.apply c = .ok (s.bindAt old.1 name b))
    (harmless : ¬c.Shadows s) : s.Effect c (s.after c) := by
  obtain ⟨g, b'⟩ := old
  obtain ⟨-, hb⟩ := owner?_eq_some hl
  rw [after, hc]
  refine .overwritten g name b ?_ (by rw [hb]; rfl) harmless
  by_contra hg
  simp [bindingAt?, bindings_of_not_has hg] at hb

theorem after_effect {c : FrameChange} (on : c.On s) : s.Effect c (s.after c) := by
  cases c with
  | classFrame type => exact .made (.ofClass type) [] (.inl rfl) not_false
  | childFrame parent kind => exact .made kind _ (.inr ⟨parent, on, rfl⟩) not_false
  | declare f name => exact insert_effect on rfl .rfl
  | define f name v => exact insert_effect on rfl .rfl
  | assign f name v =>
    cases hl : s.lookup? f name with
    | some old => exact overwrite_effect hl (by rw [apply, assign, hl]) not_false
    | none =>
      have : s.after (.assign f name v) = s := by rw [after, apply, assign, hl]
      rw [this]
      exact .nothing not_false
  | defineOrAssign f name v =>
    cases hl : s.lookup? f name with
    | some old =>
      have hb : s.isBound f name = true := by rw [isBound, hl]; rfl
      exact overwrite_effect hl (by rw [apply, defineOrAssign, hl]) (not_boundInside hb)
    | none =>
      have hb : s.isBound f name = false := by rw [isBound, hl]; rfl
      have : s.after (.defineOrAssign f name v) = s.bindAt f name (.assigned v) := by
        rw [after, apply, defineOrAssign, hl]
      rw [this]
      exact .bound f name _ on hb .rfl

theorem Effect.descending {c : FrameChange} {s' : FrameStore} (e : s.Effect c s')
    (hs : s.Descending) : s'.Descending := by
  cases e with
  | made kind as stands =>
    obtain rfl | ⟨parent, hp, rfl⟩ := stands
    · exact hs.add kind .nil nofun
    · exact hs.add kind (hs parent) fun g hg => hs.lt_size hp hg
  | bound f name b => exact hs.bindAt f name b
  | overwritten f name b => exact hs.bindAt f name b
  | nothing => exact hs

/-- Only a change that binds a name around a frame that sees it breaks the rule, and no
change mends it. -/
theorem Effect.unshadowed {c : FrameChange} {s' : FrameStore} (e : s.Effect c s')
    (hs : s.Descending) : s'.Unshadowed ↔ s.Unshadowed ∧ ¬c.Shadows s := by
  cases e with
  | made kind as stands harmless =>
    rw [and_iff_left harmless]
    refine unshadowed_add kind fun hu => ?_
    obtain rfl | ⟨parent, -, rfl⟩ := stands
    · exact List.nodup_nil
    · exact hu parent
  | bound f name b has free shadows => rw [shadows, unshadowed_bind hs has free]
  | overwritten f name b has old harmless =>
    simp only [Unshadowed, namesSeen_overwrite has old, harmless, not_false_iff, and_true]
  | nothing harmless => rw [and_iff_left harmless]

/-! ## Any number of changes -/

theorem unshadowed_afterAll (hs : s.Descending) {cs : List FrameChange}
    (on : s.Throughout FrameChange.On cs) : (s.afterAll cs).Unshadowed ↔
      s.Unshadowed ∧ s.Throughout (fun s c => ¬c.Shadows s) cs := by
  induction cs generalizing s with
  | nil => simp [afterAll, Throughout]
  | cons c cs ih =>
    obtain ⟨on, rest⟩ := on
    have effect := after_effect on
    have := ih (effect.descending hs) rest
    rw [effect.unshadowed hs, and_assoc] at this
    exact this

theorem unshadowed_empty : empty.Unshadowed := by
  intro f
  rw [namesSeen_of_not_has (by simp [has_iff_lt, empty])]
  exact List.nodup_nil

/-- Whatever is done to frames, in whatever order: no chain binds a name twice if and only
if no name was ever bound around a frame that saw it already. -/
theorem unshadowed_iff (cs : List FrameChange) (on : empty.Throughout FrameChange.On cs) :
    (empty.afterAll cs).Unshadowed ↔ empty.Throughout (fun s c => ¬c.Shadows s) cs := by
  rw [unshadowed_afterAll .empty on, and_iff_right unshadowed_empty]

end FrameStore

/-- Two blocks in one frame bind a name each for themselves, one of them overwrites its
own, and the frame around them declares another. -/
def siblingBlocks : List FrameChange :=
  [.classFrame (.named ⟨1⟩ []), .childFrame ⟨0⟩ (.ofMethod ⟨30⟩ []), .childFrame ⟨1⟩ .scope,
    .define ⟨2⟩ "x" (.bool true), .childFrame ⟨1⟩ .scope, .declare ⟨3⟩ "x",
    .defineOrAssign ⟨3⟩ "x" .null, .declare ⟨1⟩ "y", .define ⟨2⟩ "y" .null]

theorem siblingBlocks_unshadowed :
    FrameStore.empty.Throughout FrameChange.On siblingBlocks ∧
      FrameStore.empty.Throughout (fun s c => ¬c.Shadows s) siblingBlocks ∧
      (FrameStore.empty.afterAll siblingBlocks).Unshadowed := by
  have on : FrameStore.empty.Throughout FrameChange.On siblingBlocks := by decide
  have harmless : FrameStore.empty.Throughout (fun s c => ¬c.Shadows s) siblingBlocks := by decide
  exact ⟨on, harmless, (FrameStore.unshadowed_iff siblingBlocks on).2 harmless⟩

/-- A block binds a name, and the frame that it stands on binds the name afterwards. -/
def outerLast : List FrameChange :=
  [.classFrame (.named ⟨1⟩ []), .childFrame ⟨0⟩ .scope, .define ⟨1⟩ "x" (.int .i32 1),
    .define ⟨0⟩ "x" (.int .i32 2)]

theorem outerLast_shadowed :
    FrameStore.empty.Throughout FrameChange.On outerLast ∧
      (FrameStore.empty.afterAll outerLast).namesSeen ⟨1⟩ = ["x", "x"] ∧
      ¬(FrameStore.empty.afterAll outerLast).Unshadowed := by
  have seen : (FrameStore.empty.afterAll outerLast).namesSeen ⟨1⟩ = ["x", "x"] := by decide
  refine ⟨by decide, seen, fun h => ?_⟩
  have := h ⟨1⟩
  rw [seen] at this
  exact absurd this (by decide)

end OpTree
