/-
What frames remember. A binding is seen from every frame that stands on its frame and has no
nearer one, so what is written through one frame shows in others or does not, depending on how
their chains lie.

A history says this without tables. It knows which frame each frame stands on, and everything
that was written, in order. A frame has a binding of a name if there was a write to it; what
the binding holds is what was written last; and the nearest binding is found by going from
frame to frame, outwards. `frames_remember` is that frames answer, after anything that was
done to them, as the history of it does.
-/
import OpTree.Proofs.Deconstruction

namespace OpTree

/-- Something was written to the binding of a name in a frame; the declaration of a name is the
first thing that can be. -/
structure FrameWrite where
  frame : FrameId
  name : String
  binding : Binding

/-- What was done to frames. -/
structure History where
  /-- The frame that each frame stands on, for the latest frame first. -/
  parents : List (Option FrameId)
  /-- The latest first. -/
  writes : List FrameWrite

namespace History

def empty : History := ⟨[], []⟩

/-- A frame and those it stands on, going from each to its parent. -/
def chainAlong : List (Option FrameId) → FrameId → List FrameId
  | [], f => [f]
  | parent :: older, f =>
    if f.index = older.length then f :: parent.elim [] fun g => chainAlong older g
    else chainAlong older f

def chain (h : History) (f : FrameId) : List FrameId := chainAlong h.parents f

/-- What was last written to the binding of a name in a frame, if it has one. -/
def latest? (h : History) (f : FrameId) (name : String) : Option Binding :=
  (h.writes.find? fun w => w.frame = f ∧ w.name = name).map FrameWrite.binding

/-- The nearest frame that has a binding of a name. -/
def nearest? (h : History) (f : FrameId) (name : String) : Option FrameId :=
  (h.chain f).find? fun g => (h.latest? g name).isSome

/-- The value that was last written to the nearest binding of a name. -/
def read (h : History) (f : FrameId) (name : String) : Except FrameError Value :=
  match (h.nearest? f name).bind fun g => h.latest? g name with
  | none => .error .undefined
  | some .unassigned => .error .unassigned
  | some (.assigned v) => .ok v

def write (h : History) (f : FrameId) (name : String) (b : Binding) : History :=
  { h with writes := ⟨f, name, b⟩ :: h.writes }

/-- A binding is added to a frame unless its chain has one. -/
def bind (h : History) (f : FrameId) (name : String) (b : Binding) : History :=
  if (h.nearest? f name).isSome then h else h.write f name b

/-- The history with one more change. -/
def after (h : History) : FrameChange → History
  | .classFrame _ => { h with parents := none :: h.parents }
  | .childFrame parent _ => { h with parents := some parent :: h.parents }
  | .declare f name => h.bind f name .unassigned
  | .define f name v => h.bind f name (.assigned v)
  | .assign f name v => (h.nearest? f name).elim h fun g => h.write g name (.assigned v)
  | .defineOrAssign f name v => h.write ((h.nearest? f name).getD f) name (.assigned v)

/-- The history of some changes, one after the other. -/
def of (cs : List FrameChange) : History := cs.foldl after empty

theorem latest?_write (h : History) (f : FrameId) (name : String) (b : Binding) (g : FrameId)
    (name' : String) : (h.write f name b).latest? g name' =
      if g = f ∧ name = name' then some b else h.latest? g name' := by
  by_cases same : f = g ∧ name = name'
  · rw [if_pos ⟨same.1.symm, same.2⟩]
    simp [latest?, write, same]
  · rw [if_neg fun he => same ⟨he.1.symm, he.2⟩]
    simp [latest?, write, same]

end History

namespace FrameStore

variable {s s' : FrameStore} {h : History} {f g : FrameId} {name : String} {b : Binding}

/-- The frames are as a history says. -/
structure Records (s : FrameStore) (h : History) : Prop where
  size : s.frames.size = h.parents.length
  chain : ∀ f, s.chain f = h.chain f
  latest : ∀ f name, s.bindingAt? f name = h.latest? f name

theorem owner?_eq_find? (s : FrameStore) (name : String) (fs : List FrameId) :
    (s.owner? name fs).map Prod.fst = fs.find? fun g => (s.bindingAt? g name).isSome := by
  induction fs with
  | nil => rfl
  | cons g fs ih =>
    rw [owner?, List.find?_cons]
    cases s.bindingAt? g name with
    | some b => rfl
    | none => exact ih

namespace Records

theorem owner (r : s.Records h) (f : FrameId) (name : String) :
    s.owner f name = h.nearest? f name := by
  simp only [FrameStore.owner, lookup?, owner?_eq_find?, History.nearest?, r.chain, r.latest]

theorem lookup? (r : s.Records h) (f : FrameId) (name : String) : s.lookup? f name =
    (h.nearest? f name).bind fun g => (h.latest? g name).map (g, ·) := by
  rw [← r.owner, FrameStore.owner]
  cases found : s.lookup? f name with
  | none => rfl
  | some old =>
    obtain ⟨g, b⟩ := old
    have bound := (owner?_eq_some found).2
    rw [r.latest] at bound
    simp [bound]

theorem isBound (r : s.Records h) (f : FrameId) (name : String) :
    s.isBound f name = (h.nearest? f name).isSome := by
  rw [← r.owner, FrameStore.isBound, FrameStore.owner, Option.isSome_map]

theorem read (r : s.Records h) (f : FrameId) (name : String) :
    s.read f name = h.read f name := by
  rw [FrameStore.read, History.read, r.lookup?]
  cases h.nearest? f name with
  | none => rfl
  | some g =>
    simp only [Option.bind_some]
    cases h.latest? g name with
    | none => rfl
    | some b => cases b <;> rfl

end Records

/-! ## One change -/

theorem Records.empty : empty.Records .empty where
  size := rfl
  chain f := chain_of_not_has (by simp [has_iff_lt, FrameStore.empty])
  latest f name := rfl

theorem Records.add (r : s.Records h) (kind : FrameKind) (parent : Option FrameId)
    (as : List FrameId) (stands : as = parent.elim [] s.chain) :
    (s.add kind as).2.Records { h with parents := parent :: h.parents } where
  size := by simp [FrameStore.add, r.size]
  chain f := by
    subst stands
    have new : f = (s.add kind (parent.elim [] s.chain)).1 ↔ f.index = h.parents.length := by
      rw [← r.size, FrameStore.add]
      exact ⟨fun he => he ▸ rfl, fun he => by cases f; simp_all⟩
    rw [chain_add, History.chain, History.chainAlong]
    by_cases hf : f = (s.add kind (parent.elim [] s.chain)).1
    · rw [if_pos hf, if_pos (new.1 hf)]
      cases parent with
      | none => rfl
      | some parent => exact congrArg (f :: ·) (r.chain parent)
    · rw [if_neg hf, if_neg fun hi => hf (new.2 hi)]
      exact r.chain f
  latest f name := by
    rw [bindingAt?, bindings_add]
    exact r.latest f name

theorem Records.bindAt (r : s.Records h) (has : s.Has f) (name : String) (b : Binding) :
    (s.bindAt f name b).Records (h.write f name b) where
  size := by simp [FrameStore.bindAt, History.write, r.size]
  chain g := by
    rw [chain_bindAt]
    exact r.chain g
  latest g name' := by rw [bindingAt?_bindAt has, History.latest?_write, r.latest]

theorem Records.insert {c : FrameChange} (r : s.Records h) (has : s.Has f)
    (hc : s.apply c = s.insert f name b) : (s.after c).Records (h.bind f name b) := by
  rw [FrameStore.after, hc, FrameStore.insert, r.isBound, History.bind]
  cases (h.nearest? f name).isSome with
  | true => exact r
  | false => exact r.bindAt has name b

theorem Records.has_nearest (r : s.Records h) (found : h.nearest? f name = some g) : s.Has g := by
  rw [← r.owner, FrameStore.owner, Option.map_eq_some_iff] at found
  obtain ⟨old, found, rfl⟩ := found
  exact has_of_lookup? found

theorem Records.lookup?_of_nearest (r : s.Records h) (found : h.nearest? f name = some g) :
    ∃ b, s.lookup? f name = some (g, b) := by
  rw [← r.owner, FrameStore.owner, Option.map_eq_some_iff] at found
  obtain ⟨⟨g, b⟩, found, rfl⟩ := found
  exact ⟨b, found⟩

theorem Records.lookup?_eq_none (r : s.Records h) (free : h.nearest? f name = none) :
    s.lookup? f name = none := by
  rw [r.lookup?, free, Option.bind_none]

theorem Records.after {c : FrameChange} (r : s.Records h) (on : c.On s) :
    (s.after c).Records (h.after c) := by
  cases c with
  | classFrame type => exact r.add (.ofClass type) none [] rfl
  | childFrame parent kind => exact r.add kind (some parent) _ rfl
  | declare f name => exact r.insert on rfl
  | define f name v => exact r.insert on rfl
  | assign f name v =>
    cases found : h.nearest? f name with
    | none =>
      rw [History.after, found, FrameStore.after, apply, assign, r.lookup?_eq_none found]
      exact r
    | some g =>
      obtain ⟨b, hl⟩ := r.lookup?_of_nearest found
      rw [History.after, found, FrameStore.after, apply, assign, hl]
      exact r.bindAt (r.has_nearest found) name (.assigned v)
  | defineOrAssign f name v =>
    cases found : h.nearest? f name with
    | none =>
      rw [History.after, found, FrameStore.after, apply, defineOrAssign, r.lookup?_eq_none found]
      exact r.bindAt on name (.assigned v)
    | some g =>
      obtain ⟨b, hl⟩ := r.lookup?_of_nearest found
      rw [History.after, found, FrameStore.after, apply, defineOrAssign, hl]
      exact r.bindAt (r.has_nearest found) name (.assigned v)

/-! ## Any number of changes -/

theorem Records.afterAll {cs : List FrameChange} (r : s.Records h)
    (on : s.Throughout FrameChange.On cs) : (s.afterAll cs).Records (cs.foldl History.after h) := by
  induction cs generalizing s h with
  | nil => exact r
  | cons c cs ih => exact ih (r.after on.1) on.2

theorem records_history {cs : List FrameChange}
    (on : FrameStore.empty.Throughout FrameChange.On cs) :
    (FrameStore.empty.afterAll cs).Records (.of cs) :=
  Records.empty.afterAll on

/-! ## What comes of it -/

/-- A binding was put in place, and nothing else has changed. -/
structure Rebinds (s : FrameStore) (f : FrameId) (name : String) (b : Binding) (s' : FrameStore) :
    Prop where
  chains : ∀ g, s'.chain g = s.chain g
  bindings : ∀ g x, s'.bindingAt? g x = if g = f ∧ name = x then some b else s.bindingAt? g x

theorem rebinds_bindAt (has : s.Has f) (name : String) (b : Binding) :
    s.Rebinds f name b (s.bindAt f name b) where
  chains := chain_bindAt s f name b
  bindings := bindingAt?_bindAt has name b

end FrameStore

/-- Where there is a binding already, another write changes nothing about where names are found. -/
theorem History.nearest?_write {h : History} {g : FrameId} {name : String}
    (bound : (h.latest? g name).isSome = true) (b : Binding) (f : FrameId) (x : String) :
    (h.write g name b).nearest? f x = h.nearest? f x := by
  have same (f' : FrameId) :
      ((h.write g name b).latest? f' x).isSome = (h.latest? f' x).isSome := by
    rw [latest?_write]
    split
    · rename_i he
      rw [he.1, ← he.2, bound]
      rfl
    · rfl
  simp only [nearest?, same]
  rfl

namespace FrameStore

variable {s s' : FrameStore} {h : History} {f g : FrameId} {name : String} {b : Binding}

/-- What is assigned is seen from the frames that find the name in the same place, and from no
others. -/
theorem Records.read_assigned (r : s.Records h) (found : h.nearest? f name = some g) (v : Value)
    (f' : FrameId) (x : String) : (s.bindAt g name (.assigned v)).read f' x =
      if name = x ∧ h.nearest? f' x = some g then .ok v else s.read f' x := by
  have bound : (h.latest? g name).isSome = true := by
    have := List.find?_some found
    simpa using this
  rw [(r.bindAt (r.has_nearest found) name (.assigned v)).read, r.read, History.read, History.read,
    History.nearest?_write bound]
  cases h.nearest? f' x with
  | none => simp
  | some g' =>
    simp only [Option.bind_some, History.latest?_write, Option.some.injEq, and_comm (a := name = x)]
    by_cases here : g' = g ∧ name = x
    · rw [if_pos here, if_pos here]
    · rw [if_neg here, if_neg here]

/-- What the operations on a name at a frame come to, by what has been written. -/
structure Remembers (s : FrameStore) (h : History) (f : FrameId) (name : String) : Prop where
  /-- Reading answers what was last written to the nearest binding. -/
  read : s.read f name = h.read f name
  /-- Declaring and defining put a binding into the frame itself, where the chain has none. -/
  declare : match h.nearest? f name with
    | some _ => s.declare f name = .error .redeclared
    | none => ∃ s', s.declare f name = .ok s' ∧ s.Rebinds f name .unassigned s'
  define : ∀ v, match h.nearest? f name with
    | some _ => s.define f name v = .error .redeclared
    | none => ∃ s', s.define f name v = .ok s' ∧ s.Rebinds f name (.assigned v) s'
  /-- Assigning changes the nearest binding, for all who find the name there. -/
  assign : ∀ v, match h.nearest? f name with
    | some g => ∃ s', s.assign f name v = .ok s' ∧ s.Rebinds g name (.assigned v) s' ∧
        ∀ f' x, s'.read f' x = if name = x ∧ h.nearest? f' x = some g then .ok v else s.read f' x
    | none => s.assign f name v = .error .undefined
  defineOrAssign : ∀ v, match h.nearest? f name with
    | some _ => s.assign f name v = .ok (s.defineOrAssign f name v)
    | none => s.define f name v = .ok (s.defineOrAssign f name v)

theorem Records.insert_eq (r : s.Records h) (has : s.Has f) (name : String) (b : Binding) :
    match h.nearest? f name with
    | some _ => s.insert f name b = .error .redeclared
    | none => ∃ s', s.insert f name b = .ok s' ∧ s.Rebinds f name b s' := by
  rw [FrameStore.insert, r.isBound]
  cases h.nearest? f name with
  | some g => rfl
  | none => exact ⟨_, rfl, rebinds_bindAt has name b⟩

theorem Records.remembers (r : s.Records h) (has : s.Has f) (name : String) :
    s.Remembers h f name where
  read := r.read f name
  declare := r.insert_eq has name .unassigned
  define v := r.insert_eq has name (.assigned v)
  assign v := by
    split
    · rename_i g found
      obtain ⟨b, hl⟩ := r.lookup?_of_nearest found
      exact ⟨_, by rw [FrameStore.assign, hl], rebinds_bindAt (r.has_nearest found) name _,
        r.read_assigned found v⟩
    · rename_i free
      rw [FrameStore.assign, r.lookup?_eq_none free]
  defineOrAssign v := by
    split
    · rename_i g found
      obtain ⟨b, hl⟩ := r.lookup?_of_nearest found
      rw [FrameStore.assign, FrameStore.defineOrAssign, hl]
    · rename_i free
      have unbound : s.isBound f name = false := by rw [r.isBound, free]; rfl
      rw [FrameStore.define, FrameStore.insert, FrameStore.defineOrAssign, r.lookup?_eq_none free,
        unbound]
      rfl

/-- After anything that was done to frames, in whatever order, each frame answers for each name
as what has been written says. What failed has written nothing. -/
theorem frames_remember (cs : List FrameChange) (on : FrameStore.empty.Throughout FrameChange.On cs)
    {f : FrameId} (has : (FrameStore.empty.afterAll cs).Has f) (name : String) :
    (FrameStore.empty.afterAll cs).Remembers (.of cs) f name :=
  (records_history on).remembers has name

end FrameStore

/-- Two blocks of one call. A name is declared around them, and once more further out; one block
assigns it twice, the second time null, and the other fails to define it. -/
def blocksOfCall : List FrameChange :=
  [.classFrame (.named ⟨1⟩ []), .childFrame ⟨0⟩ (.ofMethod ⟨30⟩ []), .childFrame ⟨1⟩ .scope,
    .childFrame ⟨1⟩ .scope, .declare ⟨1⟩ "x", .define ⟨0⟩ "x" (.bool true),
    .assign ⟨2⟩ "x" (.bool false), .define ⟨3⟩ "x" (.bool true), .defineOrAssign ⟨2⟩ "x" .null]

theorem blocksOfCall_remember :
    FrameStore.empty.Throughout FrameChange.On blocksOfCall ∧
      (FrameStore.empty.afterAll blocksOfCall).Has ⟨3⟩ ∧
      (FrameStore.empty.afterAll blocksOfCall).Remembers (.of blocksOfCall) ⟨3⟩ "x" ∧
      (FrameStore.empty.afterAll blocksOfCall).read ⟨3⟩ "x" = .ok .null := by
  have on : FrameStore.empty.Throughout FrameChange.On blocksOfCall := by decide
  have has : (FrameStore.empty.afterAll blocksOfCall).Has ⟨3⟩ := by decide
  have remembers := FrameStore.frames_remember blocksOfCall on has "x"
  exact ⟨on, has, remembers, remembers.read⟩

end OpTree
