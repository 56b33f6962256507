/-
Taking tuples apart. A target is a tree of tuples whose leaves name places. What is written
to it has a shape, and when this is the shape of the target there is one component for each
leaf. Then a deconstruction comes down to three passes, from left to right each: the places
of the leaves are found, the value is evaluated as a whole, and the components are stored
(`Context.deconstruct_passes`).

So what is stored was computed before anything was stored, and variables can be exchanged.
For leaves that are locals this is said of the frames: each local holds its component, and no
other binding has changed (`deconstruction`). That needs names to stay bound while the value
is evaluated. It is one of the things that last because frames change in two ways only, by
a frame that is made and by a binding that is put into one (`evalWithin_sees`).
-/
import Mathlib.Data.List.Forall2
import OpTree.Proofs.Assignability
import OpTree.Proofs.Lasting
import OpTree.Proofs.Targets

namespace OpTree

/-! ## Shapes -/

/-- The nesting of tuples, without what is in them. -/
inductive Shape where
  | leaf
  | tuple (shapes : List Shape)

namespace Shape

mutual

/-- The value is made of tuples where the shape is, of the same lengths. -/
def fits : Shape → Value → Bool
  | leaf, _ => true
  | tuple shapes, .tuple vs => fitAll shapes vs
  | tuple _, _ => false

def fitAll : List Shape → List Value → Bool
  | [], [] => true
  | shape :: shapes, v :: vs => shape.fits v && fitAll shapes vs
  | _, _ => false

end

mutual

/-- What the value has at the leaves of the shape, from left to right. -/
def components : Shape → Value → List Value
  | leaf, v => [v]
  | tuple shapes, .tuple vs => componentsAll shapes vs
  | tuple _, _ => []

def componentsAll : List Shape → List Value → List Value
  | shape :: shapes, v :: vs => shape.components v ++ componentsAll shapes vs
  | _, _ => []

end

mutual

/-- How many leaves there are. -/
def size : Shape → Nat
  | leaf => 1
  | tuple shapes => sizeAll shapes

def sizeAll : List Shape → Nat
  | [] => 0
  | shape :: shapes => shape.size + sizeAll shapes

end

mutual

theorem length_components : ∀ {shape : Shape} {v : Value}, shape.fits v = true →
    (shape.components v).length = shape.size
  | leaf, _, _ => rfl
  | tuple shapes, v, h => by
    cases v with
    | tuple vs => exact length_componentsAll h
    | _ => cases h

theorem length_componentsAll : ∀ {shapes : List Shape} {vs : List Value},
    fitAll shapes vs = true → (componentsAll shapes vs).length = sizeAll shapes
  | [], _, _ => rfl
  | shape :: shapes, [], h => by cases h
  | shape :: shapes, v :: vs, h => by
    simp only [fitAll, Bool.and_eq_true] at h
    simp only [componentsAll, sizeAll, List.length_append, length_components h.1,
      length_componentsAll h.2]

end

theorem length_of_fitAll : ∀ {shapes : List Shape} {vs : List Value},
    fitAll shapes vs = true → vs.length = shapes.length
  | [], [], _ => rfl
  | [], _ :: _, h => by cases h
  | _ :: _, [], h => by cases h
  | shape :: shapes, v :: vs, h => by
    simp only [fitAll, Bool.and_eq_true] at h
    exact congrArg (· + 1) (length_of_fitAll h.2)

end Shape

mutual

def Node.shape : Node → Shape
  | .mk _ (.tuple targets) => .tuple (Node.shapes targets)
  | _ => .leaf

def Node.shapes : List Node → List Shape
  | [] => []
  | target :: rest => target.shape :: Node.shapes rest

end

mutual

def Place.shape : Place → Shape
  | .tuple places => .tuple (Place.shapes places)
  | _ => .leaf

def Place.shapes : List Place → List Shape
  | [] => []
  | place :: rest => place.shape :: Place.shapes rest

end

theorem Place.length_shapes : ∀ places : List Place, (Place.shapes places).length = places.length
  | [] => rfl
  | _ :: rest => congrArg (· + 1) (Place.length_shapes rest)

theorem Node.shape_of_isTuple {p : Node} (h : p.op.isTuple = false) : p.shape = .leaf := by
  obtain ⟨span, op⟩ := p
  cases op <;> first | rfl | cases h

theorem Place.shape_of_isTuple {p : Place} (h : p.isTuple = false) : p.shape = .leaf := by
  cases p <;> first | rfl | cases h

mutual

theorem Place.length_leaves : ∀ p : Place, p.leaves.length = p.shape.size
  | .tuple places => Place.length_leavesAll places
  | .named _ | .member .. | .element .. | .discard => rfl

theorem Place.length_leavesAll : ∀ places : List Place,
    (Place.leavesAll places).length = Shape.sizeAll (Place.shapes places)
  | [] => rfl
  | p :: places => by
    simp only [Place.leavesAll, List.length_append, Place.shapes, Shape.sizeAll, p.length_leaves,
      Place.length_leavesAll places]

end

mutual

theorem Node.length_leaves : ∀ x : Node, x.leaves.length = x.shape.size
  | .mk span op => by
    by_cases ht : op.isTuple = true
    · cases op with
      | tuple targets => exact Node.length_leavesAll targets
      | _ => cases ht
    · have leaf : (Node.mk span op).op.isTuple = false := Bool.eq_false_iff.2 ht
      rw [Node.leaves_of_isTuple leaf, Node.shape_of_isTuple leaf]
      rfl

theorem Node.length_leavesAll : ∀ xs : List Node,
    (Node.leavesAll xs).length = Shape.sizeAll (Node.shapes xs)
  | [] => rfl
  | x :: xs => by
    simp only [Node.leavesAll, List.length_append, Node.shapes, Shape.sizeAll, x.length_leaves,
      Node.length_leavesAll xs]

end

/-! ## Three passes -/

namespace Context

variable {σ : Type} {c : Context σ}

mutual

theorem place_shape : ∀ {target : Node} {s t : Machine σ} {p : Place},
    c.place target s = (.ok p, t) → p.shape = target.shape
  | .mk span op, s, t, p, h => by
    by_cases ht : op.isTuple = true
    · cases op with
      | tuple targets =>
        obtain ⟨ps, u, found, ⟨⟩⟩ := Run.bind_eq_ok.1 h
        exact congrArg Shape.tuple (places_shapes found)
      | _ => cases ht
    · have leaf : (Node.mk span op).op.isTuple = false := Bool.eq_false_iff.2 ht
      rw [c.place_of_isTuple leaf] at h
      rw [Place.shape_of_isTuple (c.leafPlace_isTuple h), Node.shape_of_isTuple leaf]

theorem places_shapes : ∀ {targets : List Node} {s t : Machine σ} {ps : List Place},
    c.places targets s = (.ok ps, t) → Place.shapes ps = Node.shapes targets
  | [], _, _, _, h => by cases h; rfl
  | target :: rest, s, t, ps, h => by
    obtain ⟨p, u, found, h⟩ := Run.bind_eq_ok.1 h
    obtain ⟨ps', v, founds, ⟨⟩⟩ := Run.bind_eq_ok.1 h
    exact congrArg₂ List.cons (place_shape found) (places_shapes founds)

end

mutual

/-- A value that fits is stored leaf by leaf. -/
theorem store_leaves : ∀ {p : Place} {v : Value}, p.shape.fits v = true →
    c.store p v = Run.forList (fun q => c.store q.1 q.2) (p.leaves.zip (p.shape.components v))
  | .tuple places, v, h => by
    cases v with
    | tuple vs =>
      have length : vs.length = places.length :=
        (Shape.length_of_fitAll h).trans (Place.length_shapes places)
      rw [store, if_pos length]
      exact storeAll_leaves h
    | _ => cases h
  | .named _, _, _ | .member .., _, _ | .element .., _, _ | .discard, _, _ =>
    (Run.bind_pure _).symm

theorem storeAll_leaves : ∀ {places : List Place} {vs : List Value},
    Shape.fitAll (Place.shapes places) vs = true →
    c.storeAll places vs = Run.forList (fun q => c.store q.1 q.2)
      ((Place.leavesAll places).zip (Shape.componentsAll (Place.shapes places) vs))
  | [], _, _ => rfl
  | p :: places, [], h => by cases h
  | p :: places, v :: vs, h => by
    simp only [Place.shapes, Shape.fitAll, Bool.and_eq_true] at h
    rw [storeAll, store_leaves h.1, storeAll_leaves h.2, Place.leavesAll, Place.shapes,
      Shape.componentsAll,
      List.zip_append (p.length_leaves.trans (Shape.length_components h.1).symm), Run.forList_append]

end

/-- A deconstruction finds the places of all leaves, evaluates the value, and stores one component
after the other. -/
theorem deconstruct_passes {target value : Node} {s : Machine σ}
    (fits : ∀ ps t v u, Run.mapList c.place target.leaves s = (.ok ps, t) →
      c.eval value t = (.ok v, u) → target.shape.fits v = true) :
    c.evalOp (.deconstruct target value) s = (do
      let ps ← Run.mapList c.place target.leaves
      let v ← c.eval value
      Run.forList (fun q : Place × Value => c.store q.1 q.2) (ps.zip (target.shape.components v))
      return v) s := by
  have found {p : Place} {t : Machine σ} (h : c.place target s = (.ok p, t)) :
      Run.mapList c.place target.leaves s = (.ok p.leaves, t) := by
    rw [← c.place_leaves target, Run.bind_ok h]
    rfl
  rw [← c.place_leaves target, Run.bind_assoc]
  refine Run.bind_congr fun p t hp => ?_
  rw [Run.pure_bind]
  refine Run.bind_congr fun v u hv => ?_
  have shape : p.shape = target.shape := place_shape hp
  rw [store_leaves (by rw [shape]; exact fits _ t v u (found hp) hv), shape]

end Context

/-! ## Variables -/

namespace Op

/-- The name of the variable that the operation is. -/
def named? : Op → Option String
  | .localRef name | .parameterRef name | .declarationTarget name => some name
  | _ => none

/-- The name that the operation declares. -/
def declared? : Op → Option String
  | .declarationTarget name => some name
  | _ => none

/-- A target that is a variable or discards. -/
def isVariable : Op → Bool
  | .localRef _ | .parameterRef _ | .declarationTarget _ | .discard => true
  | _ => false

/-- The place of such a target. -/
def variablePlace (op : Op) : Place :=
  match op.named? with
  | some name => .named name
  | none => .discard

end Op

/-- The names of the variables among some targets. -/
def Node.variables (leaves : List Node) : List String := leaves.filterMap fun p => p.op.named?

/-- The names that are declared among some targets. -/
def Node.declarations (leaves : List Node) : List String := leaves.filterMap fun p => p.op.declared?

/-- What the variables among some targets get. -/
def Node.assignments (leaves : List Node) (vs : List Value) : List (String × Value) :=
  (leaves.zip vs).filterMap fun q => q.1.op.named?.map fun name => (name, q.2)

theorem Op.named?_of_declared? {op : Op} {name : String} (h : op.declared? = some name) :
    op.named? = some name := by
  cases op <;> cases h
  rfl

theorem Node.declarations_sublist (leaves : List Node) :
    (Node.declarations leaves).Sublist (Node.variables leaves) := by
  induction leaves with
  | nil => exact .slnil
  | cons p leaves ih =>
    cases hd : p.op.declared? with
    | some name =>
      simp only [Node.declarations, Node.variables, List.filterMap_cons, hd,
        Op.named?_of_declared? hd]
      exact ih.cons_cons name
    | none =>
      cases hn : p.op.named? with
      | some name =>
        simp only [Node.declarations, Node.variables, List.filterMap_cons, hd, hn]
        exact ih.cons name
      | none =>
        simp only [Node.declarations, Node.variables, List.filterMap_cons, hd, hn]
        exact ih

theorem Node.mem_assignments {leaves : List Node} {vs : List Value} {q : String × Value} :
    q ∈ Node.assignments leaves vs ↔ ∃ p, (p, q.2) ∈ leaves.zip vs ∧ p.op.named? = some q.1 := by
  simp only [Node.assignments, List.mem_filterMap, Option.map_eq_some_iff]
  constructor
  · rintro ⟨⟨p, v⟩, hz, name, hn, rfl⟩
    exact ⟨p, hz, hn⟩
  · rintro ⟨p, hz, hn⟩
    exact ⟨(p, q.2), hz, q.1, hn, rfl⟩

theorem Node.mem_variables_of_assignments {leaves : List Node} {vs : List Value} {name : String}
    (h : name ∈ (Node.assignments leaves vs).map Prod.fst) : name ∈ Node.variables leaves := by
  obtain ⟨q, hq, rfl⟩ := List.mem_map.1 h
  obtain ⟨p, hz, hn⟩ := Node.mem_assignments.1 hq
  exact List.mem_filterMap.2 ⟨p, (List.of_mem_zip hz).1, hn⟩

namespace FrameStore

variable {s t : FrameStore} {f g : FrameId} {name : String}

theorem lookup?_congr (chain : t.chain f = s.chain f)
    (same : ∀ g, t.bindingAt? g name = s.bindingAt? g name) : t.lookup? f name = s.lookup? f name := by
  rw [lookup?, lookup?, chain]
  induction s.chain f with
  | nil => rfl
  | cons g fs ih => simp only [owner?, same, ih]

theorem has_of_lookup? {b : Binding} (h : s.lookup? f name = some (g, b)) : s.Has g := by
  by_contra hg
  have bound := (owner?_eq_some h).2
  rw [bindingAt?, bindings_of_not_has hg] at bound
  cases bound

/-- Where names are found, whatever they are bound to. -/
def owner (s : FrameStore) (f : FrameId) (name : String) : Option FrameId :=
  (s.lookup? f name).map Prod.fst

theorem isBound_iff_owner : s.isBound f name = true ↔ ∃ g, s.owner f name = some g := by
  rw [isBound, owner, Option.isSome_iff_exists]
  simp

/-- The nearest binding of a name is overwritten: it is still found there, and the others
are found where they were. -/
theorem owner_overwrite {b : Binding} (h : s.lookup? f name = some (g, b)) (b' : Binding) :
    (s.bindAt g name b').lookup? f name = some (g, b') ∧
      ∀ name', (s.bindAt g name b').owner f name' = s.owner f name' := by
  have has : s.Has g := has_of_lookup? h
  have changed (fs : List FrameId) (found : s.owner? name fs = some (g, b)) :
      (s.bindAt g name b').owner? name fs = some (g, b') := by
    induction fs with
    | nil => cases found
    | cons h fs ih =>
      simp only [owner?, bindingAt?_bindAt has, and_true] at found ⊢
      by_cases hg : h = g
      · rw [if_pos hg, hg]
      · rw [if_neg hg]
        cases hb : s.bindingAt? h name with
        | some _ =>
          rw [hb] at found
          cases found
          exact absurd rfl hg
        | none =>
          rw [hb] at found
          exact ih found
  have found : (s.bindAt g name b').lookup? f name = some (g, b') := by
    rw [lookup?, chain_bindAt]
    exact changed _ h
  refine ⟨found, fun name' => ?_⟩
  by_cases hn : name = name'
  · subst hn
    rw [owner, owner, found, h]
    rfl
  · rw [owner, owner, lookup?_congr (chain_bindAt ..) fun g' => ?_]
    rw [bindingAt?_bindAt has, if_neg fun h => hn h.2]

/-- In the chain of a frame, names have got values, and no other binding has changed. -/
structure Assigned (s : FrameStore) (f : FrameId) (pairs : List (String × Value)) (t : FrameStore) :
    Prop where
  frames : s.Extends t
  holds : ∀ q ∈ pairs, t.read f q.1 = .ok q.2
  others : ∀ g name, (∀ q ∈ pairs, q.1 = name → s.owner f name ≠ some g) →
    t.bindingAt? g name = s.bindingAt? g name

theorem Assigned.nil (s : FrameStore) (f : FrameId) : s.Assigned f [] s :=
  ⟨.refl s, by simp, fun _ _ _ => rfl⟩

/-- One name more. The names differ, so what it has got is not overwritten. -/
theorem Assigned.cons {b : Binding} {v : Value} {pairs : List (String × Value)}
    (found : s.lookup? f name = some (g, b)) (new : name ∉ pairs.map Prod.fst)
    (h : (s.bindAt g name (.assigned v)).Assigned f pairs t) : s.Assigned f ((name, v) :: pairs) t := by
  obtain ⟨overwritten, owners⟩ := owner_overwrite found (.assigned v)
  have has : s.Has g := has_of_lookup? found
  have extends' := extends_bindAt s g name (.assigned v)
  refine ⟨extends'.trans h.frames, fun q hq => ?_, fun g' name' hn => ?_⟩
  · rcases List.mem_cons.1 hq with rfl | hq
    · have bound : s.isBound f name = true := by simp [isBound, found]
      have hf : s.Has f := has_of_isBound bound
      have kept : t.lookup? f name = some (g, .assigned v) := by
        rw [← overwritten]
        refine lookup?_congr (h.frames.chain (hf.extends extends')) fun g' => h.others g' name ?_
        intro q hq he
        exact absurd (he ▸ List.mem_map_of_mem hq) new
      rw [read, kept]
    · exact h.holds q hq
  · rw [h.others g' name' fun q hq he => owners name' ▸ hn q (List.mem_cons_of_mem _ hq) he,
      bindingAt?_bindAt has, if_neg]
    rintro ⟨rfl, rfl⟩
    exact hn _ List.mem_cons_self rfl (by rw [owner, found]; rfl)

end FrameStore

/-- Names are declared in the frame that the code runs on, one after the other. -/
def Machine.declaring {σ : Type} (s : Machine σ) : List String → Machine σ
  | [] => s
  | name :: rest =>
    let frames := s.world.frames.bindAt s.activation.frame name .unassigned
    Machine.declaring ⟨{ s.world with frames := frames }, s.activation⟩ rest

/-- The node is a variable that has the value. -/
def Machine.Reads {σ : Type} (s : Machine σ) (q : Node) (v : Value) : Prop :=
  ∃ name, q.op.named? = some name ∧ s.world.frames.read s.activation.frame name = .ok v

namespace Context

variable {σ : Type} {c : Context σ}

theorem declareLocal_new {name : String} {s : Machine σ} (h : s.sees name = false) :
    Run.declareLocal name s = (.ok (), s.declaring [name]) := by
  obtain ⟨w, a⟩ := s
  simp only [Machine.sees] at h
  simp only [Run.declareLocal, Run.currentFrame, Run.bind_def, Run.gets_def, Run.onWorld,
    World.declare, World.changeFrames, FrameStore.declare, FrameStore.insert, h]
  rfl

theorem sees_declaring {name : String} {s : Machine σ} (has : s.world.frames.Has s.activation.frame)
    {name' : String} (hn : name ≠ name') : (s.declaring [name]).sees name' = s.sees name' := by
  simp only [Machine.sees, Machine.declaring, FrameStore.isBound]
  rw [FrameStore.lookup?_congr (FrameStore.chain_bindAt ..) fun g => ?_]
  rw [FrameStore.bindingAt?_bindAt has, if_neg fun h => hn h.2]

theorem sees_after_declaring {names : List String} {s : Machine σ}
    (has : s.world.frames.Has s.activation.frame) {name : String}
    (h : s.sees name = true ∨ name ∈ names) : (s.declaring names).sees name = true := by
  induction names generalizing s with
  | nil => exact h.resolve_right nofun
  | cons declared rest ih =>
    have names := FrameStore.keepsNames_lasting.bindAt s.world.frames s.activation.frame declared
      .unassigned
    refine ih (s := s.declaring [declared]) (has.extends names.frames) ?_
    rcases h with seen | listed
    · exact .inl (names.isBound seen)
    · rcases List.mem_cons.1 listed with rfl | listed
      · refine .inl ?_
        rw [Machine.sees, FrameStore.isBound_eq, List.any_eq_true]
        refine ⟨s.activation.frame, FrameStore.mem_chain_self .., ?_⟩
        simp only [Machine.declaring, FrameStore.bindingAt?_bindAt has, and_self, if_true,
          Option.isSome_some]
      · exact .inr listed

theorem activation_declaring (names : List String) (s : Machine σ) :
    (s.declaring names).activation = s.activation := by
  induction names generalizing s with
  | nil => rfl
  | cons name rest ih => exact ih _

theorem mapList_place_variables {leaves : List Node} {s : Machine σ}
    (simple : ∀ p ∈ leaves, p.op.isVariable = true) (distinct : (Node.declarations leaves).Nodup)
    (new : ∀ name ∈ Node.declarations leaves, s.sees name = false)
    (has : s.world.frames.Has s.activation.frame) :
    Run.mapList c.place leaves s =
      (.ok (leaves.map fun p => p.op.variablePlace), s.declaring (Node.declarations leaves)) := by
  induction leaves generalizing s with
  | nil => rfl
  | cons p leaves ih =>
    obtain ⟨span, op⟩ := p
    have rest (q : Node) (hq : q ∈ leaves) : q.op.isVariable = true := simple q (by simp [hq])
    have first := simple (.mk span op) List.mem_cons_self
    cases op with
    | localRef name | parameterRef name | discard =>
      exact (Run.bind_ok rfl).trans (Run.bind_ok (ih rest distinct new has))
    | declarationTarget name =>
      obtain ⟨other, distinct⟩ := List.nodup_cons.1 distinct
      have declared : c.place (.mk span (.declarationTarget name)) s =
          (.ok (.named name), s.declaring [name]) :=
        Run.bind_ok (declareLocal_new (new name List.mem_cons_self))
      refine (Run.bind_ok declared).trans (Run.bind_ok (ih rest distinct (fun name' hn => ?_) ?_))
      · rw [sees_declaring has (by rintro rfl; exact other hn)]
        exact new name' (List.mem_cons_of_mem _ hn)
      · exact has.extends (FrameStore.extends_bindAt s.world.frames _ name .unassigned)
    | _ => cases first

theorem store_visible {name : String} {s : Machine σ} (h : s.sees name = true) (v : Value) :
    ∃ g b, s.world.frames.lookup? s.activation.frame name = some (g, b) ∧
      c.store (.named name) v s = (.ok (), ⟨{ s.world with
        frames := s.world.frames.bindAt g name (.assigned v) }, s.activation⟩) := by
  obtain ⟨⟨g, b⟩, found⟩ := Option.isSome_iff_exists.1 h
  refine ⟨g, b, found, ?_⟩
  obtain ⟨w, a⟩ := s
  simp only [store, Run.currentFrame, Run.bind_def, Run.gets_def, Run.onWorld, World.assign,
    World.changeFrames, FrameStore.assign, found]

theorem forList_store_variables {leaves : List Node} (vs : List Value) {s : Machine σ}
    (simple : ∀ p ∈ leaves, p.op.isVariable = true) (distinct : (Node.variables leaves).Nodup)
    (sees : ∀ name ∈ Node.variables leaves, s.sees name = true) :
    ∃ frames, Run.forList (fun q : Place × Value => c.store q.1 q.2)
        ((leaves.map fun p => p.op.variablePlace).zip vs) s =
          (.ok (), ⟨{ s.world with frames := frames }, s.activation⟩) ∧
      s.world.frames.Assigned s.activation.frame (Node.assignments leaves vs) frames := by
  induction leaves generalizing vs s with
  | nil => exact ⟨_, rfl, .nil _ _⟩
  | cons p leaves ih =>
    cases vs with
    | nil => exact ⟨_, rfl, .nil _ _⟩
    | cons v vs =>
      obtain ⟨span, op⟩ := p
      have rest (q : Node) (hq : q ∈ leaves) : q.op.isVariable = true := simple q (by simp [hq])
      have first := simple (.mk span op) List.mem_cons_self
      cases op with
      | discard =>
        obtain ⟨frames, stored, assigned⟩ := ih vs rest distinct sees
        exact ⟨frames, (Run.bind_ok rfl).trans stored, assigned⟩
      | localRef name | parameterRef name | declarationTarget name =>
        obtain ⟨other, distinct⟩ := List.nodup_cons.1 distinct
        obtain ⟨g, b, found, stored⟩ := store_visible (c := c) (sees name List.mem_cons_self) v
        have seen (name' : String) (hn : name' ∈ Node.variables leaves) :
            Machine.sees ⟨{ s.world with
              frames := s.world.frames.bindAt g name (.assigned v) }, s.activation⟩ name' = true := by
          have seen := sees name' (List.mem_cons_of_mem _ hn)
          rw [Machine.sees, FrameStore.isBound_iff_owner] at seen ⊢
          rw [(FrameStore.owner_overwrite found (.assigned v)).2]
          exact seen
        obtain ⟨frames, storedAll, assigned⟩ := ih vs rest distinct seen
        exact ⟨frames, (Run.bind_ok stored).trans storedAll, assigned.cons found fun hn =>
          other (Node.mem_variables_of_assignments hn)⟩
      | _ => cases first

end Context

/-! ## Tuples of variables as values -/

mutual

/-- A tuple of variables that has a value has the shape of the tuple and the values of the
variables, and has changed nothing. -/
theorem evalWithin_variables {σ : Type} {host : Host σ} {session : SessionId} : ∀ {x : Node},
    (∀ q ∈ x.leaves, q.op.isVariable = true) → ∀ {n : Nat} {s t : Machine σ} {v : Value},
      evalWithin host n session x s = (.ok v, t) → t = s ∧ x.shape.fits v = true ∧
        List.Forall₂ (s.Reads) x.leaves (x.shape.components v)
  | .mk span op, simple, n, s, t, v, h => by
    cases n with
    | zero => cases h
    | succ n =>
      rw [evalWithin_succ, Run.orSpan_eq_ok] at h
      cases op with
      | tuple elements =>
        obtain ⟨vs, u, evaluated, ⟨⟩⟩ := Run.bind_eq_ok.1 h
        exact evalList_variables simple evaluated
      | localRef name | parameterRef name =>
        obtain ⟨value, rfl⟩ := Run.ofExcept_eq_ok.1 h
        have read : t.world.frames.read t.activation.frame name = .ok v := by
          simp only [World.readName] at value
          split at value
          · cases value
            assumption
          · cases value
        exact ⟨rfl, rfl, .cons ⟨name, rfl, read⟩ .nil⟩
      | declarationTarget | discard => cases h
      | _ => cases simple _ List.mem_cons_self

theorem evalList_variables {σ : Type} {host : Host σ} {session : SessionId} : ∀ {xs : List Node},
    (∀ q ∈ Node.leavesAll xs, q.op.isVariable = true) → ∀ {n : Nat} {s t : Machine σ}
      {vs : List Value}, (Context.within host n session).evalList xs s = (.ok vs, t) →
        t = s ∧ Shape.fitAll (Node.shapes xs) vs = true ∧
          List.Forall₂ (s.Reads) (Node.leavesAll xs) (Shape.componentsAll (Node.shapes xs) vs)
  | [], _, _, _, _, _, h => by
    cases h
    exact ⟨rfl, rfl, .nil⟩
  | x :: xs, simple, n, s, t, vs, h => by
    obtain ⟨v, u, first, h⟩ := Run.bind_eq_ok.1 h
    obtain ⟨vs', w, rest, ⟨⟩⟩ := Run.bind_eq_ok.1 h
    obtain ⟨rfl, fits, read⟩ := evalWithin_variables
      (fun q hq => simple q (List.mem_append_left _ hq)) first
    obtain ⟨rfl, fitAll, readAll⟩ := evalList_variables
      (fun q hq => simple q (List.mem_append_right _ hq)) rest
    refine ⟨rfl, ?_, List.rel_append read readAll⟩
    simp only [Node.shapes, Shape.fitAll, fits, fitAll, Bool.and_self]

end

/-- **A deconstruction finds, evaluates, stores.** Where the value that comes out has the shape
of the target, a deconstruction is three passes: the places of the leaves are found from left
to right, the value is evaluated as a whole, and each leaf gets its component, from left to
right; the answer is the value. When the leaves are variables with different names, which are
visible unless they are declared here, and discards, the first pass does no more than to
declare, and nothing fails after the value: each variable holds its component, no other
binding has changed, and nor has anything else. So when the value is itself a tuple of
variables, each variable of the target holds what the variable at its place in the value
held before, whichever of them are the same. -/
theorem deconstruction {σ : Type} (host : Host σ) (n : Nat) (session : SessionId) (span : Span)
    (target value : Node) (s : Machine σ) :
    let c := Context.within host n session
    let leaves := target.leaves
    let start := s.declaring (Node.declarations leaves)
    let whole := evalWithin host (n + 1) session (.mk span (.deconstruct target value)) s
    ((∀ ps t v u, Run.mapList c.place leaves s = (.ok ps, t) →
        evalWithin host n session value t = (.ok v, u) → target.shape.fits v = true) →
      whole = Run.orSpan span (do
        let ps ← Run.mapList c.place leaves
        let v ← c.eval value
        Run.forList (fun q : Place × Value => c.store q.1 q.2) (ps.zip (target.shape.components v))
        return v) s) ∧
    ((∀ p ∈ leaves, p.op.isVariable = true) → (Node.variables leaves).Nodup →
      s.world.frames.Has s.activation.frame →
      (∀ name ∈ Node.variables leaves, s.sees name = true ↔ name ∉ Node.declarations leaves) →
      ∀ v u, evalWithin host n session value start = (.ok v, u) → target.shape.fits v = true →
        ∃ frames, whole = (.ok v, ⟨{ u.world with frames := frames }, u.activation⟩) ∧
          u.world.frames.Assigned u.activation.frame
            (Node.assignments leaves (target.shape.components v)) frames ∧
          ((∀ q ∈ value.leaves, q.op.isVariable = true) → value.shape = target.shape →
            u = start ∧ ∀ p q x y, (p, q) ∈ leaves.zip value.leaves → p.op.named? = some x →
              q.op.named? = some y →
              frames.read s.activation.frame x = start.world.frames.read s.activation.frame y)) := by
  intro c leaves start whole
  refine ⟨fun fits => Run.orSpan_congr (Context.deconstruct_passes fits) span,
    fun simple distinct has sees v u evaluated fits => ?_⟩
  have declarations := Node.declarations_sublist leaves
  have placed : Run.mapList c.place leaves s = (.ok (leaves.map fun p => p.op.variablePlace), start) :=
    Context.mapList_place_variables simple (distinct.sublist declarations)
      (fun name hn => Bool.eq_false_iff.2 fun seen => (sees name (declarations.subset hn)).1 seen hn)
      has
  have seen (name : String) (hn : name ∈ Node.variables leaves) : u.sees name = true := by
    refine evalWithin_sees evaluated (Context.sees_after_declaring has ?_)
    by_cases declared : name ∈ Node.declarations leaves
    · exact .inr declared
    · exact .inl ((sees name hn).2 declared)
  obtain ⟨frames, stored, assigned⟩ := Context.forList_store_variables (c := c)
    (target.shape.components v) simple distinct seen
  refine ⟨frames, ?_, assigned, fun read shape => ?_⟩
  · refine Run.orSpan_eq_ok.2 ((Context.deconstruct_passes (c := c) fun ps t v' u' hp hv => ?_).trans
      ((Run.bind_ok placed).trans ((Run.bind_ok evaluated).trans (Run.bind_ok stored))))
    cases placed.symm.trans hp
    cases evaluated.symm.trans hv
    exact fits
  · obtain ⟨rfl, -, reads⟩ := evalWithin_variables read evaluated
    refine ⟨rfl, fun p q x y hz hx hy => ?_⟩
    rw [shape] at reads
    have length : leaves.length = (target.shape.components v).length :=
      target.length_leaves.trans (Shape.length_components fits).symm
    obtain ⟨w, hp, hq⟩ := exists_between length reads.length_eq.symm hz
    obtain ⟨y', hy', value⟩ := List.forall₂_zip reads.flip hq
    cases hy.symm.trans hy'
    have held := assigned.holds (x, w) (Node.mem_assignments.2 ⟨p, hp, hx⟩)
    have frame : start.activation = s.activation := Context.activation_declaring _ s
    rw [frame] at held value
    exact held.trans value.symm

/-! ## An exchange -/

namespace exchange

def host : Host Scripted.State := Scripted.Program.host ⟨[], []⟩

/-- In a method with the locals `x` and `y`. -/
def start : Machine Scripted.State :=
  ⟨{ World.initial Scripted.State.initial with
      frames := ⟨#[⟨.ofClass (.named ⟨0⟩ []), [], .empty⟩,
        ⟨.ofMethod ⟨0⟩ [], [⟨0⟩],
          (Table.empty.insert "x" (.assigned (.i32 1))).insert "y" (.assigned (.i32 2))⟩]⟩ },
    .start ⟨1⟩ none⟩

def node (op : Op) : Node := .mk .dummy op

/-- `(x, (y, _), var z)`. -/
def target : Node :=
  node (.tuple [node (.localRef "x"), node (.tuple [node (.localRef "y"), node .discard]),
    node (.declarationTarget "z")])

/-- `(y, (x, y), x)`. -/
def value : Node :=
  node (.tuple [node (.localRef "y"), node (.tuple [node (.localRef "x"), node (.localRef "y")]),
    node (.localRef "x")])

def values : Value := .tuple [.i32 2, .tuple [.i32 1, .i32 2], .i32 1]

/-- Two locals are exchanged, while a third one is declared and a component discarded. -/
theorem locals_exchanged :
    let declared := start.declaring ["z"]
    target.leaves.all (·.op.isVariable) = true ∧ value.shape = target.shape ∧
      evalWithin host 3 ⟨0⟩ value declared = (.ok values, declared) ∧
      target.shape.fits values = true ∧
      ∃ frames, evalWithin host 4 ⟨0⟩ (node (.deconstruct target value)) start =
          (.ok values, ⟨{ start.world with frames := frames }, start.activation⟩) ∧
        frames.read ⟨1⟩ "x" = .ok (.i32 2) ∧ frames.read ⟨1⟩ "y" = .ok (.i32 1) ∧
        frames.read ⟨1⟩ "z" = .ok (.i32 1) := by
  intro declared
  have simple : ∀ p ∈ target.leaves, p.op.isVariable = true := by
    rw [← List.all_eq_true]
    rfl
  have read : ∀ q ∈ value.leaves, q.op.isVariable = true := by
    rw [← List.all_eq_true]
    rfl
  have evaluated : evalWithin host 3 ⟨0⟩ value declared = (.ok values, declared) := rfl
  obtain ⟨-, locals⟩ := deconstruction host 3 ⟨0⟩ .dummy target value start
  obtain ⟨frames, stored, assigned, exchanged⟩ := locals simple (by decide) rfl (by decide) values
    declared evaluated rfl
  obtain ⟨-, exchanged⟩ := exchanged read rfl
  have pairs : target.leaves.zip value.leaves =
      [(node (.localRef "x"), node (.localRef "y")), (node (.localRef "y"), node (.localRef "x")),
        (node .discard, node (.localRef "y")), (node (.declarationTarget "z"), node (.localRef "x"))] :=
    rfl
  rw [pairs] at exchanged
  have x := exchanged _ _ "x" "y" (.head _) rfl rfl
  have y := exchanged _ _ "y" "x" (.tail _ (.head _)) rfl rfl
  have z := exchanged _ _ "z" "x" (.tail _ (.tail _ (.tail _ (.head _)))) rfl rfl
  exact ⟨rfl, rfl, evaluated, rfl, frames, stored, x.trans rfl, y.trans rfl, z.trans rfl⟩

end exchange

end OpTree
