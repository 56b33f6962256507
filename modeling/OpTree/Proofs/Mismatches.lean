/-
Tuples of the wrong shape. A value need not have the shape of the target that it is stored to:
somewhere in the target there can be a tuple where the value has null, no tuple, or one of
another length. The first such component, from left to right, ends the assignment
(`Shape.Mismatch`).

Components are compared on the way, not beforehand, so what stands to the left has been stored
by then. `mismatch_stores` says that this is all: the leaves before the component are stored to
as in a deconstruction that fits, those in it and after it are not, and there is no answer. What
is stored does not come back.
-/
import OpTree.Proofs.Deconstruction

namespace OpTree

namespace Shape

/-- Going through a shape and a value from left to right, the first component that is not shaped
so is refused for a cause; the values at the leaves before it are given. -/
inductive Mismatch : Shape → Value → List Value → Cause → Prop where
  /-- Null in the place of a tuple. -/
  | null (shapes : List Shape) : Mismatch (.tuple shapes) .null [] (.nullReference "Deconstruct")
  /-- Something else in the place of a tuple, or a tuple of another length. -/
  | other (shapes : List Shape) (v : Value) (nonnull : v.isNull = false)
      (length : ∀ vs, v = .tuple vs → vs.length ≠ shapes.length) :
      Mismatch (.tuple shapes) v [] (.typeMismatch s!"tuple of {shapes.length}" v.typeName)
  /-- Within a component of a tuple of the right length; the components before it are shaped
  right. -/
  | inside {shape : Shape} {v : Value} {before : List Value} {cause : Cause}
      (shapes₁ shapes₂ : List Shape) (vs₁ vs₂ : List Value) (fits : fitAll shapes₁ vs₁ = true)
      (length : vs₂.length = shapes₂.length) (rest : Mismatch shape v before cause) :
      Mismatch (.tuple (shapes₁ ++ shape :: shapes₂)) (.tuple (vs₁ ++ v :: vs₂))
        (componentsAll shapes₁ vs₁ ++ before) cause

mutual

theorem exists_mismatch : ∀ {shape : Shape} {v : Value}, shape.fits v = false →
    ∃ before cause, Mismatch shape v before cause
  | leaf, _, h => by cases h
  | tuple shapes, v, h => by
    cases v with
    | null => exact ⟨_, _, .null shapes⟩
    | tuple vs =>
      by_cases length : vs.length = shapes.length
      · obtain ⟨shapes₁, shape, shapes₂, vs₁, v, vs₂, before, cause, rfl, rfl, fits, length, rest⟩ :=
          exists_mismatchAll length h
        exact ⟨_, cause, .inside shapes₁ shapes₂ vs₁ vs₂ fits length rest⟩
      · refine ⟨_, _, .other shapes (.tuple vs) rfl ?_⟩
        intro vs' same
        cases same
        exact length
    | _ => exact ⟨_, _, .other shapes _ rfl nofun⟩

theorem exists_mismatchAll : ∀ {shapes : List Shape} {vs : List Value},
    vs.length = shapes.length → fitAll shapes vs = false →
      ∃ shapes₁ shape shapes₂ vs₁ v vs₂ before cause, shapes = shapes₁ ++ shape :: shapes₂ ∧
        vs = vs₁ ++ v :: vs₂ ∧ fitAll shapes₁ vs₁ = true ∧ vs₂.length = shapes₂.length ∧
        Mismatch shape v before cause
  | [], [], _, h => by cases h
  | [], _ :: _, length, _ | _ :: _, [], length, _ => by cases length
  | shape :: shapes, v :: vs, length, h => by
    have length : vs.length = shapes.length := Nat.succ.inj length
    by_cases first : shape.fits v = true
    · have later : fitAll shapes vs = false := by simpa [fitAll, first] using h
      obtain ⟨shapes₁, shape', shapes₂, vs₁, v', vs₂, before, cause, rfl, rfl, fits, length, rest⟩ :=
        exists_mismatchAll length later
      refine ⟨shape :: shapes₁, shape', shapes₂, v :: vs₁, v', vs₂, before, cause, rfl, rfl, ?_,
        length, rest⟩
      simp [fitAll, first, fits]
    · obtain ⟨before, cause, rest⟩ := exists_mismatch (Bool.eq_false_iff.2 first)
      exact ⟨[], shape, shapes, [], v, vs, before, cause, rfl, rfl, rfl, length, rest⟩

end

theorem fitAll_cons {shape : Shape} {shapes : List Shape} {vs : List Value} :
    fitAll (shape :: shapes) vs = true ↔
      ∃ v vs', vs = v :: vs' ∧ shape.fits v = true ∧ fitAll shapes vs' = true := by
  cases vs with
  | nil => simp [fitAll]
  | cons v vs => simp [fitAll]

theorem fitAll_append {shapes₁ shapes₂ : List Shape} {vs₁ vs₂ : List Value}
    (length : vs₁.length = shapes₁.length) :
    fitAll (shapes₁ ++ shapes₂) (vs₁ ++ vs₂) = (fitAll shapes₁ vs₁ && fitAll shapes₂ vs₂) := by
  induction shapes₁ generalizing vs₁ with
  | nil =>
    cases List.length_eq_zero_iff.1 length
    rfl
  | cons shape shapes₁ ih =>
    cases vs₁ with
    | nil => cases length
    | cons v vs₁ => simp only [List.cons_append, fitAll, ih (Nat.succ.inj length), Bool.and_assoc]

/-- Lists come apart in one way at the first shape that does not fit. -/
theorem prefix_unique {shapes₁ shapes₁' shapes₂ shapes₂' : List Shape} {shape shape' : Shape}
    {vs₁ vs₁' vs₂ vs₂' : List Value} {v v' : Value} (fits : fitAll shapes₁ vs₁ = true)
    (fits' : fitAll shapes₁' vs₁' = true) (misfit : shape.fits v = false)
    (misfit' : shape'.fits v' = false)
    (shapes : shapes₁ ++ shape :: shapes₂ = shapes₁' ++ shape' :: shapes₂')
    (values : vs₁ ++ v :: vs₂ = vs₁' ++ v' :: vs₂') :
    shapes₁ = shapes₁' ∧ shape = shape' ∧ vs₁ = vs₁' ∧ v = v' := by
  induction shapes₁ generalizing shapes₁' vs₁ vs₁' with
  | nil =>
    cases List.length_eq_zero_iff.1 (length_of_fitAll fits)
    cases shapes₁' with
    | nil =>
      cases List.length_eq_zero_iff.1 (length_of_fitAll fits')
      cases shapes
      cases values
      exact ⟨rfl, rfl, rfl, rfl⟩
    | cons first shapes₁' =>
      obtain ⟨w, ws, rfl, hw, -⟩ := fitAll_cons.1 fits'
      cases shapes
      cases values
      exact absurd hw (Bool.eq_false_iff.1 misfit)
  | cons first shapes₁ ih =>
    obtain ⟨w, ws, rfl, hw, later⟩ := fitAll_cons.1 fits
    cases shapes₁' with
    | nil =>
      cases List.length_eq_zero_iff.1 (length_of_fitAll fits')
      cases shapes
      cases values
      exact absurd hw (Bool.eq_false_iff.1 misfit')
    | cons first' shapes₁' =>
      obtain ⟨w', ws', rfl, -, later'⟩ := fitAll_cons.1 fits'
      obtain ⟨rfl, laterShapes⟩ := List.cons.inj shapes
      obtain ⟨rfl, laterValues⟩ := List.cons.inj values
      obtain ⟨rfl, rfl, rfl, rfl⟩ := ih later later' laterShapes laterValues
      exact ⟨rfl, rfl, rfl, rfl⟩

theorem Mismatch.misfit {shape : Shape} {v : Value} {before : List Value} {cause : Cause}
    (h : Mismatch shape v before cause) : shape.fits v = false := by
  induction h with
  | null shapes => rfl
  | other shapes v nonnull length =>
    cases v with
    | tuple vs =>
      refine Bool.eq_false_iff.2 fun fits => ?_
      exact length vs rfl (length_of_fitAll fits)
    | _ => rfl
  | inside shapes₁ shapes₂ vs₁ vs₂ fits length rest ih =>
    rw [Shape.fits, fitAll_append (length_of_fitAll fits), fitAll, ih, Bool.false_and, Bool.and_false]

theorem Mismatch.unique {shape : Shape} {v : Value} {before before' : List Value}
    {cause cause' : Cause} (h : Mismatch shape v before cause) (h' : Mismatch shape v before' cause') :
    before = before' ∧ cause = cause' := by
  induction h generalizing before' cause' with
  | null shapes =>
    cases h' with
    | null => exact ⟨rfl, rfl⟩
    | other _ _ nonnull => cases nonnull
  | other shapes v nonnull length =>
    generalize hv : v = w, hs : Shape.tuple shapes = shape at h'
    cases h' with
    | null => cases hv; cases nonnull
    | other => cases hv; cases hs; exact ⟨rfl, rfl⟩
    | inside shapes₁ shapes₂ vs₁ vs₂ fits length' =>
      cases hs
      refine absurd ?_ (length _ hv)
      simp [length_of_fitAll fits, length']
  | @inside shape v before cause shapes₁ shapes₂ vs₁ vs₂ fits length rest ih =>
    generalize hv : Value.tuple (vs₁ ++ v :: vs₂) = w,
      hs : Shape.tuple (shapes₁ ++ shape :: shapes₂) = whole at h'
    cases h' with
    | null => cases hv
    | other shapes _ _ length' =>
      cases hs
      refine absurd ?_ (length' _ hv.symm)
      simp [length_of_fitAll fits, length]
    | inside _ _ _ _ fits' _ rest' =>
      obtain ⟨rfl, rfl, rfl, rfl⟩ := prefix_unique fits fits' rest.misfit rest'.misfit
        (Shape.tuple.inj hs) (Value.tuple.inj hv)
      obtain ⟨rfl, rfl⟩ := ih rest'
      exact ⟨rfl, rfl⟩

theorem sizeAll_append (shapes₁ shapes₂ : List Shape) :
    sizeAll (shapes₁ ++ shapes₂) = sizeAll shapes₁ + sizeAll shapes₂ := by
  induction shapes₁ with
  | nil => simp [sizeAll]
  | cons shape shapes₁ ih => simp [sizeAll, ih, Nat.add_assoc]

theorem Mismatch.length_le {shape : Shape} {v : Value} {before : List Value} {cause : Cause}
    (h : Mismatch shape v before cause) : before.length ≤ shape.size := by
  induction h with
  | null | other => exact Nat.zero_le _
  | inside shapes₁ shapes₂ vs₁ vs₂ fits length rest ih =>
    rw [size, sizeAll_append, sizeAll, List.length_append, length_componentsAll fits]
    omega

end Shape

theorem Place.leavesAll_append (places₁ places₂ : List Place) :
    Place.leavesAll (places₁ ++ places₂) = Place.leavesAll places₁ ++ Place.leavesAll places₂ := by
  induction places₁ with
  | nil => rfl
  | cons p places₁ ih => simp only [List.cons_append, Place.leavesAll, ih, List.append_assoc]

theorem Place.shapes_eq_map (places : List Place) : Place.shapes places = places.map Place.shape := by
  induction places with
  | nil => rfl
  | cons p places ih => rw [Place.shapes, ih, List.map_cons]

/-! ## What is stored -/

theorem zip_append_of_length_le {α β : Type} {as as' : List α} {bs : List β}
    (h : bs.length ≤ as.length) : (as ++ as').zip bs = as.zip bs := by
  induction as generalizing bs with
  | nil =>
    cases List.length_eq_zero_iff.1 (Nat.le_zero.1 h)
    simp
  | cons a as ih =>
    cases bs with
    | nil => simp
    | cons b bs => simp [ih (Nat.le_of_succ_le_succ h)]

theorem Run.fails {σ α β : Type} (m : Run σ α) (cause : Cause) (span : Span) (s : σ) :
    ∃ e t, Run.orSpan span (m >>= fun _ => Run.fail (α := β) cause) s = (.error e, t) := by
  rcases h : Run.orSpan span (m >>= fun _ => Run.fail (α := β) cause) s with ⟨r, t⟩
  cases r with
  | error e => exact ⟨e, t, rfl⟩
  | ok v =>
    obtain ⟨_, u, -, ⟨⟩⟩ := Run.bind_eq_ok.1 (Run.orSpan_eq_ok.1 h)

namespace Context

variable {σ : Type} {c : Context σ}

theorem storeAll_append {places₁ : List Place} {vs₁ : List Value}
    (length : vs₁.length = places₁.length) (places₂ : List Place) (vs₂ : List Value) :
    c.storeAll (places₁ ++ places₂) (vs₁ ++ vs₂) =
      c.storeAll places₁ vs₁ >>= fun _ => c.storeAll places₂ vs₂ := by
  induction places₁ generalizing vs₁ with
  | nil =>
    cases List.length_eq_zero_iff.1 length
    rfl
  | cons p places₁ ih =>
    cases vs₁ with
    | nil => cases length
    | cons v vs₁ =>
      simp only [List.cons_append, storeAll, ih (Nat.succ.inj length), Run.bind_assoc]

/-- What is stored to the leaves before a mismatch is all that is stored. -/
theorem store_mismatch {shape : Shape} {v : Value} {before : List Value} {cause : Cause}
    (h : Shape.Mismatch shape v before cause) {p : Place} (shaped : p.shape = shape) :
    c.store p v = Run.forList (fun q => c.store q.1 q.2) (p.leaves.zip before) >>= fun _ =>
      Run.fail cause := by
  induction h generalizing p with
  | null shapes =>
    cases p with
    | tuple places => rw [List.zip_nil_right]; rfl
    | _ => cases shaped
  | other shapes v nonnull length =>
    cases p with
    | tuple places =>
      cases shaped
      rw [List.zip_nil_right, Place.length_shapes]
      cases v with
      | null => cases nonnull
      | tuple vs =>
        have differs : vs.length ≠ places.length := by
          rw [← Place.length_shapes places]
          exact length vs rfl
        rw [store, if_neg differs]
        rfl
      | _ => rfl
    | _ => cases shaped
  | @inside shape v before cause shapes₁ shapes₂ vs₁ vs₂ fits length rest ih =>
    cases p with
    | tuple places =>
      have all : Place.shapes places = shapes₁ ++ shape :: shapes₂ := Shape.tuple.inj shaped
      rw [Place.shapes_eq_map] at all
      obtain ⟨places₁, rest', rfl, rfl, listed⟩ := List.map_eq_append_iff.1 all
      obtain ⟨q, places₂, rfl, rfl, rfl⟩ := List.map_eq_cons_iff.1 listed
      rw [← Place.shapes_eq_map] at fits ⊢
      have first : vs₁.length = places₁.length :=
        (Shape.length_of_fitAll fits).trans (Place.length_shapes places₁)
      have whole : (vs₁ ++ v :: vs₂).length = (places₁ ++ q :: places₂).length := by
        simp only [List.length_append, List.length_cons, first, length, List.length_map]
      have here : before.length ≤ q.leaves.length := by
        rw [q.length_leaves]
        exact rest.length_le
      have paired : (Place.leavesAll places₁).length =
          (Shape.componentsAll (Place.shapes places₁) vs₁).length :=
        (Place.length_leavesAll places₁).trans (Shape.length_componentsAll fits).symm
      rw [store, if_pos whole, storeAll_append first, storeAll, ih rfl, storeAll_leaves fits,
        Place.leaves, Place.leavesAll_append, Place.leavesAll, List.zip_append paired,
        zip_append_of_length_le here, Run.forList_append, Run.bind_assoc, Run.bind_assoc]
      rfl
    | _ => cases shaped

/-- An assignment of a value with a mismatch stores what comes before it, and fails. -/
theorem assign_mismatch {target value : Node} {s t u : Machine σ} {ps : List Place} {v : Value}
    {before : List Value} {cause : Cause}
    (placed : Run.mapList c.place target.leaves s = (.ok ps, t))
    (evaluated : c.eval value t = (.ok v, u)) (h : Shape.Mismatch target.shape v before cause) :
    c.assign target value s = (Run.forList (fun q : Place × Value => c.store q.1 q.2) (ps.zip before) >>=
      fun _ => Run.fail cause) u := by
  rw [← c.place_leaves target] at placed
  obtain ⟨p, t, found, ⟨⟩⟩ := Run.bind_eq_ok.1 placed
  refine (Run.bind_ok found).trans ((Run.bind_ok evaluated).trans ?_)
  rw [store_mismatch h (place_shape found), Run.bind_assoc]
  rfl

theorem fits_of_assign {target value : Node} {s u : Machine σ} {v : Value}
    (h : c.assign target value s = (.ok v, u)) : target.shape.fits v = true := by
  obtain ⟨p, t, found, h⟩ := Run.bind_eq_ok.1 h
  obtain ⟨v', t, -, h⟩ := Run.bind_eq_ok.1 h
  obtain ⟨_, t, stored, ⟨⟩⟩ := Run.bind_eq_ok.1 h
  by_contra misfit
  obtain ⟨before, cause, mismatch⟩ := Shape.exists_mismatch (Bool.eq_false_iff.2 misfit)
  rw [store_mismatch mismatch (place_shape found)] at stored
  obtain ⟨_, t, -, ⟨⟩⟩ := Run.bind_eq_ok.1 stored

/-- Where leaves are variables, their places are found by declaring those that are to be declared. -/
theorem places_of_variables {leaves : List Node} {s : Machine σ}
    (simple : ∀ p ∈ leaves, p.op.isVariable = true) (distinct : (Node.variables leaves).Nodup)
    (has : s.world.frames.Has s.activation.frame)
    (sees : ∀ name ∈ Node.variables leaves, s.sees name = true ↔ name ∉ Node.declarations leaves) :
    Run.mapList c.place leaves s = (.ok (leaves.map fun p => p.op.variablePlace),
      s.declaring (Node.declarations leaves)) := by
  have declarations := Node.declarations_sublist leaves
  refine mapList_place_variables simple (distinct.sublist declarations) ?_ has
  intro name hn
  by_contra seen
  exact (sees name (declarations.subset hn)).1 (Bool.not_eq_false _ ▸ seen) hn

end Context

theorem sees_after_value {σ : Type} {host : Host σ} {n : Nat} {session : SessionId}
    {leaves : List Node} {value : Node} {s u : Machine σ} {v : Value}
    (has : s.world.frames.Has s.activation.frame)
    (sees : ∀ name ∈ Node.variables leaves, s.sees name = true ↔ name ∉ Node.declarations leaves)
    (evaluated : evalWithin host n session value (s.declaring (Node.declarations leaves)) = (.ok v, u)) :
    ∀ name ∈ Node.variables leaves, u.sees name = true := by
  intro name hn
  refine evalWithin_sees evaluated (Context.sees_after_declaring has ?_)
  by_cases declared : name ∈ Node.declarations leaves
  · exact .inr declared
  · exact .inl ((sees name hn).2 declared)

/-- **A mismatch ends an assignment where it is met.** A tuple of targets is only ever assigned a
value of its shape. When the places of the leaves have been found and the value has been evaluated
and is of another shape, the leaves before the first mismatch get their components, from left to
right, no other leaf is stored to, and the assignment fails: for the mismatch, unless one of those
leaves has failed before. When the leaves are variables with different names, which are visible
unless they are declared here, and discards, those before the mismatch hold their components
afterwards and no other binding has changed. -/
theorem mismatch_stores {σ : Type} (host : Host σ) (n : Nat) (session : SessionId) (span : Span)
    (target value : Node) (s : Machine σ) (op : Op)
    (assigns : op = .assign target value ∨ op = .deconstruct target value) :
    let c := Context.within host n session
    let leaves := target.leaves
    let start := s.declaring (Node.declarations leaves)
    let whole := evalWithin host (n + 1) session (.mk span op) s
    (∀ v u, whole = (.ok v, u) → target.shape.fits v = true) ∧
    (∀ ps t v u, Run.mapList c.place leaves s = (.ok ps, t) →
      evalWithin host n session value t = (.ok v, u) → target.shape.fits v = false →
        ∃ before cause, Shape.Mismatch target.shape v before cause ∧
          whole = Run.orSpan span (do
            Run.forList (fun q : Place × Value => c.store q.1 q.2) (ps.zip before)
            Run.fail cause) u ∧
          ∃ e t', whole = (.error e, t')) ∧
    ((∀ p ∈ leaves, p.op.isVariable = true) → (Node.variables leaves).Nodup →
      s.world.frames.Has s.activation.frame →
      (∀ name ∈ Node.variables leaves, s.sees name = true ↔ name ∉ Node.declarations leaves) →
      ∀ v u, evalWithin host n session value start = (.ok v, u) → target.shape.fits v = false →
        ∃ before cause frames, Shape.Mismatch target.shape v before cause ∧
          whole = (.error (.failed ((EvalError.of cause).orSpan span)),
            ⟨{ u.world with frames := frames }, u.activation⟩) ∧
          u.world.frames.Assigned u.activation.frame (Node.assignments leaves before) frames) := by
  intro c leaves start whole
  have wholeIs : whole = Run.orSpan span (c.assign target value) s := by
    rcases assigns with rfl | rfl <;> rfl
  have stops {ps t v u before cause} (placed : Run.mapList c.place leaves s = (.ok ps, t))
      (evaluated : evalWithin host n session value t = (.ok v, u))
      (h : Shape.Mismatch target.shape v before cause) :
      whole = Run.orSpan span (do
        Run.forList (fun q : Place × Value => c.store q.1 q.2) (ps.zip before)
        Run.fail cause) u := by
    rw [wholeIs, Run.orSpan, Run.orSpan, Context.assign_mismatch placed evaluated h]
  refine ⟨fun v u h => ?_, fun ps t v u placed evaluated misfit => ?_,
    fun simple distinct has sees v u evaluated misfit => ?_⟩
  · rw [wholeIs, Run.orSpan_eq_ok] at h
    exact Context.fits_of_assign h
  · obtain ⟨before, cause, mismatch⟩ := Shape.exists_mismatch misfit
    have stopped := stops placed evaluated mismatch
    refine ⟨before, cause, mismatch, stopped, ?_⟩
    rw [stopped]
    exact Run.fails _ cause span u
  · obtain ⟨before, cause, mismatch⟩ := Shape.exists_mismatch misfit
    have placed := Context.places_of_variables (c := c) simple distinct has sees
    have seen := sees_after_value has sees evaluated
    obtain ⟨frames, stored, assigned⟩ :=
      Context.forList_store_variables (c := c) before simple distinct seen
    refine ⟨before, cause, frames, mismatch, ?_, assigned⟩
    rw [stops placed evaluated mismatch]
    exact Run.orSpan_of_failed (Run.bind_ok stored)

/-! ## Cut short -/

namespace cutShort

open exchange (host start node target)

/-- `(5, null, 7)`, where the target has a tuple in the place of null. -/
def value : Node :=
  node (.tuple [node (.literal (.int .i32 5)), node (.literal .null), node (.literal (.int .i32 7))])

def values : Value := .tuple [.i32 5, .null, .i32 7]

/-- The local to the left of the mismatch is stored to, and the one to the right is not. -/
theorem rightLocal_kept :
    let declared := start.declaring ["z"]
    target.leaves.all (·.op.isVariable) = true ∧ target.shape.fits values = false ∧
      evalWithin host 3 ⟨0⟩ value declared = (.ok values, declared) ∧
      ∃ frames, evalWithin host 4 ⟨0⟩ (node (.deconstruct target value)) start =
          (.error (.failed ((EvalError.of (.nullReference "Deconstruct")).orSpan .dummy)),
            ⟨{ declared.world with frames := frames }, declared.activation⟩) ∧
        frames.read ⟨1⟩ "x" = .ok (.i32 5) ∧ frames.read ⟨1⟩ "y" = .ok (.i32 2) := by
  intro declared
  have simple : ∀ p ∈ target.leaves, p.op.isVariable = true := by
    rw [← List.all_eq_true]
    rfl
  have evaluated : evalWithin host 3 ⟨0⟩ value declared = (.ok values, declared) := rfl
  obtain ⟨-, -, locals⟩ := mismatch_stores host 3 ⟨0⟩ .dummy target value start
    (.deconstruct target value) (.inr rfl)
  obtain ⟨before, cause, frames, mismatch, stored, assigned⟩ :=
    locals simple (by decide) rfl (by decide) values declared evaluated rfl
  have first : Shape.Mismatch target.shape values [.i32 5] (.nullReference "Deconstruct") :=
    .inside [.leaf] [.leaf] [.i32 5] [.i32 7] rfl rfl (.null _)
  obtain ⟨rfl, rfl⟩ := mismatch.unique first
  have pairs : Node.assignments target.leaves [.i32 5] = [("x", .i32 5)] := rfl
  rw [pairs] at assigned
  have found : frames.lookup? ⟨1⟩ "y" = declared.world.frames.lookup? ⟨1⟩ "y" := by
    refine FrameStore.lookup?_congr (assigned.frames.chain rfl) fun g => assigned.others g "y" ?_
    simp
  have kept : frames.read ⟨1⟩ "y" = declared.world.frames.read ⟨1⟩ "y" := by
    simp only [FrameStore.read, found]
  exact ⟨rfl, rfl, evaluated, frames, stored, assigned.holds _ (.head _), kept.trans rfl⟩

/-- The first local is to the left of the mismatch: it is stored to, and the deconstruction fails. -/
theorem leftLocal_stored :
    target.shape.fits values = false ∧
      evalWithin host 3 ⟨0⟩ value (start.declaring ["z"]) = (.ok values, start.declaring ["z"]) ∧
      ∃ t, evalWithin host 4 ⟨0⟩ (node (.deconstruct target value)) start =
          (.error (.failed ((EvalError.of (.nullReference "Deconstruct")).orSpan .dummy)), t) ∧
        start.world.frames.read ⟨1⟩ "x" = .ok (.i32 1) ∧ t.world.frames.read ⟨1⟩ "x" = .ok (.i32 5) :=
  ⟨rfl, rfl, _, rfl, rfl, rfl⟩

end cutShort

end OpTree
