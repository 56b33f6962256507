/-
Array initializers. The items of an initializer that are no initializers themselves, at any
depth, are its leaves (`Node.initialItems`); each has an index path, and no two have the same.
When every level has a length of its own, the paths are the index lists of the shape, and the
leaves come in row-major order (`Node.Rectangular`).

An initializer extends the path of the array that is being filled on its way in and shortens it
on its way out, and in between everything that is evaluated may create and fill arrays of its
own. What comes of this is said without a path that changes: the leaves are evaluated from left
to right, each inside of what is being filled, and each is stored at its own path (`Fills`). An
initializer does that, and it does nothing else (`fills_of_fillItems`, `fillItems_of_fills`).
-/
import OpTree.Proofs.ArrayIndexing
import OpTree.Proofs.Confinement
import OpTree.Proofs.Loops
import OpTree.Proofs.Targets

namespace OpTree

/-! ## The leaves of an initializer -/

/-- A leaf of a nested initializer: the index path to it, and the span of the initializer that it
is an item of. -/
structure InitialItem where
  path : List Int
  node : Node
  span : Span

namespace Node

mutual

/-- The leaves of an item with an index path, from left to right. -/
def initialItems (span : Span) (path : List Int) : Node → List InitialItem
  | .mk own (.arrayInitializer items) => initialItemsFrom own path 0 items
  | node => [⟨path, node, span⟩]

/-- The leaves of the items of an initializer, the first of them at a position. -/
def initialItemsFrom (span : Span) (path : List Int) : Int → List Node → List InitialItem
  | _, [] => []
  | position, item :: rest =>
    initialItems span (path ++ [position]) item ++ initialItemsFrom span path (position + 1) rest

end

/-- A nested initializer of a shape: each level has its length, and below the innermost there
are leaves. -/
def Rectangular : List Nat → Node → Prop
  | [], node => node.initializerItems? = none
  | n :: ns, node => ∃ items, node.initializerItems? = some items ∧ items.length = n ∧
      ∀ x ∈ items, Rectangular ns x

theorem eq_of_initializerItems? {x : Node} {items : List Node} (h : x.initializerItems? = some items) :
    x = .mk x.span (.arrayInitializer items) := by
  obtain ⟨span, op⟩ := x
  cases op <;> cases h
  rfl

theorem initialItems_leaf {x : Node} (h : x.initializerItems? = none) (span : Span) (path : List Int) :
    x.initialItems span path = [⟨path, x, span⟩] := by
  obtain ⟨own, op⟩ := x
  cases op <;> first | rfl | cases h

/-! ## Index paths -/

mutual

theorem prefix_of_mem_initialItems {span : Span} {path : List Int} {l : InitialItem} :
    ∀ x : Node, l ∈ x.initialItems span path → path <+: l.path
  | .mk own op, h => by
    cases op
    case arrayInitializer items =>
      obtain ⟨j, -, hj⟩ := prefix_of_mem_initialItemsFrom items h
      exact (List.prefix_append path [j]).trans hj
    all_goals
      obtain rfl := List.mem_singleton.1 h
      exact List.prefix_rfl

theorem prefix_of_mem_initialItemsFrom {span : Span} {path : List Int} {l : InitialItem} {i : Int} :
    ∀ xs : List Node, l ∈ initialItemsFrom span path i xs → ∃ j ≥ i, path ++ [j] <+: l.path
  | [], h => nomatch h
  | x :: xs, h => by
    rcases List.mem_append.1 h with h | h
    · exact ⟨i, Int.le_refl i, prefix_of_mem_initialItems x h⟩
    · obtain ⟨j, hj, hp⟩ := prefix_of_mem_initialItemsFrom xs h
      exact ⟨j, by omega, hp⟩

end

theorem position_eq_of_prefix {path p : List Int} {i j : Int} (hi : path ++ [i] <+: p)
    (hj : path ++ [j] <+: p) : i = j := by
  have same := List.prefix_of_prefix_length_le hi hj (by simp)
  simpa using same.eq_of_length (by simp)

theorem nodup_pathsFrom (span : Span) (path : List Int) (i : Int) :
    ∀ xs : List Node, ((initialItemsFrom span path i xs).map InitialItem.path).Nodup
  | [] => List.nodup_nil
  | .mk own op :: xs => by
    have first : (((Node.mk own op).initialItems span (path ++ [i])).map InitialItem.path).Nodup := by
      cases op
      case arrayInitializer items => exact nodup_pathsFrom own (path ++ [i]) 0 items
      all_goals exact List.nodup_singleton _
    rw [initialItemsFrom, List.map_append]
    refine first.append (nodup_pathsFrom span path (i + 1) xs) ?_
    intro p hx hxs
    obtain ⟨l, hl, rfl⟩ := List.mem_map.1 hx
    obtain ⟨l', hl', he⟩ := List.mem_map.1 hxs
    obtain ⟨j, hj, after⟩ := prefix_of_mem_initialItemsFrom xs hl'
    have := position_eq_of_prefix (prefix_of_mem_initialItems _ hl) (he ▸ after)
    omega

/-! ## Shapes -/

/-- The shape of a rectangular initializer is found by looking at first items. -/
theorem initializerShape_of_rectangular {ns : List Nat} {x : Node} (h : x.Rectangular ns)
    (nonempty : ∀ n ∈ ns.dropLast, n ≠ 0) : x.initializerShape ns.length = ns := by
  induction ns generalizing x with
  | nil => rfl
  | cons n ns ih =>
    obtain ⟨items, hi, rfl, below⟩ := h
    simp only [List.length_cons, initializerShape, hi]
    cases items with
    | nil =>
      cases ns with
      | nil => rfl
      | cons m ms => exact absurd rfl (nonempty 0 (by simp))
    | cons first rest =>
      have inner := ih (below first (by simp)) fun m hm => nonempty m (by
        cases ns with
        | nil => cases hm
        | cons m' ms => exact List.mem_cons_of_mem _ hm)
      simp [inner]

theorem paths_of_rectangularAll {ns : List Nat} {span : Span} {path : List Int}
    (block : ∀ (x : Node) (i : Int), x.Rectangular ns →
      (x.initialItems span (path ++ [i])).map InitialItem.path =
        (List.range (elementCount ns)).map fun k => path ++ i :: ArrayCell.indicesAt ns k)
    {xs : List Node} (h : ∀ x ∈ xs, x.Rectangular ns) (i : Int) :
    (initialItemsFrom span path i xs).map InitialItem.path =
      (List.range (xs.length * elementCount ns)).map fun k =>
        path ++ (i + (k / elementCount ns : Nat)) :: ArrayCell.indicesAt ns (k % elementCount ns) := by
  induction xs generalizing i with
  | nil => simp [initialItemsFrom]
  | cons x xs ih =>
    rw [initialItemsFrom, List.map_append, block x i (h x (by simp)),
      ih (fun y hy => h y (by simp [hy])) (i + 1), List.length_cons, Nat.succ_mul, Nat.add_comm,
      List.range_add, List.map_append, List.map_map]
    congr 1
    · refine List.map_congr_left fun k hk => ?_
      have hk := List.mem_range.1 hk
      rw [Nat.div_eq_of_lt hk, Nat.mod_eq_of_lt hk]
      simp
    · refine List.map_congr_left fun k hk => ?_
      have pos : 0 < elementCount ns := Nat.pos_of_ne_zero fun h0 => by simp [h0] at hk
      simp only [Function.comp_apply, Nat.add_mod_left, Nat.add_div_left k pos]
      congr 2
      omega

/-- The paths of a rectangular initializer are the index lists of its shape, in row-major order. -/
theorem paths_of_rectangular {ns : List Nat} {x : Node} (h : x.Rectangular ns) (span : Span)
    (path : List Int) : (x.initialItems span path).map InitialItem.path =
      (List.range (elementCount ns)).map fun k => path ++ ArrayCell.indicesAt ns k := by
  induction ns generalizing x span path with
  | nil => simp [initialItems_leaf h, elementCount, ArrayCell.indicesAt]
  | cons n ns ih =>
    obtain ⟨items, hi, rfl, below⟩ := h
    rw [eq_of_initializerItems? hi, initialItems]
    rw [paths_of_rectangularAll (fun x i hx => ?_) below 0]
    · simp [elementCount, ArrayCell.indicesAt]
    · rw [ih hx]
      simp

end Node

/-! ## Filling an array -/

theorem EvalError.orSpan_orSpan (e : EvalError) (span span' : Span) :
    (e.orSpan span).orSpan span' = e.orSpan span := by
  cases h : e.span <;> simp [EvalError.orSpan, h]

namespace Run

variable {σ α β : Type}

theorem orSpan_bind (span : Span) (m : Run σ α) (f : α → Run σ β) :
    orSpan span (m >>= f) = (orSpan span m >>= fun a => orSpan span (f a)) := by
  funext s
  rcases hm : m s with ⟨(e | _) | a, t⟩ <;> simp only [orSpan, bind_def, hm]

theorem between_apply (before after : Activation → Activation) (m : Run (Machine σ) α)
    (s : Machine σ) : Run.between before after m s =
      match m { s with activation := before s.activation } with
      | (r, t) => (r, { t with activation := after t.activation }) := rfl

end Run

/-- The machine with some arrays being filled. -/
def Machine.filling {σ : Type} (s : Machine σ) (inits : List ArrayInit) : Machine σ :=
  { s with activation := { s.activation with arrayInits := inits } }

/-- Leaves are evaluated from left to right, and each is stored at its path before the next one
is evaluated: from a machine, some values are stored, and then the leaves are at an end, or there
is an error that is the last leaf's or its place's. While a leaf is evaluated, the array is being
filled inside of the arrays that were filled before. -/
inductive Fills {σ : Type} (host : Host σ) (session : SessionId) (a : ArrayRef)
    (outer : List ArrayInit) :
    List InitialItem → Machine σ → List Value → Option EvalError → Machine σ → Prop where
  | done (s) : Fills host session a outer [] s [] none s
  | stored {l ls s v t w vs e u} :
      ComesTo host session l.node (s.filling (⟨a, l.path.dropLast⟩ :: outer)) (.ok v) t →
      World.setElement a l.path v t.world = (.ok (), w) →
      Fills host session a outer ls { t with world := w } vs e u →
      Fills host session a outer (l :: ls) s (v :: vs) e u
  | failed {l ls s e t} :
      ComesTo host session l.node (s.filling (⟨a, l.path.dropLast⟩ :: outer)) (.error (.failed e)) t →
      Fills host session a outer (l :: ls) s [] (some (e.orSpan l.span)) t
  | refused {l ls s v t e w} :
      ComesTo host session l.node (s.filling (⟨a, l.path.dropLast⟩ :: outer)) (.ok v) t →
      World.setElement a l.path v t.world = (.error (.failed e), w) →
      Fills host session a outer (l :: ls) s [] (some (e.orSpan l.span)) t

/-- How a run ends that fills an array. -/
def Fills.ended : Option EvalError → Except Stop Unit
  | none => .ok ()
  | some e => .error (.failed e)

namespace Fills

variable {σ : Type} {host : Host σ} {session : SessionId} {a : ArrayRef} {outer : List ArrayInit}
  {ls ls' : List InitialItem} {s u u' : Machine σ} {vs vs' : List Value} {e : Option EvalError}

theorem append (h : Fills host session a outer ls s vs none u)
    (h' : Fills host session a outer ls' u vs' e u') :
    Fills host session a outer (ls ++ ls') s (vs ++ vs') e u' := by
  generalize he : (none : Option EvalError) = e₀ at h
  induction h with
  | done => exact h'
  | stored comes stores _ ih => exact .stored comes stores (ih h' he)
  | failed | refused => cases he

theorem append_error {e : EvalError} (h : Fills host session a outer ls s vs (some e) u)
    (ls' : List InitialItem) : Fills host session a outer (ls ++ ls') s vs (some e) u := by
  generalize he : some e = e₀ at h ⊢
  induction h with
  | done => cases he
  | stored comes stores _ ih => exact .stored comes stores (ih he)
  | failed comes => exact .failed comes
  | refused comes refuses => exact .refused comes refuses

theorem of_append (h : Fills host session a outer (ls ++ ls') s vs e u) :
    (∃ e₀, e = some e₀ ∧ Fills host session a outer ls s vs (some e₀) u) ∨
      ∃ vs₁ vs₂ u₁, vs = vs₁ ++ vs₂ ∧ Fills host session a outer ls s vs₁ none u₁ ∧
        Fills host session a outer ls' u₁ vs₂ e u := by
  induction ls generalizing s vs with
  | nil => exact .inr ⟨[], vs, s, rfl, .done s, h⟩
  | cons l ls ih =>
    cases h with
    | stored comes stores later =>
      rcases ih later with ⟨e₀, he, first⟩ | ⟨vs₁, vs₂, u₁, rfl, first, rest⟩
      · exact .inl ⟨e₀, he, .stored comes stores first⟩
      · exact .inr ⟨_ :: vs₁, vs₂, u₁, rfl, .stored comes stores first, rest⟩
    | failed comes => exact .inl ⟨_, rfl, .failed comes⟩
    | refused comes refuses => exact .inl ⟨_, rfl, .refused comes refuses⟩

end Fills

/-! ## Initializers fill arrays -/

namespace Context

variable {σ : Type} (c : Context σ)

/-- What an initializer does for one of its items. -/
def fillItem (position : Int) (item : Node) : Run (Machine σ) Unit :=
  match item.initializerItems? with
  | some _ => do
    let _ ← Run.between (mapInnerPath (· ++ [position])) (mapInnerPath List.dropLast) (c.eval item)
    pure ()
  | none => do
    let v ← c.eval item
    match ← Run.gets fun s => s.activation.arrayInits with
    | init :: _ => Run.onWorld (World.setElement init.array (init.path ++ [position]) v)
    | [] => Run.fail (.missingContext "array creation")

theorem fillItems_cons (position : Int) (item : Node) (rest : List Node) :
    c.fillItems position (item :: rest) =
      (do c.fillItem position item; c.fillItems (position + 1) rest) := by
  simp only [fillItems, fillItem]
  cases item.initializerItems? with
  | some items => rw [Run.bind_assoc]; rfl
  | none =>
    rw [Run.bind_assoc]
    refine congrArg (c.eval item >>= ·) (funext fun v => ?_)
    rw [Run.bind_assoc]
    refine congrArg ((Run.gets fun s : Machine σ => s.activation.arrayInits) >>= ·)
      (funext fun inits => ?_)
    cases inits <;> rfl

end Context

section

variable {σ : Type} {host : Host σ} {session : SessionId} {a : ArrayRef} {outer : List ArrayInit}

theorem World.setElement_ne_exhausted (a : ArrayRef) (is : List Int) (v : Value) (w : World σ) :
    (World.setElement a is v w).1 ≠ .error .exhausted := by
  simp only [World.setElement]
  split
  · split <;> simp
  · simp

theorem World.setElement_refused {a : ArrayRef} {is : List Int} {v : Value} {w w' : World σ}
    {e : Stop} (h : World.setElement a is v w = (.error e, w')) : w' = w := by
  simp only [World.setElement] at h
  cases hc : w.cell? a with
  | none => rw [hc] at h; cases h
  | some cell =>
    rw [hc] at h
    cases hs : cell.set is v <;> simp only [hs] at h <;> cases h
    rfl

theorem filling_after {n : Nat} {x : Node} {s t : Machine σ} {inits : List ArrayInit}
    {r : Except Stop Value} (h : evalWithin host n session x (s.filling inits) = (r, t)) :
    t.activation.arrayInits = inits ∧ t = t.filling inits := by
  have rests := (evalWithin_grows host n session x (s.filling inits)).2
  rw [h] at rests
  have kept : t.activation.arrayInits = inits := rests.arrayInits
  refine ⟨kept, ?_⟩
  subst kept
  rfl

theorem fillItem_leaf {n : Nat} {x : Node} (hx : x.initializerItems? = none) {span : Span} {i : Int}
    {q : List Int} {s t : Machine σ} {v : Value}
    (h : evalWithin host n session x (s.filling (⟨a, q⟩ :: outer)) = (.ok v, t)) :
    Run.orSpan span ((Context.within host n session).fillItem i x) (s.filling (⟨a, q⟩ :: outer)) =
      Run.orSpan span (Run.onWorld (World.setElement a (q ++ [i]) v)) t := by
  have evaluated : (Context.within host n session).eval x (s.filling (⟨a, q⟩ :: outer)) = (.ok v, t) := h
  simp only [Run.orSpan, Context.fillItem, hx, Run.bind_def, evaluated, Run.gets_def,
    (filling_after h).1]

theorem fillItem_leaf_error {n : Nat} {x : Node} (hx : x.initializerItems? = none) {i : Int}
    {s t : Machine σ} {e : Stop} (h : evalWithin host n session x s = (.error e, t)) :
    (Context.within host n session).fillItem i x s = (.error e, t) := by
  have evaluated : (Context.within host n session).eval x s = (.error e, t) := h
  simp only [Context.fillItem, hx, Run.bind_def, evaluated]

theorem fills_of_leaf {n : Nat} {x : Node} (hx : x.initializerItems? = none) {span : Span} {i : Int}
    {q : List Int} {s t : Machine σ} {r : Except Stop Unit} (hr : r ≠ .error .exhausted)
    (h : Run.orSpan span ((Context.within host n session).fillItem i x)
      (s.filling (⟨a, q⟩ :: outer)) = (r, t)) :
    ∃ vs e u, Fills host session a outer (x.initialItems span (q ++ [i])) s vs e u ∧
      t = u.filling (⟨a, q⟩ :: outer) ∧ r = Fills.ended e := by
  rw [Node.initialItems_leaf hx]
  have inner : (q ++ [i]).dropLast = q := List.dropLast_concat
  rcases evaluated : evalWithin host n session x (s.filling (⟨a, q⟩ :: outer)) with ⟨e | v, t₁⟩
  · have left := (filling_after evaluated).2
    rw [Run.orSpan, fillItem_leaf_error hx evaluated] at h
    cases e with
    | exhausted => cases h; exact absurd rfl hr
    | failed e =>
      cases h
      exact ⟨[], _, t, .failed (inner.symm ▸ ⟨by simp, n, evaluated⟩), left, rfl⟩
  · have left := (filling_after evaluated).2
    have comes : ComesTo host session x (s.filling (⟨a, (q ++ [i]).dropLast⟩ :: outer)) (.ok v) t₁ :=
      inner.symm ▸ ⟨by simp, n, evaluated⟩
    rw [fillItem_leaf hx evaluated] at h
    have bounded := World.setElement_ne_exhausted a (q ++ [i]) v t₁.world
    rcases stored : World.setElement a (q ++ [i]) v t₁.world with ⟨(e | _) | _, w⟩
    · simp only [Run.orSpan, Run.onWorld, stored] at h
      cases h
      obtain rfl := World.setElement_refused stored
      exact ⟨[], _, t₁, .refused comes stored, left, rfl⟩
    · exact absurd (congrArg Prod.fst stored) bounded
    · simp only [Run.orSpan, Run.onWorld, stored] at h
      cases h
      refine ⟨[v], none, { t₁ with world := w }, .stored comes stored (.done _), ?_, rfl⟩
      rw [left]
      rfl

theorem Fills.spanned {ls : List InitialItem} {s u : Machine σ} {vs : List Value}
    {e : Option EvalError} (h : Fills host session a outer ls s vs e u) (span : Span) :
    ∀ e', Fills.ended e = .error (.failed e') → e'.orSpan span = e' := by
  induction h with
  | done => intro e' he; cases he
  | stored _ _ _ ih => exact ih
  | failed | refused => intro e' he; cases he; exact EvalError.orSpan_orSpan ..

theorem evalWithin_initializer {n : Nat} {own : Span} {items : List Node} {s t : Machine σ}
    {init : ArrayInit} {r : Except Stop Unit}
    (h : Run.orSpan own ((Context.within host n session).fillItems 0 items)
      (s.filling (init :: outer)) = (r, t)) :
    evalWithin host (n + 1) session (.mk own (.arrayInitializer items)) (s.filling (init :: outer)) =
      (r.map fun _ => Value.void, t) := by
  have begun : evalWithin host (n + 1) session (.mk own (.arrayInitializer items))
      (s.filling (init :: outer)) =
      Run.orSpan own (do (Context.within host n session).fillItems 0 items; return Value.void)
        (s.filling (init :: outer)) := rfl
  rw [begun, Run.orSpan_bind, Run.bind_def, h]
  cases r <;> rfl

theorem Context.fillItem_inner (c : Context σ) {x : Node} {items : List Node}
    (hx : x.initializerItems? = some items) {i : Int} {q : List Int} {s t : Machine σ}
    {r : Except Stop Value}
    (h : c.eval x (s.filling (⟨a, q ++ [i]⟩ :: outer)) = (r, t.filling (⟨a, q ++ [i]⟩ :: outer))) :
    c.fillItem i x (s.filling (⟨a, q⟩ :: outer)) =
      (r.map fun _ => (), t.filling (⟨a, q⟩ :: outer)) := by
  have entered : c.eval x { s.filling (⟨a, q⟩ :: outer) with
      activation := mapInnerPath (· ++ [i]) (s.filling (⟨a, q⟩ :: outer)).activation } =
      (r, t.filling (⟨a, q ++ [i]⟩ :: outer)) := h
  have left : mapInnerPath List.dropLast (t.filling (⟨a, q ++ [i]⟩ :: outer)).activation =
      (t.filling (⟨a, q⟩ :: outer)).activation := by
    simp [mapInnerPath, Machine.filling]
  have between : Run.between (mapInnerPath (· ++ [i])) (mapInnerPath List.dropLast) (c.eval x)
      (s.filling (⟨a, q⟩ :: outer)) = (r, t.filling (⟨a, q⟩ :: outer)) := by
    rw [Run.between_apply]
    simp only [entered, left]
    rfl
  simp only [fillItem, hx, Run.bind_def, between]
  cases r <;> rfl

theorem fillItem_of_leaf {x : Node} (hx : x.initializerItems? = none) {span : Span} {i : Int}
    {q : List Int} {s u : Machine σ} {vs : List Value} {e : Option EvalError}
    (h : Fills host session a outer (x.initialItems span (q ++ [i])) s vs e u) :
    ∃ N, ∀ n ≥ N, Run.orSpan span ((Context.within host n session).fillItem i x)
      (s.filling (⟨a, q⟩ :: outer)) = (Fills.ended e, u.filling (⟨a, q⟩ :: outer)) := by
  rw [Node.initialItems_leaf hx] at h
  have inner : (q ++ [i]).dropLast = q := List.dropLast_concat
  cases h with
  | stored comes stored rest =>
    cases rest
    rw [inner] at comes
    obtain ⟨N, evaluated⟩ := comes.eventually
    refine ⟨N, fun n hn => ?_⟩
    have left := (filling_after (evaluated n hn)).2
    rw [fillItem_leaf hx (evaluated n hn), left]
    simp only [Run.orSpan, Run.onWorld, Machine.filling, stored]
    rfl
  | failed comes =>
    rw [inner] at comes
    obtain ⟨N, evaluated⟩ := comes.eventually
    refine ⟨N, fun n hn => ?_⟩
    have left := (filling_after (evaluated n hn)).2
    rw [Run.orSpan, fillItem_leaf_error hx (evaluated n hn), ← left]
    rfl
  | refused comes refused =>
    rw [inner] at comes
    obtain ⟨N, evaluated⟩ := comes.eventually
    refine ⟨N, fun n hn => ?_⟩
    have left := (filling_after (evaluated n hn)).2
    obtain rfl := World.setElement_refused refused
    rw [fillItem_leaf hx (evaluated n hn), left]
    simp only [Run.orSpan, Run.onWorld, Machine.filling, refused]
    rfl

/-- Under a bound, an item that is an initializer does what its items do under the bound below. -/
theorem fillItem_below {n : Nat} {own span : Span} {items : List Node} {i : Int} {q : List Int}
    {s t : Machine σ} {r : Except Stop Unit}
    (h : Run.orSpan own ((Context.within host n session).fillItems 0 items)
      (s.filling (⟨a, q ++ [i]⟩ :: outer)) = (r, t.filling (⟨a, q ++ [i]⟩ :: outer)))
    (spanned : ∀ e, r = .error (.failed e) → e.orSpan span = e) :
    Run.orSpan span ((Context.within host (n + 1) session).fillItem i
      (.mk own (.arrayInitializer items))) (s.filling (⟨a, q⟩ :: outer)) =
        (r, t.filling (⟨a, q⟩ :: outer)) := by
  have filled := (Context.within host (n + 1) session).fillItem_inner (i := i)
    (x := .mk own (.arrayInitializer items)) rfl (evalWithin_initializer h)
  rw [Run.orSpan, filled]
  rcases r with (e | _) | _
  · simp only [Except.map, spanned e rfl]
  · rfl
  · rfl

-- Both directions go down the node; the bound is one less for each level of initializers.
mutual

/-- What an initializer does for an item is that the leaves of the item fill the array. -/
theorem fills_of_fillItem : ∀ (x : Node) {n : Nat} {span : Span} {i : Int} {q : List Int}
    {s t : Machine σ} {r : Except Stop Unit},
    Run.orSpan span ((Context.within host n session).fillItem i x) (s.filling (⟨a, q⟩ :: outer)) =
      (r, t) → r ≠ .error .exhausted →
    ∃ vs e u, Fills host session a outer (x.initialItems span (q ++ [i])) s vs e u ∧
      t = u.filling (⟨a, q⟩ :: outer) ∧ r = Fills.ended e
  | .mk own op, n, span, i, q, s, t, r, h, hr => by
    cases op
    case arrayInitializer items =>
      cases n with
      | zero =>
        exact absurd (congrArg Prod.fst h).symm hr
      | succ n =>
        rcases ran : Run.orSpan own ((Context.within host n session).fillItems 0 items)
          (s.filling (⟨a, q ++ [i]⟩ :: outer)) with ⟨r', t'⟩
        by_cases short : r' = .error .exhausted
        -- a bound that is too small for the items is too small here
        · subst short
          rw [(filling_after (evalWithin_initializer ran)).2] at ran
          rw [fillItem_below ran nofun] at h
          cases h
          exact absurd rfl hr
        · obtain ⟨vs, e, u, filled, rfl, rfl⟩ := fills_of_fillItems items ran short
          rw [fillItem_below ran (filled.spanned span)] at h
          cases h
          exact ⟨vs, e, u, filled, rfl, rfl⟩
    all_goals exact fills_of_leaf rfl hr h

theorem fills_of_fillItems : ∀ (xs : List Node) {n : Nat} {span : Span} {i : Int} {q : List Int}
    {s t : Machine σ} {r : Except Stop Unit},
    Run.orSpan span ((Context.within host n session).fillItems i xs) (s.filling (⟨a, q⟩ :: outer)) =
      (r, t) → r ≠ .error .exhausted →
    ∃ vs e u, Fills host session a outer (Node.initialItemsFrom span q i xs) s vs e u ∧
      t = u.filling (⟨a, q⟩ :: outer) ∧ r = Fills.ended e
  | [], _, _, _, _, s, _, _, h, _ => by
    cases h
    exact ⟨[], none, s, .done s, rfl, rfl⟩
  | x :: xs, n, span, i, q, s, t, r, h, hr => by
    rw [Context.fillItems_cons, Run.orSpan_bind] at h
    rcases first : Run.orSpan span ((Context.within host n session).fillItem i x)
      (s.filling (⟨a, q⟩ :: outer)) with ⟨e | _, t₁⟩
    · rw [Run.bind_error first] at h
      cases h
      obtain ⟨vs, e', u, filled, left, he⟩ := fills_of_fillItem x first hr
      cases e' with
      | none => cases he
      | some e' => exact ⟨vs, some e', u, filled.append_error _, left, he⟩
    · rw [Run.bind_ok first] at h
      obtain ⟨vs, e', u, filled, rfl, he⟩ := fills_of_fillItem x first nofun
      obtain ⟨vs', e, u', rest, left, hr⟩ := fills_of_fillItems xs h hr
      cases e' with
      | none => exact ⟨vs ++ vs', e, u', filled.append rest, left, hr⟩
      | some e' => cases he

end

mutual

/-- If the leaves of an item fill the array, an initializer does so for the item under every bound
that is great enough. -/
theorem fillItem_of_fills : ∀ (x : Node) {span : Span} {i : Int} {q : List Int} {s u : Machine σ}
    {vs : List Value} {e : Option EvalError},
    Fills host session a outer (x.initialItems span (q ++ [i])) s vs e u →
    ∃ N, ∀ n ≥ N, Run.orSpan span ((Context.within host n session).fillItem i x)
      (s.filling (⟨a, q⟩ :: outer)) = (Fills.ended e, u.filling (⟨a, q⟩ :: outer))
  | .mk own op, span, i, q, s, u, vs, e, h => by
    cases op
    case arrayInitializer items =>
      obtain ⟨N, ran⟩ := fillItems_of_fills items h
      refine ⟨N + 1, fun n hn => ?_⟩
      obtain ⟨n, rfl⟩ : ∃ m, n = m + 1 := ⟨n - 1, by omega⟩
      exact fillItem_below (ran n (by omega)) (h.spanned span)
    all_goals exact fillItem_of_leaf rfl h

theorem fillItems_of_fills : ∀ (xs : List Node) {span : Span} {i : Int} {q : List Int}
    {s u : Machine σ} {vs : List Value} {e : Option EvalError},
    Fills host session a outer (Node.initialItemsFrom span q i xs) s vs e u →
    ∃ N, ∀ n ≥ N, Run.orSpan span ((Context.within host n session).fillItems i xs)
      (s.filling (⟨a, q⟩ :: outer)) = (Fills.ended e, u.filling (⟨a, q⟩ :: outer))
  | [], _, _, _, _, _, _, _, h => by
    cases h
    exact ⟨0, fun _ _ => rfl⟩
  | x :: xs, span, i, q, s, u, vs, e, h => by
    rcases h.of_append with ⟨e₀, rfl, first⟩ | ⟨vs₁, vs₂, u₁, rfl, first, rest⟩
    · obtain ⟨N, ran⟩ := fillItem_of_fills x first
      refine ⟨N, fun n hn => ?_⟩
      rw [Context.fillItems_cons, Run.orSpan_bind]
      exact Run.bind_error (ran n hn)
    · obtain ⟨N, ran⟩ := fillItem_of_fills x first
      obtain ⟨N', ran'⟩ := fillItems_of_fills xs rest
      refine ⟨max N N', fun n hn => ?_⟩
      rw [Context.fillItems_cons, Run.orSpan_bind, Run.bind_ok (ran n (by omega))]
      exact ran' n (by omega)

end

end

end OpTree
