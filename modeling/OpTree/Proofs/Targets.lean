/-
Targets and the places that they name. A target is a tree of tuples, and what counts are its
leaves: the place of a target is found by finding the places of its leaves from left to right
(`Context.place_leaves`), and finding it fails exactly as finding one of those does
(`Context.place_failed_iff`). Sequences of runs are put together by the laws of a monad, and
what only reads the state leaves it (`Run.Still`).
-/
import OpTree.Proofs.Runs
import OpTree.Eval.Engine

namespace OpTree

namespace Run

variable {σ α β : Type}

theorem pure_bind (a : α) (f : α → Run σ β) : (pure a >>= f) = f a := rfl

theorem bind_pure (m : Run σ α) : (m >>= fun a => pure a) = m := by
  funext s
  rw [bind_def]
  rcases m s with ⟨_ | _, _⟩ <;> rfl

/-- A sequence that stops does so in its first run or after it. -/
theorem bind_eq_error {m : Run σ α} {f : α → Run σ β} {s t e} :
    (m >>= f) s = (.error e, t) ↔
      m s = (.error e, t) ∨ ∃ a u, m s = (.ok a, u) ∧ f a u = (.error e, t) := by
  rw [bind_def]
  rcases h : m s with ⟨r, u⟩
  cases r with
  | ok a =>
    constructor
    · exact fun hf => .inr ⟨a, u, rfl, hf⟩
    · rintro (⟨⟨⟩⟩ | ⟨_, _, ⟨⟩, hf⟩)
      exact hf
  | error e' =>
    constructor
    · rintro ⟨⟩
      exact .inl rfl
    · rintro (⟨⟨⟩⟩ | ⟨_, _, ⟨⟩, _⟩)
      rfl

theorem ofExcept_eq_failed {r : Except EvalError α} {s t : σ} {e : EvalError} :
    ofExcept r s = (.error (.failed e), t) ↔ r = .error e ∧ t = s := by
  cases r with
  | ok a => simp
  | error e' => simp [eq_comm]

theorem orSpan_of_failed {span : Span} {m : Run σ α} {s t : σ} {e : EvalError}
    (h : m s = (.error (.failed e), t)) :
    orSpan span m s = (.error (.failed (e.orSpan span)), t) := by
  simp only [orSpan, h]

theorem orSpan_congr {m m' : Run σ α} {s : σ} (h : m s = m' s) (span : Span) :
    orSpan span m s = orSpan span m' s := by
  simp only [orSpan, h]

theorem mapList_append (f : α → Run σ β) (l l' : List α) :
    mapList f (l ++ l') = mapList f l >>= fun bs => mapList f l' >>= fun bs' => pure (bs ++ bs') := by
  induction l with
  | nil => exact (bind_pure _).symm
  | cons a l ih => simp only [List.cons_append, mapList, ih, bind_assoc, pure_bind]

theorem forList_append (f : α → Run σ Unit) (l l' : List α) :
    forList f (l ++ l') = forList f l >>= fun _ => forList f l' := by
  induction l with
  | nil => rfl
  | cons a l ih => simp only [List.cons_append, forList, ih, bind_assoc]

/-- There is no answer where there is none for one member, after the members before it. -/
theorem mapList_eq_error {f : α → Run σ β} {l : List α} {s u : σ} {e : Stop} :
    mapList f l s = (.error e, u) ↔ ∃ before a after bs t, l = before ++ a :: after ∧
      mapList f before s = (.ok bs, t) ∧ f a t = (.error e, u) := by
  constructor
  · intro h
    induction l generalizing s with
    | nil => cases h
    | cons a l ih =>
      rcases bind_eq_error.1 h with h | ⟨b, t, hb, h⟩
      · exact ⟨[], a, l, [], s, rfl, rfl, h⟩
      · rcases bind_eq_error.1 h with h | ⟨bs, v, -, ⟨⟩⟩
        obtain ⟨before, a', after, bs, v, rfl, hbs, ha⟩ := ih h
        refine ⟨a :: before, a', after, b :: bs, v, rfl, ?_, ha⟩
        exact bind_eq_ok.2 ⟨b, t, hb, bind_eq_ok.2 ⟨bs, v, hbs, rfl⟩⟩
  · rintro ⟨before, a, after, bs, t, rfl, hbs, ha⟩
    rw [mapList_append]
    exact (bind_ok hbs).trans (bind_error (bind_error ha))

/-- The state is not changed, however the run ends. -/
def Still (m : Run σ α) : Prop := ∀ s, (m s).2 = s

theorem Still.bind {m : Run σ α} {f : α → Run σ β} (h : m.Still) (hf : ∀ a, (f a).Still) :
    (m >>= f).Still := by
  intro s
  have first := h s
  rw [bind_def]
  rcases hm : m s with ⟨r, t⟩
  rw [hm] at first
  subst first
  cases r with
  | ok a => exact hf a t
  | error e => rfl

theorem still_ofExcept (r : Except EvalError α) : (ofExcept r : Run σ α).Still := fun _ => rfl

theorem Still.eq {m : Run σ α} (h : m.Still) {s t : σ} {r : Except Stop α} (hm : m s = (r, t)) :
    t = s := by
  rw [← h s, hm]

theorem closeType_still (t : TypeRef) : (closeType t : Run (Machine σ) ClosedType).Still :=
  fun _ => rfl

theorem closeMember_still (use : MemberUse) :
    (closeMember use : Run (Machine σ) ResolvedMember).Still :=
  fun _ => rfl

theorem currentInstance_still : (currentInstance : Run (Machine σ) ObjectRef).Still := by
  intro s
  simp only [currentInstance]
  split <;> rfl

end Run

/-- One more step evaluates the node's operation. -/
theorem evalWithin_succ {σ : Type} {host : Host σ} {n : Nat} {session : SessionId} (x : Node) :
    evalWithin host (n + 1) session x =
      Run.orSpan x.span ((Context.within host n session).evalOp x.op) := rfl

/-! ## Leaves -/

def Op.isTuple : Op → Bool
  | .tuple _ => true
  | _ => false

mutual

/-- The targets in a target that are no tuples, from left to right. -/
def Node.leaves : Node → List Node
  | .mk _ (.tuple targets) => Node.leavesAll targets
  | target => [target]

def Node.leavesAll : List Node → List Node
  | [] => []
  | target :: rest => target.leaves ++ Node.leavesAll rest

end

mutual

/-- The places in a place that are no tuples, from left to right. -/
def Place.leaves : Place → List Place
  | .tuple places => Place.leavesAll places
  | place => [place]

def Place.leavesAll : List Place → List Place
  | [] => []
  | place :: rest => place.leaves ++ Place.leavesAll rest

end

def Place.isTuple : Place → Bool
  | .tuple _ => true
  | _ => false

theorem Place.leaves_of_isTuple {p : Place} (h : p.isTuple = false) : p.leaves = [p] := by
  cases p <;> first | rfl | cases h

theorem Node.leaves_of_isTuple {p : Node} (h : p.op.isTuple = false) : p.leaves = [p] := by
  obtain ⟨span, op⟩ := p
  cases op <;> first | rfl | cases h

mutual

theorem Node.isTuple_of_mem_leaves {p : Node} : ∀ {target : Node}, p ∈ target.leaves → p.op.isTuple = false
  | .mk span op, h => by
    by_cases ht : op.isTuple = true
    · cases op with
      | tuple targets => exact Node.isTuple_of_mem_leavesAll h
      | _ => cases ht
    · have leaf : (Node.mk span op).leaves = [.mk span op] :=
        Node.leaves_of_isTuple (Bool.eq_false_iff.2 ht)
      rw [leaf, List.mem_singleton] at h
      rw [h]
      exact Bool.eq_false_iff.2 ht

theorem Node.isTuple_of_mem_leavesAll {p : Node} : ∀ {targets : List Node},
    p ∈ Node.leavesAll targets → p.op.isTuple = false
  | [], h => by cases h
  | target :: rest, h => by
    rcases List.mem_append.1 h with h | h
    · exact Node.isTuple_of_mem_leaves h
    · exact Node.isTuple_of_mem_leavesAll h

end

namespace Context

variable {σ : Type} (c : Context σ)

theorem place_of_isTuple {p : Node} (h : p.op.isTuple = false) :
    c.place p = c.leafPlace p.span p.op := by
  obtain ⟨span, op⟩ := p
  cases op <;> first | rfl | cases h

theorem memberPlace_isTuple {use : MemberUse} {receiver : Option Node} {index : List Node}
    {isVirtual : Bool} {s t : Machine σ} {p : Place}
    (h : c.memberPlace use receiver index isVirtual s = (.ok p, t)) : p.isTuple = false := by
  obtain ⟨m, u, -, h⟩ := Run.bind_eq_ok.1 h
  obtain ⟨r, u, -, h⟩ := Run.bind_eq_ok.1 h
  obtain ⟨vs, u, -, ⟨⟩⟩ := Run.bind_eq_ok.1 h
  rfl

/-- A target that is no tuple names a place that is none. -/
theorem leafPlace_isTuple {span : Span} {op : Op} {s t : Machine σ} {p : Place}
    (h : c.leafPlace span op s = (.ok p, t)) : p.isTuple = false := by
  cases op with
  | localRef | parameterRef | discard => cases h; rfl
  | declarationTarget | arrayElement =>
    obtain ⟨_, u, -, ⟨⟩⟩ := Run.bind_eq_ok.1 h
    rfl
  | fieldRef | propertyRef => exact c.memberPlace_isTuple h
  | _ => cases h

theorem leafPlace_leaves (span : Span) (op : Op) :
    (c.leafPlace span op >>= fun p => pure p.leaves) = c.leafPlace span op >>= fun p => pure [p] := by
  funext s
  refine Run.bind_congr fun p t h => ?_
  rw [Place.leaves_of_isTuple (c.leafPlace_isTuple h)]

mutual

/-- The places of the leaves are found from left to right, and no others. -/
theorem place_leaves : ∀ target : Node,
    (c.place target >>= fun p => pure p.leaves) = Run.mapList c.place target.leaves
  | .mk span op => by
    by_cases ht : op.isTuple = true
    · cases op with
      | tuple targets =>
        simp only [place, Node.leaves, ← places_leaves targets, Run.bind_assoc, Run.pure_bind,
          Place.leaves]
      | _ => cases ht
    · have leaf : (Node.mk span op).op.isTuple = false := Bool.eq_false_iff.2 ht
      rw [Node.leaves_of_isTuple leaf, c.place_of_isTuple leaf, c.leafPlace_leaves]
      simp only [Run.mapList, c.place_of_isTuple leaf, Run.pure_bind]

theorem places_leaves : ∀ targets : List Node,
    (c.places targets >>= fun ps => pure (Place.leavesAll ps)) =
      Run.mapList c.place (Node.leavesAll targets)
  | [] => rfl
  | target :: rest => by
    rw [Node.leavesAll, Run.mapList_append, ← place_leaves target, ← places_leaves rest]
    simp only [places, Place.leavesAll, Run.bind_assoc, Run.pure_bind]

end

/-- Finding the place of a target comes to a leaf in some state: the places of the leaves before
it have been found. -/
def Reaches (target : Node) (s : Machine σ) (p : Node) (t : Machine σ) : Prop :=
  ∃ before after ps, target.leaves = before ++ p :: after ∧
    Run.mapList c.place before s = (.ok ps, t)

theorem Reaches.isTuple {target p : Node} {s t : Machine σ} (h : c.Reaches target s p t) :
    p.op.isTuple = false := by
  obtain ⟨before, after, ps, listed, -⟩ := h
  have among : p ∈ target.leaves := by simp [listed]
  exact Node.isTuple_of_mem_leaves among

/-- Finding the place of a target fails exactly as finding that of a leaf does. -/
theorem place_failed_iff {target : Node} {s u : Machine σ} {e : Stop} :
    c.place target s = (.error e, u) ↔
      ∃ p t, c.Reaches target s p t ∧ c.leafPlace p.span p.op t = (.error e, u) := by
  have flat : c.place target s = (.error e, u) ↔
      Run.mapList c.place target.leaves s = (.error e, u) := by
    rw [← c.place_leaves target, Run.bind_eq_error]
    exact ⟨.inl, fun h => h.resolve_right nofun⟩
  rw [flat, Run.mapList_eq_error]
  constructor
  · rintro ⟨before, p, after, ps, t, listed, found, failed⟩
    have reaches : c.Reaches target s p t := ⟨before, after, ps, listed, found⟩
    exact ⟨p, t, reaches, c.place_of_isTuple reaches.isTuple ▸ failed⟩
  · rintro ⟨p, t, reaches, failed⟩
    have leaf : p.op.isTuple = false := reaches.isTuple
    obtain ⟨before, after, ps, listed, found⟩ := reaches
    exact ⟨before, p, after, ps, t, listed, found, c.place_of_isTuple leaf ▸ failed⟩

end Context

end OpTree
