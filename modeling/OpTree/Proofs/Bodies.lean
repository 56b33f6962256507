/-
Bodies of constructors, from how they begin to how they end. A leading initializer
is a call of another constructor, alone or as the first statement of a block
(`Node.Calls`); what a body comes to is read off its activation at the end
(`Run.asBody`). A body that succeeds within some steps succeeds so within more.
-/
import OpTree.Proofs.Growth

namespace OpTree

/-- The node is the call of a constructor by an initializer. -/
inductive Node.Calls (use : MemberUse) (args : List Node) : Node → Prop where
  | call {span} : Node.Calls use args (.mk span (.constructorInitializer use args))
  | statement {span span'} :
      Node.Calls use args (.mk span (.expressionStatement (.mk span' (.constructorInitializer use args))))

theorem Node.calls_of_op {x : Node} {use : MemberUse} {args : List Node}
    (h : (match (match x.op with | .expressionStatement e => e | _ => x).op with
      | .constructorInitializer use args => some (use, args)
      | _ => none) = some (use, args)) : x.Calls use args := by
  obtain ⟨span, op⟩ := x
  cases op
  case constructorInitializer => cases h; exact .call
  case expressionStatement e =>
    obtain ⟨span', op'⟩ := e
    cases op'
    case constructorInitializer => cases h; exact .statement
    all_goals cases h
  all_goals cases h

/-- A leading initializer is the first statement of a block or the body itself. -/
theorem Node.calls_of_leadingInitializer {body : Node} {use : MemberUse} {args : List Node}
    (h : body.leadingInitializer? = some (use, args)) :
    (∃ span first rest, body = .mk span (.block (first :: rest)) ∧ first.Calls use args) ∨
      (∀ statements, body.op ≠ .block statements) ∧ body.Calls use args := by
  obtain ⟨span, op⟩ := body
  cases op
  case block statements =>
    cases statements with
    | nil => cases h
    | cons first rest => exact .inl ⟨span, first, rest, rfl, Node.calls_of_op h⟩
  all_goals exact .inr ⟨by simp [Node.op], Node.calls_of_op h⟩

/-- A body that succeeds ends without a branch, and answers what it returned, or else what its
root came to. -/
theorem Run.asBody_eq_ok {σ : Type} {a : Activation} {m : Run (Machine σ) Value} {w w' : World σ}
    {v : Value} : asBody a m w = (.ok v, w') ↔ ∃ v' s, m ⟨w, a⟩ = (.ok v', s) ∧
      s.activation.branch = none ∧ v = s.activation.pendingReturn.getD v' ∧ w' = s.world := by
  simp only [asBody]
  rcases m ⟨w, a⟩ with ⟨e | v', s⟩
  · constructor
    · rintro ⟨⟩
    · rintro ⟨_, _, ⟨⟩, _⟩
  · cases hb : s.activation.branch <;> simp [hb, eq_comm, and_assoc]

namespace Context

section

variable {σ : Type} {host : Host σ} {session : SessionId} {n : Nat}

theorem eval_eq_ok {k : Nat} {x : Node} {s s' : Machine σ} {v : Value}
    (h : (Context.within host k session).eval x s = (.ok v, s')) :
    ∃ j, k = j + 1 ∧ (Context.within host j session).evalOp x.op s = (.ok v, s') := by
  cases k with
  | zero => cases h
  | succ j => exact ⟨j, rfl, Run.orSpan_eq_ok.1 h⟩

theorem eval_calls {x : Node} {use : MemberUse} {args : List Node} (hx : x.Calls use args) {k : Nat}
    {s s' : Machine σ} {v : Value} (h : (Context.within host k session).eval x s = (.ok v, s')) :
    ∃ j v', j ≤ k ∧ (v = v' ∨ v = .void) ∧
      (Context.within host j session).runConstructorInitializer use args s = (.ok v', s') := by
  cases hx with
  | call =>
    obtain ⟨j, rfl, hj⟩ := eval_eq_ok h
    exact ⟨j, v, by omega, .inl rfl, hj⟩
  | statement =>
    obtain ⟨k, rfl, hk⟩ := eval_eq_ok h
    have hk : ((Context.within host k session).exec _ >>= fun _ => pure Value.void) s = (.ok v, s') := hk
    simp only [exec, Run.bind_assoc, Run.bind_eq_ok] at hk
    obtain ⟨v', t, he, _, _, hu, hr⟩ := hk
    cases hu
    cases hr
    obtain ⟨j, rfl, hj⟩ := eval_eq_ok he
    exact ⟨j, v', by omega, .inr rfl, hj⟩

/-- Bodies start without a scope, a signal or an argument list. -/
theorem prepare_start {c : Context σ} {m : SymbolId} {type : ClosedType} {typeArgs : List ClosedType}
    {receiver : Option ObjectRef} {args : List Value} {w w' : World σ} {a : Activation}
    (h : c.prepare m type typeArgs receiver args w = (.ok a, w')) :
    ∃ base inst, a = .start base inst := by
  simp only [prepare, Run.bind_eq_ok] at h
  obtain ⟨d, w₁, hd, h⟩ := h
  split at h
  · cases h
  · simp only [Run.bind_eq_ok] at h
    obtain ⟨classFrame, w₂, hc, methodFrame, w₃, hm, _, w₄, hp, h⟩ := h
    cases receiver with
    | none => cases h; exact ⟨_, _, rfl⟩
    | some o =>
      simp only [Run.bind_eq_ok] at h
      obtain ⟨bound, w₅, hb, h⟩ := h
      cases bound with
      | some frame => cases h; exact ⟨_, _, rfl⟩
      | none =>
        simp only [Run.bind_eq_ok] at h
        obtain ⟨frame, w₆, hf, h⟩ := h
        cases h
        exact ⟨_, _, rfl⟩

theorem closeMember_closes {use : MemberUse} {s s' : Machine σ} {next : ResolvedMember}
    (h : Run.closeMember use s = (.ok next, s')) : next.symbol = use.symbol ∧
      use.containing.close (s.world.frames.genericArgument s.activation.frame) =
        .ok next.containing := by
  simp only [Run.closeMember, Run.ofExcept] at h
  obtain ⟨hr, -⟩ := Prod.mk.inj h
  cases hc : use.containing.close (s.world.frames.genericArgument s.activation.frame) with
  | error e => rw [hc] at hr; cases hr
  | ok containing =>
    rw [hc] at hr
    cases ht : TypeRef.closeAll (s.world.frames.genericArgument s.activation.frame) use.typeArgs with
    | error e =>
      simp only [ht] at hr
      cases hr
    | ok typeArgs =>
      simp only [ht] at hr
      cases hr
      exact ⟨rfl, rfl⟩

theorem closeMember_eq_ok {use : MemberUse} {s s' : Machine σ} {next : ResolvedMember}
    (h : Run.closeMember use s = (.ok next, s')) : s' = s ∧ next.symbol = use.symbol ∧
      ∀ a : Activation, a.frame = s.activation.frame →
        Run.closeMember use ⟨s.world, a⟩ = (.ok next, ⟨s.world, a⟩) := by
  have closes := closeMember_closes h
  simp only [Run.closeMember, Run.ofExcept] at h ⊢
  obtain ⟨hr, rfl⟩ := Prod.mk.inj h
  exact ⟨rfl, closes.1, fun a ha => by rw [ha, hr]⟩

theorem closeType_of_closeMember {use : MemberUse} {s s' : Machine σ} {next : ResolvedMember}
    (h : Run.closeMember use s = (.ok next, s')) :
    (Run.closeType use.containing s).1 = .ok next.containing := by
  rw [Run.closeType, (closeMember_closes h).2]
  rfl

theorem currentInstance_eq_ok {s s' : Machine σ} {o : ObjectRef}
    (h : Run.currentInstance s = (.ok o, s')) : s' = s ∧
      ∀ a : Activation, a.instanceFrame = s.activation.instanceFrame →
        Run.currentInstance ⟨s.world, a⟩ = (.ok o, ⟨s.world, a⟩) := by
  simp only [Run.currentInstance] at h ⊢
  split at h
  · rename_i o' ho
    cases h
    exact ⟨rfl, fun a ha => by rw [ha, ho]⟩
  · cases h

theorem evalList_mono {k : Nat} (hk : k ≤ n) {xs : List Node} {values : List Value}
    {s s' : Machine σ} (h : (Context.within host k session).evalList xs s = (.ok values, s')) :
    (Context.within host n session).evalList xs s = (.ok values, s') := by
  have agrees : Run.Agrees (NodeTerms.all (World.growing host True False)).machine
      ((Context.within host k session).evalList xs) ((Context.within host n session).evalList xs) :=
    .mapList fun x _ => (Context.within_more host hk session).eval x
  exact agrees.more rfl h nofun

theorem execStatements_mono {k : Nat} (hk : k ≤ n) {statements : List Node} {s s' : Machine σ}
    (h : (Context.within host k session).execStatements statements s = (.ok (), s')) :
    (Context.within host n session).execStatements statements s = (.ok (), s') := by
  have every : ∀ x ∈ statements, (NodeTerms.all (World.growing host True False)).nodes x :=
    fun _ _ => trivial
  have agrees := (Context.within_more host hk session).onAll.execStatements every
  have hid : Node.mapTypesAll (NodeTerms.all (World.growing host True False)).types statements =
    statements := Node.mapTypesAll_id statements
  rw [hid] at agrees
  exact agrees.more rfl h nofun

theorem runBody_mono {k : Nat} (hk : k ≤ n) {a : Activation} {body : Node} {w w' : World σ} {v : Value}
    (h : (Context.within host k session).runBody a body w = (.ok v, w')) :
    (Context.within host n session).runBody a body w = (.ok v, w') := by
  have tied : (NodeTerms.all (World.growing host True False)).Tied w a a := .itself rfl
  exact ((Context.within_more host hk session).runBody tied body).more h nofun

end

end Context

end OpTree
