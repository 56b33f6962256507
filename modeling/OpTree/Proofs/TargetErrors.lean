/-
Where errors in targets are reported. Finding the place that a target names may fail in the
target itself, apart from what is evaluated below it: a name is declared twice, what should
be an array is none, an index is no number, a member cannot be closed or has no instance to
be reached on (`Context.Refuses`). As an expression the same node fails in the same way and
the error gets the node's span. As a target it hands the error on as it is, however deep in
a tuple the target stands, and the error gets the span of the whole assignment
(`Context.refusal_reported`). Two kinds of error are reported where they arise: those of
the nodes below the target, and that the target is no target at all.
-/
import OpTree.Proofs.Conversions
import OpTree.Proofs.Targets
import OpTree.Proofs.TypeMap

namespace OpTree

namespace Op

/-- What the operation writes to. -/
def target? : Op → Option Node
  | .assign target _ | .compoundAssign _ target _ _ | .increment target _ _ _
  | .deconstruct target _ => some target
  | _ => none

/-- The operation can be written to. -/
def isTarget : Op → Bool
  | .localRef _ | .parameterRef _ | .declarationTarget _ | .discard | .fieldRef .. | .propertyRef ..
  | .arrayElement .. | .tuple _ => true
  | _ => false

def isDeclaration : Op → Bool
  | .declarationTarget _ => true
  | _ => false

/-- The member that an operation reads or writes, its receiver and its indices. -/
def member? : Op → Option (MemberUse × Option Node × List Node × Bool)
  | .fieldRef field receiver => some (field, receiver, [], false)
  | .propertyRef property receiver index isVirtual => some (property, receiver, index, isVirtual)
  | _ => none

end Op

namespace Context

variable {σ : Type} (c : Context σ)

/-- A member cannot be reached: its use cannot be closed, or without a receiver it is unknown
or there is no instance to reach it on. -/
inductive MemberRefused (use : MemberUse) : Option Node → Machine σ → EvalError → Prop where
  | unclosed {receiver s e} : Run.closeMember use s = (.error (.failed e), s) →
      MemberRefused use receiver s e
  | unknown {s m e} : Run.closeMember use s = (.ok m, s) → c.host.member m.symbol = .error e →
      MemberRefused use none s e
  | noInstance {s m member} : Run.closeMember use s = (.ok m, s) →
      c.host.member m.symbol = .ok member → member.isStatic = false →
      s.activation.instanceFrame.bind s.world.frames.currentInstance? = none →
      MemberRefused use none s (.of .noCurrentInstance)

/-- Finding the place that an operation names fails in the operation itself, in the state that
its operands leave. -/
inductive Refuses : Op → Machine σ → EvalError → Machine σ → Prop where
  | redeclared {name s} : s.world.frames.isBound s.activation.frame name = true →
      Refuses (.declarationTarget name) s (.of (.redeclaration name)) s
  | nullArray {array index s t} : c.eval array s = (.ok .null, t) →
      Refuses (.arrayElement array index) s (.of (.nullReference "[]")) t
  | noArray {array index v s t} : c.eval array s = (.ok v, t) → v ≠ .null → (∀ a, v ≠ .array a) →
      Refuses (.arrayElement array index) s (.of (.typeMismatch "array" v.typeName)) t
  | noIndex {array index a values e s t u} : c.eval array s = (.ok (.array a), t) →
      c.evalList index t = (.ok values, u) → indices values = .error e →
      Refuses (.arrayElement array index) s e u
  | member {op use receiver index isVirtual s e} :
      op.member? = some (use, receiver, index, isVirtual) → c.MemberRefused use receiver s e →
      Refuses op s e s

variable {c}

theorem leafPlace_of_not_isTarget {op : Op} (h : op.isTarget = false) (span : Span) :
    c.leafPlace span op = Run.orSpan span (Run.fail (.unsupportedOperation op.kindName)) := by
  cases op <;> first | rfl | cases h

theorem leafPlace_of_member? {op : Op} {use : MemberUse} {receiver : Option Node}
    {index : List Node} {isVirtual : Bool} (h : op.member? = some (use, receiver, index, isVirtual))
    (span : Span) :
    c.leafPlace span op = c.memberPlace use receiver index isVirtual ∧
      c.evalOp op = c.readMember use receiver index isVirtual := by
  cases op <;> cases h <;> exact ⟨rfl, rfl⟩

theorem receiverFor_none {m : ResolvedMember} {member : MemberDescriptor}
    (known : c.host.member m.symbol = .ok member) (nonstatic : member.isStatic = false) :
    c.receiverFor m none = Run.currentInstance >>= fun o => pure (some (.object o)) := by
  funext s
  simp only [receiverFor, known, Run.liftM_except, Run.bind_def, Run.ofExcept_ok]
  rw [if_neg (by simp [nonstatic])]
  rfl

/-- What refuses to be reached is refused to whoever reaches it. -/
theorem MemberRefused.bind {α : Type} {use : MemberUse} {receiver : Option Node} {s : Machine σ}
    {e : EvalError} (h : c.MemberRefused use receiver s e)
    (next : ResolvedMember → Option Value → Run (Machine σ) α) :
    (Run.closeMember use >>= fun m => c.receiverFor m receiver >>= next m) s =
      (.error (.failed e), s) := by
  cases h with
  | unclosed closed => exact Run.bind_error closed
  | unknown closed unknown =>
    rw [Run.bind_ok closed]
    refine Run.bind_error (Run.bind_error ?_)
    rw [unknown]
    rfl
  | noInstance closed known nonstatic absent =>
    rw [Run.bind_ok closed, receiverFor_none known nonstatic]
    refine Run.bind_error ?_
    refine Run.bind_error ?_
    simp only [Run.currentInstance, absent]

theorem fails_declared {name : String} {s : Machine σ}
    (h : s.world.frames.isBound s.activation.frame name = true) :
    Run.declareLocal name s = (.error (.failed (.of (.redeclaration name))), s) := by
  obtain ⟨w, a⟩ := s
  simp only [Run.declareLocal, Run.currentFrame, Run.bind_def, Run.gets_def, Run.onWorld,
     World.declare, World.changeFrames, FrameStore.declare, FrameStore.insert] at h ⊢
  rw [if_pos h]
  rfl

/-- As a place and as an expression, the operation fails in the same way; the one that declares
a name is no expression. -/
theorem Refuses.failed {op : Op} {s t : Machine σ} {e : EvalError} (h : c.Refuses op s e t)
    (span : Span) : c.leafPlace span op s = (.error (.failed e), t) ∧
      (op.isDeclaration = false → c.evalOp op s = (.error (.failed e), t)) := by
  have element {array : Node} {index : List Node} (h : c.elementTarget array index s =
      (.error (.failed e), t)) : c.leafPlace span (.arrayElement array index) s =
        (.error (.failed e), t) ∧ (Op.isDeclaration (.arrayElement array index) = false →
          c.evalOp (.arrayElement array index) s = (.error (.failed e), t)) :=
    ⟨Run.bind_error h, fun _ => Run.bind_error h⟩
  cases h with
  | redeclared bound => exact ⟨Run.bind_error (fails_declared bound), nofun⟩
  | nullArray evaluated => exact element (Run.bind_ok evaluated)
  | @noArray _ _ v _ _ evaluated notNull noArray =>
    refine element ((Run.bind_ok evaluated).trans ?_)
    cases v with
    | null => exact absurd rfl notNull
    | array a => exact absurd rfl (noArray a)
    | _ => rfl
  | noIndex evaluated listed noIndex =>
    refine element ((Run.bind_ok evaluated).trans ((Run.bind_ok listed).trans ?_))
    rw [noIndex]
    rfl
  | member reads refused =>
    obtain ⟨placed, evaluated⟩ := leafPlace_of_member? (c := c) reads span
    rw [placed, evaluated]
    exact ⟨refused.bind _, fun _ => refused.bind _⟩

/-! ## No other errors -/

/-- The error is that of an operand, in some state. -/
def FailsBelow (c : Context σ) (op : Op) (e : EvalError) (t : Machine σ) : Prop :=
  ∃ x ∈ op.operands, ∃ s, c.eval x s = (.error (.failed e), t)

theorem evalList_failed {nodes : List Node} {s t : Machine σ} {e : EvalError}
    (h : c.evalList nodes s = (.error (.failed e), t)) :
    ∃ x ∈ nodes, ∃ s', c.eval x s' = (.error (.failed e), t) := by
  obtain ⟨before, x, after, vs, s', rfl, -, failed⟩ := Run.mapList_eq_error.1 h
  exact ⟨x, by simp, s', failed⟩

theorem declareLocal_failed {name : String} {s t : Machine σ} {e : EvalError}
    (h : Run.declareLocal name s = (.error (.failed e), t)) :
    c.Refuses (.declarationTarget name) s e t := by
  by_cases bound : s.world.frames.isBound s.activation.frame name = true
  · cases (fails_declared bound).symm.trans h
    exact .redeclared bound
  · obtain ⟨w, a⟩ := s
    simp only [Run.declareLocal, Run.currentFrame, Run.bind_def, Run.gets_def, Run.onWorld,
      World.declare, World.changeFrames, FrameStore.declare, FrameStore.insert] at h bound
    rw [if_neg bound] at h
    cases h

theorem receiverFor_failed {use : MemberUse} {m : ResolvedMember} {receiver : Option Node}
    {s t : Machine σ} {e : EvalError} (closed : Run.closeMember use s = (.ok m, s))
    (h : c.receiverFor m receiver s = (.error (.failed e), t)) :
    t = s ∧ c.MemberRefused use receiver s e ∨
      ∃ x ∈ receiver, ∃ s', c.eval x s' = (.error (.failed e), t) := by
  cases receiver with
  | some x =>
    rcases Run.bind_eq_error.1 h with h | ⟨v, u, -, ⟨⟩⟩
    exact .inr ⟨x, rfl, s, h⟩
  | none =>
    refine .inl ?_
    cases known : c.host.member m.symbol with
    | error e' =>
      simp only [receiverFor, known, Run.liftM_except, Run.bind_def, Run.ofExcept_error] at h
      cases h
      exact ⟨rfl, .unknown closed known⟩
    | ok member =>
      by_cases static : member.isStatic = true
      · simp only [receiverFor, known, Run.liftM_except, Run.bind_def, Run.ofExcept_ok] at h
        rw [if_pos static] at h
        cases h
      · rw [receiverFor_none known (Bool.eq_false_iff.2 static)] at h
        rcases Run.bind_eq_error.1 h with h | ⟨v, u, -, ⟨⟩⟩
        rw [Run.currentInstance] at h
        split at h
        · cases h
        · rename_i absent
          cases h
          exact ⟨rfl, .noInstance closed known (Bool.eq_false_iff.2 static) absent⟩

theorem memberPlace_failed {op : Op} {use : MemberUse} {receiver : Option Node}
    {index : List Node} {isVirtual : Bool} {s t : Machine σ} {e : EvalError}
    (reads : op.member? = some (use, receiver, index, isVirtual))
    (operands : op.operands = receiver.toList ++ index)
    (h : c.memberPlace use receiver index isVirtual s = (.error (.failed e), t)) :
    c.Refuses op s e t ∨ c.FailsBelow op e t := by
  rcases Run.bind_eq_error.1 h with h | ⟨m, u, closed, h⟩
  · cases (Run.closeMember_still use).eq h
    exact .inl (.member reads (.unclosed h))
  cases (Run.closeMember_still use).eq closed
  rcases Run.bind_eq_error.1 h with h | ⟨r, u, -, h⟩
  · rcases receiverFor_failed closed h with ⟨rfl, refused⟩ | ⟨x, hx, s', failed⟩
    · exact .inl (.member reads refused)
    · exact .inr ⟨x, by simp [operands, Option.mem_toList.2 hx], s', failed⟩
  rcases Run.bind_eq_error.1 h with h | ⟨vs, v, -, ⟨⟩⟩
  obtain ⟨x, hx, s', failed⟩ := evalList_failed h
  exact .inr ⟨x, by simp [operands, hx], s', failed⟩

theorem elementTarget_failed {array : Node} {index : List Node} {s t : Machine σ} {e : EvalError}
    (h : c.elementTarget array index s = (.error (.failed e), t)) :
    c.Refuses (.arrayElement array index) s e t ∨ c.FailsBelow (.arrayElement array index) e t := by
  rcases Run.bind_eq_error.1 h with h | ⟨v, u, evaluated, h⟩
  · exact .inr ⟨array, List.mem_cons_self, s, h⟩
  cases v with
  | array a =>
    rcases Run.bind_eq_error.1 h with h | ⟨values, v, listed, h⟩
    · obtain ⟨x, hx, s', failed⟩ := evalList_failed h
      exact .inr ⟨x, List.mem_cons_of_mem array hx, s', failed⟩
    rcases Run.bind_eq_error.1 h with h | ⟨is, v, -, ⟨⟩⟩
    obtain ⟨noIndex, rfl⟩ := Run.ofExcept_eq_failed.1 h
    exact .inl (.noIndex evaluated listed noIndex)
  | null =>
    cases h
    exact .inl (.nullArray evaluated)
  | _ =>
    cases h
    exact .inl (.noArray evaluated nofun nofun)

/-- A target that is no tuple fails by itself, in an operand, or because it is no target. -/
theorem leafPlace_failed {span : Span} {op : Op} (leaf : op.isTuple = false) {s t : Machine σ}
    {e : EvalError} (h : c.leafPlace span op s = (.error (.failed e), t)) :
    c.Refuses op s e t ∨ c.FailsBelow op e t ∨ op.isTarget = false ∧ t = s ∧
      e = (EvalError.of (.unsupportedOperation op.kindName)).orSpan span := by
  by_cases target : op.isTarget = true
  · cases op with
    | localRef | parameterRef | discard => cases h
    | declarationTarget name =>
      rcases Run.bind_eq_error.1 h with h | ⟨_, _, -, ⟨⟩⟩
      exact .inl (declareLocal_failed h)
    | fieldRef field receiver =>
      exact (memberPlace_failed rfl (List.append_nil _).symm h).imp_right .inl
    | propertyRef property receiver index isVirtual =>
      exact (memberPlace_failed rfl rfl h).imp_right .inl
    | arrayElement array index =>
      rcases Run.bind_eq_error.1 h with h | ⟨_, _, -, ⟨⟩⟩
      exact (elementTarget_failed h).imp_right .inl
    | tuple => cases leaf
    | _ => cases target
  · have target := Bool.eq_false_iff.2 target
    rw [leafPlace_of_not_isTarget target] at h
    cases h
    exact .inr (.inr ⟨target, rfl, rfl⟩)

/-! ## Spans -/

theorem closeMember_unspanned {use : MemberUse} {s t : Machine σ} {e : EvalError}
    (h : Run.closeMember use s = (.error (.failed e), t)) : e.span = none := by
  have resolved (q : GenericParam) (e : EvalError)
      (h : s.world.frames.genericArgument s.activation.frame q = .error e) : e.span = none := by
    simp only [FrameStore.genericArgument, GenericParam.argument] at h
    split at h
    · split at h
      · cases h
      · cases h
        rfl
    · cases h
      rfl
  obtain ⟨h, -⟩ := Run.ofExcept_eq_failed.1 h
  cases hc : use.containing.close (s.world.frames.genericArgument s.activation.frame) with
  | error e' =>
    rw [hc] at h
    cases h
    exact TypeRef.close_error (P := (·.span = none)) resolved _ hc
  | ok containing =>
    cases ha : TypeRef.closeAll (s.world.frames.genericArgument s.activation.frame) use.typeArgs with
    | error e' =>
      rw [hc, ha] at h
      cases h
      exact TypeRef.closeAll_error (P := (·.span = none)) resolved _ ha
    | ok args =>
      rw [hc, ha] at h
      cases h

theorem indices_unspanned : ∀ {values : List Value} {e : EvalError},
    indices values = .error e → e.span = none
  | [], _, h => by cases h
  | v :: values, e, h => by
    cases hv : v.asIndex with
    | error e' =>
      simp only [indices, hv] at h
      cases h
      cases v <;> cases hv <;> rfl
    | ok i =>
      cases hs : indices values with
      | error e' =>
        simp only [indices, hv, hs] at h
        cases h
        exact indices_unspanned hs
      | ok is =>
        simp only [indices, hv, hs] at h
        cases h

/-- What a target fails with by itself knows no span, unless it is the host's own error. -/
theorem Refuses.unspanned (unspanned : ∀ m e, c.host.member m = .error e → e.span = none)
    {op : Op} {s t : Machine σ} {e : EvalError} (h : c.Refuses op s e t) : e.span = none := by
  cases h with
  | redeclared | nullArray | noArray => rfl
  | noIndex _ _ noIndex => exact indices_unspanned noIndex
  | member _ refused =>
    cases refused with
    | unclosed closed => exact closeMember_unspanned closed
    | unknown _ unknown => exact unspanned _ _ unknown
    | noInstance => rfl

end Context

theorem evalWithin_spanned {σ : Type} {host : Host σ} {n : Nat} {session : SessionId} {x : Node}
    {s t : Machine σ} {e : EvalError}
    (h : evalWithin host n session x s = (.error (.failed e), t)) : e.span.isSome = true := by
  cases n with
  | zero => cases h
  | succ n =>
    simp only [evalWithin, Context.evalNode, Run.orSpan] at h
    split at h
    · cases h
      simp [EvalError.orSpan]
    · rename_i other
      exact absurd h (other _ _)

theorem EvalError.orSpan_of_isSome {e : EvalError} (h : e.span.isSome = true) (span : Span) :
    e.orSpan span = e := by
  obtain ⟨cause, _ | own, notes⟩ := e
  · cases h
  · rfl

namespace Context

variable {σ : Type} {c : Context σ}

theorem evalOp_failed {op : Op} {target : Node} (writes : op.target? = some target)
    {s t : Machine σ} {e : Stop} (h : c.place target s = (.error e, t)) :
    c.evalOp op s = (.error e, t) := by
  cases op <;> cases writes <;> exact Run.bind_error h

/-- **An error of a target itself is reported at the assignment.** Let finding the place of the
target of an assignment, a compound assignment, a step or a deconstruction come to a leaf of
the target. If the leaf fails by itself, the error leaves with the span of the whole, where
the leaf as an expression fails with the same error and its own span; the error has had no
span, unless the host that was asked for a member has given it one. That the leaf is no
target is reported with the leaf's span. Any other error of the leaf is that of an operand,
which has a span and keeps it. -/
theorem refusal_reported (host : Host σ) (n : Nat) (session : SessionId) (span : Span) {op : Op}
    {target p : Node} {s t : Machine σ} (writes : op.target? = some target)
    (reaches : (Context.within host n session).Reaches target s p t) :
    let c := Context.within host n session
    let statement := evalWithin host (n + 1) session (.mk span op) s
    (∀ e u, c.Refuses p.op t e u →
      statement = (.error (.failed (e.orSpan span)), u) ∧
      (p.op.isDeclaration = false →
        evalWithin host (n + 1) session p t = (.error (.failed (e.orSpan p.span)), u)) ∧
      ((∀ m e, host.member m = .error e → e.span = none) → e.span = none)) ∧
    (p.op.isTarget = false → statement =
      (.error (.failed ((EvalError.of (.unsupportedOperation p.op.kindName)).orSpan p.span)), t)) ∧
    ∀ e u, c.leafPlace p.span p.op t = (.error (.failed e), u) →
      c.Refuses p.op t e u ∨ p.op.isTarget = false ∨
        c.FailsBelow p.op e u ∧ e.span.isSome = true ∧ statement = (.error (.failed e), u) := by
  intro c statement
  have reported {e : EvalError} {u : Machine σ}
      (h : c.leafPlace p.span p.op t = (.error (.failed e), u)) :
      statement = (.error (.failed (e.orSpan span)), u) := by
    have failed : c.evalOp op s = (.error (.failed e), u) :=
      evalOp_failed writes (c.place_failed_iff.2 ⟨p, t, reaches, h⟩)
    exact Run.orSpan_of_failed failed
  refine ⟨fun e u refuses => ?_, fun noTarget => ?_, fun e u failed => ?_⟩
  · obtain ⟨placed, evaluated⟩ := refuses.failed p.span
    exact ⟨reported placed, fun expression => Run.orSpan_of_failed (evaluated expression),
      refuses.unspanned⟩
  · have placed : c.leafPlace p.span p.op t = (.error (.failed
        ((EvalError.of (.unsupportedOperation p.op.kindName)).orSpan p.span)), t) := by
      rw [leafPlace_of_not_isTarget noTarget]
      rfl
    rw [reported placed, EvalError.orSpan_of_isSome rfl]
  · rcases leafPlace_failed reaches.isTuple failed with refuses | below | ⟨noTarget, -⟩
    · exact .inl refuses
    · obtain ⟨x, hx, s', evaluated⟩ := below
      have spanned : e.span.isSome = true := evalWithin_spanned evaluated
      refine .inr (.inr ⟨⟨x, hx, s', evaluated⟩, spanned, ?_⟩)
      rw [reported failed, EvalError.orSpan_of_isSome spanned]
    · exact .inr (.inl noTarget)

end Context

/-! ## An element of null -/

namespace nullElement

/-- `null[0]`, which is a target as well as an expression. -/
def element : Node :=
  .mk ⟨4, 11⟩ (.arrayElement (.mk ⟨4, 8⟩ (.literal .null)) [.mk ⟨9, 10⟩ (.literal (.int .i32 0))])

def one : Node := .mk ⟨15, 16⟩ (.literal (.int .i32 1))

/-- `(x, null[0])`. -/
def pair : Node := .mk ⟨0, 12⟩ (.tuple [.mk ⟨1, 2⟩ (.localRef "x"), element])

def host : Host Scripted.State := Scripted.Program.host ⟨[], []⟩

def start : Machine Scripted.State := ⟨.initial .initial, .start ⟨0⟩ none⟩

def nullReference : EvalError := .of (.nullReference "[]")

/-- In a deconstruction, the element of null is reported with the span of the deconstruction;
as an expression it is reported with its own. -/
theorem element_reported :
    let c := Context.within host 1 ⟨0⟩
    (Op.deconstruct pair one).target? = some pair ∧ c.Reaches pair start element start ∧
      c.Refuses element.op start nullReference start ∧
      evalWithin host 2 ⟨0⟩ (.mk ⟨0, 16⟩ (.deconstruct pair one)) start =
        (.error (.failed (nullReference.withSpan ⟨0, 16⟩)), start) ∧
      evalWithin host 2 ⟨0⟩ element start =
        (.error (.failed (nullReference.withSpan ⟨4, 11⟩)), start) := by
  intro c
  have reaches : c.Reaches pair start element start :=
    ⟨[.mk ⟨1, 2⟩ (.localRef "x")], [], [.named "x"], rfl, rfl⟩
  have refuses : c.Refuses element.op start nullReference start := .nullArray rfl
  have writes : (Op.deconstruct pair one).target? = some pair := rfl
  obtain ⟨own, -⟩ := Context.refusal_reported host 1 ⟨0⟩ ⟨0, 16⟩ writes reaches
  obtain ⟨reported, evaluated, -⟩ := own _ _ refuses
  exact ⟨writes, reaches, refuses, reported, evaluated rfl⟩

/-- The element is the innermost node that fails, and the assignment to it leaves with another
span than the element's own. -/
theorem assignment_reported :
    let statement := Node.mk ⟨4, 16⟩ (.assign element one)
    ∀ n, evalWithin host (n + 2) ⟨0⟩ element start =
        (.error (.failed (nullReference.withSpan element.span)), start) ∧
      evalWithin host (n + 2) ⟨0⟩ statement start =
        (.error (.failed (nullReference.withSpan statement.span)), start) ∧
      statement.span ≠ element.span := by
  intro statement n
  exact ⟨rfl, rfl, by decide⟩

end nullElement

end OpTree
