/-
Compound assignment. `target op= value` finds the place of the target, reads it, evaluates
the value, applies the operator and writes to the place that it found. `target = target op value`
finds the place twice, once to write and once to read. When finding it has no effect, the
second time comes to the place of the first, since from a settled machine everything
evaluates as before, and then the two come to the same answer and leave the same behind
(`compoundAssign_expanded`): whatever the value does to the variables that the place was
found by, it is evaluated after both. Only the spans of errors differ, because the nodes do.

The two evaluations nest differently, so they are compared where all that they evaluate is
evaluated under one bound; that more steps give the same answer does the rest.
-/
import OpTree.Proofs.Effects
import OpTree.Proofs.Targets

namespace OpTree

/-! ## Answers without spans -/

/-- Without the span of an error. -/
def Stop.unspanned : Stop → Stop
  | .failed e => .failed { e with span := none }
  | .exhausted => .exhausted

/-- Two answers are the same but for the spans of errors. -/
def Stop.SameButSpans {α : Type} (r r' : Except Stop α) : Prop :=
  r.mapError Stop.unspanned = r'.mapError Stop.unspanned

theorem Stop.SameButSpans.exhausted {α : Type} {r r' : Except Stop α} (h : Stop.SameButSpans r r')
    (ended : r ≠ .error .exhausted) : r' ≠ .error .exhausted := by
  rintro rfl
  refine ended ?_
  rcases r with (e | _) | a <;> cases h
  rfl

theorem Stop.SameButSpans.eq_ok {α : Type} {a : α} {r : Except Stop α}
    (h : Stop.SameButSpans (.ok a) r) : r = .ok a := by
  rcases r with e | b <;> cases h
  rfl

namespace Run

variable {σ α β : Type}

/-- The run, with errors that have no spans. -/
def unspanned (m : Run σ α) : Run σ α := fun s => ((m s).1.mapError Stop.unspanned, (m s).2)

theorem unspanned_orSpan (span : Span) (m : Run σ α) : (orSpan span m).unspanned = m.unspanned := by
  funext s
  simp only [unspanned, orSpan]
  rcases m s with ⟨(e | _) | a, t⟩ <;> rfl

theorem unspanned_bind (m : Run σ α) (f : α → Run σ β) :
    (m >>= f).unspanned = m.unspanned >>= fun a => (f a).unspanned := by
  funext s
  simp only [unspanned, bind_def]
  rcases m s with ⟨e | a, t⟩ <;> rfl

end Run

/-! ## The two assignments -/

namespace Context

section agree

variable {σ : Type} {host : Host σ} {W : WorldTerms host} {c c' c₁ c₁' c₂ c₂' : Context σ}

theorem Agrees.place (h : c.Agrees W c') (target : Node) :
    Run.Agrees (NodeTerms.all W).machine (c.place target) (c'.place target) := by
  have place := h.onAll.place target trivial
  have hid : target.mapTypes (NodeTerms.all W).types = target := target.mapTypes_id
  rwa [hid] at place

theorem Agrees.applyBinary (h : c.Agrees W c') (op : BinaryOp) (operator : Option MemberUse)
    (l r : Value) : Run.Agrees (NodeTerms.all W).machine (c.applyBinary op operator l r)
      (c'.applyBinary op operator l r) := by
  have applied : Run.Agrees (NodeTerms.all W).machine (c.applyBinary op operator l r) _ :=
    h.onAll.applyBinary op (fun _ _ => trivial) l r
  have hid : operator.map (MemberUse.mapTypes (NodeTerms.all W).types) = operator :=
    MemberUse.map_mapTypes_id operator
  rwa [hid] at applied

end agree

variable {σ : Type} (c c₁ c₂ : Context σ)

/-- What comes after the place of a target has been found and read: the value, the operator, the
write. -/
def applyAndStore (op : BinaryOp) (value : Node) (operator : Option MemberUse) (p : Place)
    (current : Value) : Run (Machine σ) Value := do
  let operand ← c.eval value
  let result ← c.applyBinary op operator current operand
  c.store p result
  return result

/-- What `target = target op value` runs: within the assignment, `c₁` evaluates the operands of
the operator, and `c₂` those of the target. -/
def expandedAssign (inner : Span) (op : BinaryOp) (target value : Node)
    (operator : Option MemberUse) : Run (Machine σ) Value := do
  let p ← c.place target
  let v ← Run.orSpan inner (do
    let l ← c₂.evalNode target
    let r ← c₁.eval value
    c₁.applyBinary op operator l r)
  c.store p v
  return v

variable {c c₁ c₂} {op : BinaryOp} {target value : Node} {operator : Option MemberUse}

theorem Agrees.expandedAssign {host : Host σ} {W : WorldTerms host} {c' c₁' c₂' : Context σ}
    (h : c.Agrees W c') (h₁ : c₁.Agrees W c₁') (h₂ : c₂.Agrees W c₂') (inner : Span)
    (op : BinaryOp) (target value : Node) (operator : Option MemberUse) :
    Run.Agrees (NodeTerms.all W).machine (c.expandedAssign c₁ c₂ inner op target value operator)
      (c'.expandedAssign c₁' c₂' inner op target value operator) := by
  refine .bind (h.place target) fun p => .bind (.orSpan inner ?_) fun v => ?_
  · exact .bind (h₂.evalNode target) fun l => .bind (h₁.eval value) fun r =>
      h₁.applyBinary op operator l r
  · exact .bind (h.onAll.store p v) fun _ => .pure v

theorem Agrees.applyAndStore {host : Host σ} {W : WorldTerms host} {c' : Context σ}
    (h : c.Agrees W c') (p : Place) (current : Value) :
    Run.Agrees (NodeTerms.all W).machine (c.applyAndStore op value operator p current)
      (c'.applyAndStore op value operator p current) :=
  .bind (h.eval value) fun operand => .bind (h.applyBinary op operator current operand) fun v =>
    .bind (h.onAll.store p v) fun _ => .pure v

theorem evalBinary_strict (strict : op.isShortCircuit = false) (left right : Node) :
    c.evalBinary op left right operator = (do
      let l ← c.eval left
      let r ← c.eval right
      c.applyBinary op operator l r) := by
  simp only [evalBinary, strict, Bool.false_and]

theorem evalWithin_compoundAssign (host : Host σ) (n : Nat) (session : SessionId) (span : Span) :
    evalWithin host (n + 1) session (.mk span (.compoundAssign op target value operator)) =
      Run.orSpan span ((within host n session).compoundAssign op target value operator) := rfl

theorem evalWithin_expanded (host : Host σ) (n : Nat) (session : SessionId)
    (strict : op.isShortCircuit = false) (outer inner : Span) :
    evalWithin host (n + 3) session
        (.mk outer (.assign target (.mk inner (.binary op target value operator)))) =
      Run.orSpan outer ((within host (n + 2) session).expandedAssign (within host (n + 1) session)
        (within host n session) inner op target value operator) := by
  have assigned : evalWithin host (n + 3) session
      (.mk outer (.assign target (.mk inner (.binary op target value operator)))) =
        Run.orSpan outer ((within host (n + 2) session).assign target
          (.mk inner (.binary op target value operator))) := rfl
  have binary : (within host (n + 2) session).eval (.mk inner (.binary op target value operator)) =
      Run.orSpan inner ((within host (n + 1) session).evalBinary op target value operator) := rfl
  rw [assigned, assign, binary, evalBinary_strict strict]
  rfl

theorem expandedAssign_more {host : Host σ} {session : SessionId} {n n₁ n₂ m m₁ m₂ : Nat}
    (hn : n ≤ m) (hn₁ : n₁ ≤ m₁) (hn₂ : n₂ ≤ m₂) {outer inner : Span} {s t : Machine σ}
    {r : Except Stop Value} (came : Run.orSpan outer ((within host n session).expandedAssign
      (within host n₁ session) (within host n₂ session) inner op target value operator) s = (r, t))
    (ended : r ≠ .error .exhausted) :
    Run.orSpan outer ((within host m session).expandedAssign (within host m₁ session)
      (within host m₂ session) inner op target value operator) s = (r, t) := by
  have agrees := (within_more host hn session).expandedAssign (within_more host hn₁ session)
    (within_more host hn₂ session) inner op target value operator
  exact (agrees.orSpan outer).more rfl came ended

/-- What can be read and written is read by finding its place and reading that. -/
theorem evalOp_place (place : target.op.isPlace = true) :
    c.evalOp target.op = c.place target >>= c.load := by
  obtain ⟨span, op⟩ := target
  cases op with
  | localRef | parameterRef => rfl
  | fieldRef m receiver =>
    simp only [Node.op, evalOp, Context.place, leafPlace, memberPlace, Run.bind_assoc, Run.pure_bind]
    rfl
  | propertyRef m receiver index isVirtual =>
    simp only [Node.op, evalOp, Context.place, leafPlace, memberPlace, Run.bind_assoc, Run.pure_bind]
    rfl
  | arrayElement array index =>
    simp only [Node.op, evalOp, Context.place, leafPlace, readElement, Run.bind_assoc, Run.pure_bind]
    rfl
  | _ => cases place

theorem place_effectFree {host : Host σ} {session : SessionId} (place : target.op.isPlace = true)
    (free : ∀ x ∈ target.op.operands, x.EffectFree host session) (n : Nat) :
    Run.EffectFree host ((within host n session).place target) := by
  have leaf : target.op.isTuple = false := by
    cases h : target.op <;> rw [h] at place <;> first | rfl | cases place
  rw [place_of_isTuple _ leaf]
  exact leafPlace_effectFree target.span place fun x hx => (free x hx).run n

/-- Under one bound, the two assignments come to the same. -/
theorem expandedAssign_alike (host : Host σ) (n : Nat) (session : SessionId)
    (span outer inner : Span) (op : BinaryOp) (place : target.op.isPlace = true)
    (free : ∀ x ∈ target.op.operands, x.EffectFree host session) (value : Node)
    (operator : Option MemberUse) {s : Machine σ} (sound : s.Sound host) :
    let c := within host n session
    let compound := Run.orSpan span (c.compoundAssign op target value operator) s
    let expanded := Run.orSpan outer (c.expandedAssign c c inner op target value operator) s
    Stop.SameButSpans compound.1 expanded.1 ∧ s.AlikeSince compound.2 expanded.2 := by
  intro c compound expanded
  have self : c.Agrees (World.mirroring host) c := within_self (World.mirroring host) n session
  let find := c.place target
  let go (p q : Place) : Run (Machine σ) Value := c.load q >>= c.applyAndStore op value operator p
  have finds : Run.EffectFree host find := place_effectFree place free n
  obtain ⟨same, alike⟩ := finds.twice (k := go) (self.place target)
    (fun p => .bind (self.onAll.load p) (self.applyAndStore p)) sound
  -- but for spans, the one finds the place once and the other twice
  have once : (Run.orSpan span (c.compoundAssign op target value operator)).unspanned s =
      (find >>= fun p => go p p).unspanned s := by
    rw [Run.unspanned_orSpan]
    rfl
  have twice : (Run.orSpan outer (c.expandedAssign c c inner op target value operator)).unspanned s =
      (find >>= fun p => find >>= fun q => go p q).unspanned s := by
    simp only [expandedAssign, evalNode, evalOp_place place, go, applyAndStore,
      Run.unspanned_orSpan, Run.unspanned_bind, Run.bind_assoc]
    rfl
  obtain ⟨answer, state⟩ := Prod.mk.inj once
  obtain ⟨answer', state'⟩ := Prod.mk.inj twice
  refine ⟨answer.trans ((congrArg (Except.mapError Stop.unspanned) same).trans answer'.symm), ?_⟩
  rw [← state, ← state'] at alike
  exact alike

end Context

/-- With enough steps, evaluating the node comes to an answer. -/
def ComesTo {σ : Type} (host : Host σ) (session : SessionId) (x : Node) (s : Machine σ)
    (r : Except Stop Value) (t : Machine σ) : Prop :=
  r ≠ .error .exhausted ∧ ∃ n, evalWithin host n session x s = (r, t)

/-- **Compound assignment is assignment of the operator's result.** Take a target that can be read
and written, with operands that have no effect, and an operator that always evaluates both of
its operands. From any machine in which bodies run, `target op= value` comes to an answer
exactly when `target = target op value` does, and to the same but for the spans of errors; the
activation is left the same, and nothing that can be seen tells the worlds apart. When it
succeeds, the place has been found first, without effect, and then read, before the value is
evaluated; the operator, which may be a declared one, is applied to what was read, and its
result is written to the place that was found. -/
theorem compoundAssign_expanded {σ : Type} (host : Host σ) (session : SessionId)
    (span outer inner : Span) {op : BinaryOp} (strict : op.isShortCircuit = false) {target : Node}
    (place : target.op.isPlace = true) (free : ∀ x ∈ target.op.operands, x.EffectFree host session)
    (value : Node) (operator : Option MemberUse) {s : Machine σ} (sound : s.Sound host) :
    let compound := Node.mk span (.compoundAssign op target value operator)
    let expanded := Node.mk outer (.assign target (.mk inner (.binary op target value operator)))
    (∀ r t, ComesTo host session compound s r t → ∃ r' t', ComesTo host session expanded s r' t' ∧
      Stop.SameButSpans r r' ∧ s.AlikeSince t t') ∧
    (∀ r' t', ComesTo host session expanded s r' t' → ∃ r t, ComesTo host session compound s r t ∧
      Stop.SameButSpans r r' ∧ s.AlikeSince t t') ∧
    ∀ v t, ComesTo host session compound s (.ok v) t →
      ∃ n, let c := Context.within host n session
        ∃ p s₁ current s₂ operand s₃ s₄,
          c.place target s = (.ok p, s₁) ∧ s.Settles s₁ ∧
          c.load p s₁ = (.ok current, s₂) ∧
          c.eval value s₂ = (.ok operand, s₃) ∧
          c.applyBinary op operator current operand s₃ = (.ok v, s₄) ∧
          c.store p v s₄ = (.ok (), t) := by
  intro compound expanded
  have alike (n : Nat) := Context.expandedAssign_alike host n session span outer inner op place free
    value operator sound
  refine ⟨fun r t ⟨ended, m, came⟩ => ?_, fun r' t' ⟨ended, m, came⟩ => ?_, fun v t ⟨_, m, came⟩ => ?_⟩
  · cases m with
    | zero =>
      cases came
      exact absurd rfl ended
    | succ n =>
      obtain ⟨same, alike⟩ := alike n
      rw [Context.evalWithin_compoundAssign] at came
      rw [came] at same alike
      have ended := same.exhausted ended
      refine ⟨_, _, ⟨ended, n + 3, ?_⟩, same, alike⟩
      rw [Context.evalWithin_expanded host n session strict]
      exact Context.expandedAssign_more (n.le_add_right 2) n.le_succ n.le_refl rfl ended
  · have came := evalWithin_mono host (m.le_add_right 3) came ended
    rw [Context.evalWithin_expanded host m session strict] at came
    have came := Context.expandedAssign_more (m + 2).le_refl (m + 1).le_succ (m.le_add_right 2) came
      ended
    obtain ⟨same, alike⟩ := alike (m + 2)
    rw [came] at same alike
    have ended := Stop.SameButSpans.exhausted same.symm ended
    exact ⟨_, _, ⟨ended, m + 3, rfl⟩, same, alike⟩
  · cases m with
    | zero => cases came
    | succ n =>
      rw [Context.evalWithin_compoundAssign, Run.orSpan_eq_ok] at came
      obtain ⟨p, s₁, found, came⟩ := Run.bind_eq_ok.1 came
      obtain ⟨current, s₂, loaded, came⟩ := Run.bind_eq_ok.1 came
      obtain ⟨operand, s₃, evaluated, came⟩ := Run.bind_eq_ok.1 came
      obtain ⟨result, s₄, applied, came⟩ := Run.bind_eq_ok.1 came
      obtain ⟨⟨⟩, s₅, stored, ⟨⟩⟩ := Run.bind_eq_ok.1 came
      have settled := Context.place_effectFree place free n s sound
      rw [found] at settled
      exact ⟨n, p, s₁, current, s₂, operand, s₃, s₄, found, (settled nofun).1, loaded, evaluated,
        applied, stored⟩

/-! ## An index that changes -/

/-- A static method with an array and an index as parameters. -/
def countUp : Scripted.Program where
  types := [⟨⟨⟨1⟩, "Counter", .classType, true, 0, none, [], [⟨30⟩]⟩, .fresh⟩]
  members :=
    [⟨⟨⟨30⟩, "CountUp", ⟨1⟩, true, .source,
      .method [⟨"a", .array (.primitive .i32) 1⟩, ⟨"i", .primitive .i32⟩] (.primitive .i32) 0 false
        none⟩, none, none⟩]

namespace countUp

def node (op : Op) : Node := .mk .dummy op

/-- `a[i]`. -/
def element : Node := node (.arrayElement (node (.parameterRef "a")) [node (.parameterRef "i")])

/-- `i = 1`. -/
def step : Node := node (.assign (node (.parameterRef "i")) (node (.literal (.int .i32 1))))

/-- An array of two numbers. -/
def world : World Scripted.State :=
  { World.initial Scripted.State.initial with arrays := #[.filled [2] (.i32 10)] }

def entered : Except Stop Activation × World Scripted.State :=
  (Context.within countUp.host 1 ⟨0⟩).prepare ⟨30⟩ (.named ⟨1⟩ []) [] none
    [.array ⟨0, .primitive .i32, 1⟩, .i32 0] world

/-- The method has been called with the array and the index 0. -/
def start : Machine Scripted.State :=
  ⟨entered.2, match entered.1 with
    | .ok a => a
    | .error _ => .start ⟨0⟩ none⟩

/-- `a[i] += (i = 1)` adds to the element that `i` named before, like `a[i] = a[i] + (i = 1)`. -/
theorem element_increased :
    let host := countUp.host
    let compound := node (.compoundAssign .add element step none)
    let expanded := node (.assign element (node (.binary .add element step none)))
    BinaryOp.add.isShortCircuit = false ∧ element.op.isPlace = true ∧
      (∀ x ∈ element.op.operands, x.EffectFree host ⟨0⟩) ∧ start.Sound host ∧
      ∃ t t', ComesTo host ⟨0⟩ compound start (.ok (.i32 11)) t ∧
        ComesTo host ⟨0⟩ expanded start (.ok (.i32 11)) t' ∧
        t.world.elements ⟨0, .primitive .i32, 1⟩ = [.i32 11, .i32 10] ∧
        t'.world.elements ⟨0, .primitive .i32, 1⟩ = [.i32 11, .i32 10] := by
  intro host compound expanded
  have strict : BinaryOp.add.isShortCircuit = false := rfl
  have place : element.op.isPlace = true := rfl
  have free : ∀ x ∈ element.op.operands, x.EffectFree host ⟨0⟩ := by
    have parameter (name : String) : (node (.parameterRef name)).EffectFree host ⟨0⟩ :=
      Node.ReadsOnly.effectFree (.mk rfl (by simp [Op.operands])) ⟨0⟩
    exact List.forall_mem_cons.2 ⟨parameter "a", List.forall_mem_singleton.2 (parameter "i")⟩
  have sound : start.Sound host := by
    have entered : (Context.within host 1 ⟨0⟩).prepare ⟨30⟩ (.named ⟨1⟩ []) [] none
        [.array ⟨0, .primitive .i32, 1⟩, .i32 0] world = (.ok start.activation, start.world) := rfl
    exact Context.prepare_sound ((World.Sound.initial _).stays_arrays _).sound entered
  obtain ⟨comes, -⟩ := compoundAssign_expanded host ⟨0⟩ .dummy .dummy .dummy strict place free step
    none sound
  have came : ComesTo host ⟨0⟩ compound start (.ok (.i32 11)) (evalWithin host 4 ⟨0⟩ compound start).2 :=
    ⟨by simp, 4, rfl⟩
  obtain ⟨r, t', came', same, alike⟩ := comes _ _ came
  obtain rfl := same.eq_ok
  obtain ⟨pairs, -, mirrors⟩ := alike.worlds
  refine ⟨strict, place, free, sound, _, t', came, came', rfl, ?_⟩
  rw [World.elements, World.cell?, ← mirrors.arrays]
  rfl

end countUp

end OpTree
