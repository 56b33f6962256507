/-
Trees in two contexts. A tree and its copy with other types run alike where the
types close alike, whatever the operations are: there is a lemma for each operation
that evaluates operands. None of them mentions how operands are evaluated
beyond that the two contexts evaluate them alike, so the induction over nested
steps is taken once, in `OpTree.Proofs.Engine`.
-/
import OpTree.Proofs.Calls

namespace OpTree

open Run (AgreesBy)

/-- Two contexts in which bodies and dispatched calls run alike, and the nodes of
the terms too. -/
structure Context.AgreesOn {σ : Type} {host : Host σ} {W : WorldTerms host} (T : NodeTerms W)
    (c c' : Context σ) : Prop extends Context.Agrees W c c' where
  node : ∀ {x}, T.nodes x → Run.Agrees T.machine (c.eval x) (c'.eval (x.mapTypes T.types))

/-- What a loop with a condition runs in its scope. -/
def Context.whileRounds {σ : Type} (c : Context σ) (condition body : Node) (testFirst : Bool) :
    Run (Machine σ) Value := do
  if testFirst then Run.repeatWhile (c.guardedRound condition body) c.fuel
  else if ← c.execBody body then Run.repeatWhile (c.guardedRound condition body) c.fuel
  return .void

/-- What a loop with steps runs in its scope. -/
def Context.forRounds {σ : Type} (c : Context σ) (before : List Node) (condition : Option Node)
    (after : List Node) (body : Node) : Run (Machine σ) Value := do
  Run.forList c.exec before
  Run.repeatWhile (c.steppedRound condition after body) c.fuel
  return .void

namespace Context.AgreesOn

variable {σ : Type} {host : Host σ} {W : WorldTerms host} {T : NodeTerms W} {c c' : Context σ}
  (h : c.AgreesOn T c')

include h

/-! ## Operands -/

theorem nodes {xs : List Node} (hx : ∀ x ∈ xs, T.nodes x) :
    Run.Agrees T.machine (c.evalList xs) (c'.evalList (Node.mapTypesAll T.types xs)) := by
  induction xs with
  | nil => exact .pure []
  | cons x xs ih =>
    refine .bind (h.node (hx x (by simp))) fun v => .bind (ih fun y hy => hx y (by simp [hy])) ?_
    exact fun vs => .pure (v :: vs)

theorem exec {x : Node} (hx : T.nodes x) :
    Run.Agrees T.machine (c.exec x) (c'.exec (x.mapTypes T.types)) :=
  .bind (h.node hx) fun _ => .pure ()

theorem execEach {xs : List Node} (hx : ∀ x ∈ xs, T.nodes x) :
    Run.Agrees T.machine (Run.forList c.exec xs)
      (Run.forList c'.exec (Node.mapTypesAll T.types xs)) := by
  induction xs with
  | nil => exact .pure ()
  | cons x xs ih =>
    exact .bind (h.exec (hx x (by simp))) fun _ => ih fun y hy => hx y (by simp [hy])

theorem test {x : Node} (hx : T.nodes x) :
    Run.Agrees T.machine (c.test x) (c'.test (x.mapTypes T.types)) :=
  .bind (h.node hx) fun v => .ofExcept v.asBool

theorem receiverFor (m : ResolvedMember) {receiver : Option Node}
    (hx : ∀ x ∈ receiver.toList, T.nodes x)
    (alone : ¬T.self → receiver = none → host.hasReceiver m.symbol = false) :
    Run.Agrees T.machine (c.receiverFor m receiver)
      (c'.receiverFor m (Node.mapTypesOption T.types receiver)) := by
  cases receiver with
  | some x => exact .bind (h.node (hx x (by simp))) fun v => .pure (some v)
  | none =>
    simp only [Node.mapTypesOption, Context.receiverFor, h.of_host, h.of_host']
    by_cases self : T.self
    · refine .bind (.ofExcept _) fun member => .ite (fun _ => .pure none) fun _ => ?_
      exact .bind (.currentInstance self) fun o => .pure _
    · have alone := alone self rfl
      simp only [Host.hasReceiver] at alone
      cases hm : host.member m.symbol with
      | error e => exact .still fun _ _ _ _ => ⟨.error (.failed e), rfl, rfl⟩
      | ok member =>
        rw [hm] at alone
        have static : member.isStatic = true := by simpa using alone
        refine .still fun b s s' hs => ⟨.ok none, ?_, ?_⟩ <;>
          simp [Run.liftM_except, static]

/-- A member is reached with its receiver and its operands evaluated. -/
theorem onMember {α : Type} {use : MemberUse} {receiver : Option Node} {operands : List Node}
    (hu : ∀ t ∈ use.types, T.known t) (hr : ∀ x ∈ receiver.toList, T.nodes x)
    (ho : ∀ x ∈ operands, T.nodes x)
    (alone : ¬T.self → receiver = none → host.hasReceiver use.symbol = false)
    {k k' : ResolvedMember → Option Value → List Value → Run (Machine σ) α}
    (hk : ∀ m r vs, Run.Agrees T.machine (k m r vs) (k' m r vs)) :
    Run.Agrees T.machine
      (Run.closeMember use >>= fun m => c.receiverFor m receiver >>= fun r =>
        c.evalList operands >>= fun vs => k m r vs)
      (Run.closeMember (use.mapTypes T.types) >>= fun m =>
        c'.receiverFor m (Node.mapTypesOption T.types receiver) >>= fun r =>
          c'.evalList (Node.mapTypesAll T.types operands) >>= fun vs => k' m r vs) := by
  refine .tied (.closeMember hu) fun b m m' hm => ?_
  obtain ⟨rfl, hm⟩ := hm
  rw [← hm] at alone
  exact .seq (h.receiverFor m hr alone) fun r => .seq (h.nodes ho) fun vs => hk m r vs _

/-! ## Members -/

theorem readMember {use : MemberUse} {receiver : Option Node} {index : List Node} (isVirtual : Bool)
    (hu : ∀ t ∈ use.types, T.known t) (hr : ∀ x ∈ receiver.toList, T.nodes x)
    (hi : ∀ x ∈ index, T.nodes x)
    (alone : ¬T.self → receiver = none → host.hasReceiver use.symbol = false) :
    Run.Agrees T.machine (c.readMember use receiver index isVirtual)
      (c'.readMember (use.mapTypes T.types) (Node.mapTypesOption T.types receiver)
        (Node.mapTypesAll T.types index) isVirtual) :=
  h.onMember hu hr hi alone fun m receiver index =>
    .onWorld (h.getMember m receiver index isVirtual)

theorem invoke {use : MemberUse} {receiver : Option Node} {args : List Node} (isVirtual : Bool)
    (hu : ∀ t ∈ use.types, T.known t) (hr : ∀ x ∈ receiver.toList, T.nodes x)
    (ha : ∀ x ∈ args, T.nodes x)
    (alone : ¬T.self → receiver = none → host.hasReceiver use.symbol = false) :
    Run.Agrees T.machine (c.invoke use receiver args isVirtual)
      (c'.invoke (use.mapTypes T.types) (Node.mapTypesOption T.types receiver)
        (Node.mapTypesAll T.types args) isVirtual) :=
  h.onMember hu hr ha alone fun m receiver args =>
    .onWorld (h.callMember m receiver args isVirtual)

theorem callOperator {use : MemberUse} (hu : ∀ t ∈ use.types, T.known t) (args : List Value) :
    Run.Agrees T.machine (c.callOperator use args)
      (c'.callOperator (use.mapTypes T.types) args) :=
  .bind (.closeMember hu) fun m => .onWorld (h.callMember m none args false)

theorem applyBinary (op : BinaryOp) {operator : Option MemberUse}
    (known : ∀ t ∈ MemberUse.typesOption operator, T.known t) (l r : Value) :
    Run.Agrees T.machine (c.applyBinary op operator l r)
      (c'.applyBinary op (operator.map (MemberUse.mapTypes T.types)) l r) := by
  cases operator with
  | some use => exact h.callOperator known [l, r]
  | none => exact .ofExcept _

theorem evalFor (o : Value) {x : Node} (hx : T.nodes x) :
    Run.Agrees T.machine (c.evalFor o x) (c'.evalFor o (x.mapTypes T.types)) := by
  exact .between (h.node hx) (.receivers o)

theorem initializerArguments {args : List Node} (ha : ∀ x ∈ args, T.nodes x) :
    Run.Agrees T.machine (c.initializerArguments args)
      (c'.initializerArguments (Node.mapTypesAll T.types args)) := by
  refine .bind (.getsActivation fun _ _ h => h.prepared) fun prepared => ?_
  cases prepared with
  | nil => exact .bind (h.nodes ha) fun values => .pure (values, [])
  | cons values rest =>
    refine .bind (.modifyActivation (fun _ => ⟨rfl, rfl, rfl, rfl, rfl, rfl, fun _ => rfl⟩)
      (fun _ _ h => { h with prepared := rfl }) fun _ _ => ⟨rfl, rfl⟩) fun _ => ?_
    exact .pure (values, rest)

theorem runConstructorInitializer (self : T.self) {use : MemberUse} {args : List Node}
    (hu : ∀ t ∈ use.types, T.known t) (ha : ∀ x ∈ args, T.nodes x) :
    Run.Agrees T.machine (c.runConstructorInitializer use args)
      (c'.runConstructorInitializer (use.mapTypes T.types) (Node.mapTypesAll T.types args)) := by
  refine .bind (.closeMember hu) fun m => .bind (.onWorld (h.target m.symbol)) fun target => ?_
  cases target with
  | interpreted tree =>
    refine .bind (.currentInstance self) fun o => .bind (h.initializerArguments ha) fun found => ?_
    refine .tied (fun b => .onWorld (h.prepare _ _ _ _ _ b.world)) fun b a a' ha => ?_
    have ha : (NodeTerms.all W).Tied b.world { a with prepared := found.2 }
        { a' with prepared := found.2 } :=
      { frame := ha.frame, self := ha.self, alike := { ha.alike with prepared := rfl } }
    exact (AgreesBy.onWorld (h.runBody ha tree)).bind fun b₁ _ _ _ _ => Run.Agrees.pure _ b₁
  | physical | slot | staticSlot | frameSlot | accessors | bodiless | empty => exact .pure _

theorem createObject {use : MemberUse} {args : List Node} {initializer : Option Node}
    (hu : ∀ t ∈ use.types, T.known t) (ha : ∀ x ∈ args, T.nodes x)
    (hi : ∀ x ∈ initializer.toList, T.nodes x) :
    Run.Agrees T.machine (c.createObject use args initializer)
      (c'.createObject (use.mapTypes T.types) (Node.mapTypesAll T.types args)
        (Node.mapTypesOption T.types initializer)) := by
  simp only [Context.createObject, h.of_host, h.of_host']
  refine .bind (.closeMember hu) fun m => .bind (h.nodes ha) fun args => ?_
  refine .bind (.ofExcept _) fun constructor => ?_
  refine .bind (.onWorld (h.activateWith constructor m.containing args)) fun o => ?_
  cases initializer with
  | some x => exact .bind (h.evalFor _ (hi x (by simp))) fun _ => .pure _
  | none => exact .pure _

theorem createAnonymous {type : TypeRef} {initializers : List Node} (ht : T.known type)
    (hi : ∀ x ∈ initializers, T.nodes x) :
    Run.Agrees T.machine (c.createAnonymous type initializers)
      (c'.createAnonymous (T.types type) (Node.mapTypesAll T.types initializers)) := by
  refine .bind (.closeType ht) fun closed => .bind (.onWorld (h.activate closed [])) fun o => ?_
  refine .bind ?_ fun _ => .pure _
  induction initializers with
  | nil => exact .pure ()
  | cons x xs ih =>
    refine .bind (.bind (h.evalFor _ (hi x (by simp))) fun _ => .pure ()) fun _ => ?_
    exact ih fun y hy => hi y (by simp [hy])

/-! ## Arrays -/

theorem elementTarget {array : Node} {index : List Node} (ha : T.nodes array)
    (hi : ∀ x ∈ index, T.nodes x) :
    Run.Agrees T.machine (c.elementTarget array index)
      (c'.elementTarget (array.mapTypes T.types) (Node.mapTypesAll T.types index)) := by
  refine .bind (h.node ha) fun v => ?_
  split
  · exact .bind (h.nodes hi) fun values => .bind (.ofExcept _) fun is => .pure _
  · exact .fail _
  · exact .fail _

theorem readElement {array : Node} {index : List Node} (ha : T.nodes array)
    (hi : ∀ x ∈ index, T.nodes x) :
    Run.Agrees T.machine (c.readElement array index)
      (c'.readElement (array.mapTypes T.types) (Node.mapTypesAll T.types index)) :=
  .bind (h.elementTarget ha hi) fun _ =>
    .bind (.getsWorld fun _ _ _ hw => W.getElement hw _ _) fun r => .ofExcept r

theorem newLengths (rank : Nat) {dimensions : List Node} {initializer : Option Node}
    (hd : ∀ x ∈ dimensions, T.nodes x) :
    Run.Agrees T.machine (c.newLengths rank dimensions initializer)
      (c'.newLengths rank (Node.mapTypesAll T.types dimensions)
        (Node.mapTypesOption T.types initializer)) := by
  cases dimensions with
  | nil =>
    cases initializer with
    | some x =>
      simp only [Node.mapTypesAll, Node.mapTypesOption, Context.newLengths,
        Node.initializerShape_mapTypes]
      exact .pure _
    | none => exact .pure _
  | cons d ds =>
    exact .bind (h.nodes hd) fun values => .ofExcept _

theorem createArray {element : TypeRef} (rank : Nat) {dimensions : List Node}
    {initializer : Option Node} (he : T.known element) (hd : ∀ x ∈ dimensions, T.nodes x)
    (hi : ∀ x ∈ initializer.toList, T.nodes x) :
    Run.Agrees T.machine (c.createArray element rank dimensions initializer)
      (c'.createArray (T.types element) rank (Node.mapTypesAll T.types dimensions)
        (Node.mapTypesOption T.types initializer)) := by
  refine .bind (.closeType he) fun type => .bind (h.newLengths rank hd) fun ns => ?_
  refine .ite (fun _ => .fail _) fun _ => .bind (.onWorld (W.newArray type _)) fun a => ?_
  cases initializer with
  | some x =>
    exact .bind (.between (h.node (hi x (by simp))) (.arrayInits ⟨a, []⟩)) fun _ => .pure _
  | none => exact .pure _

theorem fillItems {items : List Node} (hx : ∀ x ∈ items, T.nodes x) : ∀ position,
    Run.Agrees T.machine (c.fillItems position items)
      (c'.fillItems position (Node.mapTypesAll T.types items)) := by
  induction items with
  | nil => exact fun _ => .pure ()
  | cons x xs ih =>
    intro position
    have node := h.node (hx x (by simp))
    have rest (_ : Unit) := ih (fun y hy => hx y (by simp [hy])) (position + 1)
    simp only [Context.fillItems, Node.mapTypesAll, Node.initializerItems?_mapTypes]
    cases x.initializerItems? with
    | some items =>
      exact .bind (.between node (.innerPath position)) fun _ => rest ()
    | none =>
      refine .bind node fun v => .bind (.getsActivation fun _ _ h => h.arrayInits) fun inits => ?_
      cases inits with
      | nil => exact .bind (.fail _) rest
      | cons init _ => exact .bind (.onWorld (W.setElement _ _ v)) rest

theorem fillArray {items : List Node} (hx : ∀ x ∈ items, T.nodes x) :
    Run.Agrees T.machine (c.fillArray items)
      (c'.fillArray (Node.mapTypesAll T.types items)) := by
  refine .bind (.getsActivation fun _ _ h => h.arrayInits) fun inits => ?_
  cases inits with
  | nil => exact .fail _
  | cons init _ => exact .bind (h.fillItems hx 0) fun _ => .pure _

/-! ## Statements -/

theorem execStatements {statements : List Node} (hx : ∀ x ∈ statements, T.nodes x) :
    Run.Agrees T.machine (c.execStatements statements)
      (c'.execStatements (Node.mapTypesAll T.types statements)) := by
  induction statements with
  | nil => exact .pure ()
  | cons x xs ih =>
    refine .bind (h.exec (hx x (by simp))) fun _ =>
      .bind (.getsActivation fun _ _ h => h.interrupted) fun interrupted => ?_
    exact .ite (fun _ => .pure ()) fun _ => ih fun y hy => hx y (by simp [hy])

theorem runBlock {statements : List Node} (hx : ∀ x ∈ statements, T.nodes x) :
    Run.Agrees T.machine (c.runBlock statements)
      (c'.runBlock (Node.mapTypesAll T.types statements)) :=
  .withScope (.bind (h.execStatements hx) fun _ => .pure _)

theorem declareVariable (name : String) {initializer : Option Node}
    (hi : ∀ x ∈ initializer.toList, T.nodes x) :
    Run.Agrees T.machine (c.declareVariable name initializer)
      (c'.declareVariable name (Node.mapTypesOption T.types initializer)) := by
  cases initializer with
  | some x =>
    refine .bind (h.node (hi x (by simp))) fun v => ?_
    exact .bind (.defineLocal name v) fun _ => .pure _
  | none => exact .bind (.declareLocal name) fun _ => .pure _

theorem choose {condition whenTrue : Node} {whenFalse : Option Node} (hc : T.nodes condition)
    (ht : T.nodes whenTrue) (hf : ∀ x ∈ whenFalse.toList, T.nodes x) :
    Run.Agrees T.machine (c.choose condition whenTrue whenFalse)
      (c'.choose (condition.mapTypes T.types) (whenTrue.mapTypes T.types)
        (Node.mapTypesOption T.types whenFalse)) := by
  refine .bind (h.test hc) fun b => .ite (fun _ => .withScope (h.node ht)) fun _ => ?_
  cases whenFalse with
  | some x => exact .withScope (h.node (hf x (by simp)))
  | none => exact .pure _

theorem execBody (loud : ¬T.quiet) {body : Node} (hb : T.nodes body) :
    Run.Agrees T.machine (c.execBody body) (c'.execBody (body.mapTypes T.types)) := by
  exact .bind (h.exec hb) fun _ => .bind (.loopExit loud) fun stops => .pure _

theorem guardedRound (loud : ¬T.quiet) {condition body : Node} (hc : T.nodes condition)
    (hb : T.nodes body) :
    Run.Agrees T.machine (c.guardedRound condition body)
      (c'.guardedRound (condition.mapTypes T.types) (body.mapTypes T.types)) :=
  .bind (h.test hc) fun _ => .ite (fun _ => h.execBody loud hb) fun _ => .pure false

theorem whileRounds (loud : ¬T.quiet) {condition body : Node} (testFirst : Bool)
    (hc : T.nodes condition) (hb : T.nodes body) :
    Run.Agrees T.machine (c.whileRounds condition body testFirst)
      (c'.whileRounds (condition.mapTypes T.types) (body.mapTypes T.types) testFirst) := by
  have rounds := (h.guardedRound loud hc hb).repeatWhile _ _ h.fuel
  cases testFirst with
  | true => exact .bind rounds fun _ => .pure _
  | false =>
    refine .bind (h.execBody loud hb) fun goes => .ite (fun _ => ?_) fun _ => .pure _
    exact .bind rounds fun _ => .pure _

theorem runWhile (loud : ¬T.quiet) {condition body : Node} (testFirst : Bool)
    (hc : T.nodes condition) (hb : T.nodes body) :
    Run.Agrees T.machine (c.runWhile condition body testFirst)
      (c'.runWhile (condition.mapTypes T.types) (body.mapTypes T.types) testFirst) :=
  .withScope (h.whileRounds loud testFirst hc hb)

theorem steppedRound (loud : ¬T.quiet) {condition : Option Node} {after : List Node} {body : Node}
    (hc : ∀ x ∈ condition.toList, T.nodes x) (ha : ∀ x ∈ after, T.nodes x) (hb : T.nodes body) :
    Run.Agrees T.machine (c.steppedRound condition after body)
      (c'.steppedRound (Node.mapTypesOption T.types condition) (Node.mapTypesAll T.types after)
        (body.mapTypes T.types)) := by
  have body (goes : Bool) : Run.Agrees T.machine _ _ :=
    .ite (c := goes = true) (fun _ => .bind (h.execBody loud hb) fun goes =>
      .ite (c := goes = true) (fun _ => .bind (h.execEach ha) fun _ => .pure true)
        fun _ => .pure false) fun _ => .pure false
  cases condition with
  | some x => exact .bind (h.test (hc x (by simp))) body
  | none => exact .bind (.pure true) body

theorem forRounds (loud : ¬T.quiet) {before : List Node} {condition : Option Node}
    {after : List Node} {body : Node} (hb : ∀ x ∈ before, T.nodes x)
    (hc : ∀ x ∈ condition.toList, T.nodes x) (ha : ∀ x ∈ after, T.nodes x) (hx : T.nodes body) :
    Run.Agrees T.machine (c.forRounds before condition after body)
      (c'.forRounds (Node.mapTypesAll T.types before) (Node.mapTypesOption T.types condition)
        (Node.mapTypesAll T.types after) (body.mapTypes T.types)) := by
  refine .bind (h.execEach hb) fun _ => ?_
  exact .bind ((h.steppedRound loud hc ha hx).repeatWhile _ _ h.fuel) fun _ => .pure _

theorem runFor (loud : ¬T.quiet) {before : List Node} {condition : Option Node} {after : List Node}
    {body : Node} (hb : ∀ x ∈ before, T.nodes x) (hc : ∀ x ∈ condition.toList, T.nodes x)
    (ha : ∀ x ∈ after, T.nodes x) (hx : T.nodes body) :
    Run.Agrees T.machine (c.runFor before condition after body)
      (c'.runFor (Node.mapTypesAll T.types before) (Node.mapTypesOption T.types condition)
        (Node.mapTypesAll T.types after) (body.mapTypes T.types)) :=
  .withScope (h.forRounds loud hb hc ha hx)

theorem execItems (loud : ¬T.quiet) (name : String) {body : Node} (hb : T.nodes body)
    (items : List Value) :
    Run.Agrees T.machine (c.execItems name body items)
      (c'.execItems name (body.mapTypes T.types) items) := by
  induction items with
  | nil => exact .pure ()
  | cons item rest ih =>
    refine .bind (.withScope (.bind (.defineLocal name item) fun _ => h.execBody loud hb)) ?_
    intro goes
    exact .ite (fun _ => ih) fun _ => .pure ()

theorem runForEach (loud : ¬T.quiet) (name : String) {collection body : Node}
    (hc : T.nodes collection) (hb : T.nodes body) :
    Run.Agrees T.machine (c.runForEach name collection body)
      (c'.runForEach name (collection.mapTypes T.types) (body.mapTypes T.types)) := by
  refine .bind (h.node hc) fun v => .bind (.getsWorld fun _ _ _ hw => W.itemsOf hw v) fun items => ?_
  refine .bind (.ofExcept items) ?_
  exact fun items => .bind (h.execItems loud name hb items) fun _ => .pure _

theorem evalReturn (loud : ¬T.quiet) {value : Option Node} (hv : ∀ x ∈ value.toList, T.nodes x) :
    Run.Agrees T.machine (c.evalReturn value)
      (c'.evalReturn (Node.mapTypesOption T.types value)) := by
  have leave (v : Value) : Run.Agrees T.machine _ _ :=
    .bind (.modifyActivation (f := fun a => { a with pendingReturn := some v })
      (fun _ => ⟨rfl, rfl, rfl, rfl, rfl, rfl, fun h => h⟩) (fun _ _ h => { h with pendingReturn := rfl })
      fun hq => absurd hq loud) fun _ => .pure Value.void
  cases value with
  | some x => exact .bind (h.node (hv x (by simp))) leave
  | none => exact .bind (.pure _) leave

/-! ## Places -/

theorem memberPlace {use : MemberUse} {receiver : Option Node} {index : List Node}
    (isVirtual : Bool) (hu : ∀ t ∈ use.types, T.known t) (hr : ∀ x ∈ receiver.toList, T.nodes x)
    (hi : ∀ x ∈ index, T.nodes x)
    (alone : ¬T.self → receiver = none → host.hasReceiver use.symbol = false) :
    Run.Agrees T.machine (c.memberPlace use receiver index isVirtual)
      (c'.memberPlace (use.mapTypes T.types) (Node.mapTypesOption T.types receiver)
        (Node.mapTypesAll T.types index) isVirtual) :=
  h.onMember hu hr hi alone fun _ _ _ => .pure _

theorem leafPlace (span : Span) (op : Op) (hx : T.nodes (.mk span op)) :
    Run.Agrees T.machine (c.leafPlace span op)
      (c'.leafPlace span (op.mapTypes T.types)) := by
  have below {y : Node} (hy : y ∈ op.operands) : T.nodes y := T.operand hx hy
  have known {t : TypeRef} (ht : t ∈ op.types) : T.known t := T.mentions hx t ht
  have alone (hs : ¬T.self) : op.onInstance host = false := T.selfless hs hx
  cases op
  case localRef | parameterRef | discard => exact .pure _
  case declarationTarget name =>
    exact .bind (.declareLocal name) fun _ => .pure _
  case fieldRef field receiver =>
    exact h.memberPlace false (fun t ht => known (by simp [Op.types, ht])) (fun x hx => below hx)
      (by simp)
      fun hs hr => by subst hr; exact alone hs
  case propertyRef property receiver index isVirtual =>
    exact h.memberPlace isVirtual (fun t ht => known (by simp [Op.types, ht]))
      (fun x hx => below (by simp [Op.operands, hx]))
      (fun x hx => below (by simp [Op.operands, hx]))
      fun hs hr => by subst hr; exact alone hs
  case arrayElement array index =>
    refine .bind (h.elementTarget (below (by simp [Op.operands])) fun x hx => ?_) fun _ => .pure _
    exact below (by simp [Op.operands, hx])
  all_goals exact .orSpan span (.fail _)

omit h

mutual

theorem place (h : c.AgreesOn T c') : ∀ x : Node, T.nodes x →
    Run.Agrees T.machine (c.place x) (c'.place (x.mapTypes T.types))
  | .mk span op, hx => by
    cases op
    case tuple targets =>
      exact .bind (h.places targets fun x hy => T.operand hx hy) fun ps => .pure _
    all_goals
      simp only [Context.place, Node.mapTypes, Op.mapTypes]
      exact h.leafPlace span _ hx

theorem places (h : c.AgreesOn T c') : ∀ xs : List Node, (∀ x ∈ xs, T.nodes x) →
    Run.Agrees T.machine (c.places xs) (c'.places (Node.mapTypesAll T.types xs))
  | [], _ => .pure []
  | x :: xs, hx => .bind (h.place x (hx x (by simp))) fun p =>
      .bind (h.places xs fun y hy => hx y (by simp [hy])) fun ps => .pure (p :: ps)

end

include h

theorem load (p : Place) : Run.Agrees T.machine (c.load p) (c'.load p) := by
  cases p with
  | named name =>
    refine .still fun b s s' hs => ⟨_, rfl, ?_⟩
    simp only [Context.load, ← W.names hs.1 (T.sights hs.2.1.frame)]
    rfl
  | member m receiver index isVirtual => exact .onWorld (h.getMember m receiver index isVirtual)
  | element a is =>
    refine .still fun b s s' hs => ⟨_, rfl, ?_⟩
    simp only [Context.load, ← W.getElement hs.1]
    rfl
  | discard | tuple => exact .fail _

omit h

mutual

theorem store (h : c.AgreesOn T c') : ∀ (p : Place) (v : Value),
    Run.Agrees T.machine (c.store p v) (c'.store p v)
  | .named name, v =>
    .tied .currentFrame fun _ _ _ hf => .onWorld (W.assign name v (T.sights hf))
  | .member m receiver index isVirtual, v => .onWorld (h.setMember m receiver index v isVirtual)
  | .element a is, v => .onWorld (W.setElement a is v)
  | .discard, _ => .pure ()
  | .tuple targets, v => by
    cases v
    case tuple values => exact .ite (fun _ => h.storeAll targets values) fun _ => .fail _
    all_goals exact .fail _

theorem storeAll (h : c.AgreesOn T c') : ∀ (ps : List Place) (vs : List Value),
    Run.Agrees T.machine (c.storeAll ps vs) (c'.storeAll ps vs)
  | p :: ps, v :: vs => .bind (h.store p v) fun _ => h.storeAll ps vs
  | [], _ => .pure ()
  | _ :: _, [] => .pure ()

end

include h

theorem assign {target value : Node} (ht : T.nodes target) (hv : T.nodes value) :
    Run.Agrees T.machine (c.assign target value)
      (c'.assign (target.mapTypes T.types) (value.mapTypes T.types)) := by
  refine .bind (h.place target ht) fun p => .bind (h.node hv) fun v => ?_
  exact .bind (h.store p v) fun _ => .pure v

theorem compoundAssign (op : BinaryOp) {target value : Node} {operator : Option MemberUse}
    (known : ∀ t ∈ MemberUse.typesOption operator, T.known t) (ht : T.nodes target)
    (hv : T.nodes value) :
    Run.Agrees T.machine (c.compoundAssign op target value operator)
      (c'.compoundAssign op (target.mapTypes T.types) (value.mapTypes T.types)
        (operator.map (MemberUse.mapTypes T.types))) := by
  refine .bind (h.place target ht) fun p => .bind (h.load p) fun current => ?_
  refine .bind (h.node hv) fun rhs => .bind (h.applyBinary op known current rhs) fun result => ?_
  exact .bind (h.store p result) fun _ => .pure result

theorem increment {target : Node} (decrement postfixed : Bool) {operator : Option MemberUse}
    (known : ∀ t ∈ MemberUse.typesOption operator, T.known t) (ht : T.nodes target) :
    Run.Agrees T.machine (c.increment target decrement postfixed operator)
      (c'.increment (target.mapTypes T.types) decrement postfixed
        (operator.map (MemberUse.mapTypes T.types))) := by
  refine .bind (h.place target ht) fun p => .bind (h.load p) fun old => ?_
  have rest (new : Value) : Run.Agrees T.machine _ _ :=
    .bind (h.store p new) fun _ => .pure (if postfixed then old else new)
  cases operator with
  | some use => exact .bind (h.callOperator known [old]) rest
  | none => exact .bind (.ofExcept _) rest

/-! ## Operations -/

theorem evalBinary (op : BinaryOp) {left right : Node} {operator : Option MemberUse}
    (known : ∀ t ∈ MemberUse.typesOption operator, T.known t) (hl : T.nodes left)
    (hr : T.nodes right) :
    Run.Agrees T.machine (c.evalBinary op left right operator)
      (c'.evalBinary op (left.mapTypes T.types) (right.mapTypes T.types)
        (operator.map (MemberUse.mapTypes T.types))) := by
  simp only [Context.evalBinary, Option.isNone_map]
  refine .bind (h.node hl) fun l => ?_
  split
  · exact .ite (fun _ => .pure _) fun _ => .bind (h.test hr) fun r => .pure _
  · exact .bind (h.node hr) fun r => h.applyBinary op known _ r

theorem evalUnary (op : UnaryOp) {operand : Node} {operator : Option MemberUse}
    (known : ∀ t ∈ MemberUse.typesOption operator, T.known t) (ho : T.nodes operand) :
    Run.Agrees T.machine (c.evalUnary op operand operator)
      (c'.evalUnary op (operand.mapTypes T.types) (operator.map (MemberUse.mapTypes T.types))) := by
  refine .bind (h.node ho) fun v => ?_
  cases operator with
  | some use => exact h.callOperator known [v]
  | none => exact .ofExcept _

theorem evalConversion {operand : Node} {target : TypeRef} (kind : ConversionKind)
    {operator : Option MemberUse} (ht : T.known target)
    (known : ∀ t ∈ MemberUse.typesOption operator, T.known t) (ho : T.nodes operand) :
    Run.Agrees T.machine (c.evalConversion operand target kind operator)
      (c'.evalConversion (operand.mapTypes T.types) (T.types target) kind
        (operator.map (MemberUse.mapTypes T.types))) := by
  refine .bind (h.node ho) fun v => ?_
  cases operator with
  | some use => exact h.callOperator known [v]
  | none =>
    simp only [Option.map_none, h.of_host, h.of_host']
    exact .bind (.closeType ht) fun type => .ofStop (host.convert_agrees h.fuel v kind type)

theorem evalIsType {operand : Node} {target : TypeRef} (negated : Bool) (ht : T.known target)
    (ho : T.nodes operand) :
    Run.Agrees T.machine (c.evalIsType operand target negated)
      (c'.evalIsType (operand.mapTypes T.types) (T.types target) negated) := by
  simp only [Context.evalIsType, h.of_host, h.of_host']
  refine .bind (h.node ho) fun v => .bind (.closeType ht) fun type => ?_
  refine .ite (fun _ => .pure _) fun _ => ?_
  exact .bind (.ofStop (host.accepts_agrees h.fuel v type)) fun _ => .pure _

theorem evalCoalesce {value whenNull : Node} (hv : T.nodes value) (hn : T.nodes whenNull) :
    Run.Agrees T.machine (c.evalCoalesce value whenNull)
      (c'.evalCoalesce (value.mapTypes T.types) (whenNull.mapTypes T.types)) :=
  .bind (h.node hv) fun v => .ite (fun _ => h.node hn) fun _ => .pure v

theorem evalConditionalAccess {receiver whenNotNull : Node} (hr : T.nodes receiver)
    (hn : T.nodes whenNotNull) :
    Run.Agrees T.machine (c.evalConditionalAccess receiver whenNotNull)
      (c'.evalConditionalAccess (receiver.mapTypes T.types) (whenNotNull.mapTypes T.types)) := by
  refine .bind (h.node hr) fun v => .ite (fun _ => .pure _) fun _ => ?_
  exact .between (h.node hn) (.conditionals v)

theorem evalInterpolation {value : Node} {alignment : Option Node} (format : Option String)
    (hv : T.nodes value) (ha : ∀ x ∈ alignment.toList, T.nodes x) :
    Run.Agrees T.machine (c.evalInterpolation value alignment format)
      (c'.evalInterpolation (value.mapTypes T.types) (Node.mapTypesOption T.types alignment)
        format) := by
  refine .bind (h.node hv) fun v => ?_
  have text (width : Option Int) : Run.Agrees T.machine _ _ :=
    .bind (.ofExcept (v.format format width)) fun text => .pure (Value.text text)
  cases alignment with
  | some x =>
    refine .bind (h.node (ha x (by simp))) fun w => .bind (.ofExcept _) fun n => ?_
    exact .bind (.pure _) text
  | none => exact .bind (.pure _) text

theorem evalOp {span : Span} {op : Op} (hx : T.nodes (.mk span op)) :
    Run.Agrees T.machine (c.evalOp op) (c'.evalOp (op.mapTypes T.types)) := by
  have below {y : Node} (hy : y ∈ op.operands) : T.nodes y := T.operand hx hy
  have known {t : TypeRef} (ht : t ∈ op.types) : T.known t := T.mentions hx t ht
  have loud (hs : op.signals = true) : ¬T.quiet := fun hq => by
    have hsilent : op.signals = false := T.silent hq hx
    rw [hs] at hsilent
    cases hsilent
  have alone (hs : ¬T.self) : op.onInstance host = false := T.selfless hs hx
  have own (hi : op.onInstance host = true) : T.self := Classical.byContradiction fun hs => by
    rw [alone hs] at hi
    cases hi
  cases op with
  | literal | interpolatedText | empty => exact .pure _
  | defaultValue type | typeOf type =>
    exact .bind (.closeType (known (by simp [Op.types]))) fun _ => .pure _
  | localRef name | parameterRef name => exact h.load (.named name)
  | this => exact .bind (.currentInstance (own rfl)) fun o => .pure _
  | implicitReceiver => exact .innermost _ fun _ _ h => h.receivers
  | conditionalInstance => exact .innermost _ fun _ _ h => h.conditionals
  | fieldRef field receiver =>
    exact h.readMember false (fun t ht => known (by simp [Op.types, ht])) (fun x hx => below hx)
      (by simp)
      fun hs hr => by subst hr; exact alone hs
  | propertyRef property receiver index isVirtual =>
    exact h.readMember isVirtual (fun t ht => known (by simp [Op.types, ht]))
      (fun x hx => below (by simp [Op.operands, hx]))
      (fun x hx => below (by simp [Op.operands, hx])) fun hs hr => by subst hr; exact alone hs
  | arrayElement array indices =>
    exact h.readElement (below (by simp [Op.operands])) fun x hx => below (by simp [Op.operands, hx])
  | binary op left right operator =>
    exact h.evalBinary op (fun t ht => known (by simp [Op.types, ht]))
      (below (by simp [Op.operands])) (below (by simp [Op.operands]))
  | unary op operand operator =>
    exact h.evalUnary op (fun t ht => known (by simp [Op.types, ht])) (below (by simp [Op.operands]))
  | conversion operand target kind operator =>
    exact h.evalConversion kind (known (by simp [Op.types]))
      (fun t ht => known (by simp [Op.types, ht])) (below (by simp [Op.operands]))
  | coalesce value whenNull =>
    exact h.evalCoalesce (below (by simp [Op.operands])) (below (by simp [Op.operands]))
  | conditionalAccess receiver whenNotNull =>
    exact h.evalConditionalAccess (below (by simp [Op.operands])) (below (by simp [Op.operands]))
  | isType operand target negated =>
    exact h.evalIsType negated (known (by simp [Op.types])) (below (by simp [Op.operands]))
  | assign target value | deconstruct target value =>
    exact h.assign (below (by simp [Op.operands])) (below (by simp [Op.operands]))
  | compoundAssign op target value operator =>
    exact h.compoundAssign op (fun t ht => known (by simp [Op.types, ht]))
      (below (by simp [Op.operands])) (below (by simp [Op.operands]))
  | increment target decrement postfixed operator =>
    exact h.increment decrement postfixed (fun t ht => known (by simp [Op.types, ht]))
      (below (by simp [Op.operands]))
  | invocation method receiver args isVirtual =>
    exact h.invoke isVirtual (fun t ht => known (by simp [Op.types, ht]))
      (fun x hx => below (by simp [Op.operands, hx]))
      (fun x hx => below (by simp [Op.operands, hx])) fun hs hr => by subst hr; exact alone hs
  | constructorInitializer constructor args =>
    exact h.runConstructorInitializer (own rfl) (fun t ht => known (by simp [Op.types, ht]))
      fun x hx => below hx
  | objectCreation constructor args initializer =>
    exact h.createObject (fun t ht => known (by simp [Op.types, ht]))
      (fun x hx => below (by simp [Op.operands, hx])) fun x hx => below (by simp [Op.operands, hx])
  | anonymousCreation type initializers =>
    exact h.createAnonymous (known (by simp [Op.types])) fun x hx => below hx
  | objectInitializer items => exact .bind (h.nodes fun x hx => below hx) fun _ => .pure _
  | arrayCreation element rank dimensions initializer =>
    exact h.createArray rank (known (by simp [Op.types]))
      (fun x hx => below (by simp [Op.operands, hx])) fun x hx => below (by simp [Op.operands, hx])
  | arrayInitializer items => exact h.fillArray fun x hx => below hx
  | tuple elements => exact .bind (h.nodes fun x hx => below hx) fun vs => .pure _
  | interpolatedString parts => exact .bind (h.nodes fun x hx => below hx) fun vs => .pure _
  | interpolation value alignment format =>
    exact h.evalInterpolation format (below (by simp [Op.operands]))
      fun x hx => below (by simp [Op.operands, hx])
  | block statements => exact h.runBlock fun x hx => below hx
  | expressionStatement expression =>
    exact .bind (h.exec (below (by simp [Op.operands]))) fun _ => .pure _
  | variableDeclaration name initializer => exact h.declareVariable name fun x hx => below hx
  | conditional condition whenTrue whenFalse =>
    exact h.choose (below (by simp [Op.operands])) (below (by simp [Op.operands]))
      fun x hx => below (by simp [Op.operands, hx])
  | whileLoop condition body testFirst =>
    exact h.runWhile (loud rfl) testFirst (below (by simp [Op.operands]))
      (below (by simp [Op.operands]))
  | forLoop before condition after body =>
    exact h.runFor (loud rfl) (fun x hx => below (by simp [Op.operands, hx]))
      (fun x hx => below (by simp [Op.operands, hx]))
      (fun x hx => below (by simp [Op.operands, hx])) (below (by simp [Op.operands]))
  | forEachLoop name collection body =>
    exact h.runForEach (loud rfl) name (below (by simp [Op.operands]))
      (below (by simp [Op.operands]))
  | branch kind =>
    exact .bind (.modifyActivation (fun _ => ⟨rfl, rfl, rfl, rfl, rfl, rfl, fun h => h⟩)
      (fun _ _ h => { h with branch := rfl }) fun hq => absurd hq (loud rfl)) fun _ => .pure _
  | returnWith value => exact h.evalReturn (loud rfl) fun x hx => below hx
  | declarationTarget | discard | throwWith | await | lambda | switch => exact .fail _

theorem evalNode {x : Node} (hx : T.nodes x) :
    Run.Agrees T.machine (c.evalNode x) (c'.evalNode (x.mapTypes T.types)) := by
  obtain ⟨span, op⟩ := x
  exact .orSpan span (h.evalOp hx)

end Context.AgreesOn

end OpTree
