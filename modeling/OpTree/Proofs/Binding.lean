/-
Making an object comes in three parts: the host makes it, the session binds it, and
the constructor's body runs (`activateBy_eq`). What lies before the binding evaluates
nothing of the constructors' bodies but the arguments of their leading initializers,
and those in activations without an instance. "Evaluates nothing else" is said of the
context: whatever the context's evaluation did with other nodes, or in activations with
an instance, the run up to the binding would be the same run (`makeUnbound_congr`). An
object that turns out to have a link already is where it ends.
-/
import OpTree.Proofs.Beforehand
import OpTree.Proofs.Bodies
import OpTree.Proofs.Caches
import OpTree.Proofs.Chain

namespace OpTree

/-- A body that is left to run for a new object, with the argument lists that were
evaluated beforehand. -/
structure PendingBody where
  constructor : SymbolId
  tree : Node
  prepared : List (List Value)

/-- The object is bound to a session as one of a type: it has a link to the session,
with the member table that the session keeps for the type. -/
def World.BoundAs {σ : Type} (w : World σ) (s : SessionId) (o : ObjectRef) (type : ClosedType) : Prop :=
  ∃ frame table, w.link? o = some (.session s frame table) ∧
    (w.session s).tables.get? type = some table

theorem World.BoundAs.grows {σ : Type} {host : Host σ} {w w' : World σ} {s : SessionId} {o : ObjectRef}
    {type : ClosedType} (h : w.BoundAs s o type) (hw : w.Grows host w') : w'.BoundAs s o type := by
  obtain ⟨frame, table, linked, kept⟩ := h
  exact ⟨frame, table, hw.links linked, (hw.sessions s).tables kept⟩

namespace Context

variable {σ : Type} (c : Context σ)

/-- Have an object made through a constructor, or through none where there is none to
run. -/
def activateBy (type : ClosedType) (descriptor : TypeDescriptor) (args : List Value) :
    Option MemberDescriptor → Run (World σ) ObjectRef
  | some constructor => c.activateWith constructor type args
  | none => c.activateImplicit type descriptor

/-- Make an object of a symbolic type, which nothing is bound to yet. -/
def makeUnbound (type : ClosedType) (args : List Value) :
    Option MemberDescriptor → Run (World σ) (ObjectRef × Option PendingBody)
  | none => do return (← c.manufacture type [], none)
  | some constructor =>
    if !constructor.kind.isConstructor then
      Run.fail (.typeMismatch "constructor" constructor.kind.name)
    else if constructor.arity ≠ args.length then
      Run.fail (.arityMismatch constructor.name constructor.arity args.length)
    else do
      match ← c.target constructor.symbol with
      | .interpreted tree =>
        let chain ← c.constructorChain c.fuel constructor.symbol type args
        return (← c.manufacture type chain.physical,
          some ⟨constructor.symbol, tree, chain.interpreted⟩)
      | .empty => return (← c.manufacture type [], none)
      | _ => Run.fail (.unresolvedMember constructor.name type.text "constructor cannot be activated")

/-- What is left to do for an object that is bound, with an instance frame. -/
def complete (type : ClosedType) (descriptor : TypeDescriptor) (args : List Value) (o : ObjectRef)
    (frame : FrameId) : Option PendingBody → Run (World σ) ObjectRef
  | some body => do
    let activation ← c.prepare body.constructor type [] (some o) args
    let _ ← c.runBody { activation with prepared := body.prepared } body.tree
    return o
  | none => do
    if descriptor.kind = .anonymous then c.declareProperties frame descriptor.members
    return o

/-- A node among the arguments of the leading initializer of a constructor, or of one
that the initializers lead to. -/
inductive LeadingArgument (w : World σ) (x : Node) : SymbolId → Prop where
  | here {m tree use args} : c.targetOf w m = .ok (.interpreted tree) →
      tree.leadingInitializer? = some (use, args) → x ∈ args → LeadingArgument w x m
  | next {m tree use args} : c.targetOf w m = .ok (.interpreted tree) →
      tree.leadingInitializer? = some (use, args) → LeadingArgument w x use.symbol →
      LeadingArgument w x m

/-- The other evaluation does the same with leading arguments in activations without an
instance; it may do anything with other nodes, and elsewhere. -/
def SameBeforehand (w : World σ) (m : SymbolId) (eval' : Node → Run (Machine σ) Value) : Prop :=
  ∀ x, c.LeadingArgument w x m → ∀ s : Machine σ, s.activation.instanceFrame = none →
    eval' x s = c.eval x s

section

variable {c} {w w' : World σ}

theorem targetOf_eq (h : w.Grows c.host w') (m : SymbolId) : c.targetOf w' m = c.targetOf w m := by
  have hs := h.sessions c.session
  cases ht : c.targetOf w m with
  | ok t => exact targetOf_grows h ht
  | error e =>
    rw [targetOf] at ht ⊢
    cases hw : (w.session c.session).targets.get? m with
    | some t => rw [hw] at ht; cases ht
    | none =>
      rw [hw] at ht
      cases hw' : (w'.session c.session).targets.get? m with
      | none => exact ht
      | some t =>
        -- nothing is decided anew where the host says that it cannot be
        rcases hs.decided hw' with hc | hd
        · rw [hw] at hc; cases hc
        · cases ht.symm.trans hd

theorem targetOf_of_target {m : SymbolId} {t : Target σ} (h : c.target m w = (.ok t, w')) :
    c.targetOf w m = .ok t := by
  cases ht : c.targetOf w m with
  | ok t' => cases (target_eq_ok ht h).1; rfl
  | error e =>
    rw [targetOf] at ht
    cases hw : (w.session c.session).targets.get? m with
    | some t => rw [hw] at ht; cases ht
    | none =>
      rw [hw] at ht
      rw [c.target_of_error hw ht] at h
      cases h

theorem parameters_grow {host : Host σ} {frame : FrameId} {bindings : List (Parameter × Value)}
    {r : Except Stop Unit}
    (h : Run.forList (fun p => World.define frame p.1.name p.2) bindings w = (r, w')) :
    w.Grows host w' := by
  let define := fun p : Parameter × Value => World.define (σ := σ) frame p.1.name p.2
  have agrees : Run.AgreesBy (World.growing host False False).toTerms w (fun _ => Eq)
      (Run.forList define bindings) (Run.forList define bindings) :=
    .forList fun p _ => (World.growing host False False).define p.1.name p.2 rfl
  exact agrees.grows h

variable (self : c.Agrees (World.growing c.host False False) c)
  {eval' : Node → Run (Machine σ) Value}

include self

theorem eval_instanceFrame (x : Node) (s : Machine σ) :
    (c.eval x s).2.activation.instanceFrame = s.activation.instanceFrame := by
  rcases (self.eval x).keepingMachine (s := s) rfl with ⟨-, -, rests, -⟩ | ⟨hl, -⟩ | ⟨hl, -⟩
  · exact rests.instanceFrame
  · exact hl.elim
  · exact hl.elim

theorem evalList_congr {nodes : List Node} {s : Machine σ} (hs : s.activation.instanceFrame = none)
    (same : ∀ x ∈ nodes, ∀ s : Machine σ, s.activation.instanceFrame = none →
      eval' x s = c.eval x s) :
    Context.evalList { c with eval := eval' } nodes s = c.evalList nodes s := by
  induction nodes generalizing s with
  | nil => rfl
  | cons x xs ih =>
    have first : eval' x s = c.eval x s := same x (by simp) s hs
    have rests := eval_instanceFrame self x s
    simp only [evalList, Run.mapList, Run.bind_def, first]
    rcases ran : c.eval x s with ⟨e | v, t⟩
    · rfl
    · rw [ran] at rests
      have others := ih (s := t) (rests.trans hs) fun y hy => same y (by simp [hy])
      simp only [evalList] at others
      simp only [others]

/-- Following leading initializers depends on evaluation in leading arguments only. -/
theorem constructorChain_congr (n : Nat) {m : SymbolId} (same : c.SameBeforehand w m eval')
    (type : ClosedType) (args : List Value) {w₁ : World σ} (hw : w.Grows c.host w₁) :
    Context.constructorChain { c with eval := eval' } n m type args w₁ =
      c.constructorChain n m type args w₁ := by
  induction n generalizing m type args w₁ with
  | zero => rfl
  | succ n ih =>
    simp only [constructorChain]
    refine Run.bind_congr fun target w₂ reached => ?_
    have hw₂ := hw.trans ((self.target m).grows (w := w₁) reached)
    cases target
    case interpreted tree =>
      have reaches : c.targetOf w m = .ok (.interpreted tree) := by
        rw [← targetOf_eq hw]
        exact targetOf_of_target reached
      dsimp only
      cases leads : tree.leadingInitializer? with
      | none => rfl
      | some link =>
        obtain ⟨use, nodes⟩ := link
        dsimp only
        refine Run.bind_congr fun member w₃ hm => ?_
        obtain rfl : w₂ = w₃ := congrArg Prod.snd hm
        split
        · rfl
        · split
          · rfl
          · refine Run.bind_congr fun classFrame w₄ hc => Run.bind_congr fun methodFrame w₅ hf => ?_
            refine Run.bind_congr fun _ w₆ hd => Run.bind_congr fun resolver w₇ hr => ?_
            refine Run.bind_congr fun nextType w₈ hn => Run.bind_congr fun nextTarget w₉ ht => ?_
            have arguments (t : World σ) : Run.within (.start methodFrame none)
                (Context.evalList { c with eval := eval' } nodes) t =
                Run.within (.start methodFrame none) (c.evalList nodes) t := by
              have alike := evalList_congr self (s := ⟨t, .start methodFrame none⟩) rfl
                fun x hx => same x (.here reaches leads hx)
              simp only [Run.within, alike]
            cases nextTarget
            case physical handle => simp only [Run.bind_def, arguments]
            case interpreted tree' =>
              dsimp only
              rw [Run.bind_def, arguments, ← Run.bind_def]
              refine Run.bind_congr fun values w₁₀ hv => ?_
              have later : w.Grows c.host w₁₀ := by
                obtain rfl : w₆ = w₇ := congrArg Prod.snd hr
                obtain rfl : w₆ = w₈ := congrArg Prod.snd hn
                let W := World.growing c.host False False
                have hw₄ := hw₂.trans ((W.classFrame w₂ _ _).grows hc)
                have hw₅ := hw₄.trans ((W.methodFrame m [] rfl).grows hf)
                have hw₆ := hw₅.trans (parameters_grow hd)
                exact (hw₆.trans ((self.target _).grows ht)).trans (arguments_grow self hv)
              have rest := ih (fun x hx => same x (.next reaches leads hx)) nextType values later
              simp only [Run.bind_def, rest]
            all_goals rfl
    all_goals rfl

omit self in
theorem bind_withEval (eval' : Node → Run (Machine σ) Value) (o : ObjectRef) (type : ClosedType) :
    Context.bind { c with eval := eval' } o type = c.bind o type := by
  let c' : Context σ := { c with eval := eval' }
  let T : Terms (World σ) := .keeping (fun _ _ => True) False False (fun _ => trivial)
    fun _ _ => trivial
  have registers (s : SessionId) (entry : RegistryEntry) :
      Run.Agrees T (World.register s entry) (World.register s entry) :=
    Run.agrees_keeping fun _ => trivial
  have levels : c'.registerLevels c.fuel type true (.empty type) =
      c.registerLevels c.fuel type true (.empty type) := by
    funext w
    have agrees := registerLevels_agrees (c := c') (show c.host = c'.host from rfl)
      (show c.session = c'.session from rfl) registers c.fuel c.fuel (.same _) type true (.empty type)
    rcases (agrees w).keeping with ⟨same, -⟩ | ⟨hl, -⟩ | ⟨hl, -⟩
    · exact same
    · exact hl.elim
    · exact hl.elim
  show c'.bind o type = c.bind o type
  simp only [Context.bind, memberTable, c', levels]

/-- Up to the binding, an activation depends on evaluation in leading arguments only. -/
theorem makeUnbound_congr {chosen : Option MemberDescriptor}
    (same : ∀ d ∈ chosen, c.SameBeforehand w d.symbol eval') (type : ClosedType) (args : List Value) :
    Context.makeUnbound { c with eval := eval' } type args chosen w =
      c.makeUnbound type args chosen w := by
  cases chosen with
  | none => rfl
  | some d =>
    simp only [makeUnbound]
    split
    · rfl
    · split
      · rfl
      · refine Run.bind_congr fun target w₁ reached => ?_
        cases target
        case interpreted tree =>
          have chain := constructorChain_congr self c.fuel (same d rfl) type args
            ((self.target d.symbol).grows (w := w) reached)
          simp only [Run.bind_def, chain]
          rfl
        all_goals rfl

omit self

/-- An activation of a symbolic type is the making of the object, its binding, and the
rest. -/
theorem activateBy_eq {type : ClosedType} {descriptor : TypeDescriptor}
    (described : c.host.descriptorOf type = .ok descriptor) (symbolic : descriptor.isSymbolic = true)
    (args : List Value) (chosen : Option MemberDescriptor) :
    c.activateBy type descriptor args chosen = (do
      let made ← c.makeUnbound type args chosen
      let frame ← c.bind made.1 type
      c.complete type descriptor args made.1 frame made.2) := by
  cases chosen with
  | none => simp only [activateBy, activateImplicit, makeUnbound, Run.bind_assoc]; rfl
  | some d =>
    simp only [activateBy, activateWith, makeUnbound]
    split
    · rfl
    · split
      · rfl
      · have known : (liftM (c.host.descriptorOf type) : Run (World σ) TypeDescriptor) =
            pure descriptor := by rw [described]; rfl
        rw [known, Run.bind_assoc]
        funext w
        show (c.target d.symbol >>= _) w = _
        refine Run.bind_congr fun target w₁ _ => ?_
        cases target
        case interpreted tree => simp only [Run.bind_assoc]; rfl
        case physical handle => simp only [symbolic]; rfl
        case empty => simp only [activateImplicit, Run.bind_assoc]; rfl
        all_goals rfl

theorem bind_eq_ok {o : ObjectRef} {type : ClosedType} {frame : FrameId}
    (h : c.bind o type w = (.ok frame, w')) :
    w.link? o = none ∧ (o.id < w.objects.size → w'.BoundAs c.session o type) := by
  refine ⟨?_, fun there => ?_⟩
  · cases hl : w.link? o with
    | none => rfl
    | some l =>
      obtain ⟨e, w₁, fails, -⟩ := bind_of_link (c := c) hl type
      cases fails.symm.trans h
  · obtain ⟨f, w₁, root, -, objects, -⟩ := World.classFrame_made c.session type w
    rw [Context.bind, Run.bind_ok root] at h
    simp only [Run.bind_eq_ok] at h
    obtain ⟨g, w₂, child, table, w₃, found, _, w₄, links, returns⟩ := h
    cases returns
    have sameObjects : w₃.objects = w.objects := by
      have kept := c.memberTable_objects type w₂
      rw [found] at kept
      cases child
      exact kept.trans objects
    have kept := memberTable_kept found
    rw [World.bind] at links
    split at links
    · cases links
    · cases links
      refine ⟨frame, table, ?_, kept⟩
      have cell : w₃.objects[o.id]? = some (w.objects[o.id]) := by
        rw [sameObjects, Array.getElem?_eq_getElem there]
      simp [World.link?, Array.getElem?_modify, cell]

include self

theorem complete_eq_ok {type : ClosedType} {descriptor : TypeDescriptor} {args : List Value}
    {o o' : ObjectRef} {frame : FrameId} {body : Option PendingBody}
    (h : c.complete type descriptor args o frame body w = (.ok o', w')) :
    o' = o ∧ w.Grows c.host w' := by
  cases body with
  | none =>
    simp only [complete] at h
    split at h
    · simp only [Run.bind_eq_ok] at h
      obtain ⟨_, w₁, declared, returns⟩ := h
      cases returns
      exact ⟨rfl, (self.declareProperties (b := w) rfl _).grows declared⟩
    · cases h
      exact ⟨rfl, .refl w⟩
  | some body =>
    simp only [complete, Run.bind_eq_ok] at h
    obtain ⟨a, w₁, prepared, v, w₂, ran, returns⟩ := h
    cases returns
    have tied : (NodeTerms.all (World.growing c.host False False)).Tied w₁
        { a with prepared := body.prepared } { a with prepared := body.prepared } := .itself rfl
    exact ⟨rfl, ((self.prepare _ _ _ _ _ w).grows prepared).trans
      ((self.runBody tied body.tree).grows ran)⟩

end

/-! ### Activations -/

/-- From world `w`, an activation of the type made an object that had no link; in `w'` it is
bound to the session as one of the type, if it was an object of the heap. -/
def MadeBound (type : ClosedType) (args : List Value) (chosen : Option MemberDescriptor)
    (w : World σ) (o : ObjectRef) (w' : World σ) : Prop :=
  ∃ body w₁, c.makeUnbound type args chosen w = (.ok (o, body), w₁) ∧ w₁.link? o = none ∧
    (o.id < w₁.objects.size → w'.BoundAs c.session o type)

/-- In an activation that begins in world `w`, the object is bound before its body runs. -/
structure BindsFirst (type : ClosedType) (descriptor : TypeDescriptor) (args : List Value)
    (chosen : Option MemberDescriptor) (w : World σ) : Prop where
  /-- The object is made, then bound, and then the rest is done. -/
  order : c.activateBy type descriptor args chosen = (do
    let made ← c.makeUnbound type args chosen
    let frame ← c.bind made.1 type
    c.complete type descriptor args made.1 frame made.2)
  /-- Until it is made, no node is evaluated but leading arguments, and those without an
  instance: whatever the evaluation of anything else is, the run is the same. -/
  before : ∀ eval', (∀ d ∈ chosen, c.SameBeforehand w d.symbol eval') →
    Context.makeUnbound { c with eval := eval' } type args chosen w = c.makeUnbound type args chosen w
  /-- When the rest is done, the object is bound, and it was not before. -/
  bound : ∀ {o body w₁ frame w₂}, c.makeUnbound type args chosen w = (.ok (o, body), w₁) →
    c.bind o type w₁ = (.ok frame, w₂) →
    w₁.link? o = none ∧ (o.id < w₁.objects.size → w₂.BoundAs c.session o type)
  /-- An object that has a link already is not bound again, and no node of the body is
  evaluated but leading arguments: the activation fails whatever the evaluation of the others is.
  It asks the session for the type's member table first. Where the session has none and none can
  be made, the error is the one of that; otherwise, and so whenever it has one, the error is that
  the object is bound. -/
  taken : ∀ {o body w₁ l}, c.makeUnbound type args chosen w = (.ok (o, body), w₁) →
    w₁.link? o = some l →
    (∀ eval', (∀ d ∈ chosen, c.SameBeforehand w d.symbol eval') →
      Context.activateBy { c with eval := eval' } type descriptor args chosen w =
        (.error (refusal o (c.tableFor o type w₁).1), (c.tableFor o type w₁).2)) ∧
    (c.tableFor o type w₁).2.objects = w₁.objects ∧
    ∀ t, (w₁.session c.session).tables.get? type = some t → (c.tableFor o type w₁).1 = .ok t
  /-- What is answered is bound. -/
  answers : ∀ {o w'}, c.activateBy type descriptor args chosen w = (.ok o, w') →
    c.MadeBound type args chosen w o w'

variable {c} {w w' : World σ}

theorem MadeBound.grows {type : ClosedType} {args : List Value} {chosen : Option MemberDescriptor}
    {w₀ : World σ} {o : ObjectRef} (h : c.MadeBound type args chosen w₀ o w) {host : Host σ}
    (hw : w.Grows host w') : c.MadeBound type args chosen w₀ o w' := by
  obtain ⟨body, w₁, made, unbound, bound⟩ := h
  exact ⟨body, w₁, made, unbound, fun there => (bound there).grows hw⟩

theorem bindsFirst (self : c.Agrees (World.growing c.host False False) c) {type : ClosedType}
    {descriptor : TypeDescriptor} (described : c.host.descriptorOf type = .ok descriptor)
    (symbolic : descriptor.isSymbolic = true) (args : List Value) (chosen : Option MemberDescriptor)
    (w : World σ) : c.BindsFirst type descriptor args chosen w where
  order := activateBy_eq described symbolic args chosen
  before _ same := makeUnbound_congr self same type args
  bound _ binds := bind_eq_ok binds
  taken {o body w₁ l} made linked := by
    obtain ⟨fails, objects, has⟩ := bind_eq_refusal (c := c) linked type
    refine ⟨fun eval' same => ?_, objects, has⟩
    let c' : Context σ := { c with eval := eval' }
    have makes : c'.makeUnbound type args chosen w = (.ok (o, body), w₁) :=
      (makeUnbound_congr self same type args).trans made
    have binds : c'.bind o type w₁ =
        (.error (refusal o (c.tableFor o type w₁).1), (c.tableFor o type w₁).2) := by
      rw [bind_withEval, fails]
    have parts : c'.activateBy type descriptor args chosen = _ :=
      activateBy_eq (c := c') described symbolic args chosen
    rw [parts, Run.bind_ok makes, Run.bind_error binds]
  answers {o w'} h := by
    rw [activateBy_eq described symbolic, Run.bind_eq_ok] at h
    obtain ⟨⟨o', body⟩, w₁, made, h⟩ := h
    obtain ⟨frame, w₂, binds, h⟩ := Run.bind_eq_ok.1 h
    obtain ⟨rfl, grows⟩ := complete_eq_ok self h
    obtain ⟨unbound, bound⟩ := bind_eq_ok binds
    exact ⟨body, w₁, made, unbound, fun there => (bound there).grows grows⟩

end Context

section

variable {σ : Type} (host : Host σ) (n : Nat) (session : SessionId)

theorem this_withoutInstance (span : Span) {s : Machine σ} (h : s.activation.instanceFrame = none) :
    evalWithin host (n + 1) session (.mk span .this) s =
      (.error (.failed ((EvalError.of .noCurrentInstance).orSpan span)), s) := by
  have missing : Run.currentInstance s = (.error (.failed (.of .noCurrentInstance)), s) := by
    simp only [Run.currentInstance, h]
    rfl
  have fails : (Context.within host n session).evalOp .this s =
      (.error (.failed (.of .noCurrentInstance)), s) := Run.bind_error missing
  show Run.orSpan span ((Context.within host n session).evalOp .this) s = _
  rw [Run.orSpan, fails]

theorem evalFor_grows {v : Value} {node : Node} {s s' : Machine σ} {r : Except Stop Value}
    (h : (Context.within host n session).evalFor v node s = (r, s')) :
    s.world.Grows host s'.world := by
  have inner := (evalWithin_grows host n session node
    ⟨s.world, { s.activation with receivers := v :: s.activation.receivers }⟩).1
  have outer : s.world.Grows host ((Context.within host n session).evalFor v node s).2.world := inner
  rwa [h] at outer

theorem initializers_grow {v : Value} {nodes : List Node} {s s' : Machine σ} {r : Except Stop Unit}
    (h : Run.forList (fun node => do
      let _ ← (Context.within host n session).evalFor v node
      return ()) nodes s = (r, s')) : s.world.Grows host s'.world := by
  induction nodes generalizing s with
  | nil => cases h; exact .refl _
  | cons node nodes ih =>
    simp only [Run.forList, Run.bind_def] at h
    rcases ran : (Context.within host n session).evalFor v node s with ⟨e | _, t⟩
    · rw [ran] at h
      cases h
      exact evalFor_grows host n session ran
    · rw [ran] at h
      exact (evalFor_grows host n session ran).trans (ih h)

theorem createObject_eq_ok {use : MemberUse} {nodes : List Node} {initializer : Option Node}
    {s s' : Machine σ} {v : Value}
    (h : (Context.within host n session).createObject use nodes initializer s = (.ok v, s')) :
    ∃ o m args d w w', v = .object o ∧ Run.closeMember use s = (.ok m, s) ∧
      (Context.within host n session).activateWith d m.containing args w = (.ok o, w') ∧
      w'.Grows host s'.world := by
  simp only [Context.createObject, Run.bind_eq_ok, Run.liftM_world, Run.onWorld_eq_ok] at h
  obtain ⟨m, s₁, closed, args, s₂, evaluated, d, s₃, found, o, s₄, ⟨w, made, rfl⟩, h⟩ := h
  obtain ⟨rfl, -⟩ := Context.closeMember_eq_ok closed
  cases initializer with
  | none =>
    cases h
    exact ⟨o, m, args, d, s₃.world, w, rfl, closed, made, .refl w⟩
  | some node =>
    obtain ⟨_, s₅, ran, returns⟩ := Run.bind_eq_ok.1 h
    cases returns
    exact ⟨o, m, args, d, s₃.world, w, rfl, closed, made, evalFor_grows host n session ran⟩

theorem createAnonymous_eq_ok {type : TypeRef} {nodes : List Node} {s s' : Machine σ} {v : Value}
    (h : (Context.within host n session).createAnonymous type nodes s = (.ok v, s')) :
    ∃ o closed w', v = .object o ∧ Run.closeType type s = (.ok closed, s) ∧
      (Context.within host n session).activate closed [] s.world = (.ok o, w') ∧
      w'.Grows host s'.world := by
  simp only [Context.createAnonymous, Run.bind_eq_ok, Run.liftM_world, Run.onWorld_eq_ok] at h
  obtain ⟨closed, s₁, closes, o, s₂, ⟨w, made, rfl⟩, _, s₃, ran, returns⟩ := h
  cases returns
  obtain rfl : s = s₁ := congrArg Prod.snd closes
  exact ⟨o, closed, w, rfl, closes, made, initializers_grow host n session ran⟩

theorem Context.activate_eq (c : Context σ) {type : ClosedType} {descriptor : TypeDescriptor}
    (described : c.host.descriptorOf type = .ok descriptor) (args : List Value) :
    c.activate type args = (do
      let chosen ← Run.ofStop (c.host.resolveConstructor c.fuel descriptor type args)
      c.activateBy type descriptor args chosen) := by
  have known : (liftM (c.host.descriptorOf type) : Run (World σ) TypeDescriptor) =
      pure descriptor := by rw [described]; rfl
  rw [Context.activate, known]
  funext w
  show (Run.ofStop (c.host.resolveConstructor c.fuel descriptor type args) >>= _) w = _
  refine Run.bind_congr fun chosen w' _ => ?_
  cases chosen <;> rfl

theorem Context.activate_eq_ok {type : ClosedType} {descriptor : TypeDescriptor}
    (described : host.descriptorOf type = .ok descriptor) (symbolic : descriptor.isSymbolic = true)
    {args : List Value} {w w' : World σ} {o : ObjectRef}
    (h : (Context.within host n session).activate type args w = (.ok o, w')) :
    ∃ chosen, (Context.within host n session).MadeBound type args chosen w o w' := by
  rw [Context.activate_eq _ described, Run.bind_eq_ok] at h
  obtain ⟨chosen, w₁, selected, made⟩ := h
  obtain rfl : w = w₁ := congrArg Prod.snd selected
  exact ⟨chosen, (Context.bindsFirst (Context.within_grows host n session) described symbolic args
    chosen w).answers made⟩

end

/-- **An object is bound before its constructor runs.** An activation of a symbolic type
evaluates nothing of the constructors' bodies but leading arguments until the object is bound,
and fails without evaluating anything else of the bodies when the object has a link already: with
the error of the type's member table where the session has none and none can be made, and
otherwise because the object is bound. Leading arguments are evaluated where there is no
instance, so are the nodes that they consist of, and `this` is an error there. Objects that
requests and creations answer are bound. -/
theorem object_bound_first {σ : Type} (host : Host σ) (n : Nat) (session : SessionId) :
    let c := Context.within host n session
    let s : Session σ := ⟨host, session, n⟩
    (∀ type descriptor, host.descriptorOf type = .ok descriptor → descriptor.isSymbolic = true →
      (∀ args chosen w, c.BindsFirst type descriptor args chosen w) ∧
      (∀ args, c.activate type args = (do
        let chosen ← Run.ofStop (host.resolveConstructor n descriptor type args)
        c.activateBy type descriptor args chosen)) ∧
      (∀ args cancelled w o w', s.createInstance type args cancelled w = (.ok o, w') →
        ∃ chosen, c.MadeBound type args chosen w o w') ∧
      (∀ m args cancelled w o w', s.createInstanceWith m type args cancelled w = (.ok o, w') →
        ∃ d, host.member m = .ok d ∧ c.MadeBound type args (some d) w o w') ∧
      (∀ use nodes initializer t m v t', Run.closeMember use t = (.ok m, t) → m.containing = type →
        c.evalOp (.objectCreation use nodes initializer) t = (.ok v, t') →
        ∃ o args d w, v = .object o ∧ c.MadeBound type args (some d) w o t'.world) ∧
      ∀ ref nodes t v t', Run.closeType ref t = (.ok type, t) →
        c.evalOp (.anonymousCreation ref nodes) t = (.ok v, t') →
        ∃ o chosen, v = .object o ∧ c.MadeBound type [] chosen t.world o t'.world) ∧
    (∀ x t, t.activation.instanceFrame = none → (c.eval x t).2.activation.instanceFrame = none) ∧
    (∀ x t eval', t.world.Framed → t.activation.instanceFrame = none →
      c.SameUninstanced t.world.frames eval' →
      Context.evalNode { c with eval := eval' } x t = c.evalNode x t) ∧
    ∀ span t, t.activation.instanceFrame = none → evalWithin host (n + 1) session (.mk span .this) t =
      (.error (.failed ((EvalError.of .noCurrentInstance).orSpan span)), t) := by
  intro c s
  have self : c.Agrees (World.growing host False False) c := Context.within_grows host n session
  refine ⟨fun type descriptor described symbolic => ?_, fun x t h => ?_,
    fun x t eval' framed alone same => ?_, fun span t h => ?_⟩
  · have binds (args : List Value) (chosen : Option MemberDescriptor) (w : World σ) :
        c.BindsFirst type descriptor args chosen w :=
      Context.bindsFirst self described symbolic args chosen w
    refine ⟨binds, Context.activate_eq c described, fun args cancelled w o w' h => ?_,
      fun m args cancelled w o w' h => ?_, fun use nodes initializer t m v t' closed contained h => ?_,
      fun ref nodes t v t' closed h => ?_⟩
    · obtain ⟨_, w₁, goesOn, h⟩ := Run.bind_eq_ok.1 h
      cases cancelled
      · cases goesOn
        exact Context.activate_eq_ok host n session described symbolic h
      · cases goesOn
    · simp only [Session.createInstanceWith, Run.bind_eq_ok] at h
      obtain ⟨_, w₁, goesOn, d, w₂, found, h⟩ := h
      cases cancelled
      · cases goesOn
        obtain ⟨known, rfl⟩ : host.member m = .ok d ∧ w = w₂ := by
          simp only [Run.liftM_except] at found
          cases hd : s.host.member m with
          | ok d' =>
            rw [hd] at found
            cases found
            exact ⟨rfl, rfl⟩
          | error e => rw [hd] at found; cases found
        exact ⟨d, known, (binds args (some d) w).answers h⟩
      · cases goesOn
    · subst contained
      replace h : c.createObject use nodes initializer t = (.ok v, t') := h
      obtain ⟨o, m', args, d, w, w', rfl, closed', made, grows⟩ := createObject_eq_ok host n session h
      cases closed.symm.trans closed'
      exact ⟨o, args, d, w, rfl, ((binds args (some d) w).answers made).grows grows⟩
    · obtain ⟨o, closed', w', rfl, closes, made, grows⟩ := createAnonymous_eq_ok host n session h
      cases closed.symm.trans closes
      obtain ⟨chosen, made⟩ := Context.activate_eq_ok host n session described symbolic made
      exact ⟨o, chosen, rfl, made.grows grows⟩
  · exact (Context.eval_instanceFrame self x t).trans h
  · exact evalNode_withoutInstance host n session framed alone same x
  · exact this_withoutInstance host n session span h

/-- A type of which the host makes one object only, with a constructor that does nothing. -/
def single : Scripted.Program :=
  ⟨[⟨⟨⟨1⟩, "T", .classType, true, 0, none, [], [⟨20⟩]⟩, .shared⟩],
    [⟨⟨⟨20⟩, ".ctor", ⟨1⟩, false, .source, .constructor []⟩, some (.mk .dummy (.block [])), none⟩]⟩

/-- The first activation binds the object; the second fails, also if evaluation could not even
begin. -/
theorem single_boundOnce :
    let host := single.host
    let c := Context.within host 5 ⟨0⟩
    let type : ClosedType := .named ⟨1⟩ []
    let o : ObjectRef := ⟨0, type⟩
    let d : MemberDescriptor := ⟨⟨20⟩, ".ctor", ⟨1⟩, false, .source, .constructor []⟩
    let x := c.activateWith d type [] (World.initial .initial)
    let blocked : Context Scripted.State := { c with eval := fun _ => Run.exhausted }
    host.descriptorOf type = .ok ⟨⟨1⟩, "T", .classType, true, 0, none, [], [⟨20⟩]⟩ ∧
      x.1 = .ok o ∧ x.2.BoundAs ⟨0⟩ o type ∧
      (blocked.activateWith d type [] x.2).1 = .error (.failed (.of (.alreadyBound "type#1"))) := by
  intro host c type o d x blocked
  obtain ⟨activations, -⟩ := object_bound_first host 5 ⟨0⟩
  obtain ⟨binds, -⟩ := activations type _ rfl rfl
  have answer : x.1 = .ok o := by decide +kernel
  have first : x = (.ok o, x.2) := by rw [← answer]
  obtain ⟨body, w₁, made, -, bound⟩ := (binds [] (some d) (World.initial .initial)).answers first
  have there : o.id < w₁.objects.size := by
    have size : (c.makeUnbound type [] (some d) (World.initial .initial)).2.objects.size = 1 := by
      decide +kernel
    rw [made] at size
    exact size ▸ Nat.one_pos
  refine ⟨rfl, answer, bound there, ?_⟩
  let y := c.makeUnbound type [] (some d) x.2
  have makes : (y.1.toOption.map Prod.fst) = some o := by decide +kernel
  have linked : (y.2.link? o).isSome = true := by decide +kernel
  have kept : ((y.2.session ⟨0⟩).tables.get? type).isSome = true := by decide +kernel
  obtain ⟨l, linked⟩ := Option.isSome_iff_exists.1 linked
  obtain ⟨body', again⟩ : ∃ body', y = (.ok (o, body'), y.2) := by
    generalize y = y at makes
    obtain ⟨_ | ⟨o', body'⟩, w'⟩ := y
    · cases makes
    · have same : o' = o := Option.some.inj makes
      exact ⟨body', by rw [same]⟩
  obtain ⟨fails, -, has⟩ := (binds [] (some d) x.2).taken again linked
  have grows : (World.initial Scripted.State.initial).Grows host x.2 :=
    ((Context.within_grows host 5 ⟨0⟩).activateWith d type []).grows first
  have none_leads : ∀ d' ∈ some d, c.SameBeforehand x.2 d'.symbol fun _ => Run.exhausted := by
    rintro _ ⟨⟩ node leads
    have reached := Context.targetOf_eq (c := c) grows ⟨20⟩
    cases leads with
    | here reaches begins => cases reached.symm.trans reaches; cases begins
    | next reaches begins => cases reached.symm.trans reaches; cases begins
  have second : (blocked.activateWith d type [] x.2).1 = _ := congrArg Prod.fst (fails _ none_leads)
  obtain ⟨t, kept⟩ := Option.isSome_iff_exists.1 kept
  rw [second, has t kept]
  rfl

/-- A type of which the host makes one object only. Its constructor passes on how often a native
method was called. A second type declares a member that does not exist. -/
def counting : Scripted.Program :=
  let type : TypeRef := .named ⟨1⟩ []
  let int : TypeRef := .primitive .i32
  let count : Node := .mk .dummy (.invocation ⟨⟨30⟩, type, []⟩ none [] false)
  let pass : Node := .mk .dummy (.constructorInitializer ⟨⟨21⟩, type, []⟩ [count])
  let constructor (symbol : SymbolId) (parameters : List Parameter) (body : List Node) :
      Scripted.MemberScript :=
    ⟨⟨symbol, ".ctor", ⟨1⟩, false, .source, .constructor parameters⟩,
      some (.mk .dummy (.block body)), none⟩
  { types := [
      ⟨⟨⟨1⟩, "T", .classType, true, 0, none, [], [⟨20⟩, ⟨21⟩, ⟨30⟩]⟩, .shared⟩,
      ⟨⟨⟨2⟩, "U", .classType, true, 0, none, [], [⟨99⟩]⟩, .fresh⟩]
    members := [
      constructor ⟨20⟩ [] [pass],
      constructor ⟨21⟩ [⟨"n", int⟩] [],
      ⟨⟨⟨30⟩, "Count", ⟨1⟩, true, .loaded, .method [] int 0 false none⟩, none, some .count⟩] }

/-- The object is bound after the first activation. The second one runs the method again before it
finds that. And if the host hands the object out for the other type too, an activation of that one
fails on the missing member. -/
theorem boundBacking_fails :
    let type : ClosedType := .named ⟨1⟩ []
    let other : ClosedType := .named ⟨2⟩ []
    let lending : Host Scripted.State :=
      { counting.host with synthesize := fun _ => counting.host.synthesize type }
    let s : Session Scripted.State := ⟨counting.host, ⟨0⟩, 8⟩
    let lent : Session Scripted.State := ⟨lending, ⟨0⟩, 8⟩
    let first := s.createInstanceWith ⟨20⟩ type [] false (.initial .initial)
    let second := s.createInstanceWith ⟨20⟩ type [] false first.2
    let kept := lent.createInstanceWith ⟨20⟩ type [] false (.initial .initial)
    let asked := lent.createInstanceWith ⟨20⟩ other [] false kept.2
    (first.1 = .ok ⟨0, type⟩ ∧ first.2.host.counts.get? ⟨30⟩ = some 1 ∧
      second.1 = .error (.failed (.of (.alreadyBound "type#1"))) ∧
      second.2.host.counts.get? ⟨30⟩ = some 2) ∧
    kept.1 = .ok ⟨0, type⟩ ∧ (kept.2.link? ⟨0, type⟩).isSome = true ∧
      asked.2.objects.size = kept.2.objects.size ∧
      asked.1 = .error (.failed (.of (.host "unknown member 99"))) := by
  decide +kernel

end OpTree
