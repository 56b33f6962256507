/-
Bodies of constructors that take over evaluated arguments. `construct` runs the
bodies of a chain by recursion on its links: in the place of its leading
initializer, a body calls the next constructor with the first of the lists, and
passes on the others. No argument of an initializer is mentioned there, and no
list is left in an activation. `construct_of_runBody` is that the bodies do
this when the lists are put into the first activation and each initializer takes
its own from there.

Together with `constructorChain_eq` it gives what a successful activation does:
`activateOnce`, in which the arguments of each link are evaluated once.
-/
import OpTree.Proofs.Bodies
import OpTree.Proofs.Chain
import OpTree.Scripted

namespace OpTree

/-- A body with nothing in the place of its leading initializer. -/
def Node.withoutInitializer : Node → Node
  | .mk span (.block (first :: rest)) => .mk span (.block (.mk first.span .empty :: rest))
  | .mk span (.block []) => .mk span (.block [])
  | .mk span _ => .mk span .empty

def InitializerLink.withoutArgs (link : InitializerLink) : InitializerLink :=
  ⟨link.body.withoutInitializer, link.use, []⟩

namespace Context

variable {σ : Type} (c : Context σ)

/-- A body with a call in the place of its leading initializer. -/
def afterCall (call : Run (Machine σ) Unit) (body : Node) : Run (Machine σ) Value :=
  match body.op with
  | .block statements =>
    Run.withScope do
      call
      c.execStatements statements.tail
      return .void
  | _ => do
    call
    return .void

/-- Call the constructor of an initializer with the first of the lists. Without
one there is nothing to call. -/
def passOn (call : ObjectRef → ClosedType → List Value → List (List Value) → Run (World σ) Unit)
    (use : MemberUse) (lists : List (List Value)) : Run (Machine σ) Unit := do
  let next ← Run.closeMember use
  let _ ← c.target next.symbol
  match lists with
  | values :: lists =>
    let o ← Run.currentInstance
    call o next.containing values lists
  | [] => return ()

/-- Run the body of a constructor and, from it, those of the constructors that
it leads to, with the arguments given. A list that no constructor takes is an
error. -/
def construct (last : Target σ) : ObjectRef → SymbolId → ClosedType → List Value →
    List InitializerLink → List (List Value) → Run (World σ) Unit
  | o, m, type, args, [], [] =>
    match last with
    | .interpreted tree => do
      let a ← c.prepare m type [] (some o) args
      let _ ← c.runBody a tree
      return ()
    | _ => return ()
  | _, _, _, _, [], _ :: _ => Run.fail (.missingContext "constructor initializer")
  | o, m, type, args, link :: rest, lists => do
    let a ← c.prepare m type [] (some o) args
    let _ ← Run.asBody a (c.afterCall
      (c.passOn (fun o type values lists => construct last o link.use.symbol type values rest lists)
        link.use lists) link.body)
    return ()

/-- Make an object through a chain of constructors: the arguments of the links
are evaluated, the object is made and bound, and the bodies run. -/
def activateOnce (m : SymbolId) (type : ClosedType) (args : List Value)
    (links : List InitializerLink) (last : Target σ) : Run (World σ) ObjectRef := do
  let _ ← c.target m
  let lists ← c.evaluateLinks m type args links
  let chain : ConstructorChain := .ofLists last lists
  let o ← c.manufacture type chain.physical
  let _ ← c.bind o type
  c.construct last o m type args links chain.interpreted
  return o

theorem afterCall_withoutInitializer (call : Run (Machine σ) Unit) (body : Node) :
    c.afterCall call body.withoutInitializer = c.afterCall call body := by
  obtain ⟨span, op⟩ := body
  cases op
  case block statements => cases statements <;> rfl
  all_goals rfl

/-- The bodies come to no argument of an initializer: without the arguments they
are the same. -/
theorem construct_withoutArgs (last : Target σ) (links : List InitializerLink) :
    ∀ o m type args lists,
      c.construct last o m type args (links.map InitializerLink.withoutArgs) lists =
        c.construct last o m type args links lists := by
  induction links with
  | nil => exact fun _ _ _ _ _ => rfl
  | cons link rest ih =>
    intro o m type args lists
    simp only [List.map_cons, construct, ih]
    refine congrArg _ (funext fun a => ?_)
    rw [InitializerLink.withoutArgs, afterCall_withoutInitializer]

/-! ## The call of the next constructor -/

section

variable {σ : Type} {host : Host σ} {session : SessionId} {n : Nat} {w : World σ}

/-- There is a list for each constructor of a chain that comes after the first
and is interpreted. -/
def Fits (links : List InitializerLink) (last : Target σ) (lists : List (List Value)) : Prop :=
  lists.length = if last.isInterpreted then links.length else links.length - 1

theorem fits_ofLists {links : List InitializerLink} {last : Target σ} {lists : List (List Value)}
    (h : lists.length =
      if last.isInterpreted || last.isPhysical then links.length else links.length - 1) :
    Fits links last (ConstructorChain.ofLists last lists).interpreted := by
  cases last <;>
    simp only [Fits, ConstructorChain.ofLists, Target.isInterpreted, Target.isPhysical,
      Bool.false_eq_true, Bool.or_false, Bool.or_true, if_true, if_false, List.length_dropLast] at h ⊢ <;>
    omega

/-- The call of a constructor does what its body does from an activation that
holds the lists. -/
def Takes (c : Context σ) (w : World σ) (m : SymbolId) (links : List InitializerLink)
    (last : Target σ)
    (call : ObjectRef → ClosedType → List Value → List (List Value) → Run (World σ) Unit)
    (run : Activation → Node → Run (World σ) Value) : Prop :=
  ∀ {tree o type values lists w₁ a w₂ v w₃}, Fits links last lists → w.Grows c.host w₁ →
    c.targetOf w m = .ok (.interpreted tree) →
    c.prepare m type [] (some o) values w₁ = (.ok a, w₂) →
    run { a with prepared := lists } tree w₂ = (.ok v, w₃) →
    call o type values lists w₁ = (.ok (), w₃)

/-- An initializer takes the first of the lists that its activation holds, and
the body it calls starts with the others. What is left behind is an activation
that holds none. -/
theorem passOn_of_initializer {use : MemberUse} {rest : List InitializerLink} {last : Target σ}
    (chain : (Context.within host n session).Chain w use.symbol rest last) {w₁ : World σ}
    (hw : w.Grows host w₁) {lists : List (List Value)}
    (fits : lists.length = if last.isInterpreted then rest.length + 1 else rest.length)
    {call : ObjectRef → ClosedType → List Value → List (List Value) → Run (World σ) Unit}
    {j : Nat} (hcall : (Context.within host n session).Takes w use.symbol rest last call
      (Context.within host j session).runBody)
    {args : List Node} {b : Activation} (hb : b.prepared = []) {v : Value} {s' : Machine σ}
    (h : (Context.within host j session).runConstructorInitializer use args
      ⟨w₁, { b with prepared := lists }⟩ = (.ok v, s')) :
    v = .void ∧ s'.activation = b ∧
      (Context.within host n session).passOn call use lists ⟨w₁, b⟩ = (.ok (), s') := by
  obtain ⟨base, scopes, inst, receivers, conditionals, inits, pending, branch, prepared⟩ := b
  obtain rfl : prepared = [] := hb
  let b : Activation := ⟨base, scopes, inst, receivers, conditionals, inits, pending, branch, []⟩
  simp only [runConstructorInitializer, Run.bind_eq_ok, Run.liftM_world, Run.onWorld_eq_ok] at h
  obtain ⟨next, s₁, hn, t₀, s₂, ⟨w₂, ht, rfl⟩, h⟩ := h
  obtain ⟨rfl, hsymbol, hclose⟩ := closeMember_eq_ok hn
  have closed : Run.closeMember use ⟨w₁, b⟩ = (.ok next, ⟨w₁, b⟩) := hclose b rfl
  have ht : (Context.within host n session).target next.symbol w₁ = (.ok t₀, w₂) := ht
  have reached : Run.onWorld ((Context.within host n session).target next.symbol) ⟨w₁, b⟩ =
      (.ok t₀, ⟨w₂, b⟩) := Run.onWorld_eq_ok.2 ⟨w₂, ht, rfl⟩
  obtain ⟨t₁, ht₁, hfirst⟩ := chain.first
  rw [hsymbol] at ht
  obtain ⟨hr, -⟩ := target_eq_ok (targetOf_grows hw ht₁) ht
  cases hr
  have hw₂ : w.Grows host w₂ := hw.trans (((Context.within_grows host n session).target _).grows ht)
  cases t₀ with
  | interpreted tree =>
    obtain ⟨values, lists, rfl⟩ : ∃ values lists', lists = values :: lists' := by
      apply List.exists_cons_of_ne_nil
      rintro rfl
      rcases hfirst with ⟨rfl, rfl⟩ | ⟨hne, -⟩
      · cases fits
      · have hpos : 0 < rest.length := List.length_pos_iff.2 hne
        simp only [List.length_nil] at fits
        split at fits <;> omega
    have fits : Fits rest last lists := by
      simp only [Fits, List.length_cons] at fits ⊢
      split at fits <;> rename_i hi <;> simp only [hi] <;> simp <;> omega
    simp only [Run.bind_eq_ok, Run.onWorld_eq_ok] at h
    obtain ⟨o, s₃, ho, ⟨values', rest'⟩, s₄, hf, h⟩ := h
    obtain ⟨rfl, hinstance⟩ := currentInstance_eq_ok ho
    have found : Run.currentInstance ⟨w₂, b⟩ = (.ok o, ⟨w₂, b⟩) := hinstance b rfl
    cases hf
    obtain ⟨a, s₅, ⟨w₃, ha, rfl⟩, v', s₆, ⟨w₄, hr, rfl⟩, h⟩ := h
    cases h
    rw [hsymbol] at ha
    have hc := hcall fits hw₂ ht₁ ha hr
    refine ⟨rfl, rfl, ?_⟩
    simp only [passOn, Run.liftM_world]
    rw [Run.bind_ok closed, Run.bind_ok reached, Run.bind_ok found]
    exact Run.onWorld_eq_ok.2 ⟨w₄, hc, rfl⟩
  | physical | slot | staticSlot | frameSlot | accessors | bodiless | empty =>
    rcases hfirst with ⟨rfl, rfl⟩ | ⟨-, hi⟩
    · obtain rfl : lists = [] := List.length_eq_zero_iff.1 fits
      cases h
      refine ⟨rfl, rfl, ?_⟩
      simp only [passOn, Run.liftM_world]
      rw [Run.bind_ok closed, Run.bind_ok reached]
      rfl
    · cases hi

theorem afterCall_of_eval {body : Node} {use : MemberUse} {args : List Node}
    (hl : body.leadingInitializer? = some (use, args)) {rest : List InitializerLink}
    {last : Target σ} (chain : (Context.within host n session).Chain w use.symbol rest last)
    {w₁ : World σ} (hw : w.Grows host w₁) {lists : List (List Value)}
    (fits : lists.length = if last.isInterpreted then rest.length + 1 else rest.length)
    {call : ObjectRef → ClosedType → List Value → List (List Value) → Run (World σ) Unit}
    (hcall : ∀ j ≤ n, (Context.within host n session).Takes w use.symbol rest last call
      (Context.within host j session).runBody)
    {k : Nat} (hk : k ≤ n) {base : FrameId} {inst : Option FrameId} {v : Value} {s' : Machine σ}
    (h : (Context.within host k session).eval body
      ⟨w₁, { Activation.start base inst with prepared := lists }⟩ = (.ok v, s')) :
    (Context.within host n session).afterCall ((Context.within host n session).passOn call use lists)
      body ⟨w₁, .start base inst⟩ = (.ok v, s') := by
  rcases Node.calls_of_leadingInitializer hl with ⟨span, first, statements, rfl, hx⟩ | ⟨hop, hx⟩
  · obtain ⟨k, rfl, hb⟩ := eval_eq_ok h
    let s : Machine σ := Machine.inScope ⟨w₁, .start base inst⟩
    have hb : (match ((Context.within host k session).execStatements (first :: statements) >>=
          fun _ => pure Value.void) ⟨s.world, { s.activation with prepared := lists }⟩ with
        | (r, t) => (r, t.outOfScope)) = (.ok v, s') := hb
    rcases hm : ((Context.within host k session).execStatements (first :: statements) >>=
      fun _ => pure Value.void) ⟨s.world, { s.activation with prepared := lists }⟩ with ⟨r, t⟩
    rw [hm] at hb
    cases hb
    simp only [execStatements, exec, Run.bind_assoc, Run.bind_eq_ok] at hm
    obtain ⟨v₁, t₁, hfirst, _, _, hu, interrupted, t₂, hi, hm⟩ := hm
    cases hu
    cases hi
    obtain ⟨j, v', hj, -, hfirst⟩ := eval_calls hx hfirst
    have hscope : w.Grows host s.world :=
      hw.trans (.of_frames (FrameStore.extends_add w₁.frames .scope _))
    obtain ⟨-, ht₁, hpass⟩ := passOn_of_initializer chain hscope fits (hcall j (by omega)) rfl hfirst
    have clear : t₁.activation.interrupted = false := by rw [ht₁]; rfl
    simp only [clear, Bool.false_eq_true, if_false] at hm
    obtain ⟨_, t₂, hrest, hr⟩ := hm
    cases hr
    have hkn : k ≤ n := by omega
    have more := execStatements_mono hkn hrest
    show (match ((Context.within host n session).passOn call use lists >>= fun _ =>
        (Context.within host n session).execStatements statements >>= fun _ => pure Value.void) s with
      | (r, t) => (r, t.outOfScope)) = _
    rw [Run.bind_ok hpass, Run.bind_ok more]
    rfl
  · obtain ⟨j, v', hj, hv, hx⟩ := eval_calls hx h
    obtain ⟨rfl, -, hpass⟩ := passOn_of_initializer chain hw fits (hcall j (by omega)) rfl hx
    obtain rfl : v = .void := by
      rcases hv with rfl | rfl <;> rfl
    obtain ⟨span, op⟩ := body
    have after : (Context.within host n session).afterCall
        ((Context.within host n session).passOn call use lists) (.mk span op) = (do
          (Context.within host n session).passOn call use lists
          return .void) := by
      cases op
      case block statements => exact absurd rfl (hop statements)
      all_goals rfl
    rw [after, Run.bind_ok hpass]
    rfl

/-- Bodies that take their arguments from the lists they hold come to what
`construct` does with the lists. -/
theorem construct_takes {m : SymbolId} {links : List InitializerLink} {last : Target σ}
    (chain : (Context.within host n session).Chain w m links last) : ∀ k ≤ n,
    (Context.within host n session).Takes w m links last
      (fun o type values lists =>
        (Context.within host n session).construct last o m type values links lists)
      (Context.within host k session).runBody := by
  induction chain with
  | @last m last ht hl =>
    intro k hk tree o type values lists w₁ a w₂ v w₃ fits hw htree ha hr
    obtain rfl : last = .interpreted tree := Except.ok.inj (ht.symm.trans htree)
    obtain rfl : lists = [] := List.length_eq_zero_iff.1 fits
    obtain ⟨base, inst, rfl⟩ := prepare_start ha
    have more : (Context.within host n session).runBody (.start base inst) tree w₂ = (.ok v, w₃) :=
      runBody_mono hk hr
    simp only [construct]
    rw [Run.bind_ok ha, Run.bind_ok more]
    rfl
  | @link m body use args rest last ht hl hm chain ih =>
    intro k hk tree o type values lists w₁ a w₂ v w₃ fits hw htree ha hr
    obtain rfl : body = tree := by
      have he := ht.symm.trans htree
      cases he
      rfl
    obtain ⟨base, inst, rfl⟩ := prepare_start ha
    have hw₂ : w.Grows host w₂ :=
      hw.trans (((Context.within_grows host n session).prepare _ _ _ _ _ _).grows ha)
    have body : Run.asBody (.start base inst) ((Context.within host n session).afterCall
        ((Context.within host n session).passOn (fun o type values lists =>
          (Context.within host n session).construct last o use.symbol type values rest lists)
          use lists) body) w₂ = (.ok v, w₃) := by
      rw [runBody_eq] at hr
      simp only [Run.asBody] at hr ⊢
      rcases he : (Context.within host k session).eval body
        ⟨w₂, { Activation.start base inst with prepared := lists }⟩ with ⟨r, s⟩
      rw [he] at hr
      cases r with
      | error e => cases hr
      | ok v' =>
        rw [afterCall_of_eval hl chain hw₂ fits ih hk he]
        exact hr
    simp only [construct]
    rw [Run.bind_ok ha, Run.bind_ok body]
    rfl

/-- A chain that was followed was followed to its end: the lists of its links were
evaluated. -/
theorem constructorChain_eq_ok {m : SymbolId} {links : List InitializerLink} {last : Target σ}
    (chain : (Context.within host n session).Chain w m links last) {type : ClosedType}
    {args : List Value} {k : Nat} {w₁ w₃ : World σ} (hw : w.Grows host w₁) {found : ConstructorChain}
    (h : (Context.within host n session).constructorChain k m type args w₁ = (.ok found, w₃)) :
    ∃ t w₂ lists, (Context.within host n session).target m w₁ = (.ok t, w₂) ∧
      (Context.within host n session).evaluateLinks m type args links w₂ = (.ok lists, w₃) ∧
      found = .ofLists last lists ∧ Fits links last found.interpreted := by
  have self := Context.within_grows host n session
  have agrees := Context.within_more host (Nat.le_refl n) session
  have hk : Run.Enough True False k (k + links.length + 1) := .inr (.inl ⟨trivial, by omega⟩)
  have more := (agrees.constructorChain _ _ hk m type args w₁).more h nofun
  rw [constructorChain_eq self chain (by omega) type args hw] at more
  simp only [Run.bind_eq_ok] at more
  obtain ⟨t, w₂, ht, lists, w₃', hlists, hr⟩ := more
  cases hr
  have hw₂ : w.Grows host w₂ := hw.trans ((self.target m).grows ht)
  exact ⟨t, w₂, lists, ht, hlists, rfl, fits_ofLists (evaluateLinks_length self chain hw₂ hlists)⟩

/-- A successful activation is one in which each list of arguments is evaluated
once. -/
theorem activateOnce_of_activateWith {d : MemberDescriptor} {links : List InitializerLink}
    {last : Target σ} (chain : (Context.within host n session).Chain w d.symbol links last)
    {tree : Node} (interpreted : (Context.within host n session).targetOf w d.symbol =
      .ok (.interpreted tree)) {type : ClosedType} {args : List Value} {o : ObjectRef} {w' : World σ}
    (h : (Context.within host n session).activateWith d type args w = (.ok o, w')) :
    (Context.within host n session).activateOnce d.symbol type args links last w = (.ok o, w') := by
  simp only [activateWith] at h
  split at h
  · cases h
  split at h
  · cases h
  simp only [Run.bind_eq_ok] at h
  obtain ⟨descriptor, w₁, hd, t, w₂, ht, h⟩ := h
  obtain rfl : w = w₁ := congrArg Prod.snd hd
  obtain ⟨hr, hcached⟩ := target_eq_ok interpreted ht
  cases hr
  simp only [Run.bind_eq_ok] at h
  obtain ⟨found, w₃, hchain, o', w₄, hmake, frame, w₅, hbind, a, w₆, ha, v, w₇, hbody, hr⟩ := h
  cases hr
  have self := Context.within_grows host n session
  have hw₂ : w.Grows host w₂ := (self.target _).grows ht
  obtain ⟨t, w₂', lists, ht', hlists, rfl, fits⟩ := constructorChain_eq_ok chain hw₂ hchain
  rw [Context.target_of_cached _ hcached] at ht'
  cases ht'
  have hw₅ : w.Grows host w₅ :=
    ((hw₂.trans ((self.constructorChain _ _ (.same _) _ _ _).grows hchain)).trans
      ((self.manufacture _ _).grows hmake)).trans ((self.bind _ _ _).grows hbind)
  have hconstruct := construct_takes chain n (Nat.le_refl n) fits hw₅ interpreted ha hbody
  simp only [activateOnce]
  rw [Run.bind_ok ht, Run.bind_ok hlists, Run.bind_ok hmake, Run.bind_ok hbind, Run.bind_ok hconstruct]
  rfl

/-- The arguments of the initializers in a chain of constructors are evaluated
once. Following the initializers comes to an end, and to the lists of arguments
of the links that lead to a constructor with something to run, each evaluated
once and in order; those for a constructor of the host are kept apart, and there
is one other list for each interpreted constructor after the first. A successful
activation evaluates these lists, makes and binds the object, and runs the
bodies, in which each constructor takes the list that was evaluated for it: no
list is left, and no argument is evaluated again. -/
theorem initializer_arguments_once (host : Host σ) (n : Nat) (session : SessionId) {w : World σ}
    {m : SymbolId} {links : List InitializerLink} {last : Target σ}
    (chain : (Context.within host n session).Chain w m links last) :
    (∀ k type args, links.length < k →
      (Context.within host n session).constructorChain k m type args w = (do
        let _ ← (Context.within host n session).target m
        let lists ← (Context.within host n session).evaluateLinks m type args links
        return .ofLists last lists : Run (World σ) ConstructorChain) w) ∧
    (∀ k type args found w',
      (Context.within host n session).constructorChain k m type args w = (.ok found, w') →
        Fits links last found.interpreted ∧ (last.isPhysical = false → found.physical = [])) ∧
    (∀ d tree type args o w', d.symbol = m →
      (Context.within host n session).targetOf w m = .ok (.interpreted tree) →
      (Context.within host n session).activateWith d type args w = (.ok o, w') →
      (Context.within host n session).activateOnce m type args links last w = (.ok o, w')) ∧
    ∀ o type args lists,
      (Context.within host n session).construct last o m type args
        (links.map InitializerLink.withoutArgs) lists =
      (Context.within host n session).construct last o m type args links lists := by
  refine ⟨fun k type args hk => ?_, fun k type args found w' h => ?_, ?_,
    fun o => Context.construct_withoutArgs _ last links o m⟩
  · exact constructorChain_eq (Context.within_grows host n session) chain hk type args (.refl w)
  · obtain ⟨t, w₂, lists, -, -, rfl, fits⟩ := constructorChain_eq_ok chain (.refl w) h
    refine ⟨fits, fun hp => ?_⟩
    simp only [ConstructorChain.ofLists, hp, Bool.false_eq_true, if_false]
  · rintro d tree type args o w' rfl interpreted h
    exact activateOnce_of_activateWith chain interpreted h

end

end Context

/-- A type with a field and three constructors: the first passes its argument
and one more on to the second, which passes it on to the third, which stores
it. -/
def boxes : Scripted.Program :=
  let box : TypeRef := .named ⟨0⟩ []
  let int : TypeRef := .primitive .i32
  let passes (next : SymbolId) (arg : Node) : Node :=
    .mk .dummy (.block [.mk .dummy (.expressionStatement
      (.mk .dummy (.constructorInitializer ⟨next, box, []⟩ [arg])))])
  let constructor (symbol : SymbolId) (body : Node) : Scripted.MemberScript :=
    ⟨⟨symbol, ".ctor", ⟨0⟩, false, .source, .constructor [⟨"x", int⟩]⟩, some body, none⟩
  let x : Node := .mk .dummy (.parameterRef "x")
  { types := [⟨⟨⟨0⟩, "Box", .classType, true, 0, none, [], [⟨0⟩, ⟨1⟩, ⟨2⟩, ⟨3⟩]⟩, .fresh⟩]
    members := [
      constructor ⟨0⟩ (passes ⟨1⟩ (.mk .dummy (.binary .add x (.mk .dummy (.literal (.int .i32 1))) none))),
      constructor ⟨1⟩ (passes ⟨2⟩ x),
      constructor ⟨2⟩ (.mk .dummy (.assign (.mk .dummy (.fieldRef ⟨⟨3⟩, box, []⟩ none)) x)),
      ⟨⟨⟨3⟩, "value", ⟨0⟩, false, .source, .field int⟩, none, none⟩] }

theorem boxes_arguments_once :
    let c := Context.within boxes.host 8 ⟨0⟩
    let w := World.initial Scripted.State.initial
    ∃ links last o w', links.length = 2 ∧ c.Chain w ⟨0⟩ links last ∧
      c.activateOnce ⟨0⟩ (.named ⟨0⟩ []) [.i32 5] links last w = (.ok o, w') ∧
      (w'.loadSlot? o ⟨3⟩).map Value.display = some "6" := by
  intro c w
  obtain ⟨links, last, hlen, chain⟩ : ∃ links last, links.length = 2 ∧ c.Chain w ⟨0⟩ links last := by
    refine ⟨_, _, ?_, .link rfl rfl (fun d h => by cases h; rfl)
      (.link rfl rfl (fun d h => by cases h; rfl) (.last rfl fun tree h => ?_))⟩
    · rfl
    · cases h; rfl
  let d : MemberDescriptor :=
    ⟨⟨0⟩, ".ctor", ⟨0⟩, false, .source, .constructor [⟨"x", .primitive .i32⟩]⟩
  have made : (match c.activateWith d (.named ⟨0⟩ []) [.i32 5] w with
      | (.ok o, w') => decide ((w'.loadSlot? o ⟨3⟩).map Value.display = some "6")
      | _ => false) = true := by decide +kernel
  rcases h : c.activateWith d (.named ⟨0⟩ []) [.i32 5] w with ⟨e | o, w'⟩
  · rw [h] at made
    cases made
  · rw [h] at made
    have once := (Context.initializer_arguments_once boxes.host 8 ⟨0⟩ chain).2.2.1
    exact ⟨links, last, o, w', hlen, chain, once d _ _ _ o w' rfl rfl h, of_decide_eq_true made⟩

end OpTree
