/-
Calls in two contexts. Two contexts of one session that evaluate bodies and
dispatch alike make, reach and call everything alike, from tied worlds and with
frames that stand for each other.

The theorem about evaluation itself, which closes the circle, is in
`OpTree.Proofs.Engine`.
-/
import OpTree.Eval.Engine
import OpTree.Proofs.Activations
import OpTree.Proofs.Steps

namespace OpTree

open Run (Enough AgreesBy)

/-- A plan that ends with an error adds nothing to what is known of the worlds in which the
error stopped the runs. -/
theorem Run.Ends.endsWith {σ α : Type} {host : Host σ} {T : Terms (World σ)} (trust : T.Relays host)
    {dispatch dispatch' : ObjectRef → SymbolId → List ClosedType → List Value → Run (World σ) Value}
    {b : T.Bond} {e : EvalError} {action : HostAction σ α} (h : action.EndsWith e) {w : World σ}
    (hs : T.stops b (.failed e) w w) :
    Run.Ends T b (fun _ => Eq) (action.run dispatch w) (action.run dispatch' w) := by
  induction action generalizing w with
  | done result =>
    subst h
    exact .error (T.refl b) hs
  | read next ih => exact ih w.host (h w.host) hs
  | write state next ih => exact ih h (trust.write state hs)
  | allocate type next ih => exact ih _ (h _) (trust.newObject type hs)
  | dispatch => exact h.elim

theorem Run.Agrees.hostAction {σ α : Type} {host : Host σ} {W : WorldTerms host}
    {dispatch dispatch' : ObjectRef → SymbolId → List ClosedType → List Value → Run (World σ) Value}
    (h : ∀ o m ts vs, Run.Agrees W.toTerms (dispatch o m ts vs) (dispatch' o m ts vs))
    (action : HostAction σ α) (planned : W.toTerms.Resumes ∨ action.Relays) :
    Run.Agrees W.toTerms (action.run dispatch) (action.run dispatch') := by
  induction action with
  | done result => exact .ofExcept result
  | read next ih =>
    refine .of_ends fun b w w' hs => ?_
    simp only [HostAction.run, ← W.state hs]
    exact (ih w.host (planned.imp_right fun relays => relays w.host)).apply hs
  | write state next ih =>
    refine .of_ends fun b w w' hs => ?_
    obtain ⟨b', hb, ht⟩ := W.write state hs
    exact ((ih planned).apply ht).later hb
  | allocate type next ih =>
    refine .of_ends fun b w w' hs => ?_
    have made := (W.newObject type).apply hs
    simp only [Run.modifyGet] at made
    cases made with
    | ok hb ht ho =>
      simp only [HostAction.run, ← ho]
      exact ((ih _ (planned.imp_right fun relays => relays _)).apply ht).later hb
  | dispatch o m ts vs next ih =>
    refine .of_ends fun b w w' hs => ?_
    have called := (h o m ts vs).apply hs
    simp only [HostAction.run]
    generalize dispatch o m ts vs w = x at called
    generalize dispatch' o m ts vs w' = x' at called
    cases called with
    | short hl => exact .short hl
    | @short' x _ hl => exact .short' hl
    | ok hb ht hv =>
      cases hv
      exact ((ih _ (planned.imp_right fun relays => relays.2 _)).apply ht).later hb
    | @error b' e _ _ hb ht =>
      cases e with
      | exhausted => exact .error hb ht
      | failed e =>
        have went (resumes : W.toTerms.Resumes) := (ih (.error e) (.inl resumes)).apply
          (resumes _ _ _ _ ht)
        rcases planned with resumes | relays
        · exact (went resumes).later hb
        · rcases W.errors with resumes | trust
          · exact (went resumes).later hb
          · obtain rfl := trust.same ht
            exact (Run.Ends.endsWith trust (relays.1 e) ht).later hb

/-! ## Registering bodies -/

namespace Context

variable {σ : Type} {c c' : Context σ}

section registering

-- registering touches nothing but registries, so less than the terms for worlds is asked
variable {T : Terms (World σ)} (host : c'.host = c.host) (session : c'.session = c.session)
  (register : ∀ s entry, Run.Agrees T (World.register s entry) (World.register s entry))

include host session register

theorem registerBody_agrees (context : ClosedType) (m : SymbolId) (overrides : Option SymbolId)
    (table : MemberTable) :
    Run.Agrees T (c.registerBody context m overrides table)
      (c'.registerBody context m overrides table) := by
  simp only [registerBody, host, session]
  split
  · exact .pure _
  · split
    · exact .pure _
    · exact .bind (register c.session _) fun _ => .pure _

theorem registerAccessors_agrees (context : ClosedType) (accessors : List SymbolId) :
    ∀ table, Run.Agrees T (c.registerAccessors context accessors table)
      (c'.registerAccessors context accessors table) := by
  induction accessors with
  | nil => exact fun table => .pure table
  | cons accessor rest ih =>
    intro table
    simp only [registerAccessors, host]
    refine .bind (.ofExcept _) fun member => ?_
    exact .bind (registerBody_agrees host session register _ _ _ _) fun table => ih table

theorem registerMember_agrees (context : ClosedType) (mostDerived : Bool) (m : SymbolId)
    (table : MemberTable) :
    Run.Agrees T (c.registerMember context mostDerived m table)
      (c'.registerMember context mostDerived m table) := by
  simp only [registerMember, host]
  refine .bind (.ofExcept _) fun member => .ite (fun _ => .pure _) fun _ => ?_
  have body := registerBody_agrees host session register
  split
  · exact body _ _ _ _
  · exact .ite (fun _ => body _ _ _ _) fun _ => .pure _
  · exact registerAccessors_agrees host session register _ _ _
  · exact .pure _

theorem registerMembers_agrees (context : ClosedType) (mostDerived : Bool) (members : List SymbolId) :
    ∀ table, Run.Agrees T (c.registerMembers context mostDerived members table)
      (c'.registerMembers context mostDerived members table) := by
  induction members with
  | nil => exact fun table => .pure table
  | cons m rest ih =>
    exact fun table =>
      .bind (registerMember_agrees host session register _ _ _ _) fun table => ih table

theorem registerLevels_agrees : ∀ n n', Enough T.lax T.lax' n n' → ∀ type mostDerived table,
    Run.Agrees T (c.registerLevels n type mostDerived table)
      (c'.registerLevels n' type mostDerived table) := by
  refine Enough.induction (fun n n' hn h0 type mostDerived table => ?_)
    fun n n' _ ih type mostDerived table => ?_
  · exact hn.exhausted h0 (by rintro rfl; rfl) (by rintro rfl; rfl)
  · simp only [registerLevels, host]
    split
    · exact .pure _
    · refine .bind (.ofExcept _) fun descriptor => .ite (fun _ => .pure _) fun _ => ?_
      refine .bind (registerMembers_agrees host session register _ _ _ _) fun table => ?_
      split
      · exact .pure _
      · exact .bind (.ofExcept _) fun closed => ih closed false table

end registering

theorem memberTable_of_kept {type : ClosedType} {t : MemberTable} {w : World σ}
    (h : (w.session c.session).tables.get? type = some t) : c.memberTable type w = (.ok t, w) := by
  simp [Context.memberTable, h]

theorem memberTable_kept {type : ClosedType} {t : MemberTable} {w w' : World σ}
    (h : c.memberTable type w = (.ok t, w')) :
    (w'.session c.session).tables.get? type = some t := by
  cases ht : (w.session c.session).tables.get? type with
  | some t' =>
    rw [memberTable_of_kept ht] at h
    cases h
    exact ht
  | none =>
    simp only [Context.memberTable, Run.bind_def, Run.gets_def, ht] at h
    split at h
    · cases h
      simp
    · cases h

theorem registerLevels_tables (type : ClosedType) (mostDerived : Bool) (table : MemberTable)
    (w : World σ) (s : SessionId) :
    ((c.registerLevels c.fuel type mostDerived table w).2.session s).tables =
      (w.session s).tables := by
  let T : Terms (World σ) := .keeping
    (fun w w' => (w'.session s).tables = (w.session s).tables) False False (fun _ => rfl)
    fun h h' => h'.trans h
  have register (s' : SessionId) (entry : RegistryEntry) :
      Run.Agrees T (World.register s' entry) (World.register s' entry) := by
    refine Run.agrees_keeping fun w => ?_
    show ((w.mapSession s' _).session s).tables = _
    by_cases hs : s' = s
    · subst hs; simp [World.mapSession, World.session]
    · simp [World.mapSession, World.session, hs, Table.get?_insert_other]
  have levels : Run.Agrees T (c.registerLevels c.fuel type mostDerived table)
      (c.registerLevels c.fuel type mostDerived table) :=
    registerLevels_agrees rfl rfl register c.fuel c.fuel (.same _) type mostDerived table
  rcases (levels w).keeping with ⟨-, hk⟩ | ⟨hl, -⟩ | ⟨hl, -⟩
  · exact hk
  · exact hl.elim
  · exact hl.elim

end Context

/-- Two contexts of one session in which bodies and dispatched calls run alike. -/
structure Context.Agrees {σ : Type} {host : Host σ} (W : WorldTerms host) (c c' : Context σ) :
    Prop where
  of_host : c.host = host
  of_host' : c'.host = host
  session : c'.session = c.session
  fuel : Enough W.lax W.lax' c.fuel c'.fuel
  eval : ∀ node, Run.Agrees (NodeTerms.all W).machine (c.eval node) (c'.eval node)
  dispatch : ∀ o m ts vs, Run.Agrees W.toTerms (c.dispatch o m ts vs) (c'.dispatch o m ts vs)

theorem Context.runBody_eq {σ : Type} (c : Context σ) (a : Activation) (body : Node) :
    c.runBody a body = Run.asBody a (c.eval body) :=
  rfl

namespace Context.Agrees

variable {σ : Type} {host : Host σ} {W : WorldTerms host} {c c' : Context σ} (h : c.Agrees W c')

include h

theorem callHost {α : Type} (call : HostCall) (action : HostAction σ α)
    (planned : W.toTerms.Resumes ∨ action.Relays) :
    Run.Agrees W.toTerms (c.callHost call action) (c'.callHost call action) :=
  .bind (.modify fun _ _ _ => W.record call) fun _ =>
    W.noting call (.hostAction h.dispatch action planned)

theorem target (m : SymbolId) : Run.Agrees W.toTerms (c.target m) (c'.target m) := by
  have same : c'.target m = c.target m := by
    simp only [Context.target, h.of_host, h.of_host', h.session]
  rw [same]
  exact W.target c m h.of_host

/-- A member is reached alike, and through a handle that relays errors if handles have to. -/
theorem reach {α : Type} (m : SymbolId) {f f' : Target σ → Run (World σ) α}
    (hf : ∀ t, W.toTerms.Resumes ∨ t.Relays → Run.Agrees W.toTerms (f t) (f' t)) :
    Run.Agrees W.toTerms (c.target m >>= f) (c'.target m >>= f') := by
  have reached (b : W.Bond) : AgreesBy W.toTerms b
      (fun _ t t' => t = t' ∧ (W.toTerms.Resumes ∨ t.Relays)) (c.target m) (c'.target m) := by
    intro b₁ w w' hb hw
    refine ((h.target m).apply hw).answered fun t u found => ?_
    exact W.planned fun trust => trust.target h.of_host hw found
  refine .tied reached fun b t t' ht => ?_
  obtain ⟨rfl, planned⟩ := ht
  exact hf t planned b

theorem runBody {b : W.Bond} {a a' : Activation} (ha : (NodeTerms.all W).Tied b a a') (body : Node) :
    AgreesBy W.toTerms b (fun _ => Eq) (c.runBody a body) (c'.runBody a' body) := by
  rw [runBody_eq, runBody_eq]
  exact .asBody ha (h.eval body)

/-- Bodies are started on frames that stand for each other, above the class frames of two
types whatever is known of those. -/
theorem prepareOn (T : NodeTerms W) (alone : ¬T.alone) (roots : W.Bond → FrameId → FrameId → Prop)
    (later : ∀ {b b' f f'}, W.le b b' → roots b f f' → roots b' f f') {m : SymbolId}
    {type type' : ClosedType} {typeArgs : List ClosedType}
    (classFrame : ∀ b, AgreesBy W.toTerms b roots (World.classFrame c.session type)
      (World.classFrame c.session type'))
    (methodFrame : ∀ {b f f'}, roots b f f' → AgreesBy W.toTerms b T.start
      (World.childFrame f (.ofMethod m typeArgs)) (World.childFrame f' (.ofMethod m typeArgs)))
    (instanceFrame : ∀ {b f f'} o, roots b f f' → AgreesBy W.toTerms b W.sights
      (World.childFrame f (.ofInstance (some o))) (World.childFrame f' (.ofInstance (some o))))
    (receiver : Option ObjectRef) (args : List Value) (b : W.Bond) :
    AgreesBy W.toTerms b T.Tied (c.prepare m type typeArgs receiver args)
      (c'.prepare m type' typeArgs receiver args) := by
  simp only [Context.prepare, h.of_host, h.of_host', h.session]
  refine .seq (.ofExcept _) fun member => .ite (fun _ => .fail _) fun _ => ?_
  refine (classFrame b).bind fun b₁ f f' _ hf => ?_
  refine (methodFrame hf).bind fun b₂ g g' hb₂ hg => ?_
  refine AgreesBy.bind (.forList fun p _ => T.define _ _ hg) fun b₃ _ _ hb₃ _ => ?_
  have hg : T.start b₃ g g' := T.later hb₃ hg
  have hf : roots b₃ f f' := later hb₃ (later hb₂ hf)
  cases receiver with
  | none =>
    exact .pure fun b₄ hb => .atStart (T.later hb hg) (fun _ => .none) fun ha => absurd ha alone
  | some o =>
    refine AgreesBy.bind (Q := fun b => Option.Rel (W.holders b o))
      (.gets fun _ _ _ _ hw => W.instanceFrame? hw _ o) fun b₄ i i' hb₄ hi => ?_
    cases hi with
    | some hi =>
      exact .pure fun b₅ hb₅ =>
        .atStart (T.later (W.trans hb₄ hb₅) hg)
          (fun _ => .some (W.holds (W.laterHolders hb₅ hi))) fun ha => absurd ha alone
    | none =>
      refine (instanceFrame _ (later hb₄ hf)).bind fun b₅ i i' hb₅ hi => ?_
      exact .pure fun b₆ hb₆ =>
        .atStart (T.later (W.trans hb₄ (W.trans hb₅ hb₆)) hg)
          (fun _ => .some (W.laterSights hb₆ hi)) fun ha => absurd ha alone

theorem prepare (m : SymbolId) (containing : ClosedType) (typeArgs : List ClosedType)
    (receiver : Option ObjectRef) (args : List Value) (b : W.Bond) :
    AgreesBy W.toTerms b (NodeTerms.all W).Tied (c.prepare m containing typeArgs receiver args)
      (c'.prepare m containing typeArgs receiver args) := by
  refine h.prepareOn (.all W) id W.roots W.laterRoots (fun b => W.classFrame b _ _)
    (fun hf => W.methodFrame m typeArgs hf) (fun o hf b₁ w w' hb hw => ?_) receiver args b
  exact (W.instanceFrame o hf b₁ w w' hb hw).imp fun _ _ _ hg => W.seen hg.2

theorem runInterpreted (tree : Node) (m : SymbolId) (containing : ClosedType)
    (typeArgs : List ClosedType) (receiver : Option ObjectRef) (args : List Value) :
    Run.Agrees W.toTerms (c.runInterpreted tree m containing typeArgs receiver args)
      (c'.runInterpreted tree m containing typeArgs receiver args) :=
  .tied (h.prepare m containing typeArgs receiver args) fun _ _ _ ha => h.runBody ha tree

theorem invokeHandle (m : ResolvedMember) (handle : Handle σ)
    (planned : W.toTerms.Resumes ∨ handle.Relays) (receiver : Option Value) (args : List Value)
    (typeArgs : List ClosedType) :
    Run.Agrees W.toTerms (c.invokeHandle m handle receiver args typeArgs)
      (c'.invokeHandle m handle receiver args typeArgs) := by
  simp only [Context.invokeHandle, h.of_host, h.of_host']
  split
  · exact .fail _
  · exact h.callHost _ _ (planned.imp_right fun relays => relays.invoke _)

theorem callTarget (m : ResolvedMember) (target : Target σ)
    (planned : W.toTerms.Resumes ∨ target.Relays) (receiver : Option Value) (args : List Value) :
    Run.Agrees W.toTerms (c.callTarget m target receiver args)
      (c'.callTarget m target receiver args) := by
  cases target with
  | interpreted tree =>
    simp only [Context.callTarget, h.of_host, h.of_host']
    exact .bind (.ofExcept _) fun o => h.runInterpreted tree _ _ _ o args
  | physical handle => exact h.invokeHandle m handle planned receiver args _
  | empty => exact .pure _
  | bodiless | slot | staticSlot | frameSlot | accessors =>
    simp only [Context.callTarget, Context.notReachable, h.of_host, h.of_host']
    exact .fail _

theorem callMember (m : ResolvedMember) (receiver : Option Value) (args : List Value)
    (isVirtual : Bool) :
    Run.Agrees W.toTerms (c.callMember m receiver args isVirtual)
      (c'.callMember m receiver args isVirtual) := by
  have same (w : World σ) : c'.overrideOf w receiver m.symbol = c.overrideOf w receiver m.symbol := by
    simp only [Context.overrideOf, h.session]
  simp only [Context.callMember, same]
  refine h.reach _ fun target planned => .bind (.gets fun b w w' hw => ?_) fun derived => ?_
  · rw [W.overrideOf hw]
  · cases derived with
    | some entry => exact h.runInterpreted _ _ _ _ _ _
    | none => exact h.callTarget m target planned receiver args

theorem boundFrame (o : ObjectRef) (b : W.Bond) :
    AgreesBy W.toTerms b W.sights (c.boundFrame o) (c'.boundFrame o) := by
  intro b₁ w w' _ hw
  have hi := W.instanceFrame? hw c.session o
  simp only [Context.boundFrame, h.session]
  generalize w.instanceFrame? c.session o = i at hi
  generalize w'.instanceFrame? c.session o = i' at hi
  cases hi with
  | none => exact .error (W.refl _) (W.stop _ hw)
  | some hf => exact .ok (W.refl _) hw (W.holds hf)

theorem getMember (m : ResolvedMember) (receiver : Option Value) (index : List Value)
    (isVirtual : Bool) :
    Run.Agrees W.toTerms (c.getMember m receiver index isVirtual)
      (c'.getMember m receiver index isVirtual) := by
  simp only [Context.getMember, h.of_host, h.of_host', h.session, Context.notReachable]
  refine h.reach _ fun target planned => ?_
  cases target with
  | physical handle =>
    refine .ite (fun _ => .fail _) fun _ => .bind (.ofExcept _) fun member => ?_
    refine .ite (fun _ => ?_) fun _ => h.invokeHandle _ _ planned _ _ _
    exact h.callHost _ _ (planned.imp_right fun relays => relays.load _)
  | slot =>
    refine .bind (.ofExcept _) fun o => .bind (.gets fun _ _ _ hw => W.slots hw o _) fun stored => ?_
    cases stored with
    | some v => exact .pure _
    | none => exact .ofExcept _
  | staticSlot =>
    refine .bind (.gets fun _ _ _ hw => W.statics hw _ _) fun stored => ?_
    cases stored with
    | some v => exact .pure _
    | none => exact .ofExcept _
  | frameSlot name =>
    refine .bind (.ofExcept _) fun o => .tied (h.boundFrame o) fun b f f' hf => ?_
    refine AgreesBy.bind (Q := fun _ => Eq)
      (.gets fun _ _ _ hb hw => W.names hw (W.laterSights hb hf) name) fun b₁ v v' _ hv => ?_
    cases hv
    exact Run.Agrees.ofExcept v b₁
  | accessors getter setter =>
    cases getter with
    | some getter => exact h.callMember _ _ _ _
    | none => exact .fail _
  | interpreted | bodiless | empty => exact .fail _

theorem setMember (m : ResolvedMember) (receiver : Option Value) (index : List Value) (v : Value)
    (isVirtual : Bool) :
    Run.Agrees W.toTerms (c.setMember m receiver index v isVirtual)
      (c'.setMember m receiver index v isVirtual) := by
  simp only [Context.setMember, h.of_host, h.of_host', h.session, Context.notReachable]
  refine h.reach _ fun target planned => ?_
  cases target with
  | physical handle =>
    refine .ite (fun _ => .fail _) fun _ => .bind (.ofExcept _) fun member => ?_
    refine .ite (fun _ => ?_) fun _ => .bind (h.invokeHandle _ _ planned _ _ _) fun _ => .pure ()
    exact h.callHost _ _ (planned.imp_right fun relays => relays.store _ _)
  | slot => exact .bind (.ofExcept _) fun o => .modify fun _ _ _ => W.storeSlot o m.symbol v
  | staticSlot => exact .modify fun _ _ _ => W.storeStatic _ (m.containing, m.symbol) v
  | frameSlot name =>
    exact .bind (.ofExcept _) fun o => .tied (h.boundFrame o) fun _ _ _ hf => W.assign name v hf
  | accessors getter setter =>
    cases setter with
    | some setter => exact .bind (h.callMember _ _ _ _) fun _ => .pure ()
    | none => exact .fail _
  | interpreted | bodiless | empty => exact .fail _

/-! ## Member tables -/

theorem memberTable (type : ClosedType) :
    Run.Agrees W.toTerms (c.memberTable type) (c'.memberTable type) := by
  refine .of_ends fun b w w' hw => ?_
  simp only [Context.memberTable, h.session]
  have cached : Run.Agrees W.toTerms
      (Run.gets fun w => (w.session c.session).tables.get? type)
      (Run.gets fun w => (w.session c.session).tables.get? type) :=
    .gets fun _ _ _ hw => W.tables hw c.session type
  refine (cached.apply hw).bind fun b₁ found _ t t' _ ht he hf _ => ?_
  cases he
  cases found with
  | some table => exact .ok (W.refl _) ht rfl
  | none =>
    obtain ⟨hnone, rfl⟩ : (w.session c.session).tables.get? type = none ∧ w = t := by
      simpa only [Run.gets_def, Prod.mk.injEq, Except.ok.injEq] using hf
    have levels := registerLevels_agrees (h.of_host'.trans h.of_host.symm) h.session W.register
      c.fuel c'.fuel h.fuel type true (.empty type)
    refine (levels.apply ht).bind fun b₂ table _ u u' hb hu he hr _ => ?_
    cases he
    -- registering bodies put no table in the place of the missing one
    have missing : (u.session c.session).tables.get? type = none := by
      have kept := registerLevels_tables (c := c) type true (.empty type) w c.session
      rw [hr] at kept
      rw [kept]
      exact hnone
    have walked : u.Walked host c.session type table := ⟨c, w, h.of_host, rfl, hr⟩
    obtain ⟨b₃, hb, hk⟩ := W.keepTable c.session type table hu missing walked
    exact .ok hb hk rfl

/-! ## Making objects -/

theorem constructorChain : ∀ n n', Enough W.lax W.lax' n n' → ∀ m type args,
    Run.Agrees W.toTerms (c.constructorChain n m type args) (c'.constructorChain n' m type args) := by
  refine Enough.induction (fun n n' hn h0 m type args => ?_) fun n n' _ ih m type args => ?_
  · exact hn.exhausted h0 (by rintro rfl; rfl) (by rintro rfl; rfl)
  · simp only [Context.constructorChain, h.of_host, h.of_host', h.session]
    refine .bind (h.target m) fun target => ?_
    split
    · split
      · exact .pure _
      · rename_i next nextArgs _
        refine .bind (.ofExcept _) fun member => .ite (fun _ => .fail _) fun _ => ?_
        refine .ite (fun _ => .fail _) fun _ => ?_
        refine .tied (fun b => W.classFrame b _ _) fun b f f' hf => ?_
        refine (W.methodFrame _ _ hf).bind fun b₁ g g' _ hg => ?_
        refine AgreesBy.bind (.forList fun p _ => W.define _ _ hg) fun b₂ _ _ hb₂ _ => ?_
        have hg : W.frames b₂ g g' := W.later hb₂ hg
        refine AgreesBy.bind (Q := fun _ => Eq)
          (.gets fun _ _ _ hb hw => W.arguments hw (W.later hb hg)) fun b₃ resolver _ hb₃ hr => ?_
        cases hr
        refine .seq (.ofExcept _) fun nextType => .seq (h.target _) fun nextTarget => ?_
        have arguments : AgreesBy W.toTerms b₃ (fun _ => Eq)
            (Run.within (.start g none) (c.evalList nextArgs))
            (Run.within (.start g' none) (c'.evalList nextArgs)) :=
          .within (.atStart (W.later hb₃ hg) (fun _ => .none) False.elim)
            (.mapList fun node _ => h.eval node)
        split
        · exact arguments.bind fun _ _ _ _ he => by cases he; exact Run.Agrees.pure _ _
        · refine arguments.bind fun b₄ values _ _ he => ?_
          cases he
          exact .seq (ih _ _ _) fun rest => Run.Agrees.pure _ _
        · exact Run.Agrees.pure _ _
    · exact .pure _

theorem bind (o : ObjectRef) (type : ClosedType) (b : W.Bond) :
    AgreesBy W.toTerms b W.frames (c.bind o type) (c'.bind o type) := by
  simp only [Context.bind, h.session]
  refine (W.classFrame b _ _).bind fun b₁ f f' _ hf => ?_
  refine (W.instanceFrame _ hf).bind fun b₂ g g' _ hg b₃ w w' hb₃ hw => ?_
  refine ((h.memberTable type).apply hw).bind fun b₄ table _ u u' hb₄ hu he hr _ => ?_
  cases he
  have hb := W.trans hb₃ hb₄
  have bound := W.bindLink o _ type table hu (W.laterHolders hb hg.1) (memberTable_kept hr)
  exact bound.bind fun b₅ _ _ _ _ hb₅ ht _ _ _ =>
    .ok (W.refl _) ht (W.later (W.trans hb hb₅) hg.2)

theorem manufacture (type : ClosedType) (args : List Value) :
    Run.Agrees W.toTerms (c.manufacture type args) (c'.manufacture type args) := by
  simp only [Context.manufacture, h.of_host, h.of_host']
  refine .bind (.modify fun _ _ _ => W.record _) fun _ => ?_
  have synthesized (b : W.Bond) : AgreesBy W.toTerms b
      (fun _ x x' => x = x' ∧ (W.toTerms.Resumes ∨ (x args).Relays))
      (World.noting (.synthesize type) (Run.ofExcept (host.synthesize type)))
      (World.noting (.synthesize type) (Run.ofExcept (host.synthesize type))) := by
    intro b₁ w w' _ hw
    refine ((W.noting _ (.ofExcept _)).apply hw).answered fun backing t made => ?_
    have given := (Run.ofExcept_eq_ok.1 (World.noting_eq_ok.1 made)).1
    exact W.planned fun trust => trust.backing args given
  refine .tied synthesized fun b backing backing' hb => ?_
  obtain ⟨rfl, planned⟩ := hb
  exact h.callHost _ _ planned b

theorem declareProperties {b : W.Bond} {f f' : FrameId} (hf : W.frames b f f')
    (members : List SymbolId) :
    AgreesBy W.toTerms b (fun _ => Eq) (c.declareProperties f members)
      (c'.declareProperties f' members) := by
  induction members generalizing b with
  | nil => exact .pure fun _ _ => rfl
  | cons m rest ih =>
    simp only [Context.declareProperties, h.of_host, h.of_host']
    refine .seq (.ofExcept _) fun member => ?_
    split
    · exact (W.declare _ hf).bind fun b₁ _ _ hb _ => ih (W.later hb hf)
    · exact ih hf

theorem activateImplicit (type : ClosedType) (descriptor : TypeDescriptor) :
    Run.Agrees W.toTerms (c.activateImplicit type descriptor)
      (c'.activateImplicit type descriptor) := by
  refine .bind (h.manufacture type []) fun o => .tied (h.bind o type) fun b f f' hf => ?_
  split
  · exact (h.declareProperties hf _).bind fun b₁ _ _ _ _ => Run.Agrees.pure o b₁
  · exact Run.Agrees.pure o b

theorem activateWith (constructor : MemberDescriptor) (type : ClosedType) (args : List Value) :
    Run.Agrees W.toTerms (c.activateWith constructor type args)
      (c'.activateWith constructor type args) := by
  simp only [Context.activateWith, h.of_host, h.of_host']
  refine .ite (fun _ => .fail _) fun _ => .ite (fun _ => .fail _) fun _ => ?_
  refine .bind (.ofExcept _) fun descriptor => h.reach _ fun target planned => ?_
  cases target with
  | physical handle =>
    refine .ite (fun _ => .fail _) fun _ => .bind (h.callHost _ _ ?_) fun v => ?_
    · exact planned.imp_right fun relays => relays.invoke _
    split
    · exact .pure _
    · exact .fail _
  | interpreted tree =>
    refine .bind (h.constructorChain _ _ h.fuel _ _ _) fun chain => ?_
    refine .bind (h.manufacture _ _) fun o => .tied (h.bind o type) fun b _ _ _ => ?_
    refine (h.prepare _ _ _ _ _ b).bind fun b₁ a a' _ ha => ?_
    have ha : (NodeTerms.all W).Tied b₁ { a with prepared := chain.interpreted }
        { a' with prepared := chain.interpreted } :=
      { frame := ha.frame, self := ha.self, alike := { ha.alike with prepared := rfl } }
    exact (h.runBody ha tree).bind fun b₂ _ _ _ _ => Run.Agrees.pure o b₂
  | empty => exact h.activateImplicit type descriptor
  | slot | staticSlot | frameSlot | accessors | bodiless => exact .fail _

theorem activate (type : ClosedType) (args : List Value) :
    Run.Agrees W.toTerms (c.activate type args) (c'.activate type args) := by
  simp only [Context.activate, h.of_host, h.of_host']
  refine .bind (.ofExcept _) fun descriptor => ?_
  refine .bind (.ofStop (host.resolveConstructor_agrees h.fuel descriptor type args)) fun chosen => ?_
  cases chosen with
  | some constructor => exact h.activateWith constructor type args
  | none => exact h.activateImplicit type descriptor

theorem serve (table : MemberTable) (o : ObjectRef) (m : SymbolId) (typeArgs : List ClosedType)
    (args : List Value) :
    Run.Agrees W.toTerms (c.serve table o m typeArgs args) (c'.serve table o m typeArgs args) := by
  simp only [Context.serve, h.session]
  refine .bind (.gets fun b w w' hw => ?_) fun entry => ?_
  · have he : (w.session c.session).registry.get? = (w'.session c.session).registry.get? :=
      funext (W.entries hw c.session)
    rw [he]
  · cases entry with
    | some entry => exact h.runInterpreted _ _ _ _ _ _
    | none => exact h.callMember _ _ _ _

end Context.Agrees

end OpTree
