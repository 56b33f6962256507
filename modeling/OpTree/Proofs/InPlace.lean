/-
Initializers evaluated in place. A session makes an object in one of two ways. It evaluates the
arguments of the initializers in a chain of constructors beforehand, makes and binds the object,
and runs the bodies, which take the lists over (`Session.createInstanceWith`). Or the object is
made and bound first, and the constructor is interpreted in its frame, where each initializer
evaluates its arguments when the body comes to it (`Session.createThenInterpret`).

If the arguments are self-contained the two come to the same object, with the same slots and
the same calls to the host (`createInstanceWith_in_place`): a body that holds the lists that its
initializers' arguments come to does what it does without them (`runConstructor_alike`), and a
body that ends without them has evaluated arguments that come to such lists
(`evaluateLinks_of_runConstructor`).

If an argument writes to a parameter the two differ. Beforehand it is evaluated in a method frame
of its own, and the body is then bound to the arguments afresh; what it wrote is lost
(`advancing.created_differs`).
-/
import OpTree.Proofs.Caches
import OpTree.Proofs.Construct
import OpTree.Proofs.SelfContained
import OpTree.Session

namespace OpTree

/-! ## Runs that succeed alike -/

/-- If either run succeeded so did the other, with one answer and in one state. -/
def SucceedAlike {σ α : Type} (x y : Except Stop α × σ) : Prop :=
  ∀ a t, x = (.ok a, t) ↔ y = (.ok a, t)

namespace SucceedAlike

variable {σ α β : Type}

theorem bind {m m' : Run σ α} {s s' : σ} (h : SucceedAlike (m s) (m' s')) (f : α → Run σ β) :
    SucceedAlike ((m >>= f) s) ((m' >>= f) s') := by
  intro b t
  simp only [Run.bind_eq_ok, h _ _]

theorem seq {m : Run σ α} {f g : α → Run σ β} {s : σ}
    (h : ∀ a t, m s = (.ok a, t) → SucceedAlike (f a t) (g a t)) :
    SucceedAlike ((m >>= f) s) ((m >>= g) s) := by
  intro b t
  rw [Run.bind_eq_ok, Run.bind_eq_ok]
  constructor
  · rintro ⟨a, u, first, rest⟩
    exact ⟨a, u, first, (h a u first b t).1 rest⟩
  · rintro ⟨a, u, first, rest⟩
    exact ⟨a, u, first, (h a u first b t).2 rest⟩

theorem orSpan {m m' : Run σ α} {s s' : σ} (h : SucceedAlike (m s) (m' s')) (span : Span) :
    SucceedAlike (Run.orSpan span m s) (Run.orSpan span m' s') := by
  intro a t
  rw [Run.orSpan_eq_ok, Run.orSpan_eq_ok, h a t]

theorem withScope {m : Run (Machine σ) α} {s s' : Machine σ}
    (h : SucceedAlike (m s.inScope) (m s'.inScope)) :
    SucceedAlike (Run.withScope m s) (Run.withScope m s') := by
  have ends (s t : Machine σ) (a : α) : Run.withScope m s = (.ok a, t) ↔
      ∃ u, m s.inScope = (.ok a, u) ∧ u.outOfScope = t := by
    rw [Run.withScope_apply]
    rcases m s.inScope with ⟨r, u⟩
    constructor
    · rintro ⟨⟩
      exact ⟨u, rfl, rfl⟩
    · rintro ⟨_, ⟨⟩, rfl⟩
      rfl
  intro a t
  simp only [ends, h a]

theorem asBody {a a' : Activation} {m : Run (Machine σ) Value} {w : World σ}
    (h : SucceedAlike (m ⟨w, a⟩) (m ⟨w, a'⟩)) :
    SucceedAlike (Run.asBody a m w) (Run.asBody a' m w) := by
  intro v t
  simp only [Run.asBody_eq_ok, h _ _]

end SucceedAlike

/-! ## Bodies that hold lists -/

/-- The machine, with argument lists that were evaluated beforehand. -/
def Machine.holding {σ : Type} (s : Machine σ) (lists : List (List Value)) : Machine σ :=
  { s with activation := { s.activation with prepared := lists } }

namespace Context

section

variable {σ : Type} (c : Context σ)

/-- Run the body of a constructor against an object, in an activation that holds argument
lists. -/
def runConstructor (tree : Node) (m : SymbolId) (type : ClosedType) (o : ObjectRef)
    (args : List Value) (lists : List (List Value)) : Run (World σ) Unit := do
  let a ← c.prepare m type [] (some o) args
  let _ ← c.runBody { a with prepared := lists } tree
  return ()

variable {c} {use : MemberUse} {args : List Node} {s t : Machine σ}

theorem closeMember_holding (lists : List (List Value)) {next : ResolvedMember} :
    Run.closeMember use (s.holding lists) = (.ok next, s.holding lists) ↔
      Run.closeMember use s = (.ok next, s) :=
  ⟨fun h => (closeMember_eq_ok h).2.2 s.activation rfl,
    fun h => (closeMember_eq_ok h).2.2 (s.holding lists).activation rfl⟩

theorem currentInstance_holding (lists : List (List Value)) {o : ObjectRef} {u : World σ} :
    Run.currentInstance ⟨u, (s.holding lists).activation⟩ =
        (.ok o, ⟨u, (s.holding lists).activation⟩) ↔
      Run.currentInstance ⟨u, s.activation⟩ = (.ok o, ⟨u, s.activation⟩) :=
  ⟨fun h => (currentInstance_eq_ok h).2 s.activation rfl,
    fun h => (currentInstance_eq_ok h).2 (s.holding lists).activation rfl⟩

/-- An initializer that names an interpreted constructor runs its body against the instance, with
the arguments that it finds and the lists that those leave over. -/
theorem runConstructorInitializer_eq_ok {v : Value} {tree : Node} {u : World σ}
    (reached : c.target use.symbol s.world = (.ok (.interpreted tree), u)) :
    c.runConstructorInitializer use args s = (.ok v, t) ↔ ∃ next o values lists s₁ u₁,
      Run.closeMember use s = (.ok next, s) ∧
      Run.currentInstance ⟨u, s.activation⟩ = (.ok o, ⟨u, s.activation⟩) ∧
      c.initializerArguments args ⟨u, s.activation⟩ = (.ok (values, lists), s₁) ∧
      c.runConstructor tree use.symbol next.containing o values lists s₁.world = (.ok (), u₁) ∧
      v = .void ∧ t = ⟨u₁, s₁.activation⟩ := by
  simp only [runConstructorInitializer, runConstructor, Run.bind_eq_ok, Run.liftM_world,
    Run.onWorld_eq_ok]
  constructor
  · rintro ⟨next, s₁, closed, target, s₂, ⟨u', found, rfl⟩, rest⟩
    obtain ⟨rfl, symbol, -⟩ := closeMember_eq_ok closed
    rw [symbol, reached] at found
    cases found
    simp only [Run.bind_eq_ok, Run.onWorld_eq_ok] at rest
    obtain ⟨o, s₂, ho, ⟨values, lists⟩, s₃, given, a, s₄, ⟨u₁, prepared, rfl⟩, v', s₅,
      ⟨u₂, ran, rfl⟩, returns⟩ := rest
    obtain ⟨rfl, -⟩ := currentInstance_eq_ok ho
    cases returns
    rw [symbol] at prepared
    exact ⟨next, o, values, lists, s₃, u₂, closed, ho, given, ⟨a, u₁, prepared, v', u₂, ran, rfl⟩,
      rfl, rfl⟩
  · rintro ⟨next, o, values, lists, s₁, u₁, closed, ho, given, ⟨a, u₂, prepared, v', u₃, ran, returns⟩,
      rfl, rfl⟩
    cases returns
    obtain ⟨-, symbol, -⟩ := closeMember_eq_ok closed
    rw [← symbol] at reached prepared
    refine ⟨next, s, closed, .interpreted tree, ⟨u, s.activation⟩, ⟨u, reached, rfl⟩, ?_⟩
    simp only [Run.bind_eq_ok, Run.onWorld_eq_ok]
    exact ⟨o, _, ho, (values, lists), s₁, given, a, _, ⟨u₂, prepared, rfl⟩, v', _, ⟨u₁, ran, rfl⟩, rfl⟩

/-- The first of the lists that are held is taken over, and the others are passed on. -/
theorem initializerArguments_holding (values : List Value) (lists : List (List Value)) :
    c.initializerArguments args (s.holding (values :: lists)) = (.ok (values, lists), s.holding []) :=
  rfl

theorem initializerArguments_eq_ok (none : s.activation.prepared = []) {values : List Value}
    {lists : List (List Value)} :
    c.initializerArguments args s = (.ok (values, lists), t) ↔
      c.evalList args s = (.ok values, t) ∧ lists = [] := by
  rw [initializerArguments, Run.bind_def, Run.gets_def]
  simp only [none, Run.bind_eq_ok]
  constructor
  · rintro ⟨_, t, ran, ⟨⟩⟩
    exact ⟨ran, rfl⟩
  · rintro ⟨ran, rfl⟩
    exact ⟨values, t, ran, rfl⟩

end

section

variable {σ : Type} {host : Host σ} {session : SessionId} {k : Nat} {use : MemberUse}
  {args : List Node} {s s' : Machine σ}

/-- An initializer that takes over the list that its arguments come to does what it does in place,
if the body that it calls does so with the lists that are left. -/
theorem initializer_alike {tree : Node} {next : ClosedType} {values : List Value}
    {lists : List (List Value)} (sound : s.Sound host) (none : s.activation.prepared = [])
    (decided : host.decide use.symbol = .ok (.interpreted tree))
    (closes : (Run.closeType use.containing s).1 = .ok next)
    (evaluates : ∀ u : World σ, u.frames = s.world.frames →
      (Context.within host k session).evalList args ⟨u, s.activation⟩ =
        (.ok values, ⟨u, s.activation⟩))
    (body : ∀ u o, u.Sound host → SucceedAlike
      ((Context.within host k session).runConstructor tree use.symbol next o values lists u)
      ((Context.within host k session).runConstructor tree use.symbol next o values [] u)) :
    SucceedAlike
      ((Context.within host k session).runConstructorInitializer use args
        (s.holding (values :: lists)))
      ((Context.within host k session).runConstructorInitializer use args s) := by
  let c := Context.within host k session
  obtain ⟨u, reached, -, sound'⟩ := target_settles (c := c) decided sound
  have reached' : c.target use.symbol (s.holding (values :: lists)).world =
      (.ok (.interpreted tree), u) := reached
  have taken : c.initializerArguments args ⟨u, (s.holding (values :: lists)).activation⟩ =
      (.ok (values, lists), ⟨u, s.activation⟩) := by
    have emptied : Machine.holding ⟨u, s.activation⟩ [] = ⟨u, s.activation⟩ := by
      rw [← none]
      rfl
    exact (initializerArguments_holding (s := ⟨u, s.activation⟩) values lists).trans (by rw [emptied])
  have found : c.initializerArguments args ⟨u, s.activation⟩ = (.ok (values, []), ⟨u, s.activation⟩) :=
    (initializerArguments_eq_ok (s := ⟨u, s.activation⟩) none).2
      ⟨evaluates u (c.target_frames reached), rfl⟩
  intro v t
  rw [runConstructorInitializer_eq_ok reached', runConstructorInitializer_eq_ok reached]
  simp only [closeMember_holding, currentInstance_holding, taken, found]
  constructor
  · rintro ⟨member, o, _, _, _, u₁, closed, ho, ⟨⟩, ran, rfl, rfl⟩
    cases (closeType_of_closeMember closed).symm.trans closes
    exact ⟨member, o, values, [], _, u₁, closed, ho, rfl, (body u o sound'.world () u₁).1 ran, rfl, rfl⟩
  · rintro ⟨member, o, _, _, _, u₁, closed, ho, ⟨⟩, ran, rfl, rfl⟩
    cases (closeType_of_closeMember closed).symm.trans closes
    exact ⟨member, o, values, lists, _, u₁, closed, ho, rfl, (body u o sound'.world () u₁).2 ran, rfl,
      rfl⟩

/-- Under every bound from `k` on, the call of a constructor by an initializer succeeds alike in
the machines. -/
def CallsAlike (host : Host σ) (session : SessionId) (use : MemberUse) (args : List Node) (k : Nat)
    (s s' : Machine σ) : Prop :=
  ∀ j, k ≤ j → SucceedAlike ((Context.within host j session).runConstructorInitializer use args s)
    ((Context.within host j session).runConstructorInitializer use args s')

/-- So does then a node that is such a call. -/
theorem eval_alike_of_calls {x : Node} (hx : x.Calls use args)
    (alike : CallsAlike host session use args k s s') {j : Nat} (hj : k + 2 ≤ j) :
    SucceedAlike ((Context.within host j session).eval x s)
      ((Context.within host j session).eval x s') := by
  obtain ⟨j, rfl⟩ : ∃ i, j = i + 2 := ⟨j - 2, by omega⟩
  cases hx with
  | call => exact .orSpan (alike _ (by omega)) _
  | statement => exact .orSpan (.bind (.bind (.orSpan (alike _ (by omega)) _) _) _) _

/-- So does a body that begins with such a node, in a scope of its own if it is a block. -/
theorem eval_alike_of_leadingInitializer {body : Node}
    (hl : body.leadingInitializer? = some (use, args))
    (alike : CallsAlike host session use args k s s')
    (inScope : CallsAlike host session use args k s.inScope s'.inScope) {j : Nat} (hj : k + 3 ≤ j) :
    SucceedAlike ((Context.within host j session).eval body s)
      ((Context.within host j session).eval body s') := by
  rcases Node.calls_of_leadingInitializer hl with ⟨span, first, rest, rfl, hx⟩ | ⟨-, hx⟩
  · obtain ⟨j, rfl⟩ : ∃ i, j = i + 1 := ⟨j - 1, by omega⟩
    have called := eval_alike_of_calls hx inScope (j := j) (by omega)
    exact .orSpan (.withScope (.bind (.bind (.bind called _) _) _)) _
  · exact eval_alike_of_calls hx alike (by omega)

/-- A body that ends has come through the initializer that it begins with. -/
theorem initializer_of_eval {body : Node} (hl : body.leadingInitializer? = some (use, args))
    {v : Value} {t : Machine σ} (h : (Context.within host k session).eval body s = (.ok v, t)) :
    ∃ j s₁ v₁ t₁, j ≤ k ∧ (s₁ = s ∨ s₁ = s.inScope) ∧
      (Context.within host j session).runConstructorInitializer use args s₁ = (.ok v₁, t₁) := by
  rcases Node.calls_of_leadingInitializer hl with ⟨span, first, rest, rfl, hx⟩ | ⟨-, hx⟩
  · obtain ⟨k, rfl, ran⟩ := eval_eq_ok h
    have ran : Run.withScope ((Context.within host k session).execStatements (first :: rest) >>=
        fun _ => pure Value.void) s = (.ok v, t) := ran
    rw [Run.withScope_apply] at ran
    rcases hm : ((Context.within host k session).execStatements (first :: rest) >>=
      fun _ => pure Value.void) s.inScope with ⟨r, u⟩
    rw [hm] at ran
    cases ran
    simp only [execStatements, exec, Run.bind_assoc, Run.bind_eq_ok] at hm
    obtain ⟨v₁, t₁, called, -⟩ := hm
    obtain ⟨j, v', hj, -, ran⟩ := eval_calls hx called
    exact ⟨j, s.inScope, v', t₁, by omega, .inr rfl, ran⟩
  · obtain ⟨j, v', hj, -, ran⟩ := eval_calls hx h
    exact ⟨j, s, v', t, hj, .inl rfl, ran⟩

variable {m : SymbolId} {links : List InitializerLink}

/-- A body that holds the lists that the arguments of the initializers come to, evaluated from
wherever, does what it does with the initializers in place. -/
theorem runConstructor_alike (chain : SelfContainedChain host session m links) :
    ∀ {j : Nat} {tree : Node} {type : ClosedType} {args : List Value} {lists : List (List Value)}
      {w t w₁ : World σ} {o : ObjectRef}, host.decide m = .ok (.interpreted tree) →
      w.Sound host → w₁.Sound host →
      (Context.within host k session).evaluateLinks m type args links w = (.ok lists, t) →
      k + 3 * links.length ≤ j →
      SucceedAlike ((Context.within host j session).runConstructor tree m type o args lists w₁)
        ((Context.within host j session).runConstructor tree m type o args [] w₁) := by
  induction chain with
  | last =>
    intro j tree type args lists w t w₁ o _ _ _ evaluated _
    cases evaluated
    exact fun _ _ => Iff.rfl
  | @link m body use nodes rest hm hl parts chain ih =>
    intro j tree type args lists w t w₁ o decided sound sound₁ evaluated hj
    cases hm.symm.trans decided
    obtain ⟨next, decided'⟩ := chain.first
    refine .seq fun b u₁ prepared => .bind (.asBody ?_) _
    have begun : (Context.within host k session).prepare m type [] (some o) args w₁ = (.ok b, u₁) :=
      prepared
    obtain ⟨u, -, soundAfter, links⟩ := evaluateLinks_cons (c := .within host k session)
      ⟨body, use, nodes⟩ rest sound₁ sound begun decided' fun x hx => parts x hx k
    obtain ⟨nextType, values, lists', closes, evaluates, later, rfl⟩ := (links _ _).1 evaluated
    -- wherever names stand for what they do at the start of the body, the arguments come to the list
    have calls (s : Machine σ) (sound : s.Sound host) (none : s.activation.prepared = [])
        (alike : s.ReadsAlike ⟨u₁, b⟩) :
        CallsAlike host session use nodes (k + 3 * rest.length) (s.holding (values :: lists')) s := by
      intro i hi
      refine initializer_alike sound none decided' ((alike.closeType use.containing).trans closes)
        (fun u' frames => ?_) fun u' o sound' => ih decided' soundAfter sound' later hi
      obtain ⟨-, evaluates⟩ := evalList_selfContained (fun x hx => parts x hx k) _ _ _ evaluates
      exact evalList_mono (by omega) (evaluates _ (alike.symm.trans (.of_frames frames.symm)))
    obtain ⟨base, inst, rfl⟩ := prepare_start begun
    have start := prepare_sound sound₁ begun
    refine eval_alike_of_leadingInitializer (k := k + 3 * rest.length) hl ?_ ?_ ?_
    · exact calls ⟨u₁, .start base inst⟩ start rfl ⟨fun _ => rfl, rfl⟩
    · exact calls (Machine.inScope ⟨u₁, .start base inst⟩) start.inScope rfl start.readsAlike_inScope
    · simp only [List.length_cons] at hj
      omega

/-- A body that ends with the initializers in place has evaluated their arguments, and these can be
evaluated from any other world as well. -/
theorem evaluateLinks_of_runConstructor (chain : SelfContainedChain host session m links) :
    ∀ {j : Nat} {tree : Node} {type : ClosedType} {args : List Value} {w w₁ t : World σ}
      {o : ObjectRef}, j ≤ k → host.decide m = .ok (.interpreted tree) →
      w.Sound host → w₁.Sound host →
      (Context.within host j session).runConstructor tree m type o args [] w₁ = (.ok (), t) →
      ∃ lists u, (Context.within host k session).evaluateLinks m type args links w =
        (.ok lists, u) := by
  induction chain with
  | last => exact fun {_ _ _ _ w _ _ _} _ _ _ _ _ => ⟨[], w, rfl⟩
  | @link m body use nodes rest hm hl parts chain ih =>
    intro j tree type args w w₁ t o hj decided sound sound₁ ran
    cases hm.symm.trans decided
    obtain ⟨next, decided'⟩ := chain.first
    obtain ⟨b, u₁, prepared, ran⟩ := Run.bind_eq_ok.1 ran
    obtain ⟨v, u₂, ran, -⟩ := Run.bind_eq_ok.1 ran
    have begun : (Context.within host k session).prepare m type [] (some o) args w₁ = (.ok b, u₁) :=
      prepared
    obtain ⟨u, -, soundAfter, links⟩ := evaluateLinks_cons (c := .within host k session)
      ⟨body, use, nodes⟩ rest sound₁ sound begun decided' fun x hx => parts x hx k
    obtain ⟨base, inst, rfl⟩ := prepare_start begun
    have start := prepare_sound sound₁ begun
    obtain ⟨v', s', ended, -⟩ := Run.asBody_eq_ok.1 ran
    have ended : (Context.within host j session).eval body ⟨u₁, .start base inst⟩ = (.ok v', s') := ended
    obtain ⟨i, s, v₁, t₁, hi, hs, called⟩ := initializer_of_eval hl ended
    have inside : s.Sound host ∧ s.activation.prepared = [] ∧ s.ReadsAlike ⟨u₁, .start base inst⟩ := by
      rcases hs with rfl | rfl
      · exact ⟨start, rfl, fun _ => rfl, rfl⟩
      · exact ⟨start.inScope, rfl, start.readsAlike_inScope⟩
    obtain ⟨soundIn, none, alike⟩ := inside
    let c := Context.within host i session
    obtain ⟨u', reached, -, sound'⟩ := target_settles (c := c) decided' soundIn
    obtain ⟨member, o', values, lists, s₂, u₃, closed, -, given, ran, -, -⟩ :=
      (runConstructorInitializer_eq_ok reached).1 called
    obtain ⟨evaluated, rfl⟩ := (initializerArguments_eq_ok (s := ⟨u', s.activation⟩) none).1 given
    obtain ⟨rfl, evaluates⟩ := evalList_selfContained (fun x hx => parts x hx i) _ _ _ evaluated
    obtain ⟨lists, t', later⟩ := ih (by omega : i ≤ k) decided' soundAfter sound'.world ran
    refine ⟨values :: lists, t', (links _ _).2 ⟨member.containing, values, lists, ?_, ?_, later, rfl⟩⟩
    · exact (alike.closeType use.containing).symm.trans (closeType_of_closeMember closed)
    · refine evalList_mono (by omega : i ≤ k) (evaluates _ ?_)
      exact (Machine.ReadsAlike.of_frames (c.target_frames reached)).trans alike

end

/-! ## The two ways to make an object -/

section

variable {σ : Type} (c : Context σ)

/-- Make and bind an object, and run the body of a constructor against it, in an activation that
holds argument lists. -/
def makeThenRun (tree : Node) (m : SymbolId) (type : ClosedType) (args : List Value)
    (lists : List (List Value)) : Run (World σ) ObjectRef := do
  let o ← c.manufacture type []
  let _ ← c.bind o type
  let _ ← c.target m
  c.runConstructor tree m type o args lists
  return o

variable {c} {host : Host σ} {W : WorldTerms host} {c' : Context σ} (h : c.Agrees W c')

include h

theorem Agrees.runConstructor (tree : Node) (m : SymbolId) (type : ClosedType) (o : ObjectRef)
    (args : List Value) (lists : List (List Value)) :
    Run.Agrees W.toTerms (c.runConstructor tree m type o args lists)
      (c'.runConstructor tree m type o args lists) := by
  refine .tied (h.prepare _ _ _ _ _) fun b a a' ha => ?_
  have ha : (NodeTerms.all W).Tied b { a with prepared := lists } { a' with prepared := lists } :=
    { frame := ha.frame, self := ha.self, alike := { ha.alike with prepared := rfl } }
  exact (h.runBody ha tree).bind fun b₁ _ _ _ _ => Run.Agrees.pure () b₁

theorem Agrees.makeThenRun (tree : Node) (m : SymbolId) (type : ClosedType) (args : List Value)
    (lists : List (List Value)) :
    Run.Agrees W.toTerms (c.makeThenRun tree m type args lists)
      (c'.makeThenRun tree m type args lists) := by
  refine .bind (h.manufacture type []) fun o => .tied (h.bind o type) fun b _ _ _ => ?_
  exact (Run.Agrees.bind (h.target m) fun _ =>
    .bind (h.runConstructor tree m type o args lists) fun _ => .pure o) b

end

section

variable {σ : Type} {host : Host σ} {session : SessionId} {n : Nat} {w w' : World σ} {o : ObjectRef}
  {type : ClosedType} {args : List Value} {lists : List (List Value)} {m : SymbolId} {tree : Node}

/-- Where an object is made, the body of its constructor runs to its end. -/
theorem runs_of_makeThenRun (sound : w.Sound host)
    (h : (Context.within host n session).makeThenRun tree m type args lists w = (.ok o, w')) :
    ∃ w₁, w₁.Sound host ∧
      (Context.within host n session).runConstructor tree m type o args lists w₁ = (.ok (), w') := by
  have self : (Context.within host n session).Agrees (World.mirroring host) _ :=
    Context.within_self _ n session
  simp only [makeThenRun, Run.bind_eq_ok] at h
  obtain ⟨o', w₁, made, frame, w₂, bound, target, w₃, reached, ⟨⟩, w₄, ran, ⟨⟩⟩ := h
  have sound₁ := Run.AgreesBy.sound (self.manufacture type []) sound made
  have sound₂ := Run.AgreesBy.sound (self.bind o type) sound₁ bound
  exact ⟨w₃, Run.AgreesBy.sound (self.target m) sound₂ reached, ran⟩

theorem arity_of_runConstructor {d : MemberDescriptor} (member : host.member m = .ok d)
    (h : (Context.within host n session).runConstructor tree m type o args lists w = (.ok (), w')) :
    d.arity = args.length := by
  obtain ⟨a, w₁, prepared, -⟩ := Run.bind_eq_ok.1 h
  obtain ⟨d', w₂, found, prepared⟩ := Run.bind_eq_ok.1 prepared
  obtain ⟨known, -⟩ := Run.ofExcept_eq_ok.1 found
  cases member.symm.trans known
  split at prepared
  · cases prepared
  · rename_i arity
    exact not_not.1 arity

theorem arity_of_activateWith {d : MemberDescriptor}
    (h : (Context.within host n session).activateWith d type args w = (.ok o, w')) :
    d.arity = args.length := by
  simp only [activateWith] at h
  split at h
  · cases h
  · split at h
    · cases h
    · rename_i arity
      exact not_not.1 arity

theorem bind_frame {frame : FrameId} (sound : w.Sound host)
    (h : (Context.within host n session).bind o type w = (.ok frame, w')) :
    w'.frames.currentInstance? frame = some o ∧ w'.frames.classType? frame = some type := by
  have self := Context.within_grows host n session
  simp only [Context.bind, Run.bind_eq_ok] at h
  obtain ⟨classFrame, w₁, hc, frame', w₂, ⟨⟩, table, w₃, ht, _, w₄, hb, ⟨⟩⟩ := h
  obtain ⟨-, root⟩ := sound.classFrame hc
  let s := w₁.frames.addChild classFrame (.ofInstance (some o))
  have grown : s.2.Extends w₃.frames := ((self.memberTable type).grows ht).frames
  have kept : w₃.frames = w'.frames := by
    rw [World.bind] at hb
    split at hb <;> cases hb
    rfl
  rw [kept] at grown
  have has : s.2.Has s.1 := w₁.frames.has_add _ _
  have root' : s.2.frame? classFrame = some ⟨.ofClass type, [], .empty⟩ :=
    (FrameStore.KeepsRoots.add w₁.frames _ _).roots root
  have chain : w'.frames.chain s.1 = [s.1, classFrame] := by
    have made : s.2.chain s.1 = s.1 :: w₁.frames.chain classFrame := FrameStore.chain_addChild ..
    rw [grown.chain has, made, root.chain]
  have own : w'.frames.kind? s.1 = some (.ofInstance (some o)) :=
    (grown.kind? has).trans (FrameStore.kind?_addChild ..)
  have below : w'.frames.kind? classFrame = some (.ofClass type) := by
    rw [grown.kind? (Option.isSome_iff_exists.2 ⟨_, root'⟩), FrameStore.kind?, root']
    rfl
  constructor
  · show w'.frames.instanceOf? (w'.frames.chain s.1) = some o
    rw [chain, FrameStore.instanceOf?, own]
  · show w'.frames.classType? s.1 = some type
    simp only [FrameStore.classType?, FrameStore.classFrame, chain, List.getLastD_cons,
      List.getLastD_nil, below]

/-- Where the chain is interpreted, an activation evaluates the arguments of its links, and makes
the object when it has them. -/
theorem activateWith_eq {d : MemberDescriptor} {links : List InitializerLink} {last : Target σ}
    (chain : (Context.within host n session).Chain w d.symbol links last) (hn : links.length < n)
    (interpreted : last.isInterpreted = true) (constructor : d.kind.isConstructor = true)
    {descriptor : TypeDescriptor} (described : host.descriptorOf type = .ok descriptor)
    (arity : d.arity = args.length) {w₁ : World σ}
    (reached : (Context.within host n session).target d.symbol w = (.ok (.interpreted tree), w₁)) :
    (Context.within host n session).activateWith d type args w =
      ((Context.within host n session).evaluateLinks d.symbol type args links >>= fun lists =>
        (Context.within host n session).makeThenRun tree d.symbol type args lists) w₁ := by
  let c := Context.within host n session
  have self := Context.within_grows host n session
  have known : (liftM (c.host.descriptorOf type) : Run (World σ) TypeDescriptor) w =
      (.ok descriptor, w) := Run.ofExcept_eq_ok.2 ⟨described, rfl⟩
  have followed : c.constructorChain c.fuel d.symbol type args w₁ = _ :=
    constructorChain_eq self chain hn type args ((self.target _).grows reached)
  have cached := target_recorded (c := c) reached
  rw [activateWith, constructor, arity]
  simp only [Bool.not_true, Bool.false_eq_true, if_false, ne_eq, not_true_eq_false]
  rw [Run.bind_ok known, Run.bind_ok reached]
  dsimp only
  rw [Run.bind_def, followed, ← Run.bind_def]
  simp only [Run.bind_assoc]
  rw [Run.bind_ok (c.target_of_cached cached)]
  refine Run.bind_congr fun lists w₂ evaluated => ?_
  have own : ConstructorChain.ofLists last lists = ⟨[], lists⟩ := by
    cases last with
    | interpreted tree => rfl
    | _ => cases interpreted
  rw [own]
  show (c.manufacture type [] >>= _) w₂ = (c.manufacture type [] >>= _) w₂
  refine Run.bind_congr fun o w₃ made => Run.bind_congr fun frame w₄ bound => ?_
  -- the constructor was decided on before, and is not again
  have hw₄ : w₁.Grows host w₄ :=
    (((self.evaluateLinks links _ _ _).grows evaluated).trans
      ((self.manufacture _ _).grows made)).trans ((self.bind _ _ _).grows bound)
  rw [Run.bind_ok (c.target_of_cached ((hw₄.sessions session).targets cached))]
  simp only [runConstructor, Run.bind_assoc]
  rfl

/-- An object whose constructor has its initializers in place, and one made after the arguments were
evaluated whose constructor holds the lists, are made alike. -/
theorem makeThenRun_mirrors {links : List InitializerLink} {k j : Nat}
    (chain : SelfContainedChain host session m links) (decided : host.decide m = .ok (.interpreted tree))
    (sound : w.Sound host) {w₁ w₂ : World σ} (settles : w.Settles w₁) (sound₁ : w₁.Sound host)
    (evaluated : (Context.within host k session).evaluateLinks m type args links w₁ = (.ok lists, w₂))
    (hj : k + 3 * links.length ≤ j) :
    let x := (Context.within host j session).makeThenRun tree m type args [] w
    let y := (Context.within host j session).makeThenRun tree m type args lists w₂
    ∃ pairs, w.frames.itself.Le pairs ∧ ∀ o,
      (∀ t, x = (.ok o, t) → ∃ t', y = (.ok o, t') ∧ t.Mirrors pairs t') ∧
      (∀ t', y = (.ok o, t') → ∃ t, x = (.ok o, t) ∧ t.Mirrors pairs t') := by
  intro x y
  let c := Context.within host j session
  have self : c.Agrees (World.mirroring host) c := Context.within_self _ j session
  obtain ⟨settles', sound₂⟩ := evaluateLinks_settles chain sound₁ evaluated
  have alike : SucceedAlike (c.makeThenRun tree m type args lists w) x := by
    refine .seq fun o w₃ made => .seq fun frame w₄ bound => .seq fun target w₅ reached => .bind ?_ _
    have sound₃ := Run.AgreesBy.sound (self.manufacture type []) sound made
    have sound₄ := Run.AgreesBy.sound (self.bind o type) sound₃ bound
    have sound₅ := Run.AgreesBy.sound (self.target m) sound₄ reached
    exact runConstructor_alike chain decided sound₁ sound₅ evaluated hj
  have tied : w.MirroredBy host ⟨w.frames, w₂.frames, w.frames.itself⟩ w₂ :=
    ⟨rfl, rfl, sound.mirrors (settles.trans settles'), sound, sound₂⟩
  obtain ⟨answers, pairs, later, mirrors⟩ := (self.makeThenRun tree m type args lists).mirroring tied
  rcases hx : c.makeThenRun tree m type args lists w with ⟨r, t⟩
  rcases hy : c.makeThenRun tree m type args lists w₂ with ⟨r', t'⟩
  rw [hx, hy] at answers mirrors
  obtain rfl : r = r' := answers
  refine ⟨pairs, later, fun o => ⟨fun u ran => ?_, fun u ran => ?_⟩⟩
  · cases hx.symm.trans ((alike o u).2 ran)
    exact ⟨t', hy, mirrors⟩
  · cases hy.symm.trans ran
    exact ⟨t, (alike o t).1 hx, mirrors⟩

end

section

variable {σ : Type} {host : Host σ} {session : SessionId} {n : Nat} {w t : World σ} {tree : Node}

/-- A constructor that is interpreted is found so under every bound, and no more happens than that
the decision is recorded. -/
theorem target_interpreted (sound : w.Sound host) {m : SymbolId}
    (decided : host.decide m = .ok (.interpreted tree)) : ∃ u, w.Settles u ∧ u.Sound host ∧
      ∀ n, (Context.within host n session).target m w = (.ok (.interpreted tree), u) := by
  obtain ⟨u, reached, same, decided⟩ :=
    (Context.within host 0 session).target_of_decide sound.decided decided
  exact ⟨u, same.settles, ⟨same.housed sound.housed, decided⟩, fun _ => reached⟩

variable {d : MemberDescriptor} {links : List InitializerLink} {last : Target σ}
  (chain : (Context.within host n session).Chain w d.symbol links last)
  (selfContained : SelfContainedChain host session d.symbol links)
  (interpreted : last.isInterpreted = true) (decided : host.decide d.symbol = .ok (.interpreted tree))
  (constructor : d.kind.isConstructor = true) {type : ClosedType} {descriptor : TypeDescriptor}
  (described : host.descriptorOf type = .ok descriptor) {args : List Value} {o : ObjectRef}
  (sound : w.Sound host)

include chain selfContained interpreted decided constructor described sound

theorem makeThenRun_of_activateWith
    (made : (Context.within host n session).activateWith d type args w = (.ok o, t)) :
    ∃ j t' pairs, (Context.within host j session).makeThenRun tree d.symbol type args [] w = (.ok o, t') ∧
      w.frames.itself.Le pairs ∧ t'.Mirrors pairs t := by
  obtain ⟨w₁, settles, sound₁, reached⟩ := target_interpreted sound decided
  let k := n + links.length + 1
  let j := k + 3 * links.length
  have arity := arity_of_activateWith made
  have more := Context.within_more host (by omega : n ≤ k) session
  have made := (more.activateWith d type args w).more made nofun
  rw [activateWith_eq (chain.within k) (by omega) interpreted constructor described arity
    (reached k)] at made
  obtain ⟨lists, w₂, evaluated, made⟩ := Run.bind_eq_ok.1 made
  have more := Context.within_more host (by omega : k ≤ j) session
  have made := (more.makeThenRun tree d.symbol type args lists w₂).more made nofun
  obtain ⟨pairs, later, alike⟩ := makeThenRun_mirrors selfContained decided sound settles sound₁
    evaluated (Nat.le_refl j)
  obtain ⟨t', made', mirrors⟩ := (alike o).2 t made
  exact ⟨j, t', pairs, made', later, mirrors⟩

theorem activateWith_of_makeThenRun (member : host.member d.symbol = .ok d)
    (made : (Context.within host n session).makeThenRun tree d.symbol type args [] w = (.ok o, t)) :
    ∃ j t' pairs, (Context.within host j session).activateWith d type args w = (.ok o, t') ∧
      w.frames.itself.Le pairs ∧ t.Mirrors pairs t' := by
  obtain ⟨w₁, settles, sound₁, reached⟩ := target_interpreted sound decided
  let j := n + 3 * links.length + 1
  obtain ⟨w₃, sound₃, ran⟩ := runs_of_makeThenRun sound made
  have arity := arity_of_runConstructor member ran
  obtain ⟨lists, w₂, evaluated⟩ := evaluateLinks_of_runConstructor selfContained (Nat.le_refl n)
    decided sound₁ sound₃ ran
  have more := Context.within_more host (by omega : n ≤ j) session
  have made := (more.makeThenRun tree d.symbol type args [] w).more made nofun
  obtain ⟨pairs, later, alike⟩ := makeThenRun_mirrors selfContained decided sound settles sound₁
    evaluated (by omega : n + 3 * links.length ≤ j)
  obtain ⟨t', made', mirrors⟩ := (alike o).1 t made
  have evaluated := (more.evaluateLinks links d.symbol type args w₁).more evaluated nofun
  refine ⟨j, t', pairs, ?_, later, mirrors⟩
  rw [activateWith_eq (chain.within j) (by omega) interpreted constructor described arity (reached j),
    Run.bind_ok evaluated]
  exact made'

end

end Context

namespace Session

variable {σ : Type}

/-- Make and bind an object of a type, and then have a constructor interpreted in the frame of the
object. -/
def createThenInterpret (s : Session σ) (constructor : SymbolId) (type : ClosedType)
    (args : List Value) (cancelled : Bool) : Run (World σ) ObjectRef := do
  let o ← s.context.manufacture type []
  let frame ← s.context.bind o type
  s.interpretConstructor constructor frame args cancelled
  return o

variable {host : Host σ} {session : SessionId} {n : Nat} {w : World σ}

theorem createThenInterpret_eq (sound : w.Sound host) {m : SymbolId} {tree : Node}
    (decided : host.decide m = .ok (.interpreted tree)) (type : ClosedType) (args : List Value) :
    Session.createThenInterpret ⟨host, session, n⟩ m type args false w =
      (Context.within host n session).makeThenRun tree m type args [] w := by
  let c := Context.within host n session
  have self : c.Agrees (World.mirroring host) c := Context.within_self _ n session
  show (c.manufacture type [] >>= _) w = (c.manufacture type [] >>= _) w
  refine Run.bind_congr fun o w₁ made => Run.bind_congr fun frame w₂ bound => ?_
  have sound₁ : w₁.Sound host := Run.AgreesBy.sound (self.manufacture type []) sound made
  have sound₂ : w₂.Sound host := Run.AgreesBy.sound (self.bind o type) sound₁ bound
  obtain ⟨instance', root⟩ := Context.bind_frame sound₁ bound
  have goesOn : (Session.checkCancelled false : Run (World σ) Unit) w₂ = (.ok (), w₂) := rfl
  have contained : Session.classTypeOf frame w₂ = (.ok type, w₂) := by
    simp only [Session.classTypeOf, root]
  rw [interpretConstructor, Run.bind_assoc, Run.bind_ok goesOn]
  simp only [Run.bind_assoc]
  rw [Run.bind_def, Run.gets_def]
  simp only [instance']
  rw [Run.bind_assoc, Run.bind_ok contained, Run.bind_assoc]
  refine Run.bind_congr fun target w₃ reached => ?_
  obtain ⟨w₄, reached', -, -⟩ := c.target_of_decide sound₂.decided decided
  cases reached.symm.trans reached'
  simp only [Context.runInterpreted, Context.runConstructor, Run.bind_assoc]
  refine Run.bind_congr fun a w₄ prepared => ?_
  obtain ⟨base, inst, rfl⟩ := Context.prepare_start prepared
  rfl

theorem createInstanceWith_eq {d : MemberDescriptor} (member : host.member d.symbol = .ok d)
    (type : ClosedType) (args : List Value) :
    Session.createInstanceWith ⟨host, session, n⟩ d.symbol type args false w =
      (Context.within host n session).activateWith d type args w := by
  have known : (liftM (host.member d.symbol) : Run (World σ) MemberDescriptor) w = (.ok d, w) :=
    Run.ofExcept_eq_ok.2 ⟨member, rfl⟩
  have goesOn : (Session.checkCancelled false : Run (World σ) Unit) w = (.ok (), w) := rfl
  rw [createInstanceWith, Run.bind_ok goesOn, Run.bind_ok known]
  rfl

end Session

/-- **Arguments of initializers, evaluated beforehand or in place.** In a chain of interpreted
constructors whose initializers pass on self-contained arguments it makes no difference which. An
object can be made through the first constructor, given enough steps, just when one can be made
and bound first and the constructor be interpreted in its frame. Then it is the same object, in
worlds with the same slots, static storage, arrays and calls to the host, which differ in no more
than frames, class frames that were asked for and decisions that were recorded. -/
theorem createInstanceWith_in_place {σ : Type} (host : Host σ) (session : SessionId) {w : World σ}
    (sound : w.Sound host) {d : MemberDescriptor} (member : host.member d.symbol = .ok d)
    (constructor : d.kind.isConstructor = true) {k : Nat} {links : List InitializerLink}
    {last : Target σ} (chain : (Context.within host k session).Chain w d.symbol links last)
    (interpreted : last.isInterpreted = true)
    (parts : ∀ link ∈ links, ∀ x ∈ link.args, x.SelfContained host session) {type : ClosedType}
    {descriptor : TypeDescriptor} (described : host.descriptorOf type = .ok descriptor)
    (args : List Value) (cancelled : Bool) :
    let beforehand (n : Nat) :=
      Session.createInstanceWith ⟨host, session, n⟩ d.symbol type args cancelled w
    let inPlace (n : Nat) :=
      Session.createThenInterpret ⟨host, session, n⟩ d.symbol type args cancelled w
    (∀ n o t, beforehand n = (.ok o, t) → ∃ n' t' pairs, inPlace n' = (.ok o, t') ∧
      w.frames.itself.Le pairs ∧ t'.Mirrors pairs t) ∧
    (∀ n o t, inPlace n = (.ok o, t) → ∃ n' t' pairs, beforehand n' = (.ok o, t') ∧
      w.frames.itself.Le pairs ∧ t.Mirrors pairs t') := by
  intro beforehand inPlace
  have selfContained := chain.selfContained sound.decided interpreted parts
  obtain ⟨tree, decided⟩ := selfContained.first
  cases cancelled with
  | true =>
    refine ⟨fun n o t made => ?_, fun n o t made => ?_⟩
    · cases made
    · simp only [inPlace, Session.createThenInterpret, Run.bind_eq_ok] at made
      obtain ⟨_, _, -, _, _, -, _, _, ran, -⟩ := made
      cases ran
  | false =>
  refine ⟨fun n o t made => ?_, fun n o t made => ?_⟩
  · obtain ⟨n', t', pairs, ran, like⟩ := Context.makeThenRun_of_activateWith (chain.within n)
      selfContained interpreted decided constructor described sound
      ((Session.createInstanceWith_eq member type args).symm.trans made)
    exact ⟨n', t', pairs, (Session.createThenInterpret_eq sound decided type args).trans ran, like⟩
  · obtain ⟨n', t', pairs, ran, like⟩ := Context.activateWith_of_makeThenRun (chain.within n)
      selfContained interpreted decided constructor described sound member
      ((Session.createThenInterpret_eq sound decided type args).symm.trans made)
    exact ⟨n', t', pairs, (Session.createInstanceWith_eq member type args).trans ran, like⟩

/-- What a field of the object that was made shows, if one was. -/
def shown (field : SymbolId) (made : Except Stop ObjectRef × World Scripted.State) : Option String :=
  made.1.toOption.bind fun o => (made.2.loadSlot? o field).map Value.display

theorem boxes_in_place :
    let box : ClosedType := .named ⟨0⟩ []
    let w := World.initial Scripted.State.initial
    ∃ n, shown ⟨3⟩ (Session.createThenInterpret ⟨boxes.host, ⟨0⟩, n⟩ ⟨0⟩ box [.i32 5] false w) =
      some "6" := by
  intro box w
  let c := Context.within boxes.host 8 ⟨0⟩
  let x : Node := .mk .dummy (.parameterRef "x")
  let one : Node := .mk .dummy (.literal (.int .i32 1))
  let sum : Node := .mk .dummy (.binary .add x one none)
  have names : x.NamesOnly := .mk rfl (List.forall_mem_nil _)
  have number : one.NamesOnly := .mk rfl (List.forall_mem_nil _)
  have added : sum.NamesOnly :=
    .mk rfl (List.forall_mem_cons.2 ⟨names, List.forall_mem_singleton.2 number⟩)
  obtain ⟨links, last, chain, interpreted, parts⟩ : ∃ links last, c.Chain w ⟨0⟩ links last ∧
      last.isInterpreted = true ∧ ∀ link ∈ links, ∀ x ∈ link.args, x.SelfContained boxes.host ⟨0⟩ := by
    refine ⟨_, _, .link rfl rfl (fun d h => by cases h; rfl)
      (.link rfl rfl (fun d h => by cases h; rfl) (.last rfl fun tree h => ?_)), rfl, ?_⟩
    · cases h
      rfl
    · have first := List.forall_mem_singleton.2 (added.selfContained boxes.host ⟨0⟩)
      have second := List.forall_mem_singleton.2 (names.selfContained boxes.host ⟨0⟩)
      exact List.forall_mem_cons.2 ⟨first, List.forall_mem_singleton.2 second⟩
  let d : MemberDescriptor :=
    ⟨⟨0⟩, ".ctor", ⟨0⟩, false, .source, .constructor [⟨"x", .primitive .i32⟩]⟩
  have made : shown ⟨3⟩ (Session.createInstanceWith ⟨boxes.host, ⟨0⟩, 8⟩ d.symbol box [.i32 5] false w) =
      some "6" := by decide +kernel
  rcases h : Session.createInstanceWith ⟨boxes.host, ⟨0⟩, 8⟩ d.symbol box [.i32 5] false w with ⟨e | o, t⟩
  · rw [h] at made
    cases made
  · rw [h] at made
    obtain ⟨n, t', pairs, ran, -, mirrors⟩ := (createInstanceWith_in_place boxes.host ⟨0⟩
      (.initial _) (d := d) rfl rfl chain interpreted parts rfl [.i32 5] false).1 8 o t h
    have same : t'.loadSlot? o ⟨3⟩ = t.loadSlot? o ⟨3⟩ := World.slot_alike mirrors.objects o ⟨3⟩
    have kept : shown ⟨3⟩ (.ok o, t') = shown ⟨3⟩ (.ok o, t) :=
      congrArg (Option.map Value.display) same
    exact ⟨n, (congrArg (shown ⟨3⟩) ran).trans (kept.trans made)⟩

/-- A constructor that passes its parameter on as `x++`, and then stores it. -/
def advancing : Scripted.Program :=
  let type : TypeRef := .named ⟨1⟩ []
  let int : TypeRef := .primitive .i32
  let x : Node := .mk .dummy (.parameterRef "x")
  let statement (x : Node) : Node := .mk .dummy (.expressionStatement x)
  let advance : Node := .mk .dummy (.constructorInitializer ⟨⟨21⟩, type, []⟩
    [.mk .dummy (.increment x false true none)])
  let store : Node := .mk .dummy (.assign (.mk .dummy (.fieldRef ⟨⟨10⟩, type, []⟩ none)) x)
  let constructor (symbol : SymbolId) (name : String) (body : List Node) : Scripted.MemberScript :=
    ⟨⟨symbol, ".ctor", ⟨1⟩, false, .source, .constructor [⟨name, int⟩]⟩, some (.mk .dummy (.block body)),
      none⟩
  { types := [⟨⟨⟨1⟩, "T", .classType, true, 0, none, [], [⟨10⟩, ⟨20⟩, ⟨21⟩]⟩, .fresh⟩]
    members := [
      constructor ⟨20⟩ "x" [statement advance, statement store],
      constructor ⟨21⟩ "y" [],
      ⟨⟨⟨10⟩, "n", ⟨1⟩, false, .source, .field int⟩, none, none⟩] }

/-- What the initializer wrote to the parameter is lost on the body, if it was evaluated
beforehand. -/
theorem advancing.created_differs :
    let type : ClosedType := .named ⟨1⟩ []
    let w := World.initial Scripted.State.initial
    let beforehand := Session.createInstanceWith ⟨advancing.host, ⟨0⟩, 8⟩ ⟨20⟩ type [.i32 5] false w
    let inPlace := Session.createThenInterpret ⟨advancing.host, ⟨0⟩, 8⟩ ⟨20⟩ type [.i32 5] false w
    shown ⟨10⟩ beforehand = some "5" ∧ shown ⟨10⟩ inPlace = some "6" := by
  decide +kernel

end OpTree
