/-
Expressions that ask for no more than what names stand for. An expression is self-contained
(`Node.SelfContained`) if evaluating it leaves the machine as it is, and comes to the same value
wherever names stand for the same values and generic parameters for the same types
(`Machine.ReadsAlike`): whatever objects there are, whatever they hold, and whether there is an
instance. Variables, literals and what the built-in operators make of them are
(`Node.NamesOnly.selfContained`).

Names stand for the same wherever the body of one member of one type begins with the same
arguments (`Context.prepare_readsAlike`), and in a new scope of the body
(`Machine.Sound.readsAlike_inScope`). So it makes no difference to the self-contained arguments
of an initializer in which method frame of the constructor they are evaluated, and whether the
object is there (`Context.evaluateLinks_cons`).
-/
import OpTree.Proofs.Chain
import OpTree.Proofs.Effects

namespace OpTree

/-- Names stand for the same values in the machines, and generic parameters for the same
types. -/
structure Machine.ReadsAlike {σ : Type} (s s' : Machine σ) : Prop where
  names : ∀ name, s.world.readName s.activation.frame name =
    s'.world.readName s'.activation.frame name
  arguments : s.world.frames.genericArgument s.activation.frame =
    s'.world.frames.genericArgument s'.activation.frame

namespace Machine.ReadsAlike

variable {σ : Type} {s s' s'' : Machine σ}

theorem symm (h : s.ReadsAlike s') : s'.ReadsAlike s :=
  ⟨fun name => (h.names name).symm, h.arguments.symm⟩

theorem trans (h : s.ReadsAlike s') (h' : s'.ReadsAlike s'') : s.ReadsAlike s'' :=
  ⟨fun name => (h.names name).trans (h'.names name), h.arguments.trans h'.arguments⟩

theorem closeType (h : s.ReadsAlike s') (t : TypeRef) :
    (Run.closeType t s).1 = (Run.closeType t s').1 := by
  simp only [Run.closeType, Run.ofExcept, h.arguments]

theorem of_frames {w w' : World σ} {a : Activation} (h : w.frames = w'.frames) :
    Machine.ReadsAlike ⟨w, a⟩ ⟨w', a⟩ :=
  ⟨fun name => by simp only [World.readName, h], by simp only [h]⟩

end Machine.ReadsAlike

/-! ## Runs -/

namespace Run

variable {σ α β : Type}

/-- When it answers, the run leaves the machine as it is, and it answers the same wherever
names stand for the same. -/
def SelfContained (m : Run (Machine σ) α) : Prop :=
  ∀ s a t, m s = (.ok a, t) → t = s ∧ ∀ s', s.ReadsAlike s' → m s' = (.ok a, s')

namespace SelfContained

/-- A question to the names. -/
theorem of_answer {m : Run (Machine σ) α} {answer : Machine σ → Except EvalError α}
    (asks : ∀ s, m s = ofExcept (answer s) s)
    (alike : ∀ s s', s.ReadsAlike s' → answer s = answer s') : m.SelfContained := by
  intro s a t h
  rw [asks] at h
  obtain ⟨answered, rfl⟩ := ofExcept_eq_ok.1 h
  refine ⟨rfl, fun s' hs => ?_⟩
  rw [asks, ← alike _ s' hs]
  exact ofExcept_eq_ok.2 ⟨answered, rfl⟩

theorem pure (a : α) : (Pure.pure a : Run (Machine σ) α).SelfContained := by
  rintro s a t ⟨⟩
  exact ⟨rfl, fun s' _ => rfl⟩

theorem ofExcept (r : Except EvalError α) : (Run.ofExcept r : Run (Machine σ) α).SelfContained :=
  of_answer (fun _ => rfl) fun _ _ _ => rfl

theorem ofStop (r : Except Stop α) : (Run.ofStop r : Run (Machine σ) α).SelfContained := by
  intro s a t h
  obtain ⟨rfl, rfl⟩ := Prod.mk.inj h
  exact ⟨rfl, fun s' _ => rfl⟩

theorem bind {m : Run (Machine σ) α} {f : α → Run (Machine σ) β} (h : m.SelfContained)
    (hf : ∀ a, (f a).SelfContained) : (m >>= f).SelfContained := by
  intro s b u hb
  obtain ⟨a, t, ha, hfa⟩ := bind_eq_ok.1 hb
  obtain ⟨rfl, alike⟩ := h s a t ha
  obtain ⟨rfl, alike'⟩ := hf a t b u hfa
  exact ⟨rfl, fun s' hs => (bind_ok (alike s' hs)).trans (alike' s' hs)⟩

theorem orSpan {m : Run (Machine σ) α} (h : m.SelfContained) (span : Span) :
    (Run.orSpan span m).SelfContained := by
  intro s a t ha
  obtain ⟨rfl, alike⟩ := h s a t (orSpan_eq_ok.1 ha)
  exact ⟨rfl, fun s' hs => orSpan_eq_ok.2 (alike s' hs)⟩

theorem mapList {f : β → Run (Machine σ) α} {l : List β} (h : ∀ b ∈ l, (f b).SelfContained) :
    (Run.mapList f l).SelfContained := by
  induction l with
  | nil => exact .pure []
  | cons b l ih =>
    exact .bind (h b List.mem_cons_self) fun a =>
      .bind (ih fun b' hb => h b' (List.mem_cons_of_mem b hb)) fun as => .pure (a :: as)

theorem closeType (t : TypeRef) : (Run.closeType t : Run (Machine σ) ClosedType).SelfContained :=
  of_answer (fun _ => rfl) fun s s' hs => by rw [hs.arguments]

end SelfContained

end Run

/-! ## Expressions -/

/-- Wherever names stand for the same, the node comes to the same value, and it leaves
everything as it is. -/
def Node.SelfContained {σ : Type} (host : Host σ) (session : SessionId) (x : Node) : Prop :=
  ∀ n, (evalWithin host n session x).SelfContained

/-- The operation itself asks for no more than names. -/
def Op.namesOnly : Op → Bool
  | .literal _ | .defaultValue _ | .typeOf _ | .localRef _ | .parameterRef _ | .coalesce ..
  | .isType .. | .tuple _ | .interpolatedString _ | .interpolatedText _ | .interpolation .. => true
  | .binary _ _ _ operator | .unary _ _ operator | .conversion _ _ _ operator => operator.isNone
  | _ => false

/-- All that is evaluated asks for no more than names. -/
inductive Node.NamesOnly : Node → Prop
  | mk {span op} : op.namesOnly = true → (∀ x ∈ op.operands, x.NamesOnly) →
      Node.NamesOnly (.mk span op)

namespace Context

variable {σ : Type} {c : Context σ}

theorem evalOp_selfContained {op : Op} (names : op.namesOnly = true)
    (parts : ∀ x ∈ op.operands, (c.eval x).SelfContained) : (c.evalOp op).SelfContained := by
  cases op with
  | literal | interpolatedText => exact .pure _
  | defaultValue type | typeOf type => exact .bind (.closeType type) fun _ => .pure _
  | localRef name | parameterRef name => exact .of_answer (fun _ => rfl) fun s s' hs => hs.names name
  | coalesce value whenNull =>
    refine .bind (parts value (by simp [Op.operands])) fun v => ?_
    split
    · exact parts whenNull (by simp [Op.operands])
    · exact .pure v
  | isType operand target negated =>
    refine .bind (parts operand (by simp [Op.operands])) fun v => .bind (.closeType target) fun t => ?_
    split
    · exact .pure _
    · exact .bind (.ofStop _) fun b => .pure _
  | tuple elements => exact .bind (.mapList parts) fun vs => .pure _
  | interpolatedString elements => exact .bind (.mapList parts) fun vs => .pure _
  | interpolation value alignment format =>
    obtain ⟨values, alignments⟩ := List.forall_mem_cons.1 parts
    refine .bind values fun v => ?_
    have formatted (width : Option Int) : (Run.ofExcept (v.format format width) >>= fun text =>
        pure (Value.text text) : Run (Machine σ) Value).SelfContained :=
      .bind (.ofExcept _) fun text => .pure _
    cases alignment with
    | none => exact .bind (.pure none) formatted
    | some x =>
      exact .bind (alignments x (by simp)) fun w => .bind (.ofExcept _) fun n =>
        .bind (.pure (some n)) formatted
  | binary op left right operator =>
    have leftPart := parts left (by simp [Op.operands])
    have rightPart := parts right (by simp [Op.operands])
    obtain rfl := Option.isNone_iff_eq_none.1 names
    refine .bind leftPart fun l => ?_
    split
    · split
      · exact .pure _
      · exact .bind (.bind rightPart fun v => .ofExcept _) fun b => .pure _
    · exact .bind rightPart fun r => .ofExcept _
  | unary op operand operator =>
    obtain rfl := Option.isNone_iff_eq_none.1 names
    exact .bind (parts operand List.mem_cons_self) fun v => .ofExcept _
  | conversion operand target kind operator =>
    obtain rfl := Option.isNone_iff_eq_none.1 names
    refine .bind (parts operand List.mem_cons_self) fun v => ?_
    exact .bind (.closeType target) fun t => .ofStop _
  | _ => cases names

theorem evalList_selfContained {xs : List Node} (parts : ∀ x ∈ xs, (c.eval x).SelfContained) :
    (c.evalList xs).SelfContained :=
  .mapList parts

end Context

/-- **Names are all that such expressions ask for.** Literals, variables, types, built-in
operators and conversions, tests, tuples and texts: a tree of these comes to the same value
wherever names stand for the same, and leaves nothing behind. -/
theorem Node.NamesOnly.selfContained {σ : Type} {x : Node} (h : x.NamesOnly) (host : Host σ)
    (session : SessionId) : x.SelfContained host session := by
  intro n
  induction n generalizing x with
  | zero =>
    intro s a t ha
    cases ha
  | succ n ih =>
    obtain @⟨span, op, names, operands⟩ := h
    have parts (y : Node) (hy : y ∈ op.operands) :
        ((Context.within host n session).eval y).SelfContained :=
      ih (operands y hy)
    have evaluated : ((Context.within host n session).evalOp op).SelfContained :=
      Context.evalOp_selfContained names parts
    exact evaluated.orSpan span

/-! ## Where names stand for the same -/

namespace FrameStore

theorem read_addChild (s : FrameStore) (parent : FrameId) (kind : FrameKind) (name : String) :
    (s.addChild parent kind).2.read (s.addChild parent kind).1 name = s.read parent name := by
  rw [read, lookup?_addChild, read]

/-- Between any two stores nothing need stand for anything. -/
theorem mirrors_nothing (s s' : FrameStore) : s.Mirrors (fun _ _ => False) s' where
  one h := h.elim
  frames h := h.elim

end FrameStore

theorem Machine.Sound.readsAlike_inScope {σ : Type} {host : Host σ} {s : Machine σ}
    (h : s.Sound host) : s.inScope.ReadsAlike s := by
  obtain ⟨args, supplies⟩ := h.supplies
  refine ⟨fun name => ?_, ?_⟩
  · have reads : s.inScope.world.frames.read s.inScope.activation.frame name =
        s.world.frames.read s.activation.frame name := FrameStore.read_addChild ..
    simp only [World.readName, reads]
  · exact supplies.scope.resolver.trans supplies.resolver.symm

namespace World

variable {σ : Type} {host : Host σ}

theorem define_mirrors {pairs : Pairing} {f f' : FrameId} (hf : pairs f f')
    {l : List (Parameter × Value)} : ∀ {w w' t : World σ}, w.frames.Mirrors pairs w'.frames →
      Run.forList (fun p : Parameter × Value => World.define f p.1.name p.2) l w = (.ok (), t) →
      ∃ t', Run.forList (fun p : Parameter × Value => World.define f' p.1.name p.2) l w' =
        (.ok (), t') ∧ t.frames.Mirrors pairs t'.frames := by
  induction l with
  | nil =>
    rintro w w' t mirrors ⟨⟩
    exact ⟨w', rfl, mirrors⟩
  | cons p l ih =>
    intro w w' t mirrors bound
    obtain ⟨⟨⟩, u, first, rest⟩ := Run.bind_eq_ok.1 bound
    have changed := mirrors.insert hf p.1.name (.assigned p.2)
    simp only [World.define, World.changeFrames, FrameStore.define] at first
    generalize made : w.frames.insert f p.1.name (.assigned p.2) = x at changed first
    generalize made' : w'.frames.insert f' p.1.name (.assigned p.2) = x' at changed
    cases changed with
    | error e => cases first
    | @ok frames frames' _ _ mirrors =>
      cases first
      obtain ⟨t', rest', mirrors⟩ := @ih { w with frames } { w' with frames := frames' } t mirrors rest
      have first' : World.define f' p.1.name p.2 w' = (.ok (), { w' with frames := frames' }) := by
        simp only [World.define, World.changeFrames, FrameStore.define, made']
      exact ⟨t', (Run.bind_ok first').trans rest', mirrors⟩

theorem Settles.define {w : World σ} {f : FrameId} (new : ¬w.frames.Has f)
    {l : List (Parameter × Value)} : ∀ {u t : World σ}, w.Settles u →
      Run.forList (fun p : Parameter × Value => World.define f p.1.name p.2) l u = (.ok (), t) →
      w.Settles t := by
  induction l with
  | nil =>
    rintro u t settles ⟨⟩
    exact settles
  | cons p l ih =>
    intro u t settles bound
    obtain ⟨⟨⟩, u₁, first, rest⟩ := Run.bind_eq_ok.1 bound
    refine ih ?_ rest
    simp only [World.define, World.changeFrames, FrameStore.define, FrameStore.insert] at first
    split at first
    · rename_i frames inserted
      cases first
      split at inserted
      · cases inserted
      · cases inserted
        refine { settles with frames := fun g x hg => ?_, sessions := settles.sessions }
        have other : g ≠ f := by
          rintro rfl
          exact new (Option.isSome_iff_exists.2 ⟨x, hg⟩)
        exact (FrameStore.frame?_bindAt_other _ _ other).trans (settles.frames g x hg)
    · cases first

/-- A method frame supplies the arguments of the type and of the call, whatever was bound in
it. -/
theorem Sound.methodFrame_supplies {w t : World σ} (h : w.Sound host) {type : ClosedType}
    {f : FrameId} (root : w.frames.IsRoot type f) (m : SymbolId) (typeArgs : List ClosedType)
    {l : List (Parameter × Value)}
    (bound : Run.forList (fun p : Parameter × Value =>
        World.define (w.frames.addChild f (.ofMethod m typeArgs)).1 p.1.name p.2) l
      (World.childFrame f (.ofMethod m typeArgs) w).2 = (.ok (), t)) :
    t.frames.Supplies (w.frames.addChild f (.ofMethod m typeArgs)).1 ⟨type.typeArgs, typeArgs⟩ := by
  have nested (type : ClosedType) : FrameKind.ofMethod m typeArgs ≠ .ofClass type := fun h => by cases h
  obtain ⟨stays, stands⟩ := h.childFrame rfl (.root root) nested
  have kept := (stays.sound.define stands bound).roots
  exact (root.supplies.child (.ofMethod m typeArgs) rfl).grown kept.frames

end World

/-- A body of a member can begin wherever it can begin in another world, and names stand for
the same there. All that is left behind is the frame that it begins in. -/
theorem Context.prepare_readsAlike {σ : Type} {host : Host σ} {c : Context σ} {m : SymbolId}
    {type : ClosedType} {typeArgs : List ClosedType} {receiver : Option ObjectRef} {args : List Value}
    {w w' t : World σ} {a : Activation} (h : w.Sound host) (h' : w'.Sound host)
    (prepared : c.prepare m type typeArgs receiver args w = (.ok a, t)) :
    ∃ a' t', c.prepare m type typeArgs none args w' = (.ok a', t') ∧ w'.Settles t' ∧
      Machine.ReadsAlike ⟨t, a⟩ ⟨t', a'⟩ := by
  simp only [prepare, Run.bind_eq_ok] at prepared
  obtain ⟨member, w₀, found, prepared⟩ := prepared
  obtain ⟨known, rfl⟩ := Run.ofExcept_eq_ok.1 found
  split at prepared
  · cases prepared
  · rename_i arity
    simp only [Run.bind_eq_ok] at prepared
    obtain ⟨classFrame, w₁, hc, methodFrame, w₂, hm, ⟨⟩, w₃, hd, prepared⟩ := prepared
    obtain ⟨stays, root⟩ := h.classFrame hc
    obtain ⟨classFrame', w₁', hc', settles⟩ := World.classFrame_settles c.session type w'
    obtain ⟨stays', root'⟩ := h'.classFrame hc'
    let kind : FrameKind := .ofMethod m typeArgs
    have nested (type : ClosedType) : FrameKind.ofMethod m typeArgs ≠ .ofClass type :=
      fun h => by cases h
    let methodFrame' := (w₁'.frames.addChild classFrame' kind).1
    let w₂' : World σ := { w₁' with frames := (w₁'.frames.addChild classFrame' kind).2 }
    have hm' : World.childFrame classFrame' kind w₁' = (.ok methodFrame', w₂') := rfl
    cases hm
    have mirrors : FrameStore.Mirrors _ _ w₂'.frames :=
      (w₁.frames.mirrors_nothing w₁'.frames).addChild nested (.inr ⟨type, type, root, root'⟩)
    obtain ⟨w₃', hd', mirrors⟩ := World.define_mirrors (.inr ⟨rfl, rfl⟩) mirrors hd
    have started : a.frame = (w₁.frames.addChild classFrame kind).1 ∧ w₃.Settles t := by
      cases receiver with
      | none =>
        cases prepared
        exact ⟨rfl, .refl _⟩
      | some o =>
        obtain ⟨bound, w₄, asked, prepared⟩ := Run.bind_eq_ok.1 prepared
        obtain rfl : w₃ = w₄ := congrArg Prod.snd asked
        cases bound with
        | some f =>
          cases prepared
          exact ⟨rfl, .refl _⟩
        | none =>
          obtain ⟨f, w₅, ⟨⟩, ⟨⟩⟩ := Run.bind_eq_ok.1 prepared
          exact ⟨rfl, World.childFrame_settles classFrame (.ofInstance (some o)) w₃⟩
    obtain ⟨frame, later⟩ := started
    have mirrors := mirrors.settle later.frames (fun _ _ hf => hf) later.keepsRoots (.refl _)
    have supplies := (stays.sound.methodFrame_supplies root m typeArgs hd).grown
      later.keepsRoots.frames
    have supplies' := stays'.sound.methodFrame_supplies root' m typeArgs hd'
    refine ⟨.start methodFrame' none, w₃', ?_, ?_, fun name => ?_, ?_⟩
    · have known : (liftM (c.host.member m) : Run (World σ) MemberDescriptor) w' = (.ok member, w') :=
        Run.ofExcept_eq_ok.2 ⟨known, rfl⟩
      rw [prepare, Run.bind_ok known, if_neg arity, Run.bind_ok hc', Run.bind_ok hm', Run.bind_ok hd']
      rfl
    · exact .define (fun has => w₁'.frames.not_has_new kind _ (has.extends settles.keepsRoots.frames))
        (settles.trans (World.childFrame_settles classFrame' kind w₁')) hd'
    · simp only [World.readName]
      rw [frame, mirrors.read (.inr ⟨rfl, rfl⟩)]
      rfl
    · show t.frames.genericArgument a.frame = _
      rw [frame, supplies.resolver]
      exact supplies'.resolver.symm

/-! ## Chains of constructors -/

/-- The constructors from `m` on are interpreted, each but the last starts with an initializer that
names the next, and what it passes on is self-contained. -/
inductive SelfContainedChain {σ : Type} (host : Host σ) (session : SessionId) :
    SymbolId → List InitializerLink → Prop
  | last {m tree} : host.decide m = .ok (.interpreted tree) → SelfContainedChain host session m []
  | link {m body use args rest} : host.decide m = .ok (.interpreted body) →
      body.leadingInitializer? = some (use, args) → (∀ x ∈ args, x.SelfContained host session) →
      SelfContainedChain host session use.symbol rest →
      SelfContainedChain host session m (⟨body, use, args⟩ :: rest)

theorem SelfContainedChain.first {σ : Type} {host : Host σ} {session : SessionId} {m : SymbolId}
    {links : List InitializerLink} (h : SelfContainedChain host session m links) :
    ∃ tree, host.decide m = .ok (.interpreted tree) := by
  cases h with
  | last decided | link decided => exact ⟨_, decided⟩

namespace Context

section

variable {σ : Type} {c : Context σ} {w w' t : World σ} {m : SymbolId}

theorem decide_of_targetOf {target : Target σ} (decided : w.Decided c.host)
    (h : c.targetOf w m = .ok target) : c.host.decide m = .ok target := by
  rw [targetOf] at h
  cases hw : (w.session c.session).targets.get? m with
  | some t =>
    rw [hw] at h
    cases h
    exact decided c.session hw
  | none =>
    rw [hw] at h
    exact h

/-- What lies before the arguments of a link is what the body would begin with. -/
theorem openLink_readsAlike {type : ClosedType} {receiver : Option ObjectRef} {args : List Value}
    {b : Activation} {use : MemberUse} {target : Target σ} (h : w.Sound c.host)
    (h' : w'.Sound c.host) (prepared : c.prepare m type [] receiver args w = (.ok b, t))
    (decided : c.host.decide use.symbol = .ok target) :
    ∃ a u, w'.Settles u ∧ u.Sound c.host ∧ Machine.ReadsAlike ⟨t, b⟩ ⟨u, a⟩ ∧
      ∀ r u', c.openLink m type args use w' = (.ok r, u') ↔
        ∃ next, (Run.closeType use.containing ⟨t, b⟩).1 = .ok next ∧ r = (a, next, target) ∧ u' = u := by
  obtain ⟨a, u, prepared', settles, alike⟩ := prepare_readsAlike h h' prepared
  obtain ⟨u₁, reached, settled, sound⟩ := target_settles decided (prepare_sound h' prepared')
  have closes : Run.within a (Run.closeType use.containing) u =
      ((Run.closeType use.containing ⟨t, b⟩).1, u) := by
    simp only [Run.within, Run.closeType, Run.ofExcept, alike.arguments]
  refine ⟨a, u₁, settles.trans settled.world, sound.world, ?_, fun r u' => ?_⟩
  · exact alike.trans (.of_frames (c.target_frames reached).symm)
  · rw [openLink, Run.bind_ok prepared']
    constructor
    · intro opened
      obtain ⟨next, u₂, ran, opened⟩ := Run.bind_eq_ok.1 opened
      rw [closes] at ran
      obtain ⟨closed, rfl⟩ := Prod.mk.inj ran
      rw [Run.bind_ok reached] at opened
      cases opened
      exact ⟨next, closed, rfl, rfl⟩
    · rintro ⟨next, closed, rfl, rfl⟩
      rw [closed] at closes
      rw [Run.bind_ok closes, Run.bind_ok reached]
      rfl

/-- The links are evaluated from any world as they are where the body of the first has begun: what
an argument comes to there, it comes to here. -/
theorem evaluateLinks_cons (link : InitializerLink) (rest : List InitializerLink) {type : ClosedType}
    {receiver : Option ObjectRef} {args : List Value} {b : Activation}
    (h : w.Sound c.host) (h' : w'.Sound c.host)
    (prepared : c.prepare m type [] receiver args w = (.ok b, t))
    {tree : Node} (decided : c.host.decide link.use.symbol = .ok (.interpreted tree))
    (parts : ∀ x ∈ link.args, (c.eval x).SelfContained) :
    ∃ u, w'.Settles u ∧ u.Sound c.host ∧ ∀ lists t',
      c.evaluateLinks m type args (link :: rest) w' = (.ok lists, t') ↔ ∃ next values lists',
        (Run.closeType link.use.containing ⟨t, b⟩).1 = .ok next ∧
        c.evalList link.args ⟨t, b⟩ = (.ok values, ⟨t, b⟩) ∧
        c.evaluateLinks link.use.symbol next values rest u = (.ok lists', t') ∧
        lists = values :: lists' := by
  obtain ⟨a, u, settles, sound, alike, opens⟩ := openLink_readsAlike h h' prepared decided
  refine ⟨u, settles, sound, fun lists t' => ?_⟩
  rw [evaluateLinks, Run.bind_eq_ok]
  constructor
  · rintro ⟨r, v, opened, rest⟩
    obtain ⟨next, closed, rfl, same⟩ := (opens r v).1 opened
    rw [same] at rest
    simp only [Target.isInterpreted, Bool.true_or, if_true, Run.bind_eq_ok] at rest
    obtain ⟨values, u', ran, lists', t'', rest, returns⟩ := rest
    cases returns
    rcases hv : c.evalList link.args ⟨u, a⟩ with ⟨r, s⟩
    rw [Run.within, hv] at ran
    cases ran
    obtain ⟨rfl, evaluates⟩ := evalList_selfContained parts _ _ _ hv
    exact ⟨next, values, lists', closed, evaluates _ alike.symm, rest, rfl⟩
  · rintro ⟨next, values, lists', closed, evaluated, rest, rfl⟩
    refine ⟨_, u, (opens _ u).2 ⟨next, closed, rfl, rfl⟩, ?_⟩
    obtain ⟨-, evaluates⟩ := evalList_selfContained parts _ _ _ evaluated
    have ran : Run.within a (c.evalList link.args) u = (.ok values, u) := by
      rw [Run.within, evaluates _ alike]
    simp only [Target.isInterpreted, Bool.true_or, if_true]
    rw [Run.bind_ok ran, Run.bind_ok rest]
    rfl

end

section

variable {σ : Type} {host : Host σ} {session : SessionId} {k : Nat}

theorem Chain.within {w : World σ} {m : SymbolId} {links : List InitializerLink} {last : Target σ}
    (h : (Context.within host k session).Chain w m links last) (n : Nat) :
    (Context.within host n session).Chain w m links last := by
  induction h with
  | last ht hn => exact .last ht hn
  | link ht hl hk _ ih => exact .link ht hl hk ih

/-- A chain that ends in an interpreted constructor is interpreted throughout. -/
theorem Chain.selfContained {w : World σ} {m : SymbolId} {links : List InitializerLink}
    {last : Target σ} (h : (Context.within host k session).Chain w m links last)
    (decided : w.Decided host) (interpreted : last.isInterpreted = true)
    (parts : ∀ link ∈ links, ∀ x ∈ link.args, x.SelfContained host session) :
    SelfContainedChain host session m links := by
  induction h with
  | @last m t ht hn =>
    cases t with
    | interpreted tree => exact .last (decide_of_targetOf decided ht)
    | _ => cases interpreted
  | link ht hl _ _ ih =>
    obtain ⟨args, rest⟩ := List.forall_mem_cons.1 parts
    exact .link (decide_of_targetOf decided ht) hl args (ih interpreted rest)

theorem evaluateLinks_settles {m : SymbolId} {links : List InitializerLink}
    (chain : SelfContainedChain host session m links) :
    ∀ {type : ClosedType} {args : List Value} {lists : List (List Value)} {w t : World σ},
      w.Sound host →
      (Context.within host k session).evaluateLinks m type args links w = (.ok lists, t) →
      w.Settles t ∧ t.Sound host := by
  induction chain with
  | last =>
    intro type args lists w t sound evaluated
    cases evaluated
    exact ⟨.refl _, sound⟩
  | @link m body use nodes rest _ _ parts chain ih =>
    intro type args lists w t sound evaluated
    obtain ⟨next, decided⟩ := chain.first
    obtain ⟨r, w₁, opened, -⟩ := Run.bind_eq_ok.1 evaluated
    obtain ⟨b, w₂, prepared, -⟩ := Run.bind_eq_ok.1 opened
    obtain ⟨u, settles, sound', links⟩ := evaluateLinks_cons (c := .within host k session)
      ⟨body, use, nodes⟩ rest sound sound prepared decided fun x hx => parts x hx k
    obtain ⟨nextType, values, lists', -, -, later, rfl⟩ := (links _ _).1 evaluated
    obtain ⟨settles', sound'⟩ := ih sound' later
    exact ⟨settles.trans settles', sound'⟩

end

end Context

end OpTree
