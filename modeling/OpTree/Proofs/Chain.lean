/-
Chains of constructors. A constructor whose body starts with an initializer
passes on to the constructor that the initializer names, and so on; `Chain` says
which constructors follow on each other and how the last of them is reached.
How a member is reached is decided once (`targetOf_grows`), so a chain stays the
chain that it is however the world grows.

The arguments of the initializers are evaluated before there is an object.
`evaluateLinks` is that evaluation, by recursion on the links and without a bound:
each argument list once, in the method frame that its constructor's body would
have, in the order of the chain. `constructorChain_eq` is that following the
initializers through the trees comes to the same.
-/
import OpTree.Proofs.Growth

namespace OpTree

/-- An initializer at the start of a constructor's body: the body, the
constructor that is called, and the arguments. -/
structure InitializerLink where
  body : Node
  use : MemberUse
  args : List Node

/-- A member that is reached by interpreting its tree. -/
def Target.isInterpreted {σ : Type} : Target σ → Bool
  | .interpreted _ => true
  | _ => false

def Target.isPhysical {σ : Type} : Target σ → Bool
  | .physical _ => true
  | _ => false

/-- The arguments of all links, taken apart: those of the last link are for the
host if the last constructor is reached through it. -/
def ConstructorChain.ofLists {σ : Type} (last : Target σ) (lists : List (List Value)) :
    ConstructorChain :=
  if last.isPhysical then ⟨lists.getLastD [], lists.dropLast⟩ else ⟨[], lists⟩

namespace Context

variable {σ : Type} (c : Context σ)

/-- How a member is reached in a world: as decided before, or as it would be
decided now. -/
def targetOf (w : World σ) (m : SymbolId) : Except EvalError (Target σ) :=
  match (w.session c.session).targets.get? m with
  | some t => .ok t
  | none => c.host.decide m

/-- The constructors from `m` on: each but the last is interpreted and starts
with an initializer that names the next; the last one is reached some other way,
or is interpreted and does not start with an initializer. -/
inductive Chain (w : World σ) : SymbolId → List InitializerLink → Target σ → Prop where
  | last {m t} : c.targetOf w m = .ok t →
      (∀ tree, t = .interpreted tree → tree.leadingInitializer? = none) → Chain w m [] t
  | link {m body use args rest t} : c.targetOf w m = .ok (.interpreted body) →
      body.leadingInitializer? = some (use, args) →
      (∀ d, c.host.member m = .ok d → d.kind.isConstructor = true) →
      Chain w use.symbol rest t → Chain w m (⟨body, use, args⟩ :: rest) t

/-- What lies before the arguments of a link: the method frame they are evaluated
in, the type that the next constructor is taken to be of, and how it is
reached. -/
def openLink (m : SymbolId) (type : ClosedType) (args : List Value) (use : MemberUse) :
    Run (World σ) (Activation × ClosedType × Target σ) := do
  let a ← c.prepare m type [] none args
  let next ← Run.within a (Run.closeType use.containing)
  let t ← c.target use.symbol
  return (a, next, t)

/-- The arguments of the links that lead to a constructor with something to run,
each list evaluated once, in the method frame of the constructor that passes it
on. -/
def evaluateLinks : SymbolId → ClosedType → List Value → List InitializerLink →
    Run (World σ) (List (List Value))
  | _, _, _, [] => pure []
  | m, type, args, link :: rest => do
    let (a, next, t) ← c.openLink m type args link.use
    if t.isInterpreted || t.isPhysical then
      let values ← Run.within a (c.evalList link.args)
      let lists ← evaluateLinks link.use.symbol next values rest
      return values :: lists
    else return []

variable {c : Context σ} {w w' : World σ} {m : SymbolId} {t : Target σ}

theorem targetOf_grows (h : w.Grows c.host w') (ht : c.targetOf w m = .ok t) :
    c.targetOf w' m = .ok t := by
  have hs := h.sessions c.session
  rw [targetOf] at ht ⊢
  cases hw : (w.session c.session).targets.get? m with
  | some t₀ =>
    rw [hw] at ht
    rw [hs.targets hw]
    exact ht
  | none =>
    rw [hw] at ht
    cases hw' : (w'.session c.session).targets.get? m with
    | none => exact ht
    | some t' =>
      rcases hs.decided hw' with hc | hd
      · rw [hw] at hc
        cases hc
      · exact hd.symm.trans ht

/-- Reaching a member answers how it is reached, and from then on it is cached. -/
theorem target_eq_ok {r : Except Stop (Target σ)} (ht : c.targetOf w m = .ok t)
    (h : c.target m w = (r, w')) :
    r = .ok t ∧ (w'.session c.session).targets.get? m = some t := by
  rw [targetOf] at ht
  cases hw : (w.session c.session).targets.get? m with
  | some t₀ =>
    rw [hw] at ht
    cases ht
    rw [c.target_of_cached hw] at h
    cases h
    exact ⟨rfl, hw⟩
  | none =>
    rw [hw] at ht
    rw [c.target_of_decided hw ht] at h
    cases h
    exact ⟨rfl, by simp⟩

namespace Chain

variable {links : List InitializerLink}

theorem grows (h : c.Chain w m links t) (hw : w.Grows c.host w') : c.Chain w' m links t := by
  induction h with
  | last ht hn => exact .last (targetOf_grows hw ht) hn
  | link ht hl hk _ ih => exact .link (targetOf_grows hw ht) hl hk ih

theorem first (h : c.Chain w m links t) :
    ∃ t₀, c.targetOf w m = .ok t₀ ∧
      (links = [] ∧ t₀ = t ∨ links ≠ [] ∧ t₀.isInterpreted = true) := by
  cases h with
  | last ht hn => exact ⟨_, ht, .inl ⟨rfl, rfl⟩⟩
  | link ht hl hk hc => exact ⟨_, ht, .inr ⟨by simp, rfl⟩⟩

end Chain

/-- The step from one constructor to the next, with a method frame as the
constructor's body would have it. -/
theorem constructorChain_link {w₁ : World σ} {n : Nat} {type : ClosedType} {args : List Value}
    {body : Node} {use : MemberUse} {nodes : List Node}
    (ht : c.target m w = (.ok (.interpreted body), w₁))
    (hl : body.leadingInitializer? = some (use, nodes))
    (hk : ∀ d, c.host.member m = .ok d → d.kind.isConstructor = true) :
    c.constructorChain (n + 1) m type args w = (do
      let (a, next, t) ← c.openLink m type args use
      match t with
      | .physical _ =>
        let values ← Run.within a (c.evalList nodes)
        return ⟨values, []⟩
      | .interpreted _ =>
        let values ← Run.within a (c.evalList nodes)
        let rest ← c.constructorChain n use.symbol next values
        return ⟨rest.physical, values :: rest.interpreted⟩
      | _ => return ⟨[], []⟩ : Run (World σ) ConstructorChain) w₁ := by
  rw [constructorChain, Run.bind_ok ht]
  simp only [hl, openLink, prepare, Run.bind_assoc]
  cases hd : c.host.member m with
  | error e => rfl
  | ok d =>
    have hk : (!d.kind.isConstructor) = false := by rw [hk d hd]; rfl
    refine Run.bind_congr fun d' w₂ hd' => ?_
    cases hd'
    simp only [hk, Bool.false_eq_true, if_false]
    split
    · rfl
    · simp only [Run.bind_assoc]
      refine Run.bind_congr fun classFrame w₃ _ => Run.bind_congr fun methodFrame w₄ _ => ?_
      exact Run.bind_congr fun _ w₅ _ => rfl

theorem ofLists_nil (last : Target σ) : ConstructorChain.ofLists last [] = ⟨[], []⟩ := by
  simp [ConstructorChain.ofLists]

theorem ofLists_cons {last : Target σ} (values : List Value) {lists : List (List Value)}
    (h : last.isPhysical = true → lists ≠ []) :
    ConstructorChain.ofLists last (values :: lists) =
      ⟨(ConstructorChain.ofLists last lists).physical,
        values :: (ConstructorChain.ofLists last lists).interpreted⟩ := by
  simp only [ConstructorChain.ofLists]
  split
  · rename_i hp
    obtain ⟨v, vs, rfl⟩ := List.exists_cons_of_ne_nil (h hp)
    simp
  · rfl

theorem Agrees.openLink {host : Host σ} {W : WorldTerms host} {c c' : Context σ}
    (h : c.Agrees W c') (m : SymbolId) (type : ClosedType) (args : List Value) (use : MemberUse)
    (b : W.Bond) :
    Run.AgreesBy W.toTerms b (fun b r r' => (NodeTerms.all W).Tied b r.1 r'.1 ∧ r.2 = r'.2)
      (c.openLink m type args use) (c'.openLink m type args use) := by
  refine (h.prepare _ _ _ _ _ b).bind fun b₁ a a' _ ha => ?_
  refine (Run.AgreesBy.within ha (.closeType trivial)).bind fun b₂ next _ hb₂ he => ?_
  cases he
  refine (h.target _ b₂).bind fun b₃ t _ hb₃ he => ?_
  cases he
  exact .pure fun b₄ hb₄ => ⟨ha.later (W.trans hb₂ (W.trans hb₃ hb₄)), rfl⟩

theorem Agrees.evaluateLinks {host : Host σ} {W : WorldTerms host} {c c' : Context σ}
    (h : c.Agrees W c') (links : List InitializerLink) : ∀ m type args,
    Run.Agrees W.toTerms (c.evaluateLinks m type args links)
      (c'.evaluateLinks m type args links) := by
  induction links with
  | nil => exact fun _ _ _ => .pure []
  | cons link rest ih =>
    intro m type args
    refine .tied (h.openLink m type args link.use) fun b r r' opened => ?_
    obtain ⟨a, next, t⟩ := r
    obtain ⟨a', _⟩ := r'
    obtain ⟨ha, rfl⟩ := opened
    refine .ite (fun _ => ?_) fun _ => Run.Agrees.pure [] b
    refine (Run.AgreesBy.within ha (.mapList fun x _ => h.eval x)).bind fun b₁ values _ _ he => ?_
    cases he
    exact (Run.Agrees.bind (ih _ _ _) fun lists => .pure (values :: lists)) b₁

variable (self : c.Agrees (World.growing c.host False False) c)

include self

theorem arguments_grow {a : Activation} {nodes : List Node} {r : Except Stop (List Value)}
    (h : Run.within a (c.evalList nodes) w = (r, w')) : w.Grows c.host w' := by
  have tied : (NodeTerms.all (World.growing c.host False False)).Tied w a a := .itself rfl
  exact (Run.AgreesBy.within tied (.mapList fun node _ => self.eval node)).grows h

theorem openLink_grows {type : ClosedType} {args : List Value} {use : MemberUse}
    {r : Except Stop (Activation × ClosedType × Target σ)}
    (h : c.openLink m type args use w = (r, w')) : w.Grows c.host w' :=
  (self.openLink m type args use w).grows h

theorem openLink_target {type : ClosedType} {args : List Value} {use : MemberUse} {a next t'}
    (ht : c.targetOf w use.symbol = .ok t)
    (h : c.openLink m type args use w = (.ok (a, next, t'), w')) :
    t' = t ∧ (w'.session c.session).targets.get? use.symbol = some t := by
  simp only [openLink, Run.bind_eq_ok] at h
  obtain ⟨_, w₁, ha, _, w₂, hn, t₁, w₃, ht₁, hr⟩ := h
  cases hr
  have hw : w.Grows c.host w₂ := by
    obtain rfl : w₁ = w₂ := congrArg Prod.snd hn
    exact (self.prepare _ _ _ _ _ w).grows ha
  obtain ⟨hr, hc⟩ := target_eq_ok (targetOf_grows hw ht) ht₁
  cases hr
  exact ⟨rfl, hc⟩

theorem evaluateLinks_length {links : List InitializerLink} (chain : c.Chain w m links t)
    {type : ClosedType} {args : List Value} {lists : List (List Value)} {w₁ w₂ : World σ}
    (hw : w.Grows c.host w₁) (h : c.evaluateLinks m type args links w₁ = (.ok lists, w₂)) :
    lists.length = if t.isInterpreted || t.isPhysical then links.length else links.length - 1 := by
  induction chain generalizing type args lists w₁ with
  | last => cases h; simp
  | @link m body use nodes rest t ht hl hk chain ih =>
    simp only [evaluateLinks, Run.bind_eq_ok] at h
    obtain ⟨⟨a, next, t₁⟩, w₃, ho, h⟩ := h
    have hw₃ := hw.trans (openLink_grows self ho)
    obtain ⟨t₀, ht₀, hfirst⟩ := (chain.grows hw).first
    obtain ⟨rfl, -⟩ := openLink_target self ht₀ ho
    dsimp only at h
    split at h
    · rename_i reached
      simp only [Run.bind_eq_ok] at h
      obtain ⟨values, w₄, hv, lists', w₅, hlists, hr⟩ := h
      cases hr
      have hlen := ih (hw₃.trans (arguments_grow self hv)) hlists
      rcases hfirst with ⟨rfl, rfl⟩ | ⟨hne, -⟩
      · simp [reached] at hlen ⊢
        exact hlen
      · have hpos : 0 < rest.length := List.length_pos_iff.2 hne
        simp only [List.length_cons]
        split <;> rename_i hlast <;> simp only [hlast] at hlen <;> simp at hlen <;> omega
    · rename_i reached
      cases h
      rcases hfirst with ⟨rfl, rfl⟩ | ⟨-, hi⟩
      · simp [reached]
      · simp [hi] at reached

/-- Following the initializers from a constructor on comes to the arguments of
the links, each list evaluated once; a chain is followed to its end in as many
steps as it has constructors. -/
theorem constructorChain_eq {links : List InitializerLink} (chain : c.Chain w m links t) {n : Nat}
    (hn : links.length < n) (type : ClosedType) (args : List Value) {w₁ : World σ}
    (hw : w.Grows c.host w₁) :
    c.constructorChain n m type args w₁ = (do
      let _ ← c.target m
      let lists ← c.evaluateLinks m type args links
      return .ofLists t lists : Run (World σ) ConstructorChain) w₁ := by
  obtain ⟨n, rfl⟩ : ∃ k, n = k + 1 := ⟨n - 1, by omega⟩
  induction chain generalizing n type args w₁ with
  | @last m t ht hl =>
    rw [constructorChain]
    refine Run.bind_congr fun t₀ w₂ ht₀ => ?_
    obtain ⟨hr, -⟩ := target_eq_ok (targetOf_grows hw ht) ht₀
    cases hr
    simp only [evaluateLinks, Run.bind_def, Run.pure_def, ofLists_nil]
    cases t with
    | interpreted tree => simp only [hl tree rfl]; rfl
    | physical | slot | staticSlot | frameSlot | accessors | bodiless | empty => rfl
  | @link m body use nodes rest t ht hl hk chain ih =>
    rcases htm : c.target m w₁ with ⟨r, w₂⟩
    obtain ⟨rfl, -⟩ := target_eq_ok (targetOf_grows hw ht) htm
    rw [constructorChain_link htm hl hk, Run.bind_ok htm]
    have hw₂ : w.Grows c.host w₂ := hw.trans ((self.target m).grows htm)
    simp only [evaluateLinks, Run.bind_assoc]
    refine Run.bind_congr fun opened w₃ ho => ?_
    obtain ⟨a, next, t₁⟩ := opened
    have hw₃ := hw₂.trans (openLink_grows self ho)
    obtain ⟨t₀, ht₀, hfirst⟩ := (chain.grows hw₂).first
    obtain ⟨rfl, hcached⟩ := openLink_target self ht₀ ho
    cases t₁ with
    | interpreted tree =>
      simp only [Target.isInterpreted, Bool.true_or, if_true, Run.bind_assoc]
      refine Run.bind_congr fun values w₄ hv => ?_
      have hw₄ := hw₃.trans (arguments_grow self hv)
      have hcached := (arguments_grow self hv).sessions c.session |>.targets hcached
      obtain ⟨n, rfl⟩ : ∃ k, n = k + 1 := ⟨n - 1, by simp at hn; omega⟩
      rw [Run.bind_def, ih next values hw₄ n (by simpa using hn), ← Run.bind_def]
      rw [Run.bind_assoc, Run.bind_ok (c.target_of_cached hcached), Run.bind_assoc]
      refine Run.bind_congr fun lists w₅ hlists => ?_
      have hlen := evaluateLinks_length self chain hw₄ hlists
      have hcons : ConstructorChain.ofLists t (values :: lists) = _ := ofLists_cons values ?_
      · simp only [Run.bind_def, Run.pure_def, hcons]
      · -- the host's constructor comes after an interpreted one, so not at once
        intro hp hnil
        rcases hfirst with ⟨-, rfl⟩ | ⟨hne, -⟩
        · cases hp
        · simp only [hnil, hp, Bool.or_true, if_true, List.length_nil] at hlen
          exact hne (List.length_eq_zero_iff.1 hlen.symm)
    | physical handle =>
      rcases hfirst with ⟨rfl, rfl⟩ | ⟨-, hi⟩
      · simp only [Target.isPhysical, Bool.or_true, if_true, Run.bind_assoc]
        exact Run.bind_congr fun values w₄ _ => rfl
      · cases hi
    | slot | staticSlot | frameSlot | accessors | bodiless | empty =>
      rcases hfirst with ⟨rfl, rfl⟩ | ⟨-, hi⟩
      · rfl
      · cases hi

end Context

end OpTree
