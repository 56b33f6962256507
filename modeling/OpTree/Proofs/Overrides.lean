/-
Overrides and member tables. The walk of a member table goes over the levels of a type:
the type, its base, and so on while types are symbolic (`Host.Levels`). A method stands
for the methods that it overrides, and for those that they override
(`Host.StandsFor`); the table has, for each symbol that a method with a body stands for,
the body of the most derived such method, in the type that its level has in the chain of
closed bases.

The walk ends at the first loaded type, and it takes the overrides of the methods that
it meets. What loaded methods override is not looked at: the host's own types dispatch
among themselves.
-/
import OpTree.Proofs.Chain
import OpTree.Proofs.Registration
import OpTree.Scripted

namespace OpTree

/-- One type of the walk. -/
structure Level where
  type : ClosedType
  descriptor : TypeDescriptor
  /-- The type that the walk began with. -/
  first : Bool

/-- The accessors of a property. -/
def MemberKind.accessors : MemberKind → List SymbolId
  | property _ _ getter setter => getter.toList ++ setter.toList
  | _ => []

namespace Host

variable {σ : Type} (host : Host σ)

/-- The levels of a type. -/
inductive Levels : Bool → ClosedType → List Level → Prop where
  /-- There are no declarations. -/
  | unnamed {first type} : type.definition? = none → Levels first type []
  /-- The type is not made of declarations alone. -/
  | loaded {first type d descriptor} : type.definition? = some d →
      host.typeDescriptor d = .ok descriptor → descriptor.isSymbolic = false → Levels first type []
  | root {first type d descriptor} : type.definition? = some d →
      host.typeDescriptor d = .ok descriptor → descriptor.isSymbolic = true →
      descriptor.base = none → Levels first type [⟨type, descriptor, first⟩]
  /-- The base is closed by the arguments of the type. -/
  | derived {first type d descriptor base closed levels} : type.definition? = some d →
      host.typeDescriptor d = .ok descriptor → descriptor.isSymbolic = true →
      descriptor.base = some base →
      base.close (Substitution.ofType type.typeArgs).resolver = .ok closed →
      Levels false closed levels → Levels first type (⟨type, descriptor, first⟩ :: levels)

/-- The member that a member overrides. -/
def overridesOf (m : SymbolId) : Option SymbolId :=
  match host.member m with
  | .ok member => member.kind.overrides?
  | .error _ => none

def IsMethod (m : SymbolId) : Prop := ∃ d, host.member m = .ok d ∧ d.kind.isMethod = true

/-- A constructor that is written out. -/
def IsConstructor (m : SymbolId) : Prop :=
  ∃ d, host.member m = .ok d ∧ d.kind.isConstructor = true ∧ d.origin = .source

/-- A method of the levels overrides another. -/
def Overrides (levels : List Level) (a b : SymbolId) : Prop :=
  ∃ l ∈ levels, a ∈ l.descriptor.members ∧ host.overridesOf a = some b

/-- A symbol stands for those that it overrides, in any number of steps. -/
def StandsFor (levels : List Level) : SymbolId → SymbolId → Prop :=
  Relation.ReflTransGen (host.Overrides levels)

/-- What is asked of levels: methods, properties and accessors are written out, each in a
level of its own, and an override is by one method and of one that is more basic. -/
structure Hierarchy (levels : List Level) : Prop where
  known : ∀ l ∈ levels, ∀ m ∈ l.descriptor.members, ∃ d, host.member m = .ok d
  source : ∀ l ∈ levels, ∀ m ∈ l.descriptor.members, ∀ d, host.member m = .ok d →
    d.kind.isMethod = true ∨ d.kind.isProperty = true → d.origin = .source
  accessors : ∀ l ∈ levels, ∀ m ∈ l.descriptor.members, ∀ d, host.member m = .ok d →
    ∀ a ∈ d.kind.accessors, a ∈ l.descriptor.members ∧ host.IsMethod a
  /-- What is overridden is a method of a level after that of the method, if it is one of
  the levels at all. -/
  basic : ∀ {i j : Nat} {l l' : Level}, levels[i]? = some l → levels[j]? = some l' →
    ∀ {m o}, m ∈ l.descriptor.members → host.overridesOf m = some o →
      o ∈ l'.descriptor.members → i < j ∧ host.IsMethod o
  once : ∀ {a b o}, host.Overrides levels a o → host.Overrides levels b o → a = b

/-- The body that a symbol stands for in the table of a type with the given levels. -/
inductive Provides (levels : List Level) (s : SymbolId) : RegistryEntry → Prop where
  /-- The symbol is a method's, and the most derived method that has a body and stands for
  it is of level `l`. -/
  | method {before l after m tree} : levels = before ++ l :: after →
      m ∈ l.descriptor.members → host.IsMethod m → host.tree m = some tree →
      host.StandsFor levels m s →
      (∀ l' ∈ before, ∀ m' ∈ l'.descriptor.members, host.IsMethod m' →
        host.StandsFor levels m' s → host.tree m' = none) →
      Provides levels s ⟨l.type, tree, m⟩
  /-- The symbol is that of a constructor of the type itself. -/
  | constructor {l after tree} : levels = l :: after → s ∈ l.descriptor.members →
      host.IsConstructor s → host.tree s = some tree → Provides levels s ⟨l.type, tree, s⟩

/-! ## The walk as a list -/

/-- The bodies that are registered for one member of a level. -/
def registrationsOf (context : ClosedType) (first : Bool) (m : SymbolId) : List Registration :=
  match host.member m with
  | .error _ => []
  | .ok member =>
    if member.origin ≠ .source then []
    else
      match member.kind with
      | .method _ _ _ _ overrides => [⟨context, m, overrides⟩]
      | .constructor _ => if first then [⟨context, m, none⟩] else []
      | .property _ _ getter setter =>
        (getter.toList ++ setter.toList).map fun a => ⟨context, a, host.overridesOf a⟩
      | .field _ => []

/-- The bodies that are registered for a level. -/
def registrations (l : Level) : List Registration :=
  l.descriptor.members.flatMap (host.registrationsOf l.type l.first)

end Host

namespace Context

variable {σ : Type} (c : Context σ)

theorem registerAccessors_eq (context : ClosedType) {accessors : List SymbolId}
    (known : ∀ a ∈ accessors, ∃ d, c.host.member a = .ok d) (table : MemberTable) :
    c.registerAccessors context accessors table =
      c.registerAll (accessors.map fun a => ⟨context, a, c.host.overridesOf a⟩) table := by
  induction accessors generalizing table with
  | nil => rfl
  | cons a rest ih =>
    obtain ⟨d, hd⟩ := known a (by simp)
    have own : c.host.overridesOf a = d.kind.overrides? := by rw [Host.overridesOf, hd]
    funext w
    simp only [registerAccessors, List.map_cons, registerAll, own, Run.liftM_except, hd,
      Run.bind_def, Run.ofExcept_ok]
    rcases c.registerBody context a d.kind.overrides? table w with ⟨e | t, w'⟩
    · rfl
    · exact congrFun (ih (fun b hb => known b (by simp [hb])) t) w'

theorem registerMember_eq (context : ClosedType) (first : Bool) {m : SymbolId}
    {d : MemberDescriptor} (hd : c.host.member m = .ok d)
    (known : ∀ a ∈ d.kind.accessors, ∃ d, c.host.member a = .ok d) (table : MemberTable) :
    c.registerMember context first m table =
      c.registerAll (c.host.registrationsOf context first m) table := by
  have one (r : Registration) : c.registerAll [r] table =
      c.registerBody r.context r.symbol r.overrides table := by
    funext w
    simp only [registerAll, Run.bind_def]
    rcases c.registerBody r.context r.symbol r.overrides table w with ⟨_ | _, _⟩ <;> rfl
  funext w
  simp only [registerMember, Host.registrationsOf, Run.liftM_except, hd, Run.bind_def,
    Run.ofExcept_ok]
  split
  · rfl
  · cases hk : d.kind with
    | method ps ret arity isVirtual overrides => exact (congrFun (one ⟨context, m, overrides⟩) w).symm
    | constructor ps =>
      cases first with
      | true => exact (congrFun (one ⟨context, m, none⟩) w).symm
      | false => rfl
    | property type ps getter setter =>
      refine congrFun (c.registerAccessors_eq context (fun a ha => known a ?_) table) w
      rw [hk]
      exact ha
    | field type => rfl

theorem registerMembers_eq {levels : List Level} (h : c.host.Hierarchy levels) {l : Level}
    (hl : l ∈ levels) {members : List SymbolId} (hm : ∀ m ∈ members, m ∈ l.descriptor.members)
    (table : MemberTable) : c.registerMembers l.type l.first members table =
      c.registerAll (members.flatMap (c.host.registrationsOf l.type l.first)) table := by
  induction members generalizing table with
  | nil => rfl
  | cons m rest ih =>
    obtain ⟨d, hd⟩ := h.known l hl m (hm m (by simp))
    have known (a) (ha : a ∈ d.kind.accessors) : ∃ d, c.host.member a = .ok d := by
      obtain ⟨-, d', hd', -⟩ := h.accessors l hl m (hm m (by simp)) d hd a ha
      exact ⟨d', hd'⟩
    rw [registerMembers, List.flatMap_cons, registerAll_append,
      c.registerMember_eq l.type l.first hd known table]
    congr 1
    funext table
    exact ih (fun x hx => hm x (by simp [hx])) table

/-- The walk registers the bodies of the levels, level by level. -/
theorem registerLevels_eq {all : List Level} (h : c.host.Hierarchy all) {first : Bool}
    {type : ClosedType} {levels : List Level} (walk : c.host.Levels first type levels)
    (hs : ∀ l ∈ levels, l ∈ all) {n : Nat} (hn : levels.length < n) (table : MemberTable) :
    c.registerLevels n type first table =
      c.registerAll (levels.flatMap c.host.registrations) table := by
  induction walk generalizing n table with
  | unnamed hd =>
    obtain ⟨n, rfl⟩ := Nat.exists_eq_succ_of_ne_zero (Nat.ne_zero_of_lt hn)
    simp only [registerLevels, hd]
    rfl
  | loaded hd hdesc hsym =>
    obtain ⟨n, rfl⟩ := Nat.exists_eq_succ_of_ne_zero (Nat.ne_zero_of_lt hn)
    funext w
    simp [registerLevels, hd, Run.liftM_except, hdesc, hsym, registerAll]
  | @root first type d descriptor hd hdesc hsym hbase =>
    obtain ⟨n, rfl⟩ := Nat.exists_eq_succ_of_ne_zero (Nat.ne_zero_of_lt hn)
    have members := c.registerMembers_eq h (l := ⟨type, descriptor, first⟩) (hs _ (by simp))
      (fun _ hm => hm) table
    funext w
    simp only [registerLevels, hd, Run.liftM_except, hdesc, hsym, hbase, members, Run.bind_def,
      Run.ofExcept_ok, List.flatMap_cons, List.flatMap_nil, List.append_nil, Bool.not_true,
      Bool.false_eq_true, if_false]
    rcases hr : c.registerAll (descriptor.members.flatMap (c.host.registrationsOf type first)) table w
      with ⟨_ | _, _⟩ <;> exact hr.symm
  | @derived first type d descriptor base closed levels hd hdesc hsym hbase hclosed _ ih =>
    obtain ⟨n, rfl⟩ := Nat.exists_eq_succ_of_ne_zero (Nat.ne_zero_of_lt hn)
    have members := c.registerMembers_eq h (l := ⟨type, descriptor, first⟩) (hs _ (by simp))
      (fun _ hm => hm) table
    have rest := fun table => ih (fun l hl => hs l (by simp [hl]))
      (Nat.lt_of_succ_lt_succ hn) table
    rw [List.flatMap_cons, registerAll_append]
    funext w
    simp only [registerLevels, hd, Run.liftM_except, hdesc, hsym, hbase, members, Run.bind_def,
      Run.ofExcept_ok, hclosed, Bool.not_true, Bool.false_eq_true, if_false, rest]
    rfl

end Context

/-! ## The order of the list -/

namespace Host

variable {σ : Type} {host : Host σ} {levels : List Level} (h : host.Hierarchy levels)

theorem Levels.first_eq {first : Bool} {type : ClosedType} (walk : host.Levels first type levels) :
    ∀ l ∈ levels.head?, l.first = first := by
  cases walk <;> simp

theorem Levels.unique {first : Bool} {type : ClosedType} (walk : host.Levels first type levels)
    {levels' : List Level} (walk' : host.Levels first type levels') : levels = levels' := by
  induction walk generalizing levels' with
  | unnamed hd =>
    cases walk' with
    | unnamed => rfl
    | loaded hd' | root hd' | derived hd' => cases hd.symm.trans hd'
  | loaded hd hdesc hs =>
    cases walk' with
    | unnamed hd' => cases hd.symm.trans hd'
    | loaded => rfl
    | root hd' hdesc' hs' | derived hd' hdesc' hs' =>
      cases hd.symm.trans hd'
      cases hdesc.symm.trans hdesc'
      cases hs.symm.trans hs'
  | root hd hdesc hs hb =>
    cases walk' with
    | unnamed hd' => cases hd.symm.trans hd'
    | loaded hd' hdesc' hs' =>
      cases hd.symm.trans hd'
      cases hdesc.symm.trans hdesc'
      cases hs.symm.trans hs'
    | derived hd' hdesc' hs' hb' =>
      cases hd.symm.trans hd'
      cases hdesc.symm.trans hdesc'
      cases hb.symm.trans hb'
    | root hd' hdesc' =>
      cases hd.symm.trans hd'
      cases hdesc.symm.trans hdesc'
      rfl
  | derived hd hdesc hs hb hclosed walk ih =>
    cases walk' with
    | unnamed hd' => cases hd.symm.trans hd'
    | loaded hd' hdesc' hs' =>
      cases hd.symm.trans hd'
      cases hdesc.symm.trans hdesc'
      cases hs.symm.trans hs'
    | root hd' hdesc' hs' hb' =>
      cases hd.symm.trans hd'
      cases hdesc.symm.trans hdesc'
      cases hb.symm.trans hb'
    | derived hd' hdesc' hs' hb' hclosed' walk' =>
      cases hd.symm.trans hd'
      cases hdesc.symm.trans hdesc'
      cases hb.symm.trans hb'
      cases hclosed.symm.trans hclosed'
      rw [ih walk']

theorem Levels.before_eq_nil {type : ClosedType} {first : Bool} (walk : host.Levels first type levels)
    {before l after} (hs : levels = before ++ l :: after) (hf : l.first = true) : before = [] := by
  induction walk generalizing before with
  | unnamed | loaded => simp at hs
  | root =>
    rcases before with _ | ⟨b, rest⟩
    · rfl
    · simp at hs
  | @derived _ _ _ _ _ _ levels _ _ _ _ _ walk ih =>
    rcases before with _ | ⟨b, rest⟩
    · rfl
    · simp only [List.cons_append, List.cons.injEq] at hs
      obtain rfl := ih hs.2
      have head := walk.first_eq l (by rw [hs.2]; simp)
      rw [hf] at head
      cases head

include h

theorem Hierarchy.registered {l : Level} (hl : l ∈ levels) {r : Registration}
    (hr : r ∈ host.registrations l) : r.context = l.type ∧ r.symbol ∈ l.descriptor.members ∧
      r.overrides = host.overridesOf r.symbol ∧
      (host.IsMethod r.symbol ∨ l.first = true ∧ host.IsConstructor r.symbol) := by
  obtain ⟨m, hm, hr⟩ := List.mem_flatMap.1 hr
  obtain ⟨d, hd⟩ := h.known l hl m hm
  simp only [registrationsOf, hd] at hr
  split at hr
  · cases hr
  · rename_i hsource
    have hsource : d.origin = .source := by simpa using hsource
    cases hk : d.kind with
    | method ps ret arity isVirtual overrides =>
      simp only [hk, List.mem_singleton] at hr
      subst hr
      refine ⟨rfl, hm, ?_, .inl ⟨d, hd, by rw [hk]; rfl⟩⟩
      simp only [overridesOf, hd, hk, MemberKind.overrides?]
    | constructor ps =>
      simp only [hk] at hr
      split at hr
      · rename_i hf
        simp only [List.mem_singleton] at hr
        subst hr
        refine ⟨rfl, hm, ?_, .inr ⟨hf, d, hd, by rw [hk]; rfl, hsource⟩⟩
        simp only [overridesOf, hd, hk, MemberKind.overrides?]
      · cases hr
    | property type ps getter setter =>
      simp only [hk, List.mem_map] at hr
      obtain ⟨a, ha, rfl⟩ := hr
      obtain ⟨ham, hmethod⟩ := h.accessors l hl m hm d hd a (by rw [hk]; exact ha)
      exact ⟨rfl, ham, rfl, .inl hmethod⟩
    | field type => simp [hk] at hr

theorem Hierarchy.registers_method {l : Level} (hl : l ∈ levels) {m : SymbolId}
    (hm : m ∈ l.descriptor.members) (hmethod : host.IsMethod m) :
    ⟨l.type, m, host.overridesOf m⟩ ∈ host.registrations l := by
  obtain ⟨d, hd, hk⟩ := hmethod
  refine List.mem_flatMap.2 ⟨m, hm, ?_⟩
  have hsource : d.origin = .source := h.source l hl m hm d hd (.inl hk)
  simp only [registrationsOf, overridesOf, hd, hsource]
  cases hk' : d.kind <;> simp_all [MemberKind.isMethod, MemberKind.overrides?]

omit h in
theorem registers_constructor {l : Level} (hf : l.first = true) {m : SymbolId}
    (hm : m ∈ l.descriptor.members) (hc : host.IsConstructor m) :
    ⟨l.type, m, none⟩ ∈ host.registrations l := by
  obtain ⟨d, hd, hk, hsource⟩ := hc
  refine List.mem_flatMap.2 ⟨m, hm, ?_⟩
  simp only [registrationsOf, hd, hsource, hf]
  cases hk' : d.kind <;> simp_all [MemberKind.isConstructor]

omit h in
theorem isMethod_of_overridesOf {m o : SymbolId} (ho : host.overridesOf m = some o) :
    host.IsMethod m := by
  rw [overridesOf] at ho
  split at ho
  · rename_i d hd
    refine ⟨d, hd, ?_⟩
    cases hk : d.kind <;> simp_all [MemberKind.overrides?, MemberKind.isMethod]
  · cases ho

omit h in
theorem IsConstructor.not_isMethod {m : SymbolId} (hc : host.IsConstructor m) :
    ¬host.IsMethod m := by
  rintro ⟨d, hd, hk⟩
  obtain ⟨d', hd', hk', -⟩ := hc
  cases hd.symm.trans hd'
  cases hk'' : d.kind <;> simp_all [MemberKind.isMethod, MemberKind.isConstructor]

theorem Hierarchy.edge_iff {a b : SymbolId} :
    Registration.Edge (levels.flatMap host.registrations) a b ↔ host.Overrides levels a b := by
  constructor
  · rintro ⟨r, hr, rfl, ho⟩
    obtain ⟨l, hl, hr⟩ := List.mem_flatMap.1 hr
    obtain ⟨-, hm, same, -⟩ := h.registered hl hr
    exact ⟨l, hl, hm, same.symm.trans ho⟩
  · rintro ⟨l, hl, hm, ho⟩
    have hr := h.registers_method hl hm (isMethod_of_overridesOf ho)
    exact ⟨_, List.mem_flatMap.2 ⟨l, hl, hr⟩, rfl, ho⟩

theorem Hierarchy.reaches_eq :
    Registration.Reaches (levels.flatMap host.registrations) = host.StandsFor levels := by
  have same : Registration.Edge (levels.flatMap host.registrations) = host.Overrides levels := by
    funext a b
    exact propext h.edge_iff
  rw [Registration.Reaches, StandsFor, same]

/-- What a level registers overrides nothing of the levels up to it. -/
theorem Hierarchy.not_ahead {i j : Nat} {l l' : Level} (hl : levels[i]? = some l)
    (hl' : levels[j]? = some l') (hij : i ≤ j) {x r : Registration}
    (hx : x ∈ host.registrations l) (hr : r ∈ host.registrations l') :
    r.overrides ≠ some x.symbol := by
  intro ho
  obtain ⟨-, hm, same, -⟩ := h.registered (List.mem_of_getElem? hl') hr
  have listed := (h.registered (List.mem_of_getElem? hl) hx).2.1
  have before := (h.basic hl' hl hm (same.symm.trans ho) listed).1
  exact Nat.not_le_of_lt before hij

/-- The walk registers a body before those that it overrides. -/
theorem Hierarchy.ordered : Registration.Ordered (levels.flatMap host.registrations) := by
  have listed {r} (hr : r ∈ levels.flatMap host.registrations) :
      ∃ (i : Nat) (l : Level), levels[i]? = some l ∧ r ∈ host.registrations l := by
    obtain ⟨l, hl, hr⟩ := List.mem_flatMap.1 hr
    obtain ⟨i, hi⟩ := List.mem_iff_getElem?.1 hl
    exact ⟨i, l, hi, hr⟩
  have own {r} (hr : r ∈ levels.flatMap host.registrations) :
      r.overrides = host.overridesOf r.symbol := by
    obtain ⟨l, hl, hr⟩ := List.mem_flatMap.1 hr
    exact (h.registered hl hr).2.2.1
  have pairs : (levels.flatMap host.registrations).Pairwise fun x r =>
      r.overrides ≠ some x.symbol := by
    refine List.pairwise_flatMap.2 ⟨fun l hl => ?_, ?_⟩
    · obtain ⟨i, hi⟩ := List.mem_iff_getElem?.1 hl
      exact List.pairwise_iff_getElem.2 fun _ _ hx hr _ =>
        h.not_ahead hi hi (Nat.le_refl i) (List.getElem_mem hx) (List.getElem_mem hr)
    · refine List.pairwise_iff_getElem.2 fun i j hi hj hij x hx r hr => ?_
      exact h.not_ahead (List.getElem?_eq_getElem hi) (List.getElem?_eq_getElem hj)
        (Nat.le_of_lt hij) hx hr
  intro done r rest hs
  rw [hs] at listed own pairs
  have before (x) (hx : x ∈ done) : x ∈ done ++ r :: rest := List.mem_append_left _ hx
  have last : r ∈ done ++ r :: rest := by simp
  refine ⟨fun x hx => ?_, fun x hx o ho ho' => ?_, fun x hx hs => ?_⟩
  · rcases List.mem_append.1 hx with hx | hx
    · exact (List.pairwise_append.1 pairs).2.2 x hx r (by simp)
    · obtain rfl := List.mem_singleton.1 hx
      obtain ⟨i, l, hl, hr⟩ := listed last
      exact h.not_ahead hl hl (Nat.le_refl i) hr hr
  · have edge {y} (hy : y ∈ done ++ r :: rest) (ho : y.overrides = some o) :
        host.Overrides levels y.symbol o := h.edge_iff.1 ⟨y, hs ▸ hy, rfl, ho⟩
    exact h.once (edge (before x hx) ho') (edge last ho)
  · rw [own (before x hx), own last, hs]

/-! ## Who stands for a symbol -/

/-- A method stands for members of later levels only, itself apart. -/
theorem Hierarchy.later {a b : SymbolId} (hab : Relation.TransGen (host.Overrides levels) a b)
    {i j : Nat} {l l' : Level} (hl : levels[i]? = some l) (ha : a ∈ l.descriptor.members)
    (hl' : levels[j]? = some l') (hb : b ∈ l'.descriptor.members) : i < j := by
  induction hab generalizing j l' with
  | single hab =>
    obtain ⟨-, -, -, ho⟩ := hab
    exact (h.basic hl hl' ha ho hb).1
  | tail _ hcb ih =>
    obtain ⟨k, hk, hc, ho⟩ := hcb
    obtain ⟨n, hn⟩ := List.mem_iff_getElem?.1 hk
    exact Nat.lt_trans (ih hn hc) (h.basic hn hl' hc ho hb).1

theorem Hierarchy.eq_of_standsFor {l : Level} (hl : l ∈ levels) {a b s : SymbolId}
    (ha : a ∈ l.descriptor.members) (hb : b ∈ l.descriptor.members)
    (has : host.StandsFor levels a s) (hbs : host.StandsFor levels b s) : a = b := by
  obtain ⟨i, hi⟩ := List.mem_iff_getElem?.1 hl
  have once : Relator.RightUnique (Function.swap (host.Overrides levels)) :=
    fun _ _ _ hx hy => h.once hx hy
  have apart {x y} (hx : x ∈ l.descriptor.members) (hy : y ∈ l.descriptor.members)
      (hxy : host.StandsFor levels x y) : x = y := by
    rcases Relation.reflTransGen_iff_eq_or_transGen.1 hxy with rfl | hxy
    · rfl
    · exact absurd (h.later hxy hi hx hi hy) (Nat.lt_irrefl i)
  rcases Relation.ReflTransGen.total_of_right_unique once (Relation.reflTransGen_swap.2 has)
    (Relation.reflTransGen_swap.2 hbs) with hab | hba
  · exact (apart hb ha (Relation.reflTransGen_swap.1 hab)).symm
  · exact apart ha hb (Relation.reflTransGen_swap.1 hba)

omit h in
theorem IsConstructor.eq_of_standsFor {a s : SymbolId} (hc : host.IsConstructor a)
    (has : host.StandsFor levels a s) : a = s := by
  rcases Relation.ReflTransGen.cases_head has with he | ⟨b, ⟨l, -, -, ho⟩, -⟩
  · exact he
  · exact absurd (isMethod_of_overridesOf ho) hc.not_isMethod

theorem Hierarchy.eq_of_constructor {l : Level} (hl : l ∈ levels) {a s : SymbolId}
    (hs : s ∈ l.descriptor.members) (hc : host.IsConstructor s)
    (has : host.StandsFor levels a s) : a = s := by
  rcases Relation.ReflTransGen.cases_tail has with he | ⟨b, -, l', hl', hb, ho⟩
  · exact he.symm
  · obtain ⟨i, hi⟩ := List.mem_iff_getElem?.1 hl
    obtain ⟨j, hj⟩ := List.mem_iff_getElem?.1 hl'
    exact absurd (h.basic hj hi hb ho hs).2 hc.not_isMethod

omit h in
theorem provider_flatMap (reaches : SymbolId → SymbolId → Prop) (s : SymbolId)
    (levels : List Level) : host.provider reaches s (levels.flatMap host.registrations) =
      levels.findSome? fun l => host.provider reaches s (host.registrations l) := by
  induction levels with
  | nil => rfl
  | cons l levels ih =>
    rw [List.flatMap_cons, provider_append, ih, List.findSome?_cons]
    cases host.provider reaches s (host.registrations l) <;> rfl

theorem Hierarchy.provider_of_registered {l : Level} (hl : l ∈ levels) {r : Registration}
    {s : SymbolId} {e : RegistryEntry} (hr : r ∈ host.registrations l)
    (hrs : host.StandsFor levels r.symbol s) (he : host.entryOf r = some e) :
    host.provider (host.StandsFor levels) s (host.registrations l) = some e := by
  cases hp : host.provider (host.StandsFor levels) s (host.registrations l) with
  | none =>
    have bodiless := provider_eq_none_iff.1 hp r hr hrs
    rw [entryOf, bodiless] at he
    cases he
  | some e' =>
    obtain ⟨r', hr', hrs', he'⟩ := exists_of_provider hp
    obtain ⟨type, hm, -⟩ := h.registered hl hr
    obtain ⟨type', hm', -⟩ := h.registered hl hr'
    have same : r'.symbol = r.symbol := h.eq_of_standsFor hl hm' hm hrs' hrs
    rw [← he, ← he', entryOf, entryOf, same, type, type']

theorem Hierarchy.provider_iff {type : ClosedType} (walk : host.Levels true type levels)
    {s : SymbolId} {e : RegistryEntry} :
    host.provider (host.StandsFor levels) s (levels.flatMap host.registrations) = some e ↔
      host.Provides levels s e := by
  rw [provider_flatMap, List.findSome?_eq_some_iff]
  constructor
  · rintro ⟨before, l, after, split, hp, unprovided⟩
    have hl : l ∈ levels := by rw [split]; simp
    have hbefore {l'} (hl' : l' ∈ before) : l' ∈ levels := by rw [split]; simp [hl']
    obtain ⟨r, hr, hrs, he⟩ := exists_of_provider hp
    obtain ⟨tree, ht, rfl⟩ := Option.map_eq_some_iff.1 he
    obtain ⟨type, hm, -, hmethod | ⟨hfirst, hc⟩⟩ := h.registered hl hr
    · rw [type]
      refine .method split hm hmethod ht hrs fun l' hl' m' hm' hmethod' hrs' => ?_
      exact provider_eq_none_iff.1 (unprovided l' hl') _
        (h.registers_method (hbefore hl') hm' hmethod') hrs'
    · obtain rfl := walk.before_eq_nil split hfirst
      obtain rfl := hc.eq_of_standsFor hrs
      rw [type]
      exact .constructor split hm hc ht
  · rintro (⟨split, hm, hmethod, ht, hms, bodiless⟩ | ⟨split, hm, hc, ht⟩)
    · rename_i before l after m tree
      have hl : l ∈ levels := by rw [split]; simp
      refine ⟨before, l, after, split, ?_, fun l' hl' => ?_⟩
      · exact h.provider_of_registered hl (h.registers_method hl hm hmethod) hms
          (by rw [entryOf, ht]; rfl)
      · have hl' : l' ∈ before ∧ l' ∈ levels := ⟨hl', by rw [split]; simp [hl']⟩
        refine provider_eq_none_iff.2 fun r hr hrs => ?_
        obtain ⟨-, hm', -, hmethod' | ⟨-, hc⟩⟩ := h.registered hl'.2 hr
        · exact bodiless l' hl'.1 r.symbol hm' hmethod' hrs
        · obtain rfl := hc.eq_of_standsFor hrs
          obtain rfl := h.eq_of_constructor hl'.2 hm' hc hms
          exact absurd hmethod hc.not_isMethod
    · rename_i l after tree
      have hl : l ∈ levels := by rw [split]; simp
      have hfirst : l.first = true := walk.first_eq l (by rw [split]; rfl)
      refine ⟨[], l, after, split, ?_, List.forall_mem_nil _⟩
      exact h.provider_of_registered hl (registers_constructor hfirst hm hc) .refl
        (by rw [entryOf, ht]; rfl)

end Host

/-! ## The table -/

namespace Context

variable {σ : Type} (c : Context σ)

/-- The table of a type that has none yet is made without failing, is the type's from then
on, and has just the bodies that the levels of the type provide: for each method and
accessor of the levels, and for what these override in turn, that of the most derived
method that stands for it. -/
theorem memberTable_provides {type : ClosedType} {levels : List Level} {w : World σ}
    (walk : c.host.Levels true type levels) (h : c.host.Hierarchy levels)
    (fuel : levels.length < c.fuel)
    (unmade : (w.session c.session).tables.get? type = none) :
    ∃ table w', c.memberTable type w = (.ok table, w') ∧ table.type = type ∧
      ∀ w'', w'.Grows c.host w'' →
        c.memberTable type w'' = (.ok table, w'') ∧
        (∀ s e, table.bodyOf (w''.session c.session).registry s = some e ↔
          c.host.Provides levels s e) ∧
        ∀ s, (table.lookup s).isSome ↔ ∃ e, c.host.Provides levels s e := by
  have walked : c.registerLevels c.fuel type true (.empty type) w =
      c.registerAll (levels.flatMap c.host.registrations) (.empty type) w := by
    rw [c.registerLevels_eq h walk (fun _ hl => hl) fuel]
  have ordered : Registration.Ordered ([] ++ levels.flatMap c.host.registrations) := h.ordered
  obtain ⟨table, w₁, hr, htype, held⟩ :=
    c.registerAll_holds (w := w) ordered (.empty c.host type _)
  rw [← walked] at hr
  let keep (state : SessionState σ) : SessionState σ :=
    { state with tables := state.tables.insert type table }
  have made : c.memberTable type w = (.ok table, w₁.mapSession c.session keep) := by
    simp only [memberTable, Run.bind_def, Run.gets, unmade, hr]
    rfl
  refine ⟨table, _, made, htype, fun w'' grows => ?_⟩
  have kept := grows.sessions c.session
  rw [World.session_mapSession_self] at kept
  have cached : (w''.session c.session).tables.get? type = some table :=
    kept.tables (Table.get?_insert_self ..)
  have held := held.later kept.registry
  rw [List.nil_append] at held
  have provided (s : SymbolId) (e : RegistryEntry) :
      c.host.provider (Registration.Reaches (levels.flatMap c.host.registrations)) s
        (levels.flatMap c.host.registrations) = some e ↔ c.host.Provides levels s e := by
    rw [h.reaches_eq]
    exact h.provider_iff walk
  refine ⟨?_, fun s e => ?_, fun s => ?_⟩
  · simp only [memberTable, Run.bind_def, Run.gets, cached]
    rfl
  · rw [held.entry, provided]
  · simp only [held.lookup_isSome_iff, provided]

end Context

/-- A base over a parameter with two methods, and a type that overrides the first. -/
def overridingOne : Scripted.Program :=
  let body : Node := .mk .dummy (.block [])
  let method (overrides : Option SymbolId) : MemberKind := .method [] (.primitive .void) 0 true overrides
  ⟨[⟨⟨⟨1⟩, "Base", .classType, true, 1, none, [], [⟨10⟩, ⟨11⟩]⟩, .fresh⟩,
      ⟨⟨⟨2⟩, "Derived", .classType, true, 0, some (.named ⟨1⟩ [.primitive .i32]), [], [⟨20⟩]⟩, .fresh⟩],
    [⟨⟨⟨10⟩, "Speak", ⟨1⟩, false, .source, method none⟩, some body, none⟩,
      ⟨⟨⟨11⟩, "Describe", ⟨1⟩, false, .source, method none⟩, some body, none⟩,
      ⟨⟨⟨20⟩, "Speak", ⟨2⟩, false, .source, method (some ⟨10⟩)⟩, some body, none⟩]⟩

/-- The levels of the second type. -/
def overridingOne.levels : List Level :=
  [⟨.named ⟨2⟩ [],
      ⟨⟨2⟩, "Derived", .classType, true, 0, some (.named ⟨1⟩ [.primitive .i32]), [], [⟨20⟩]⟩, true⟩,
    ⟨.named ⟨1⟩ [.primitive .i32], ⟨⟨1⟩, "Base", .classType, true, 1, none, [], [⟨10⟩, ⟨11⟩]⟩, false⟩]

theorem overridingOne.walk : overridingOne.host.Levels true (.named ⟨2⟩ []) levels :=
  .derived rfl rfl rfl rfl rfl (.root rfl rfl rfl rfl)

theorem overridingOne.overrides {a b : SymbolId}
    (h : overridingOne.host.Overrides levels a b) : a = ⟨20⟩ ∧ b = ⟨10⟩ := by
  have only : ∀ l ∈ levels, ∀ m ∈ l.descriptor.members, ∀ o,
      overridingOne.host.overridesOf m = some o → m = ⟨20⟩ ∧ o = ⟨10⟩ := by
    simp only [levels, List.forall_mem_cons]
    refine ⟨⟨?_, nofun⟩, ⟨nofun, nofun, nofun⟩, nofun⟩
    rintro o ⟨⟩
    exact ⟨trivial, rfl⟩
  obtain ⟨l, hl, hm, ho⟩ := h
  exact only l hl a hm b ho

theorem overridingOne.hierarchy : overridingOne.host.Hierarchy levels where
  known := by
    simp only [levels, List.forall_mem_cons]
    exact ⟨⟨⟨_, rfl⟩, nofun⟩, ⟨⟨_, rfl⟩, ⟨_, rfl⟩, nofun⟩, nofun⟩
  source := by
    simp only [levels, List.forall_mem_cons]
    refine ⟨⟨?_, nofun⟩, ⟨?_, ?_, nofun⟩, nofun⟩ <;> rintro d ⟨⟩ - <;> rfl
  accessors := by
    simp only [levels, List.forall_mem_cons]
    refine ⟨⟨?_, nofun⟩, ⟨?_, ?_, nofun⟩, nofun⟩ <;> rintro d ⟨⟩ <;> exact nofun
  basic {i j l l'} hl hl' {m o} hm ho hin := by
    obtain ⟨rfl, rfl⟩ := overridingOne.overrides ⟨l, List.mem_of_getElem? hl, hm, ho⟩
    have first : i = 0 := by
      rcases i with _ | _ | i
      · rfl
      · cases hl
        exact absurd hm (by decide)
      · cases hl
    have last : j ≠ 0 := by
      rintro rfl
      cases hl'
      exact absurd hin (by decide)
    exact ⟨by omega, _, rfl, rfl⟩
  once ha hb := (overridingOne.overrides ha).1.trans (overridingOne.overrides hb).1.symm

/-- The override is of the derived type; what is not overridden is of the base, whose
parameter is closed. -/
theorem overridingOne_memberTable :
    let c := Context.within overridingOne.host 3 ⟨0⟩
    let derived : ClosedType := .named ⟨2⟩ []
    let base : ClosedType := .named ⟨1⟩ [.primitive .i32]
    let body : Node := .mk .dummy (.block [])
    let w := World.initial Scripted.State.initial
    c.host.Levels true derived overridingOne.levels ∧ c.host.Hierarchy overridingOne.levels ∧
      (w.session c.session).tables.get? derived = none ∧
      ∃ table w', c.memberTable derived w = (.ok table, w') ∧
        table.bodyOf (w'.session c.session).registry ⟨10⟩ = some ⟨derived, body, ⟨20⟩⟩ ∧
        table.bodyOf (w'.session c.session).registry ⟨11⟩ = some ⟨base, body, ⟨11⟩⟩ := by
  intro c derived base body w
  refine ⟨overridingOne.walk, overridingOne.hierarchy, rfl, ?_⟩
  obtain ⟨table, w', made, -, provided⟩ :=
    c.memberTable_provides (w := w) overridingOne.walk overridingOne.hierarchy (by decide) rfl
  obtain ⟨-, bodies, -⟩ := provided w' (.refl w')
  refine ⟨table, w', made, (bodies ⟨10⟩ _).2 ?_, (bodies ⟨11⟩ _).2 ?_⟩
  · exact .method (show overridingOne.levels = [] ++ _ :: _ from rfl) (by decide) ⟨_, rfl, rfl⟩ rfl
      (.single ⟨_, List.mem_cons_self, by decide, rfl⟩) nofun
  · refine .method (show overridingOne.levels = [_] ++ _ :: _ from rfl) (by decide) ⟨_, rfl, rfl⟩
      rfl .refl fun l hl m hm _ hms => ?_
    obtain rfl := List.mem_singleton.1 hl
    obtain rfl := List.mem_singleton.1 hm
    rcases Relation.ReflTransGen.cases_tail hms with he | ⟨b, -, hb⟩
    · exact absurd he (by decide)
    · exact absurd (overridingOne.overrides hb).2 (by decide)

/-- A loaded type that overrides a method of its base, and a type over it that overrides
the method again. -/
def overridingLoaded : Scripted.Program :=
  let body : Node := .mk .dummy (.block [])
  let method (overrides : Option SymbolId) : MemberKind := .method [] (.primitive .void) 0 true overrides
  ⟨[⟨⟨⟨1⟩, "A", .classType, false, 0, none, [], [⟨10⟩]⟩, .fresh⟩,
      ⟨⟨⟨2⟩, "B", .classType, false, 0, some (.named ⟨1⟩ []), [], [⟨11⟩]⟩, .fresh⟩,
      ⟨⟨⟨3⟩, "C", .classType, true, 0, some (.named ⟨2⟩ []), [], [⟨12⟩]⟩, .fresh⟩],
    [⟨⟨⟨10⟩, "Speak", ⟨1⟩, false, .loaded, method none⟩, none, none⟩,
      ⟨⟨⟨11⟩, "Speak", ⟨2⟩, false, .loaded, method (some ⟨10⟩)⟩, none, none⟩,
      ⟨⟨⟨12⟩, "Speak", ⟨3⟩, false, .source, method (some ⟨11⟩)⟩, some body, none⟩]⟩

/-- The method that the loaded one overrides is not in the table. -/
theorem overridingLoaded_memberTable :
    let host := overridingLoaded.host
    let r := (Context.within host 3 ⟨0⟩).memberTable (.named ⟨3⟩ [])
      (World.initial Scripted.State.initial)
    host.overridesOf ⟨12⟩ = some ⟨11⟩ ∧ host.overridesOf ⟨11⟩ = some ⟨10⟩ ∧
      ∃ table, r.1 = .ok table ∧ table.lookup ⟨12⟩ = some ⟨0⟩ ∧ table.lookup ⟨11⟩ = some ⟨0⟩ ∧
        table.lookup ⟨10⟩ = none :=
  ⟨rfl, rfl, _, rfl, rfl, rfl, rfl⟩

end OpTree
