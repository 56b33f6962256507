/-
Which constructor the arguments select. The candidates are the instance constructors among
the members that have as many parameters as there are arguments and take every argument at
the parameter's type, closed by the arguments of the constructed type (`Host.Fits`). A
candidate by itself is selected, several are ambiguous, and without one the type has to have
no instance constructor and the call no arguments (`Host.constructor_resolved`). Only the
members count and not their order, and what counts is whether a value conforms to a type, as
a relation; the walk that tests it only has to end.

Which types take null is left open in `Host.Fits`. Tests go by the form of the type, so they
take null for a struct; with a rule that excludes structs the candidates are the same as long
as no null argument meets a struct.
-/
import OpTree.Proofs.Membership

namespace OpTree

/-- The member is a constructor of instances. -/
def MemberDescriptor.constructsInstances (m : MemberDescriptor) : Bool :=
  m.kind.isConstructor && !m.isStatic

theorem Value.eq_null_of_isNull {v : Value} (h : v.isNull = true) : v = .null := by
  cases v with
  | null => rfl
  | _ => cases h

namespace Host

variable {σ : Type} (host : Host σ)

/-- What a parameter's type is when an object of `type` is made. -/
def parameterType (type : ClosedType) (p : Parameter) : Except EvalError ClosedType :=
  p.type.close (Substitution.ofType type.typeArgs).resolver

/-- A value goes where the type is expected, by its own type, or as null where that may be. -/
def Suits (nullAt : ClosedType → Prop) (v : Value) (target : ClosedType) : Prop :=
  (v = .null ∧ nullAt target) ∨ ∃ source, v.type? = some source ∧ host.Conforms source target

/-- The arguments are as many as the parameters and go where these are expected. -/
def Fits (nullAt : ClosedType → Prop) (type : ClosedType) (args : List Value)
    (m : MemberDescriptor) : Prop :=
  m.arity = args.length ∧ ∀ q ∈ m.parameters.zip args, ∃ t,
    parameterType type q.1 = .ok t ∧ host.Suits nullAt q.2 t

/-- The instance constructors among some members. -/
def instanceConstructors (members : List SymbolId) : List MemberDescriptor :=
  (members.filterMap fun s => (host.member s).toOption).filter (·.constructsInstances)

open Classical in
/-- The instance constructors among some members that the arguments fit. -/
noncomputable def candidates (nullAt : ClosedType → Prop) (type : ClosedType) (args : List Value)
    (members : List SymbolId) : List MemberDescriptor :=
  (host.instanceConstructors members).filter (host.Fits nullAt type args ·)

/-- The form of the type lets it take null. -/
def NullByForm (t : ClosedType) : Prop := t.acceptsNull = true

/-- The type is declared as a struct. -/
def IsStruct (t : ClosedType) : Prop :=
  ∃ d args descriptor, t = .named d args ∧ host.typeDescriptor d = .ok descriptor ∧
    descriptor.kind = .structType

/-- The type can refer to nothing: its form lets it take null, and it is no struct. -/
def ReferenceCapable (t : ClosedType) : Prop := NullByForm t ∧ ¬host.IsStruct t

/-- Every member can be looked up, the parameters of the constructors that come into question
have closed types, and whether an argument is accepted there can be told. -/
structure Resolvable (type : ClosedType) (args : List Value) (members : List SymbolId) : Prop where
  known : ∀ s ∈ members, ∃ m, host.member s = .ok m
  told : ∀ m ∈ host.instanceConstructors members, m.arity = args.length →
    ∀ q ∈ m.parameters.zip args, ∃ t, parameterType type q.1 = .ok t ∧
      ∃ n b, host.accepts n q.2 t = .ok b

variable {host} {type : ClosedType} {args : List Value}

theorem mem_candidates {nullAt : ClosedType → Prop} {members : List SymbolId} {m : MemberDescriptor} :
    m ∈ host.candidates nullAt type args members ↔
      m ∈ host.instanceConstructors members ∧ host.Fits nullAt type args m := by
  simp only [candidates, List.mem_filter, decide_eq_true_eq]

/-! ## One constructor -/

theorem accepts_more {n l : Nat} (hle : n ≤ l) {v : Value} {t : ClosedType} {b : Bool}
    (h : host.accepts n v t = .ok b) : host.accepts l v t = .ok b := by
  cases ht : v.type? with
  | none =>
    simp only [accepts, ht] at h ⊢
    exact h
  | some s =>
    rw [accepts_of_type? ht] at h ⊢
    exact isAssignable_more hle h

theorem suits_iff {n : Nat} {v : Value} {t : ClosedType} {b : Bool} (h : host.accepts n v t = .ok b) :
    b = true ↔ host.Suits NullByForm v t := by
  cases ht : v.type? with
  | none =>
    simp only [accepts, ht, Except.ok.injEq] at h
    subst h
    rw [Bool.and_eq_true]
    constructor
    · rintro ⟨null, form⟩
      exact .inl ⟨Value.eq_null_of_isNull null, form⟩
    · rintro (⟨rfl, form⟩ | ⟨s, hs, -⟩)
      · exact ⟨rfl, form⟩
      · cases ht.symm.trans hs
  | some s =>
    rw [accepts_of_type? ht] at h
    rw [conforms_iff h]
    constructor
    · exact fun conforms => .inr ⟨s, ht, conforms⟩
    · rintro (⟨rfl, -⟩ | ⟨s', hs', conforms⟩)
      · cases ht
      · cases ht.symm.trans hs'
        exact conforms

theorem acceptsArguments_told {n : Nat} {m : MemberDescriptor}
    (told : ∀ q ∈ m.parameters.zip args, ∃ t, parameterType type q.1 = .ok t ∧
      ∃ b, host.accepts n q.2 t = .ok b) :
    ∃ b, host.acceptsArguments n type m.parameters args = .ok b ∧
      (b = true ↔ host.Fits NullByForm type args m) := by
  obtain ⟨b, hb⟩ : ∃ b, host.acceptsArguments n type m.parameters args = .ok b := by
    refine exists_allPairs fun q hq => ?_
    obtain ⟨t, ht, b, hb⟩ := told q hq
    exact ⟨b, Stop.bind_eq_ok.2 ⟨t, Stop.ofExcept_eq_ok.2 ht, hb⟩⟩
  refine ⟨b, hb, ?_⟩
  have accepted : b = true ↔ host.acceptsArguments n type m.parameters args = .ok true := by
    rw [hb, Except.ok.injEq]
  rw [accepted, acceptsArguments_iff]
  refine and_congr_right fun _ => forall₂_congr fun q hq => exists_congr fun t =>
    and_congr_right fun ht => ?_
  obtain ⟨t', ht', b', hb'⟩ := told q hq
  cases ht.symm.trans ht'
  rw [← suits_iff hb', hb', Except.ok.injEq]

/-! ## All members -/

theorem Resolvable.steps {members : List SymbolId} (h : host.Resolvable type args members) :
    ∃ k, ∀ m ∈ host.instanceConstructors members, m.arity = args.length →
      ∀ q ∈ m.parameters.zip args, ∃ t, parameterType type q.1 = .ok t ∧
        ∀ n, k ≤ n → ∃ b, host.accepts n q.2 t = .ok b := by
  let Told (k : Nat) (q : Parameter × Value) : Prop :=
    ∃ t, parameterType type q.1 = .ok t ∧ ∀ n, k ≤ n → ∃ b, host.accepts n q.2 t = .ok b
  have more {k l : Nat} {q : Parameter × Value} (hle : k ≤ l) : Told k q → Told l q :=
    fun ⟨t, ht, hk⟩ => ⟨t, ht, fun n hn => hk n (hle.trans hn)⟩
  refine exists_steps (fun k (m : MemberDescriptor) => m.arity = args.length →
    ∀ q ∈ m.parameters.zip args, Told k q) (fun hle told arity q hq => more hle (told arity q hq))
    fun m hm => ?_
  by_cases arity : m.arity = args.length
  · obtain ⟨k, hk⟩ := exists_steps Told more fun q hq => by
      obtain ⟨t, ht, n, b, hb⟩ := h.told m hm arity q hq
      exact ⟨n, t, ht, fun l hle => ⟨b, accepts_more hle hb⟩⟩
    exact ⟨k, fun _ => hk⟩
  · exact ⟨0, fun same => absurd same arity⟩

theorem candidate_told {n : Nat} {m : MemberDescriptor}
    (told : m.arity = args.length → ∀ q ∈ m.parameters.zip args, ∃ t,
      parameterType type q.1 = .ok t ∧ ∃ b, host.accepts n q.2 t = .ok b) :
    ∃ b, (if m.arity = args.length then host.acceptsArguments n type m.parameters args
        else .ok false) = .ok b ∧ (b = true ↔ host.Fits NullByForm type args m) := by
  by_cases arity : m.arity = args.length
  · rw [if_pos arity]
    exact acceptsArguments_told (told arity)
  · rw [if_neg arity]
    exact ⟨false, rfl, nofun, fun fits => absurd fits.1 arity⟩

theorem instanceConstructors_cons {s : SymbolId} {m : MemberDescriptor} (hm : host.member s = .ok m)
    (members : List SymbolId) : host.instanceConstructors (s :: members) =
      if m.constructsInstances then m :: host.instanceConstructors members
      else host.instanceConstructors members := by
  simp only [instanceConstructors, List.filterMap_cons, hm, Except.toOption, List.filter_cons]

theorem constructorsFor_cons {n : Nat} {s : SymbolId} {m : MemberDescriptor}
    (hm : host.member s = .ok m) (members : List SymbolId) :
    host.constructorsFor n type args (s :: members) =
      if m.constructsInstances then
        (if m.arity = args.length then host.acceptsArguments n type m.parameters args
          else .ok false) >>= fun fits =>
        host.constructorsFor n type args members >>= fun found =>
        .ok (found.1 + 1, if fits then m :: found.2 else found.2)
      else host.constructorsFor n type args members := by
  have found : (Stop.ofExcept (host.member s) : Except Stop MemberDescriptor) = pure m := by
    rw [hm]
    rfl
  simp only [constructorsFor, found, pure_bind]
  by_cases arity : m.arity = args.length
  · simp only [if_pos arity]
    rfl
  · simp only [if_neg arity]
    rfl

theorem Acyclic.resolvable {types : ClosedType → Prop} (h : host.Acyclic types)
    {members : List SymbolId} (known : ∀ s ∈ members, ∃ m, host.member s = .ok m)
    (closes : ∀ m ∈ host.instanceConstructors members, ∀ p ∈ m.parameters,
      ∃ t, parameterType type p = .ok t)
    (values : ∀ v ∈ args, ∀ t, v.type? = some t → types t) : host.Resolvable type args members where
  known := known
  told m hm _ q hq := by
    obtain ⟨hp, hv⟩ := List.of_mem_zip hq
    obtain ⟨t, ht⟩ := closes m hm q.1 hp
    refine ⟨t, ht, ?_⟩
    cases hs : q.2.type? with
    | none => exact ⟨0, _, by rw [accepts, hs]⟩
    | some s =>
      obtain ⟨n, r, hr⟩ := h.ends t s (values q.2 hv s hs)
      exact ⟨n, r, (accepts_of_type? hs).trans hr⟩

/-- The instance constructors are counted, and the candidates among them collected. -/
theorem constructorsFor_eq {n : Nat} : ∀ {members : List SymbolId},
    (∀ s ∈ members, ∃ m, host.member s = .ok m) →
    (∀ m ∈ host.instanceConstructors members, m.arity = args.length →
      ∀ q ∈ m.parameters.zip args, ∃ t, parameterType type q.1 = .ok t ∧
        ∃ b, host.accepts n q.2 t = .ok b) →
    host.constructorsFor n type args members = .ok ((host.instanceConstructors members).length,
      host.candidates NullByForm type args members)
  | [], _, _ => rfl
  | s :: members, known, told => by
    obtain ⟨m, hm⟩ := known s List.mem_cons_self
    have listed := instanceConstructors_cons hm members
    have rest : host.constructorsFor n type args members = _ :=
      constructorsFor_eq (fun s' hs' => known s' (List.mem_cons_of_mem s hs')) fun m' hm' =>
        told m' (by
          rw [listed]
          split
          · exact List.mem_cons_of_mem m hm'
          · exact hm')
    rw [constructorsFor_cons hm, candidates, listed]
    by_cases constructs : m.constructsInstances = true
    · rw [if_pos constructs] at listed
      have among : m ∈ host.instanceConstructors (s :: members) := listed ▸ List.mem_cons_self
      obtain ⟨b, hb, fits⟩ := candidate_told (told m among)
      rw [if_pos constructs, if_pos constructs, hb, rest]
      by_cases holds : host.Fits NullByForm type args m
      · rw [List.filter_cons_of_pos (by simpa using holds), fits.2 holds]
        rfl
      · have refused : b = false := by simpa using mt fits.1 holds
        rw [List.filter_cons_of_neg (by simpa using holds), refused]
        rfl
    · rw [if_neg constructs, if_neg constructs, rest]
      rfl

/-! ## The outcome -/

theorem instanceConstructors_perm {members members' : List SymbolId} (h : members.Perm members') :
    (host.instanceConstructors members).Perm (host.instanceConstructors members') :=
  (h.filterMap fun s => (host.member s).toOption).filter _

theorem candidates_perm (nullAt : ClosedType → Prop) {members members' : List SymbolId}
    (h : members.Perm members') :
    (host.candidates nullAt type args members).Perm (host.candidates nullAt type args members') :=
  (instanceConstructors_perm h).filter _

/-- What comes out of the instance constructors and the candidates among them. -/
def chosen (name : String) (args : List Value) (constructors candidates : List MemberDescriptor) :
    Except Stop (Option MemberDescriptor) :=
  match candidates with
  | [] => if constructors = [] ∧ args = [] then .ok none
    else .error (.failed (.of (.missingConstructor name args.length)))
  | [c] => .ok (some c)
  | several => .error (.failed (.of (.ambiguousConstructor name several.length)))

theorem resolveConstructor_eq {n : Nat} {descriptor : TypeDescriptor}
    {constructors candidates : List MemberDescriptor}
    (h : host.constructorsFor n type args descriptor.members = .ok (constructors.length, candidates)) :
    host.resolveConstructor n descriptor type args =
      chosen descriptor.name args constructors candidates := by
  simp only [resolveConstructor, h]
  rcases candidates with _ | ⟨c, _ | ⟨c', rest⟩⟩
  · simp only [chosen, ← List.length_eq_zero_iff (l := constructors)]
    rfl
  · rfl
  · rfl

theorem chosen_perm {name : String} {constructors constructors' candidates candidates' : List MemberDescriptor}
    (h : constructors.Perm constructors') (h' : candidates.Perm candidates') :
    chosen name args constructors candidates = chosen name args constructors' candidates' := by
  have empty : constructors = [] ↔ constructors' = [] := by
    rw [← List.length_eq_zero_iff, h.length_eq, List.length_eq_zero_iff]
  rcases candidates with _ | ⟨c, _ | ⟨c', rest⟩⟩
  · obtain rfl := h'.nil_eq
    simp only [chosen, empty]
  · obtain rfl := List.singleton_perm.1 h'
    rfl
  · obtain ⟨d, d', rest', rfl⟩ : ∃ d d' rest', candidates' = d :: d' :: rest' := by
      match candidates', h'.length_eq with
      | d :: d' :: rest', _ => exact ⟨d, d', rest', rfl⟩
    simp only [chosen, h'.length_eq]

/-- One candidate is selected, several are ambiguous, and without one it depends on whether
there is anything to call and anything to pass. -/
theorem chosen_iff (name : String) (args : List Value)
    {constructors candidates : List MemberDescriptor} (among : candidates ⊆ constructors) :
    (∀ c, chosen name args constructors candidates = .ok (some c) ↔ candidates = [c]) ∧
    (∀ j, chosen name args constructors candidates =
      .error (.failed (.of (.ambiguousConstructor name j))) ↔ 2 ≤ j ∧ candidates.length = j) ∧
    (chosen name args constructors candidates = .ok none ↔ constructors = [] ∧ args = []) ∧
    (chosen name args constructors candidates =
      .error (.failed (.of (.missingConstructor name args.length))) ↔
        candidates = [] ∧ ¬(constructors = [] ∧ args = [])) := by
  rcases candidates with _ | ⟨c, _ | ⟨c', rest⟩⟩
  · have few (j : Nat) : ¬(2 ≤ j ∧ 0 = j) := by omega
    by_cases implicit : constructors = [] ∧ args = [] <;>
      simp [chosen, implicit, few, EvalError.of]
  · have nonempty : constructors ≠ [] := List.ne_nil_of_mem (among List.mem_cons_self)
    have few (j : Nat) : ¬(2 ≤ j ∧ 1 = j) := by omega
    simp [chosen, nonempty, few]
  · have nonempty : constructors ≠ [] := List.ne_nil_of_mem (among List.mem_cons_self)
    have several (j : Nat) : 2 ≤ j ∧ rest.length + 1 + 1 = j ↔ rest.length + 1 + 1 = j := by omega
    simp [chosen, nonempty, EvalError.of, several]

/-- A null argument meets a struct at a constructor with as many parameters as arguments. -/
def NullMeetsStruct (host : Host σ) (type : ClosedType) (args : List Value)
    (members : List SymbolId) : Prop :=
  ∃ m ∈ host.instanceConstructors members, m.arity = args.length ∧
    ∃ q ∈ m.parameters.zip args, q.2 = .null ∧ ∃ t, parameterType type q.1 = .ok t ∧ host.IsStruct t

/-- Where null meets no struct, it does not matter that structs take null. -/
theorem candidates_referenceCapable {members : List SymbolId}
    (h : ¬host.NullMeetsStruct type args members) :
    host.candidates host.ReferenceCapable type args members =
      host.candidates NullByForm type args members := by
  classical
  refine List.filter_congr fun m hm => decide_eq_decide.2 ?_
  refine and_congr_right fun arity => forall₂_congr fun q hq => exists_congr fun t =>
    and_congr_right fun ht => or_congr_left (and_congr_right fun null => ?_)
  exact and_iff_left fun struct => h ⟨m, hm, arity, q, hq, null, t, ht, struct⟩

/-- **The one constructor that the arguments fit is selected.** If every member can be looked
up, the types of parameters close and the tests of arguments end, then with enough steps a
constructor is selected exactly when it is the one candidate among the members: an instance
constructor with as many parameters as there are arguments, each of which conforms to the
parameter's type or is null where the form of that type takes null. Several candidates are
reported with their number; an object is made without a constructor exactly when no instance
constructor is declared and there are no arguments; everything else is reported as a missing
constructor. The order of the members does not change the outcome. Where no null argument
meets a struct, the candidates are those of the rule that null goes to types only that can
refer to nothing. -/
theorem constructor_resolved (descriptor : TypeDescriptor)
    (h : host.Resolvable type args descriptor.members) :
    ∃ k, ∀ n, k ≤ n →
      let outcome := host.resolveConstructor n descriptor type args
      let constructors := host.instanceConstructors descriptor.members
      let fitting := host.candidates NullByForm type args descriptor.members
      (∀ c, outcome = .ok (some c) ↔ fitting = [c]) ∧
      (∀ j, outcome = .error (.failed (.of (.ambiguousConstructor descriptor.name j))) ↔
        2 ≤ j ∧ fitting.length = j) ∧
      (outcome = .ok none ↔ constructors = [] ∧ args = []) ∧
      (outcome = .error (.failed (.of (.missingConstructor descriptor.name args.length))) ↔
        fitting = [] ∧ ¬(constructors = [] ∧ args = [])) ∧
      (∀ members, members.Perm descriptor.members →
        host.resolveConstructor n { descriptor with members := members } type args = outcome) ∧
      (¬host.NullMeetsStruct type args descriptor.members →
        host.candidates host.ReferenceCapable type args descriptor.members = fitting) := by
  obtain ⟨k, hk⟩ := h.steps
  refine ⟨k, fun n hn => ?_⟩
  -- the outcome, whatever the order of the members
  have outcome (members : List SymbolId) (order : members.Perm descriptor.members) :
      host.resolveConstructor n { descriptor with members := members } type args =
        chosen descriptor.name args (host.instanceConstructors members)
          (host.candidates NullByForm type args members) := by
    refine resolveConstructor_eq (constructorsFor_eq (fun s hs => h.known s (order.subset hs))
      fun m hm arity q hq => ?_)
    have listed : (host.instanceConstructors members).Perm _ := instanceConstructors_perm order
    obtain ⟨t, ht, told⟩ := hk m (listed.subset hm) arity q hq
    exact ⟨t, ht, told n hn⟩
  have same : host.resolveConstructor n descriptor type args = _ := outcome descriptor.members (.refl _)
  have among : host.candidates NullByForm type args descriptor.members ⊆
      host.instanceConstructors descriptor.members := List.filter_subset_self _
  intro result constructors fitting
  obtain ⟨selected, ambiguous, implicit, missing⟩ := chosen_iff descriptor.name args among
  rw [← same] at implicit missing
  simp only [← same] at selected ambiguous
  refine ⟨selected, ambiguous, implicit, missing, fun members order => ?_,
    candidates_referenceCapable⟩
  exact (outcome members order).trans ((chosen_perm (instanceConstructors_perm order)
    (candidates_perm NullByForm order)).trans same.symm)

end Host

/-- A struct, a class with a constructor that takes one, and a class with constructors that take
a width, anything and a name, besides a static one and a field. -/
def figures : Scripted.Program where
  types :=
    [⟨⟨⟨1⟩, "Point", .structType, true, 0, none, [], []⟩, .fresh⟩,
      ⟨⟨⟨2⟩, "Line", .classType, true, 0, none, [], [⟨20⟩]⟩, .fresh⟩,
      ⟨⟨⟨3⟩, "Label", .classType, true, 0, none, [], [⟨30⟩, ⟨31⟩, ⟨32⟩, ⟨33⟩, ⟨34⟩]⟩, .fresh⟩]
  members :=
    [⟨⟨⟨20⟩, ".ctor", ⟨2⟩, false, .source, .constructor [⟨"start", .named ⟨1⟩ []⟩]⟩, none, none⟩,
      ⟨⟨⟨30⟩, ".ctor", ⟨3⟩, false, .source, .constructor [⟨"width", .primitive .i32⟩]⟩, none, none⟩,
      ⟨⟨⟨31⟩, ".ctor", ⟨3⟩, false, .source, .constructor [⟨"content", .primitive .object⟩]⟩, none, none⟩,
      ⟨⟨⟨32⟩, ".cctor", ⟨3⟩, true, .source, .constructor []⟩, none, none⟩,
      ⟨⟨⟨33⟩, "text", ⟨3⟩, false, .source, .field (.primitive .text)⟩, none, none⟩,
      ⟨⟨⟨34⟩, ".ctor", ⟨3⟩, false, .source, .constructor [⟨"name", .primitive .text⟩]⟩, none, none⟩]

namespace figures

def point : ClosedType := .named ⟨1⟩ []
def line : ClosedType := .named ⟨2⟩ []
def label : ClosedType := .named ⟨3⟩ []

def lineDescriptor : TypeDescriptor :=
  ⟨⟨2⟩, "Line", .classType, true, 0, none, [], [⟨20⟩]⟩

def labelDescriptor : TypeDescriptor :=
  ⟨⟨3⟩, "Label", .classType, true, 0, none, [], [⟨30⟩, ⟨31⟩, ⟨32⟩, ⟨33⟩, ⟨34⟩]⟩

theorem primitives_acyclic : figures.host.Acyclic (∃ p, · = .primitive p) where
  wellFounded := Host.wellFounded_above (Scripted.Program.wellFounded_of_isLayered rfl)
    (Scripted.Program.namedSupertypes_of_isLayered rfl)
  lookup known := by
    obtain ⟨p, ⟨⟩⟩ := known
  supertype known above := by
    obtain ⟨p, rfl⟩ := known
    cases above
  inner known := by
    obtain ⟨p, ⟨⟩⟩ := known
  element known := by
    obtain ⟨p, ⟨⟩⟩ := known
  component known := by
    obtain ⟨p, ⟨⟩⟩ := known

theorem label_resolvable {args : List Value}
    (values : ∀ v ∈ args, ∀ t, v.type? = some t → ∃ p, t = .primitive p) :
    figures.host.Resolvable label args labelDescriptor.members := by
  refine primitives_acyclic.resolvable ?_ ?_ values
  · simp only [labelDescriptor, List.forall_mem_cons]
    exact ⟨⟨_, rfl⟩, ⟨_, rfl⟩, ⟨_, rfl⟩, ⟨_, rfl⟩, ⟨_, rfl⟩, nofun⟩
  · have listed : figures.host.instanceConstructors labelDescriptor.members =
        [⟨⟨30⟩, ".ctor", ⟨3⟩, false, .source, .constructor [⟨"width", .primitive .i32⟩]⟩,
          ⟨⟨31⟩, ".ctor", ⟨3⟩, false, .source, .constructor [⟨"content", .primitive .object⟩]⟩,
          ⟨⟨34⟩, ".ctor", ⟨3⟩, false, .source, .constructor [⟨"name", .primitive .text⟩]⟩] := rfl
    rw [listed]
    simp only [List.forall_mem_cons, MemberDescriptor.parameters, MemberKind.parameters]
    exact ⟨⟨⟨_, rfl⟩, nofun⟩, ⟨⟨_, rfl⟩, nofun⟩, ⟨⟨_, rfl⟩, nofun⟩, nofun⟩

/-- A text goes as the name and as anything, in whatever order the constructors are declared. -/
theorem textLabel_ambiguous :
    let host := figures.host
    host.Resolvable label [.text "a"] labelDescriptor.members ∧
      ∃ k, ∀ n, k ≤ n →
        host.resolveConstructor n labelDescriptor label [.text "a"] =
          .error (.failed (.of (.ambiguousConstructor "Label" 2))) ∧
        (host.candidates Host.NullByForm label [.text "a"] labelDescriptor.members).length = 2 ∧
        host.resolveConstructor n { labelDescriptor with members := labelDescriptor.members.reverse }
          label [.text "a"] = .error (.failed (.of (.ambiguousConstructor "Label" 2))) := by
  intro host
  have resolvable : host.Resolvable label [.text "a"] labelDescriptor.members :=
    label_resolvable (by
      rintro v hv t ht
      obtain rfl := List.mem_singleton.1 hv
      cases ht
      exact ⟨_, rfl⟩)
  obtain ⟨k, hk⟩ := Host.constructor_resolved labelDescriptor resolvable
  refine ⟨resolvable, k + 1, fun n hn => ?_⟩
  obtain ⟨m, rfl⟩ : ∃ m, n = m + 1 := ⟨n - 1, by omega⟩
  obtain ⟨-, ambiguous, -, -, order, -⟩ := hk (m + 1) (by omega)
  have two : host.resolveConstructor (m + 1) labelDescriptor label [.text "a"] =
      .error (.failed (.of (.ambiguousConstructor "Label" 2))) := rfl
  exact ⟨two, ((ambiguous 2).1 two).2, (order _ (List.reverse_perm _)).trans two⟩

/-- Null is no reference to a point, which is a struct, and yet it selects the constructor that
takes one. -/
theorem structTaker_selected :
    let host := figures.host
    host.Resolvable line [.null] lineDescriptor.members ∧
      host.candidates host.ReferenceCapable line [.null] lineDescriptor.members = [] ∧
      ∀ n, ∃ c, host.resolveConstructor n lineDescriptor line [.null] = .ok (some c) := by
  intro host
  have listed : host.instanceConstructors lineDescriptor.members =
      [⟨⟨20⟩, ".ctor", ⟨2⟩, false, .source, .constructor [⟨"start", .named ⟨1⟩ []⟩]⟩] := rfl
  have struct : host.IsStruct point := ⟨_, _, _, rfl, rfl, rfl⟩
  refine ⟨⟨List.forall_mem_singleton.2 ⟨_, rfl⟩, ?_⟩, ?_, fun n => ⟨_, rfl⟩⟩
  · rw [listed]
    exact List.forall_mem_singleton.2 fun _ =>
      List.forall_mem_singleton.2 ⟨point, rfl, 0, true, rfl⟩
  · refine List.eq_nil_iff_forall_not_mem.2 fun m hm => ?_
    rw [Host.mem_candidates, listed, List.mem_singleton] at hm
    obtain ⟨rfl, -, fits⟩ := hm
    obtain ⟨t, ⟨⟩, ⟨-, -, unstructured⟩ | ⟨s, ⟨⟩, -⟩⟩ := fits _ List.mem_cons_self
    exact unstructured struct

end figures

end OpTree
