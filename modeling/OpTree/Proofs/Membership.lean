/-
Which values belong to a type, told from the parts of both. Null belongs to a type by the
form of the type alone: the description of a named type is never asked for, so to a struct
null belongs as to a class, wherever the question comes up (`Host.null_taken`). A
constructor is chosen only where every argument belongs to the type of its parameter, closed
by the arguments of the constructed type (`Host.acceptsArguments_iff`).

A tuple goes by the types of its components, and a null component has none: it counts as an
object. So a tuple belongs to a tuple type when its components belong to the component types
and the null ones, besides, to a type that is the one of all objects but for nullability
(`Host.tuples_taken`); null by itself belongs to more types. What storage holds at first
meets this at once: of a tuple type with components that take null it is a tuple of nulls,
and that belongs to the type only where those components are objects
(`ClosedType.takesDefault`).
-/
import OpTree.Eval.Activate
import OpTree.Proofs.Conversions

namespace OpTree

namespace Stop

variable {α β : Type}

theorem bind_eq_ok {x : Except Stop α} {f : α → Except Stop β} {b : β} :
    (x >>= f) = .ok b ↔ ∃ a, x = .ok a ∧ f a = .ok b := by
  constructor
  · intro h
    cases x with
    | error e => cases h
    | ok a => exact ⟨a, rfl, h⟩
  · rintro ⟨a, rfl, h⟩
    exact h

theorem ofExcept_eq_ok {r : Except EvalError α} {a : α} : ofExcept r = .ok a ↔ r = .ok a := by
  cases r <;> simp [ofExcept]

end Stop

namespace ClosedType

theorem acceptsNull_iff (t : ClosedType) : t.acceptsNull = true ↔
    (∃ d args, t = .named d args) ∨ (∃ element rank, t = .array element rank) ∨
      (∃ inner, t = .nullable inner) ∨ t ∈ [.primitive .text, .object, .primitive .typeHandle] := by
  cases t with
  | primitive p => cases p <;> simp [acceptsNull, PrimitiveType.acceptsNull, object]
  | named | array | nullable | tuple => simp [acceptsNull, object]

end ClosedType

namespace Host

variable {σ : Type} {host : Host σ}

/-- The type takes the value, given enough steps to tell. -/
def Takes (host : Host σ) (v : Value) (target : ClosedType) : Prop :=
  ∃ k, ∀ l, k ≤ l → host.accepts l v target = .ok true

theorem takes_of_type? {v : Value} {t target : ClosedType} (ht : v.type? = some t) :
    host.Takes v target ↔ host.Finds t target := by
  constructor
  · rintro ⟨k, hk⟩
    exact ⟨k, (accepts_of_type? ht).symm.trans (hk k (Nat.le_refl k))⟩
  · intro found
    obtain ⟨k, hk⟩ := found.steps
    exact ⟨k, fun l hle => (accepts_of_type? ht).trans (hk l hle)⟩

theorem takes_null {target : ClosedType} : host.Takes .null target ↔ target.acceptsNull = true := by
  simp only [Takes, accepts_null, Except.ok.injEq]
  constructor
  · rintro ⟨k, hk⟩
    exact hk k (Nat.le_refl k)
  · exact fun h => ⟨0, fun _ _ => h⟩

theorem Acyclic.refuses {types : ClosedType → Prop} (h : host.Acyclic types) {v : Value}
    {target : ClosedType} (known : ∀ t, v.type? = some t → types t)
    (untaken : ¬host.Takes v target) : ∃ k, ∀ l, k ≤ l → host.accepts l v target = .ok false := by
  have answered : ∃ k r, ∀ l, k ≤ l → host.accepts l v target = .ok r := by
    cases ht : v.type? with
    | none => exact ⟨0, _, fun l _ => by rw [accepts, ht]⟩
    | some t =>
      obtain ⟨k, r, hr⟩ := h.ends target t (known t ht)
      exact ⟨k, r, fun l hle => (accepts_of_type? ht).trans (isAssignable_more hle hr)⟩
  obtain ⟨k, r, hr⟩ := answered
  cases r with
  | false => exact ⟨k, hr⟩
  | true => exact absurd ⟨k, hr⟩ untaken

/-! ## Constructors -/

theorem acceptsArguments_iff {n : Nat} {type : ClosedType} {parameters : List Parameter}
    {args : List Value} : host.acceptsArguments n type parameters args = .ok true ↔
      parameters.length = args.length ∧ ∀ q ∈ parameters.zip args, ∃ t,
        q.1.type.close (Substitution.ofType type.typeArgs).resolver = .ok t ∧
          host.accepts n q.2 t = .ok true := by
  simp only [acceptsArguments, allPairs_true_iff, Stop.bind_eq_ok, Stop.ofExcept_eq_ok]

theorem fits_of_mem_constructorsFor {n : Nat} {type : ClosedType} {args : List Value}
    {symbols : List SymbolId} {declared : Nat} {candidates : List MemberDescriptor}
    (h : host.constructorsFor n type args symbols = .ok (declared, candidates))
    {c : MemberDescriptor} (hc : c ∈ candidates) :
    c.kind.isConstructor = true ∧ c.isStatic = false ∧
      host.acceptsArguments n type c.parameters args = .ok true := by
  induction symbols generalizing declared candidates with
  | nil =>
    cases h
    cases hc
  | cons symbol rest ih =>
    simp only [constructorsFor, Stop.bind_eq_ok] at h
    obtain ⟨member, -, h⟩ := h
    split at h
    · rename_i eligible
      simp only [Bool.and_eq_true, Bool.not_eq_true'] at eligible
      -- both ways of telling whether the arguments fit go on to the other members
      have told : ∃ fits found,
          (fits = true → host.acceptsArguments n type member.parameters args = .ok true) ∧
          host.constructorsFor n type args rest = .ok found ∧
          (found.1 + 1, if fits then member :: found.2 else found.2) = (declared, candidates) := by
        split at h
        · simp only [Stop.bind_eq_ok] at h
          obtain ⟨fits, hf, found, hr, he⟩ := h
          exact ⟨fits, found, fun holds => holds ▸ hf, hr, Except.ok.inj he⟩
        · simp only [Stop.bind_eq_ok] at h
          obtain ⟨_, ⟨⟩, found, hr, he⟩ := h
          exact ⟨false, found, fun holds => absurd holds Bool.false_ne_true, hr, Except.ok.inj he⟩
      obtain ⟨fits, found, hf, hr, ⟨⟩⟩ := told
      split at hc
      · rename_i holds
        rcases List.mem_cons.1 hc with rfl | hc
        · exact ⟨eligible.1, eligible.2, hf holds⟩
        · exact ih hr hc
      · exact ih hr hc
    · exact ih h hc

theorem constructorsFor_of_resolveConstructor {n : Nat} {descriptor : TypeDescriptor}
    {type : ClosedType} {args : List Value} {c : MemberDescriptor}
    (h : host.resolveConstructor n descriptor type args = .ok (some c)) :
    ∃ declared, host.constructorsFor n type args descriptor.members = .ok (declared, [c]) := by
  simp only [resolveConstructor, Stop.bind_eq_ok] at h
  obtain ⟨⟨declared, candidates⟩, found, h⟩ := h
  rcases candidates with _ | ⟨candidate, _ | ⟨_, _⟩⟩
  · dsimp only at h
    split at h <;> cases h
  · cases h
    exact ⟨declared, found⟩
  · cases h

/-! ## Null -/

/-- **Null belongs to a type by the form of the type.** It belongs to named types, arrays,
nullable types, texts, objects and types as values, whatever the host says about a named
type. Tests go by this, and so do conversions: a cast of null to another type fails and the
other kind gives null. Constructors go by it too: arguments fit parameters when each null
stands at such a type and every other argument is accepted, and a chosen constructor is one
whose parameters the arguments fit. -/
theorem null_taken (host : Host σ) :
    (∀ target n, host.accepts n .null target = .ok target.acceptsNull ∧
      host.convert n .null target .cast = (if target.acceptsNull then .ok .null
        else .error (.failed (.of (.invalidCast "null" target.text)))) ∧
      host.convert n .null target .tryCast = .ok .null) ∧
    (∀ n type parameters args, host.acceptsArguments n type parameters args = .ok true ↔
      parameters.length = args.length ∧ ∀ q ∈ parameters.zip args, ∃ t,
        q.1.type.close (Substitution.ofType type.typeArgs).resolver = .ok t ∧
          (q.2 = .null → t.acceptsNull = true) ∧
          (q.2 ≠ .null → host.accepts n q.2 t = .ok true)) ∧
    (∀ n descriptor type args c,
      host.resolveConstructor n descriptor type args = .ok (some c) →
        host.acceptsArguments n type c.parameters args = .ok true) ∧
    ∀ target : ClosedType, target.acceptsNull = true ↔
      (∃ d args, target = .named d args) ∨ (∃ element rank, target = .array element rank) ∨
        (∃ inner, target = .nullable inner) ∨
        target ∈ [.primitive .text, .object, .primitive .typeHandle] := by
  refine ⟨fun target n => ⟨accepts_null, ?_, ?_⟩, fun n type parameters args => ?_,
    fun n descriptor type args c h => ?_, fun target => ?_⟩
  · rw [convert_of_isNull rfl]
    rfl
  · rw [convert_of_isNull rfl]
    exact ite_self _
  · rw [acceptsArguments_iff]
    refine and_congr_right fun _ => forall₂_congr fun q _ => exists_congr fun t =>
      and_congr_right fun _ => ⟨fun accepted => ⟨fun null => ?_, fun _ => accepted⟩, fun h => ?_⟩
    · rw [null, accepts_null, Except.ok.injEq] at accepted
      exact accepted
    · by_cases null : q.2 = .null
      · rw [null, accepts_null, h.1 null]
      · exact h.2 null
  · obtain ⟨declared, found⟩ := constructorsFor_of_resolveConstructor h
    exact (fits_of_mem_constructorsFor found (List.mem_singleton_self c)).2.2
  · exact target.acceptsNull_iff

end Host

/-- A generic struct, and a class with a constructor that takes one and a constructor that
takes a name and a width. -/
def drawing : Scripted.Program where
  types :=
    [⟨⟨⟨1⟩, "Point", .structType, true, 1, none, [], []⟩, .fresh⟩,
      ⟨⟨⟨2⟩, "Line", .classType, true, 0, none, [], [⟨20⟩, ⟨21⟩]⟩, .fresh⟩]
  members :=
    [⟨⟨⟨20⟩, ".ctor", ⟨2⟩, false, .source,
        .constructor [⟨"start", .named ⟨1⟩ [.primitive .i32]⟩]⟩, none, none⟩,
      ⟨⟨⟨21⟩, ".ctor", ⟨2⟩, false, .source,
        .constructor [⟨"name", .primitive .text⟩, ⟨"width", .primitive .i32⟩]⟩, none, none⟩]

namespace drawing

def point : ClosedType := .named ⟨1⟩ [.primitive .i32]
def line : ClosedType := .named ⟨2⟩ []

/-- The description of the class. -/
def lineDescriptor : TypeDescriptor :=
  ⟨⟨2⟩, "Line", .classType, true, 0, none, [], [⟨20⟩, ⟨21⟩]⟩

/-- Null is cast to a line and to no integer, and stands for the name when a line is made of a
name and a width. -/
theorem nullName_chosen :
    let args := [Value.null, .i32 3]
    let host := drawing.host
    host.convert 1 .null line .cast = .ok .null ∧
      host.convert 1 .null (.primitive .i32) .cast =
        .error (.failed (.of (.invalidCast "null" "int"))) ∧
      ∃ c, host.resolveConstructor 1 lineDescriptor line args = .ok (some c) ∧
        c.parameters.length = args.length ∧ ∀ q ∈ c.parameters.zip args, ∃ t,
          q.1.type.close (Substitution.ofType line.typeArgs).resolver = .ok t ∧
            (q.2 = .null → t.acceptsNull = true) := by
  intro args host
  obtain ⟨uses, fit, chosen, -⟩ := Host.null_taken host
  refine ⟨(uses line 1).2.1, (uses (.primitive .i32) 1).2.1, _, rfl, ?_⟩
  obtain ⟨length, pairs⟩ := (fit 1 line _ args).1 (chosen 1 lineDescriptor line args _ rfl)
  refine ⟨length, fun q hq => ?_⟩
  obtain ⟨t, ht, null, -⟩ := pairs q hq
  exact ⟨t, ht, null⟩

/-- Null is accepted as a struct and cast to one, whatever the arguments of the struct are, and
it chooses the constructor that takes the struct. -/
theorem struct_takes_null :
    let host := drawing.host
    (∃ d, host.typeDescriptor ⟨1⟩ = .ok d ∧ d.kind = .structType) ∧
      (∀ args n, host.accepts n .null (.named ⟨1⟩ args) = .ok true ∧
        host.convert n .null (.named ⟨1⟩ args) .cast = .ok .null) ∧
      host.typeDescriptor ⟨2⟩ = .ok lineDescriptor ∧
      ∀ n, ∃ c p, c.parameters = [p] ∧
        p.type.close (Substitution.ofType line.typeArgs).resolver = .ok point ∧
        host.resolveConstructor n lineDescriptor line [.null] = .ok (some c) := by
  intro host
  exact ⟨⟨_, rfl, rfl⟩, fun args n => ⟨rfl, rfl⟩, rfl, fun n => ⟨_, _, rfl, rfl, rfl⟩⟩

end drawing

namespace Host

variable {σ : Type} {host : Host σ}

/-! ## Tuples -/

theorem Conforms.bare_of_object {a b : ClosedType} (h : host.Conforms a b) :
    a = .object → b.bare = .object := by
  induction h with
  | same => rintro rfl; rfl
  | object => exact fun _ => rfl
  | toNullable _ ih => exact ih
  | fromNullable | array | tuple => rintro ⟨⟩
  | inherited hd => rintro rfl; cases hd

/-- What is known to be an object only goes as an object. -/
theorem Finds.object_iff {b : ClosedType} : host.Finds .object b ↔ b.bare = .object := by
  constructor
  · rintro ⟨n, h⟩
    exact (conforms_of_isAssignable h).bare_of_object rfl
  · intro h
    exact (Finds.bare_iff b).1 (.alike (.inl h.symm))

theorem Finds.tuple_iff {as bs : List ClosedType} : host.Finds (.tuple as) (.tuple bs) ↔
    as.length = bs.length ∧ ∀ p ∈ as.zip bs, host.Finds p.1 p.2 := by
  constructor
  · rintro ⟨_ | n, h⟩
    · cases h
    simp only [isAssignable, ClosedType.isObject, Bool.false_eq_true, or_false] at h
    split at h
    -- a tuple type is assigned to itself without a look at its components
    · rename_i alike
      cases alike
      refine ⟨rfl, fun p hp => ?_⟩
      obtain ⟨i, hi, rfl⟩ := List.getElem_of_mem hp
      rw [List.getElem_zip]
      exact .same _
    · split at h
      · obtain ⟨length, pairs⟩ := allPairs_true h
        exact ⟨length, fun p hp => ⟨n, pairs p hp⟩⟩
      · cases h
  · rintro ⟨length, pairs⟩
    obtain ⟨n, hn⟩ := exists_steps
      (fun n (p : ClosedType × ClosedType) => host.isAssignable n p.1 p.2 = .ok true)
      isAssignable_more pairs
    by_cases alike : ClosedType.tuple as = .tuple bs ∨ (ClosedType.tuple bs).isObject = true
    · exact .alike alike
    · exact ⟨n + 1, by
        simp only [isAssignable, if_neg alike, if_pos length, allPairs_true_iff.2 ⟨length, hn⟩]⟩

end Host

/-- The type that a value counts as within a tuple. -/
def Value.componentType (v : Value) : ClosedType := v.type?.getD .object

theorem Value.elementTypes_eq_map : ∀ vs : List Value, elementTypes vs = vs.map componentType
  | [] => rfl
  | v :: vs => congrArg (v.componentType :: ·) (elementTypes_eq_map vs)

namespace Host

variable {σ : Type} {host : Host σ}

theorem takes_tuple_iff {vs : List Value} {ts : List ClosedType} :
    host.Takes (.tuple vs) (.tuple ts) ↔
      vs.length = ts.length ∧ ∀ p ∈ vs.zip ts, host.Finds p.1.componentType p.2 := by
  rw [takes_of_type? (t := .tuple (Value.elementTypes vs)) rfl, Finds.tuple_iff,
    Value.elementTypes_eq_map, List.length_map, List.zip_map_left, List.forall_mem_map]
  rfl

/-- A component is taken as it would be by itself, unless it is null. -/
theorem finds_componentType_iff {v : Value} (hv : v ≠ .void) {t : ClosedType} :
    host.Finds v.componentType t ↔ host.Takes v t ∧ (v = .null → t.bare = .object) := by
  by_cases null : v = .null
  · subst null
    have object : host.Finds Value.null.componentType t ↔ t.bare = .object := Finds.object_iff
    rw [object, takes_null]
    refine ⟨fun h => ⟨ClosedType.acceptsNull_of_bare ?_, fun _ => h⟩, fun h => h.2 rfl⟩
    rw [h]
    rfl
  · have hn : v.isNull = false := by cases v <;> first | rfl | exact absurd rfl null
    obtain ⟨s, hs⟩ := Value.exists_type? hv hn
    rw [takes_of_type? hs, Value.componentType, hs]
    exact ⟨fun h => ⟨h, fun h' => absurd h' null⟩, fun h => h.1⟩

end Host

/-! ## Defaults -/

namespace ClosedType

mutual

/-- The value that storage of the type holds at first belongs to the type: there is one, and
in a tuple the components that take null are objects. -/
def takesDefault : ClosedType → Bool
  | primitive p => p ≠ .void
  | tuple elements => allTakeDefault elements
  | named .. | array .. | nullable _ => true

def allTakeDefault : List ClosedType → Bool
  | [] => true
  | t :: ts => (t.takesDefault && (!t.acceptsNull || t.bare = .object)) && allTakeDefault ts

end

theorem defaultValue_eq_null_iff (t : ClosedType) : t.defaultValue = .null ↔ t.acceptsNull = true := by
  cases t with
  | primitive p =>
    cases p <;> simp [defaultValue, primitiveDefault, acceptsNull, PrimitiveType.acceptsNull]
  | named | array | nullable | tuple => simp [defaultValue, acceptsNull]

theorem eq_void_of_defaultValue {t : ClosedType} (h : t.defaultValue = .void) : t = .void := by
  cases t with
  | primitive p => cases p <;> first | rfl | cases h
  | named | array | nullable | tuple => simp [defaultValue] at h

theorem length_defaultValues : ∀ ts : List ClosedType, (defaultValues ts).length = ts.length
  | [] => rfl
  | _ :: ts => congrArg (· + 1) (length_defaultValues ts)

end ClosedType

namespace Host

variable {σ : Type} {host : Host σ}

mutual

theorem takes_defaultValue_iff : ∀ t : ClosedType,
    host.Takes t.defaultValue t ↔ t.takesDefault = true
  | .primitive p => by
    cases p with
    | void =>
      refine ⟨fun taken => ?_, fun holds => by cases holds⟩
      obtain ⟨k, hk⟩ := taken
      cases hk k (Nat.le_refl k)
    | text | object | typeHandle => exact ⟨fun _ => rfl, fun _ => takes_null.2 rfl⟩
    | bool | char | i8 | u8 | i16 | u16 | i32 | u32 | i64 | u64 | f32 | f64 =>
      exact ⟨fun _ => rfl, fun _ => (takes_of_type? rfl).2 (.same _)⟩
  | .named .. | .array .. | .nullable _ => ⟨fun _ => rfl, fun _ => takes_null.2 rfl⟩
  | .tuple ts => by
    rw [ClosedType.defaultValue, takes_tuple_iff, ClosedType.takesDefault]
    exact (and_iff_right (ClosedType.length_defaultValues ts)).trans (takes_defaultValues_iff ts)

theorem takes_defaultValues_iff : ∀ ts : List ClosedType,
    (∀ p ∈ (ClosedType.defaultValues ts).zip ts, host.Finds p.1.componentType p.2) ↔
      ClosedType.allTakeDefault ts = true
  | [] => by simp [ClosedType.defaultValues, ClosedType.allTakeDefault]
  | t :: ts => by
    rw [ClosedType.defaultValues, List.zip_cons_cons, List.forall_mem_cons,
      ClosedType.allTakeDefault, Bool.and_eq_true, Bool.and_eq_true, takes_defaultValues_iff ts]
    refine and_congr_left fun _ => ?_
    -- nothing counts as an object within a tuple, as null does, but no void takes it
    by_cases hv : t.defaultValue = .void
    · cases ClosedType.eq_void_of_defaultValue hv
      have unlike : ¬host.Finds .object .void := fun found => by
        cases Finds.object_iff.1 found
      exact ⟨fun found => absurd found unlike, fun holds => by cases holds.1⟩
    · rw [finds_componentType_iff hv, takes_defaultValue_iff t, t.defaultValue_eq_null_iff]
      simp [Classical.or_iff_not_imp_left]

end

/-- **Tuples are taken component by component, and null within them as an object.** A tuple
belongs to a tuple type when there are as many components as types, each component belongs
to its type, and the type of each null component is, but for nullability, that of all
objects. So the value that storage holds at first belongs to the type of the storage exactly
where the type is not void and in the tuples that it is made of the components that take
null are objects. Where the walk through a hierarchy ends, what is not taken is refused. -/
theorem tuples_taken (host : Host σ) :
    (∀ vs ts, (∀ v ∈ vs, v ≠ .void) → (host.Takes (.tuple vs) (.tuple ts) ↔
      vs.length = ts.length ∧ ∀ p ∈ vs.zip ts,
        host.Takes p.1 p.2 ∧ (p.1 = .null → p.2.bare = .object))) ∧
    (∀ t : ClosedType, host.Takes t.defaultValue t ↔ t.takesDefault = true) ∧
    ∀ types, host.Acyclic types → ∀ v target, (∀ t, v.type? = some t → types t) →
      ¬host.Takes v target → ∃ k, ∀ l, k ≤ l → host.accepts l v target = .ok false := by
  refine ⟨fun vs ts values => ?_, takes_defaultValue_iff, fun types acyclic v target => acyclic.refuses⟩
  rw [takes_tuple_iff]
  refine and_congr_right fun _ => forall₂_congr fun p hp => ?_
  exact finds_componentType_iff (values p.1 (List.of_mem_zip hp).1)

end Host

namespace drawing

/-- The types of lines and of primitives, and tuples of them. -/
inductive Known : ClosedType → Prop where
  | primitive (p) : Known (.primitive p)
  | line : Known line
  | tuple {as} : (∀ a ∈ as, Known a) → Known (.tuple as)

theorem lines_acyclic : drawing.host.Acyclic Known where
  wellFounded := Host.wellFounded_above (Scripted.Program.wellFounded_of_isLayered rfl)
    (Scripted.Program.namedSupertypes_of_isLayered rfl)
  lookup known := by
    cases known
    exact ⟨lineDescriptor, rfl, List.forall_mem_nil _⟩
  supertype known above := by
    obtain ⟨hd, hs, -⟩ := above
    cases known
    cases hd
    cases hs
  inner known := by cases known
  element known := by cases known
  component known := by
    cases known
    assumption

/-- A line beside a null and a width is taken where the null may be an object, and refused
where it should be a text; and so are the values that storage of such types holds at first. -/
theorem lineAndNull_taken :
    let named := Value.tuple [.null, .i32 3]
    let objects := ClosedType.tuple [.nullable .object, .primitive .i32]
    let texts := ClosedType.tuple [.primitive .text, .primitive .i32]
    let v := Value.tuple [.object ⟨0, line⟩, named]
    let host := drawing.host
    (∀ w ∈ [Value.null, .i32 3], w ≠ .void) ∧ (∀ w ∈ [Value.object ⟨0, line⟩, named], w ≠ .void) ∧
      host.Acyclic Known ∧ (∀ t, v.type? = some t → Known t) ∧
      host.Takes v (.tuple [line, objects]) ∧ ¬host.Takes v (.tuple [line, texts]) ∧
      (∃ k, ∀ l, k ≤ l → host.accepts l v (.tuple [line, texts]) = .ok false) ∧
      host.Takes objects.defaultValue objects ∧ ¬host.Takes texts.defaultValue texts := by
  intro named objects texts v host
  have inner : ∀ w ∈ [Value.null, .i32 3], w ≠ .void := by simp [Value.i32]
  have outer : ∀ w ∈ [Value.object ⟨0, line⟩, named], w ≠ .void := by simp [named]
  have known : ∀ t, v.type? = some t → Known t := by
    rintro t ⟨⟩
    refine .tuple (List.forall_mem_cons.2 ⟨.line, List.forall_mem_singleton.2 (.tuple ?_)⟩)
    exact List.forall_mem_cons.2 ⟨.primitive _, List.forall_mem_singleton.2 (.primitive _)⟩
  obtain ⟨membership, defaults, refused⟩ := Host.tuples_taken host
  have absent : host.Takes .null (.nullable .object) := Host.takes_null.2 rfl
  have width : host.Takes (.i32 3) (.primitive .i32) := (Host.takes_of_type? rfl).2 (.same _)
  have own : host.Takes (.object ⟨0, line⟩) line := (Host.takes_of_type? rfl).2 (.same _)
  have taken : host.Takes v (.tuple [line, objects]) := by
    have object : host.Takes named objects := (membership _ _ inner).2 ⟨rfl, by
      simpa [Value.i32, ClosedType.bare] using ⟨⟨absent, rfl⟩, width⟩⟩
    exact (membership _ _ outer).2 ⟨rfl, by simpa [named] using ⟨own, object⟩⟩
  have untaken : ¬host.Takes v (.tuple [line, texts]) := by
    intro h
    obtain ⟨h, -⟩ := ((membership _ _ outer).1 h).2 (named, texts) (by simp)
    cases (((membership _ _ inner).1 h).2 (.null, .primitive .text) (by simp)).2 rfl
  exact ⟨inner, outer, lines_acyclic, known, taken, untaken,
    refused Known lines_acyclic v _ known untaken, (defaults objects).2 rfl,
    fun h => by cases (defaults texts).1 h⟩

/-- Null by itself is a text, and in a tuple it is not taken for one; so the tuple of nulls
that storage of a tuple of texts holds at first is refused by the type of the storage. -/
theorem nullText_refused :
    let texts := ClosedType.tuple [.primitive .text]
    let host := drawing.host
    texts.defaultValue = .tuple [.null] ∧
      ∀ n, host.accepts n .null (.primitive .text) = .ok true ∧
        host.accepts (n + 2) (.tuple [.null]) texts = .ok false := by
  intro texts host
  exact ⟨rfl, fun n => ⟨rfl, rfl⟩⟩

end drawing

end OpTree
