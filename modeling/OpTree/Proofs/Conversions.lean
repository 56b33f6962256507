/-
Conversions against the question which values a type takes. A conversion looks for the
value in the form of its target (`Host.converted?`) and fails, if there is none, as its
kind says; the kind plays no part in what is found. So a cast and the cast that gives null
instead differ in one thing only (`Host.cast_tryCast`), and whatever is found belongs to
the target.

A value that belongs to the target already is found as it is, with one exception
(`Host.convert_of_accepts`): a character goes through sixteen bits on its way to the
character type, so one that does not fit them comes out as another, or not at all. The
numbers go through a form of their own too, and come back: integers modulo the width of
their own kind, and reals by `BinaryReal.toFloat_ofFloat`.
-/
import OpTree.Proofs.Assignability
import OpTree.Proofs.BinaryPatterns
import OpTree.Proofs.IntegerArithmetic

namespace OpTree

namespace Host

variable {σ : Type} {host : Host σ} {a b : ClosedType}

/-! ## Nullability on the walk -/

/-- The walk gets from the one type to the other. -/
def Finds (host : Host σ) (a b : ClosedType) : Prop := ∃ n, host.isAssignable n a b = .ok true

namespace Finds

theorem steps (h : host.Finds a b) : ∃ k, ∀ l, k ≤ l → host.isAssignable l a b = .ok true := by
  obtain ⟨n, hn⟩ := h
  exact ⟨n, fun l hle => isAssignable_more hle hn⟩

theorem alike (h : a = b ∨ b.isObject = true) : host.Finds a b :=
  ⟨1, by simp only [isAssignable, if_pos h]⟩

theorem same (a : ClosedType) : host.Finds a a := alike (.inl rfl)

theorem fromNullable (h : host.Finds a b) : host.Finds (.nullable a) b := by
  by_cases ha : .nullable a = b ∨ b.isObject = true
  · exact alike ha
  · obtain ⟨n, hn⟩ := h
    exact ⟨n + 1, by simp only [isAssignable, if_neg ha, hn]⟩

/-- That of the target is put on. The walk takes nullability off the source first, so the
induction is on the source. -/
theorem toNullable : ∀ {a b : ClosedType}, host.Finds a b → host.Finds a (.nullable b)
  | .nullable a, b, ⟨n + 1, h⟩ => by
    simp only [isAssignable] at h
    split at h
    · rename_i alike
      obtain rfl | alike := alike
      · exact .fromNullable (toNullable (toNullable (.same a)))
      · exact .fromNullable (toNullable (.alike (.inr alike)))
    · exact .fromNullable (toNullable ⟨n, h⟩)
  | .primitive _, b, ⟨n, h⟩ | .named .., b, ⟨n, h⟩ | .array .., b, ⟨n, h⟩ | .tuple _, b, ⟨n, h⟩ => by
    exact ⟨n + 1, by simp [isAssignable, ClosedType.isObject, h]⟩

theorem ofNullable : ∀ {a b : ClosedType}, host.Finds a (.nullable b) → host.Finds a b
  | .nullable a, b, ⟨n + 1, h⟩ => by
    simp only [isAssignable, ClosedType.isObject, Bool.false_eq_true, or_false] at h
    split at h
    · rename_i alike
      cases alike
      exact .fromNullable (.same a)
    · exact .fromNullable (ofNullable ⟨n, h⟩)
  | .primitive _, b, ⟨n + 1, h⟩ | .named .., b, ⟨n + 1, h⟩ | .array .., b, ⟨n + 1, h⟩
  | .tuple _, b, ⟨n + 1, h⟩ => ⟨n, by simpa [isAssignable, ClosedType.isObject] using h⟩

theorem bare_iff : ∀ b : ClosedType, host.Finds a b.bare ↔ host.Finds a b
  | .nullable b =>
    ⟨fun h => toNullable ((bare_iff b).1 h), fun h => (bare_iff b).2 (ofNullable h)⟩
  | .primitive _ | .named .. | .array .. | .tuple _ => .rfl

end Finds

end Host

/-! ## Representations -/

namespace Value

/-- A character that does not fit sixteen bits. -/
def IsSupplementary (v : Value) : Prop := ∃ c : Char, v = .char c ∧ 2 ^ 16 ≤ c.toNat

theorem char_ofNat_toNat (c : Char) : Char.ofNat c.toNat = c := by
  have : c.toNat.isValidChar := c.valid
  rw [Char.ofNat, dif_pos this]
  rfl

theorem toNat_wrap_u16 (c : Char) :
    (Numeric.toIntKind .u16 (.integer c.toNat)).toNat = c.toNat % 2 ^ 16 := by
  simp [Numeric.toIntKind, IntKind.wrap, IntKind.width]

/-- The character of the last sixteen bits of a character, if there is one. -/
def ofLastUnit? (c : Char) : Option Value :=
  if (c.toNat % 2 ^ 16).isValidChar then some (char (Char.ofNat (c.toNat % 2 ^ 16))) else none

theorem convertPrimitive?_char (c : Char) : (char c).convertPrimitive? .char = ofLastUnit? c := by
  simp only [convertPrimitive?, numeric?, Option.bind_some, ofNumeric?, toNat_wrap_u16, ofLastUnit?]

theorem ofLastUnit?_ne {c : Char} (large : 2 ^ 16 ≤ c.toNat) : ofLastUnit? c ≠ some (char c) := by
  intro h
  unfold ofLastUnit? at h
  split at h
  · rename_i valid
    rw [Option.some.injEq, char.injEq] at h
    have same : c.toNat % 2 ^ 16 = c.toNat := by
      have := congrArg Char.toNat h
      rwa [Char.toNat_ofNat, if_pos valid] at this
    have small : c.toNat % 2 ^ 16 < 2 ^ 16 := Nat.mod_lt _ (by decide)
    omega
  · cases h

theorem convertPrimitive?_self {v : Value} {c : Category} (hc : v.category? = some c)
    (fits : ¬v.IsSupplementary) : v.convertPrimitive? c.primitive = some v := by
  cases v with
  | void | null | object | array | tuple | type => cases hc
  | bool | text =>
    cases hc
    rfl
  | char c =>
    cases hc
    have small : c.toNat < 2 ^ 16 := by
      by_contra large
      exact fits ⟨c, rfl, Nat.le_of_not_lt large⟩
    have valid : c.toNat.isValidChar := c.valid
    show (char c).convertPrimitive? .char = some (char c)
    rw [convertPrimitive?_char, ofLastUnit?, Nat.mod_eq_of_lt small, if_pos valid, char_ofNat_toNat]
  | int kind bits =>
    cases hc
    have wrapped : (Numeric.integer (kind.toInt bits)).toIntKind kind = bits := kind.wrap_toInt bits
    cases kind <;> simp [convertPrimitive?, numeric?, ofNumeric?, Category.primitive,
      IntKind.primitive, PrimitiveType.intKind?, wrapped]
  | f32 x =>
    cases hc
    simp [convertPrimitive?, numeric?, ofNumeric?, Category.primitive, Numeric.toReal,
      BinaryReal.toFloat32_ofFloat32]
  | f64 x =>
    cases hc
    simp [convertPrimitive?, numeric?, ofNumeric?, Category.primitive, Numeric.toReal,
      BinaryReal.toFloat_ofFloat]

theorem type?_ofNumeric? {n : Numeric} {v : Value} {p : PrimitiveType}
    (h : ofNumeric? n p = some v) : v.type? = some (.primitive p) := by
  cases p with
  | char =>
    simp only [ofNumeric?] at h
    split at h
    · cases h; rfl
    · cases h
  | void | bool | text | object | typeHandle => cases h
  | f32 | f64 | i8 | u8 | i16 | u16 | i32 | u32 | i64 | u64 => cases h; rfl

theorem type?_convertPrimitive? {v w : Value} {p : PrimitiveType}
    (h : v.convertPrimitive? p = some w) : w.type? = some (.primitive p) := by
  unfold convertPrimitive? at h
  split at h
  · cases h; rfl
  · cases h; rfl
  · obtain ⟨n, -, hn⟩ := Option.bind_eq_some_iff.1 h
    exact type?_ofNumeric? hn

theorem type?_of_category? {v : Value} {c : Category} (h : v.category? = some c) :
    v.type? = some (.primitive c.primitive) := by
  cases v <;> cases h <;> rfl

theorem exists_type? {v : Value} (hv : v ≠ .void) (hn : v.isNull = false) :
    ∃ t, v.type? = some t := by
  cases v with
  | void => exact absurd rfl hv
  | null => cases hn
  | _ => exact ⟨_, rfl⟩

theorem isNull_of_type? {v : Value} {t : ClosedType} (h : v.type? = some t) : v.isNull = false := by
  cases v with
  | null => cases h
  | _ => rfl

end Value

/-! ## Finding and failing -/

namespace Host

variable {σ : Type} {host : Host σ}

/-- The value as one of a target that is not nullable, if there is one. -/
def formOf? (host : Host σ) (fuel : Nat) (v : Value) (target : ClosedType) :
    Except Stop (Option Value) :=
  if target = .object then .ok (some v)
  else
    match target, v.category? with
    | .primitive p, some _ => .ok (v.convertPrimitive? p)
    | target, _ => do return if ← host.accepts fuel v target then some v else none

/-- What a conversion finds, whatever its kind. -/
def converted? (host : Host σ) (fuel : Nat) (v : Value) (target : ClosedType) :
    Except Stop (Option Value) :=
  if v.isNull then .ok (if target.acceptsNull then some .null else none)
  else host.formOf? fuel v target.bare

/-- How a conversion ends that found something, or did not. -/
def conversionEnd (v : Value) (target : ClosedType) (kind : ConversionKind) :
    Option Value → Except Stop Value
  | some w => .ok w
  | none => conversionFailure v target kind

theorem convert_of_isNull {v : Value} (hv : v.isNull = true) (fuel : Nat) (target : ClosedType)
    (kind : ConversionKind) : host.convert fuel v target kind =
      if target.acceptsNull then .ok .null else conversionFailure v target kind := by
  rw [convert.eq_def, if_pos hv]

theorem formOf?_primitive {v : Value} {p : PrimitiveType} {c : Category} (hp : p ≠ .object)
    (hc : v.category? = some c) (fuel : Nat) :
    host.formOf? fuel v (.primitive p) = .ok (v.convertPrimitive? p) := by
  have unlike : ClosedType.primitive p ≠ .object := by simpa [ClosedType.object] using hp
  rw [formOf?.eq_def, if_neg unlike, hc]

theorem formOf?_accepts {v : Value} {target : ClosedType} (unlike : target ≠ .object)
    (hn : ∀ p c, target = .primitive p → v.category? = some c → False) (fuel : Nat) :
    host.formOf? fuel v target =
      do return if ← host.accepts fuel v target then some v else none := by
  rw [formOf?.eq_def, if_neg unlike]
  split
  · exact (hn _ _ rfl ‹_›).elim
  · rfl

/-- The three ways to a form of the target: there is nothing to do, or to be computed, or the
value is taken as it is or not at all. -/
theorem formOf?_cases (host : Host σ) (v : Value) (target : ClosedType) :
    (target = .object ∧ ∀ n, host.formOf? n v target = .ok (some v)) ∨
      (∃ p c, target = .primitive p ∧ p ≠ .object ∧ v.category? = some c ∧
        ∀ n, host.formOf? n v target = .ok (v.convertPrimitive? p)) ∨
      ∀ n, host.formOf? n v target =
        do return if ← host.accepts n v target then some v else none := by
  by_cases object : target = .object
  · exact .inl ⟨object, fun n => by rw [formOf?.eq_def, if_pos object]⟩
  by_cases represented : ∃ p c, target = .primitive p ∧ v.category? = some c
  · obtain ⟨p, c, rfl, hc⟩ := represented
    have hp : p ≠ .object := fun hp => object (congrArg _ hp)
    exact .inr (.inl ⟨p, c, rfl, hp, hc, formOf?_primitive hp hc⟩)
  · exact .inr (.inr (formOf?_accepts object fun p c hp hc => represented ⟨p, c, hp, hc⟩))

theorem convert_of_not_nullable {v : Value} (hv : v.isNull = false) (fuel : Nat)
    (kind : ConversionKind) {target : ClosedType} (ht : ∀ inner, target ≠ .nullable inner) :
    host.convert fuel v target kind =
      (host.formOf? fuel v target >>= conversionEnd v target kind) := by
  rw [convert.eq_def, if_neg (by simp [hv])]
  split
  · exact absurd rfl (ht _)
  · rfl
  · split
    next p c hc _ object =>
      rw [formOf?_primitive (fun hp => object (congrArg _ hp)) hc]
      cases v.convertPrimitive? p <;> rfl
    next target _ _ _ object hn =>
      rw [formOf?_accepts object hn]
      cases host.accepts fuel v target with
      | error e => rfl
      | ok holds => cases holds <;> rfl

theorem convert_of_not_isNull {v : Value} (hv : v.isNull = false) (fuel : Nat)
    (kind : ConversionKind) : ∀ target : ClosedType, host.convert fuel v target kind =
      (host.formOf? fuel v target.bare >>= conversionEnd v target.bare kind)
  | .nullable inner => by
    rw [convert.eq_def, if_neg (by simp [hv])]
    exact convert_of_not_isNull hv fuel kind inner
  | .primitive _ | .named .. | .array .. | .tuple _ => convert_of_not_nullable hv fuel kind nofun

theorem bare_of_not_acceptsNull {t : ClosedType} (h : ¬t.acceptsNull = true) : t.bare = t := by
  cases t with
  | nullable inner => exact absurd rfl h
  | _ => rfl

theorem convert_eq (host : Host σ) (fuel : Nat) (v : Value) (target : ClosedType)
    (kind : ConversionKind) : host.convert fuel v target kind =
      (host.converted? fuel v target >>= conversionEnd v target.bare kind) := by
  cases hv : v.isNull with
  | true =>
    rw [convert_of_isNull hv, converted?, if_pos hv]
    by_cases ha : target.acceptsNull = true
    · simp only [ha, if_true]
      rfl
    · simp only [ha, bare_of_not_acceptsNull ha]
      rfl
  | false =>
    rw [converted?, if_neg (by simp [hv])]
    exact convert_of_not_isNull hv fuel kind target

/-- Found, not there, or not to be told; only the second is a matter of the kind. -/
theorem convert_outcomes (host : Host σ) (n : Nat) (v : Value) (target : ClosedType) :
    (∃ w, host.converted? n v target = .ok (some w) ∧
        ∀ kind, host.convert n v target kind = .ok w) ∨
      (host.converted? n v target = .ok none ∧
        ∀ kind, host.convert n v target kind = conversionFailure v target.bare kind) ∨
      ∃ e, host.converted? n v target = .error e ∧
        ∀ kind, host.convert n v target kind = .error e := by
  cases h : host.converted? n v target with
  | error e => exact .inr (.inr ⟨e, rfl, fun kind => by rw [convert_eq, h]; rfl⟩)
  | ok found =>
    cases found with
    | some w => exact .inl ⟨w, rfl, fun kind => by rw [convert_eq, h]; rfl⟩
    | none => exact .inr (.inl ⟨rfl, fun kind => by rw [convert_eq, h]; rfl⟩)

/-! ## What is found -/

theorem formOf?_found {n : Nat} {v w : Value} {target : ClosedType} (hv : v ≠ .void)
    (hn : v.isNull = false) (h : host.formOf? n v target = .ok (some w)) :
    ∃ t, w.type? = some t ∧ host.Finds t target := by
  obtain ⟨rfl, form⟩ | ⟨p, c, rfl, -, -, form⟩ | form := host.formOf?_cases v target
  · rw [form] at h
    cases h
    obtain ⟨t, ht⟩ := Value.exists_type? hv hn
    exact ⟨t, ht, .alike (.inr rfl)⟩
  · rw [form, Except.ok.injEq] at h
    exact ⟨_, Value.type?_convertPrimitive? h, .same _⟩
  · rw [form] at h
    cases ha : host.accepts n v target with
    | error e => rw [ha] at h; cases h
    | ok holds =>
      rw [ha] at h
      cases holds with
      | false => cases h
      | true =>
        cases h
        obtain ⟨t, ht, found⟩ := type?_of_accepts hn ha
        exact ⟨t, ht, n, found⟩

/-- What a conversion finds belongs to the target, and is null where the value is. -/
theorem converted?_found {n : Nat} {v w : Value} {target : ClosedType} (hv : v ≠ .void)
    (h : host.converted? n v target = .ok (some w)) :
    (∃ k, ∀ l, k ≤ l → host.accepts l w target = .ok true) ∧ w.isNull = v.isNull := by
  unfold converted? at h
  cases hn : v.isNull with
  | true =>
    rw [if_pos hn] at h
    split at h
    · rename_i ha
      cases h
      exact ⟨⟨0, fun l _ => by rw [accepts_null, ha]⟩, rfl⟩
    · cases h
  | false =>
    rw [if_neg (by simp [hn])] at h
    obtain ⟨t, ht, found⟩ := formOf?_found hv hn h
    obtain ⟨k, hk⟩ := ((Finds.bare_iff target).1 found).steps
    exact ⟨⟨k, fun l hle => (accepts_of_type? ht).trans (hk l hle)⟩, Value.isNull_of_type? ht⟩

/-! ## Errors -/

end Host

/-- The error says that a value could not be converted. -/
def EvalError.isInvalidCast (e : EvalError) : Bool :=
  match e.cause with
  | .invalidCast .. => true
  | _ => false

section errors

variable {ε α β : Type}

theorem anyOf_error {test : α → Except ε Bool} {e : ε} : ∀ {as : List α},
    anyOf test as = .error e → ∃ a ∈ as, test a = .error e
  | [], h => by cases h
  | a :: as, h => by
    simp only [anyOf] at h
    cases ha : test a with
    | error e' =>
      rw [ha] at h
      cases h
      exact ⟨a, by simp, ha⟩
    | ok holds =>
      rw [ha] at h
      cases holds with
      | true => cases h
      | false =>
        obtain ⟨b, hb, ht⟩ := anyOf_error h
        exact ⟨b, by simp [hb], ht⟩

theorem allPairs_error {test : α → β → Except ε Bool} {e : ε} : ∀ {as : List α} {bs : List β},
    allPairs test as bs = .error e → ∃ p ∈ as.zip bs, test p.1 p.2 = .error e
  | [], [], h | [], _ :: _, h | _ :: _, [], h => by cases h
  | a :: as, b :: bs, h => by
    simp only [allPairs] at h
    cases hab : test a b with
    | error e' =>
      rw [hab] at h
      cases h
      exact ⟨(a, b), by simp, hab⟩
    | ok holds =>
      rw [hab] at h
      cases holds with
      | false => cases h
      | true =>
        obtain ⟨p, hp, ht⟩ := allPairs_error h
        exact ⟨p, by simp [hp], ht⟩

end errors

namespace TypeRef

variable {r : Resolver} {P : EvalError → Prop}

mutual

theorem close_error (hr : ∀ p e, r p = .error e → P e) :
    ∀ (t : TypeRef) {e : EvalError}, t.close r = .error e → P e
  | .primitive _, _, h => by cases h
  | .param p, _, h => hr p _ h
  | .named _ args, _, h | .tuple args, _, h => by
    rw [close] at h
    cases ha : closeAll r args with
    | error e' =>
      rw [ha] at h
      cases h
      exact closeAll_error hr args ha
    | ok closed => rw [ha] at h; cases h
  | .array inner _, _, h | .nullable inner, _, h => by
    rw [close] at h
    cases ha : inner.close r with
    | error e' =>
      rw [ha] at h
      cases h
      exact close_error hr inner ha
    | ok closed => rw [ha] at h; cases h

theorem closeAll_error (hr : ∀ p e, r p = .error e → P e) :
    ∀ (ts : List TypeRef) {e : EvalError}, closeAll r ts = .error e → P e
  | [], _, h => by cases h
  | t :: ts, _, h => by
    rw [closeAll] at h
    cases ht : t.close r with
    | error e' =>
      rw [ht] at h
      cases h
      exact close_error hr t ht
    | ok c =>
      rw [ht] at h
      cases hs : closeAll r ts with
      | error e' =>
        rw [hs] at h
        cases h
        exact closeAll_error hr ts hs
      | ok cs => rw [hs] at h; cases h

end

end TypeRef

theorem Substitution.resolver_error (s : Substitution) (p : GenericParam) (e : EvalError)
    (h : s.resolver p = .error e) : e = p.unbound := by
  simp only [resolver, GenericParam.argument] at h
  split at h <;> split at h <;> cases h <;> rfl

namespace Host

variable {σ : Type} {host : Host σ}

/-- The host does not report a failed conversion when it is asked about a type. -/
def LooksUpPlainly (host : Host σ) : Prop :=
  ∀ d e, host.typeDescriptor d = .error e → e.isInvalidCast = false

/-- The walk fails where a lookup or a closing does, and with no other error. -/
theorem isAssignable_error (plain : host.LooksUpPlainly) : ∀ {n a b e},
    host.isAssignable n a b = .error (.failed e) → e.isInvalidCast = false
  | 0, _, _, _, h => by cases h
  | n + 1, a, b, e, h => by
    simp only [isAssignable] at h
    split at h
    · cases h
    split at h
    · exact isAssignable_error plain h
    · exact isAssignable_error plain h
    · split at h
      · exact isAssignable_error plain h
      · cases h
    · split at h
      · obtain ⟨p, -, hp⟩ := allPairs_error h
        exact isAssignable_error plain hp
      · cases h
    · rename_i d args _ _
      cases hd : host.typeDescriptor d with
      | error e' =>
        rw [hd] at h
        cases h
        exact plain d e hd
      | ok descriptor =>
        rw [hd] at h
        obtain ⟨s, -, hs⟩ := anyOf_error h
        cases hc : s.close (Substitution.ofType args).resolver with
        | error e' =>
          rw [hc] at hs
          cases hs
          refine TypeRef.close_error (P := (EvalError.isInvalidCast · = false)) (fun p e he => ?_) s hc
          rw [Substitution.resolver_error _ p e he]
          rfl
        | ok c =>
          rw [hc] at hs
          exact isAssignable_error plain hs
    · cases h

theorem Ends.not_failed {a b : ClosedType} (h : host.Ends a b) {n : Nat} {e : EvalError} :
    host.isAssignable n a b ≠ .error (.failed e) := by
  intro failed
  obtain ⟨m, r, hr⟩ := h
  have enough : Run.Enough True True n m := by
    obtain hle | hle := Nat.le_total n m
    · exact .inr (.inl ⟨trivial, hle⟩)
    · exact .inr (.inr ⟨trivial, hle⟩)
  have agrees := host.isAssignable_agrees n m enough a b
  rw [failed, hr] at agrees
  obtain same | ⟨-, same⟩ | ⟨-, same⟩ := agrees <;> cases same

/-- Whatever the walk fails with for the value is not a failed conversion: either no lookup
fails so, or none of those fails that the walk makes. -/
def WalksPlainly (host : Host σ) (v : Value) : Prop :=
  host.LooksUpPlainly ∨ ∃ types, host.Acyclic types ∧ ∀ t, v.type? = some t → types t

theorem WalksPlainly.error {v : Value} (plain : host.WalksPlainly v) {n : Nat}
    {target : ClosedType} {e : EvalError}
    (h : host.converted? n v target = .error (.failed e)) : e.isInvalidCast = false := by
  unfold converted? at h
  split at h
  · cases h
  obtain ⟨-, form⟩ | ⟨p, c, -, -, -, form⟩ | form := host.formOf?_cases v target.bare
  · rw [form] at h
    cases h
  · rw [form] at h
    cases h
  · rw [form] at h
    cases ha : host.accepts n v target.bare with
    | ok holds => rw [ha] at h; cases h
    | error e' =>
      rw [ha] at h
      cases h
      cases ht : v.type? with
      | none =>
        rw [accepts, ht] at ha
        cases ha
      | some t =>
        rw [accepts_of_type? ht] at ha
        obtain plain | ⟨types, acyclic, known⟩ := plain
        · exact isAssignable_error plain ha
        · exact absurd ha (acyclic.ends target.bare t (known t ht)).not_failed

theorem Acyclic.converted?_ends {types : ClosedType → Prop} (h : host.Acyclic types) (v : Value)
    (target : ClosedType) (known : ∀ t, v.type? = some t → types t) :
    ∃ k found, ∀ l, k ≤ l → host.converted? l v target = .ok found := by
  cases hn : v.isNull with
  | true => exact ⟨0, _, fun l _ => by rw [converted?, if_pos hn]⟩
  | false =>
    have form (l : Nat) : host.converted? l v target = host.formOf? l v target.bare := by
      rw [converted?, if_neg (by simp [hn])]
    obtain ⟨-, found⟩ | ⟨p, c, -, -, -, found⟩ | found := host.formOf?_cases v target.bare
    · exact ⟨0, _, fun l _ => (form l).trans (found l)⟩
    · exact ⟨0, _, fun l _ => (form l).trans (found l)⟩
    · cases ht : v.type? with
      | none =>
        have accepted (l : Nat) : host.accepts l v target.bare = .ok false := by
          rw [accepts, ht, hn]
          rfl
        exact ⟨0, none, fun l _ => by rw [form, found, accepted]; rfl⟩
      | some t =>
        obtain ⟨k, r, hr⟩ := h.ends target.bare t (known t ht)
        refine ⟨k, if r then some v else none, fun l hle => ?_⟩
        rw [form, found, accepts_of_type? ht, isAssignable_more hle hr]
        rfl

/-! ## The two kinds -/

/-- A cast gives a value of the target, null for null and nothing else; the other kind gives
the same value. Where the cast fails because there is no such value, the other kind gives
null, and every other failure is one of both. Both come to an end where the walk does. -/
theorem cast_tryCast (v : Value) (hv : v ≠ .void) (plain : host.WalksPlainly v)
    (target : ClosedType) :
    (∀ n w, host.convert n v target .cast = .ok w →
      (∃ k, ∀ l, k ≤ l → host.accepts l w target = .ok true) ∧ w.isNull = v.isNull ∧
        host.convert n v target .tryCast = .ok w) ∧
    (∀ n e, host.convert n v target .cast = .error (.failed e) →
      host.convert n v target .tryCast =
        if e.isInvalidCast then .ok .null else .error (.failed e)) ∧
    (∀ n e, host.convert n v target .tryCast = .error (.failed e) →
      e.isInvalidCast = false ∧ host.convert n v target .cast = .error (.failed e)) ∧
    ∀ types, host.Acyclic types → (∀ t, v.type? = some t → types t) → ∀ kind,
      ∃ k r, ∀ l, k ≤ l → host.convert l v target kind = Stop.ofExcept r := by
  refine ⟨fun n w h => ?_, fun n e h => ?_, fun n e h => ?_, fun types acyclic known kind => ?_⟩
  · obtain ⟨w', found, ends⟩ | ⟨-, ends⟩ | ⟨e, -, ends⟩ := host.convert_outcomes n v target <;>
      rw [ends] at h ⊢ <;> cases h
    obtain ⟨accepted, null⟩ := converted?_found hv found
    exact ⟨accepted, null, rfl⟩
  · obtain ⟨w, -, ends⟩ | ⟨-, ends⟩ | ⟨e', failed, ends⟩ := host.convert_outcomes n v target <;>
      rw [ends] at h ⊢ <;> cases h
    · rfl
    · rw [plain.error failed]
      rfl
  · obtain ⟨w, -, ends⟩ | ⟨-, ends⟩ | ⟨e', failed, ends⟩ := host.convert_outcomes n v target <;>
      rw [ends] at h ⊢ <;> cases h
    exact ⟨plain.error failed, rfl⟩
  · obtain ⟨k, found, hk⟩ := acyclic.converted?_ends v target known
    have same (l : Nat) (hle : k ≤ l) : host.convert l v target kind =
        conversionEnd v target.bare kind found := by rw [convert_eq, hk l hle]; rfl
    cases found with
    | some w => exact ⟨k, .ok w, same⟩
    | none =>
      cases kind with
      | cast => exact ⟨k, .error _, same⟩
      | tryCast => exact ⟨k, .ok .null, same⟩

/-! ## What belongs to the target already -/

theorem Finds.eq_of_primitive {p q : PrimitiveType} (hp : p ≠ .object)
    (h : host.Finds (.primitive q) (.primitive p)) : q = p := by
  obtain ⟨n, hn⟩ := h
  cases conforms_of_isAssignable hn with
  | same => rfl
  | object => exact absurd rfl hp
  | inherited declares => cases declares

theorem converted?_char (host : Host σ) (l : Nat) (c : Char) {target : ClosedType}
    (ht : target.bare = .primitive .char) :
    host.converted? l (.char c) target = .ok (Value.ofLastUnit? c) := by
  have form : host.formOf? l (.char c) (.primitive .char) = .ok (Value.ofLastUnit? c) := by
    rw [formOf?_primitive (by decide) rfl, Value.convertPrimitive?_char]
  rw [converted?, if_neg (by simp [Value.isNull]), ht, form]

/-- A value that is accepted is found as it is, unless it is a character on its way to the
character type that does not fit sixteen bits. -/
theorem converted?_of_accepts {n : Nat} {v : Value} {target : ClosedType}
    (h : host.accepts n v target = .ok true)
    (fits : ¬(v.IsSupplementary ∧ target.bare = .primitive .char)) :
    ∃ k, ∀ l, k ≤ l → host.converted? l v target = .ok (some v) := by
  cases hn : v.isNull with
  | true =>
    cases v with
    | null =>
      rw [accepts_null, Except.ok.injEq] at h
      exact ⟨0, fun l _ => by simp [converted?, Value.isNull, h]⟩
    | _ => cases hn
  | false =>
    have form (l : Nat) : host.converted? l v target = host.formOf? l v target.bare := by
      rw [converted?, if_neg (by simp [hn])]
    obtain ⟨t, ht, walk⟩ := type?_of_accepts hn h
    have found : host.Finds t target.bare := (Finds.bare_iff target).2 ⟨n, walk⟩
    obtain ⟨-, object⟩ | ⟨p, c, hp, notObject, hc, computed⟩ | taken :=
      host.formOf?_cases v target.bare
    · exact ⟨0, fun l _ => (form l).trans (object l)⟩
    · rw [Value.type?_of_category? hc, Option.some.injEq] at ht
      subst ht
      rw [hp] at found fits
      obtain rfl := found.eq_of_primitive notObject
      have kept : v.convertPrimitive? c.primitive = some v := by
        refine Value.convertPrimitive?_self hc fun large => fits ⟨large, ?_⟩
        obtain ⟨c', rfl, -⟩ := large
        cases hc
        rfl
      exact ⟨0, fun l _ => by rw [form, computed, kept]⟩
    · obtain ⟨k, hk⟩ := found.steps
      refine ⟨k, fun l hle => ?_⟩
      rw [form, taken, accepts_of_type? ht, hk l hle]
      rfl

/-- A value that belongs to the target is converted to itself, whatever the kind, and only
a character that does not fit sixteen bits is not, on its way to the character type: it
comes out as the character of its last sixteen bits, or fails where there is none. -/
theorem convert_of_accepts {n : Nat} {v : Value} {target : ClosedType}
    (h : host.accepts n v target = .ok true) (kind : ConversionKind) :
    ∃ k, ∀ l, k ≤ l →
      (host.convert l v target kind = .ok v ↔
        ¬(v.IsSupplementary ∧ target.bare = .primitive .char)) ∧
      ∀ c, v = .char c → target.bare = .primitive .char →
        host.convert l v target kind = conversionEnd v target.bare kind (Value.ofLastUnit? c) := by
  have character (l : Nat) (c : Char) (ht : target.bare = .primitive .char) :
      host.convert l (.char c) target kind =
        conversionEnd (.char c) target.bare kind (Value.ofLastUnit? c) := by
    rw [convert_eq, converted?_char host l c ht]
    rfl
  by_cases fits : v.IsSupplementary ∧ target.bare = .primitive .char
  · refine ⟨0, fun l _ => ⟨⟨fun same => ?_, fun small => absurd fits small⟩, ?_⟩⟩
    · obtain ⟨⟨c, rfl, large⟩, ht⟩ := fits
      rw [character l c ht] at same
      cases hc : Value.ofLastUnit? c with
      | some w =>
        rw [hc] at same
        cases same
        exact absurd hc (Value.ofLastUnit?_ne large)
      | none =>
        rw [hc] at same
        cases kind <;> cases same
    · rintro c rfl ht
      exact character l c ht
  · obtain ⟨k, hk⟩ := converted?_of_accepts h fits
    refine ⟨k, fun l hle => ⟨⟨fun _ => fits, fun _ => ?_⟩, ?_⟩⟩
    · rw [convert_eq, hk l hle]
      rfl
    · rintro c rfl ht
      exact character l c ht

end Host

namespace namesOverBox

/-- The least number above zero, as a number that may be missing, stays what it is. -/
theorem leastNumber_kept :
    let v : Value := .f64 (Float.ofBits 1)
    let target := ClosedType.nullable (.primitive .f64)
    let host := namesOverBox.host
    host.accepts 2 v target = .ok true ∧
      ¬(v.IsSupplementary ∧ target.bare = .primitive .char) ∧
      ∃ k, ∀ l, k ≤ l → host.convert l v target .tryCast = .ok v := by
  intro v target host
  have accepted : host.accepts 2 v target = .ok true := rfl
  have fits : ¬(v.IsSupplementary ∧ target.bare = .primitive .char) := fun h => nomatch h.2
  obtain ⟨k, hk⟩ := host.convert_of_accepts accepted .tryCast
  exact ⟨accepted, fits, k, fun l hle => (hk l hle).1.2 fits⟩

/-- A character beyond sixteen bits is accepted as a character and converted to another one,
or to none. -/
theorem supplementaryCharacter_changed :
    let face := Value.char (Char.ofNat 0x1F600)
    let host := namesOverBox.host
    let character := ClosedType.primitive .char
    ∀ l, host.accepts (l + 1) face character = .ok true ∧
      host.convert l face character .cast = .ok (.char (Char.ofNat 0xF600)) ∧
      face ≠ .char (Char.ofNat 0xF600) ∧
      host.convert l (.char (Char.ofNat 0x1D800)) character .tryCast = .ok .null := by
  intro face host character l
  refine ⟨?_, ?_, ?_, ?_⟩
  · simp [Host.accepts, Host.isAssignable, face, character, Value.type?]
  · rfl
  · simp [face]
  · rfl

/-- An object of the class is a source, whichever kind of cast asks, and is no text. -/
theorem names_cast :
    let o : Value := .object ⟨0, names⟩
    let source := ClosedType.nullable (source (.array (.primitive .text) 1))
    let text := ClosedType.nullable (.primitive .text)
    let host := namesOverBox.host
    o ≠ .void ∧ host.WalksPlainly o ∧
      host.convert 4 o source .cast = .ok o ∧ host.convert 4 o source .tryCast = .ok o ∧
      (∃ k, ∀ l, k ≤ l → host.accepts l o source = .ok true) ∧
      host.convert 4 o text .cast = .error (.failed (.of (.invalidCast "type#3" "string"))) ∧
      host.convert 4 o text .tryCast = .ok .null := by
  intro o source text host
  have known : ∀ t, o.type? = some t → Known t := by
    rintro t ⟨⟩
    exact .names
  have plain : host.WalksPlainly o := .inr ⟨Known, acyclic, known⟩
  have cast : host.convert 4 o source .cast = .ok o := rfl
  have failing : host.convert 4 o text .cast =
      .error (.failed (.of (.invalidCast "type#3" "string"))) := rfl
  obtain ⟨found, -⟩ := Host.cast_tryCast o nofun plain source
  obtain ⟨-, failed, -⟩ := Host.cast_tryCast o nofun plain text
  obtain ⟨accepted, -, same⟩ := found 4 o cast
  exact ⟨nofun, plain, cast, same, accepted, failing, failed 4 _ failing⟩

end namesOverBox

end OpTree
