/-
Assignability, as a relation and as the walk that decides it. `Host.Conforms` says when a
value of one type can be stored where another is expected, rule by rule and without an
order among the rules: nullability does not count on either side, everything is an object,
arrays follow their elements where these are references, tuples go by components, and a
named type is whatever its supertypes are. The walk (`Host.isAssignable`) tries the rules
in one order and looks up supertypes as it goes. Whenever it gives an answer, that is
whether the types conform (`Host.conforms_iff`); so what is shown of the relation holds of
the walk, wherever the walk ends. It ends from every type whose supertypes can be looked
up and closed, if going from type to supertype comes to an end (`Host.Acyclic`).

Conforming is transitive, whichever rules come together in the middle. So assignability is
a preorder, and what a type accepts, every type accepts that it is assignable to, with one
exception: null is accepted by a nullable type, and may not be by the type underneath, to
which the nullable one is assignable all the same.
-/
import OpTree.Assignable
import OpTree.Proofs.Steps
import OpTree.Scripted

namespace OpTree

/-! ## Questions about lists -/

section lists

variable {ε α β : Type}

theorem anyOf_true {test : α → Except ε Bool} : ∀ {as : List α}, anyOf test as = .ok true →
    ∃ a ∈ as, test a = .ok true
  | [], h => by cases h
  | a :: as, h => by
    simp only [anyOf] at h
    cases ha : test a with
    | error e => rw [ha] at h; cases h
    | ok holds =>
      rw [ha] at h
      cases holds with
      | true => exact ⟨a, by simp, ha⟩
      | false =>
        obtain ⟨b, hb, ht⟩ := anyOf_true h
        exact ⟨b, by simp [hb], ht⟩

theorem anyOf_false {test : α → Except ε Bool} : ∀ {as : List α}, anyOf test as = .ok false →
    ∀ a ∈ as, test a = .ok false
  | [], _, a, hm => by cases hm
  | b :: as, h, a, hm => by
    simp only [anyOf] at h
    cases hb : test b with
    | error e => rw [hb] at h; cases h
    | ok holds =>
      rw [hb] at h
      cases holds with
      | true => cases h
      | false =>
        rcases List.mem_cons.1 hm with rfl | hm
        · exact hb
        · exact anyOf_false h a hm

theorem allPairs_true {test : α → β → Except ε Bool} : ∀ {as : List α} {bs : List β},
    allPairs test as bs = .ok true → as.length = bs.length ∧
      ∀ p ∈ as.zip bs, test p.1 p.2 = .ok true
  | [], [], _ => ⟨rfl, by simp⟩
  | [], _ :: _, h => by cases h
  | _ :: _, [], h => by cases h
  | a :: as, b :: bs, h => by
    simp only [allPairs] at h
    cases hab : test a b with
    | error e => rw [hab] at h; cases h
    | ok holds =>
      rw [hab] at h
      cases holds with
      | false => cases h
      | true =>
        obtain ⟨length, pairs⟩ := allPairs_true h
        refine ⟨by simp [length], fun p hp => ?_⟩
        rcases List.mem_cons.1 hp with rfl | hp
        · exact hab
        · exact pairs p hp

theorem allPairs_true_iff {test : α → β → Except ε Bool} {as : List α} {bs : List β} :
    allPairs test as bs = .ok true ↔
      as.length = bs.length ∧ ∀ p ∈ as.zip bs, test p.1 p.2 = .ok true := by
  constructor
  · exact allPairs_true
  · rintro ⟨length, pairs⟩
    induction as generalizing bs with
    | nil =>
      obtain rfl := List.length_eq_zero_iff.1 length.symm
      rfl
    | cons a as ih =>
      cases bs with
      | nil => cases length
      | cons b bs =>
        simp only [allPairs, pairs (a, b) (by simp)]
        exact ih (by simpa using length) fun p hp => pairs p (by simp [hp])

theorem allPairs_false {test : α → β → Except ε Bool} : ∀ {as : List α} {bs : List β},
    as.length = bs.length → allPairs test as bs = .ok false →
      ∃ p ∈ as.zip bs, test p.1 p.2 = .ok false
  | [], [], _, h => by cases h
  | a :: as, b :: bs, length, h => by
    simp only [allPairs] at h
    cases hab : test a b with
    | error e => rw [hab] at h; cases h
    | ok holds =>
      rw [hab] at h
      cases holds with
      | false => exact ⟨(a, b), by simp, hab⟩
      | true =>
        obtain ⟨p, hp, hf⟩ := allPairs_false (by simpa using length) h
        exact ⟨p, by simp [hp], hf⟩

/-- What takes some number of steps for each member of a list takes some for all. -/
theorem exists_steps (P : Nat → α → Prop) (more : ∀ {n m a}, n ≤ m → P n a → P m a) {as : List α}
    (h : ∀ a ∈ as, ∃ n, P n a) : ∃ n, ∀ a ∈ as, P n a := by
  induction as with
  | nil => exact ⟨0, by simp⟩
  | cons a as ih =>
    obtain ⟨n, hn⟩ := h a (by simp)
    obtain ⟨n', hn'⟩ := ih fun b hb => h b (by simp [hb])
    refine ⟨max n n', fun b hb => ?_⟩
    rcases List.mem_cons.1 hb with rfl | hb
    · exact more (Nat.le_max_left n n') hn
    · exact more (Nat.le_max_right n n') (hn' b hb)

theorem exists_anyOf {test : α → Except ε Bool} {as : List α} (h : ∀ a ∈ as, ∃ r, test a = .ok r) :
    ∃ r, anyOf test as = .ok r := by
  induction as with
  | nil => exact ⟨false, rfl⟩
  | cons a as ih =>
    obtain ⟨holds, ha⟩ := h a (by simp)
    simp only [anyOf, ha]
    cases holds with
    | true => exact ⟨true, rfl⟩
    | false => exact ih fun b hb => h b (by simp [hb])

theorem exists_allPairs {test : α → β → Except ε Bool} {as : List α} {bs : List β}
    (h : ∀ p ∈ as.zip bs, ∃ r, test p.1 p.2 = .ok r) : ∃ r, allPairs test as bs = .ok r := by
  induction as generalizing bs with
  | nil => cases bs <;> exact ⟨_, rfl⟩
  | cons a as ih =>
    cases bs with
    | nil => exact ⟨false, rfl⟩
    | cons b bs =>
      obtain ⟨holds, hab⟩ := h (a, b) (by simp)
      simp only [allPairs, hab]
      cases holds with
      | true => exact ih fun p hp => h p (by simp [hp])
      | false => exact ⟨false, rfl⟩

theorem exists_between {γ : Type} {as : List α} {bs : List β} {cs : List γ}
    (length : as.length = bs.length) (length' : bs.length = cs.length) {p : α × γ}
    (hp : p ∈ as.zip cs) : ∃ b, (p.1, b) ∈ as.zip bs ∧ (b, p.2) ∈ bs.zip cs := by
  induction as generalizing bs cs with
  | nil => simp at hp
  | cons a as ih =>
    obtain _ | ⟨b, bs⟩ := bs
    · simp at length
    obtain _ | ⟨c, cs⟩ := cs
    · simp at length'
    rcases List.mem_cons.1 hp with rfl | hp
    · exact ⟨b, by simp, by simp⟩
    · obtain ⟨b', hab, hbc⟩ := ih (by simpa using length) (by simpa using length') hp
      exact ⟨b', by simp [hab], by simp [hbc]⟩

end lists

/-! ## The relation -/

/-- The declared supertypes: the base, then the interfaces. -/
def TypeDescriptor.supertypes (d : TypeDescriptor) : List TypeRef := d.base.toList ++ d.interfaces

namespace ClosedType

/-- The type without any nullability around it. -/
def bare : ClosedType → ClosedType
  | nullable inner => inner.bare
  | t => t

theorem acceptsNull_of_bare {t : ClosedType} (h : t.bare.acceptsNull = true) :
    t.acceptsNull = true := by
  cases t with
  | nullable inner => rfl
  | primitive | named | array | tuple => exact h

theorem isObject_iff {t : ClosedType} : t.isObject = true ↔ t = object := by
  cases t with
  | primitive p => cases p <;> simp [isObject, object]
  | named | array | tuple | nullable => simp [isObject, object]

end ClosedType

namespace Host

variable {σ : Type} (host : Host σ)

/-- The type is declared to be the other one, which is a base or an interface of its
definition, closed by its arguments. -/
inductive Declares : ClosedType → ClosedType → Prop where
  | intro {d args descriptor supertype c} : host.typeDescriptor d = .ok descriptor →
      supertype ∈ descriptor.supertypes →
      supertype.close (Substitution.ofType args).resolver = .ok c → Declares (.named d args) c

/-- A value of the one type can be stored where the other is expected. -/
inductive Conforms : ClosedType → ClosedType → Prop where
  | same (a) : Conforms a a
  | object (a) : Conforms a .object
  | fromNullable {a b} : Conforms a b → Conforms (.nullable a) b
  | toNullable {a b} : Conforms a b → Conforms a (.nullable b)
  | array {a b} (rank) : a.acceptsNull = true → Conforms a b →
      Conforms (.array a rank) (.array b rank)
  | tuple {as bs : List ClosedType} : as.length = bs.length →
      (∀ p ∈ as.zip bs, Conforms p.1 p.2) → Conforms (.tuple as) (.tuple bs)
  | inherited {a b c} : host.Declares a b → Conforms b c → Conforms a c

namespace Conforms

variable {host} {a b c : ClosedType}

theorem of_nullable {t : ClosedType} (h : host.Conforms t b) :
    ∀ {a}, t = .nullable a → host.Conforms a b := by
  induction h with
  | same => rintro a rfl; exact .toNullable (.same a)
  | object => exact fun _ => .object _
  | fromNullable h => rintro _ ⟨⟩; exact h
  | toNullable _ ih => exact fun he => .toNullable (ih he)
  | array | tuple => rintro _ ⟨⟩
  | inherited hd => rintro _ rfl; cases hd

theorem to_nullable {t : ClosedType} (h : host.Conforms a t) :
    ∀ {b}, t = .nullable b → host.Conforms a b := by
  induction h with
  | same => rintro b rfl; exact .fromNullable (.same b)
  | object => rintro _ ⟨⟩
  | fromNullable _ ih => exact fun he => .fromNullable (ih he)
  | toNullable h => rintro _ ⟨⟩; exact h
  | array | tuple => rintro _ ⟨⟩
  | inherited hd _ ih => exact fun he => .inherited hd (ih he)

theorem of_object {t : ClosedType} (h : host.Conforms t c) (ht : t = .object) (a : ClosedType) :
    host.Conforms a c := by
  induction h with
  | same => exact ht ▸ .object a
  | object => exact .object a
  | toNullable _ ih => exact .toNullable (ih ht)
  | fromNullable | array | tuple => cases ht
  | inherited hd => subst ht; cases hd

theorem of_array {t x y : ClosedType} {rank : Nat} (h : host.Conforms t c) (ht : t = .array y rank)
    (references : x.acceptsNull = true) (first : host.Conforms x y)
    (onward : ∀ z, host.Conforms y z → host.Conforms x z) : host.Conforms (.array x rank) c := by
  induction h with
  | same => subst ht; exact .array rank references first
  | object => exact .object _
  | toNullable _ ih => exact .toNullable (ih ht)
  | array _ _ h => cases ht; exact .array rank references (onward _ h)
  | fromNullable | tuple => cases ht
  | inherited hd => subst ht; cases hd

theorem of_tuple {t : ClosedType} {xs ys : List ClosedType} (h : host.Conforms t c)
    (ht : t = .tuple ys) (length : xs.length = ys.length)
    (first : ∀ p ∈ xs.zip ys, host.Conforms p.1 p.2)
    (onward : ∀ p ∈ xs.zip ys, ∀ z, host.Conforms p.2 z → host.Conforms p.1 z) :
    host.Conforms (.tuple xs) c := by
  induction h with
  | same => subst ht; exact .tuple length first
  | object => exact .object _
  | toNullable _ ih => exact .toNullable (ih ht)
  | @tuple _ zs length' next =>
    cases ht
    refine .tuple (length.trans length') fun p hp => ?_
    obtain ⟨y, hxy, hyz⟩ := exists_between length length' hp
    exact onward _ hxy _ (next _ hyz)
  | fromNullable | array => cases ht
  | inherited hd => subst ht; cases hd

/-- By induction on how the first type conforms; only where it does by a rule that looks at
the middle type is the second derivation looked into. -/
theorem trans (h : host.Conforms a b) : ∀ {c}, host.Conforms b c → host.Conforms a c := by
  induction h with
  | same => exact fun h' => h'
  | object a => exact fun h' => h'.of_object rfl a
  | fromNullable _ ih => exact fun h' => .fromNullable (ih h')
  | toNullable _ ih => exact fun h' => ih (h'.of_nullable rfl)
  | array rank references first ih =>
    exact fun h' => h'.of_array rfl references first fun _ next => ih next
  | tuple length first ih =>
    exact fun h' => h'.of_tuple rfl length first fun p hp _ next => ih p hp next
  | inherited hd _ ih => exact fun h' => .inherited hd (ih h')

end Conforms

/-! ## The walk -/

section walk

variable {host} {a b c : ClosedType}

/-- What a further step of the walk is asked. -/
theorem isAssignable_supertype {n : Nat} {s : TypeRef} {args : List ClosedType} {r : Bool}
    (h : (do
      let closed ← Stop.ofExcept (s.close (Substitution.ofType args).resolver)
      host.isAssignable n closed b) = .ok r) :
    ∃ c, s.close (Substitution.ofType args).resolver = .ok c ∧ host.isAssignable n c b = .ok r := by
  cases hc : s.close (Substitution.ofType args).resolver with
  | error e => rw [hc] at h; cases h
  | ok c => rw [hc] at h; exact ⟨c, rfl, h⟩

/-- The walk finds no more than there is. -/
theorem conforms_of_isAssignable : ∀ {n a b}, host.isAssignable n a b = .ok true → host.Conforms a b
  | 0, a, b, h => by cases h
  | n + 1, a, b, h => by
    simp only [isAssignable] at h
    split at h
    · rename_i alike
      rcases alike with rfl | alike
      · exact .same a
      · rw [ClosedType.isObject_iff.1 alike]; exact .object a
    · split at h
      · exact .fromNullable (conforms_of_isAssignable h)
      · exact .toNullable (conforms_of_isAssignable h)
      · split at h
        · rename_i references
          obtain ⟨rfl, references⟩ := references
          exact .array _ references (conforms_of_isAssignable h)
        · cases h
      · split at h
        · obtain ⟨length, pairs⟩ := allPairs_true h
          exact .tuple length fun p hp => conforms_of_isAssignable (pairs p hp)
        · cases h
      · rename_i d args _ _
        cases hd : host.typeDescriptor d with
        | error e => rw [hd] at h; cases h
        | ok descriptor =>
          rw [hd] at h
          obtain ⟨s, hs, ht⟩ := anyOf_true h
          obtain ⟨c, hc, hr⟩ := isAssignable_supertype ht
          exact .inherited (.intro hd hs hc) (conforms_of_isAssignable hr)
      · cases h

/-- Where it says no, there is nothing to find. -/
theorem isAssignable_ne_false : ∀ {n a b}, host.Conforms a b → host.isAssignable n a b ≠ .ok false
  | 0, a, b, _, h => by cases h
  | n + 1, a, b, conforms, h => by
    simp only [isAssignable] at h
    split at h
    · cases h
    · rename_i unlike
      split at h
      · exact isAssignable_ne_false (conforms.of_nullable rfl) h
      · exact isAssignable_ne_false (conforms.to_nullable rfl) h
      · cases conforms with
        | same => exact unlike (.inl rfl)
        | array rank references first =>
          rw [if_pos ⟨rfl, references⟩] at h
          exact isAssignable_ne_false first h
        | inherited hd => cases hd
      · cases conforms with
        | same => exact unlike (.inl rfl)
        | tuple length pairs =>
          rw [if_pos length] at h
          obtain ⟨p, hp, hf⟩ := allPairs_false length h
          exact isAssignable_ne_false (pairs p hp) hf
        | inherited hd => cases hd
      · rename_i d args target notNullable
        cases conforms with
        | same => exact unlike (.inl rfl)
        | object => exact unlike (.inr rfl)
        | toNullable => exact notNullable _ rfl
        | inherited hd next =>
          obtain ⟨hd, hs, hc⟩ := hd
          rw [hd] at h
          obtain ⟨c, hc', hf⟩ := isAssignable_supertype (anyOf_false h _ hs)
          cases hc.symm.trans hc'
          exact isAssignable_ne_false next hf
      · rename_i notFrom notNamed notTo notArrays notTuples
        cases conforms with
        | same => exact unlike (.inl rfl)
        | object => exact unlike (.inr rfl)
        | fromNullable => exact notFrom _ rfl
        | toNullable => exact notTo _ rfl
        | array => exact notArrays _ _ _ _ rfl rfl
        | tuple => exact notTuples _ _ rfl rfl
        | inherited hd => cases hd; exact notNamed _ _ rfl

theorem conforms_iff {n : Nat} {r : Bool} (h : host.isAssignable n a b = .ok r) :
    r = true ↔ host.Conforms a b := by
  cases r with
  | true => exact ⟨fun _ => conforms_of_isAssignable h, fun _ => rfl⟩
  | false => exact ⟨nofun, fun conforms => absurd h (isAssignable_ne_false conforms)⟩

theorem isAssignable_more {n m : Nat} {r : Bool} (hle : n ≤ m)
    (h : host.isAssignable n a b = .ok r) : host.isAssignable m a b = .ok r := by
  have agrees : Stop.Agrees True False (host.isAssignable n a b) (host.isAssignable m a b) :=
    host.isAssignable_agrees n m (.inr (.inl ⟨trivial, hle⟩)) a b
  rw [h] at agrees
  rcases agrees with same | ⟨-, short⟩ | ⟨short, -⟩
  · exact same.symm
  · cases short
  · exact short.elim

end walk

/-! ## Hierarchies -/

/-- One step up from a type: to what it is declared to be, or to what it is apart from
being nullable. -/
inductive Above : ClosedType → ClosedType → Prop where
  | declared {a b} : host.Declares a b → Above b a
  | inner {a} : Above a (.nullable a)

/-- Types of a hierarchy without cycles, in which every lookup and every closing succeeds.
With a type there are all those that the walk may come to from it. -/
structure Acyclic (types : ClosedType → Prop) : Prop where
  wellFounded : WellFounded host.Above
  lookup : ∀ {d args}, types (.named d args) → ∃ descriptor, host.typeDescriptor d = .ok descriptor ∧
    ∀ s ∈ descriptor.supertypes, ∃ c, s.close (Substitution.ofType args).resolver = .ok c
  supertype : ∀ {a b}, types a → host.Declares a b → types b
  inner : ∀ {a}, types (.nullable a) → types a
  element : ∀ {a rank}, types (.array a rank) → types a
  component : ∀ {as}, types (.tuple as) → ∀ a ∈ as, types a

/-- The one definition is a base or an interface of the other. -/
def DefinitionAbove (e d : TypeId) : Prop :=
  ∃ descriptor, host.typeDescriptor d = .ok descriptor ∧
    ∃ args, TypeRef.named e args ∈ descriptor.supertypes

/-- Bases and interfaces are named types. -/
def NamedSupertypes : Prop :=
  ∀ {d descriptor}, host.typeDescriptor d = .ok descriptor →
    ∀ s ∈ descriptor.supertypes, ∃ e args, s = .named e args

variable {host}

theorem NamedSupertypes.declares (named : host.NamedSupertypes) {a b : ClosedType}
    (h : host.Declares a b) :
    ∃ d args e args', a = .named d args ∧ b = .named e args' ∧ host.DefinitionAbove e d := by
  obtain @⟨d, args, _, _, _, hd, hs, hc⟩ := h
  obtain ⟨e, arguments, rfl⟩ := named hd _ hs
  rw [TypeRef.close] at hc
  cases ha : TypeRef.closeAll (Substitution.ofType args).resolver arguments with
  | error e => rw [ha] at hc; cases hc
  | ok closed =>
    rw [ha] at hc
    cases hc
    exact ⟨d, args, e, closed, rfl, rfl, _, hd, arguments, hs⟩

/-- Only from named types are there steps up that do not lead into the type itself. -/
theorem acc_above (declared : ∀ d args, Acc host.Above (.named d args)) : ∀ a, Acc host.Above a
  | .named d args => declared d args
  | .nullable inner => by
    refine ⟨_, fun b above => ?_⟩
    obtain ⟨⟨⟩⟩ | _ := above
    exact acc_above declared inner
  | .primitive _ | .array .. | .tuple _ => ⟨_, fun b above => by obtain ⟨⟨⟩⟩ | _ := above⟩

/-- Where all supertypes are named types, it is enough that there is no cycle among the
definitions, whatever the arguments are that the types pass on. -/
theorem wellFounded_above (acyclic : WellFounded host.DefinitionAbove)
    (named : host.NamedSupertypes) : WellFounded host.Above := by
  have declared (d : TypeId) : ∀ args, Acc host.Above (.named d args) := by
    induction d using acyclic.induction with
    | _ d ih =>
      intro args
      refine ⟨_, fun b above => ?_⟩
      obtain declares | _ := above
      obtain ⟨_, _, e, args', ⟨⟩, rfl, up⟩ := named.declares declares
      exact ih e up args'
  exact ⟨acc_above declared⟩

/-- The walk comes to an answer. -/
def Ends (host : Host σ) (a b : ClosedType) : Prop := ∃ n r, host.isAssignable n a b = .ok r

/-- In `n` steps the walk comes to an answer on one supertype of a type with these arguments. -/
def Answers (host : Host σ) (args : List ClosedType) (b : ClosedType) (n : Nat) (s : TypeRef) : Prop :=
  ∃ c, s.close (Substitution.ofType args).resolver = .ok c ∧ ∃ r, host.isAssignable n c b = .ok r

theorem Answers.more {args : List ClosedType} {b : ClosedType} {n m : Nat} {s : TypeRef} (hle : n ≤ m)
    (h : host.Answers args b n s) : host.Answers args b m s := by
  obtain ⟨c, hc, r, hr⟩ := h
  exact ⟨c, hc, r, isAssignable_more hle hr⟩

namespace Ends

variable {a b : ClosedType}

/-- An answer at once, or after what is asked further on. -/
theorem unless_alike (h : ¬(a = b ∨ b.isObject = true) →
    ∃ n r, host.isAssignable (n + 1) a b = .ok r) : host.Ends a b := by
  by_cases alike : a = b ∨ b.isObject = true
  · exact ⟨1, true, by simp only [isAssignable, if_pos alike]⟩
  · obtain ⟨n, r, hr⟩ := h alike
    exact ⟨n + 1, r, hr⟩

theorem fromNullable (h : host.Ends a b) : host.Ends (.nullable a) b := by
  obtain ⟨n, r, hr⟩ := h
  exact unless_alike fun unlike => ⟨n, r, by simp only [isAssignable, if_neg unlike, hr]⟩

theorem toNullable (ha : ∀ inner, a ≠ .nullable inner) (h : host.Ends a b) :
    host.Ends a (.nullable b) := by
  obtain ⟨n, r, hr⟩ := h
  refine unless_alike fun unlike => ⟨n, r, ?_⟩
  cases a with
  | nullable inner => exact absurd rfl (ha inner)
  | primitive | named | array | tuple => simp only [isAssignable, if_neg unlike, hr]

theorem array {rank rank' : Nat} (h : host.Ends a b) : host.Ends (.array a rank) (.array b rank') := by
  obtain ⟨n, r, hr⟩ := h
  refine unless_alike fun unlike => ⟨n, ?_⟩
  simp only [isAssignable, if_neg unlike]
  split
  · exact ⟨r, hr⟩
  · exact ⟨false, rfl⟩

theorem tuple {as bs : List ClosedType} (h : ∀ p ∈ as.zip bs, host.Ends p.1 p.2) :
    host.Ends (.tuple as) (.tuple bs) := by
  obtain ⟨n, hn⟩ := exists_steps
    (fun n (p : ClosedType × ClosedType) => ∃ r, host.isAssignable n p.1 p.2 = .ok r)
    (fun hle ⟨r, hr⟩ => ⟨r, isAssignable_more hle hr⟩) h
  refine unless_alike fun unlike => ⟨n, ?_⟩
  simp only [isAssignable, if_neg unlike]
  split
  · exact exists_allPairs hn
  · exact ⟨false, rfl⟩

theorem named {d : TypeId} {args : List ClosedType} {descriptor : TypeDescriptor}
    (hb : ∀ inner, b ≠ .nullable inner) (hd : host.typeDescriptor d = .ok descriptor)
    (h : ∀ s ∈ descriptor.supertypes,
      ∃ c, s.close (Substitution.ofType args).resolver = .ok c ∧ host.Ends c b) :
    host.Ends (.named d args) b := by
  have each (s) (hs : s ∈ descriptor.supertypes) : ∃ n, host.Answers args b n s := by
    obtain ⟨c, hc, n, r, hr⟩ := h s hs
    exact ⟨n, c, hc, r, hr⟩
  obtain ⟨n, hn⟩ := exists_steps (host.Answers args b) Answers.more each
  have answers : ∃ r, anyOf (fun s => do
      let closed ← Stop.ofExcept (s.close (Substitution.ofType args).resolver)
      host.isAssignable n closed b) descriptor.supertypes = .ok r := by
    refine exists_anyOf fun s hs => ?_
    obtain ⟨c, hc, r, hr⟩ := hn s hs
    exact ⟨r, by rw [hc]; exact hr⟩
  obtain ⟨r, hr⟩ := answers
  refine unless_alike fun unlike => ⟨n, r, ?_⟩
  cases b with
  | nullable inner => exact absurd rfl (hb inner)
  | primitive | named | array | tuple =>
    simp only [isAssignable, if_neg unlike, hd]
    exact hr

end Ends

namespace Acyclic

variable {types : ClosedType → Prop} (h : host.Acyclic types)

include h

theorem ends_named {d : TypeId} {args : List ClosedType} {b : ClosedType}
    (hb : ∀ inner, b ≠ .nullable inner) (known : types (.named d args))
    (above : ∀ c, host.Declares (.named d args) c → types c → host.Ends c b) :
    host.Ends (.named d args) b := by
  obtain ⟨descriptor, hd, closes⟩ := h.lookup known
  refine .named hb hd fun s hs => ?_
  obtain ⟨c, hc⟩ := closes s hs
  have declares : host.Declares (.named d args) c := .intro hd hs hc
  exact ⟨c, hc, above c declares (h.supertype known declares)⟩

/-- The walk ends. The induction is on the target, and then on the way up from the source,
on which the target stays the same. -/
theorem ends (b : ClosedType) : ∀ a, types a → host.Ends a b := by
  induction hsize : sizeOf b using Nat.strongRecOn generalizing b with
  | _ size smaller =>
  subst hsize
  intro a
  induction a using h.wellFounded.induction with
  | _ a above =>
  intro known
  have unrelated (hu : ∀ n, ¬(a = b ∨ b.isObject = true) → host.isAssignable (n + 1) a b = .ok false) :
      host.Ends a b := .unless_alike fun unlike => ⟨0, false, hu 0 unlike⟩
  cases a with
  | nullable inner => exact .fromNullable (above inner .inner (h.inner known))
  | primitive p =>
    cases b with
    | nullable inner =>
      exact .toNullable (fun _ he => by cases he) (smaller _ (by simp) inner rfl _ known)
    | primitive | named | array | tuple =>
      exact unrelated fun n unlike => by simp only [isAssignable, if_neg unlike]
  | named d args =>
    cases b with
    | nullable inner =>
      exact .toNullable (fun _ he => by cases he) (smaller _ (by simp) inner rfl _ known)
    | primitive | named | array | tuple =>
      exact h.ends_named (fun _ he => by cases he) known fun c declares => above c (.declared declares)
  | array x rank =>
    cases b with
    | nullable inner =>
      exact .toNullable (fun _ he => by cases he) (smaller _ (by simp) inner rfl _ known)
    | array y rank' => exact .array (smaller _ (by simp; omega) y rfl x (h.element known))
    | primitive | named | tuple =>
      exact unrelated fun n unlike => by simp only [isAssignable, if_neg unlike]
  | tuple xs =>
    cases b with
    | nullable inner =>
      exact .toNullable (fun _ he => by cases he) (smaller _ (by simp) inner rfl _ known)
    | tuple ys =>
      refine .tuple fun p hp => ?_
      obtain ⟨hx, hy⟩ := List.of_mem_zip hp
      have below := List.sizeOf_lt_of_mem hy
      exact smaller _ (by simp; omega) p.2 rfl p.1 (h.component known p.1 hx)
    | primitive | named | array =>
      exact unrelated fun n unlike => by simp only [isAssignable, if_neg unlike]

theorem isAssignable_of_conforms {a b : ClosedType} (known : types a) (conforms : host.Conforms a b) :
    ∃ n, ∀ m, n ≤ m → host.isAssignable m a b = .ok true := by
  obtain ⟨n, r, hr⟩ := h.ends b a known
  obtain rfl := (conforms_iff hr).2 conforms
  exact ⟨n, fun m hle => isAssignable_more hle hr⟩

/-- The walk ends with an answer that further steps do not change, and what it answers is
a preorder. -/
theorem isAssignable_preorder :
    (∀ a b, types a → ∃ n r, ∀ m, n ≤ m → host.isAssignable m a b = .ok r) ∧
      (∀ a n, host.isAssignable (n + 1) a a = .ok true) ∧
      ∀ a b c n m, types a → host.isAssignable n a b = .ok true →
        host.isAssignable m b c = .ok true → ∃ k, ∀ l, k ≤ l → host.isAssignable l a c = .ok true := by
  refine ⟨fun a b known => ?_, fun a n => ?_, fun a b c n m known hab hbc => ?_⟩
  · obtain ⟨n, r, hr⟩ := h.ends b a known
    exact ⟨n, r, fun m hle => isAssignable_more hle hr⟩
  · simp [isAssignable]
  · have conforms : host.Conforms a c :=
      (conforms_of_isAssignable hab).trans (conforms_of_isAssignable hbc)
    exact h.isAssignable_of_conforms known conforms

end Acyclic

/-! ## Values -/

section values

variable {a b : ClosedType}

/-- Where bases and interfaces are named types, null goes along with a type to whatever
conforms to it, if the type takes null even where it is not taken as nullable. -/
theorem Conforms.acceptsNull (named : host.NamedSupertypes) (h : host.Conforms a b)
    (ha : a.bare.acceptsNull = true) : b.acceptsNull = true := by
  induction h with
  | same a => exact ClosedType.acceptsNull_of_bare ha
  | object | toNullable | array => rfl
  | fromNullable _ ih => exact ih ha
  | tuple => cases ha
  | inherited hd _ ih =>
    obtain ⟨_, _, e, args, rfl, rfl, -⟩ := named.declares hd
    exact ih rfl

theorem accepts_null {n : Nat} : host.accepts n .null a = .ok a.acceptsNull := rfl

theorem type?_of_accepts {n : Nat} {v : Value} (hv : v.isNull = false)
    (h : host.accepts n v a = .ok true) :
    ∃ t, v.type? = some t ∧ host.isAssignable n t a = .ok true := by
  unfold accepts at h
  cases ht : v.type? with
  | none => rw [ht, hv] at h; cases h
  | some t => rw [ht] at h; exact ⟨t, rfl, h⟩

theorem accepts_of_type? {n : Nat} {v : Value} {t : ClosedType} (ht : v.type? = some t) :
    host.accepts n v a = host.isAssignable n t a := by
  unfold accepts
  rw [ht]

theorem Conforms.bare : ∀ a : ClosedType, host.Conforms a a.bare
  | .nullable inner => .fromNullable (Conforms.bare inner)
  | .primitive p => .same (.primitive p)
  | .named d args => .same (.named d args)
  | .array element rank => .same (.array element rank)
  | .tuple elements => .same (.tuple elements)

/-- What is accepted as one type is accepted as every type that this one is assignable to,
null excepted: with null, it is so for the types exactly that accept it even where they
are not taken as nullable. -/
theorem Acyclic.accepts_of_isAssignable {types : ClosedType → Prop} (h : host.Acyclic types)
    (named : host.NamedSupertypes) :
    (∀ v a b n m, (∀ t, v.type? = some t → types t) → v.isNull = false →
      host.accepts n v a = .ok true → host.isAssignable m a b = .ok true →
      ∃ k, ∀ l, k ≤ l → host.accepts l v b = .ok true) ∧
    ∀ a, types a →
      ((∀ b n m, host.accepts n .null a = .ok true → host.isAssignable m a b = .ok true →
        ∀ l, host.accepts l .null b = .ok true) ↔ (a.acceptsNull = true → a.bare.acceptsNull = true)) := by
  refine ⟨fun v a b n m known hv accepted assignable => ?_, fun a known => ⟨fun along ha => ?_, ?_⟩⟩
  · obtain ⟨t, ht, found⟩ := type?_of_accepts hv accepted
    have conforms : host.Conforms t b :=
      (conforms_of_isAssignable found).trans (conforms_of_isAssignable assignable)
    obtain ⟨k, hk⟩ := h.isAssignable_of_conforms (known t ht) conforms
    exact ⟨k, fun l hle => (accepts_of_type? ht).trans (hk l hle)⟩
  · obtain ⟨k, hk⟩ := h.isAssignable_of_conforms known (Conforms.bare a)
    have accepted := along a.bare 0 k (by rw [accepts_null, ha]) (hk k (Nat.le_refl k)) 0
    rwa [accepts_null, Except.ok.injEq] at accepted
  · intro ha b n m accepted assignable l
    rw [accepts_null, Except.ok.injEq] at accepted ⊢
    exact (conforms_of_isAssignable assignable).acceptsNull named (ha accepted)

end values

end Host

/-! ## A program's types -/

namespace Scripted.Program

/-- Bases and interfaces are named types of definitions with lower numbers. -/
def isLayered (p : Program) : Bool :=
  p.types.all fun t => t.descriptor.supertypes.all fun
    | .named e _ => e.raw < t.descriptor.definition.raw
    | _ => false

variable {p : Program}

theorem of_typeDescriptor {d : TypeId} {descriptor : TypeDescriptor}
    (h : p.host.typeDescriptor d = .ok descriptor) :
    ∃ t ∈ p.types, t.descriptor = descriptor ∧ descriptor.definition = d := by
  simp only [host, type?] at h
  split at h
  · rename_i t ht
    cases h
    exact ⟨t, List.mem_of_find?_eq_some ht, rfl, by simpa using List.find?_some ht⟩
  · cases h

theorem supertype_of_isLayered (h : p.isLayered = true) {d : TypeId} {descriptor : TypeDescriptor}
    (hd : p.host.typeDescriptor d = .ok descriptor) {s : TypeRef} (hs : s ∈ descriptor.supertypes) :
    ∃ e args, s = .named e args ∧ e.raw < d.raw := by
  obtain ⟨t, ht, rfl, rfl⟩ := of_typeDescriptor hd
  have layered := List.all_eq_true.1 (List.all_eq_true.1 h t ht) s hs
  cases s with
  | named e args => exact ⟨e, args, rfl, by simpa using layered⟩
  | primitive | param | array | tuple | nullable => cases layered

theorem namedSupertypes_of_isLayered (h : p.isLayered = true) : p.host.NamedSupertypes := by
  intro d descriptor hd s hs
  obtain ⟨e, args, rfl, -⟩ := supertype_of_isLayered h hd hs
  exact ⟨e, args, rfl⟩

/-- Numbers go down on every step up. -/
theorem wellFounded_of_isLayered (h : p.isLayered = true) : WellFounded p.host.DefinitionAbove := by
  have lower {e d : TypeId} (above : p.host.DefinitionAbove e d) : e.raw < d.raw := by
    obtain ⟨descriptor, hd, args, hs⟩ := above
    obtain ⟨_, _, he, lt⟩ := supertype_of_isLayered h hd hs
    cases he
    exact lt
  exact Subrelation.wf lower (InvImage.wf TypeId.raw Nat.lt_wfRel.wf)

end Scripted.Program

/-- An interface that is generic, a generic class with an interface whose argument is an
array of its parameter, and a class over that one. -/
def namesOverBox : Scripted.Program where
  types :=
    [⟨⟨⟨1⟩, "Source", .interfaceType, true, 1, none, [], []⟩, .fresh⟩,
      ⟨⟨⟨2⟩, "Box", .classType, true, 1, none, [.named ⟨1⟩ [.array (.param ⟨.type, 0⟩) 1]], []⟩, .fresh⟩,
      ⟨⟨⟨3⟩, "Names", .classType, true, 0, some (.named ⟨2⟩ [.primitive .text]),
        [.named ⟨1⟩ [.primitive .object]], []⟩, .fresh⟩]
  members := []

namespace namesOverBox

def source (argument : ClosedType) : ClosedType := .named ⟨1⟩ [argument]
def box (argument : ClosedType) : ClosedType := .named ⟨2⟩ [argument]
def names : ClosedType := .named ⟨3⟩ []

/-- Types with as many arguments as their definitions have parameters, arrays of them and
nullable ones. -/
inductive Known : ClosedType → Prop where
  | names : Known names
  | box (a) : Known (box a)
  | source (a) : Known (source a)
  | array {a} (rank) : Known a → Known (.array a rank)
  | nullable {a} : Known a → Known (.nullable a)

theorem acyclic : namesOverBox.host.Acyclic Known where
  wellFounded := Host.wellFounded_above (Scripted.Program.wellFounded_of_isLayered rfl)
    (Scripted.Program.namedSupertypes_of_isLayered rfl)
  lookup known := by
    cases known with
    | names => exact ⟨_, rfl, List.forall_mem_cons.2 ⟨⟨_, rfl⟩, List.forall_mem_cons.2 ⟨⟨_, rfl⟩, nofun⟩⟩⟩
    | box a => exact ⟨_, rfl, List.forall_mem_cons.2 ⟨⟨_, rfl⟩, nofun⟩⟩
    | source a => exact ⟨_, rfl, nofun⟩
  supertype known above := by
    obtain ⟨hd, hs, hc⟩ := above
    cases known with
    | names =>
      cases hd
      obtain _ | ⟨_, _ | ⟨_, ⟨⟩⟩⟩ := hs
      · cases hc
        exact .box (.primitive .text)
      · cases hc
        exact .source .object
    | box a =>
      cases hd
      obtain _ | ⟨_, ⟨⟩⟩ := hs
      cases hc
      exact .source (.array a 1)
    | source a =>
      cases hd
      cases hs
  inner known := by cases known; assumption
  element known := by cases known; assumption
  component known := nomatch known

/-- An array of the class goes as an array of the interface, through an array of what the
class is declared to be. -/
theorem arrays_preorder :
    let arrays := ClosedType.array names 1
    let nullable := ClosedType.nullable arrays
    let boxes := ClosedType.array (box (.primitive .text)) 1
    let sources := ClosedType.array (.nullable (source (.array (.primitive .text) 1))) 1
    namesOverBox.host.Acyclic Known ∧
      namesOverBox.host.isAssignable 1 arrays arrays = .ok true ∧
      (∃ n r, ∀ m, n ≤ m → namesOverBox.host.isAssignable m nullable sources = .ok r) ∧
      namesOverBox.host.isAssignable 4 nullable boxes = .ok true ∧
      namesOverBox.host.isAssignable 4 boxes sources = .ok true ∧
      ∃ k, ∀ l, k ≤ l → namesOverBox.host.isAssignable l nullable sources = .ok true := by
  intro arrays nullable boxes sources
  obtain ⟨terminates, refl, trans⟩ := acyclic.isAssignable_preorder
  have known : Known nullable := .nullable (.array 1 .names)
  have first : namesOverBox.host.isAssignable 4 nullable boxes = .ok true := rfl
  have second : namesOverBox.host.isAssignable 4 boxes sources = .ok true := rfl
  exact ⟨acyclic, refl arrays 0, terminates nullable sources known, first, second,
    trans nullable boxes sources 4 4 known first second⟩

/-- An object of the class that is accepted as a nullable box is accepted as a source, and
so is null; null as a nullable integer is not accepted as an integer. -/
theorem names_accepted :
    let o : Value := .object ⟨0, names⟩
    let box := ClosedType.nullable (box (.primitive .text))
    let source := source (.array (.primitive .text) 1)
    let host := namesOverBox.host
    host.Acyclic Known ∧ host.NamedSupertypes ∧ host.accepts 4 o box = .ok true ∧
      host.isAssignable 4 box source = .ok true ∧
      (∃ k, ∀ l, k ≤ l → host.accepts l o source = .ok true) ∧
      ∀ l, host.accepts l .null source = .ok true := by
  intro o box source host
  have named : host.NamedSupertypes := Scripted.Program.namedSupertypes_of_isLayered rfl
  obtain ⟨values, null⟩ := acyclic.accepts_of_isAssignable named
  have known : ∀ t, o.type? = some t → Known t := by
    rintro t ⟨⟩
    exact .names
  have accepted : host.accepts 4 o box = .ok true := rfl
  have assignable : host.isAssignable 4 box source = .ok true := rfl
  exact ⟨acyclic, named, accepted, assignable, values o box source 4 4 known rfl accepted assignable,
    (null box (.nullable (.box _))).2 (fun _ => rfl) source 0 4 rfl assignable⟩

/-- A nullable integer takes null and is assignable to an integer, which does not. -/
theorem nullableInteger_not_accepted :
    let host := namesOverBox.host
    let integer := ClosedType.primitive .i32
    ∀ n, host.accepts n .null (.nullable integer) = .ok true ∧
      host.isAssignable (n + 2) (.nullable integer) integer = .ok true ∧
      host.accepts n .null integer = .ok false := by
  intro host integer n
  refine ⟨rfl, ?_, rfl⟩
  simp [Host.isAssignable, integer]

end namesOverBox

end OpTree
