/-
Closing composes. A type that mentions no parameter closes where nothing is known of parameters,
and only such a type does; it closes to the same type everywhere. To close a type by closed
arguments is to put the arguments, still open, in the place of its parameters and to close the
whole (`TypeRef.close_instantiate`).

So there are two ways from a type to the base of its base. The walk of a member table closes
the base of each level by the arguments of the level before; or bases are put into each other as
they are written, and closed at the end. Both come to the same types (`Host.closing_composes`).
-/
import Mathlib.Data.List.Forall2
import OpTree.Proofs.ChainResolution
import OpTree.Proofs.Overrides

namespace OpTree

namespace TypeRef

mutual

/-- The type with types in the place of its parameters. -/
def subst (f : GenericParam → TypeRef) : TypeRef → TypeRef
  | primitive p => primitive p
  | named d args => named d (substAll f args)
  | param p => f p
  | array element rank => array (element.subst f) rank
  | tuple elements => tuple (substAll f elements)
  | nullable inner => nullable (inner.subst f)

def substAll (f : GenericParam → TypeRef) : List TypeRef → List TypeRef
  | [] => []
  | t :: ts => t.subst f :: substAll f ts

end

/-- The type with arguments in the place of the parameters of its definition. What has no argument
stays as it is. -/
def instantiate (args : List TypeRef) : TypeRef → TypeRef :=
  subst fun p =>
    match p.level with
    | .type => args[p.ordinal]?.getD (.param p)
    | .method => .param p

mutual

/-- Putting types in the place of parameters and closing is closing each of them in its place. -/
theorem close_subst (f : GenericParam → TypeRef) (r : Resolver) :
    ∀ t : TypeRef, (t.subst f).close r = t.close fun p => (f p).close r
  | .primitive _ => rfl
  | .named d ts => by rw [subst, close, close, closeAll_substAll f r ts]
  | .param p => by rw [subst, close]
  | .array element rank => by rw [subst, close, close, close_subst f r element]
  | .tuple ts => by rw [subst, close, close, closeAll_substAll f r ts]
  | .nullable inner => by rw [subst, close, close, close_subst f r inner]

theorem closeAll_substAll (f : GenericParam → TypeRef) (r : Resolver) :
    ∀ ts : List TypeRef, closeAll r (substAll f ts) = closeAll (fun p => (f p).close r) ts
  | [] => rfl
  | t :: ts => by rw [substAll, closeAll, closeAll, close_subst f r t, closeAll_substAll f r ts]

end

mutual

theorem isClosed_iff : ∀ t : TypeRef, t.isClosed = true ↔ t.params = []
  | .primitive _ => by simp [isClosed, params]
  | .named d ts => by rw [isClosed, params, allClosed_iff ts]
  | .param p => by simp [isClosed, params]
  | .array element rank => by rw [isClosed, params, isClosed_iff element]
  | .tuple ts => by rw [isClosed, params, allClosed_iff ts]
  | .nullable inner => by rw [isClosed, params, isClosed_iff inner]

theorem allClosed_iff : ∀ ts : List TypeRef, allClosed ts = true ↔ paramsAll ts = []
  | [] => by simp [allClosed, paramsAll]
  | t :: ts => by
    simp only [allClosed, paramsAll, Bool.and_eq_true, List.append_eq_nil_iff, isClosed_iff t,
      allClosed_iff ts]

end

theorem close_of_closeAll {r : Resolver} {ts : List TypeRef} {cs : List ClosedType}
    (h : closeAll r ts = .ok cs) : List.Forall₂ (fun t c => t.close r = .ok c) ts cs := by
  induction ts generalizing cs with
  | nil => cases h; exact .nil
  | cons t ts ih =>
    rw [closeAll] at h
    cases ht : t.close r with
    | error e => rw [ht] at h; cases h
    | ok c =>
      cases hts : closeAll r ts with
      | error e => rw [ht, hts] at h; cases h
      | ok rest =>
        rw [ht, hts] at h
        cases h
        exact .cons ht (ih hts)

end TypeRef

/-! ## Closing by arguments -/

namespace Substitution

theorem exists_close_iff (args : Substitution) (t : TypeRef) :
    (∃ c, t.close args.resolver = .ok c) ↔ ∀ p ∈ t.params, args.Covers p := by
  constructor
  · intro closes
    obtain ⟨c, hc⟩ := closes
    have told := args.close_cases t
    cases missing : args.missing? t with
    | none => exact args.covers_of_missing? missing
    | some p =>
      simp only [missing, hc] at told
      cases told
  · exact args.exists_close t

theorem covers_ofType {args : List ClosedType} {p : GenericParam} :
    (ofType args).Covers p ↔ p.level = .type ∧ p.ordinal < args.length := by
  obtain ⟨level, ordinal⟩ := p
  cases level <;> simp [Covers, arguments, ofType]

theorem exists_close_nil_iff (t : TypeRef) :
    (∃ c, t.close (ofType []).resolver = .ok c) ↔ t.isClosed = true := by
  rw [exists_close_iff, TypeRef.isClosed_iff, List.eq_nil_iff_forall_not_mem]
  simp [covers_ofType]

end Substitution

namespace TypeRef

theorem close_of_isClosed {t : TypeRef} (h : t.isClosed = true) (r r' : Resolver) :
    t.close r = t.close r' := by
  have none' := (isClosed_iff t).1 h
  exact close_congr t fun p hp => by simp [none'] at hp

theorem close_instantiate {r : Resolver} {args : List TypeRef} {cs : List ClosedType}
    (h : closeAll r args = .ok cs) {t : TypeRef}
    (covered : ∀ p ∈ t.params, p.level = .type ∧ p.ordinal < args.length) :
    (t.instantiate args).close r = t.close (Substitution.ofType cs).resolver := by
  rw [instantiate, close_subst]
  refine close_congr t fun p hp => ?_
  obtain ⟨level, known⟩ := covered p hp
  have closes := close_of_closeAll h
  have known' : p.ordinal < cs.length := by rw [← closes.length_eq]; exact known
  have argument : args[p.ordinal].close r = .ok cs[p.ordinal] := closes.get known known'
  simp only [level, List.getElem?_eq_getElem known, Option.getD_some, argument]
  simp [Substitution.resolver_eq, level, Substitution.arguments, Substitution.ofType,
    GenericParam.argument, List.getElem?_eq_getElem known']

/-- The type as it is written, but for a parameter that is all of it: that is taken for the type it
stands for, since by itself it has no base. -/
def exposed (r : Resolver) : TypeRef → TypeRef
  | .param p =>
    match r p with
    | .ok c => c.toRef
    | .error _ => .param p
  | t => t

/-- Once it is exposed, what closes to a named type is written as one. -/
theorem exposed_named {r : Resolver} {t : TypeRef} {d : TypeId} {cs : List ClosedType}
    (h : t.close r = .ok (.named d cs)) :
    ∃ args, t.exposed r = .named d args ∧ closeAll r args = .ok cs := by
  cases t with
  | param p =>
    have supplied : r p = .ok (.named d cs) := h
    refine ⟨ClosedType.toRefs cs, ?_, ClosedType.closeAll_toRefs r cs⟩
    simp [exposed, supplied, ClosedType.toRef]
  | named d' args =>
    rw [close] at h
    cases ha : closeAll r args with
    | error e => rw [ha] at h; cases h
    | ok closed => rw [ha] at h; cases h; exact ⟨args, rfl, ha⟩
  | primitive p => cases h
  | array element rank =>
    rw [close] at h
    cases he : element.close r <;> rw [he] at h <;> cases h
  | tuple elements =>
    rw [close] at h
    cases he : closeAll r elements <;> rw [he] at h <;> cases h
  | nullable inner =>
    rw [close] at h
    cases he : inner.close r <;> rw [he] at h <;> cases h

end TypeRef

theorem ClosedType.eq_named_of_definition? {type : ClosedType} {d : TypeId}
    (h : type.definition? = some d) : ∃ args, type = .named d args := by
  cases type with
  | named d' args => cases h; exact ⟨args, rfl⟩
  | primitive | array | tuple | nullable => cases h

/-! ## From base to base -/

namespace Host

variable {σ : Type} (host : Host σ)

/-- The base of a type as it is written: that of its definition, with its arguments put in. -/
def baseOf? : TypeRef → Option TypeRef
  | .named d args =>
    match host.typeDescriptor d with
    | .ok descriptor => descriptor.base.map (TypeRef.instantiate args)
    | .error _ => none
  | _ => none

/-- A type and its bases as they are written, some number of types in all. -/
def bases (r : Resolver) : Nat → TypeRef → List TypeRef
  | 0, _ => []
  | n + 1, t => t.exposed r :: (host.baseOf? (t.exposed r)).elim [] (bases r n)

variable {host}

theorem bases_succ_of_none {r : Resolver} {t u : TypeRef} (n : Nat) (hu : t.exposed r = u)
    (h : host.baseOf? u = none) : host.bases r (n + 1) t = [u] := by
  simp [bases, hu, h]

theorem bases_succ_of_some {r : Resolver} {t u b : TypeRef} (n : Nat) (hu : t.exposed r = u)
    (h : host.baseOf? u = some b) : host.bases r (n + 1) t = u :: host.bases r n b := by
  simp [bases, hu, h]

/-- The types of the levels are the bases as they are written, closed in the end. -/
theorem Levels.closeAll_bases {first : Bool} {type : ClosedType} {levels : List Level}
    (walk : host.Levels first type levels) {r : Resolver} {t : TypeRef} (h : t.close r = .ok type) :
    TypeRef.closeAll r (host.bases r levels.length t) = .ok (levels.map Level.type) := by
  induction walk generalizing t with
  | unnamed | loaded => rfl
  | @root first type d descriptor hd hdesc hsym hbase =>
    obtain ⟨cs, rfl⟩ := ClosedType.eq_named_of_definition? hd
    obtain ⟨args, exposed, hargs⟩ := TypeRef.exposed_named h
    have topmost : host.baseOf? (.named d args) = none := by simp [baseOf?, hdesc, hbase]
    rw [List.length_singleton, bases_succ_of_none 0 exposed topmost]
    simp only [TypeRef.closeAll, TypeRef.close, hargs]
    rfl
  | @derived first type d descriptor base closed levels hd hdesc hsym hbase hclosed walk ih =>
    obtain ⟨cs, rfl⟩ := ClosedType.eq_named_of_definition? hd
    obtain ⟨args, exposed, hargs⟩ := TypeRef.exposed_named h
    have next : host.baseOf? (.named d args) = some (base.instantiate args) := by
      simp [baseOf?, hdesc, hbase]
    -- the walk goes on, so the arguments cover the base
    have covered : ∀ p ∈ base.params, p.level = .type ∧ p.ordinal < args.length := by
      intro p hp
      have known := ((Substitution.ofType cs).exists_close_iff base).1 ⟨closed, hclosed⟩ p hp
      rw [(TypeRef.close_of_closeAll hargs).length_eq]
      exact Substitution.covers_ofType.1 known
    have closes : (base.instantiate args).close r = .ok closed := by
      rw [TypeRef.close_instantiate hargs covered]
      exact hclosed
    rw [List.length_cons, bases_succ_of_some _ exposed next]
    simp only [TypeRef.closeAll, TypeRef.close, hargs, ih closes]
    rfl

/-- **Closing composes.** Where nothing is known of parameters just the types that mention none
close, and to what they close to everywhere. A type whose parameters are those of a definition
closes by closed arguments to what it closes to when the arguments are put in as they are written;
so the types of the levels, each closed by the arguments of the one before, are the bases that are
put into each other and closed in the end. -/
theorem closing_composes (host : Host σ) (t : TypeRef) :
    ((∃ c, t.close (Substitution.ofType []).resolver = .ok c) ↔ t.isClosed = true) ∧
    (∀ c, t.close (Substitution.ofType []).resolver = .ok c → ∀ r : Resolver, t.close r = .ok c) ∧
    (∀ (r : Resolver) args cs, TypeRef.closeAll r args = .ok cs →
      (∀ p ∈ t.params, p.level = .type ∧ p.ordinal < args.length) →
        ∃ c, t.close (Substitution.ofType cs).resolver = .ok c ∧ (t.instantiate args).close r = .ok c) ∧
    ∀ (r : Resolver) first type levels, t.close r = .ok type → host.Levels first type levels →
      TypeRef.closeAll r (host.bases r levels.length t) = .ok (levels.map Level.type) := by
  refine ⟨Substitution.exists_close_nil_iff t, fun c hc r => ?_, fun r args cs hargs covered => ?_,
    fun r first type levels closes walk => walk.closeAll_bases closes⟩
  · have closed := (Substitution.exists_close_nil_iff t).1 ⟨c, hc⟩
    rw [← hc]
    exact TypeRef.close_of_isClosed closed r _
  · have known : ∀ p ∈ t.params, (Substitution.ofType cs).Covers p := by
      intro p hp
      rw [Substitution.covers_ofType, ← (TypeRef.close_of_closeAll hargs).length_eq]
      exact covered p hp
    obtain ⟨c, hc⟩ := (Substitution.ofType cs).exists_close t known
    exact ⟨c, hc, (TypeRef.close_instantiate hargs covered).trans hc⟩

end Host

/-- A type over a pair over a box, with parameters that change places on the way. -/
def labelledPair : Scripted.Program :=
  ⟨[⟨⟨⟨1⟩, "Box", .classType, true, 1, none, [], []⟩, .fresh⟩,
      ⟨⟨⟨2⟩, "Pair", .classType, true, 2,
        some (.named ⟨1⟩ [.tuple [.param ⟨.type, 1⟩, .array (.param ⟨.type, 0⟩) 1]]), [], []⟩, .fresh⟩,
      ⟨⟨⟨3⟩, "Labelled", .classType, true, 1,
        some (.named ⟨2⟩ [.nullable (.param ⟨.type, 0⟩), .primitive .text]), [], []⟩, .fresh⟩], []⟩

/-- In a method with a parameter that stands for integers: the base of the pair closes by closed
arguments as it does with the arguments put in, and so do the bases of the type over it. -/
theorem labelledPair_composes :
    let host := labelledPair.host
    let r := (Substitution.mk [] [.primitive .i32]).resolver
    let labelled : TypeRef := .named ⟨3⟩ [.param ⟨.method, 0⟩]
    let base : TypeRef := .named ⟨1⟩ [.tuple [.param ⟨.type, 1⟩, .array (.param ⟨.type, 0⟩) 1]]
    let args : List TypeRef := [.nullable (.param ⟨.method, 0⟩), .primitive .text]
    let closed : List ClosedType := [.nullable (.primitive .i32), .primitive .text]
    TypeRef.closeAll r args = .ok closed ∧
      (∀ p ∈ base.params, p.level = .type ∧ p.ordinal < args.length) ∧
      (∃ c, base.close (Substitution.ofType closed).resolver = .ok c ∧
        (base.instantiate args).close r = .ok c) ∧
      labelled.close r = .ok (.named ⟨3⟩ [.primitive .i32]) ∧
      host.bases r 3 labelled = [labelled, .named ⟨2⟩ args, base.instantiate args] ∧
      ∃ levels, host.Levels true (.named ⟨3⟩ [.primitive .i32]) levels ∧
        TypeRef.closeAll r (host.bases r levels.length labelled) = .ok (levels.map Level.type) ∧
        levels.map Level.type = [.named ⟨3⟩ [.primitive .i32], .named ⟨2⟩ closed,
          .named ⟨1⟩ [.tuple [.primitive .text, .array (.nullable (.primitive .i32)) 1]]] := by
  intro host r labelled base args closed
  have covered : ∀ p ∈ base.params, p.level = .type ∧ p.ordinal < args.length := by decide
  have walk : host.Levels true (.named ⟨3⟩ [.primitive .i32]) _ :=
    .derived rfl rfl rfl rfl rfl (.derived rfl rfl rfl rfl rfl (.root rfl rfl rfl rfl))
  have put := (Host.closing_composes host base).2.2.1 r args closed rfl covered
  have walked := (Host.closing_composes host labelled).2.2.2 r true _ _ rfl walk
  exact ⟨rfl, covered, put, rfl, rfl, _, walk, walked, rfl⟩

end OpTree
