/-
How bodies come into a member table. The walk over a type and its bases comes down to
one list of bodies to be registered, in order (`Registration`): a body takes a number
unless its member is claimed, and either way the number goes on to the member that it
overrides. `MemberTable.Holds` says what that has come to after some of them: each symbol
stands for the first body of which it is known by then that it overrides the symbol, in
some number of steps.

For that to stay so with every further body, a body has to be registered before that
which it overrides, which no other may override; `Registration.Ordered` says this of a
list.
-/
import Mathlib.Logic.Relation
import OpTree.Proofs.Growth

namespace OpTree

/-- A member that has a body to be registered, if it has one. -/
structure Registration where
  /-- The type that declares it. -/
  context : ClosedType
  symbol : SymbolId
  overrides : Option SymbolId

/-- One of the members overrides `b` and goes by `a`. -/
def Registration.Edge (rs : List Registration) (a b : SymbolId) : Prop :=
  ∃ r ∈ rs, r.symbol = a ∧ r.overrides = some b

/-- A member stands for those that it overrides, in any number of steps. -/
def Registration.Reaches (rs : List Registration) : SymbolId → SymbolId → Prop :=
  Relation.ReflTransGen (Registration.Edge rs)

/-- The body of a member, as it is registered. -/
def Host.entryOf {σ : Type} (host : Host σ) (r : Registration) : Option RegistryEntry :=
  (host.tree r.symbol).map fun tree => ⟨r.context, tree, r.symbol⟩

open Classical in
/-- The first body among some that reaches a symbol. -/
noncomputable def Host.provider {σ : Type} (host : Host σ) (reaches : SymbolId → SymbolId → Prop)
    (s : SymbolId) (rs : List Registration) : Option RegistryEntry :=
  rs.findSome? fun r => if reaches r.symbol s then host.entryOf r else none

/-- The body that a symbol stands for. -/
def MemberTable.bodyOf (table : MemberTable) (registry : Registry) (s : SymbolId) :
    Option RegistryEntry :=
  (table.lookup s).bind registry.get?

/-- After some members, each symbol stands for the first body among them that reaches
it. -/
structure MemberTable.Holds {σ : Type} (host : Host σ) (done : List Registration)
    (table : MemberTable) (registry : Registry) : Prop where
  entry : ∀ s, table.bodyOf registry s = host.provider (Registration.Reaches done) s done
  registered : ∀ {s id}, table.lookup s = some id → ∃ e, registry.get? id = some e

/-- The next member can be registered after the others: what it overrides has not been,
and is overridden by no other. -/
structure Registration.Next (done : List Registration) (r : Registration) : Prop where
  ahead : ∀ x ∈ done ++ [r], r.overrides ≠ some x.symbol
  alone : ∀ x ∈ done, ∀ o, r.overrides = some o → x.overrides = some o → x.symbol = r.symbol
  same : ∀ x ∈ done, x.symbol = r.symbol → x.overrides = r.overrides

namespace Registration

variable {done : List Registration} {r : Registration} {a s o : SymbolId}

theorem Edge.mono {rs rs' : List Registration} (hs : ∀ r ∈ rs, r ∈ rs') {a b : SymbolId}
    (h : Edge rs a b) : Edge rs' a b := by
  obtain ⟨r, hr, ha, hb⟩ := h
  exact ⟨r, hs r hr, ha, hb⟩

theorem Reaches.mono {rs rs' : List Registration} (hs : ∀ r ∈ rs, r ∈ rs') {a b : SymbolId}
    (h : Reaches rs a b) : Reaches rs' a b :=
  Relation.ReflTransGen.mono (fun _ _ => Edge.mono hs) _ _ h

namespace Next

variable (h : Next done r)

include h

/-- Nothing is known yet of what the next member's own target overrides. -/
theorem not_edge (ho : r.overrides = some o) (b : SymbolId) : ¬Edge (done ++ [r]) o b := by
  rintro ⟨x, hx, rfl, -⟩
  exact h.ahead x hx ho

/-- One more member makes a difference to what it overrides, and to no other symbol. -/
theorem reaches_iff : Reaches (done ++ [r]) a s ↔
    Reaches done a s ∨ r.overrides = some s ∧ Reaches done a r.symbol := by
  constructor
  · intro hr
    induction hr with
    | refl => exact .inl .refl
    | @tail b c _ hbc ih =>
      rcases ih with ih | ⟨ho, -⟩
      · obtain ⟨x, hx, hb, hc⟩ := hbc
        rcases List.mem_append.1 hx with hx | hx
        · exact .inl (ih.tail ⟨x, hx, hb, hc⟩)
        · obtain rfl := List.mem_singleton.1 hx
          subst hb
          exact .inr ⟨hc, ih⟩
      · exact absurd hbc (h.not_edge ho c)
  · have mono {a b : SymbolId} (hr : Reaches done a b) : Reaches (done ++ [r]) a b :=
      hr.mono fun _ hx => List.mem_append_left _ hx
    rintro (hr | ⟨ho, hr⟩)
    · exact mono hr
    · exact (mono hr).tail ⟨r, by simp, rfl, ho⟩

/-- What overrides the target of the next member goes by the next member's symbol. -/
theorem reaches_of_target (ho : r.overrides = some o) {x : Registration} (hx : x ∈ done)
    (hr : Reaches done x.symbol o) : Reaches done x.symbol r.symbol := by
  rcases Relation.ReflTransGen.cases_tail hr with he | ⟨b, hb, y, hy, rfl, hyo⟩
  · exact absurd (ho.trans (congrArg some he)) (h.ahead x (List.mem_append_left _ hx))
  · rw [← h.alone y hy o ho hyo]
    exact hb

/-- From the next member only itself and its target are reached. -/
theorem eq_of_reaches (hs : r.overrides ≠ some s) (hr : Reaches done r.symbol s) :
    s = r.symbol := by
  rcases Relation.ReflTransGen.cases_head hr with he | ⟨b, ⟨x, hx, hxr, hxb⟩, hbs⟩
  · exact he.symm
  · have hb : r.overrides = some b := (h.same x hx hxr).symm.trans hxb
    rcases Relation.ReflTransGen.cases_head hbs with rfl | ⟨c, ⟨y, hy, hyb, -⟩, -⟩
    · exact absurd hb hs
    · exact absurd (hyb ▸ hb) (h.ahead y (List.mem_append_left _ hy))

end Next

end Registration

namespace Host

open Registration

variable {σ : Type} {host : Host σ} {done : List Registration} {r : Registration} {s o : SymbolId}

theorem provider_append (reaches : SymbolId → SymbolId → Prop) (s : SymbolId)
    (rs rs' : List Registration) : host.provider reaches s (rs ++ rs') =
      (host.provider reaches s rs).or (host.provider reaches s rs') := by
  rw [provider, provider, provider, List.findSome?_append]

theorem provider_congr {reaches reaches' : SymbolId → SymbolId → Prop} {s s' : SymbolId}
    {rs : List Registration} (h : ∀ x ∈ rs, reaches x.symbol s ↔ reaches' x.symbol s') :
    host.provider reaches s rs = host.provider reaches' s' rs := by
  induction rs with
  | nil => rfl
  | cons x rs ih =>
    have ih := ih fun y hy => h y (by simp [hy])
    have hx := h x (by simp)
    simp only [provider, List.findSome?_cons] at ih ⊢
    by_cases hr : reaches x.symbol s
    · rw [if_pos hr, if_pos (hx.1 hr), ih]
    · rw [if_neg hr, if_neg fun hr' => hr (hx.2 hr'), ih]

theorem provider_eq_none_iff {reaches : SymbolId → SymbolId → Prop} {s : SymbolId}
    {rs : List Registration} : host.provider reaches s rs = none ↔
      ∀ x ∈ rs, reaches x.symbol s → host.tree x.symbol = none := by
  simp only [provider, List.findSome?_eq_none_iff, ite_eq_right_iff, entryOf, Option.map_eq_none_iff]

theorem provider_eq_none {reaches : SymbolId → SymbolId → Prop} {s : SymbolId}
    {rs : List Registration} (h : ∀ x ∈ rs, ¬reaches x.symbol s) :
    host.provider reaches s rs = none :=
  provider_eq_none_iff.2 fun x hx hr => absurd hr (h x hx)

theorem exists_of_provider {reaches : SymbolId → SymbolId → Prop} {s : SymbolId}
    {rs : List Registration} {e : RegistryEntry} (h : host.provider reaches s rs = some e) :
    ∃ x ∈ rs, reaches x.symbol s ∧ host.entryOf x = some e := by
  obtain ⟨x, hx, he⟩ := List.exists_of_findSome?_eq_some h
  split at he
  · rename_i hr
    exact ⟨x, hx, hr, he⟩
  · cases he

theorem provider_singleton {reaches : SymbolId → SymbolId → Prop} (h : reaches r.symbol s) :
    host.provider reaches s [r] = host.entryOf r := by
  simp only [provider, List.findSome?_cons, List.findSome?_nil, if_pos h]
  cases host.entryOf r <;> rfl

/-! ## One more member -/

variable (h : Next done r)

include h

theorem provider_other (hs : s ≠ r.symbol) (ho : r.overrides ≠ some s) :
    host.provider (Reaches (done ++ [r])) s (done ++ [r]) =
      host.provider (Reaches done) s done := by
  have same (a : SymbolId) : Reaches (done ++ [r]) a s ↔ Reaches done a s :=
    h.reaches_iff.trans (or_iff_left fun hr => ho hr.1)
  have new : ¬Reaches done r.symbol s := fun hr => hs (h.eq_of_reaches ho hr)
  have unprovided : host.provider (Reaches (done ++ [r])) s [r] = none :=
    provider_eq_none fun x hx => by rw [List.mem_singleton.1 hx, same]; exact new
  rw [provider_append, provider_congr fun x _ => same x.symbol, unprovided, Option.or_none]

theorem provider_self : host.provider (Reaches (done ++ [r])) r.symbol (done ++ [r]) =
    (host.provider (Reaches done) r.symbol done).or (host.entryOf r) := by
  have ho : r.overrides ≠ some r.symbol := h.ahead r (by simp)
  have same (a : SymbolId) : Reaches (done ++ [r]) a r.symbol ↔ Reaches done a r.symbol :=
    h.reaches_iff.trans (or_iff_left fun hr => ho hr.1)
  rw [provider_append, provider_congr fun x _ => same x.symbol, provider_singleton .refl]

theorem provider_target (ho : r.overrides = some o) :
    host.provider (Reaches (done ++ [r])) o (done ++ [r]) =
      (host.provider (Reaches done) r.symbol done).or (host.entryOf r) := by
  have through (x : Registration) (hx : x ∈ done) :
      Reaches (done ++ [r]) x.symbol o ↔ Reaches done x.symbol r.symbol := by
    rw [h.reaches_iff]
    refine ⟨fun hr => hr.elim (h.reaches_of_target ho hx) And.right, fun hr => .inr ⟨ho, hr⟩⟩
  have new : Reaches (done ++ [r]) r.symbol o := h.reaches_iff.2 (.inr ⟨ho, .refl⟩)
  rw [provider_append, provider_congr through, provider_singleton new]

/-- Before, it was provided in the same way or not at all. -/
theorem provider_target_before (ho : r.overrides = some o) :
    host.provider (Reaches done) o done = none ∨
      host.provider (Reaches done) o done = host.provider (Reaches done) r.symbol done := by
  by_cases he : Registration.Edge done r.symbol o
  · refine .inr (provider_congr fun x hx => ⟨h.reaches_of_target ho hx, fun hr => hr.tail he⟩)
  · refine .inl (provider_eq_none fun x hx hr => ?_)
    rcases Relation.ReflTransGen.cases_tail hr with hx' | ⟨b, -, y, hy, rfl, hyo⟩
    · exact h.ahead x (List.mem_append_left _ hx) (ho.trans (congrArg some hx'))
    · exact he ⟨y, hy, h.alone y hy o ho hyo, hyo⟩

end Host

/-! ## Tables and registries -/

namespace MemberTable

variable (t : MemberTable) (registry : Registry)

theorem lookup_claim (s s' : SymbolId) (id : OperationId) :
    (t.claim s id).lookup s' = if s = s' then some ((t.lookup s').getD id) else t.lookup s' := by
  simp only [claim, lookup, Table.insertIfNew]
  by_cases hs : s = s'
  · subst hs
    rw [if_pos rfl]
    cases ht : t.slots.get? s with
    | none => exact Table.get?_insert_self ..
    | some id' => exact ht
  · rw [if_neg hs]
    split
    · rfl
    · exact Table.get?_insert_other _ hs _

theorem lookup_claimOption (o : Option SymbolId) (s : SymbolId) (id : OperationId) :
    (t.claimOption o id).lookup s =
      if o = some s then some ((t.lookup s).getD id) else t.lookup s := by
  cases o with
  | none => rfl
  | some s' => simp only [claimOption, lookup_claim, Option.some.injEq]

@[simp] theorem type_claimOption (o : Option SymbolId) (id : OperationId) :
    (t.claimOption o id).type = t.type := by
  cases o <;> rfl

end MemberTable

namespace Registry

variable (registry : Registry) (entry : RegistryEntry)

@[simp] theorem get?_register_self : (registry.register entry).2.get? (registry.register entry).1 =
    some entry := by
  simp [register, get?]

theorem get?_register_of {id : OperationId} {e : RegistryEntry} (h : registry.get? id = some e) :
    (registry.register entry).2.get? id = some e := by
  simp only [register, get?] at h ⊢
  obtain ⟨hlt, -⟩ := Array.getElem?_eq_some_iff.1 h
  rw [Array.getElem?_push_lt hlt, ← Array.getElem?_eq_getElem hlt, h]

end Registry

namespace MemberTable.Holds

open Registration

variable {σ : Type} {host : Host σ} {done : List Registration} {r : Registration}
  {table : MemberTable} {registry : Registry}

theorem empty (host : Host σ) (type : ClosedType) (registry : Registry) :
    (MemberTable.empty type).Holds host [] registry where
  entry _ := rfl
  registered h := by cases h

variable (h : Next done r) (held : table.Holds host done registry)

include held

theorem entry_of_lookup {s : SymbolId} {id : OperationId} (hl : table.lookup s = some id) :
    registry.get? id = host.provider (Reaches done) s done := by
  rw [← held.entry s, bodyOf, hl]
  rfl

theorem later {registry' : Registry}
    (more : ∀ {id e}, registry.get? id = some e → registry'.get? id = some e) :
    table.Holds host done registry' := by
  refine ⟨fun s => ?_, fun {s id} hl => ?_⟩
  · rw [← held.entry s, bodyOf, bodyOf]
    cases hl : table.lookup s with
    | none => rfl
    | some id =>
      obtain ⟨e, he⟩ := held.registered hl
      simp only [Option.bind_some, he, more he]
  · obtain ⟨e, he⟩ := held.registered hl
    exact ⟨e, more he⟩

theorem lookup_isSome_iff {s : SymbolId} : (table.lookup s).isSome ↔
    ∃ e, host.provider (Reaches done) s done = some e := by
  rw [← held.entry s, bodyOf]
  cases hl : table.lookup s with
  | none => simp
  | some id => simpa using held.registered hl

theorem lookup_of_provider {s : SymbolId} (hp : host.provider (Reaches done) s done = none) :
    table.lookup s = none := by
  cases hl : table.lookup s with
  | none => rfl
  | some id =>
    obtain ⟨e, he⟩ := held.registered hl
    rw [held.entry_of_lookup hl, hp] at he
    cases he

include h

/-- The member is claimed: its body is also that of what it overrides. -/
theorem claimed {id : OperationId} (hl : table.lookup r.symbol = some id) :
    (table.claimOption r.overrides id).Holds host (done ++ [r]) registry := by
  obtain ⟨e, he⟩ := held.registered hl
  have provided : host.provider (Reaches done) r.symbol done = some e :=
    (held.entry_of_lookup hl).symm.trans he
  have target {o id'} (ho : r.overrides = some o) (hl' : table.lookup o = some id') :
      registry.get? id' = some e := by
    obtain ⟨e', he'⟩ := held.registered hl'
    have now := (held.entry_of_lookup hl').symm.trans he'
    rcases Host.provider_target_before h ho with hn | hs
    · rw [now] at hn; cases hn
    · rw [he', ← now, hs, provided]
  refine ⟨fun s => ?_, fun {s id'} hl' => ?_⟩
  · rw [bodyOf, lookup_claimOption]
    by_cases ho : r.overrides = some s
    · rw [if_pos ho, Host.provider_target h ho, provided, Option.some_or]
      cases hs : table.lookup s with
      | none => exact he
      | some id' => exact target ho hs
    · rw [if_neg ho]
      by_cases hs : s = r.symbol
      · subst hs
        rw [Host.provider_self h, provided, Option.some_or, hl]
        exact he
      · rw [Host.provider_other h hs ho]
        exact held.entry s
  · rw [lookup_claimOption] at hl'
    split at hl'
    · rename_i ho
      cases hs : table.lookup s with
      | none => rw [hs] at hl'; cases hl'; exact ⟨e, he⟩
      | some id'' => rw [hs] at hl'; cases hl'; exact ⟨e, target ho hs⟩
    · exact held.registered hl'

/-- The member has no body, and none is known of. -/
theorem bodiless (hl : table.lookup r.symbol = none) (ht : host.tree r.symbol = none) :
    table.Holds host (done ++ [r]) registry := by
  have unprovided : host.provider (Reaches done) r.symbol done = none := by
    rw [← held.entry, bodyOf, hl]; rfl
  have own : host.entryOf r = none := by rw [Host.entryOf, ht]; rfl
  refine ⟨fun s => ?_, held.registered⟩
  by_cases ho : r.overrides = some s
  · rw [Host.provider_target h ho, unprovided, own, held.entry]
    rcases Host.provider_target_before h ho with hn | hs
    · exact hn
    · exact hs.trans unprovided
  · by_cases hs : s = r.symbol
    · subst hs
      rw [Host.provider_self h, unprovided, own, held.entry, unprovided]
      rfl
    · rw [Host.provider_other h hs ho, held.entry]

/-- The member's body is registered. -/
theorem registers {tree : Node} (hl : table.lookup r.symbol = none)
    (ht : host.tree r.symbol = some tree) :
    let made := registry.register ⟨r.context, tree, r.symbol⟩
    ((table.claim r.symbol made.1).claimOption r.overrides made.1).Holds host (done ++ [r])
      made.2 := by
  intro made
  let e : RegistryEntry := ⟨r.context, tree, r.symbol⟩
  have new : made.2.get? made.1 = some e := registry.get?_register_self e
  have unprovided : host.provider (Reaches done) r.symbol done = none := by
    rw [← held.entry, bodyOf, hl]; rfl
  have own : host.entryOf r = some e := by rw [Host.entryOf, ht]; rfl
  have target {o} (ho : r.overrides = some o) : table.lookup o = none := by
    refine held.lookup_of_provider ?_
    rcases Host.provider_target_before h ho with hn | hs
    · exact hn
    · exact hs.trans unprovided
  have irreflexive : r.overrides ≠ some r.symbol := h.ahead r (by simp)
  have lookup (s : SymbolId) :
      ((table.claim r.symbol made.1).claimOption r.overrides made.1).lookup s =
        if r.overrides = some s ∨ s = r.symbol then some made.1 else table.lookup s := by
    rw [lookup_claimOption, lookup_claim]
    by_cases ho : r.overrides = some s
    · have hs : r.symbol ≠ s := fun hs => irreflexive (ho.trans (congrArg some hs.symm))
      rw [if_pos ho, if_neg hs, if_pos (.inl ho), target ho]
      rfl
    · by_cases hs : s = r.symbol
      · subst hs
        rw [if_neg ho, if_pos rfl, if_pos (.inr rfl), hl]
        rfl
      · rw [if_neg ho, if_neg (Ne.symm hs), if_neg (not_or.2 ⟨ho, hs⟩)]
  refine ⟨fun s => ?_, fun {s id'} hl' => ?_⟩
  · rw [bodyOf, lookup]
    by_cases ho : r.overrides = some s
    · rw [if_pos (.inl ho), Host.provider_target h ho, unprovided, own]
      exact new
    · by_cases hs : s = r.symbol
      · subst hs
        rw [if_pos (.inr rfl), Host.provider_self h, unprovided, own]
        exact new
      · rw [if_neg (not_or.2 ⟨ho, hs⟩), Host.provider_other h hs ho, ← held.entry s, bodyOf]
        cases hs : table.lookup s with
        | none => rfl
        | some id' =>
          obtain ⟨e', he'⟩ := held.registered hs
          simp only [Option.bind_some, he']
          exact registry.get?_register_of e he'
  · rw [lookup] at hl'
    split at hl'
    · cases hl'
      exact ⟨e, new⟩
    · obtain ⟨e', he'⟩ := held.registered hl'
      exact ⟨e', registry.get?_register_of e he'⟩

end MemberTable.Holds

/-! ## The walk -/

/-- Each of the members can be registered after those before it. -/
def Registration.Ordered (rs : List Registration) : Prop :=
  ∀ done r rest, rs = done ++ r :: rest → Registration.Next done r

namespace Context

open Registration

variable {σ : Type} (c : Context σ)

/-- Register the bodies of some members, in order. -/
def registerAll : List Registration → MemberTable → Run (World σ) MemberTable
  | [], table => pure table
  | r :: rs, table => do
    let table ← c.registerBody r.context r.symbol r.overrides table
    registerAll rs table

theorem registerAll_append (rs rs' : List Registration) (table : MemberTable) :
    c.registerAll (rs ++ rs') table = c.registerAll rs table >>= c.registerAll rs' := by
  induction rs generalizing table with
  | nil => rfl
  | cons r rs ih =>
    simp only [List.cons_append, registerAll, Run.bind_assoc]
    congr 1
    funext table
    exact ih table

theorem registerBody_holds {done : List Registration} {r : Registration} {table : MemberTable}
    {w : World σ} (h : Next done r)
    (held : table.Holds c.host done (w.session c.session).registry) :
    ∃ table' w', c.registerBody r.context r.symbol r.overrides table w = (.ok table', w') ∧
      table'.type = table.type ∧
      table'.Holds c.host (done ++ [r]) (w'.session c.session).registry := by
  simp only [registerBody]
  cases hl : table.lookup r.symbol with
  | some id =>
    exact ⟨_, w, rfl, table.type_claimOption _ _, held.claimed h hl⟩
  | none =>
    cases ht : c.host.tree r.symbol with
    | none => exact ⟨table, w, rfl, rfl, held.bodiless h hl ht⟩
    | some tree =>
      refine ⟨_, _, rfl, MemberTable.type_claimOption _ _ _, ?_⟩
      simp only [World.session_mapSession_self]
      exact held.registers h hl ht

/-- The whole list is registered, and never fails. -/
theorem registerAll_holds {done rs : List Registration} {table : MemberTable} {w : World σ}
    (h : Ordered (done ++ rs)) (held : table.Holds c.host done (w.session c.session).registry) :
    ∃ table' w', c.registerAll rs table w = (.ok table', w') ∧ table'.type = table.type ∧
      table'.Holds c.host (done ++ rs) (w'.session c.session).registry := by
  induction rs generalizing done table w with
  | nil => exact ⟨table, w, rfl, rfl, by rwa [List.append_nil]⟩
  | cons r rs ih =>
    obtain ⟨t, w₁, hr, htype, held⟩ := c.registerBody_holds (h done r rs rfl) held
    have split : done ++ r :: rs = (done ++ [r]) ++ rs := by simp
    rw [split] at h ⊢
    obtain ⟨t', w₂, hrs, htype', held⟩ := ih h held
    exact ⟨t', w₂, (Run.bind_ok hr).trans hrs, htype'.trans htype, held⟩

end Context

end OpTree
