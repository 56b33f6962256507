/-
What member tables have. A walk registers bodies of members that the levels of its type list,
each in the type of its level, and enters a body under the symbol that it is the body of
and under the one that it overrides, while that is free. So what a table has for a symbol
is the symbol's own body, or some member of the levels overrides the symbol
(`MemberTable.Made`). This is asked of no hierarchy: the lemmas of `OpTree.Proofs.Overrides`
say which body it is where overrides are in order, and here nothing is assumed of them.

Sessions keep the tables that they have made, and bind objects to none but those. This holds
from the beginning on (`World.Tabled`), whatever is run (`Run.AgreesBy.tabled`): a table is new
in one step only, and the walk that has made it has just ended.
-/
import OpTree.Proofs.Overrides
import OpTree.Proofs.Isolation

namespace OpTree

namespace Host

variable {σ : Type} (host : Host σ)

/-- A level lists its members, and the accessors of its properties. -/
def Lists (l : Level) (m : SymbolId) : Prop :=
  m ∈ l.descriptor.members ∨
    ∃ p ∈ l.descriptor.members, ∃ d, host.member p = .ok d ∧ m ∈ d.kind.accessors

/-- Some member that the levels list overrides the symbol. -/
def Overridden (levels : List Level) (s : SymbolId) : Prop :=
  ∃ l ∈ levels, ∃ m, host.Lists l m ∧ host.overridesOf m = some s

end Host

/-- The entry is the body of a member that a level lists, in the type of the level. -/
structure RegistryEntry.Of {σ : Type} (host : Host σ) (levels : List Level) (entry : RegistryEntry) :
    Prop where
  tree : host.tree entry.symbol = some entry.tree
  listed : ∃ l ∈ levels, host.Lists l entry.symbol ∧ l.type = entry.context

/-- What the table has for a symbol is the symbol's own body, or the symbol is overridden. -/
def MemberTable.Made {σ : Type} (host : Host σ) (levels : List Level) (table : MemberTable)
    (registry : Registry) : Prop :=
  ∀ s id, table.lookup s = some id → ∃ entry, registry.get? id = some entry ∧
    entry.Of host levels ∧ (entry.symbol = s ∨ host.Overridden levels s)

namespace MemberTable.Made

variable {σ : Type} {host : Host σ} {levels : List Level} {table : MemberTable} {registry : Registry}

theorem empty (type : ClosedType) : (MemberTable.empty type).Made host levels registry := by
  intro s id h
  cases h

theorem later (h : table.Made host levels registry) {registry' : Registry}
    (more : ∀ {id e}, registry.get? id = some e → registry'.get? id = some e) :
    table.Made host levels registry' := by
  intro s id hl
  obtain ⟨entry, he, own⟩ := h s id hl
  exact ⟨entry, more he, own⟩

theorem bodyOf (h : table.Made host levels registry) {s : SymbolId} (hl : (table.lookup s).isSome) :
    ∃ entry, table.bodyOf registry s = some entry ∧ entry.Of host levels ∧
      (entry.symbol = s ∨ host.Overridden levels s) := by
  obtain ⟨id, hl⟩ := Option.isSome_iff_exists.1 hl
  obtain ⟨entry, he, own⟩ := h s id hl
  refine ⟨entry, ?_, own⟩
  simp only [MemberTable.bodyOf, hl, Option.bind_some, he]

/-- A body is entered under a symbol that it may stand for. -/
theorem claim (h : table.Made host levels registry) {s : SymbolId} {id : OperationId}
    {entry : RegistryEntry} (he : registry.get? id = some entry) (own : entry.Of host levels)
    (hs : entry.symbol = s ∨ host.Overridden levels s) :
    (table.claim s id).Made host levels registry := by
  intro s' id' hl
  rw [MemberTable.lookup_claim] at hl
  by_cases hss : s = s'
  · subst hss
    rw [if_pos rfl] at hl
    cases ht : table.lookup s with
    | none =>
      rw [ht] at hl
      cases hl
      exact ⟨entry, he, own, hs⟩
    | some id'' =>
      rw [ht] at hl
      cases hl
      exact h s id'' ht
  · rw [if_neg hss] at hl
    exact h s' id' hl

theorem claimOption (h : table.Made host levels registry) {o : Option SymbolId} {id : OperationId}
    {entry : RegistryEntry} (he : registry.get? id = some entry) (own : entry.Of host levels)
    (ho : ∀ s, o = some s → host.Overridden levels s) :
    (table.claimOption o id).Made host levels registry := by
  cases o with
  | none => exact h
  | some s => exact h.claim he own (.inr (ho s rfl))

end MemberTable.Made

/-! ## The walk -/

namespace Context

variable {σ : Type} (c : Context σ)

/-- A step of the walk enters into the table what it may have, and the table stays the
type's. -/
def Enters (levels : List Level) (step : MemberTable → Run (World σ) MemberTable) : Prop :=
  ∀ table table' w w', step table w = (.ok table', w') →
    table.Made c.host levels (w.session c.session).registry →
    table'.type = table.type ∧ table'.Made c.host levels (w'.session c.session).registry

namespace Enters

variable {c} {levels : List Level}

theorem pure : c.Enters levels Pure.pure := by
  intro table table' w w' h made
  cases h
  exact ⟨rfl, made⟩

theorem bind {step step' : MemberTable → Run (World σ) MemberTable} (h : c.Enters levels step)
    (h' : c.Enters levels step') : c.Enters levels fun table => step table >>= step' := by
  intro table table' w w' ran made
  obtain ⟨t, w₁, hr, hr'⟩ := Run.bind_eq_ok.1 ran
  obtain ⟨htype, made⟩ := h _ _ _ _ hr made
  obtain ⟨htype', made⟩ := h' _ _ _ _ hr' made
  exact ⟨htype'.trans htype, made⟩

theorem ofExcept {α : Type} {r : Except EvalError α} {step : α → MemberTable → Run (World σ) MemberTable}
    (h : ∀ a, r = .ok a → c.Enters levels (step a)) :
    c.Enters levels fun table => Run.ofExcept r >>= fun a => step a table := by
  intro table table' w w' ran made
  obtain ⟨a, w₁, answered, hr⟩ := Run.bind_eq_ok.1 ran
  obtain ⟨ha, rfl⟩ := Run.ofExcept_eq_ok.1 answered
  exact h a ha _ _ _ _ hr made

end Enters

variable {levels : List Level} {l : Level} (hl : l ∈ levels)

include hl

theorem registerBody_enters {m : SymbolId} {overrides : Option SymbolId} (hm : c.host.Lists l m)
    (ho : ∀ s, overrides = some s → c.host.overridesOf m = some s) :
    c.Enters levels (c.registerBody l.type m overrides) := by
  intro table table' w w' h made
  have overridden (s : SymbolId) (hs : overrides = some s) : c.host.Overridden levels s :=
    ⟨l, hl, m, hm, ho s hs⟩
  unfold registerBody at h
  cases claimed : table.lookup m with
  | some id =>
    simp only [claimed] at h
    cases h
    obtain ⟨entry, he, own, -⟩ := made m id claimed
    exact ⟨table.type_claimOption _ _, made.claimOption he own overridden⟩
  | none =>
    cases ht : c.host.tree m with
    | none =>
      simp only [claimed, ht] at h
      cases h
      exact ⟨rfl, made⟩
    | some tree =>
      simp only [claimed, ht, Run.bind_def, Run.modifyGet] at h
      cases h
      let entry : RegistryEntry := ⟨l.type, tree, m⟩
      have own : entry.Of c.host levels := ⟨ht, l, hl, hm, rfl⟩
      have new := (w.session c.session).registry.get?_register_self entry
      have made := made.later ((w.session c.session).registry.get?_register_of entry)
      rw [World.session_mapSession_self]
      exact ⟨MemberTable.type_claimOption _ _ _,
        (made.claim new own (.inl rfl)).claimOption new own overridden⟩

theorem registerAccessors_enters {accessors : List SymbolId}
    (listed : ∀ a ∈ accessors, c.host.Lists l a) :
    c.Enters levels (c.registerAccessors l.type accessors) := by
  induction accessors with
  | nil => exact .pure
  | cons a rest ih =>
    refine .ofExcept (r := c.host.member a) fun d hd => ?_
    refine .bind (c.registerBody_enters hl (listed a (by simp)) fun s hs => ?_)
      (ih fun b hb => listed b (by simp [hb]))
    simp only [Host.overridesOf, hd, hs]

theorem registerMember_enters (first : Bool) {m : SymbolId} (hm : m ∈ l.descriptor.members) :
    c.Enters levels (c.registerMember l.type first m) := by
  refine .ofExcept (r := c.host.member m) fun d hd => ?_
  have own (s : SymbolId) (hs : d.kind.overrides? = some s) : c.host.overridesOf m = some s := by
    simp only [Host.overridesOf, hd, hs]
  by_cases ho : d.origin ≠ .source
  · simp only [if_pos ho]
    exact .pure
  · simp only [if_neg ho]
    cases hk : d.kind with
    | method parameters returns arity isVirtual overrides =>
      refine c.registerBody_enters hl (.inl hm) fun s hs => own s ?_
      rw [hk, MemberKind.overrides?, hs]
    | constructor parameters =>
      cases first with
      | true => exact c.registerBody_enters hl (.inl hm) fun s hs => by cases hs
      | false => exact .pure
    | property type parameters getter setter =>
      refine c.registerAccessors_enters hl fun a ha => .inr ⟨m, hm, d, hd, ?_⟩
      rw [hk]
      exact ha
    | field type => exact .pure

theorem registerMembers_enters (first : Bool) {members : List SymbolId}
    (hm : ∀ m ∈ members, m ∈ l.descriptor.members) :
    c.Enters levels (c.registerMembers l.type first members) := by
  induction members with
  | nil => exact .pure
  | cons m rest ih =>
    exact .bind (c.registerMember_enters hl first (hm m (by simp)))
      (ih fun x hx => hm x (by simp [hx]))

omit hl

/-- A walk that ends has gone over all levels of the type. -/
theorem registerLevels_enters {n : Nat} {type : ClosedType} {first : Bool}
    {table table' : MemberTable} {w w' : World σ}
    (h : c.registerLevels n type first table w = (.ok table', w')) :
    ∃ levels, c.host.Levels first type levels ∧ ∀ all, (∀ l ∈ levels, l ∈ all) →
      table.Made c.host all (w.session c.session).registry →
      table'.type = table.type ∧ table'.Made c.host all (w'.session c.session).registry := by
  induction n generalizing type first table w with
  | zero => cases h
  | succ n ih =>
    unfold registerLevels at h
    cases hd : type.definition? with
    | none =>
      simp only [hd] at h
      exact ⟨[], .unnamed hd, fun all _ => Enters.pure _ _ _ _ h⟩
    | some d =>
      simp only [hd, Run.liftM_except, Run.bind_eq_ok, Run.ofExcept_eq_ok] at h
      obtain ⟨descriptor, w₁, ⟨hdesc, rfl⟩, h⟩ := h
      cases hs : descriptor.isSymbolic with
      | false =>
        rw [hs] at h
        exact ⟨[], .loaded hd hdesc hs, fun all _ => Enters.pure _ _ _ _ h⟩
      | true =>
        simp only [hs, Bool.not_true, Bool.false_eq_true, if_false, Run.bind_eq_ok] at h
        obtain ⟨t, w₂, members, h⟩ := h
        let l : Level := ⟨type, descriptor, first⟩
        have entered {all : List Level} (hl : l ∈ all) :=
          c.registerMembers_enters hl first (fun m hm => hm) _ _ _ _ members
        cases hb : descriptor.base with
        | none =>
          simp only [hb] at h
          cases h
          exact ⟨[l], .root hd hdesc hs hb, fun all hall => entered (hall l (by simp))⟩
        | some base =>
          simp only [hb, Run.bind_eq_ok, Run.ofExcept_eq_ok] at h
          obtain ⟨closed, w₃, ⟨hclosed, rfl⟩, h⟩ := h
          obtain ⟨levels, walk, rest⟩ := ih h
          refine ⟨l :: levels, .derived hd hdesc hs hb hclosed walk, fun all hall made => ?_⟩
          obtain ⟨htype, made⟩ := entered (hall l (by simp)) made
          obtain ⟨htype', made⟩ := rest all (fun l hl => hall l (by simp [hl])) made
          exact ⟨htype'.trans htype, made⟩

end Context

/-! ## The tables of a world -/

/-- The table is one that a walk of the type makes. -/
def MemberTable.Of {σ : Type} (host : Host σ) (type : ClosedType) (table : MemberTable)
    (registry : Registry) : Prop :=
  table.type = type ∧ ∃ levels, host.Levels true type levels ∧ table.Made host levels registry

theorem MemberTable.Of.later {σ : Type} {host : Host σ} {type : ClosedType} {table : MemberTable}
    {registry registry' : Registry} (h : table.Of host type registry)
    (more : ∀ {id e}, registry.get? id = some e → registry'.get? id = some e) :
    table.Of host type registry' := by
  obtain ⟨htype, levels, walk, made⟩ := h
  exact ⟨htype, levels, walk, made.later more⟩

/-- What sessions keep for a type is a table that a walk of the type has made, and objects are
bound with tables that are kept. -/
structure World.Tabled {σ : Type} (host : Host σ) (w : World σ) : Prop where
  tables : ∀ {s type table}, (w.session s).tables.get? type = some table →
    table.Of host type (w.session s).registry
  links : ∀ {o s f table}, w.link? o = some (.session s f table) →
    ∃ type, (w.session s).tables.get? type = some table

namespace World

variable {σ : Type} {host : Host σ} {w w' : World σ}

/-- What an object is bound with. -/
theorem Tabled.linked (h : w.Tabled host) {o : ObjectRef} {s : SessionId} {f : FrameId}
    {table : MemberTable} (hl : w.link? o = some (.session s f table)) :
    ∃ levels, host.Levels true table.type levels ∧
      table.Made host levels (w.session s).registry := by
  obtain ⟨type, kept⟩ := h.links hl
  obtain ⟨rfl, made⟩ := h.tables kept
  exact made

theorem Tabled.initial (state : σ) : (World.initial state).Tabled host where
  tables h := by cases h
  links h := by simp [link?, World.initial] at h

/-- The world is a later one, with tables as they have to be. -/
def Tables (host : Host σ) (w w' : World σ) : Prop := w.Grows host w' ∧ w'.Tabled host

/-- A table that is new was made by a walk that has just ended. -/
theorem Walked.made {s : SessionId} {type : ClosedType} {table : MemberTable}
    (h : w.Walked host s type table) : table.Of host type (w.session s).registry := by
  obtain ⟨c, v, rfl, rfl, walked⟩ := h
  obtain ⟨levels, walk, entered⟩ := c.registerLevels_enters walked
  obtain ⟨htype, made⟩ := entered levels (fun _ hl => hl) (.empty type)
  exact ⟨htype, levels, walk, made⟩

namespace Tabled

variable (h : w.Tabled host)

include h

/-- No table is new, and no object is bound. -/
theorem same (hg : w.Grows host w') (ht : ∀ s, (w'.session s).tables = (w.session s).tables)
    (hl : ∀ o s f table, w'.link? o = some (.session s f table) →
      w.link? o = some (.session s f table)) : w.Tables host w' := by
  refine ⟨hg, fun {s type table} kept => ?_, fun {o s f table} bound => ?_⟩
  · rw [ht] at kept
    exact (h.tables kept).later (hg.sessions s).registry
  · rw [ht]
    exact h.links (hl o s f table bound)

theorem unlinked (hg : w.Grows host w') (hs : w'.session = w.session) (ho : w'.objects = w.objects) :
    w.Tables host w' := by
  refine h.same hg (fun s => by rw [hs]) fun o s f table hl => ?_
  rw [← hl, link?, link?, ho]

theorem newObject (type : ClosedType) : w.Tables host (w.newObject type).2 :=
  h.same (.newObject type) (fun _ => rfl) fun _ _ _ _ => link?_newObject type

theorem mapSession {s : SessionId} {f : SessionState σ → SessionState σ}
    (he : (w.session s).Extends host (f (w.session s)))
    (ht : (f (w.session s)).tables = (w.session s).tables) : w.Tables host (w.mapSession s f) := by
  refine h.same (.mapSession he) (fun s' => ?_) fun _ _ _ _ hl => hl
  rw [session_mapSession]
  split
  · rename_i hs
    rw [ht, hs]
  · rfl

theorem frames {frames : FrameStore} (hs : w.frames.Extends frames) :
    w.Tables host { w with frames := frames } :=
  h.unlinked (.of_frames hs) rfl rfl

theorem register (s : SessionId) (entry : RegistryEntry) :
    w.Tables host (World.register s entry w).2 :=
  h.mapSession (f := fun state =>
    { state with registry := ((w.session s).registry.register entry).2 }) (.register entry) rfl

theorem classFrame (s : SessionId) (type : ClosedType) :
    w.Tables host (World.classFrame s type w).2 := by
  have grows : w.Grows host (World.classFrame s type w).2 := classFrame_grows s type w
  simp only [World.classFrame, Run.modifyGet] at grows ⊢
  cases hc : (w.session s).classFrames.get? type with
  | some f => exact ⟨.refl w, h⟩
  | none =>
    rw [hc] at grows
    refine h.same grows (fun s' => ?_) fun _ _ _ _ hl => hl
    dsimp only
    rw [session_mapSession]
    split
    · rename_i hs
      subst hs
      rfl
    · rfl

theorem childFrame (f : FrameId) (kind : FrameKind) : w.Tables host (World.childFrame f kind w).2 :=
  h.frames (FrameStore.extends_add w.frames kind _)

theorem changeFrames (name : String) (change : FrameStore → Except FrameError FrameStore)
    (hc : ∀ s s', change s = .ok s' → s.Extends s') :
    w.Tables host (World.changeFrames name change w).2 := by
  unfold World.changeFrames
  split
  · exact h.frames (hc _ _ ‹_›)
  · exact ⟨.refl w, h⟩

theorem target (c : Context σ) (hc : c.host = host) (m : SymbolId) :
    w.Tables host (c.target m w).2 := by
  subst hc
  cases hm : (w.session c.session).targets.get? m with
  | some t =>
    rw [c.target_of_cached hm]
    exact ⟨.refl w, h⟩
  | none =>
    cases hd : c.host.decide m with
    | error e =>
      rw [c.target_of_error hm hd]
      exact ⟨.refl w, h⟩
    | ok t =>
      rw [c.target_of_decided hm hd]
      exact h.mapSession (f := fun state => { state with targets := state.targets.insert m t })
        (.target hm hd) rfl

/-- The table that is kept is the one new table. -/
theorem keepTable {s : SessionId} {type : ClosedType} {table : MemberTable}
    (missing : (w.session s).tables.get? type = none) (walked : w.Walked host s type table) :
    w.Tables host (w.keepTable s type table) := by
  have grows : w.Grows host (w.keepTable s type table) := .mapSession (.table missing table)
  refine ⟨grows, fun {s' type' table'} kept => ?_, fun {o s' f table'} bound => ?_⟩
  · suffices before : table'.Of host type' (w.session s').registry from
      before.later (grows.sessions s').registry
    rw [World.keepTable, session_mapSession] at kept
    by_cases hs : s = s'
    · subst hs
      rw [if_pos rfl] at kept
      by_cases ht : type = type'
      · subst ht
        rw [Table.get?_insert_self] at kept
        cases kept
        exact walked.made
      · rw [Table.get?_insert_other _ ht] at kept
        exact h.tables kept
    · rw [if_neg hs] at kept
      exact h.tables kept
  · obtain ⟨type', kept⟩ := h.links bound
    exact ⟨type', (grows.sessions s').tables kept⟩

theorem storeSlot (o : ObjectRef) (field : SymbolId) (v : Value) :
    w.Tables host (w.storeSlot o field v) := by
  refine h.same (.storeSlot o field v) (fun _ => rfl) fun o' s f table hl => ?_
  rcases link?_modify hl with hl | ⟨cell, hc, hl⟩
  · exact hl
  · simp only [link?, hc, Option.bind_some]
    exact hl

theorem bind (o : ObjectRef) (f : FrameId) {s : SessionId} {type : ClosedType} {table : MemberTable}
    (kept : (w.session s).tables.get? type = some table) :
    w.Tables host (World.bind o (.session s f table) w).2 := by
  refine ⟨bind_grows o _ w, ?_⟩
  unfold World.bind
  split
  · exact h
  · refine ⟨h.tables, fun {o' s' f' table'} hl => ?_⟩
    rcases link?_modify hl with hl | ⟨cell, -, hl⟩
    · exact h.links hl
    · cases hl
      exact ⟨type, kept⟩

theorem setElement (a : ArrayRef) (indices : List Int) (v : Value) :
    w.Tables host (World.setElement a indices v w).2 := by
  unfold World.setElement
  split
  · split
    · exact h.unlinked (.of_arrays _) rfl rfl
    · exact ⟨.refl w, h⟩
  · exact ⟨.refl w, h⟩

end Tabled

theorem bind_tabling {b : World σ} {f : FrameId} (o : ObjectRef) {s : SessionId} {type : ClosedType}
    {table : MemberTable} (kept : (b.session s).tables.get? type = some table) :
    Run.AgreesBy (.holding (World.Tabled host) (World.Grows host) .refl .trans) b (fun _ => Eq)
      (World.bind o (.session s f table)) (World.bind o (.session s f table)) :=
  Run.agreesBy_holding fun w hb hw => by
    obtain ⟨grows, tabled⟩ := hw.bind o f ((hb.sessions s).tables kept)
    exact ⟨grows, tabled, fun _ _ => rfl⟩

/-- What a run over a world keeps to: tables are those that walks make. -/
def tabling (host : Host σ) : WorldTerms host where
  toTerms := .holding (World.Tabled host) (World.Grows host) .refl .trans
  sights _ f f' := f = f'
  frames _ f f' := f = f'
  roots _ f f' := f = f'
  holders _ _ f f' := f = f'
  seen h := h
  holds h := h
  laterSights _ h := h
  later _ h := h
  laterRoots _ h := h
  laterHolders _ h := h
  names h hf name := by obtain ⟨rfl, rfl, -⟩ := h; rw [hf]
  arguments h hf := by obtain ⟨rfl, rfl, -⟩ := h; rw [hf]
  instances h hf := by obtain ⟨rfl, rfl, -⟩ := h; rw [hf]
  links h o := by
    obtain ⟨rfl, rfl, -⟩ := h
    exact .refl (fun _ => rfl) _
  slots h _ _ := by obtain ⟨rfl, rfl, -⟩ := h; rfl
  statics h _ _ := by obtain ⟨rfl, rfl, -⟩ := h; rfl
  entries h _ _ := by obtain ⟨rfl, rfl, -⟩ := h; rfl
  tables h _ _ := by obtain ⟨rfl, rfl, -⟩ := h; rfl
  isOpen h _ := by obtain ⟨rfl, rfl, -⟩ := h; rfl
  cells h _ := by obtain ⟨rfl, rfl, -⟩ := h; rfl
  state h := by obtain ⟨rfl, rfl, -⟩ := h; rfl
  classFrame b s type := Run.agrees_holding (fun _ hw => hw.classFrame s type) b
  methodFrame m typeArgs hf := hf ▸ Run.agrees_holding (fun _ hw => hw.childFrame _ (.ofMethod m typeArgs)) _
  instanceFrame o hf := Run.AgreesBy.imp
    (hf ▸ Run.agrees_holding (fun _ hw => hw.childFrame _ (.ofInstance (some o))) _)
    fun _ _ _ made => ⟨made, made⟩
  scopeFrame hf := hf ▸ Run.agrees_holding (fun _ hw => hw.childFrame _ .scope) _
  declare name hf := hf ▸ Run.agrees_holding
    (fun _ hw => hw.changeFrames name _ fun _ _ => FrameStore.extends_insert) _
  define name v hf := hf ▸ Run.agrees_holding
    (fun _ hw => hw.changeFrames name _ fun _ _ => FrameStore.extends_insert) _
  assign name v hf := hf ▸ Run.agrees_holding
    (fun _ hw => hw.changeFrames name _ fun _ _ => FrameStore.extends_assign) _
  target c m hc := Run.agrees_holding fun _ hw => hw.target c hc m
  register s entry := Run.agrees_holding fun _ hw => hw.register s entry
  keepTable s type table h missing walked :=
    Run.tied_holding (fun w : World σ => w.keepTable s type table) h fun hw => hw.keepTable missing walked
  storeStatic s place v h :=
    Run.tied_holding (fun w : World σ => w.storeStatic s place v) h fun hw => hw.mapSession (.statics _) rfl
  storeSlot o field v h :=
    Run.tied_holding (fun w : World σ => w.storeSlot o field v) h fun hw => hw.storeSlot o field v
  bindLink o s _ _ h hf kept := hf ▸ (bind_tabling o (h.1 ▸ kept)).apply h
  newObject type := Run.agrees_holding fun _ hw => hw.newObject type
  newArray element cell := Run.agrees_holding fun _ hw => hw.unlinked (.of_arrays _) rfl rfl
  setElement a indices v := Run.agrees_holding fun _ hw => hw.setElement a indices v
  record call h := Run.tied_holding (fun w : World σ => w.record call) h fun hw =>
    hw.unlinked (.record call) rfl rfl
  write state h := Run.tied_holding (fun w : World σ => { w with host := state }) h fun hw =>
    hw.unlinked (.of_host state) rfl rfl
  noteFailure call e h := Run.tied_holding (fun w : World σ => w.noteFailure call e) h fun hw =>
    hw.unlinked (.noteFailure call e) rfl rfl

end World

theorem Run.AgreesBy.tabled {σ α : Type} {host : Host σ} {m m' : Run (World σ) α} {w : World σ}
    {Q : (World.tabling host).Bond → α → α → Prop}
    (h : Run.AgreesBy (World.tabling host).toTerms w Q m m') (tabled : w.Tabled host) :
    (m w).2.Tabled host := by
  have holds : Run.AgreesBy (.holding (World.Tabled host) (World.Grows host) .refl .trans) w Q m m' := h
  exact (holds.holding tabled).2

end OpTree
