/-
One implementation of a member. Two things choose what a call runs: the decision on the
member, which asks the host for a handle and then for a tree, and the table of the receiver,
which was made of trees alone. A virtual call follows the table and any other call the
decision. Where no type of the receiver overrides the member, the table has the member's own
body in the type that declares it, so both come to the same as long as the decision is for
the tree (`virtualCall_unoverridden`). It is for the handle where the host supplies one
besides the tree, and then the two calls run different implementations.
-/
import OpTree.Proofs.Decisions
import OpTree.Proofs.Tables
import OpTree.Session

namespace OpTree

namespace Host

variable {σ : Type} {host : Host σ} {m : SymbolId}

theorem decide_of_handle {d : MemberDescriptor} (hd : host.member m = .ok d) {handle : Handle σ}
    (supplied : host.handle m = .ok (some handle)) : host.decide m = .ok (.physical handle) := by
  unfold Host.decide
  rw [hd, supplied]
  rfl

/-- A method that has a tree is interpreted if it can be decided on, unless it has a handle. -/
theorem decide_of_tree (method : host.IsMethod m) {tree : Node} (ht : host.tree m = some tree)
    (unsupplied : ∀ handle, host.handle m ≠ .ok (some handle)) {t : Target σ}
    (decided : host.decide m = .ok t) : t = .interpreted tree := by
  obtain ⟨d, hd, hk⟩ := method
  simp only [Host.decide, bind, Except.bind, pure, Except.pure, hd] at decided
  cases hh : host.handle m with
  | error e => simp only [hh, reduceCtorEq] at decided
  | ok handle =>
    cases handle with
    | some handle => exact absurd hh (unsupplied handle)
    | none =>
      by_cases ho : d.origin = .loaded
      · simp only [hh, ho, if_true, reduceCtorEq] at decided
      · cases kind : d.kind with
        | method parameters returns arity isVirtual overrides =>
          simp only [hh, ho, if_false, kind, ht, Except.ok.injEq] at decided
          exact decided.symm
        | field => rw [kind] at hk; cases hk
        | property => rw [kind] at hk; cases hk
        | constructor => rw [kind] at hk; cases hk

end Host

namespace Context

variable {σ : Type} (c : Context σ) {w w₁ : World σ} {m : ResolvedMember} {t : Target σ}
  (reached : c.target m.symbol w = (.ok t, w₁))

include reached

/-- Once the member is decided on, a virtual call runs the body that the table of the receiver
has for it. -/
theorem callMember_listed {o : ObjectRef} {frame : FrameId} {table : MemberTable}
    (bound : w.link? o = some (.session c.session frame table)) {entry : RegistryEntry}
    (listed : table.bodyOf (w.session c.session).registry m.symbol = some entry) (args : List Value) :
    c.callMember m (some (.object o)) args true w =
      c.runInterpreted entry.tree entry.symbol entry.context m.typeArgs (some o) args w₁ := by
  have grows := c.target_grows m.symbol w
  rw [reached] at grows
  have bound := grows.links bound
  obtain ⟨id, hl, he⟩ := Option.bind_eq_some_iff.1 listed
  have he := (grows.sessions c.session).registry he
  have derived : c.overrideOf w₁ (some (.object o)) m.symbol = some (o, entry) := by
    simp only [overrideOf, World.bindingOf?, bound, if_true, hl, Option.bind_some, he,
      Option.map_some]
  simp only [callMember, Run.bind_def, reached, Run.gets_def, Bool.true_or, if_true, derived]

/-- An object of another session has no table that this session goes by, so it makes no
difference whether a call is virtual. -/
theorem callMember_elsewhere {o : ObjectRef} {s : SessionId} {frame : FrameId} {table : MemberTable}
    (bound : w.link? o = some (.session s frame table)) (hs : s ≠ c.session) (args : List Value) :
    c.callMember m (some (.object o)) args true w = c.callMember m (some (.object o)) args false w := by
  have grows := c.target_grows m.symbol w
  rw [reached] at grows
  have bound := grows.links bound
  have underived : c.overrideOf w₁ (some (.object o)) m.symbol = none := by
    simp only [overrideOf, World.bindingOf?, bound, if_neg hs]
  simp only [callMember, Run.bind_def, reached, Run.gets_def, underived, ite_self]

theorem callMember_reached (way : t.isBodiless = false) (receiver : Option Value)
    (args : List Value) :
    c.callMember m receiver args false w = c.callTarget m t receiver args w₁ := by
  simp only [callMember, Run.bind_def, reached, Run.gets_def, way, Bool.or_self,
    Bool.false_eq_true, if_false]

omit reached

/-- **A method that nothing overrides has one implementation.** Let an object be bound to a
session, and let its table have a method that no member of the object's levels overrides. For
all arguments and type arguments, calling the method virtually, and calling it otherwise with
the closed type that declares it, give the same answer and leave the same world, with the
same calls of the host in it, unless the host supplies a handle. If it does, a virtual call
from the object's session runs the method's tree all the same, and the other call asks the
host. -/
theorem virtualCall_unoverridden (decided : w.Decided c.host) (tabled : w.Tabled c.host)
    {o : ObjectRef} {s : SessionId} {frame : FrameId} {table : MemberTable}
    (bound : w.link? o = some (.session s frame table)) {levels : List Level}
    (walk : c.host.Levels true table.type levels) {symbol : SymbolId}
    (method : c.host.IsMethod symbol) (listed : (table.lookup symbol).isSome)
    (unoverridden : ¬c.host.Overridden levels symbol) {declaring : ClosedType}
    (declares : ∀ l ∈ levels, c.host.Lists l symbol → l.type = declaring)
    (typeArgs : List ClosedType) (args : List Value) :
    let m : ResolvedMember := ⟨symbol, declaring, typeArgs⟩
    let call (isVirtual : Bool) := c.callMember m (some (.object o)) args isVirtual w
    ((∀ handle, c.host.handle symbol ≠ .ok (some handle)) → call true = call false) ∧
      ∀ handle, c.host.handle symbol = .ok (some handle) → s = c.session → ∃ tree w₁,
        c.host.tree symbol = some tree ∧ c.target symbol w = (.ok (.physical handle), w₁) ∧
        call true = c.runInterpreted tree symbol declaring typeArgs (some o) args w₁ ∧
        call false = c.invokeHandle m handle (some (.object o)) args typeArgs w₁ := by
  intro m call
  obtain ⟨levels', walk', made⟩ := tabled.linked bound
  obtain rfl := walk.unique walk'
  obtain ⟨⟨context, tree, own⟩, body, ⟨ht, l, hl, hlists, htype⟩, hs⟩ := made.bodyOf listed
  obtain rfl : own = symbol := hs.resolve_right unoverridden
  obtain rfl : context = declaring := htype.symm.trans (declares l hl hlists)
  refine ⟨fun unsupplied => ?_, fun handle supplied here => ?_⟩
  · cases hd : c.host.decide own with
    | error e =>
      have failed := c.target_of_undecided decided hd
      exact (Run.bind_error failed).trans (Run.bind_error failed).symm
    | ok t =>
      obtain rfl := Host.decide_of_tree method ht unsupplied hd
      obtain ⟨w₁, reached, -, -⟩ := c.target_of_decide decided hd
      by_cases here : s = c.session
      · subst here
        have virtually := c.callMember_listed (m := m) reached bound body args
        have otherwise := c.callMember_reached (m := m) reached rfl (some (.object o)) args
        exact virtually.trans otherwise.symm
      · exact c.callMember_elsewhere (m := m) reached bound here args
  · subst here
    obtain ⟨d, hd, -⟩ := method
    obtain ⟨w₁, reached, -, -⟩ := c.target_of_decide decided (Host.decide_of_handle hd supplied)
    exact ⟨tree, w₁, ht, reached, c.callMember_listed (m := m) reached bound body args,
      c.callMember_reached (m := m) reached rfl (some (.object o)) args⟩

end Context

/-- A generic base with a method that answers 7, and a type over it. The host may supply a
handle besides the method's tree. -/
def handed (script : Option Scripted.Script) : Scripted.Program :=
  let seven : Node := .mk .dummy (.literal (.int .i32 7))
  ⟨[⟨⟨⟨1⟩, "Base", .classType, true, 1, none, [], [⟨30⟩]⟩, .fresh⟩,
      ⟨⟨⟨2⟩, "D", .classType, true, 0, some (.named ⟨1⟩ [.primitive .i32]), [], []⟩, .fresh⟩],
    [⟨⟨⟨30⟩, "Get", ⟨1⟩, false, .source, .method [] (.primitive .i32) 0 true none⟩,
      some (.mk .dummy (.block [.mk .dummy (.returnWith (some seven))])), script⟩]⟩

namespace handed

def session (script : Option Scripted.Script) : Session Scripted.State := ⟨(handed script).host, ⟨0⟩, 6⟩

/-- An object of the second type. -/
def o : ObjectRef := ⟨0, .named ⟨2⟩ []⟩

/-- It is there, and nothing else. -/
def made : World Scripted.State := ((World.initial .initial).newObject o.type).2

/-- It is bound to the session. -/
def world (script : Option Scripted.Script) : World Scripted.State :=
  ((session script).context.bind o o.type made).2

def table : MemberTable := ⟨o.type, ⟨[(⟨30⟩, ⟨0⟩)]⟩⟩

/-- The levels of the second type. -/
def levels : List Level :=
  [⟨.named ⟨2⟩ [],
      ⟨⟨2⟩, "D", .classType, true, 0, some (.named ⟨1⟩ [.primitive .i32]), [], []⟩, true⟩,
    ⟨.named ⟨1⟩ [.primitive .i32], ⟨⟨1⟩, "Base", .classType, true, 1, none, [], [⟨30⟩]⟩, false⟩]

variable (script : Option Scripted.Script)

theorem decided : (world script).Decided (handed script).host := by
  have binds := (Context.within_grows (handed script).host 6 ⟨0⟩).bind o o.type made
  have first : made.Decided (handed script).host := (World.Decided.initial _).grows (.newObject o.type)
  exact first.grows (binds.grows (r := ((session script).context.bind o o.type made).1) rfl)

theorem tabled : (world script).Tabled (handed script).host := by
  let W := World.tabling (handed script).host
  have first : made.Tabled (handed script).host :=
    (W.newObject o.type (World.initial .initial)).tabled (.initial _)
  exact ((Context.within_self W 6 ⟨0⟩).bind o o.type made).tabled first

theorem bound : (world script).link? o = some (.session ⟨0⟩ ⟨1⟩ table) := rfl

theorem walk : (handed script).host.Levels true table.type levels :=
  .derived rfl rfl rfl rfl rfl (.root rfl rfl rfl rfl)

theorem lists {l : Level} (hl : l ∈ levels) {m : SymbolId} (hm : (handed script).host.Lists l m) :
    m = ⟨30⟩ ∧ l.type = .named ⟨1⟩ [.primitive .i32] := by
  simp only [levels, List.mem_cons, List.not_mem_nil, or_false] at hl
  rcases hl with rfl | rfl
  · rcases hm with hm | ⟨p, hp, -⟩
    · cases hm
    · cases hp
  · refine ⟨?_, rfl⟩
    rcases hm with hm | ⟨p, hp, d, hd, hm⟩
    · exact List.mem_singleton.1 hm
    · obtain rfl := List.mem_singleton.1 hp
      cases hd
      cases hm

theorem unoverridden : ¬(handed script).host.Overridden levels ⟨30⟩ := by
  rintro ⟨l, hl, m, hm, ho⟩
  obtain ⟨rfl, -⟩ := lists script hl hm
  cases ho

end handed

/-- Without a handle the two calls are one. -/
theorem handed_unsupplied_same :
    let c := (handed.session none).context
    let w := handed.world none
    let call (isVirtual : Bool) :=
      c.callMember ⟨⟨30⟩, .named ⟨1⟩ [.primitive .i32], []⟩ (some (.object handed.o)) [] isVirtual w
    w.Decided c.host ∧ w.Tabled c.host ∧ c.host.IsMethod ⟨30⟩ ∧
      ¬c.host.Overridden handed.levels ⟨30⟩ ∧ call true = call false ∧ (call false).1 = .ok (.i32 7) := by
  intro c w call
  have method : c.host.IsMethod ⟨30⟩ := ⟨_, rfl, rfl⟩
  have listed : (handed.table.lookup ⟨30⟩).isSome := rfl
  have unsupplied (handle) : c.host.handle ⟨30⟩ ≠ .ok (some handle) := nofun
  obtain ⟨same, -⟩ := c.virtualCall_unoverridden (handed.decided none) (handed.tabled none)
    (handed.bound none) (handed.walk none) method listed (handed.unoverridden none)
    (fun l hl hm => (handed.lists none hl hm).2) [] []
  have same : call true = call false := same unsupplied
  refine ⟨handed.decided none, handed.tabled none, method, handed.unoverridden none, same, ?_⟩
  rfl

/-- With a handle they are not: the virtual call runs the tree, and the other call asks the
host. -/
theorem handed_supplied_differs :
    let script : Scripted.Script := .constant (.i32 9)
    let c := (handed.session (some script)).context
    let w := handed.world (some script)
    let m : ResolvedMember := ⟨⟨30⟩, .named ⟨1⟩ [.primitive .i32], []⟩
    let call (isVirtual : Bool) := c.callMember m (some (.object handed.o)) [] isVirtual w
    w.link? handed.o = some (.session ⟨0⟩ ⟨1⟩ handed.table) ∧
      c.host.Levels true handed.table.type handed.levels ∧ c.host.IsMethod ⟨30⟩ ∧
      (handed.table.lookup ⟨30⟩).isSome ∧ ¬c.host.Overridden handed.levels ⟨30⟩ ∧
      (∀ l ∈ handed.levels, c.host.Lists l ⟨30⟩ → l.type = m.containing) ∧
      (call true).1 = .ok (.i32 7) ∧ (call false).1 = .ok (.i32 9) := by
  intro script c w m call
  have method : c.host.IsMethod ⟨30⟩ := ⟨_, rfl, rfl⟩
  have virtually : (call true).1 = .ok (.i32 7) := rfl
  have otherwise : (call false).1 = .ok (.i32 9) := rfl
  exact ⟨handed.bound (some script), handed.walk (some script), method, rfl,
    handed.unoverridden (some script), fun l hl hm => (handed.lists (some script) hl hm).2,
    virtually, otherwise⟩

end OpTree
