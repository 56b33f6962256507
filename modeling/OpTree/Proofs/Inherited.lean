/-
Members that run in the frame of an object. A session is asked for a member of an object
in two ways. Through the object's link (`ObjectRef.dispatch`), it runs the body that the
object's table has for the member, above the class frame of the closed type that the table
names with it. In the object's frame (`Session.interpretGeneric`), it runs the body of the
member itself, above a class frame of the type that the object's frame stands on. If the
member is one of the object's own type, these are one type; if it is inherited, the table
names the closed base that declares it, and the frame does not.

So where the body is the member's own, the two come to the same as far as the body cannot
tell these types apart: as far as every parameter of a type that it mentions has one
argument in both (`interpretGeneric_dispatches`). Where it can, they do not: what a generic
base calls its parameter is resolved by a dispatched call to what the object's type passes
to the base, and by an interpreted one to the object's own argument in that place, if it has
any (`inheriting.typeParameter_unbound`).
-/
import OpTree.Proofs.Mirroring
import OpTree.Session

namespace OpTree

section

variable {σ : Type} (host : Host σ) (n : Nat) (session : SessionId)

/-- A member with a body of its own is interpreted in the frame of an object by running the
body for the object, above the class frame of the type that the frame stands on. -/
theorem Session.interpretGeneric_interpreted {w : World σ} (sound : w.Sound host) {m : SymbolId}
    {tree : Node} (own : host.decide m = .ok (.interpreted tree)) {frame : FrameId}
    {type : ClosedType} (derived : w.frames.classType? frame = some type) {o : ObjectRef}
    (receiver : w.frames.currentInstance? frame = some o) (typeArgs : List ClosedType)
    (args : List Value) :
    ∃ w₁, w.Settles w₁ ∧ w.StaysSound host w₁ ∧
      Session.interpretGeneric ⟨host, session, n⟩ m frame typeArgs args false w =
        (Context.within host n session).runInterpreted tree m type typeArgs (some o) args w₁ := by
  let c := Context.within host n session
  obtain ⟨w₁, reached, same, -⟩ := c.target_of_decide sound.decided own
  have stays := sound.stays (sound.housed.target c m) (c.target_grows m w)
  rw [reached] at stays
  refine ⟨w₁, same.settles, stays, ?_⟩
  have contained : Session.classTypeOf frame w = (.ok type, w) := by
    simp only [Session.classTypeOf, derived]
  have called : c.callMember ⟨m, type, typeArgs⟩ (some (.object o)) args false w =
      c.runInterpreted tree m type typeArgs (some o) args w₁ := by
    simp only [Context.callMember, Run.bind_def, reached]
    rfl
  have goesOn : (Session.checkCancelled false : Run (World σ) Unit) w = (.ok (), w) := rfl
  rw [Session.interpretGeneric, Run.bind_ok goesOn, Run.bind_ok contained, Run.bind_def, Run.gets_def]
  simp only [receiver]
  exact called

/-- References to types close alike under the arguments of two types if their parameters have
one argument in both. -/
theorem closesAlike_of_arguments {type type' : ClosedType} (typeArgs : List ClosedType) {t : TypeRef}
    (same : ∀ p ∈ t.params, p.level = .type → p.argument type.typeArgs = p.argument type'.typeArgs) :
    t.ClosesAlike ⟨type.typeArgs, typeArgs⟩ ⟨type'.typeArgs, typeArgs⟩ := by
  refine t.close_congr fun p hp => ?_
  have same := same p hp
  rw [Substitution.resolver_eq, Substitution.resolver_eq]
  cases hl : p.level with
  | type => exact same hl
  | method => rfl

/-- A method whose most derived body for an object is its own comes to the same in the frame
of the object and through its link: to the same answer, with the same calls to the host,
and in worlds that are the same but for the identities of frames, class frames that were
made and decisions that were recorded. That holds of inherited methods too, however far up
they are declared, if every parameter of a type that the body mentions has one argument in
the type that the frame stands on and in the closed type that the table says declares it. -/
theorem interpretGeneric_dispatches {w : World σ} (sound : w.Sound host) {o : ObjectRef}
    {frame : FrameId} {table : MemberTable}
    (bound : w.link? o = some (.session session frame table))
    (alive : (w.session session).isOpen = true)
    (receiver : w.frames.currentInstance? frame = some o) {type : ClosedType}
    (derived : w.frames.classType? frame = some type) {m : SymbolId} {entry : RegistryEntry}
    (listed : table.bodyOf (w.session session).registry m = some entry) (own : entry.symbol = m)
    (interpreted : host.decide m = .ok (.interpreted entry.tree))
    (same : ∀ t ∈ entry.tree.types, ∀ p ∈ t.params, p.level = .type →
      p.argument type.typeArgs = p.argument entry.context.typeArgs)
    (typeArgs : List ClosedType) (args : List Value) :
    let x := Session.interpretGeneric ⟨host, session, n⟩ m frame typeArgs args false w
    let y := o.dispatch host (n + 1) m typeArgs args w
    x.1 = y.1 ∧ ∃ pairs, w.instanceFrames.Le pairs ∧ x.2.Mirrors pairs y.2 := by
  intro x y
  obtain ⟨w₁, settles, stays, hx⟩ := Session.interpretGeneric_interpreted host n session
    sound interpreted derived receiver typeArgs args
  have hy : y = (Context.within host n session).runInterpreted entry.tree entry.symbol entry.context
      typeArgs (some o) args w := dispatchWithin_listed host n bound alive listed typeArgs args
  have tied : w₁.MirroredBy host ⟨w₁.frames, w.frames, w.instanceFrames⟩ w :=
    { left := rfl
      right := rfl
      mirrors := sound.housed.mirrors.settle settles (.refl w) stays.roots (.refl w.frames)
      sound := stays.sound
      sound' := sound }
  have runs := Context.runInterpreted_mirrors host n session
    (fun t ht => closesAlike_of_arguments typeArgs (same t ht)) m (some o) args
  rw [show x = _ from hx, hy, own]
  exact runs.mirroring tied

end

/-- A body that answers the first parameter of a level. -/
def inheriting.body (level : GenericLevel) : Node :=
  let answer : Node := .mk .dummy (.typeOf (.param ⟨level, 0⟩))
  .mk .dummy (.block [.mk .dummy (.returnWith (some answer))])

/-- A generic class with a generic method, and a class that is not generic over the class of
integers. -/
def inheriting (level : GenericLevel) : Scripted.Program :=
  ⟨[⟨⟨⟨1⟩, "Base", .classType, true, 1, none, [], [⟨30⟩]⟩, .fresh⟩,
      ⟨⟨⟨2⟩, "D", .classType, true, 0, some (.named ⟨1⟩ [.primitive .i32]), [], []⟩, .fresh⟩],
    [⟨⟨⟨30⟩, "Get", ⟨1⟩, false, .source, .method [] (.primitive .object) 1 false none⟩,
        some (inheriting.body level), none⟩]⟩

namespace inheriting

def object : ObjectRef := ⟨0, .named ⟨2⟩ []⟩

/-- The object's table has the inherited method, above the closed base. -/
def table : MemberTable := ⟨object.type, ⟨[(⟨30⟩, ⟨0⟩)]⟩⟩

def entry (level : GenericLevel) : RegistryEntry :=
  ⟨.named ⟨1⟩ [.primitive .i32], body level, ⟨30⟩⟩

/-- An object of the derived class was made. -/
def world (level : GenericLevel) : World Scripted.State :=
  ((Call.create object.type []).run (.within (inheriting level).host 5 ⟨0⟩)
    (.initial .initial)).2

/-- The method is interpreted in the object's frame. -/
def interpreted (level : GenericLevel) : Except Stop Value × World Scripted.State :=
  Session.interpretGeneric ⟨(inheriting level).host, ⟨0⟩, 5⟩ ⟨30⟩ ⟨1⟩ [.primitive .text] [] false
    (world level)

/-- It is dispatched through the object's link. -/
def dispatched (level : GenericLevel) : Except Stop Value × World Scripted.State :=
  object.dispatch (inheriting level).host 6 ⟨30⟩ [.primitive .text] [] (world level)

theorem sound (level : GenericLevel) : (world level).Sound (inheriting level).host :=
  Call.sound _ 5 ⟨0⟩ _ (.initial _)

theorem bound (level : GenericLevel) :
    (world level).link? object = some (.session ⟨0⟩ ⟨1⟩ table) := by
  cases level <;> rfl

theorem listed (level : GenericLevel) :
    table.bodyOf ((world level).session ⟨0⟩).registry ⟨30⟩ = some (entry level) := by
  cases level <;> rfl

/-- The method's own parameter is resolved by either. -/
theorem methodParameter_resolved :
    (world .method).Sound (inheriting .method).host ∧
      (world .method).link? object = some (.session ⟨0⟩ ⟨1⟩ table) ∧
      table.bodyOf ((world .method).session ⟨0⟩).registry ⟨30⟩ = some (entry .method) ∧
      (interpreted .method).1 = .ok (.type (.primitive .text)) ∧
      (dispatched .method).1 = .ok (.type (.primitive .text)) ∧
      ∃ pairs, (interpreted .method).2.Mirrors pairs (dispatched .method).2 := by
  have alive : ((world .method).session ⟨0⟩).isOpen = true := rfl
  have receiver : (world .method).frames.currentInstance? ⟨1⟩ = some object := rfl
  have derived : (world .method).frames.classType? ⟨1⟩ = some object.type := rfl
  have same : ∀ t ∈ (entry .method).tree.types, ∀ p ∈ t.params, p.level = .type →
      p.argument object.type.typeArgs = p.argument (entry .method).context.typeArgs := by
    intro t ht p hp hl
    change t ∈ [TypeRef.param ⟨.method, 0⟩] at ht
    obtain rfl := List.mem_singleton.1 ht
    obtain rfl := List.mem_singleton.1 hp
    cases hl
  obtain ⟨answers, pairs, -, mirrors⟩ := interpretGeneric_dispatches (inheriting .method).host 5 ⟨0⟩
    (sound .method) (bound .method) alive receiver derived (listed .method) rfl rfl same
    [.primitive .text] []
  have answer : (dispatched .method).1 = .ok (.type (.primitive .text)) := rfl
  exact ⟨sound .method, bound .method, listed .method, answers.trans answer, answer, pairs, mirrors⟩

/-- The parameter of the base is resolved to what the derived class passes to it by a
dispatched call only. -/
theorem typeParameter_unbound :
    (world .type).link? object = some (.session ⟨0⟩ ⟨1⟩ table) ∧
      table.bodyOf ((world .type).session ⟨0⟩).registry ⟨30⟩ = some (entry .type) ∧
      (interpreted .type).1 =
        .error (.failed ⟨.unboundGenericParameter "!0", some .dummy, []⟩) ∧
      (dispatched .type).1 = .ok (.type (.primitive .i32)) :=
  ⟨bound .type, listed .type, rfl, rfl⟩

end inheriting

end OpTree
