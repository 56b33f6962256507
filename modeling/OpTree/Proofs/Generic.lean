/-
Generic code and its copies. The parameters that a tree mentions are resolved
while it runs, each time against the innermost frame: the class frame at the
root of the chain answers for the type's, the nearest method frame for the
method's. So what a frame's chain supplies never changes (`Supplies.grown`), a
scope on top of it supplies the same (`Supplies.scope`), and the tree runs as
the copy does in which closed types stand for the references: in no operation is
a type closed against a frame that supplies anything else.
-/
import OpTree.Proofs.Growth
import OpTree.Scripted

namespace OpTree

/-! ## Closed types as references -/

mutual

/-- A closed type as a reference to it. -/
def ClosedType.toRef : ClosedType → TypeRef
  | .primitive p => .primitive p
  | .named d args => .named d (ClosedType.toRefs args)
  | .array element rank => .array element.toRef rank
  | .tuple elements => .tuple (ClosedType.toRefs elements)
  | .nullable inner => .nullable inner.toRef

def ClosedType.toRefs : List ClosedType → List TypeRef
  | [] => []
  | c :: cs => c.toRef :: ClosedType.toRefs cs

end

mutual

theorem ClosedType.close_toRef (r : Resolver) : ∀ c : ClosedType, c.toRef.close r = .ok c
  | .primitive _ => rfl
  | .named d args => by
    rw [ClosedType.toRef, TypeRef.close, ClosedType.closeAll_toRefs r args]; rfl
  | .array element rank => by
    rw [ClosedType.toRef, TypeRef.close, ClosedType.close_toRef r element]; rfl
  | .tuple elements => by
    rw [ClosedType.toRef, TypeRef.close, ClosedType.closeAll_toRefs r elements]; rfl
  | .nullable inner => by
    rw [ClosedType.toRef, TypeRef.close, ClosedType.close_toRef r inner]; rfl

theorem ClosedType.closeAll_toRefs (r : Resolver) :
    ∀ cs : List ClosedType, TypeRef.closeAll r (ClosedType.toRefs cs) = .ok cs
  | [] => rfl
  | c :: cs => by
    rw [ClosedType.toRefs, TypeRef.closeAll, ClosedType.close_toRef r c,
      ClosedType.closeAll_toRefs r cs]; rfl

end

mutual

theorem ClosedType.isClosed_toRef : ∀ c : ClosedType, c.toRef.isClosed = true
  | .primitive _ => rfl
  | .named _ args => by rw [ClosedType.toRef, TypeRef.isClosed, ClosedType.allClosed_toRefs args]
  | .array element _ => by rw [ClosedType.toRef, TypeRef.isClosed, ClosedType.isClosed_toRef element]
  | .tuple elements => by
    rw [ClosedType.toRef, TypeRef.isClosed, ClosedType.allClosed_toRefs elements]
  | .nullable inner => by rw [ClosedType.toRef, TypeRef.isClosed, ClosedType.isClosed_toRef inner]

theorem ClosedType.allClosed_toRefs :
    ∀ cs : List ClosedType, TypeRef.allClosed (ClosedType.toRefs cs) = true
  | [] => rfl
  | c :: cs => by
    rw [ClosedType.toRefs, TypeRef.allClosed, ClosedType.isClosed_toRef c,
      ClosedType.allClosed_toRefs cs]; rfl

end

/-! ## Parameters that have arguments -/

mutual

/-- The generic parameters that occur in a type. -/
def TypeRef.params : TypeRef → List GenericParam
  | .primitive _ => []
  | .named _ args => TypeRef.paramsAll args
  | .param p => [p]
  | .array element _ => element.params
  | .tuple elements => TypeRef.paramsAll elements
  | .nullable inner => inner.params

def TypeRef.paramsAll : List TypeRef → List GenericParam
  | [] => []
  | t :: ts => t.params ++ TypeRef.paramsAll ts

end

mutual

/-- A type closes to what its parameters resolve to. -/
theorem TypeRef.close_congr {r r' : Resolver} :
    ∀ t : TypeRef, (∀ p ∈ t.params, r p = r' p) → t.close r = t.close r'
  | .primitive _, _ => rfl
  | .named d ts, h => by rw [TypeRef.close, TypeRef.close, TypeRef.closeAll_congr ts h]
  | .param p, h => h p List.mem_cons_self
  | .array element _, h => by rw [TypeRef.close, TypeRef.close, TypeRef.close_congr element h]
  | .tuple ts, h => by rw [TypeRef.close, TypeRef.close, TypeRef.closeAll_congr ts h]
  | .nullable inner, h => by rw [TypeRef.close, TypeRef.close, TypeRef.close_congr inner h]

theorem TypeRef.closeAll_congr {r r' : Resolver} :
    ∀ ts : List TypeRef, (∀ p ∈ TypeRef.paramsAll ts, r p = r' p) →
      TypeRef.closeAll r ts = TypeRef.closeAll r' ts
  | [], _ => rfl
  | t :: ts, h => by
    have first := TypeRef.close_congr t fun p hp => h p (by simp [TypeRef.paramsAll, hp])
    have rest := TypeRef.closeAll_congr ts fun p hp => h p (by simp [TypeRef.paramsAll, hp])
    rw [TypeRef.closeAll, TypeRef.closeAll, first, rest]

end

namespace Substitution

variable (args : Substitution)

/-- The arguments for the parameters of a level. -/
def arguments : GenericLevel → List ClosedType
  | .type => args.typeArgs
  | .method => args.methodArgs

/-- The parameter has an argument. -/
def Covers (p : GenericParam) : Prop := p.ordinal < (args.arguments p.level).length

instance (p : GenericParam) : Decidable (args.Covers p) :=
  inferInstanceAs (Decidable (p.ordinal < _))

theorem resolver_eq (p : GenericParam) : args.resolver p = p.argument (args.arguments p.level) := by
  obtain ⟨level, ordinal⟩ := p
  cases level <;> rfl

mutual

theorem exists_close : ∀ t : TypeRef, (∀ p ∈ t.params, args.Covers p) →
    ∃ c, t.close args.resolver = .ok c
  | .primitive p, _ => ⟨.primitive p, rfl⟩
  | .named d ts, h => by
    obtain ⟨cs, hcs⟩ := exists_closeAll ts h
    exact ⟨.named d cs, by rw [TypeRef.close, hcs]; rfl⟩
  | .param p, h => by
    have hp : p.ordinal < (args.arguments p.level).length := h p (by simp [TypeRef.params])
    refine ⟨(args.arguments p.level)[p.ordinal], ?_⟩
    rw [TypeRef.close, args.resolver_eq, GenericParam.argument, List.getElem?_eq_getElem hp]
  | .array element rank, h => by
    obtain ⟨c, hc⟩ := exists_close element h
    exact ⟨.array c rank, by rw [TypeRef.close, hc]; rfl⟩
  | .tuple ts, h => by
    obtain ⟨cs, hcs⟩ := exists_closeAll ts h
    exact ⟨.tuple cs, by rw [TypeRef.close, hcs]; rfl⟩
  | .nullable inner, h => by
    obtain ⟨c, hc⟩ := exists_close inner h
    exact ⟨.nullable c, by rw [TypeRef.close, hc]; rfl⟩

theorem exists_closeAll : ∀ ts : List TypeRef, (∀ p ∈ TypeRef.paramsAll ts, args.Covers p) →
    ∃ cs, TypeRef.closeAll args.resolver ts = .ok cs
  | [], _ => ⟨[], rfl⟩
  | t :: ts, h => by
    obtain ⟨c, hc⟩ := exists_close t fun p hp => h p (by simp [TypeRef.paramsAll, hp])
    obtain ⟨cs, hcs⟩ := exists_closeAll ts fun p hp => h p (by simp [TypeRef.paramsAll, hp])
    exact ⟨c :: cs, by rw [TypeRef.closeAll, hc, hcs]; rfl⟩

end

/-- The reference to the closed type that a type becomes. One that does not
close stays as it is. -/
def closed (t : TypeRef) : TypeRef :=
  match t.close args.resolver with
  | .ok c => c.toRef
  | .error _ => t

theorem closed_of_close {t : TypeRef} {c : ClosedType} (h : t.close args.resolver = .ok c) :
    args.closed t = c.toRef := by
  simp only [closed, h]

/-- Where the arguments are in force, a type and its closed form are one type. -/
theorem close_closed (t : TypeRef) :
    (args.closed t).close args.resolver = t.close args.resolver := by
  simp only [closed]
  split
  · rename_i c h
    rw [h, ClosedType.close_toRef]
  · rfl

end Substitution

/-! ## What a chain of frames supplies -/

namespace FrameStore

variable {s s' : FrameStore} {f : FrameId} {args : Substitution}

/-- Every frame of the chain exists. Frames are made on top of frames that do
and never removed, so this holds of all that were made. -/
def Rooted (s : FrameStore) (f : FrameId) : Prop := ∀ g ∈ s.chain f, s.Has g

instance (s : FrameStore) (f : FrameId) : Decidable (s.Rooted f) :=
  inferInstanceAs (Decidable (∀ g ∈ s.chain f, s.Has g))

/-- The chain of a frame ends in the class frame of a type with some arguments,
and its nearest method frame, if it has one, holds the others. -/
structure Supplies (s : FrameStore) (f : FrameId) (args : Substitution) : Prop where
  rooted : s.Rooted f
  type : s.argumentsOf? .type (s.chain f) = some args.typeArgs
  method : (s.argumentsOf? .method (s.chain f)).getD [] = args.methodArgs

theorem argumentsOf?_extends (hs : s.Extends s') (level : GenericLevel) {fs : List FrameId}
    (h : ∀ g ∈ fs, s.Has g) : s'.argumentsOf? level fs = s.argumentsOf? level fs := by
  induction fs with
  | nil => rfl
  | cons g gs ih =>
    have hg := hs.kind? (h g (by simp))
    have hgs := ih fun x hx => h x (by simp [hx])
    simp only [argumentsOf?, hg, hgs]

theorem Rooted.chain_eq (h : s.Rooted f) (hs : s.Extends s') : s'.chain f = s.chain f :=
  hs.chain (h f (by simp [chain]))

theorem Rooted.grown (h : s.Rooted f) (hs : s.Extends s') : s'.Rooted f := by
  rw [Rooted, h.chain_eq hs]
  exact fun g hg => (h g hg).extends hs

theorem Rooted.addChild (h : s.Rooted f) (kind : FrameKind) :
    (s.addChild f kind).2.Rooted (s.addChild f kind).1 := by
  rw [Rooted, chain_addChild]
  intro g hg
  rcases List.mem_cons.1 hg with rfl | hg
  · exact has_add s kind _
  · exact (h g hg).extends (extends_add s kind _)

namespace Supplies

theorem grown (h : s.Supplies f args) (hs : s.Extends s') : s'.Supplies f args := by
  refine ⟨h.rooted.grown hs, ?_, ?_⟩
  · rw [h.rooted.chain_eq hs, argumentsOf?_extends hs .type h.rooted]
    exact h.type
  · rw [h.rooted.chain_eq hs, argumentsOf?_extends hs .method h.rooted]
    exact h.method

/-- A frame supplies the arguments that it holds for the parameters of methods, if it holds
any, and otherwise what the frame under it does. -/
theorem child (h : s.Supplies f args) (kind : FrameKind) (nested : kind.arguments? .type = none) :
    (s.addChild f kind).2.Supplies (s.addChild f kind).1
      ⟨args.typeArgs, (kind.arguments? .method).getD args.methodArgs⟩ := by
  have hs : s.Extends (s.addChild f kind).2 := extends_add s kind _
  refine ⟨h.rooted.addChild kind, ?_, ?_⟩
  · rw [chain_addChild, argumentsOf?, kind?_addChild, Option.bind_some, nested,
      argumentsOf?_extends hs .type h.rooted]
    exact h.type
  · rw [chain_addChild, argumentsOf?, kind?_addChild, Option.bind_some,
      argumentsOf?_extends hs .method h.rooted]
    cases kind.arguments? .method with
    | none => exact h.method
    | some margs => rfl

theorem scope (h : s.Supplies f args) :
    (s.addChild f .scope).2.Supplies (s.addChild f .scope).1 args :=
  h.child .scope rfl

theorem resolver (h : s.Supplies f args) : s.genericArgument f = args.resolver := by
  funext p
  rw [args.resolver_eq]
  obtain ⟨level, ordinal⟩ := p
  cases level with
  | type => simp only [genericArgument, h.type, Substitution.arguments]
  | method =>
    have hm := h.method
    simp only [genericArgument, Substitution.arguments]
    cases ha : s.argumentsOf? .method (s.chain f) with
    | some margs =>
      rw [ha, Option.getD_some] at hm
      rw [hm]
    | none =>
      rw [ha, Option.getD_none] at hm
      rw [← hm]
      rfl

end Supplies

end FrameStore

variable {σ : Type} (host : Host σ)

theorem World.childFrame_supplies {args : Substitution} {w : World σ} {f : FrameId}
    (h : w.frames.Supplies f args) :
    Run.AgreesBy (World.growing host False False).toTerms w
      (fun b g g' => g = g' ∧ b.frames.Supplies g args) (World.childFrame f .scope)
      (World.childFrame f .scope) := by
  rintro w₁ _ _ hle ⟨rfl, rfl⟩
  have hle : w.Grows host w₁ := hle
  have scope := (h.grown hle.frames).scope
  exact .ok (.of_frames (FrameStore.extends_add w₁.frames .scope _)) ⟨rfl, rfl⟩ ⟨rfl, scope⟩

/-- All trees, with closed types in the place of the references, where the
frames supply the arguments. -/
def NodeTerms.closing (args : Substitution) : NodeTerms (World.growing host False False) :=
  .everywhere args.closed (fun w f f' => f = f' ∧ w.frames.Supplies f args) And.left
    (fun hle h => ⟨h.1, h.2.grown (World.Grows.frames hle)⟩)
    (fun {w f f'} h => by
      obtain ⟨rfl, h⟩ := h
      exact World.childFrame_supplies host h)
    fun {w t t' f f'} hs h t => by
      obtain ⟨rfl, rfl⟩ := hs
      obtain ⟨rfl, h⟩ := h
      rw [h.resolver, args.close_closed]

/-- Generic code runs as its copy with closed types does. The arguments of the
type and of the method cover every parameter in the tree, so no parameter is in
the copy; from every state whose frame supplies the arguments, the two come to
the same answer in the same state, with the same calls to the host. -/
theorem generic_runs_as_closed_copy (fuel : Nat) (session : SessionId) (tree : Node)
    (args : Substitution) (covered : ∀ t ∈ tree.types, ∀ p ∈ t.params, args.Covers p)
    (s : Machine σ) (frames : s.world.frames.Supplies s.activation.frame args) :
    (∀ t ∈ tree.types, ∃ c, t.close args.resolver = .ok c ∧ args.closed t = c.toRef) ∧
    (∀ t ∈ (tree.mapTypes args.closed).types, t.isClosed = true) ∧
    evalWithin host fuel session (tree.mapTypes args.closed) s = evalWithin host fuel session tree s ∧
    (Context.within host fuel session).runBody s.activation (tree.mapTypes args.closed) s.world =
      (Context.within host fuel session).runBody s.activation tree s.world := by
  have closes : ∀ t ∈ tree.types, ∃ c, t.close args.resolver = .ok c ∧ args.closed t = c.toRef := by
    intro t ht
    obtain ⟨c, hc⟩ := args.exists_close t (covered t ht)
    exact ⟨c, hc, args.closed_of_close hc⟩
  have runs : evalWithin host fuel session (tree.mapTypes args.closed) s =
      evalWithin host fuel session tree s := by
    have agrees := (NodeTerms.closing host args).evalWithin session fuel fuel (.same fuel)
      (x := tree) trivial
    rcases agrees.keepingMachine ⟨rfl, frames⟩ with ⟨he, -⟩ | ⟨hl, -⟩ | ⟨hl, -⟩
    · exact he.symm
    · exact hl.elim
    · exact hl.elim
  refine ⟨closes, ?_, runs, ?_⟩
  · intro t ht
    rw [Node.types_mapTypes] at ht
    obtain ⟨u, hu, rfl⟩ := List.mem_map.1 ht
    obtain ⟨c, -, hc⟩ := closes u hu
    rw [hc]
    exact c.isClosed_toRef
  · simp only [Context.runBody, Context.within]
    rw [show (⟨s.world, s.activation⟩ : Machine σ) = s from rfl, runs]

/-- Of the type's first parameter and of an array of the method's first. -/
def bothParameters : Node :=
  .mk .dummy (.tuple [.mk .dummy (.typeOf (.param ⟨.type, 0⟩)),
    .mk .dummy (.typeOf (.array (.param ⟨.method, 0⟩) 1))])

/-- A generic method called on a generic type, within a block. -/
def inGenericMethod : Machine Scripted.State :=
  let type : ClosedType := .named ⟨0⟩ [.primitive .i32]
  ⟨{ World.initial Scripted.State.initial with
      frames := ⟨#[⟨.ofClass type, [], .empty⟩, ⟨.ofMethod ⟨0⟩ [.primitive .text], [⟨0⟩], .empty⟩,
        ⟨.scope, [⟨1⟩, ⟨0⟩], .empty⟩]⟩ },
    { Activation.start ⟨1⟩ none with scopes := [⟨2⟩] }⟩

theorem bothParameters_runs_as_closed_copy :
    let host := Scripted.Program.host ⟨[], []⟩
    let args : Substitution := ⟨[.primitive .i32], [.primitive .text]⟩
    let copy : Node := .mk .dummy (.tuple [.mk .dummy (.typeOf (.primitive .i32)),
      .mk .dummy (.typeOf (.array (.primitive .text) 1))])
    inGenericMethod.world.frames.Supplies inGenericMethod.activation.frame args ∧
      evalWithin host 3 ⟨0⟩ copy inGenericMethod = evalWithin host 3 ⟨0⟩ bothParameters inGenericMethod ∧
      (evalWithin host 3 ⟨0⟩ copy inGenericMethod).1 =
        .ok (.tuple [.type (.primitive .i32), .type (.array (.primitive .text) 1)]) := by
  have frames : inGenericMethod.world.frames.Supplies inGenericMethod.activation.frame
      ⟨[.primitive .i32], [.primitive .text]⟩ := by
    exact ⟨by decide, rfl, rfl⟩
  exact ⟨frames, (generic_runs_as_closed_copy (Scripted.Program.host ⟨[], []⟩) 3 ⟨0⟩ bothParameters
    ⟨[.primitive .i32], [.primitive .text]⟩ (by decide) inGenericMethod frames).2.2.1, rfl⟩

end OpTree
