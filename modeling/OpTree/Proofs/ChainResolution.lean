/-
Frames as resolvers. A frame answers for a generic parameter by going along its chain until a
frame holds arguments for the parameter's level; a substitution looks the parameter up in one of
two lists. The two give every type the same closed form, or the same error: the type's arguments
are those of the class frame at the root, the method's are those of the nearest method frame
(`FrameStore.StandsOn.chain_resolves`).

It takes no more of a chain than its kinds. `StandsOn` gives them, and every frame that is made
has them (`standsOn_afterAll`), since a class frame is the only one that stands on nothing.
-/
import OpTree.Proofs.Generic
import OpTree.Proofs.Shadowing

namespace OpTree

/-- The arguments of the nearest method frame, by the kinds of the frames; there are none
without a method frame. -/
def FrameKind.methodArguments : List FrameKind → List ClosedType
  | [] => []
  | .ofMethod _ args :: _ => args
  | .ofClass _ :: kinds | .ofInstance _ :: kinds | .scope :: kinds => methodArguments kinds

/-! ## The parameter that keeps a type open -/

namespace Substitution

variable (args : Substitution)

/-- The first parameter in a type that has no argument. -/
def missing? (t : TypeRef) : Option GenericParam := t.params.find? fun p => ¬args.Covers p

theorem covers_of_missing? {ps : List GenericParam}
    (h : (ps.find? fun p => ¬args.Covers p) = none) : ∀ p ∈ ps, args.Covers p := by
  simpa using h

theorem resolver_of_not_covers {p : GenericParam} (h : ¬args.Covers p) :
    args.resolver p = .error p.unbound := by
  have out : (args.arguments p.level).length ≤ p.ordinal := Nat.le_of_not_lt h
  rw [resolver_eq, GenericParam.argument, List.getElem?_eq_none out]

mutual

theorem close_missing {p : GenericParam} : ∀ t : TypeRef, args.missing? t = some p →
    t.close args.resolver = .error p.unbound
  | .primitive _, h => by cases h
  | .named d ts, h => by rw [TypeRef.close, closeAll_missing ts h]; rfl
  | .param q, h => by
    have open' : ¬args.Covers q := by
      intro covered
      simp [missing?, TypeRef.params, covered] at h
    have same : q = p := by simpa [missing?, TypeRef.params, open'] using h
    rw [TypeRef.close, args.resolver_of_not_covers open', same]
  | .array element rank, h => by rw [TypeRef.close, close_missing element h]; rfl
  | .tuple ts, h => by rw [TypeRef.close, closeAll_missing ts h]; rfl
  | .nullable inner, h => by rw [TypeRef.close, close_missing inner h]; rfl

theorem closeAll_missing {p : GenericParam} : ∀ ts : List TypeRef,
    ((TypeRef.paramsAll ts).find? fun p => ¬args.Covers p) = some p →
      TypeRef.closeAll args.resolver ts = .error p.unbound
  | [], h => by cases h
  | t :: ts, h => by
    rw [TypeRef.paramsAll, List.find?_append] at h
    rw [TypeRef.closeAll]
    cases first : args.missing? t with
    | some q =>
      rw [show (t.params.find? fun p => ¬args.Covers p) = some q from first] at h
      cases h
      rw [close_missing t first]
      rfl
    | none =>
      rw [show (t.params.find? fun p => ¬args.Covers p) = none from first, Option.none_or] at h
      obtain ⟨c, hc⟩ := args.exists_close t (args.covers_of_missing? first)
      rw [hc, closeAll_missing ts h]
      rfl

end

/-- A type closes unless a parameter in it has no argument; the first such one is reported. -/
theorem close_cases (t : TypeRef) :
    match args.missing? t with
    | none => ∃ c, t.close args.resolver = .ok c
    | some p => t.close args.resolver = .error p.unbound := by
  cases h : args.missing? t with
  | none => exact args.exists_close t (args.covers_of_missing? h)
  | some p => exact args.close_missing t h

end Substitution

/-! ## Chains by their kinds -/

namespace FrameStore

variable {s s' : FrameStore} {f : FrameId} {above : List FrameKind} {type : ClosedType}

/-- The chain of a frame ends in the class frame of a type, and the frames on top of it, of some
kinds, the nearest first, are no class frames. -/
structure StandsOn (s : FrameStore) (f : FrameId) (above : List FrameKind) (type : ClosedType) :
    Prop where
  kinds : (s.chain f).map s.kind? = above.map some ++ [some (.ofClass type)]
  nested : ∀ kind ∈ above, kind.isClass = false

theorem argumentsOf?_type {fs : List FrameId}
    (kinds : fs.map s.kind? = above.map some ++ [some (.ofClass type)])
    (nested : ∀ kind ∈ above, kind.isClass = false) :
    s.argumentsOf? .type fs = some type.typeArgs := by
  induction above generalizing fs with
  | nil =>
    obtain ⟨g, gs, rfl, hg, -⟩ := List.map_eq_cons_iff.1 kinds
    rw [argumentsOf?, hg]
    rfl
  | cons kind above ih =>
    obtain ⟨g, gs, rfl, hg, hgs⟩ := List.map_eq_cons_iff.1 kinds
    have rest := ih hgs fun k hk => nested k (List.mem_cons_of_mem _ hk)
    have own : kind.arguments? .type = none := by
      have := nested kind List.mem_cons_self
      cases kind <;> first | rfl | cases this
    rw [argumentsOf?, hg, Option.bind_some, own]
    exact rest

theorem argumentsOf?_method {fs : List FrameId}
    (kinds : fs.map s.kind? = above.map some ++ [some (.ofClass type)]) :
    (s.argumentsOf? .method fs).getD [] = FrameKind.methodArguments above := by
  induction above generalizing fs with
  | nil =>
    obtain ⟨g, gs, rfl, hg, hgs⟩ := List.map_eq_cons_iff.1 kinds
    cases List.map_eq_nil_iff.1 hgs
    rw [argumentsOf?, hg]
    rfl
  | cons kind above ih =>
    obtain ⟨g, gs, rfl, hg, hgs⟩ := List.map_eq_cons_iff.1 kinds
    have rest := ih hgs
    rw [argumentsOf?, hg, Option.bind_some]
    cases kind with
    | ofMethod => rfl
    | ofClass | ofInstance | scope => exact rest

namespace StandsOn

theorem rooted (h : s.StandsOn f above type) : s.Rooted f := by
  intro g hg
  have known : s.kind? g ∈ above.map some ++ [some (.ofClass type)] :=
    h.kinds ▸ List.mem_map_of_mem hg
  have some' : (s.kind? g).isSome := by
    rcases List.mem_append.1 known with hk | hk
    · obtain ⟨kind, -, hk⟩ := List.mem_map.1 hk
      rw [← hk]
      rfl
    · rw [List.mem_singleton.1 hk]
      rfl
  rwa [kind?, Option.isSome_map] at some'

theorem supplies (h : s.StandsOn f above type) :
    s.Supplies f ⟨type.typeArgs, FrameKind.methodArguments above⟩ :=
  ⟨h.rooted, argumentsOf?_type h.kinds h.nested, argumentsOf?_method h.kinds⟩

/-- Through the frame a type closes as it does through the two lists of arguments: to the same
type, or with the same error, which names the first parameter without an argument. -/
theorem chain_resolves (h : s.StandsOn f above type) (t : TypeRef) :
    let args : Substitution := ⟨type.typeArgs, FrameKind.methodArguments above⟩
    t.close (s.genericArgument f) = t.close args.resolver ∧
      match t.params.find? fun p => ¬args.Covers p with
      | none => ∃ c, t.close (s.genericArgument f) = .ok c
      | some p => t.close (s.genericArgument f) = .error p.unbound := by
  intro args
  rw [h.supplies.resolver]
  exact ⟨rfl, args.close_cases t⟩

end StandsOn

/-! ## The chains of frames that are made -/

theorem StandsOn.root (s : FrameStore) (type : ClosedType) :
    (s.addClass type).2.StandsOn (s.addClass type).1 [] type where
  kinds := by simp [addClass, chain, kind?]
  nested := nofun

theorem StandsOn.child (h : s.StandsOn f above type) {kind : FrameKind}
    (nested : kind.isClass = false) :
    (s.addChild f kind).2.StandsOn (s.addChild f kind).1 (kind :: above) type where
  kinds := by
    have hs : s.Extends (s.addChild f kind).2 := extends_add s kind _
    rw [chain_addChild, List.map_cons, kind?_addChild,
      List.map_congr_left fun g hg => hs.kind? (h.rooted g hg), h.kinds]
    rfl
  nested := List.forall_mem_cons.2 ⟨nested, h.nested⟩

theorem StandsOn.grown (h : s.StandsOn f above type) (hs : s.Extends s') :
    s'.StandsOn f above type where
  kinds := by
    rw [h.rooted.chain_eq hs, List.map_congr_left fun g hg => hs.kind? (h.rooted g hg), h.kinds]
  nested := h.nested

/-- Every frame stands on a class frame. -/
def Founded (s : FrameStore) : Prop := ∀ f, s.Has f → ∃ above type, s.StandsOn f above type

theorem Founded.add (h : s.Founded) {kind : FrameKind} {as : List FrameId}
    (new : ∃ above type, (s.add kind as).2.StandsOn (s.add kind as).1 above type) :
    (s.add kind as).2.Founded := by
  intro f hf
  rcases (has_add_iff s kind as).1 hf with hf | rfl
  · obtain ⟨above, type, stands⟩ := h f hf
    exact ⟨above, type, stands.grown (extends_add s kind as)⟩
  · exact new

theorem Founded.bindAt (h : s.Founded) (f : FrameId) (name : String) (b : Binding) :
    (s.bindAt f name b).Founded := by
  intro g hg
  have has : s.Has g := by simpa [has_iff_lt, FrameStore.bindAt] using hg
  obtain ⟨above, type, stands⟩ := h g has
  exact ⟨above, type, stands.grown (extends_bindAt s f name b)⟩

end FrameStore

/-- No class frame is put on another frame. -/
def FrameChange.Roots : FrameChange → Prop
  | .childFrame _ kind => kind.isClass = false
  | .classFrame _ | .declare .. | .define .. | .defineOrAssign .. | .assign .. => True

namespace FrameStore

variable {s : FrameStore}

theorem Founded.insert (h : s.Founded) {c : FrameChange} {f : FrameId} {name : String} {b : Binding}
    (hc : s.apply c = s.insert f name b) : (s.after c).Founded := by
  rw [after, hc, FrameStore.insert]
  cases s.isBound f name with
  | true => exact h
  | false => exact h.bindAt f name b

theorem Founded.after (h : s.Founded) {c : FrameChange} (on : c.On s) (roots : c.Roots) :
    (s.after c).Founded := by
  cases c with
  | classFrame type => exact h.add ⟨[], type, .root s type⟩
  | childFrame parent kind =>
    obtain ⟨above, type, stands⟩ := h parent on
    exact h.add ⟨kind :: above, type, stands.child roots⟩
  | declare f name => exact h.insert rfl
  | define f name v => exact h.insert rfl
  | assign f name v =>
    rw [FrameStore.after, apply, assign]
    cases s.lookup? f name with
    | some old => exact h.bindAt old.1 name _
    | none => exact h
  | defineOrAssign f name v =>
    rw [FrameStore.after, apply, defineOrAssign]
    cases s.lookup? f name with
    | some old => exact h.bindAt old.1 name _
    | none => exact h.bindAt f name _

theorem Founded.afterAll {cs : List FrameChange} (h : s.Founded) (on : s.Throughout FrameChange.On cs)
    (roots : ∀ c ∈ cs, c.Roots) : (s.afterAll cs).Founded := by
  induction cs generalizing s with
  | nil => exact h
  | cons c cs ih =>
    have first := h.after on.1 (roots c List.mem_cons_self)
    exact ih first on.2 fun c hc => roots c (List.mem_cons_of_mem _ hc)

/-- Whatever is done to frames, each stands on a class frame through frames that are none. -/
theorem standsOn_afterAll (cs : List FrameChange) (on : empty.Throughout FrameChange.On cs)
    (roots : ∀ c ∈ cs, c.Roots) {f : FrameId} (has : (empty.afterAll cs).Has f) :
    ∃ above type, (empty.afterAll cs).StandsOn f above type := by
  have none' : empty.Founded := by
    intro f hf
    simp [has_iff_lt, empty] at hf
  exact none'.afterAll on roots f has

end FrameStore

/-- A call of a method with one type argument, made from a call of one with two on an object of a
generic type. -/
def callInCall : List FrameChange :=
  [.classFrame (.named ⟨1⟩ [.primitive .i32, .primitive .text]), .childFrame ⟨0⟩ (.ofInstance none),
    .childFrame ⟨1⟩ (.ofMethod ⟨30⟩ [.primitive .bool, .primitive .char]), .childFrame ⟨2⟩ .scope,
    .childFrame ⟨3⟩ (.ofMethod ⟨31⟩ [.primitive .i64]), .childFrame ⟨4⟩ .scope]

/-- The inner call answers for methods, also where it has no argument and the outer call has. -/
theorem callInCall_resolves :
    let s := FrameStore.empty.afterAll callInCall
    s.StandsOn ⟨5⟩ [.scope, .ofMethod ⟨31⟩ [.primitive .i64], .scope,
        .ofMethod ⟨30⟩ [.primitive .bool, .primitive .char], .ofInstance none]
        (.named ⟨1⟩ [.primitive .i32, .primitive .text]) ∧
      (TypeRef.tuple [.array (.param ⟨.method, 0⟩) 1, .nullable (.param ⟨.type, 1⟩)]).close
          (s.genericArgument ⟨5⟩) =
        .ok (.tuple [.array (.primitive .i64) 1, .nullable (.primitive .text)]) ∧
      (TypeRef.named ⟨2⟩ [.param ⟨.type, 0⟩, .param ⟨.method, 1⟩, .param ⟨.type, 2⟩]).close
          (s.genericArgument ⟨5⟩) = .error (GenericParam.unbound ⟨.method, 1⟩) := by
  intro s
  have stands : s.StandsOn ⟨5⟩ [.scope, .ofMethod ⟨31⟩ [.primitive .i64], .scope,
      .ofMethod ⟨30⟩ [.primitive .bool, .primitive .char], .ofInstance none]
      (.named ⟨1⟩ [.primitive .i32, .primitive .text]) := by
    exact ⟨rfl, by decide⟩
  have closed := (stands.chain_resolves
    (.tuple [.array (.param ⟨.method, 0⟩) 1, .nullable (.param ⟨.type, 1⟩)])).1
  have stopped := (stands.chain_resolves
    (.named ⟨2⟩ [.param ⟨.type, 0⟩, .param ⟨.method, 1⟩, .param ⟨.type, 2⟩])).2
  exact ⟨stands, closed, stopped⟩

end OpTree
