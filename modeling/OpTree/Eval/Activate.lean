/-
Making objects. A constructor is chosen by the arguments it accepts. An object
of a symbolic type is made by the host and bound to the session before any code
of its own runs; then the constructor's body runs against it. The arguments of
the constructor initializers at the start of the bodies are evaluated
beforehand, once, because the host needs those of the constructor it runs
itself; the bodies take them over when they come to them. A loaded type is
constructed by calling its constructor.
-/
import OpTree.Assignable
import OpTree.Eval.MemberTable

namespace OpTree

namespace Host

variable {σ : Type} (host : Host σ)

def acceptsArguments (fuel : Nat) (type : ClosedType) (parameters : List Parameter)
    (args : List Value) : Except Stop Bool :=
  allPairs (fun (p : Parameter) arg => do
      let expected ← Stop.ofExcept (p.type.close (Substitution.ofType type.typeArgs).resolver)
      host.accepts fuel arg expected)
    parameters args

/-- The number of instance constructors among some members, and those of them
that accept the arguments. -/
def constructorsFor (fuel : Nat) (type : ClosedType) (args : List Value) :
    List SymbolId → Except Stop (Nat × List MemberDescriptor)
  | [] => .ok (0, [])
  | symbol :: rest => do
    let member ← Stop.ofExcept (host.member symbol)
    if member.kind.isConstructor && !member.isStatic then
      let fits ← if member.arity = args.length then
          host.acceptsArguments fuel type member.parameters args
        else .ok false
      let (declared, candidates) ← constructorsFor fuel type args rest
      return (declared + 1, if fits then member :: candidates else candidates)
    else constructorsFor fuel type args rest

/-- The one constructor that accepts the arguments. There is none to run when
the type declares no constructor and there are no arguments. -/
def resolveConstructor (fuel : Nat) (descriptor : TypeDescriptor) (type : ClosedType)
    (args : List Value) : Except Stop (Option MemberDescriptor) := do
  match ← host.constructorsFor fuel type args descriptor.members with
  | (declared, []) =>
    if declared = 0 ∧ args = [] then return none
    else .error (.failed (.of (.missingConstructor descriptor.name args.length)))
  | (_, [constructor]) => return some constructor
  | (_, candidates) =>
    .error (.failed (.of (.ambiguousConstructor descriptor.name candidates.length)))

end Host

/-- Arguments of constructor initializers, evaluated before there is an object. -/
structure ConstructorChain where
  /-- Those of the host's constructor at the end of the chain. -/
  physical : List Value
  /-- Those of each interpreted constructor, the outermost body's first. -/
  interpreted : List (List Value)

namespace Context

variable {σ : Type} (c : Context σ)

/-- Follow the leading initializers from a constructor on, evaluating the
arguments of each, in at most some number of steps. The chain ends after a
constructor of the host, and before one that has nothing to run. -/
def constructorChain : Nat → SymbolId → ClosedType → List Value → Run (World σ) ConstructorChain
  | 0, _, _, _ => Run.exhausted
  | n + 1, constructor, type, args => do
    match ← c.target constructor with
    | .interpreted tree =>
      match tree.leadingInitializer? with
      | none => return ⟨[], []⟩
      | some (next, nextArgs) =>
        let member ← c.host.member constructor
        if !member.kind.isConstructor then
          Run.fail (.typeMismatch "constructor" member.kind.name)
        else if member.arity ≠ args.length then
          Run.fail (.arityMismatch member.name member.arity args.length)
        else
          let classFrame ← World.classFrame c.session type
          let methodFrame ← World.childFrame classFrame (.ofMethod constructor [])
          Run.forList (fun (p : Parameter × Value) => World.define methodFrame p.1.name p.2)
            (member.parameters.zip args)
          let nextType ← Run.ofExcept
            (next.containing.close (← Run.gets fun w => w.frames.genericArgument methodFrame))
          match ← c.target next.symbol with
          | .physical _ =>
            let values ← Run.within (.start methodFrame none) (c.evalList nextArgs)
            return ⟨values, []⟩
          | .interpreted _ =>
            let values ← Run.within (.start methodFrame none) (c.evalList nextArgs)
            let rest ← constructorChain n next.symbol nextType values
            return ⟨rest.physical, values :: rest.interpreted⟩
          | _ => return ⟨[], []⟩
    | _ => return ⟨[], []⟩

def manufacture (type : ClosedType) (args : List Value) : Run (World σ) ObjectRef := do
  Run.modify fun w => w.record (.synthesize type)
  let backing ← World.noting (.synthesize type) (Run.ofExcept (c.host.synthesize type))
  c.callHost (.construct type args) (backing args)

def declareProperties (frame : FrameId) : List SymbolId → Run (World σ) Unit
  | [] => pure ()
  | symbol :: rest => do
    let member ← c.host.member symbol
    if member.kind.isProperty then World.declare frame member.name
    declareProperties frame rest

/-- Make and bind an object; no constructor runs. The properties of an anonymous
type are declared in the instance frame. -/
def activateImplicit (type : ClosedType) (descriptor : TypeDescriptor) :
    Run (World σ) ObjectRef := do
  let o ← c.manufacture type []
  let frame ← c.bind o type
  if descriptor.kind = .anonymous then c.declareProperties frame descriptor.members
  return o

def activateWith (constructor : MemberDescriptor) (type : ClosedType) (args : List Value) :
    Run (World σ) ObjectRef := do
  if !constructor.kind.isConstructor then
    Run.fail (.typeMismatch "constructor" constructor.kind.name)
  else if constructor.arity ≠ args.length then
    Run.fail (.arityMismatch constructor.name constructor.arity args.length)
  else
    let descriptor ← c.host.descriptorOf type
    let refused : Run (World σ) ObjectRef :=
      Run.fail (.unresolvedMember constructor.name type.text "constructor cannot be activated")
    match ← c.target constructor.symbol with
    | .physical handle =>
      if descriptor.isSymbolic then refused
      else
        let call : PhysicalCall := ⟨none, args, [], type⟩
        match ← c.callHost (.invoke constructor.symbol call) (handle.invoke call) with
        | .object o => return o
        | v => Run.fail (.typeMismatch type.text v.typeName)
    | .interpreted tree =>
      let chain ← c.constructorChain c.fuel constructor.symbol type args
      let o ← c.manufacture type chain.physical
      let _ ← c.bind o type
      let activation ← c.prepare constructor.symbol type [] (some o) args
      let _ ← c.runBody { activation with prepared := chain.interpreted } tree
      return o
    | .empty => c.activateImplicit type descriptor
    | _ => refused

/-- Make an object of a type through the constructor that the arguments select. -/
def activate (type : ClosedType) (args : List Value) : Run (World σ) ObjectRef := do
  let descriptor ← c.host.descriptorOf type
  match ← c.host.resolveConstructor c.fuel descriptor type args with
  | some constructor => c.activateWith constructor type args
  | none => c.activateImplicit type descriptor

end Context

end OpTree
