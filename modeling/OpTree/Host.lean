/-
The host: what the library is given. It describes types and members, gives
members their trees, and stands behind whatever is not interpreted: a handle
calls a loaded member, a backing type makes objects.

What a handle does is a `HostAction`: a finite plan over the host's own state
that may make objects and may call members of objects back. Such a plan is
data, so that statements can range over every host.
-/
import OpTree.Descriptor
import OpTree.Tree

namespace OpTree

/-- What the host does when it is called: it reads and writes its own state of
type `σ`, makes unbound objects, calls members of objects, and ends. -/
inductive HostAction (σ α : Type) : Type where
  | done (result : Except EvalError α)
  | read (next : σ → HostAction σ α)
  | write (state : σ) (next : HostAction σ α)
  | allocate (type : ClosedType) (next : ObjectRef → HostAction σ α)
  | dispatch (object : ObjectRef) (member : SymbolId) (typeArgs : List ClosedType)
      (args : List Value) (next : Except EvalError Value → HostAction σ α)

namespace HostAction

variable {σ α : Type}

def ok (a : α) : HostAction σ α := .done (.ok a)

def fail (cause : Cause) : HostAction σ α := .done (.error (.of cause))

end HostAction

structure PhysicalCall where
  /-- None for static members and constructors. -/
  receiver : Option Value
  args : List Value
  /-- The type arguments of a generic method. -/
  typeArgs : List ClosedType
  /-- The type that the call takes to contain the member. -/
  containing : ClosedType

structure Handle (σ : Type) where
  invoke : PhysicalCall → HostAction σ Value
  /-- Read a field. -/
  load : Option Value → HostAction σ Value
  /-- Write a field. -/
  store : Option Value → Value → HostAction σ Unit

namespace Handle

variable {σ : Type}

/-- A handle that can be called and is no field. -/
def ofInvoke (invoke : PhysicalCall → HostAction σ Value) : Handle σ where
  invoke := invoke
  load _ := .fail (.unsupportedOperation "physical field load")
  store _ _ := .fail (.unsupportedOperation "physical field store")

end Handle

/-- The type behind the objects of a symbolic type: it makes one from the
arguments of the base constructor that the host itself runs. -/
abbrev Backing (σ : Type) := List Value → HostAction σ ObjectRef

structure DescriptorLayer (σ : Type) where
  typeDescriptor : TypeId → Except EvalError TypeDescriptor
  member : SymbolId → Except EvalError MemberDescriptor
  /-- The loaded implementation of a member, if it has one. -/
  handle : SymbolId → Except EvalError (Option (Handle σ))

structure Host (σ : Type) extends DescriptorLayer σ where
  /-- The body of a member, if it has one. -/
  tree : SymbolId → Option Node
  /-- The backing of a closed type, unless the host refuses it. -/
  synthesize : ClosedType → Except EvalError (Backing σ)

/-- The parts of a host, of which some may not be given yet. -/
structure HostParts (σ : Type) where
  descriptors : Option (DescriptorLayer σ)
  synthesizer : Option (ClosedType → Except EvalError (Backing σ))
  trees : Option (SymbolId → Option Node)

/-- The host made of all parts, or an error that names the first missing one. -/
def HostParts.build {σ : Type} (parts : HostParts σ) : Except EvalError (Host σ) :=
  match parts.descriptors, parts.synthesizer, parts.trees with
  | none, _, _ => .error (.of (.host "session requires a descriptor layer"))
  | some _, none, _ => .error (.of (.host "session requires a type synthesizer"))
  | some _, some _, none => .error (.of (.host "session requires an operation-tree provider"))
  | some descriptors, some synthesize, some tree =>
    .ok { descriptors with tree := tree, synthesize := synthesize }

namespace Host

variable {σ : Type} (host : Host σ)

/-- A member's name for messages; an unknown one goes by its symbol. -/
def memberName (symbol : SymbolId) : String :=
  match host.member symbol with
  | .ok m => m.name
  | .error _ => s!"SymbolId({symbol.raw})"

/-- A type's name for messages; an unknown one goes by its identity. -/
def typeName (definition : TypeId) : String :=
  match host.typeDescriptor definition with
  | .ok d => d.name
  | .error _ => s!"TypeDefId({definition.raw})"

def descriptorOf (type : ClosedType) : Except EvalError TypeDescriptor :=
  match type.definition? with
  | some d => host.typeDescriptor d
  | none => .error (.of (.typeMismatch "named type" type.text))

end Host

/-- One call that left the library for the host. -/
inductive HostCall where
  | invoke (member : SymbolId) (call : PhysicalCall)
  | load (member : SymbolId) (receiver : Option Value)
  | store (member : SymbolId) (receiver : Option Value) (value : Value)
  | synthesize (type : ClosedType)
  | construct (type : ClosedType) (args : List Value)

structure HostFailure where
  call : HostCall
  error : EvalError
  /-- How many calls had been made by then, this one included. -/
  calls : Nat

end OpTree
