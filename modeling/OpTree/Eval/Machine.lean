/-
The state of running one body, and what is known while it runs.

An activation belongs to one body: its method frame with the scopes on top,
the instance, the enclosing constructs that some operations refer back to, and
the two signals by which a statement leaves the statements around it. A machine
is an activation in the world. Calls between bodies are runs over the world
alone, so an activation never sees another.

A context is what the code of a session runs against: the host, the session,
the bound on steps, and the two ways by which evaluation comes back to itself,
evaluating a node and calling a member of an object from outside.
-/
import OpTree.World

namespace OpTree

/-- An array that an initializer is filling, and the index path to the
initializer at hand. -/
structure ArrayInit where
  array : ArrayRef
  path : List Int

structure Activation where
  /-- The method frame. -/
  base : FrameId
  /-- The scopes on top of it, the innermost first. -/
  scopes : List FrameId
  /-- The frame of the current instance. -/
  instanceFrame : Option FrameId
  /-- The objects whose initializers are being evaluated, the innermost first. -/
  receivers : List Value
  /-- The receivers of the conditional accesses around, the innermost first. -/
  conditionals : List Value
  /-- The arrays being filled, the innermost first. -/
  arrayInits : List ArrayInit
  /-- Set by a return: every enclosing block and loop stops. -/
  pendingReturn : Option Value
  /-- Set by a branch: the nearest loop takes it back. -/
  branch : Option BranchKind
  /-- Arguments of constructor initializers that were evaluated beforehand. -/
  prepared : List (List Value)

namespace Activation

def start (base : FrameId) (instanceFrame : Option FrameId) : Activation :=
  ⟨base, [], instanceFrame, [], [], [], none, none, []⟩

def frame (a : Activation) : FrameId := a.scopes.headD a.base

/-- A statement has asked to leave the statements around it. -/
def interrupted (a : Activation) : Bool := a.pendingReturn.isSome || a.branch.isSome

end Activation

structure Machine (σ : Type) where
  world : World σ
  activation : Activation

/-- What the code of a session runs against. -/
structure Context (σ : Type) where
  host : Host σ
  session : SessionId
  fuel : Nat
  /-- Evaluate a node of the session. -/
  eval : Node → Run (Machine σ) Value
  /-- Call a member of an object through the object's link. -/
  dispatch : ObjectRef → SymbolId → List ClosedType → List Value → Run (World σ) Value

namespace Run

variable {σ α : Type}

def onWorld (m : Run (World σ) α) : Run (Machine σ) α := fun s =>
  match s with
  | ⟨world, activation⟩ =>
    match m world with
    | (r, world') => (r, ⟨world', activation⟩)

instance : MonadLift (Run (World σ)) (Run (Machine σ)) := ⟨onWorld⟩

/-- A run in an activation of its own, as one over the world. -/
def within (a : Activation) (m : Run (Machine σ) α) : Run (World σ) α := fun w =>
  match m ⟨w, a⟩ with
  | (r, s) => (r, s.world)

def modifyActivation (f : Activation → Activation) : Run (Machine σ) Unit :=
  Run.modify fun s => { s with activation := f s.activation }

/-- Run between two changes of the activation; the second is made however the
run ends. -/
def between (before after : Activation → Activation) (m : Run (Machine σ) α) :
    Run (Machine σ) α := do
  modifyActivation before
  m.restoring fun s => { s with activation := after s.activation }

def withScope (m : Run (Machine σ) α) : Run (Machine σ) α := do
  let frame ← Run.gets fun s => s.activation.frame
  let scope ← onWorld (World.childFrame frame .scope)
  between (fun a => { a with scopes := scope :: a.scopes })
    (fun a => { a with scopes := a.scopes.tail }) m

def currentFrame : Run (Machine σ) FrameId := Run.gets fun s => s.activation.frame

def closeType (t : TypeRef) : Run (Machine σ) ClosedType := fun s =>
  ofExcept (t.close (s.world.frames.genericArgument s.activation.frame)) s

def currentInstance : Run (Machine σ) ObjectRef := fun s =>
  match s.activation.instanceFrame.bind s.world.frames.currentInstance? with
  | some o => (.ok o, s)
  | none => (.error (.failed (.of .noCurrentInstance)), s)

end Run

/-- A member whose containing type and type arguments are closed. -/
structure ResolvedMember where
  symbol : SymbolId
  containing : ClosedType
  typeArgs : List ClosedType

def Run.closeMember {σ : Type} (m : MemberUse) : Run (Machine σ) ResolvedMember := fun s =>
  let resolver := s.world.frames.genericArgument s.activation.frame
  ofExcept (do
    let containing ← m.containing.close resolver
    let typeArgs ← TypeRef.closeAll resolver m.typeArgs
    return ⟨m.symbol, containing, typeArgs⟩) s

namespace HostAction

variable {σ α : Type}

/-- Carry out a plan of the host, given how members of objects are called. An
error that a call answers goes to the plan, which decides about it. -/
def run (dispatch : ObjectRef → SymbolId → List ClosedType → List Value → Run (World σ) Value) :
    HostAction σ α → Run (World σ) α
  | .done result => Run.ofExcept result
  | .read next => fun w => (next w.host).run dispatch w
  | .write state next => fun w => next.run dispatch { w with host := state }
  | .allocate type next => fun w =>
    match w.newObject type with
    | (o, w') => (next o).run dispatch w'
  | .dispatch object member typeArgs args next => fun w =>
    match dispatch object member typeArgs args w with
    | (.ok v, w') => (next (.ok v)).run dispatch w'
    | (.error (.failed e), w') => (next (.error e)).run dispatch w'
    | (.error .exhausted, w') => (.error .exhausted, w')

end HostAction

namespace Context

variable {σ α : Type} (c : Context σ)

/-- Note a call to the host and carry it out. -/
def callHost (call : HostCall) (action : HostAction σ α) : Run (World σ) α := do
  Run.modify fun w => w.record call
  World.noting call (action.run c.dispatch)

def evalList (nodes : List Node) : Run (Machine σ) (List Value) := Run.mapList c.eval nodes

/-- Run a body to its end: its answer is what it returned, or else the value of
its root. A branch that no loop took is an error. -/
def runBody (a : Activation) (body : Node) : Run (World σ) Value := fun w =>
  match c.eval body ⟨w, a⟩ with
  | (.ok v, s) =>
    match s.activation.branch with
    | some _ => (.error (.failed (.of (.missingContext "enclosing loop"))), s.world)
    | none => (.ok (s.activation.pendingReturn.getD v), s.world)
  | (.error e, s) => (.error e, s.world)

end Context

end OpTree
