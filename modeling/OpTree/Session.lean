/-
What a session offers: making objects, interpreting members in a frame, and the
frames and tables behind them. Every function that runs code takes a bound on
the steps, and every one that begins a piece of work first looks whether it was
cancelled.
-/
import OpTree.Eval.Engine

namespace OpTree

/-- A session of a host, with a bound on the steps that it may take. -/
structure Session (σ : Type) where
  host : Host σ
  id : SessionId
  fuel : Nat

namespace Session

variable {σ : Type} (s : Session σ)

def context : Context σ := .within s.host s.fuel s.id

def checkCancelled (cancelled : Bool) : Run (World σ) Unit :=
  if cancelled then Run.fail .cancelled else pure ()

def createInstance (type : ClosedType) (args : List Value) (cancelled : Bool) :
    Run (World σ) ObjectRef := do
  checkCancelled cancelled
  s.context.activate type args

def createInstanceWith (constructor : SymbolId) (type : ClosedType) (args : List Value)
    (cancelled : Bool) : Run (World σ) ObjectRef := do
  checkCancelled cancelled
  let member ← s.host.member constructor
  s.context.activateWith member type args

def classTypeOf (frame : FrameId) : Run (World σ) ClosedType := fun w =>
  match w.frames.classType? frame with
  | some type => (.ok type, w)
  | none => (.error (.failed (.of (.missingContext "class frame"))), w)

/-- Interpret a member in a frame: the frame's instance, if there is one, is the
receiver, and the type under the frame contains the member. -/
def interpretGeneric (member : SymbolId) (frame : FrameId) (typeArgs : List ClosedType)
    (args : List Value) (cancelled : Bool) : Run (World σ) Value := do
  checkCancelled cancelled
  let containing ← classTypeOf frame
  let receiver ← Run.gets fun w => (w.frames.currentInstance? frame).map Value.object
  s.context.callMember ⟨member, containing, typeArgs⟩ receiver args false

def interpret (member : SymbolId) (frame : FrameId) (args : List Value) (cancelled : Bool) :
    Run (World σ) Value :=
  s.interpretGeneric member frame [] args cancelled

def interpretConstructor (constructor : SymbolId) (frame : FrameId) (args : List Value)
    (cancelled : Bool) : Run (World σ) Unit := do
  checkCancelled cancelled
  match ← Run.gets fun w => w.frames.currentInstance? frame with
  | none => Run.fail .noCurrentInstance
  | some o =>
    let containing ← classTypeOf frame
    match ← s.context.target constructor with
    | .interpreted tree =>
      let _ ← s.context.runInterpreted tree constructor containing [] (some o) args
      return ()
    | .empty => return ()
    | _ =>
      Run.fail (.unresolvedMember (s.host.memberName constructor) containing.text
        "constructor has no interpretable body")

/-- The arguments that a constructor passes on to the constructor of the host at
the end of its chain. -/
def physicalArguments (constructor : SymbolId) (type : ClosedType) (args : List Value) :
    Run (World σ) (List Value) := do
  let chain ← s.context.constructorChain s.fuel constructor type args
  return chain.physical

def classFrame (type : ClosedType) : Run (World σ) FrameId := World.classFrame s.id type

def memberTable (type : ClosedType) : Run (World σ) MemberTable := s.context.memberTable type

/-- End the session: what it has decided stays, and its objects cannot be called
from outside any more. -/
def close : Run (World σ) Unit :=
  Run.modify fun w => w.mapSession s.id fun state => { state with isOpen := false }

end Session

/-- Call a member of an object through its link, whoever serves it. -/
def ObjectRef.dispatch {σ : Type} (o : ObjectRef) (host : Host σ) (fuel : Nat) (member : SymbolId)
    (typeArgs : List ClosedType) (args : List Value) : Run (World σ) Value :=
  dispatchWithin host fuel o member typeArgs args

end OpTree
