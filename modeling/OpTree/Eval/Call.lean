/-
Calls and reads as a tree writes them: which receiver a member is reached on,
and what is evaluated in which order. The member is closed first, then the
receiver is evaluated, then the arguments from left to right.
-/
import OpTree.Eval.Activate
import OpTree.Value.Arithmetic

namespace OpTree.Context

variable {σ : Type} (c : Context σ)

/-- The receiver of a member: an explicit one is evaluated; without one an
instance member is reached on the current instance, and a static one on none. -/
def receiverFor (m : ResolvedMember) (receiver : Option Node) : Run (Machine σ) (Option Value) :=
  match receiver with
  | some node => do return some (← c.eval node)
  | none => do
    let member ← c.host.member m.symbol
    if member.isStatic then return none
    else return some (.object (← Run.currentInstance))

def readMember (use : MemberUse) (receiver : Option Node) (index : List Node) (isVirtual : Bool) :
    Run (Machine σ) Value := do
  let m ← Run.closeMember use
  let receiver ← c.receiverFor m receiver
  let index ← c.evalList index
  c.getMember m receiver index isVirtual

def invoke (use : MemberUse) (receiver : Option Node) (args : List Node) (isVirtual : Bool) :
    Run (Machine σ) Value := do
  let m ← Run.closeMember use
  let receiver ← c.receiverFor m receiver
  let args ← c.evalList args
  c.callMember m receiver args isVirtual

/-- Call a declared operator or conversion. -/
def callOperator (use : MemberUse) (args : List Value) : Run (Machine σ) Value := do
  let m ← Run.closeMember use
  c.callMember m none args false

/-- A binary operator, declared or built in. -/
def applyBinary (op : BinaryOp) (operator : Option MemberUse) (l r : Value) :
    Run (Machine σ) Value :=
  match operator with
  | some use => c.callOperator use [l, r]
  | none => Run.ofExcept (op.eval l r)

/-- Evaluate an object initializer, or a part of one, for an object. -/
def evalFor (o : Value) (initializer : Node) : Run (Machine σ) Value :=
  Run.between (fun a => { a with receivers := o :: a.receivers })
    (fun a => { a with receivers := a.receivers.tail }) (c.eval initializer)

/-- The arguments of a constructor initializer: the next ones prepared, if there
are any, and else the evaluated ones. What remains prepared is for the body that
is called, and none of it is left here. -/
def initializerArguments (args : List Node) : Run (Machine σ) (List Value × List (List Value)) := do
  match ← Run.gets fun s => s.activation.prepared with
  | [] => return (← c.evalList args, [])
  | values :: rest =>
    Run.modifyActivation fun a => { a with prepared := [] }
    return (values, rest)

/-- Run another constructor against the current instance. One that the host runs
has run already, and an absent one has nothing to run. -/
def runConstructorInitializer (use : MemberUse) (args : List Node) : Run (Machine σ) Value := do
  let m ← Run.closeMember use
  match ← c.target m.symbol with
  | .interpreted tree =>
    let o ← Run.currentInstance
    let (values, rest) ← c.initializerArguments args
    let activation ← c.prepare m.symbol m.containing [] (some o) values
    let _ ← c.runBody { activation with prepared := rest } tree
    return .void
  | _ => return .void

def createObject (use : MemberUse) (args : List Node) (initializer : Option Node) :
    Run (Machine σ) Value := do
  let m ← Run.closeMember use
  let args ← c.evalList args
  let constructor ← c.host.member m.symbol
  let o ← c.activateWith constructor m.containing args
  match initializer with
  | some node =>
    let _ ← c.evalFor (.object o) node
    return .object o
  | none => return .object o

def createAnonymous (type : TypeRef) (initializers : List Node) : Run (Machine σ) Value := do
  let closed ← Run.closeType type
  let o ← c.activate closed []
  Run.forList (fun node => do
      let _ ← c.evalFor (.object o) node
      return ())
    initializers
  return .object o

end OpTree.Context
