/-
Places that are written to. A place is found first, with its receiver and its
indices evaluated; then comes the value, then the store. So what is read and
what is written by a compound assignment is one and the same place.
-/
import OpTree.Eval.Arrays
import OpTree.Eval.Call
import OpTree.Eval.Control

namespace OpTree

/-- Something that can be written to. -/
inductive Place where
  | named (name : String)
  | member (m : ResolvedMember) (receiver : Option Value) (index : List Value) (isVirtual : Bool)
  | element (array : ArrayRef) (indices : List Int)
  | discard
  /-- The places of a tuple's components. -/
  | tuple (places : List Place)

namespace Context

variable {σ : Type} (c : Context σ)

/-- The place of a member, indices included. -/
def memberPlace (use : MemberUse) (receiver : Option Node) (index : List Node) (isVirtual : Bool) :
    Run (Machine σ) Place := do
  let m ← Run.closeMember use
  let receiver ← c.receiverFor m receiver
  let index ← c.evalList index
  return .member m receiver index isVirtual

/-- The place that a target other than a tuple names. An operation that is no
target is an error at that operation; other errors belong to the assignment. -/
def leafPlace (span : Span) (op : Op) : Run (Machine σ) Place :=
  match op with
  | .localRef name | .parameterRef name => pure (.named name)
  | .declarationTarget name => do
    Run.declareLocal name
    return .named name
  | .discard => pure .discard
  | .fieldRef field receiver => c.memberPlace field receiver [] false
  | .propertyRef property receiver index isVirtual =>
    c.memberPlace property receiver index isVirtual
  | .arrayElement array index => do
    let (a, is) ← c.elementTarget array index
    return .element a is
  | op => Run.orSpan span (Run.fail (.unsupportedOperation op.kindName))

mutual

/-- The place that a target names. -/
def place : Node → Run (Machine σ) Place
  | .mk _ (.tuple targets) => do return .tuple (← places targets)
  | .mk span op => c.leafPlace span op

/-- The places that targets name, from left to right. -/
def places : List Node → Run (Machine σ) (List Place)
  | [] => pure []
  | target :: rest => do
    let p ← place target
    let ps ← places rest
    return p :: ps

end

def load : Place → Run (Machine σ) Value
  | .named name => fun s => Run.ofExcept (s.world.readName s.activation.frame name) s
  | .member m receiver index isVirtual => c.getMember m receiver index isVirtual
  | .element a is => fun s => Run.ofExcept (s.world.getElement a is) s
  | .discard | .tuple _ => Run.fail (.unsupportedOperation "read of a write-only target")

mutual

/-- Write to a place. A tuple of the right length goes component by component,
from left to right. -/
def store : Place → Value → Run (Machine σ) Unit
  | .named name, v => do
    let frame ← Run.currentFrame
    Run.onWorld (World.assign frame name v)
  | .member m receiver index isVirtual, v => c.setMember m receiver index v isVirtual
  | .element a is, v => Run.onWorld (World.setElement a is v)
  | .discard, _ => pure ()
  | .tuple targets, .tuple values =>
    if values.length = targets.length then storeAll targets values
    else Run.fail (.typeMismatch s!"tuple of {targets.length}" (Value.tuple values).typeName)
  | .tuple _, .null => Run.fail (.nullReference "Deconstruct")
  | .tuple targets, v => Run.fail (.typeMismatch s!"tuple of {targets.length}" v.typeName)

def storeAll : List Place → List Value → Run (Machine σ) Unit
  | p :: ps, v :: vs => do
    store p v
    storeAll ps vs
  | _, _ => pure ()

end

/-- Assignment, also of a tuple to a tuple of targets. Its value is the value
assigned. -/
def assign (target value : Node) : Run (Machine σ) Value := do
  let p ← c.place target
  let v ← c.eval value
  c.store p v
  return v

/-- Assignment of an operator's result; the left operand is what the place holds
before the right one is evaluated. -/
def compoundAssign (op : BinaryOp) (target value : Node) (operator : Option MemberUse) :
    Run (Machine σ) Value := do
  let p ← c.place target
  let current ← c.load p
  let rhs ← c.eval value
  let result ← c.applyBinary op operator current rhs
  c.store p result
  return result

/-- Step a place up or down; a postfix step has the old value. -/
def increment (target : Node) (decrement postfixed : Bool) (operator : Option MemberUse) :
    Run (Machine σ) Value := do
  let p ← c.place target
  let old ← c.load p
  let new ← match operator with
    | some use => c.callOperator use [old]
    | none => Run.ofExcept (old.step decrement)
  c.store p new
  return if postfixed then old else new

end Context

end OpTree
