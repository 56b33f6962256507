/-
One operation: what it evaluates, in which order, and what it answers. All of
an operation's operands are evaluated through the context, so this says
everything about a node and nothing about how deep a tree goes.
-/
import OpTree.Eval.Place
import OpTree.Value.Format

namespace OpTree.Context

variable {σ : Type} (c : Context σ)

/-- A binary operator. When the left operand of a built-in `&&` or `||` decides
the answer, the right one is not evaluated. -/
def evalBinary (op : BinaryOp) (left right : Node) (operator : Option MemberUse) :
    Run (Machine σ) Value := do
  let l ← c.eval left
  match op.isShortCircuit && operator.isNone, l with
  | true, .bool b =>
    if b == decide (op = .or) then return .bool b
    else
      let r ← c.test right
      return .bool r
  | _, l =>
    let r ← c.eval right
    c.applyBinary op operator l r

def evalUnary (op : UnaryOp) (operand : Node) (operator : Option MemberUse) :
    Run (Machine σ) Value := do
  let v ← c.eval operand
  match operator with
  | some use => c.callOperator use [v]
  | none => Run.ofExcept (op.apply v)

def evalConversion (operand : Node) (target : TypeRef) (kind : ConversionKind)
    (operator : Option MemberUse) : Run (Machine σ) Value := do
  let v ← c.eval operand
  match operator with
  | some use => c.callOperator use [v]
  | none =>
    let type ← Run.closeType target
    Run.ofStop (c.host.convert c.fuel v type kind)

/-- Whether a value is of a type; null is of none. -/
def evalIsType (operand : Node) (target : TypeRef) (negated : Bool) : Run (Machine σ) Value := do
  let v ← c.eval operand
  let type ← Run.closeType target
  if v.isNull then return .bool negated
  else
    let isOfType ← Run.ofStop (c.host.accepts c.fuel v type)
    return .bool (isOfType != negated)

def evalCoalesce (value whenNull : Node) : Run (Machine σ) Value := do
  let v ← c.eval value
  if v.isNull then c.eval whenNull else return v

/-- Evaluate what follows a conditional access, unless its receiver is null. -/
def evalConditionalAccess (receiver whenNotNull : Node) : Run (Machine σ) Value := do
  let v ← c.eval receiver
  if v.isNull then return .null
  else
    Run.between (fun a => { a with conditionals := v :: a.conditionals })
      (fun a => { a with conditionals := a.conditionals.tail }) (c.eval whenNotNull)

/-- The innermost of the values that enclosing constructs provide. -/
def innermost (values : Activation → List Value) (construct : String) : Run (Machine σ) Value :=
  fun s =>
    match values s.activation with
    | v :: _ => (.ok v, s)
    | [] => (.error (.failed (.of (.missingContext construct))), s)

def evalInterpolatedString (parts : List Node) : Run (Machine σ) Value := do
  let values ← c.evalList parts
  return .text (String.join (values.map Value.display))

def evalInterpolation (value : Node) (alignment : Option Node) (format : Option String) :
    Run (Machine σ) Value := do
  let v ← c.eval value
  let width ← match alignment with
    | some node => do
      let w ← c.eval node
      let n ← Run.ofExcept w.asIndex
      pure (some n)
    | none => pure none
  let text ← Run.ofExcept (v.format format width)
  return .text text

/-- Leave a value for the end of the body. -/
def evalReturn (value : Option Node) : Run (Machine σ) Value := do
  let v ← match value with
    | some node => c.eval node
    | none => pure .void
  Run.modifyActivation fun a => { a with pendingReturn := some v }
  return .void

def evalOp (op : Op) : Run (Machine σ) Value :=
  match op with
  | .literal value => pure value.value
  | .defaultValue type => do return (← Run.closeType type).defaultValue
  | .typeOf type => do return .type (← Run.closeType type)
  | .localRef name | .parameterRef name => c.load (.named name)
  | .this => do return .object (← Run.currentInstance)
  | .implicitReceiver => innermost Activation.receivers "object initializer"
  | .conditionalInstance => innermost Activation.conditionals "conditional access"
  | .fieldRef field receiver => c.readMember field receiver [] false
  | .propertyRef property receiver index isVirtual =>
    c.readMember property receiver index isVirtual
  | .arrayElement array indices => c.readElement array indices
  | .binary op left right operator => c.evalBinary op left right operator
  | .unary op operand operator => c.evalUnary op operand operator
  | .conversion operand target kind operator => c.evalConversion operand target kind operator
  | .coalesce value whenNull => c.evalCoalesce value whenNull
  | .conditionalAccess receiver whenNotNull => c.evalConditionalAccess receiver whenNotNull
  | .isType operand target negated => c.evalIsType operand target negated
  | .assign target value => c.assign target value
  | .compoundAssign op target value operator => c.compoundAssign op target value operator
  | .increment target decrement postfixed operator =>
    c.increment target decrement postfixed operator
  | .deconstruct target value => c.assign target value
  | .invocation method receiver args isVirtual => c.invoke method receiver args isVirtual
  | .constructorInitializer constructor args => c.runConstructorInitializer constructor args
  | .objectCreation constructor args initializer => c.createObject constructor args initializer
  | .anonymousCreation type initializers => c.createAnonymous type initializers
  | .objectInitializer items => do
    let _ ← c.evalList items
    return .void
  | .arrayCreation element rank dimensions initializer =>
    c.createArray element rank dimensions initializer
  | .arrayInitializer items => c.fillArray items
  | .tuple elements => do return .tuple (← c.evalList elements)
  | .interpolatedString parts => c.evalInterpolatedString parts
  | .interpolatedText text => pure (.text text)
  | .interpolation value alignment format => c.evalInterpolation value alignment format
  | .block statements => c.runBlock statements
  | .expressionStatement expression => do
    c.exec expression
    return .void
  | .variableDeclaration name initializer => c.declareVariable name initializer
  | .conditional condition whenTrue whenFalse => c.choose condition whenTrue whenFalse
  | .whileLoop condition body testFirst => c.runWhile condition body testFirst
  | .forLoop before condition after body => c.runFor before condition after body
  | .forEachLoop name collection body => c.runForEach name collection body
  | .branch kind => do
    Run.modifyActivation fun a => { a with branch := some kind }
    return .void
  | .returnWith value => c.evalReturn value
  | .empty => pure .void
  | op@(.declarationTarget _) | op@.discard | op@(.throwWith _) | op@(.await _)
  | op@(.lambda _) | op@(.switch ..) => Run.fail (.unsupportedOperation op.kindName)

/-- Evaluate a node. An error without a span gets the node's. -/
def evalNode (node : Node) : Run (Machine σ) Value := Run.orSpan node.span (c.evalOp node.op)

/-- Call a member of an object that is bound to the session with a table. The
table decides, and a member that it does not have is reached like any other. -/
def serve (table : MemberTable) (o : ObjectRef) (symbol : SymbolId) (typeArgs : List ClosedType)
    (args : List Value) : Run (World σ) Value := do
  let entry ← Run.gets fun w =>
    (table.lookup symbol).bind (w.session c.session).registry.get?
  match entry with
  | some entry => c.runInterpreted entry.tree entry.symbol entry.context typeArgs (some o) args
  | none => c.callMember ⟨symbol, o.type, typeArgs⟩ (some (.object o)) args false

end OpTree.Context
