/-
Resolved operation trees. Names are bound, types and members are known, and
every node carries the span it came from. What a body does is a tree of these
nodes and nothing else.
-/
import OpTree.Operator
import OpTree.Span
import OpTree.Value

namespace OpTree

/-- A constant that source text can spell. -/
inductive Constant where
  | null
  | bool (b : Bool)
  | char (c : Char)
  | int (kind : IntKind) (bits : BitVec kind.width)
  | f32 (x : Float32)
  | f64 (x : Float)
  | text (s : String)

def Constant.value : Constant → Value
  | null => .null
  | bool b => .bool b
  | char c => .char c
  | int k v => .int k v
  | f32 x => .f32 x
  | f64 x => .f64 x
  | text s => .text s

/-- How a conversion ends when the value does not fit the target. -/
inductive ConversionKind where
  /-- Failure is an error. -/
  | cast
  /-- Failure is null. -/
  | tryCast
deriving DecidableEq, Repr

/-- A jump within the innermost loop. -/
inductive BranchKind where
  | breakLoop | continueLoop
deriving DecidableEq, Repr

mutual

/-- An operation and where it stands in source. -/
inductive Node where
  | mk (span : Span) (op : Op)

/-- One operation. A missing receiver means the current instance, or none for
a static member. -/
inductive Op where
  | literal (value : Constant)
  | defaultValue (type : TypeRef)
  | typeOf (type : TypeRef)
  | localRef (name : String)
  | parameterRef (name : String)
  /-- The current instance. -/
  | this
  /-- The object whose initializer this is. -/
  | implicitReceiver
  | fieldRef (field : MemberUse) (receiver : Option Node)
  /-- A property, or an indexer when there are indices. -/
  | propertyRef (property : MemberUse) (receiver : Option Node) (index : List Node)
      (isVirtual : Bool)
  | arrayElement (array : Node) (indices : List Node)
  /-- `operator` is the declared operator, where one was found. -/
  | binary (op : BinaryOp) (left right : Node) (operator : Option MemberUse)
  | unary (op : UnaryOp) (operand : Node) (operator : Option MemberUse)
  | conversion (operand : Node) (target : TypeRef) (kind : ConversionKind)
      (operator : Option MemberUse)
  | coalesce (value whenNull : Node)
  /-- `whenNotNull` reaches the receiver through `conditionalInstance`. -/
  | conditionalAccess (receiver whenNotNull : Node)
  | conditionalInstance
  | isType (operand : Node) (target : TypeRef) (negated : Bool)
  | assign (target value : Node)
  | compoundAssign (op : BinaryOp) (target value : Node) (operator : Option MemberUse)
  | increment (target : Node) (decrement postfixed : Bool) (operator : Option MemberUse)
  /-- The target is a tuple of targets. -/
  | deconstruct (target value : Node)
  /-- A target that declares the local it stands for. -/
  | declarationTarget (name : String)
  | discard
  | invocation (method : MemberUse) (receiver : Option Node) (args : List Node)
      (isVirtual : Bool)
  /-- The call of another constructor at the start of a constructor's body. -/
  | constructorInitializer (constructor : MemberUse) (args : List Node)
  | objectCreation (constructor : MemberUse) (args : List Node) (initializer : Option Node)
  | anonymousCreation (type : TypeRef) (initializers : List Node)
  | objectInitializer (items : List Node)
  /-- Without dimensions the initializer gives the shape. -/
  | arrayCreation (element : TypeRef) (rank : Nat) (dimensions : List Node)
      (initializer : Option Node)
  | arrayInitializer (items : List Node)
  | tuple (elements : List Node)
  | interpolatedString (parts : List Node)
  | interpolatedText (text : String)
  | interpolation (value : Node) (alignment : Option Node) (format : Option String)
  | block (statements : List Node)
  | expressionStatement (expression : Node)
  | variableDeclaration (name : String) (initializer : Option Node)
  /-- A statement with two arms or an expression with two values. -/
  | conditional (condition whenTrue : Node) (whenFalse : Option Node)
  | whileLoop (condition body : Node) (testFirst : Bool)
  | forLoop (before : List Node) (condition : Option Node) (after : List Node) (body : Node)
  | forEachLoop (item : String) (collection body : Node)
  | branch (kind : BranchKind)
  | returnWith (value : Option Node)
  | empty
  /-- What follows is never interpreted. -/
  | throwWith (value : Option Node)
  | await (operand : Node)
  | lambda (body : Node)
  | switch (value : Node) (cases : List Node)

end

namespace Op

def kindName : Op → String
  | literal _ => "Literal"
  | defaultValue _ => "DefaultValue"
  | typeOf _ => "TypeOf"
  | localRef _ => "LocalReference"
  | parameterRef _ => "ParameterReference"
  | this | implicitReceiver => "InstanceReference"
  | fieldRef .. => "FieldReference"
  | propertyRef .. => "PropertyReference"
  | arrayElement .. => "ArrayElementReference"
  | binary .. => "BinaryOperator"
  | unary .. => "UnaryOperator"
  | conversion .. => "Conversion"
  | coalesce .. => "Coalesce"
  | conditionalAccess .. => "ConditionalAccess"
  | conditionalInstance => "ConditionalAccessInstance"
  | isType .. => "IsType"
  | assign .. => "SimpleAssignment"
  | compoundAssign .. => "CompoundAssignment"
  | increment .. => "Increment"
  | deconstruct .. => "DeconstructionAssignment"
  | declarationTarget _ => "DeclarationExpression"
  | discard => "Discard"
  | invocation .. => "Invocation"
  | constructorInitializer .. => "ConstructorInitializer"
  | objectCreation .. => "ObjectCreation"
  | anonymousCreation .. => "AnonymousObjectCreation"
  | objectInitializer _ => "ObjectInitializer"
  | arrayCreation .. => "ArrayCreation"
  | arrayInitializer _ => "ArrayInitializer"
  | tuple _ => "Tuple"
  | interpolatedString _ => "InterpolatedString"
  | interpolatedText _ => "InterpolatedStringText"
  | interpolation .. => "Interpolation"
  | block _ => "Block"
  | expressionStatement _ => "ExpressionStatement"
  | variableDeclaration .. => "VariableDeclaration"
  | conditional .. => "Conditional"
  | whileLoop .. => "WhileLoop"
  | forLoop .. => "ForLoop"
  | forEachLoop .. => "ForEachLoop"
  | branch _ => "Branch"
  | returnWith _ => "Return"
  | empty => "Empty"
  | throwWith _ => "Throw"
  | await _ => "Await"
  | lambda _ => "AnonymousFunction"
  | switch .. => "Switch"

end Op

namespace Node

def span : Node → Span
  | mk s _ => s

def op : Node → Op
  | mk _ o => o

end Node

mutual

def Node.size : Node → Nat
  | .mk _ op => op.size + 1

def Op.size : Op → Nat
  | .literal _ | .defaultValue _ | .typeOf _ | .localRef _ | .parameterRef _ | .this
  | .implicitReceiver | .conditionalInstance | .declarationTarget _ | .discard
  | .interpolatedText _ | .branch _ | .empty => 0
  | .fieldRef _ receiver => Node.sizeOption receiver
  | .propertyRef _ receiver index _ => Node.sizeOption receiver + Node.sizeAll index
  | .arrayElement array indices => array.size + Node.sizeAll indices
  | .binary _ left right _ => left.size + right.size
  | .unary _ operand _ => operand.size
  | .conversion operand _ _ _ => operand.size
  | .coalesce value whenNull => value.size + whenNull.size
  | .conditionalAccess receiver whenNotNull => receiver.size + whenNotNull.size
  | .isType operand _ _ => operand.size
  | .assign target value => target.size + value.size
  | .compoundAssign _ target value _ => target.size + value.size
  | .increment target _ _ _ => target.size
  | .deconstruct target value => target.size + value.size
  | .invocation _ receiver args _ => Node.sizeOption receiver + Node.sizeAll args
  | .constructorInitializer _ args => Node.sizeAll args
  | .objectCreation _ args initializer => Node.sizeAll args + Node.sizeOption initializer
  | .anonymousCreation _ initializers => Node.sizeAll initializers
  | .objectInitializer items => Node.sizeAll items
  | .arrayCreation _ _ dimensions initializer =>
    Node.sizeAll dimensions + Node.sizeOption initializer
  | .arrayInitializer items => Node.sizeAll items
  | .tuple elements => Node.sizeAll elements
  | .interpolatedString parts => Node.sizeAll parts
  | .interpolation value alignment _ => value.size + Node.sizeOption alignment
  | .block statements => Node.sizeAll statements
  | .expressionStatement expression => expression.size
  | .variableDeclaration _ initializer => Node.sizeOption initializer
  | .conditional condition whenTrue whenFalse =>
    condition.size + whenTrue.size + Node.sizeOption whenFalse
  | .whileLoop condition body _ => condition.size + body.size
  | .forLoop before condition after body =>
    Node.sizeAll before + Node.sizeOption condition + Node.sizeAll after + body.size
  | .forEachLoop _ collection body => collection.size + body.size
  | .returnWith value => Node.sizeOption value
  | .throwWith value => Node.sizeOption value
  | .await operand => operand.size
  | .lambda body => body.size
  | .switch value cases => value.size + Node.sizeAll cases

def Node.sizeAll : List Node → Nat
  | [] => 0
  | n :: ns => n.size + Node.sizeAll ns

def Node.sizeOption : Option Node → Nat
  | none => 0
  | some n => n.size

end

/-- The call of another constructor that a constructor's body starts with: the
first statement of a block, or the body itself. -/
def Node.leadingInitializer? (body : Node) : Option (MemberUse × List Node) := do
  let first ← match body.op with
    | .block statements => statements.head?
    | _ => some body
  let call := match first.op with
    | .expressionStatement expression => expression
    | _ => first
  match call.op with
  | .constructorInitializer constructor args => some (constructor, args)
  | _ => none

end OpTree
