/-
Trees with other types in them. `Node.mapTypes f` is a tree with `f t` in the
place of every type reference `t`, those in member uses included; nothing else
differs, so the two trees have the same spans, the same names of operations and
the same array shapes. `Op.operands` are the nodes that evaluating an operation
may come to.
-/
import OpTree.Eval.Arrays

namespace OpTree

/-- The use of the same member with other types. -/
def MemberUse.mapTypes (f : TypeRef → TypeRef) (m : MemberUse) : MemberUse :=
  ⟨m.symbol, f m.containing, m.typeArgs.map f⟩

mutual

/-- The tree with `f t` in the place of every type reference `t`. -/
def Node.mapTypes (f : TypeRef → TypeRef) : Node → Node
  | .mk span op => .mk span (op.mapTypes f)

def Op.mapTypes (f : TypeRef → TypeRef) : Op → Op
  | .literal value => .literal value
  | .defaultValue type => .defaultValue (f type)
  | .typeOf type => .typeOf (f type)
  | .localRef name => .localRef name
  | .parameterRef name => .parameterRef name
  | .this => .this
  | .implicitReceiver => .implicitReceiver
  | .fieldRef field receiver => .fieldRef (field.mapTypes f) (Node.mapTypesOption f receiver)
  | .propertyRef property receiver index isVirtual =>
    .propertyRef (property.mapTypes f) (Node.mapTypesOption f receiver) (Node.mapTypesAll f index)
      isVirtual
  | .arrayElement array indices => .arrayElement (array.mapTypes f) (Node.mapTypesAll f indices)
  | .binary op left right operator =>
    .binary op (left.mapTypes f) (right.mapTypes f) (operator.map (MemberUse.mapTypes f))
  | .unary op operand operator =>
    .unary op (operand.mapTypes f) (operator.map (MemberUse.mapTypes f))
  | .conversion operand target kind operator =>
    .conversion (operand.mapTypes f) (f target) kind (operator.map (MemberUse.mapTypes f))
  | .coalesce value whenNull => .coalesce (value.mapTypes f) (whenNull.mapTypes f)
  | .conditionalAccess receiver whenNotNull =>
    .conditionalAccess (receiver.mapTypes f) (whenNotNull.mapTypes f)
  | .conditionalInstance => .conditionalInstance
  | .isType operand target negated => .isType (operand.mapTypes f) (f target) negated
  | .assign target value => .assign (target.mapTypes f) (value.mapTypes f)
  | .compoundAssign op target value operator =>
    .compoundAssign op (target.mapTypes f) (value.mapTypes f) (operator.map (MemberUse.mapTypes f))
  | .increment target decrement postfixed operator =>
    .increment (target.mapTypes f) decrement postfixed (operator.map (MemberUse.mapTypes f))
  | .deconstruct target value => .deconstruct (target.mapTypes f) (value.mapTypes f)
  | .declarationTarget name => .declarationTarget name
  | .discard => .discard
  | .invocation method receiver args isVirtual =>
    .invocation (method.mapTypes f) (Node.mapTypesOption f receiver) (Node.mapTypesAll f args)
      isVirtual
  | .constructorInitializer constructor args =>
    .constructorInitializer (constructor.mapTypes f) (Node.mapTypesAll f args)
  | .objectCreation constructor args initializer =>
    .objectCreation (constructor.mapTypes f) (Node.mapTypesAll f args)
      (Node.mapTypesOption f initializer)
  | .anonymousCreation type initializers =>
    .anonymousCreation (f type) (Node.mapTypesAll f initializers)
  | .objectInitializer items => .objectInitializer (Node.mapTypesAll f items)
  | .arrayCreation element rank dimensions initializer =>
    .arrayCreation (f element) rank (Node.mapTypesAll f dimensions)
      (Node.mapTypesOption f initializer)
  | .arrayInitializer items => .arrayInitializer (Node.mapTypesAll f items)
  | .tuple elements => .tuple (Node.mapTypesAll f elements)
  | .interpolatedString parts => .interpolatedString (Node.mapTypesAll f parts)
  | .interpolatedText text => .interpolatedText text
  | .interpolation value alignment format =>
    .interpolation (value.mapTypes f) (Node.mapTypesOption f alignment) format
  | .block statements => .block (Node.mapTypesAll f statements)
  | .expressionStatement expression => .expressionStatement (expression.mapTypes f)
  | .variableDeclaration name initializer =>
    .variableDeclaration name (Node.mapTypesOption f initializer)
  | .conditional condition whenTrue whenFalse =>
    .conditional (condition.mapTypes f) (whenTrue.mapTypes f) (Node.mapTypesOption f whenFalse)
  | .whileLoop condition body testFirst =>
    .whileLoop (condition.mapTypes f) (body.mapTypes f) testFirst
  | .forLoop before condition after body =>
    .forLoop (Node.mapTypesAll f before) (Node.mapTypesOption f condition)
      (Node.mapTypesAll f after) (body.mapTypes f)
  | .forEachLoop item collection body =>
    .forEachLoop item (collection.mapTypes f) (body.mapTypes f)
  | .branch kind => .branch kind
  | .returnWith value => .returnWith (Node.mapTypesOption f value)
  | .empty => .empty
  | .throwWith value => .throwWith (Node.mapTypesOption f value)
  | .await operand => .await (operand.mapTypes f)
  | .lambda body => .lambda (body.mapTypes f)
  | .switch value cases => .switch (value.mapTypes f) (Node.mapTypesAll f cases)

def Node.mapTypesAll (f : TypeRef → TypeRef) : List Node → List Node
  | [] => []
  | node :: rest => node.mapTypes f :: Node.mapTypesAll f rest

def Node.mapTypesOption (f : TypeRef → TypeRef) : Option Node → Option Node
  | none => none
  | some node => some (node.mapTypes f)

end

/-- The type references in a member use. -/
def MemberUse.types (m : MemberUse) : List TypeRef := m.containing :: m.typeArgs

/-- Those in the use of a declared operator, if there is one. -/
def MemberUse.typesOption : Option MemberUse → List TypeRef
  | none => []
  | some m => m.types

mutual

/-- The type references in a tree, those in member uses included. -/
def Node.types : Node → List TypeRef
  | .mk _ op => op.types

def Op.types : Op → List TypeRef
  | .literal _ | .localRef _ | .parameterRef _ | .this | .implicitReceiver | .conditionalInstance
  | .declarationTarget _ | .discard | .interpolatedText _ | .branch _ | .empty => []
  | .defaultValue type | .typeOf type => [type]
  | .fieldRef field receiver => field.types ++ Node.typesOption receiver
  | .propertyRef property receiver index _ =>
    property.types ++ Node.typesOption receiver ++ Node.typesAll index
  | .arrayElement array indices => array.types ++ Node.typesAll indices
  | .binary _ left right operator =>
    left.types ++ right.types ++ MemberUse.typesOption operator
  | .unary _ operand operator => operand.types ++ MemberUse.typesOption operator
  | .conversion operand target _ operator =>
    target :: operand.types ++ MemberUse.typesOption operator
  | .coalesce value whenNull => value.types ++ whenNull.types
  | .conditionalAccess receiver whenNotNull => receiver.types ++ whenNotNull.types
  | .isType operand target _ => target :: operand.types
  | .assign target value => target.types ++ value.types
  | .compoundAssign _ target value operator =>
    target.types ++ value.types ++ MemberUse.typesOption operator
  | .increment target _ _ operator => target.types ++ MemberUse.typesOption operator
  | .deconstruct target value => target.types ++ value.types
  | .invocation method receiver args _ =>
    method.types ++ Node.typesOption receiver ++ Node.typesAll args
  | .constructorInitializer constructor args => constructor.types ++ Node.typesAll args
  | .objectCreation constructor args initializer =>
    constructor.types ++ Node.typesAll args ++ Node.typesOption initializer
  | .anonymousCreation type initializers => type :: Node.typesAll initializers
  | .objectInitializer items => Node.typesAll items
  | .arrayCreation element _ dimensions initializer =>
    element :: Node.typesAll dimensions ++ Node.typesOption initializer
  | .arrayInitializer items => Node.typesAll items
  | .tuple elements => Node.typesAll elements
  | .interpolatedString parts => Node.typesAll parts
  | .interpolation value alignment _ => value.types ++ Node.typesOption alignment
  | .block statements => Node.typesAll statements
  | .expressionStatement expression => expression.types
  | .variableDeclaration _ initializer => Node.typesOption initializer
  | .conditional condition whenTrue whenFalse =>
    condition.types ++ whenTrue.types ++ Node.typesOption whenFalse
  | .whileLoop condition body _ => condition.types ++ body.types
  | .forLoop before condition after body =>
    Node.typesAll before ++ Node.typesOption condition ++ Node.typesAll after ++ body.types
  | .forEachLoop _ collection body => collection.types ++ body.types
  | .returnWith value => Node.typesOption value
  | .throwWith value => Node.typesOption value
  | .await operand => operand.types
  | .lambda body => body.types
  | .switch value cases => value.types ++ Node.typesAll cases

def Node.typesAll : List Node → List TypeRef
  | [] => []
  | node :: rest => node.types ++ Node.typesAll rest

def Node.typesOption : Option Node → List TypeRef
  | none => []
  | some node => node.types

end

/-- The nodes below an operation that evaluating it may come to. -/
def Op.operands : Op → List Node
  | .literal _ | .defaultValue _ | .typeOf _ | .localRef _ | .parameterRef _ | .this
  | .implicitReceiver | .conditionalInstance | .declarationTarget _ | .discard
  | .interpolatedText _ | .branch _ | .empty => []
  | .fieldRef _ receiver => receiver.toList
  | .propertyRef _ receiver index _ => receiver.toList ++ index
  | .arrayElement array indices => array :: indices
  | .binary _ left right _ => [left, right]
  | .unary _ operand _ => [operand]
  | .conversion operand _ _ _ => [operand]
  | .coalesce value whenNull => [value, whenNull]
  | .conditionalAccess receiver whenNotNull => [receiver, whenNotNull]
  | .isType operand _ _ => [operand]
  | .assign target value => [target, value]
  | .compoundAssign _ target value _ => [target, value]
  | .increment target _ _ _ => [target]
  | .deconstruct target value => [target, value]
  | .invocation _ receiver args _ => receiver.toList ++ args
  | .constructorInitializer _ args => args
  | .objectCreation _ args initializer => args ++ initializer.toList
  | .anonymousCreation _ initializers => initializers
  | .objectInitializer items => items
  | .arrayCreation _ _ dimensions initializer => dimensions ++ initializer.toList
  | .arrayInitializer items => items
  | .tuple elements => elements
  | .interpolatedString parts => parts
  | .interpolation value alignment _ => value :: alignment.toList
  | .block statements => statements
  | .expressionStatement expression => [expression]
  | .variableDeclaration _ initializer => initializer.toList
  | .conditional condition whenTrue whenFalse => condition :: whenTrue :: whenFalse.toList
  | .whileLoop condition body _ => [condition, body]
  | .forLoop before condition after body => before ++ condition.toList ++ after ++ [body]
  | .forEachLoop _ collection body => [collection, body]
  | .returnWith value => value.toList
  | .throwWith _ | .await _ | .lambda _ | .switch .. => []

/-- The operation may leave a signal or take one back. -/
def Op.signals : Op → Bool
  | .whileLoop .. | .forLoop .. | .forEachLoop .. | .branch _ | .returnWith _ => true
  | _ => false

section

variable (f : TypeRef → TypeRef)

@[simp] theorem Node.span_mapTypes (node : Node) : (node.mapTypes f).span = node.span := by
  cases node; rfl

@[simp] theorem Node.op_mapTypes (node : Node) : (node.mapTypes f).op = node.op.mapTypes f := by
  cases node; rfl

theorem Node.mapTypesAll_eq_map (nodes : List Node) :
    Node.mapTypesAll f nodes = nodes.map (Node.mapTypes f) := by
  induction nodes with
  | nil => rfl
  | cons node rest ih => simp [Node.mapTypesAll, ih]

@[simp] theorem Node.length_mapTypesAll (nodes : List Node) :
    (Node.mapTypesAll f nodes).length = nodes.length := by
  simp [Node.mapTypesAll_eq_map]

@[simp] theorem Op.kindName_mapTypes (op : Op) : (op.mapTypes f).kindName = op.kindName := by
  cases op <;> rfl

theorem Node.initializerItems?_mapTypes (node : Node) :
    (node.mapTypes f).initializerItems? = node.initializerItems?.map (Node.mapTypesAll f) := by
  obtain ⟨span, op⟩ := node
  cases op <;> rfl

@[simp] theorem Node.initializerShape_mapTypes (rank : Nat) :
    ∀ node : Node, (node.mapTypes f).initializerShape rank = node.initializerShape rank := by
  induction rank with
  | zero => exact fun _ => rfl
  | succ rank ih =>
    intro node
    simp only [Node.initializerShape, Node.initializerItems?_mapTypes]
    rcases node.initializerItems? with _ | _ | ⟨first, rest⟩
    · rfl
    · rfl
    · simp [Node.mapTypesAll, ih]

@[simp] theorem MemberUse.types_mapTypes (m : MemberUse) :
    (m.mapTypes f).types = m.types.map f := rfl

@[simp] theorem MemberUse.typesOption_mapTypes (m : Option MemberUse) :
    MemberUse.typesOption (m.map (MemberUse.mapTypes f)) = (MemberUse.typesOption m).map f := by
  cases m <;> rfl

mutual

/-- The type references of the copy are those that stand for the tree's. -/
theorem Node.types_mapTypes : ∀ node : Node, (node.mapTypes f).types = node.types.map f
  | .mk _ op => by rw [Node.mapTypes, Node.types, Node.types, Op.types_mapTypes op]

theorem Op.types_mapTypes (op : Op) : (op.mapTypes f).types = op.types.map f := by
  cases op <;>
    simp only [Op.mapTypes, Op.types, MemberUse.types_mapTypes, MemberUse.typesOption_mapTypes,
      Node.types_mapTypes, Node.typesAll_mapTypes, Node.typesOption_mapTypes, List.map_append,
      List.map_cons, List.map_nil]

theorem Node.typesAll_mapTypes :
    ∀ nodes : List Node, Node.typesAll (Node.mapTypesAll f nodes) = (Node.typesAll nodes).map f
  | [] => rfl
  | node :: rest => by
    rw [Node.mapTypesAll, Node.typesAll, Node.typesAll, Node.types_mapTypes node,
      Node.typesAll_mapTypes rest, List.map_append]

theorem Node.typesOption_mapTypes : ∀ node : Option Node,
    Node.typesOption (Node.mapTypesOption f node) = (Node.typesOption node).map f
  | none => rfl
  | some node => by rw [Node.mapTypesOption, Node.typesOption, Node.typesOption, Node.types_mapTypes node]

end

end

theorem Node.types_of_mem_all {x : Node} {nodes : List Node} (hx : x ∈ nodes) {t : TypeRef}
    (ht : t ∈ x.types) : t ∈ Node.typesAll nodes := by
  induction nodes with
  | nil => cases hx
  | cons node rest ih =>
    rw [Node.typesAll, List.mem_append]
    rcases List.mem_cons.1 hx with rfl | hx
    · exact .inl ht
    · exact .inr (ih hx)

theorem Node.types_of_mem_option {x : Node} {node : Option Node} (hx : x ∈ node.toList)
    {t : TypeRef} (ht : t ∈ x.types) : t ∈ Node.typesOption node := by
  cases node with
  | none => cases hx
  | some node =>
    obtain rfl := List.mem_singleton.1 hx
    exact ht

/-- The type references of an operand are among those of the operation. -/
theorem Op.types_of_operand {op : Op} {x : Node} (hx : x ∈ op.operands) {t : TypeRef}
    (ht : t ∈ x.types) : t ∈ op.types := by
  have all {nodes : List Node} (hx : x ∈ nodes) := Node.types_of_mem_all hx ht
  have option {node : Option Node} (hx : x ∈ node.toList) := Node.types_of_mem_option hx ht
  cases op <;> simp only [Op.operands, List.mem_append, List.mem_cons, List.not_mem_nil, or_false] at hx <;>
    simp only [Op.types, List.mem_append, List.mem_cons]
  all_goals grind

@[simp] theorem MemberUse.mapTypes_id (m : MemberUse) : m.mapTypes (fun t => t) = m := by
  cases m; simp [MemberUse.mapTypes]

theorem MemberUse.map_mapTypes_id (m : Option MemberUse) : m.map (MemberUse.mapTypes fun t => t) = m := by
  cases m <;> simp

mutual

/-- A tree in which every type stays is the same tree. -/
theorem Node.mapTypes_id : ∀ node : Node, node.mapTypes (fun t => t) = node
  | .mk span op => by rw [Node.mapTypes, Op.mapTypes_id op]

theorem Op.mapTypes_id (op : Op) : op.mapTypes (fun t => t) = op := by
  cases op <;>
    simp only [Op.mapTypes, MemberUse.mapTypes_id, MemberUse.map_mapTypes_id, Node.mapTypes_id,
      Node.mapTypesAll_id, Node.mapTypesOption_id]

theorem Node.mapTypesAll_id : ∀ nodes : List Node, Node.mapTypesAll (fun t => t) nodes = nodes
  | [] => rfl
  | node :: rest => by rw [Node.mapTypesAll, Node.mapTypes_id node, Node.mapTypesAll_id rest]

theorem Node.mapTypesOption_id :
    ∀ node : Option Node, Node.mapTypesOption (fun t => t) node = node
  | none => rfl
  | some node => by rw [Node.mapTypesOption, Node.mapTypes_id node]

end

end OpTree
