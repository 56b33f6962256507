/-
What can go wrong. An error is a cause, the span of the innermost operation
that failed if it is known, and notes. The wording of every cause is
`Cause.message`; its coarse class is `Cause.category`.
-/
import OpTree.Span

namespace OpTree

/-- Coarse classes of failure. -/
inductive ErrorCategory where
  /-- The tree asks for something that cannot be done. -/
  | malformedProgram
  /-- A name or a context is used where there is none. -/
  | scope
  /-- A constructor or member could not be found. -/
  | resolution
  /-- The host refused, or asked to stop. -/
  | hostEnvironment
deriving DecidableEq, Repr

inductive Cause where
  | operandCategoryMismatch (op left right : String)
  | invalidOperator (op category : String)
  | nullOperand (op : String)
  | unsupportedOperand (op typeName : String)
  | divideByZero
  | invalidCast (source target : String)
  | typeMismatch (expected got : String)
  | indexOutOfRange (index : Int) (length : Nat)
  | unsupportedOperation (kind : String)
  | nullReference (member : String)
  | invalidFormat (spec typeName : String)
  | undefinedName (name : String)
  | redeclaration (name : String)
  | unassignedUse (name : String)
  | unboundGenericParameter (param : String)
  | noCurrentInstance
  | missingContext (context : String)
  | missingConstructor (typeName : String) (arity : Nat)
  | ambiguousConstructor (typeName : String) (candidates : Nat)
  | unresolvedMember (member typeName reason : String)
  | arityMismatch (member : String) (expected got : Nat)
  | notBound (typeName : String)
  | alreadyBound (typeName : String)
  | typeCreationFailed (typeName reason : String)
  | cancelled
  | host (message : String)
deriving DecidableEq, Inhabited, Repr

def ErrorCategory.name : ErrorCategory → String
  | malformedProgram => "MalformedProgram"
  | scope => "Scope"
  | resolution => "Resolution"
  | hostEnvironment => "HostEnvironment"

namespace Cause

def kindName : Cause → String
  | operandCategoryMismatch .. => "OperandCategoryMismatch"
  | invalidOperator .. => "InvalidOperator"
  | nullOperand _ => "NullOperand"
  | unsupportedOperand .. => "UnsupportedOperand"
  | divideByZero => "DivideByZero"
  | invalidCast .. => "InvalidCast"
  | typeMismatch .. => "TypeMismatch"
  | indexOutOfRange .. => "IndexOutOfRange"
  | unsupportedOperation _ => "UnsupportedOperation"
  | nullReference _ => "NullReference"
  | invalidFormat .. => "InvalidFormat"
  | undefinedName _ => "UndefinedName"
  | redeclaration _ => "Redeclaration"
  | unassignedUse _ => "UnassignedUse"
  | unboundGenericParameter _ => "UnboundGenericParameter"
  | noCurrentInstance => "NoCurrentInstance"
  | missingContext _ => "MissingContext"
  | missingConstructor .. => "MissingConstructor"
  | ambiguousConstructor .. => "AmbiguousConstructor"
  | unresolvedMember .. => "UnresolvedMember"
  | arityMismatch .. => "ArityMismatch"
  | notBound _ => "ProxyNotBound"
  | alreadyBound _ => "ProxyAlreadyBound"
  | typeCreationFailed .. => "TypeCreationFailed"
  | cancelled => "Cancelled"
  | host _ => "Host"

def message : Cause → String
  | operandCategoryMismatch op left right =>
    s!"operator `{op}` requires operands of the same category, got {left} and {right}"
  | invalidOperator op category => s!"operator `{op}` is not defined for category {category}"
  | nullOperand op => s!"operator `{op}` received a null operand"
  | unsupportedOperand op typeName =>
    s!"operator `{op}` cannot be applied to a value of type {typeName}"
  | divideByZero => "integer division by zero"
  | invalidCast source target => s!"cannot cast {source} to {target}"
  | typeMismatch expected got => s!"type mismatch: expected {expected}, got {got}"
  | indexOutOfRange index length =>
    s!"index {index} is out of range for a dimension of length {length}"
  | unsupportedOperation kind => s!"operation kind {kind} is not supported by the interpreter"
  | nullReference member => s!"null reference while accessing {member}"
  | invalidFormat spec typeName => s!"format specifier `{spec}` is not valid for {typeName}"
  | undefinedName name => s!"`{name}` is not declared in any enclosing frame"
  | redeclaration name => s!"`{name}` is already declared in an enclosing frame"
  | unassignedUse name => s!"`{name}` is declared but has not been assigned"
  | unboundGenericParameter param =>
    s!"generic parameter {param} is not bound in the current frame chain"
  | noCurrentInstance => "no current instance is available"
  | missingContext context => s!"{context} used outside of its enclosing construct"
  | missingConstructor typeName arity =>
    s!"no constructor of {typeName} accepts the given {arity} argument(s)"
  | ambiguousConstructor typeName candidates =>
    s!"constructor call on {typeName} is ambiguous between {candidates} candidates"
  | unresolvedMember member typeName reason =>
    s!"member {member} of {typeName} cannot be resolved: {reason}"
  | arityMismatch member expected got => s!"{member} expects {expected} argument(s), got {got}"
  | notBound typeName => s!"instance of {typeName} is not bound to an interpreter"
  | alreadyBound typeName => s!"instance of {typeName} is already bound to an interpreter"
  | typeCreationFailed typeName reason => s!"type {typeName} could not be created: {reason}"
  | cancelled => "interpretation was cancelled"
  | host message => s!"host failure: {message}"

def category : Cause → ErrorCategory
  | operandCategoryMismatch .. | invalidOperator .. | nullOperand _ | unsupportedOperand ..
  | divideByZero | invalidCast .. | typeMismatch .. | indexOutOfRange ..
  | unsupportedOperation _ | nullReference _ | invalidFormat .. => .malformedProgram
  | undefinedName _ | redeclaration _ | unassignedUse _ | unboundGenericParameter _
  | noCurrentInstance | missingContext _ => .scope
  | missingConstructor .. | ambiguousConstructor .. | unresolvedMember .. | arityMismatch ..
  | notBound _ | alreadyBound _ => .resolution
  | typeCreationFailed .. | cancelled | host _ => .hostEnvironment

end Cause

structure EvalError where
  cause : Cause
  span : Option Span
  notes : List String
deriving DecidableEq, Inhabited, Repr

namespace EvalError

/-- An error that knows no span yet. -/
def of (cause : Cause) : EvalError := ⟨cause, none, []⟩

def message (e : EvalError) : String := e.cause.message

def category (e : EvalError) : ErrorCategory := e.cause.category

def withSpan (e : EvalError) (s : Span) : EvalError := { e with span := some s }

/-- Set the span unless there is one, so that the innermost operation wins. -/
def orSpan (e : EvalError) (s : Span) : EvalError := { e with span := e.span.or (some s) }

def withNote (e : EvalError) (note : String) : EvalError := { e with notes := e.notes ++ [note] }

def isCancellation (e : EvalError) : Bool :=
  match e.cause with
  | .cancelled => true
  | _ => false

end EvalError

end OpTree
