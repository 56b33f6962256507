/-
Which values a type takes. A type is assignable to another when it is the same
one, when the other is the type of all objects, and otherwise by the shape of
the two: nullability does not count, arrays of references follow their
elements, tuples go component by component, and a named type is assignable to
whatever one of its declared supertypes is. Null belongs to the types that
accept it.

Hierarchies come from the host and may go round in circles, so the walk has a
bound on its steps. A conversion changes the representation of a primitive, or
checks that the value already belongs to its target.
-/
import OpTree.Host
import OpTree.Run
import OpTree.Value.Convert

namespace OpTree

/-- Whether a test holds of all pairs of two lists of one length. -/
def allPairs {ε α β : Type} (test : α → β → Except ε Bool) : List α → List β → Except ε Bool
  | a :: as, b :: bs => do
    if ← test a b then allPairs test as bs else return false
  | [], [] => .ok true
  | _, _ => .ok false

/-- Whether a test holds of a member of a list; the members after the first
such one are not tested. -/
def anyOf {ε α : Type} (test : α → Except ε Bool) : List α → Except ε Bool
  | [] => .ok false
  | a :: as => do
    if ← test a then return true else anyOf test as

namespace Host

variable {σ : Type} (host : Host σ)

/-- Whether a value of one type can be stored where another is expected, in at
most some number of steps. -/
def isAssignable : Nat → ClosedType → ClosedType → Except Stop Bool
  | 0, _, _ => .error .exhausted
  | n + 1, source, target =>
    if source = target ∨ target.isObject then .ok true
    else
      match source, target with
      | .nullable inner, target => isAssignable n inner target
      | source, .nullable inner => isAssignable n source inner
      | .array element rank, .array element' rank' =>
        if rank = rank' ∧ element.acceptsNull then isAssignable n element element' else .ok false
      | .tuple sources, .tuple targets =>
        if sources.length = targets.length then allPairs (isAssignable n) sources targets
        else .ok false
      | .named d args, target => do
        let descriptor ← Stop.ofExcept (host.typeDescriptor d)
        anyOf (fun supertype => do
            let closed ← Stop.ofExcept (supertype.close (Substitution.ofType args).resolver)
            isAssignable n closed target)
          (descriptor.base.toList ++ descriptor.interfaces)
      | _, _ => .ok false

def accepts (fuel : Nat) (v : Value) (target : ClosedType) : Except Stop Bool :=
  match v.type? with
  | none => .ok (v.isNull && target.acceptsNull)
  | some source => host.isAssignable fuel source target

def conversionFailure (v : Value) (target : ClosedType) : ConversionKind → Except Stop Value
  | .cast => .error (.failed (.of (.invalidCast v.typeName target.text)))
  | .tryCast => .ok .null

def convert (fuel : Nat) (v : Value) (target : ClosedType) (kind : ConversionKind) :
    Except Stop Value :=
  if v.isNull then
    if target.acceptsNull then .ok .null else conversionFailure v target kind
  else
    match target with
    | .nullable inner => convert fuel v inner kind
    | .primitive .object => .ok v
    | target => do
      match target, v.category? with
      | .primitive p, some _ =>
        match v.convertPrimitive? p with
        | some converted => return converted
        | none => conversionFailure v target kind
      | target, _ =>
        if ← host.accepts fuel v target then return v else conversionFailure v target kind

end Host

end OpTree
