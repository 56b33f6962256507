/-
Types without generic parameters, and how a type reference is closed: a
resolver gives the type that stands for each parameter, and closing
substitutes it everywhere, failing at the first parameter the resolver does
not know. `Substitution` is the resolver that holds its arguments as two
lists.
-/
import OpTree.EvalError
import OpTree.Types.TypeRef

namespace OpTree

inductive ClosedType where
  | primitive (p : PrimitiveType)
  | named (definition : TypeId) (args : List ClosedType)
  | array (element : ClosedType) (rank : Nat)
  | tuple (elements : List ClosedType)
  | nullable (inner : ClosedType)
deriving Repr, Inhabited

namespace ClosedType

mutual

def decEq : (a b : ClosedType) → Decidable (a = b)
  | primitive p, primitive q =>
    if h : p = q then isTrue (h ▸ rfl) else isFalse fun e => by injection e; contradiction
  | named d as, named d' bs =>
    if h : d = d' then
      match decEqList as bs with
      | isTrue h' => isTrue (h ▸ h' ▸ rfl)
      | isFalse h' => isFalse fun e => by injection e; contradiction
    else isFalse fun e => by injection e; contradiction
  | array a r, array b r' =>
    if h : r = r' then
      match decEq a b with
      | isTrue h' => isTrue (h ▸ h' ▸ rfl)
      | isFalse h' => isFalse fun e => by injection e; contradiction
    else isFalse fun e => by injection e; contradiction
  | tuple as, tuple bs =>
    match decEqList as bs with
    | isTrue h => isTrue (h ▸ rfl)
    | isFalse h => isFalse fun e => by injection e; contradiction
  | nullable a, nullable b =>
    match decEq a b with
    | isTrue h => isTrue (h ▸ rfl)
    | isFalse h => isFalse fun e => by injection e; contradiction
  | primitive _, named .. | primitive _, array .. | primitive _, tuple _
  | primitive _, nullable _ | named .., primitive _ | named .., array ..
  | named .., tuple _ | named .., nullable _ | array .., primitive _
  | array .., named .. | array .., tuple _ | array .., nullable _
  | tuple _, primitive _ | tuple _, named .. | tuple _, array .. | tuple _, nullable _
  | nullable _, primitive _ | nullable _, named .. | nullable _, array ..
  | nullable _, tuple _ => isFalse fun e => by injection e

def decEqList : (as bs : List ClosedType) → Decidable (as = bs)
  | [], [] => isTrue rfl
  | [], _ :: _ | _ :: _, [] => isFalse fun e => by injection e
  | a :: as, b :: bs =>
    match decEq a b with
    | isFalse h => isFalse fun e => by injection e; contradiction
    | isTrue h =>
      match decEqList as bs with
      | isTrue h' => isTrue (h ▸ h' ▸ rfl)
      | isFalse h' => isFalse fun e => by injection e; contradiction

end

instance : DecidableEq ClosedType := decEq

def void : ClosedType := primitive .void
def object : ClosedType := primitive .object

mutual

/-- The text of a type: arguments stand in angle brackets, the commas of an
array's brackets count its further dimensions. -/
def text : ClosedType → String
  | primitive p => p.name
  | named d [] => s!"type#{d.raw}"
  | named d (a :: as) => s!"type#{d.raw}<" ++ a.text ++ restText as ++ ">"
  | array element rank => element.text ++ "[" ++ String.ofList (List.replicate (rank - 1) ',') ++ "]"
  | tuple [] => "()"
  | tuple (a :: as) => "(" ++ a.text ++ restText as ++ ")"
  | nullable inner => inner.text ++ "?"

def restText : List ClosedType → String
  | [] => ""
  | a :: as => ", " ++ a.text ++ restText as

end

def acceptsNull : ClosedType → Bool
  | primitive p => p.acceptsNull
  | named .. | array .. | nullable _ => true
  | tuple _ => false

def definition? : ClosedType → Option TypeId
  | named d _ => some d
  | _ => none

/-- The arguments of a named type; no other type has any. -/
def typeArgs : ClosedType → List ClosedType
  | named _ args => args
  | _ => []

/-- The type without its outermost nullability. -/
def underlying : ClosedType → ClosedType
  | nullable inner => inner
  | t => t

def isObject : ClosedType → Bool
  | primitive .object => true
  | _ => false

end ClosedType

/-- What stands for each generic parameter. -/
abbrev Resolver := GenericParam → Except EvalError ClosedType

namespace TypeRef

mutual

/-- Put what the resolver gives in the place of every parameter. -/
def close (r : Resolver) : TypeRef → Except EvalError ClosedType
  | primitive p => .ok (.primitive p)
  | named d args => do return .named d (← closeAll r args)
  | param p => r p
  | array element rank => do return .array (← element.close r) rank
  | tuple elements => do return .tuple (← closeAll r elements)
  | nullable inner => do return .nullable (← inner.close r)

def closeAll (r : Resolver) : List TypeRef → Except EvalError (List ClosedType)
  | [] => .ok []
  | t :: ts => do
    let c ← t.close r
    let cs ← closeAll r ts
    return c :: cs

end

end TypeRef

/-- The parameter stands for nothing here. -/
def GenericParam.unbound (p : GenericParam) : EvalError :=
  .of (.unboundGenericParameter p.text)

/-- The argument at a parameter's position, or the error that there is none. -/
def GenericParam.argument (p : GenericParam) (args : List ClosedType) : Except EvalError ClosedType :=
  match args[p.ordinal]? with
  | some t => .ok t
  | none => .error p.unbound

/-- The arguments of a type and of a method, given as lists. -/
structure Substitution where
  typeArgs : List ClosedType
  methodArgs : List ClosedType

namespace Substitution

/-- Only the parameters of a type have arguments. -/
def ofType (args : List ClosedType) : Substitution := ⟨args, []⟩

def resolver (s : Substitution) : Resolver := fun p =>
  match p.level with
  | .type => p.argument s.typeArgs
  | .method => p.argument s.methodArgs

end Substitution

end OpTree
