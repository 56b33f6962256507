/-
Type references as a declaration writes them: they may mention the generic
parameters of the type or of the method around them.
-/
import OpTree.Types.Primitive

namespace OpTree

structure TypeId where
  raw : Nat
deriving DecidableEq, Repr

structure SymbolId where
  raw : Nat
deriving DecidableEq, Repr

/-- Which declaration introduces a generic parameter. -/
inductive GenericLevel where
  | type | method
deriving DecidableEq, Repr

structure GenericParam where
  level : GenericLevel
  ordinal : Nat
deriving DecidableEq, Repr

namespace GenericParam

/-- One mark before the ordinal of a type's parameter, two before a method's. -/
def text (p : GenericParam) : String :=
  match p.level with
  | .type => s!"!{p.ordinal}"
  | .method => s!"!!{p.ordinal}"

end GenericParam

/-- A type that may mention generic parameters. -/
inductive TypeRef where
  | primitive (p : PrimitiveType)
  | named (definition : TypeId) (args : List TypeRef)
  | param (p : GenericParam)
  | array (element : TypeRef) (rank : Nat)
  | tuple (elements : List TypeRef)
  | nullable (inner : TypeRef)
deriving Repr

namespace TypeRef

mutual

def isClosed : TypeRef → Bool
  | primitive _ => true
  | named _ args => allClosed args
  | param _ => false
  | array element _ => element.isClosed
  | tuple elements => allClosed elements
  | nullable inner => inner.isClosed

def allClosed : List TypeRef → Bool
  | [] => true
  | t :: ts => t.isClosed && allClosed ts

end

end TypeRef

/-- A member as an operation names it: the symbol, the type that is taken to
contain it, and the type arguments of a generic method. -/
structure MemberUse where
  symbol : SymbolId
  containing : TypeRef
  typeArgs : List TypeRef
deriving Repr

end OpTree
