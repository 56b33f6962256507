/-
Descriptions of types and members: what a declaration says about itself before
anything runs.
-/
import OpTree.Types.TypeRef

namespace OpTree

inductive TypeKind where
  | classType | structType | interfaceType
  /-- A type known by its properties alone. -/
  | anonymous
deriving DecidableEq, Repr

/-- A type that exists as declarations only is symbolic; any other is loaded. -/
structure TypeDescriptor where
  definition : TypeId
  name : String
  kind : TypeKind
  isSymbolic : Bool
  genericArity : Nat
  /-- The base, over the type's own parameters. -/
  base : Option TypeRef
  interfaces : List TypeRef
  /-- The declared members, constructors included. -/
  members : List SymbolId
deriving Repr

/-- Where a member's behaviour comes from. -/
inductive MemberOrigin where
  /-- Written out: it has a tree unless it is abstract or automatic. -/
  | source
  /-- Declared by the language on the type's behalf. -/
  | implicitly
  /-- Reached through a handle of the host. -/
  | loaded
deriving DecidableEq, Repr

structure Parameter where
  name : String
  type : TypeRef
deriving Repr

/-- What distinguishes the kinds of member. -/
inductive MemberKind where
  | method (parameters : List Parameter) (returnType : TypeRef) (genericArity : Nat)
      (isVirtual : Bool) (overrides : Option SymbolId)
  | constructor (parameters : List Parameter)
  | field (type : TypeRef)
  /-- A property; parameters make it an indexer. Without accessors its value is
  kept in storage. -/
  | property (type : TypeRef) (parameters : List Parameter) (getter setter : Option SymbolId)
deriving Repr

structure MemberDescriptor where
  symbol : SymbolId
  name : String
  declaringType : TypeId
  isStatic : Bool
  origin : MemberOrigin
  kind : MemberKind
deriving Repr

namespace MemberKind

def name : MemberKind → String
  | method .. => "method"
  | constructor _ => "constructor"
  | field _ => "field"
  | property .. => "property"

def parameters : MemberKind → List Parameter
  | method ps .. => ps
  | constructor ps => ps
  | property _ ps _ _ => ps
  | field _ => []

/-- The declared type of storage. -/
def storedType? : MemberKind → Option TypeRef
  | field t => some t
  | property t _ _ _ => some t
  | method .. | constructor _ => none

def isField : MemberKind → Bool
  | field _ => true
  | _ => false

def isMethod : MemberKind → Bool
  | method .. => true
  | _ => false

def isProperty : MemberKind → Bool
  | property .. => true
  | _ => false

def isConstructor : MemberKind → Bool
  | constructor _ => true
  | _ => false

def overrides? : MemberKind → Option SymbolId
  | method _ _ _ _ overrides => overrides
  | _ => none

end MemberKind

namespace MemberDescriptor

def parameters (m : MemberDescriptor) : List Parameter := m.kind.parameters

def arity (m : MemberDescriptor) : Nat := m.parameters.length

end MemberDescriptor

end OpTree
