/-
The registry numbers the bodies that objects of symbolic types run; it only
grows at its end. A member table says, for one closed type, which registered
body each member symbol stands for; the first claim to a symbol stays.
-/
import OpTree.Table
import OpTree.Tree

namespace OpTree

structure OperationId where
  raw : Nat
deriving DecidableEq, Repr

structure RegistryEntry where
  /-- The closed type that declares the body. -/
  context : ClosedType
  tree : Node
  symbol : SymbolId

structure Registry where
  entries : Array RegistryEntry

namespace Registry

def empty : Registry := ⟨#[]⟩

/-- Append an entry under the next number. -/
def register (r : Registry) (entry : RegistryEntry) : OperationId × Registry :=
  (⟨r.entries.size⟩, ⟨r.entries.push entry⟩)

def get? (r : Registry) (id : OperationId) : Option RegistryEntry := r.entries[id.raw]?

def size (r : Registry) : Nat := r.entries.size

end Registry

/-- Which registered body each member of a closed type stands for. -/
structure MemberTable where
  type : ClosedType
  slots : Table SymbolId OperationId

namespace MemberTable

def empty (type : ClosedType) : MemberTable := ⟨type, .empty⟩

/-- Claim a symbol that nothing claimed before. -/
def claim (t : MemberTable) (symbol : SymbolId) (id : OperationId) : MemberTable :=
  { t with slots := t.slots.insertIfNew symbol id }

def claimOption (t : MemberTable) (symbol : Option SymbolId) (id : OperationId) : MemberTable :=
  match symbol with
  | some symbol => t.claim symbol id
  | none => t

def lookup (t : MemberTable) (symbol : SymbolId) : Option OperationId := t.slots.get? symbol

def size (t : MemberTable) : Nat := t.slots.size

end MemberTable

end OpTree
