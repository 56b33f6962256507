/-
Member tables of closed types. The walk goes from a type to its base and on
while the types are symbolic, and registers the bodies of the source members it
meets. A body also claims the member that it overrides, and a member that is
claimed already passes the claim down, so the most derived body stands for the
whole chain of overrides. Constructors count at the first type only.

Binding an object to a session gives it an instance frame and its type's table.
-/
import OpTree.Eval.Member

namespace OpTree.Context

variable {σ : Type} (c : Context σ)

/-- Register the body of a member, unless the member is claimed; either way the
member that it overrides is claimed for the same body. -/
def registerBody (context : ClosedType) (symbol : SymbolId) (overrides : Option SymbolId)
    (table : MemberTable) : Run (World σ) MemberTable :=
  match table.lookup symbol with
  | some id => pure (table.claimOption overrides id)
  | none =>
    match c.host.tree symbol with
    | none => pure table
    | some tree => do
      let id ← Run.modifyGet fun w =>
        let (id, registry) := (w.session c.session).registry.register ⟨context, tree, symbol⟩
        (id, w.mapSession c.session fun state => { state with registry := registry })
      return (table.claim symbol id).claimOption overrides id

def registerAccessors (context : ClosedType) : List SymbolId → MemberTable →
    Run (World σ) MemberTable
  | [], table => pure table
  | accessor :: rest, table => do
    let member ← c.host.member accessor
    let table ← c.registerBody context accessor member.kind.overrides? table
    registerAccessors context rest table

def registerMember (context : ClosedType) (mostDerived : Bool) (symbol : SymbolId)
    (table : MemberTable) : Run (World σ) MemberTable := do
  let member ← c.host.member symbol
  if member.origin ≠ .source then return table
  else
    match member.kind with
    | .method _ _ _ _ overrides => c.registerBody context symbol overrides table
    | .constructor _ =>
      if mostDerived then c.registerBody context symbol none table else return table
    | .property _ _ getter setter =>
      c.registerAccessors context (getter.toList ++ setter.toList) table
    | .field _ => return table

def registerMembers (context : ClosedType) (mostDerived : Bool) : List SymbolId → MemberTable →
    Run (World σ) MemberTable
  | [], table => pure table
  | symbol :: rest, table => do
    let table ← c.registerMember context mostDerived symbol table
    registerMembers context mostDerived rest table

/-- Register the bodies of a type and of its bases, in at most some number of
steps. -/
def registerLevels : Nat → ClosedType → Bool → MemberTable → Run (World σ) MemberTable
  | 0, _, _, _ => Run.exhausted
  | n + 1, type, mostDerived, table =>
    match type.definition? with
    | none => pure table
    | some d => do
      let descriptor ← c.host.typeDescriptor d
      if !descriptor.isSymbolic then return table
      else
        let table ← c.registerMembers type mostDerived descriptor.members table
        match descriptor.base with
        | none => return table
        | some base =>
          let closed ← base.close (Substitution.ofType type.typeArgs).resolver
          registerLevels n closed false table

/-- The member table of a closed type, made on the first request. -/
def memberTable (type : ClosedType) : Run (World σ) MemberTable := do
  match ← Run.gets fun w => (w.session c.session).tables.get? type with
  | some table => return table
  | none =>
    let table ← c.registerLevels c.fuel type true (.empty type)
    Run.modify fun w => w.mapSession c.session fun state =>
      { state with tables := state.tables.insert type table }
    return table

/-- Bind an object to the session as one of a type, and answer its instance
frame. -/
def bind (o : ObjectRef) (type : ClosedType) : Run (World σ) FrameId := do
  let classFrame ← World.classFrame c.session type
  let frame ← World.childFrame classFrame (.ofInstance (some o))
  let table ← c.memberTable type
  World.bind o (.session c.session frame table)
  return frame

end OpTree.Context
