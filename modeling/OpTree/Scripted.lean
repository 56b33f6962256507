/-
A host given as data: lists of types and members, with trees, and with scripts
for the loaded members. What a loaded member does is one of a few things, so a
whole program can be written down without a host of its own.
-/
import OpTree.Host
import OpTree.Table

namespace OpTree.Scripted

/-- What a loaded member does when it is called. -/
inductive Script where
  | constant (v : Value)
  /-- Answer an argument. -/
  | argument (index : Nat)
  /-- Answer the receiver, or null without one. -/
  | receiver
  /-- Make an object of the containing type. -/
  | create
  /-- Answer how often it was called. -/
  | count
  | fail (message : String)
  /-- Hold a value: a call without arguments and a load answer it, a call with
  arguments and a store replace it. -/
  | cell (start : Value)
  /-- Call a member of the first argument with the other arguments. -/
  | dispatch (member : SymbolId)

namespace Script

def isCell : Script → Bool
  | cell _ => true
  | _ => false

end Script

/-- How the objects behind a type are made. -/
inductive Making where
  | fresh
  /-- One object for each closed type. -/
  | shared
  /-- The host refuses the type. -/
  | rejected
  /-- The host fails to make an object. -/
  | failing
deriving DecidableEq, Repr

structure TypeScript where
  descriptor : TypeDescriptor
  making : Making

structure MemberScript where
  descriptor : MemberDescriptor
  body : Option Node
  script : Option Script

/-- Everything the host declares. -/
structure Program where
  types : List TypeScript
  members : List MemberScript

structure State where
  counts : Table SymbolId Nat
  cells : Table SymbolId Value
  shared : Table ClosedType ObjectRef

def State.initial : State := ⟨.empty, .empty, .empty⟩

/-- Answer what a cell holds. -/
def loadCell (m : SymbolId) (start : Value) : HostAction State Value :=
  .read fun s => .ok ((s.cells.get? m).getD start)

/-- Replace what a cell holds. -/
def storeCell {α : Type} (m : SymbolId) (v : Value) (answer : α) : HostAction State α :=
  .read fun s => .write { s with cells := s.cells.insert m v } (.ok answer)

def Script.handle (m : SymbolId) : Script → Handle State
  | constant v => .ofInvoke fun _ => .ok v
  | argument i => .ofInvoke fun call =>
    match call.args[i]? with
    | some v => .ok v
    | none => .fail (.host s!"no argument {i}")
  | receiver => .ofInvoke fun call => .ok (call.receiver.getD .null)
  | create => .ofInvoke fun call => .allocate call.containing fun o => .ok (.object o)
  | count => .ofInvoke fun _ => .read fun s =>
    let n := (s.counts.get? m).getD 0 + 1
    .write { s with counts := s.counts.insert m n } (.ok (.i32 n))
  | fail message => .ofInvoke fun _ => .fail (.host message)
  | cell start =>
    { invoke := fun call =>
        match call.args.getLast? with
        | none => loadCell m start
        | some v => storeCell m v .void
      load := fun _ => loadCell m start
      store := fun _ v => storeCell m v () }
  | dispatch member => .ofInvoke fun call =>
    match call.args with
    | .object o :: rest => .dispatch o member call.typeArgs rest .done
    | _ => .fail (.host "dispatch needs an object")

namespace Program

def type? (p : Program) (d : TypeId) : Option TypeScript :=
  p.types.find? fun t => t.descriptor.definition = d

def member? (p : Program) (m : SymbolId) : Option MemberScript :=
  p.members.find? fun s => s.descriptor.symbol = m

def making (p : Program) (type : ClosedType) : Making :=
  match type.definition?.bind p.type? with
  | some t => t.making
  | none => .fresh

def host (p : Program) : Host State where
  typeDescriptor d :=
    match p.type? d with
    | some t => .ok t.descriptor
    | none => .error (.of (.host s!"unknown type {d.raw}"))
  member m :=
    match p.member? m with
    | some s => .ok s.descriptor
    | none => .error (.of (.host s!"unknown member {m.raw}"))
  handle m := .ok ((p.member? m).bind fun s => s.script.map (Script.handle m))
  tree m := (p.member? m).bind MemberScript.body
  synthesize type :=
    match p.making type with
    | .fresh => .ok fun _ => .allocate type fun o => .ok o
    | .shared => .ok fun _ => .read fun s =>
      match s.shared.get? type with
      | some o => .ok o
      | none => .allocate type fun o =>
        .write { s with shared := s.shared.insert type o } (.ok o)
    | .rejected => .error (.of (.typeCreationFailed type.text "rejected by host"))
    | .failing => .ok fun _ => .fail (.host "construction failed")

end Program

end OpTree.Scripted
