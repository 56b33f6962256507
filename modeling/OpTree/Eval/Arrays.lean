/-
Arrays in trees: reaching an element, and creating an array with the elements
of a nested initializer. An initializer stores each of its items at the index
path of the initializer followed by the item's position; an item that is itself
an initializer is one dimension further in.
-/
import OpTree.Eval.Machine

namespace OpTree

namespace Node

def initializerItems? (node : Node) : Option (List Node) :=
  match node.op with
  | .arrayInitializer items => some items
  | _ => none

/-- The lengths of at most `rank` dimensions, read off the first item of each
level. -/
def initializerShape : Nat → Node → List Nat
  | 0, _ => []
  | rank + 1, node =>
    match node.initializerItems? with
    | none => []
    | some [] => [0]
    | some (first :: rest) => (rest.length + 1) :: initializerShape rank first

end Node

namespace Context

variable {σ : Type} (c : Context σ)

def indices : List Value → Except EvalError (List Int)
  | [] => .ok []
  | v :: vs => do
    let i ← v.asIndex
    let is ← indices vs
    return i :: is

/-- The array and the indices of an element. -/
def elementTarget (array : Node) (index : List Node) : Run (Machine σ) (ArrayRef × List Int) := do
  match ← c.eval array with
  | .array a =>
    let values ← c.evalList index
    let is ← indices values
    return (a, is)
  | .null => Run.fail (.nullReference "[]")
  | v => Run.fail (.typeMismatch "array" v.typeName)

def readElement (array : Node) (index : List Node) : Run (Machine σ) Value := do
  let (a, is) ← c.elementTarget array index
  Run.ofExcept (← Run.gets fun s => s.world.getElement a is)

/-- Dimensions as lengths; a negative one is out of range. -/
def lengths : List Value → Except EvalError (List Nat)
  | [] => .ok []
  | v :: vs => do
    let n ← v.asIndex
    if n < 0 then .error (.of (.indexOutOfRange n 0))
    else
      let ns ← lengths vs
      return n.toNat :: ns

/-- The lengths of a new array: the dimensions, or the initializer's shape, or
nothing in every dimension. -/
def newLengths (rank : Nat) (dimensions : List Node) (initializer : Option Node) :
    Run (Machine σ) (List Nat) :=
  match dimensions, initializer with
  | [], some node => pure (node.initializerShape rank)
  | [], none => pure (List.replicate rank 0)
  | dimensions, _ => do
    let values ← c.evalList dimensions
    Run.ofExcept (lengths values)

def createArray (element : TypeRef) (rank : Nat) (dimensions : List Node)
    (initializer : Option Node) : Run (Machine σ) Value := do
  let type ← Run.closeType element
  let ns ← c.newLengths rank dimensions initializer
  if ns.length ≠ rank then
    Run.fail (.typeMismatch s!"{rank} dimensions" s!"{ns.length} dimensions")
  else
    let a ← Run.onWorld (Run.modifyGet fun w => w.newArray type (.filled ns type.defaultValue))
    match initializer with
    | some node =>
      let _ ← Run.between (fun act => { act with arrayInits := ⟨a, []⟩ :: act.arrayInits })
        (fun act => { act with arrayInits := act.arrayInits.tail }) (c.eval node)
      return .array a
    | none => return .array a

def mapInnerPath (f : List Int → List Int) (a : Activation) : Activation :=
  { a with arrayInits :=
      match a.arrayInits with
      | init :: rest => { init with path := f init.path } :: rest
      | [] => [] }

/-- Store the items of an initializer, the first of them at a position. -/
def fillItems : Int → List Node → Run (Machine σ) Unit
  | _, [] => pure ()
  | position, item :: rest => do
    match item.initializerItems? with
    | some _ =>
      let _ ← Run.between (mapInnerPath (· ++ [position])) (mapInnerPath List.dropLast) (c.eval item)
      pure ()
    | none =>
      let v ← c.eval item
      match ← Run.gets fun s => s.activation.arrayInits with
      | init :: _ => Run.onWorld (World.setElement init.array (init.path ++ [position]) v)
      | [] => Run.fail (.missingContext "array creation")
    fillItems (position + 1) rest

def fillArray (items : List Node) : Run (Machine σ) Value := do
  match ← Run.gets fun s => s.activation.arrayInits with
  | [] => Run.fail (.missingContext "array creation")
  | _ =>
    c.fillItems 0 items
    return .void

end Context

end OpTree
