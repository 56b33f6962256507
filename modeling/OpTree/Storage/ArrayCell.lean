/-
What an array holds. The elements stand in row-major order, and there are
always as many as the product of the lengths; an index list is turned into a
position one dimension after another.
-/
import OpTree.Value

namespace OpTree

/-- How many elements an array of some lengths has. -/
def elementCount : List Nat → Nat
  | [] => 1
  | n :: ns => n * elementCount ns

/-- The lengths of an array's dimensions and its elements. -/
structure ArrayCell where
  lengths : List Nat
  data : Array Value
  size_eq : data.size = elementCount lengths

namespace ArrayCell

/-- An index within a dimension. -/
def position (length : Nat) (index : Int) : Except EvalError Nat :=
  if 0 ≤ index ∧ index.toNat < length then .ok index.toNat
  else .error (.of (.indexOutOfRange index length))

/-- The place of an element among those of its dimensions. -/
def offset : List Nat → List Int → Except EvalError Nat
  | n :: ns, i :: is => do
    let k ← position n i
    let rest ← offset ns is
    return k * elementCount ns + rest
  | _, _ => .ok 0

/-- The place of an element among all. There is one index to every dimension. -/
def flatIndex (lengths : List Nat) (indices : List Int) : Except EvalError Nat :=
  if indices.length = lengths.length then offset lengths indices
  else .error (.of (.arityMismatch "array element access" lengths.length indices.length))

def filled (lengths : List Nat) (v : Value) : ArrayCell :=
  ⟨lengths, Array.replicate (elementCount lengths) v, Array.size_replicate⟩

/-- Replace elements from a place on, as many as there are values and room. -/
def overwriteFrom (data : Array Value) : Nat → List Value → Array Value
  | _, [] => data
  | i, v :: vs => overwriteFrom (data.setIfInBounds i v) (i + 1) vs

theorem size_overwriteFrom (data : Array Value) (i : Nat) (values : List Value) :
    (overwriteFrom data i values).size = data.size := by
  induction values generalizing data i with
  | nil => rfl
  | cons v vs ih => simp [overwriteFrom, ih]

/-- An array of some lengths that begins with some values and goes on with one. -/
def startingWith (lengths : List Nat) (values : List Value) (rest : Value) : ArrayCell :=
  ⟨lengths, overwriteFrom (Array.replicate (elementCount lengths) rest) 0 values, by
    simp [size_overwriteFrom]⟩

def get (a : ArrayCell) (indices : List Int) : Except EvalError Value := do
  let i ← flatIndex a.lengths indices
  return a.data[i]?.getD .void

def set (a : ArrayCell) (indices : List Int) (v : Value) : Except EvalError ArrayCell := do
  let i ← flatIndex a.lengths indices
  return ⟨a.lengths, a.data.setIfInBounds i v, by simp [a.size_eq]⟩

end ArrayCell

end OpTree
