/-
The text of a value where it is joined to other text: what a user sees, so
booleans are capitalised, nothing stands for void and null, and a handle shows
its type.
-/
import OpTree.Number.Decimal
import OpTree.Value

namespace OpTree

/-- Reals are shown without an exponent, and whole ones without a point. -/
def Decimal.Style.plain : Decimal.Style := ⟨fun _ => true, false⟩

namespace Value

mutual

def display : Value → String
  | void | null => ""
  | bool b => if b then "True" else "False"
  | char c => c.toString
  | int k v => toString (k.toInt v)
  | f32 x => BinaryReal.shortestText .binary32 .plain (.ofFloat32 x)
  | f64 x => BinaryReal.shortestText .binary64 .plain (.ofFloat x)
  | text s => s
  | object ref => ref.type.text
  | array ref => ref.type.text
  | tuple [] => "()"
  | tuple (v :: vs) => "(" ++ v.display ++ displayRest vs ++ ")"
  | type t => t.text

/-- The components after the first, a comma before each. -/
def displayRest : List Value → String
  | [] => ""
  | v :: vs => ", " ++ v.display ++ displayRest vs

end

end Value

end OpTree
