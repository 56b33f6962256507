/-
Conversions between the primitive representations. A number or character is
an integer or a real; an integer target takes an integer modulo its width and
a real cut off and saturated; a character target takes 16 bits, of which the
surrogates are no character.
-/
import OpTree.Value

namespace OpTree

/-- The payload of a number or character. -/
inductive Numeric where
  | integer (n : Int)
  | real (r : BinaryReal)
deriving Repr

namespace Numeric

def toIntKind (k : IntKind) : Numeric → BitVec k.width
  | integer n => k.wrap n
  | real r => r.toIntKind k

def toReal : Numeric → BinaryReal
  | integer n => .ofInt n
  | real r => r

end Numeric

namespace Value

def numeric? : Value → Option Numeric
  | char c => some (.integer c.toNat)
  | int k v => some (.integer (k.toInt v))
  | f32 x => some (.real (.ofFloat32 x))
  | f64 x => some (.real (.ofFloat x))
  | _ => none

/-- A number or character in the representation of a primitive type. -/
def ofNumeric? (n : Numeric) (target : PrimitiveType) : Option Value :=
  match target with
  | .f32 => some (f32 n.toReal.toFloat32)
  | .f64 => some (f64 n.toReal.toFloat)
  | .char =>
    let unit := (n.toIntKind .u16).toNat
    if unit.isValidChar then some (char (Char.ofNat unit)) else none
  | _ => target.intKind?.map fun k => int k (n.toIntKind k)

/-- The value in another primitive representation, if there is a conversion. -/
def convertPrimitive? (v : Value) (target : PrimitiveType) : Option Value :=
  match v, target with
  | bool b, .bool => some (bool b)
  | text s, .text => some (text s)
  | v, target => v.numeric?.bind fun n => ofNumeric? n target

end Value

end OpTree
