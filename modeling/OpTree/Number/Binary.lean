/-
Binary floating point, by the bits. A pattern denotes NaN, an infinity, or a
signed integer times a power of two; writing a number back rounds it to the
nearest pattern, a half going to the even one. What core leaves without a
definition (the change between the two widths, truncation to an integer, the
remainder) is defined here by exact arithmetic on that form.
-/
import OpTree.Number.IntKind

namespace OpTree

-- Powers of numbers are the recursive ones, whatever other instances are in scope.
attribute [local instance (high)] instPowNat

/-- What a floating-point pattern denotes: `finite s m e` is `m` times two to
the `e`, negated when `s` holds. -/
inductive BinaryReal where
  | nan
  | infinite (negative : Bool)
  | finite (negative : Bool) (mantissa : Nat) (exponent : Int)
deriving DecidableEq, Repr

/-- The widths of the two fields of a floating-point pattern. -/
structure BinaryLayout where
  fractionBits : Nat
  exponentBits : Nat
deriving DecidableEq, Repr

namespace BinaryLayout

def binary32 : BinaryLayout := ⟨23, 8⟩
def binary64 : BinaryLayout := ⟨52, 11⟩

def bias (l : BinaryLayout) : Nat := 2 ^ (l.exponentBits - 1) - 1

/-- The exponent of the unit in the last place of the least numbers. -/
def leastExponent (l : BinaryLayout) : Int := 1 - (l.bias : Int) - l.fractionBits

def infinityBits (l : BinaryLayout) : Nat := (2 ^ l.exponentBits - 1) * 2 ^ l.fractionBits

def signBit (l : BinaryLayout) (negative : Bool) : Nat :=
  if negative then 2 ^ (l.fractionBits + l.exponentBits) else 0

def decode (l : BinaryLayout) (bits : Nat) : BinaryReal :=
  let fraction := bits % 2 ^ l.fractionBits
  let exponent := bits / 2 ^ l.fractionBits % 2 ^ l.exponentBits
  let negative := bits / 2 ^ (l.fractionBits + l.exponentBits) % 2 == 1
  if exponent = 2 ^ l.exponentBits - 1 then
    if fraction = 0 then .infinite negative else .nan
  else if exponent = 0 then .finite negative fraction l.leastExponent
  else .finite negative (2 ^ l.fractionBits + fraction) (l.leastExponent + (exponent - 1))

/-- The quotient to the nearest integer; a half goes to the even neighbour. -/
def divRoundEven (num den : Nat) : Nat :=
  let q := num / den
  let r := num % den
  if 2 * r > den ∨ (2 * r = den ∧ q % 2 = 1) then q + 1 else q

/-- The pattern nearest to a number; past the greatest finite one it is the
infinity. -/
def encode (l : BinaryLayout) : BinaryReal → Nat
  | .nan => l.infinityBits + 2 ^ (l.fractionBits - 1)
  | .infinite negative => l.signBit negative + l.infinityBits
  | .finite negative 0 _ => l.signBit negative
  | .finite negative (m + 1) e =>
    let unit := max l.leastExponent (e + (Nat.log2 (m + 1) : Int) - l.fractionBits)
    let rounded :=
      if unit ≤ e then (m + 1) * 2 ^ (e - unit).toNat
      else divRoundEven (m + 1) (2 ^ (unit - e).toNat)
    let bits := (unit - l.leastExponent).toNat * 2 ^ l.fractionBits + rounded
    l.signBit negative + min bits l.infinityBits

end BinaryLayout

namespace BinaryReal

open BinaryLayout (binary32 binary64)

def ofFloat (x : Float) : BinaryReal := binary64.decode x.toBits.toNat
def ofFloat32 (x : Float32) : BinaryReal := binary32.decode x.toBits.toNat
def ofInt (n : Int) : BinaryReal := .finite (n < 0) n.natAbs 0

def toFloat (r : BinaryReal) : Float := Float.ofBits (UInt64.ofNat (binary64.encode r))
def toFloat32 (r : BinaryReal) : Float32 := Float32.ofBits (UInt32.ofNat (binary32.encode r))

/-- The number that a layout has in the place of `r`. -/
def round (l : BinaryLayout) (r : BinaryReal) : BinaryReal := l.decode (l.encode r)

/-- The integer part, with the sign kept. -/
def truncate (negative : Bool) (m : Nat) (e : Int) : Int :=
  let n := if 0 ≤ e then m * 2 ^ e.toNat else m / 2 ^ (-e).toNat
  if negative then -n else n

/-- The integer of a kind that is nearest to the number cut off towards zero;
NaN gives zero. -/
def toIntKind (k : IntKind) : BinaryReal → BitVec k.width
  | .nan => k.wrap 0
  | .infinite negative => k.wrap (if negative then k.minimum else k.maximum)
  | .finite negative m e => k.saturate (truncate negative m e)

/-- The remainder of the division that truncates towards zero; it has the sign
of the dividend. -/
def rem : BinaryReal → BinaryReal → BinaryReal
  | .finite negative m e, .finite _ m' e' =>
    if m' = 0 then .nan
    else
      let unit := min e e'
      .finite negative ((m * 2 ^ (e - unit).toNat) % (m' * 2 ^ (e' - unit).toNat)) unit
  | .finite negative m e, .infinite _ => .finite negative m e
  | .nan, _ | .infinite _, _ | .finite .., .nan => .nan

def abs : BinaryReal → BinaryReal
  | .nan => .nan
  | .infinite _ => .infinite false
  | .finite _ m e => .finite false m e

/-- Less than zero; a negative zero is not. -/
def isNegative : BinaryReal → Bool
  | .nan => false
  | .infinite negative => negative
  | .finite negative m _ => negative && m != 0

def floatRem (a b : Float) : Float := (rem (.ofFloat a) (.ofFloat b)).toFloat

def float32Rem (a b : Float32) : Float32 := (rem (.ofFloat32 a) (.ofFloat32 b)).toFloat32

end BinaryReal

end OpTree
