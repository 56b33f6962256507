/-
Binary numbers in decimal. A finite binary number is a decimal one exactly, so
both texts of it are arithmetic on integers: a fixed count of places is the
quotient rounded to the nearest (a half goes to the even digit), and the
shortest text is the first decimal grid, coarsest first, on which one of the
number's two neighbours still reads back as the number.
-/
import OpTree.Number.Binary

namespace OpTree

-- Powers of numbers are the recursive ones, whatever other instances are in scope.
attribute [local instance (high)] instPowNat

/-- A nonnegative decimal number: `digits` times ten to the `exponent`. -/
structure Decimal where
  digits : Nat
  exponent : Int
deriving DecidableEq, Repr

namespace Decimal

/-- The decimal number equal to `m` times two to the `e`. -/
def ofBinary (m : Nat) (e : Int) : Decimal :=
  if 0 ≤ e then ⟨m * 2 ^ e.toNat, 0⟩ else ⟨m * 5 ^ (-e).toNat, e⟩

def digitCount (n : Nat) : Nat := (Nat.toDigits 10 n).length

/-- The numbers that read back as one binary number, in some common unit: its
own place, the two ends, and whether the ends count. -/
structure Neighbourhood where
  value : Nat
  low : Nat
  high : Nat
  closed : Bool

namespace Neighbourhood

def contains (r : Neighbourhood) (n : Nat) : Bool :=
  if r.closed then r.low ≤ n && n ≤ r.high else r.low < n && n < r.high

/-- The neighbour of the value on a grid that lies in the neighbourhood; of two
the nearer, and of two equally near ones the upper. -/
def onGrid? (r : Neighbourhood) (step : Nat) : Option Nat :=
  let below := r.value / step
  let belowFits := r.contains (below * step)
  let aboveFits := r.contains ((below + 1) * step)
  if belowFits && aboveFits then
    some (if r.value - below * step < (below + 1) * step - r.value then below else below + 1)
  else if belowFits then some below
  else if aboveFits then some (below + 1)
  else none

/-- The number on the coarsest grid of at most ten to the `n` that has one. -/
def coarsest (r : Neighbourhood) : Nat → Decimal
  | 0 => ⟨r.value, 0⟩
  | n + 1 =>
    match r.onGrid? (10 ^ (n + 1)) with
    | some d => ⟨d, n + 1⟩
    | none => r.coarsest n

end Neighbourhood

/-- The decimal number of fewest digits that reads back as `m` times two to the
`e` in a layout, and of those the nearest. -/
def shortest (l : BinaryLayout) (m : Nat) (e : Int) : Decimal :=
  let below := if m = 2 ^ l.fractionBits ∧ l.leastExponent < e then 1 else 2
  let unit := ofBinary 1 (e - 2)
  let r : Neighbourhood :=
    ⟨4 * m * unit.digits, (4 * m - below) * unit.digits, (4 * m + 2) * unit.digits, m % 2 == 0⟩
  let d := r.coarsest (digitCount r.value)
  ⟨d.digits, d.exponent + unit.exponent⟩

structure Style where
  /-- The exponents of the leading digit that are written positionally. -/
  positional : Int → Bool
  /-- Whether a whole number written positionally gets a point and a zero. -/
  pointAlways : Bool

def withPoint (digits : String) (places : Nat) : String :=
  let padded := String.ofList (List.replicate (places + 1 - digits.length) '0') ++ digits
  let whole := (padded.toList.take (padded.length - places))
  if places = 0 then padded
  else String.ofList whole ++ "." ++ String.ofList (padded.toList.drop (padded.length - places))

def positionalText (d : Decimal) (pointAlways : Bool) : String :=
  if 0 ≤ d.exponent then
    let whole := toString (d.digits * 10 ^ d.exponent.toNat)
    if pointAlways then whole ++ ".0" else whole
  else withPoint (toString d.digits) (-d.exponent).toNat

/-- One digit, the others after a point if there are any, and the exponent. -/
def scientificText (d : Decimal) : String :=
  match Nat.toDigits 10 d.digits with
  | [] => ""
  | first :: rest =>
    let exponent := d.exponent + rest.length
    let significand := if rest.isEmpty then [first] else first :: '.' :: rest
    String.ofList significand ++ s!"e{exponent}"

def leadingExponent (d : Decimal) : Int := d.exponent + digitCount d.digits - 1

/-- The number in a style. Zero has no leading digit and is positional. -/
def text (style : Style) (d : Decimal) : String :=
  if d.digits = 0 then (if style.pointAlways then "0.0" else "0")
  else if style.positional d.leadingExponent then d.positionalText style.pointAlways
  else d.scientificText

/-- The number to the nearest multiple of ten to the minus `places`; a half
goes to the even digit. -/
def fixedText (d : Decimal) (places : Nat) : String :=
  let shift := d.exponent + places
  let scaled :=
    if 0 ≤ shift then d.digits * 10 ^ shift.toNat
    else BinaryLayout.divRoundEven d.digits (10 ^ (-shift).toNat)
  withPoint (toString scaled) places

end Decimal

namespace BinaryReal

def signText (negative : Bool) : String := if negative then "-" else ""

def shortestText (l : BinaryLayout) (style : Decimal.Style) : BinaryReal → String
  | .nan => "NaN"
  | .infinite negative => signText negative ++ "inf"
  | .finite negative 0 _ => signText negative ++ Decimal.text style ⟨0, 0⟩
  | .finite negative (m + 1) e =>
    signText negative ++ (Decimal.shortest l (m + 1) e).text style

def fixedText (places : Nat) : BinaryReal → String
  | .nan => "NaN"
  | .infinite negative => signText negative ++ "inf"
  | .finite negative m e => signText negative ++ (Decimal.ofBinary m e).fixedText places

end BinaryReal

end OpTree
