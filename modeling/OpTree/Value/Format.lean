/-
Format specifiers: a letter and an optional precision. `D` and `X` write
integers in decimal and in hexadecimal with a least number of digits; `F` and
`N` write numbers with a fixed number of places, `N` with the digits of the
whole part in groups of three. An alignment pads the text to a width.
-/
import OpTree.Value.Display

namespace OpTree.Value

/-- The number behind `F` and `N`: integers count as 64-bit reals. -/
def real? : Value → Option BinaryReal
  | f32 x => some (.ofFloat32 x)
  | f64 x => some (.ofFloat x)
  | int k v => some (.round .binary64 (.ofInt (k.toInt v)))
  | _ => none

def padStart (c : Char) (width : Nat) (s : String) : String :=
  String.ofList (List.replicate (width - s.length) c) ++ s

def padEnd (c : Char) (width : Nat) (s : String) : String :=
  s ++ String.ofList (List.replicate (width - s.length) c)

def decimalText (n : Int) (width : Nat) : String :=
  (if n < 0 then "-" else "") ++ padStart '0' width (toString n.natAbs)

/-- The hexadecimal digits of a bit pattern, at least `width` of them. -/
def hexText (upper : Bool) (n width : Nat) : String :=
  let digits := String.ofList (Nat.toDigits 16 n)
  padStart '0' width (if upper then digits.toUpper else digits)

/-- A comma before every group of three, counted from the end. -/
def groupThousands : List Char → List Char
  | [] => []
  | c :: cs =>
    if cs.length % 3 = 0 ∧ cs ≠ [] then c :: ',' :: groupThousands cs else c :: groupThousands cs

def groupedText (places : Nat) (r : BinaryReal) : String :=
  let fixed := (r.abs.fixedText places).toList
  let whole := fixed.takeWhile (· != '.')
  let fraction := fixed.dropWhile (· != '.')
  (if r.isNegative then "-" else "") ++ String.ofList (groupThousands whole ++ fraction)

/-- The precision after the letter: digits, which a plus sign may precede. No
text at all is no precision, and a precision fits a `ulong`. -/
def precision? (digits : List Char) : Option (Option Nat) :=
  if digits.isEmpty then some none
  else
    let digits := match digits with
      | '+' :: rest => rest
      | _ => digits
    if digits.isEmpty || !digits.all Char.isDigit then none
    else
      let n : Nat := digits.foldl (fun n c => 10 * n + (c.toNat - '0'.toNat)) 0
      if n ≤ IntKind.u64.maximum then some (some n) else none

def lettered? (v : Value) (letter : Char) (precision : Option Nat) : Option String :=
  match letter with
  | 'D' | 'd' =>
    match v with
    | int k n => some (decimalText (k.toInt n) (precision.getD 0))
    | _ => none
  | 'X' | 'x' =>
    match v with
    | int _ n => some (hexText (letter == 'X') n.toNat (precision.getD 0))
    | _ => none
  | 'F' | 'f' => v.real?.map fun r => r.fixedText (precision.getD 2)
  | 'N' | 'n' => v.real?.map fun r => groupedText (precision.getD 2) r
  | _ => none

def specText (v : Value) (spec : String) : Except EvalError String :=
  let result := match spec.toList with
    | [] => none
    | letter :: digits => (precision? digits).bind fun precision => v.lettered? letter precision
  match result with
  | some s => .ok s
  | none => .error (.of (.invalidFormat spec v.typeName))

/-- Spaces on the left up to a width, or on the right for a negative one. -/
def align (s : String) : Option Int → String
  | none => s
  | some width => if width < 0 then padEnd ' ' width.natAbs s else padStart ' ' width.natAbs s

/-- The text of a value under an optional specifier and an optional alignment.
An empty specifier is none. -/
def format (v : Value) (spec : Option String) (alignment : Option Int) : Except EvalError String := do
  let s ← match spec with
    | none | some "" => pure v.display
    | some spec => v.specText spec
  return align s alignment

end OpTree.Value
