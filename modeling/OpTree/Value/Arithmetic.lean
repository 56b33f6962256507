/-
Operators on values. `BinaryOp.apply` and `UnaryOp.apply` take primitive
operands, the two of a binary operator of one category: integers wrap, reals
follow IEEE, and dividing an integer by zero fails. `BinaryOp.eval` is the
operator of the language, which besides compares references by identity and
joins a text to the text of anything.
-/
import OpTree.Operator
import OpTree.Value.Display

namespace OpTree

namespace IntKind

/-- The quotient, cut off towards zero. -/
def div (k : IntKind) (a b : BitVec k.width) : BitVec k.width :=
  if k.signed then a.sdiv b else a / b

/-- What the quotient leaves; it has the sign of the dividend. -/
def rem (k : IntKind) (a b : BitVec k.width) : BitVec k.width :=
  if k.signed then a.srem b else a % b

def less (k : IntKind) (a b : BitVec k.width) : Bool :=
  if k.signed then a.slt b else a.ult b

def lessEq (k : IntKind) (a b : BitVec k.width) : Bool :=
  if k.signed then a.sle b else a.ule b

/-- The count of a shift: the right operand, taken for an unsigned number of
32 bits. -/
def shiftAmount (k : IntKind) (b : BitVec k.width) : BitVec 32 := BitVec.ofInt 32 (k.toInt b)

/-- A shift looks at no more bits of its count than the places of the kind need. -/
def shiftMask (k : IntKind) (b : BitVec k.width) : Nat :=
  (k.shiftAmount b &&& BitVec.ofNat 32 (k.width - 1)).toNat

def shiftLeft (k : IntKind) (a b : BitVec k.width) : BitVec k.width := a <<< k.shiftMask b

/-- A shift to the right keeps the sign, where there is one. -/
def shiftRight (k : IntKind) (a b : BitVec k.width) : BitVec k.width :=
  if k.signed then a.sshiftRight (k.shiftMask b) else a >>> k.shiftMask b

end IntKind

namespace BinaryOp

/-- The operator is not defined for a category. -/
def undefinedFor (op : BinaryOp) (c : Category) : EvalError :=
  .of (.invalidOperator op.symbol c.name)

def applyInt (op : BinaryOp) (k : IntKind) (a b : BitVec k.width) : Except EvalError Value :=
  match op with
  | add => .ok (.int k (a + b))
  | sub => .ok (.int k (a - b))
  | mul => .ok (.int k (a * b))
  | div => if b = 0 then .error (.of .divideByZero) else .ok (.int k (k.div a b))
  | rem => if b = 0 then .error (.of .divideByZero) else .ok (.int k (k.rem a b))
  | eq => .ok (.bool (a == b))
  | notEq => .ok (.bool (a != b))
  | lt => .ok (.bool (k.less a b))
  | ltEq => .ok (.bool (k.lessEq a b))
  | gt => .ok (.bool (k.less b a))
  | gtEq => .ok (.bool (k.lessEq b a))
  | bitAnd => .ok (.int k (a &&& b))
  | bitOr => .ok (.int k (a ||| b))
  | bitXor => .ok (.int k (a ^^^ b))
  | shl => .ok (.int k (k.shiftLeft a b))
  | shr => .ok (.int k (k.shiftRight a b))
  | and | or => .error (op.undefinedFor (.int k))

def applyF32 (op : BinaryOp) (a b : Float32) : Except EvalError Value :=
  match op with
  | add => .ok (.f32 (a + b))
  | sub => .ok (.f32 (a - b))
  | mul => .ok (.f32 (a * b))
  | div => .ok (.f32 (a / b))
  | rem => .ok (.f32 (BinaryReal.float32Rem a b))
  | eq => .ok (.bool (a == b))
  | notEq => .ok (.bool (a != b))
  | lt => .ok (.bool (decide (a < b)))
  | ltEq => .ok (.bool (decide (a ≤ b)))
  | gt => .ok (.bool (decide (b < a)))
  | gtEq => .ok (.bool (decide (b ≤ a)))
  | bitAnd | bitOr | bitXor | shl | shr | and | or => .error (op.undefinedFor .f32)

def applyF64 (op : BinaryOp) (a b : Float) : Except EvalError Value :=
  match op with
  | add => .ok (.f64 (a + b))
  | sub => .ok (.f64 (a - b))
  | mul => .ok (.f64 (a * b))
  | div => .ok (.f64 (a / b))
  | rem => .ok (.f64 (BinaryReal.floatRem a b))
  | eq => .ok (.bool (a == b))
  | notEq => .ok (.bool (a != b))
  | lt => .ok (.bool (decide (a < b)))
  | ltEq => .ok (.bool (decide (a ≤ b)))
  | gt => .ok (.bool (decide (b < a)))
  | gtEq => .ok (.bool (decide (b ≤ a)))
  | bitAnd | bitOr | bitXor | shl | shr | and | or => .error (op.undefinedFor .f64)

def applyBool (op : BinaryOp) (a b : Bool) : Except EvalError Value :=
  match op with
  | eq => .ok (.bool (a == b))
  | notEq => .ok (.bool (a != b))
  | bitAnd | and => .ok (.bool (a && b))
  | bitOr | or => .ok (.bool (a || b))
  | bitXor => .ok (.bool (a ^^ b))
  | _ => .error (op.undefinedFor .bool)

def applyChar (op : BinaryOp) (a b : Char) : Except EvalError Value :=
  match op with
  | eq => .ok (.bool (a == b))
  | notEq => .ok (.bool (a != b))
  | lt => .ok (.bool (decide (a < b)))
  | ltEq => .ok (.bool (decide (a ≤ b)))
  | gt => .ok (.bool (decide (b < a)))
  | gtEq => .ok (.bool (decide (b ≤ a)))
  | _ => .error (op.undefinedFor .char)

def applyText (op : BinaryOp) (a b : String) : Except EvalError Value :=
  match op with
  | add => .ok (.text (a ++ b))
  | eq => .ok (.bool (a == b))
  | notEq => .ok (.bool (a != b))
  | _ => .error (op.undefinedFor .text)

/-- Why two operands have no category in common. A null operand is reported
before anything else, and the left one before the right. -/
def operandError (op : BinaryOp) (l r : Value) : EvalError :=
  if l.isNull || r.isNull then .of (.nullOperand op.symbol)
  else
    match l.category?, r.category? with
    | none, _ => .of (.unsupportedOperand op.symbol l.typeName)
    | some _, none => .of (.unsupportedOperand op.symbol r.typeName)
    | some c, some c' => .of (.operandCategoryMismatch op.symbol c.name c'.name)

/-- A binary operator on two operands of one category. -/
def apply (op : BinaryOp) (l r : Value) : Except EvalError Value :=
  match l, r with
  | .bool a, .bool b => op.applyBool a b
  | .char a, .char b => op.applyChar a b
  | .int k a, .int k' b =>
    if h : k' = k then op.applyInt k a (h ▸ b) else .error (op.operandError l r)
  | .f32 a, .f32 b => op.applyF32 a b
  | .f64 a, .f64 b => op.applyF64 a b
  | .text a, .text b => op.applyText a b
  | _, _ => .error (op.operandError l r)

/-- Addition of a text and something that is not one joins their texts. -/
def joinsText (op : BinaryOp) (l r : Value) : Bool :=
  match op, l, r with
  | add, .text _, .text _ => false
  | add, .text _, _ => true
  | add, _, .text _ => true
  | _, _, _ => false

/-- A binary operator on evaluated operands. -/
def eval (op : BinaryOp) (l r : Value) : Except EvalError Value :=
  if op.isEquality && (l.isReference || r.isReference) then
    .ok (.bool (if op = eq then l.sameReference r else !l.sameReference r))
  else if op.joinsText l r then .ok (.text (l.display ++ r.display))
  else op.apply l r

end BinaryOp

namespace UnaryOp

def apply (op : UnaryOp) (v : Value) : Except EvalError Value :=
  match op, v with
  | not, .bool b => .ok (.bool !b)
  | plus, .int k n => .ok (.int k n)
  | neg, .int k n => .ok (.int k (-n))
  | bitNot, .int k n => .ok (.int k (~~~n))
  | plus, .f32 x => .ok (.f32 x)
  | neg, .f32 x => .ok (.f32 (-x))
  | plus, .f64 x => .ok (.f64 x)
  | neg, .f64 x => .ok (.f64 (-x))
  | _, v =>
    match v.category? with
    | some c => .error (.of (.invalidOperator op.symbol c.name))
    | none =>
      if v.isNull then .error (.of (.nullOperand op.symbol))
      else .error (.of (.unsupportedOperand op.symbol v.typeName))

end UnaryOp

namespace Value

/-- The character with a code point, if the number is one. -/
def char? (n : Int) : Option Char :=
  if 0 ≤ n ∧ n.toNat.isValidChar then some (Char.ofNat n.toNat) else none

/-- The value one above, or below, in its own category. -/
def step (decrement : Bool) (v : Value) : Except EvalError Value :=
  let symbol := if decrement then "--" else "++"
  match v with
  | int k n => .ok (int k (if decrement then n - 1 else n + 1))
  | f32 x => .ok (f32 (if decrement then x - 1 else x + 1))
  | f64 x => .ok (f64 (if decrement then x - 1 else x + 1))
  | char c =>
    match char? (if decrement then (c.toNat : Int) - 1 else c.toNat + 1) with
    | some next => .ok (char next)
    | none => .error (.of (.invalidOperator symbol v.typeName))
  | null => .error (.of (.nullOperand symbol))
  | v => .error (.of (.unsupportedOperand symbol v.typeName))

end Value

end OpTree
