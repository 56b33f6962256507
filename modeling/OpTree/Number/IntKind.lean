/-
The eight integer categories. An integer of a kind is a bit vector of the
kind's width; the kind says whether its top bit is a sign.
-/

namespace OpTree

-- Powers of numbers are the recursive ones, whatever other instances are in scope.
attribute [local instance (high)] instPowNat

inductive IntKind where
  | i8 | u8 | i16 | u16 | i32 | u32 | i64 | u64
deriving DecidableEq, Repr

namespace IntKind

def width : IntKind → Nat
  | i8 | u8 => 8
  | i16 | u16 => 16
  | i32 | u32 => 32
  | i64 | u64 => 64

def signed : IntKind → Bool
  | i8 | i16 | i32 | i64 => true
  | u8 | u16 | u32 | u64 => false

/-- The integer that the bits of a kind denote. -/
def toInt (k : IntKind) (v : BitVec k.width) : Int :=
  if k.signed then v.toInt else v.toNat

def minimum (k : IntKind) : Int := if k.signed then -(2 ^ (k.width - 1)) else 0

def maximum (k : IntKind) : Int := if k.signed then 2 ^ (k.width - 1) - 1 else 2 ^ k.width - 1

/-- The value of the kind that is congruent to `n` modulo two to its width. -/
def wrap (k : IntKind) (n : Int) : BitVec k.width := BitVec.ofInt k.width n

/-- The value of the kind nearest to `n`. -/
def saturate (k : IntKind) (n : Int) : BitVec k.width :=
  k.wrap (max k.minimum (min k.maximum n))

end IntKind

end OpTree
