/-
Operators as they stand in source, with the symbols that error messages
quote.
-/

namespace OpTree

inductive BinaryOp where
  | add | sub | mul | div | rem
  | eq | notEq | lt | ltEq | gt | gtEq
  | and | or
  | bitAnd | bitOr | bitXor | shl | shr
deriving DecidableEq, Repr

namespace BinaryOp

def symbol : BinaryOp → String
  | add => "+" | sub => "-" | mul => "*" | div => "/" | rem => "%"
  | eq => "==" | notEq => "!=" | lt => "<" | ltEq => "<=" | gt => ">" | gtEq => ">="
  | and => "&&" | or => "||"
  | bitAnd => "&" | bitOr => "|" | bitXor => "^" | shl => "<<" | shr => ">>"

def all : List BinaryOp :=
  [add, sub, mul, div, rem, eq, notEq, lt, ltEq, gt, gtEq, and, or, bitAnd, bitOr, bitXor, shl, shr]

def ofSymbol? (s : String) : Option BinaryOp := all.find? fun op => op.symbol == s

/-- The operators whose right operand may be left unevaluated. -/
def isShortCircuit : BinaryOp → Bool
  | and | or => true
  | _ => false

def isEquality : BinaryOp → Bool
  | eq | notEq => true
  | _ => false

end BinaryOp

inductive UnaryOp where
  | plus | neg | not | bitNot
deriving DecidableEq, Repr

namespace UnaryOp

def symbol : UnaryOp → String
  | plus => "+" | neg => "-" | not => "!" | bitNot => "~"

def ofSymbol? (s : String) : Option UnaryOp := [plus, neg, not, bitNot].find? fun op => op.symbol == s

end UnaryOp

end OpTree
