/-
The primitive types and the spellings by which source text names them.
-/

namespace OpTree

inductive PrimitiveType where
  | void | bool | char
  | i8 | u8 | i16 | u16 | i32 | u32 | i64 | u64
  | f32 | f64
  | text | object | typeHandle
deriving DecidableEq, Repr

namespace PrimitiveType

def name : PrimitiveType → String
  | void => "void" | bool => "bool" | char => "char"
  | i8 => "sbyte" | u8 => "byte" | i16 => "short" | u16 => "ushort"
  | i32 => "int" | u32 => "uint" | i64 => "long" | u64 => "ulong"
  | f32 => "float" | f64 => "double"
  | text => "string" | object => "object" | typeHandle => "Type"

def all : List PrimitiveType :=
  [void, bool, char, i8, u8, i16, u16, i32, u32, i64, u64, f32, f64, text, object, typeHandle]

def ofName? (s : String) : Option PrimitiveType := all.find? fun p => p.name == s

/-- The primitives whose values are references. -/
def acceptsNull : PrimitiveType → Bool
  | text | object | typeHandle => true
  | _ => false

end PrimitiveType

end OpTree
