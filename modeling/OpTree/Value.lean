/-
Runtime values. A value that is shared and mutable is a handle: its identity,
and as much of its type as never changes; what it holds is in the heap.
Equality of values is identity for handles, the equality of IEEE for reals,
and componentwise for tuples.
-/
import OpTree.Number.Binary
import OpTree.Types.ClosedType

namespace OpTree

/-- A handle of an object: its place in the heap and its type. -/
structure ObjectRef where
  id : Nat
  type : ClosedType
deriving DecidableEq, Repr

/-- A handle of an array: its place in the heap, its element type and its
number of dimensions. -/
structure ArrayRef where
  id : Nat
  element : ClosedType
  dimensions : Nat
deriving DecidableEq, Repr

/-- The type of an array. Brackets count at most 255 dimensions. -/
def ArrayRef.type (a : ArrayRef) : ClosedType := .array a.element (min a.dimensions 255)

inductive Value where
  /-- The result of a statement or of a call that answers nothing. -/
  | void
  | null
  | bool (b : Bool)
  | char (c : Char)
  | int (kind : IntKind) (bits : BitVec kind.width)
  | f32 (x : Float32)
  | f64 (x : Float)
  | text (s : String)
  | object (ref : ObjectRef)
  | array (ref : ArrayRef)
  | tuple (elements : List Value)
  /-- A type as a value. -/
  | type (t : ClosedType)
deriving Inhabited

/-- The categories that operators tell apart. -/
inductive Category where
  | bool | char
  | int (kind : IntKind)
  | f32 | f64
  | text
deriving DecidableEq, Repr

def IntKind.primitive : IntKind → PrimitiveType
  | i8 => .i8 | u8 => .u8 | i16 => .i16 | u16 => .u16
  | i32 => .i32 | u32 => .u32 | i64 => .i64 | u64 => .u64

def PrimitiveType.intKind? : PrimitiveType → Option IntKind
  | i8 => some .i8 | u8 => some .u8 | i16 => some .i16 | u16 => some .u16
  | i32 => some .i32 | u32 => some .u32 | i64 => some .i64 | u64 => some .u64
  | void | bool | char | f32 | f64 | text | object | typeHandle => none

namespace Category

def primitive : Category → PrimitiveType
  | bool => .bool
  | char => .char
  | int kind => kind.primitive
  | f32 => .f32
  | f64 => .f64
  | text => .text

def name (c : Category) : String := c.primitive.name

def isInteger : Category → Bool
  | int _ => true
  | _ => false

def isReal : Category → Bool
  | f32 | f64 => true
  | _ => false

end Category

namespace Value

/-- The signed 32-bit integer congruent to `n`. -/
def i32 (n : Int) : Value := int .i32 (IntKind.i32.wrap n)

/-- The category of a value; void, null and references other than text have
none, nor have tuples. -/
def category? : Value → Option Category
  | bool _ => some .bool
  | char _ => some .char
  | int kind _ => some (.int kind)
  | f32 _ => some .f32
  | f64 _ => some .f64
  | text _ => some .text
  | void | null | object _ | array _ | tuple _ | type _ => none

mutual

/-- The type of a value as it runs; void and null have none. -/
def type? : Value → Option ClosedType
  | void | null => none
  | bool _ => some (.primitive .bool)
  | char _ => some (.primitive .char)
  | int kind _ => some (.primitive kind.primitive)
  | f32 _ => some (.primitive .f32)
  | f64 _ => some (.primitive .f64)
  | text _ => some (.primitive .text)
  | object ref => some ref.type
  | array ref => some ref.type
  | tuple elements => some (.tuple (elementTypes elements))
  | type _ => some (.primitive .typeHandle)

/-- The types of a tuple's components; one without a type counts as an object. -/
def elementTypes : List Value → List ClosedType
  | [] => []
  | v :: vs => v.type?.getD .object :: elementTypes vs

end

def isNull : Value → Bool
  | null => true
  | _ => false

/-- Whether equality of the value is identity: null, objects, arrays, types. -/
def isReference : Value → Bool
  | null | object _ | array _ | type _ => true
  | void | bool _ | char _ | int .. | f32 _ | f64 _ | text _ | tuple _ => false

/-- Identity of references. Null is identical only to null, and two types are
identical when they are the same type. -/
def sameReference : Value → Value → Bool
  | null, null => true
  | object a, object b => a.id == b.id
  | array a, array b => a.id == b.id
  | type a, type b => a = b
  | _, _ => false

mutual

def equal : Value → Value → Bool
  | void, void => true
  | null, null => true
  | bool a, bool b => a == b
  | char a, char b => a == b
  | int k a, int k' b => if h : k = k' then h ▸ a == b else false
  | f32 a, f32 b => a == b
  | f64 a, f64 b => a == b
  | text a, text b => a == b
  | tuple as, tuple bs => allEqual as bs
  | type a, type b => a = b
  | object a, object b => a.id == b.id
  | array a, array b => a.id == b.id
  | _, _ => false

def allEqual : List Value → List Value → Bool
  | [], [] => true
  | a :: as, b :: bs => a.equal b && allEqual as bs
  | _, _ => false

end

/-- The type's name in messages; void and null go by their own. -/
def typeName : Value → String
  | void => "void"
  | null => "null"
  | v => (v.type?.map ClosedType.text).getD "unknown"

def asBool : Value → Except EvalError Bool
  | bool b => .ok b
  | v => .error (.of (.typeMismatch "bool" v.typeName))

/-- An integer or character as an index or a count; what is above the greatest
`long` counts as that. -/
def asIndex : Value → Except EvalError Int
  | int k v => .ok (min (k.toInt v) IntKind.i64.maximum)
  | char c => .ok c.toNat
  | v => .error (.of (.typeMismatch "integer" v.typeName))

end Value

namespace ClosedType

def primitiveDefault : PrimitiveType → Value
  | .void => .void
  | .bool => .bool false
  | .char => .char (Char.ofNat 0)
  | .i8 => .int .i8 0#8
  | .u8 => .int .u8 0#8
  | .i16 => .int .i16 0#16
  | .u16 => .int .u16 0#16
  | .i32 => .int .i32 0#32
  | .u32 => .int .u32 0#32
  | .i64 => .int .i64 0#64
  | .u64 => .int .u64 0#64
  | .f32 => .f32 0
  | .f64 => .f64 0
  | .text | .object | .typeHandle => .null

mutual

/-- The value that storage of a type holds before anything is stored. -/
def defaultValue : ClosedType → Value
  | primitive p => primitiveDefault p
  | tuple elements => .tuple (defaultValues elements)
  | named .. | array .. | nullable _ => .null

def defaultValues : List ClosedType → List Value
  | [] => []
  | t :: ts => t.defaultValue :: defaultValues ts

end

end ClosedType

end OpTree
