/-
The text of a value that names its category and shows what it holds, elements
of arrays included. Texts and characters are quoted; of these only the ASCII
characters are told apart into those that are shown and those that are escaped.
-/
import OpTree.World
import OpTree.Value.Display

namespace OpTree

/-- Reals are shown with a point, and with an exponent below a ten-thousandth and
from ten to the sixteenth on. -/
def Decimal.Style.inspected : Decimal.Style := ⟨fun e => -5 < e && e < 16, true⟩

def quotedChar (quote c : Char) : String :=
  if c = Char.ofNat 0 then "\\0"
  else if c = '\t' then "\\t"
  else if c = '\r' then "\\r"
  else if c = '\n' then "\\n"
  else if c = '\\' then "\\\\"
  else if c = quote then String.ofList ['\\', c]
  else if c.toNat < 32 ∨ c.toNat = 127 then
    "\\u\x7b" ++ String.ofList (Nat.toDigits 16 c.toNat) ++ "\x7d"
  else c.toString

def IntKind.label : IntKind → String
  | i8 => "I8" | u8 => "U8" | i16 => "I16" | u16 => "U16"
  | i32 => "I32" | u32 => "U32" | i64 => "I64" | u64 => "U64"

namespace Value

/-- Texts in a row, a comma between each two. -/
def listed (items : List String) : String := "[" ++ String.intercalate ", " items ++ "]"

mutual

/-- The inspected text, given the texts of arrays. -/
def inspectWith (arrayText : ArrayRef → String) : Value → String
  | void => "Void"
  | null => "Null"
  | bool b => if b then "Bool(true)" else "Bool(false)"
  | char c => "Char('" ++ quotedChar '\'' c ++ "')"
  | int k v => k.label ++ "(" ++ toString (k.toInt v) ++ ")"
  | f32 x => "F32(" ++ BinaryReal.shortestText .binary32 .inspected (.ofFloat32 x) ++ ")"
  | f64 x => "F64(" ++ BinaryReal.shortestText .binary64 .inspected (.ofFloat x) ++ ")"
  | text s => "Text(\"" ++ String.join (s.toList.map (quotedChar '"')) ++ "\")"
  | object ref => "Object(" ++ ref.type.text ++ ")"
  | array ref => arrayText ref
  | tuple elements => "Tuple(" ++ listed (inspectAll arrayText elements) ++ ")"
  | type t => "Type(" ++ t.text ++ ")"

def inspectAll (arrayText : ArrayRef → String) : List Value → List String
  | [] => []
  | v :: vs => v.inspectWith arrayText :: inspectAll arrayText vs

end

/-- The inspected text, with arrays shown down to some number of levels. -/
def inspect {σ : Type} (w : World σ) : Nat → Value → String
  | 0 => inspectWith fun _ => "Array([])"
  | n + 1 => inspectWith fun a => "Array(" ++ listed ((w.elements a).map (inspect w n)) ++ ")"

end Value

end OpTree
