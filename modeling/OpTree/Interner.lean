/-
Interned names. An interner numbers distinct strings in order of first
appearance; the empty string is always number 0. A table finds the number of a
string and an array the string of a number, so interning a string twice gives
its number again, and looking up a number gives its string back.
-/
import OpTree.Table

namespace OpTree

/-- The strings interned so far, each at its own number. -/
structure Interner where
  numbers : Table String Nat
  strings : Array String

namespace Interner

/-- Only the empty string, at number 0. -/
def empty : Interner := ⟨Table.empty.insert "" 0, #[""]⟩

/-- The number of `s`, given out now if `s` is new. -/
def intern (t : Interner) (s : String) : Nat × Interner :=
  match t.numbers.get? s with
  | some n => (n, t)
  | none => (t.strings.size, ⟨t.numbers.insert s t.strings.size, t.strings.push s⟩)

/-- What a number stands for when it was never given out. -/
def unknown : String := "<unknown>"

def lookup (t : Interner) (name : Nat) : String := (t.strings[name]?).getD unknown

/-- How many strings are interned, the empty one included. -/
def size (t : Interner) : Nat := t.strings.size

def isEmpty (t : Interner) : Bool := t.size == 0

end Interner

end OpTree
