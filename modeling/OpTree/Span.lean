/-
Source positions. A span is a half-open range of offsets; a node without a
position of its own carries the empty span at the origin.
-/

namespace OpTree

/-- A half-open range of source offsets. -/
structure Span where
  start : Nat
  stop : Nat
deriving DecidableEq, Repr, Inhabited

namespace Span

def dummy : Span := ⟨0, 0⟩

/-- The number of offsets covered; none when the end precedes the start. -/
def length (s : Span) : Nat := s.stop - s.start

def isEmpty (s : Span) : Bool := s.stop ≤ s.start

/-- The least span that covers both. -/
def merge (a b : Span) : Span := ⟨min a.start b.start, max a.stop b.stop⟩

def text (s : Span) : String := s!"{s.start}..{s.stop}"

end Span

end OpTree
