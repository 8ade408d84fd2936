/-!
Source spans: half-open ranges of byte offsets. A node without source text carries the empty range
at offset zero, and covering two ranges ignores such an operand.
-/

set_option autoImplicit false

namespace ClassInit

/-- The half-open range of byte offsets `[start, stop)`. -/
structure Span where
  start : UInt32
  stop : UInt32
deriving DecidableEq, Inhabited

namespace Span

/-- The span of a node that has no source text. -/
def dummy : Span := ⟨0, 0⟩

/-- The number of bytes covered; a range that ends before it starts covers none. -/
def length (s : Span) : UInt32 :=
  if s.stop ≤ s.start then 0 else s.stop - s.start

def isEmpty (s : Span) : Bool := s.stop ≤ s.start

def isDummy (s : Span) : Bool := s.start == 0 && s.stop == 0

/-- The smallest span that covers both operands; a dummy operand contributes nothing. -/
def cover (a b : Span) : Span :=
  if a.isDummy then b
  else if b.isDummy then a
  else ⟨min a.start b.start, max a.stop b.stop⟩

end Span

end ClassInit
