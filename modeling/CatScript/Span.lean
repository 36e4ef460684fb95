/-! # Spans

A span is a stretch of the source text: two byte offsets, and the line and column of its start. -/
set_option autoImplicit false
namespace CatScript

/-- A stretch of the source: it starts at byte `start` and ends before byte `stop`.  Lines count
from one, columns count characters from zero. -/
structure Span where
  start : Nat
  stop : Nat
  line : Nat
  column : Nat
deriving DecidableEq, Inhabited

namespace Span

/-- The span from the start of `first` to the end of `last`; it is empty when `last` ends before
`first` starts. -/
def through (first last : Span) : Span :=
  { first with stop := max last.stop first.start }

/-- The empty span at the start of `span`. -/
def startPoint (span : Span) : Span :=
  { span with stop := span.start }

theorem start_le_stop_through (first last : Span) :
    (first.through last).start ≤ (first.through last).stop :=
  Nat.le_max_right ..

end Span
end CatScript
