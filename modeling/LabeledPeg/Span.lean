/-!
# Spans

A span is a stretch of a text, given by two offsets. Grammar texts count their offsets in bytes of
the encoding, parser inputs count characters; the operations below are the same for both.
-/

namespace LabeledPeg

/-- The stretch of a text from `start` up to, not including, `stop`. -/
structure Span where
  start : Nat := 0
  stop : Nat := 0
deriving DecidableEq

namespace Span

/-- The empty span at one offset. -/
def point (offset : Nat) : Span := ⟨offset, offset⟩

/-- The number of positions covered, `0` for a span whose ends are reversed. -/
def length (s : Span) : Nat := s.stop - s.start

def isEmpty (s : Span) : Bool := s.length == 0

/-- Whether both ends of `inner` lie within `outer`. -/
def encloses (outer inner : Span) : Bool :=
  decide (outer.start ≤ inner.start) && decide (inner.stop ≤ outer.stop)

/-- Both offsets, joined by two dots. -/
def text (s : Span) : String := toString s.start ++ ".." ++ toString s.stop

@[simp] theorem length_point (offset : Nat) : (Span.point offset).length = 0 := by
  simp [Span.point, length]

theorem encloses_iff {outer inner : Span} :
    outer.encloses inner ↔ outer.start ≤ inner.start ∧ inner.stop ≤ outer.stop := by
  simp [encloses]

end Span

end LabeledPeg
