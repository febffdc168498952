/-
Spans: half-open ranges of byte offsets into a source text.

Tokens, nodes and errors all carry a span, so a report can point back at
the text it is about. A span made by hand may start after it ends or lie
outside the text; `Span.clamp` makes a usable range of any span.
-/

namespace ScopedScript

/-- The bytes from `start` up to, but not including, `stop`. -/
structure Span where
  start : Nat
  stop : Nat
deriving DecidableEq, Repr, Inhabited

namespace Span

/-- The empty span at `offset`. -/
def point (offset : Nat) : Span := ⟨offset, offset⟩

/-- The smallest span that covers both. -/
def union (a b : Span) : Span := ⟨min a.start b.start, max a.stop b.stop⟩

/-- How many bytes the span covers; none if it ends before it starts. -/
def length (s : Span) : Nat := s.stop - s.start

/-- Whether the span covers no byte. -/
def isEmpty (s : Span) : Bool := s.length == 0

/-- The span cut down to a range of a text of `size` bytes: the start is
moved back into the text, and the end between the start and the end of
the text. -/
def clamp (s : Span) (size : Nat) : Span :=
  let start := min s.start size
  ⟨start, min (max s.stop start) size⟩

/-- The span moved `offset` bytes to the right. -/
def shift (s : Span) (offset : Nat) : Span := ⟨s.start + offset, s.stop + offset⟩

/-- The span as it is written in dumps: `3..7`. -/
def render (s : Span) : String := toString s.start ++ ".." ++ toString s.stop

theorem clamp_start_le (s : Span) (size : Nat) : (s.clamp size).start ≤ size :=
  Nat.min_le_right s.start size

theorem clamp_stop_le (s : Span) (size : Nat) : (s.clamp size).stop ≤ size :=
  Nat.min_le_right (max s.stop (min s.start size)) size

theorem clamp_start_le_stop (s : Span) (size : Nat) :
    (s.clamp size).start ≤ (s.clamp size).stop := by
  show min s.start size ≤ min (max s.stop (min s.start size)) size
  omega

/-- A span that already is a range of the text is left as it is. -/
theorem clamp_eq_self {s : Span} {size : Nat} (h : s.start ≤ s.stop) (hs : s.stop ≤ size) :
    s.clamp size = s := by
  cases s
  simp_all [clamp]
  omega

end Span

end ScopedScript
