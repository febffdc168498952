/-
Cutting a text at byte offsets.

Offsets count the bytes of the UTF-8 form of a text. A text can only be cut
between two characters: an offset inside a character or past the end gives
nothing.
-/
import ScopedScript.Span

namespace ScopedScript.Text

/-- How many bytes characters take. -/
def byteLength (cs : List Char) : Nat := cs.foldl (fun n c => n + c.utf8Size) 0

/-- Moves characters worth `offset` bytes from `cs` onto the reversed
`front`. -/
def splitFrom (front : List Char) : Nat → List Char → Option (List Char × List Char)
  | 0, cs => some (front.reverse, cs)
  | _ + 1, [] => none
  | offset + 1, c :: cs =>
      if c.utf8Size ≤ offset + 1 then splitFrom (c :: front) (offset + 1 - c.utf8Size) cs else none

/-- The characters before and after a byte offset. -/
def splitAt? (offset : Nat) (cs : List Char) : Option (List Char × List Char) :=
  splitFrom [] offset cs

/-- A text in three parts: before, inside and after a range of bytes. -/
structure Cut where
  before : String
  marked : String
  after : String

/-- The text cut at both ends of a range that lies within it. -/
def cut? (text : String) (range : Span) : Option Cut := do
  let (front, after) ← splitAt? range.stop text.toList
  let (before, marked) ← splitAt? range.start front
  return ⟨String.ofList before, String.ofList marked, String.ofList after⟩

end ScopedScript.Text
