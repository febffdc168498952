/-
Styled text: pieces of text that are plain or stand out as errors.

What a program run reports is a list of written pieces. A buffer collects
them in a normal form that does not depend on how the text was cut into
pieces; a console shows each error piece in colour.
-/

namespace ScopedScript

/-- A piece of text in one style. -/
structure Segment where
  text : String
  isError : Bool
deriving DecidableEq, Repr

namespace Segment

/-- A plain piece. -/
def plain (text : String) : Segment := ⟨text, false⟩

/-- A piece that stands out as an error. -/
def error (text : String) : Segment := ⟨text, true⟩

/-- Switches the console to the style of errors. -/
def errorStyle : String := "\x1b[1;31m"

/-- Switches the console back. -/
def resetStyle : String := "\x1b[0m"

/-- A piece as a console shows it. -/
def onConsole (color : Bool) (s : Segment) : String :=
  if s.isError && color then errorStyle ++ s.text ++ resetStyle else s.text

end Segment

/-- Collected styled text, the last segment first. -/
structure Buffer where
  reversed : List Segment := []

namespace Buffer

/-- Adds a piece: nothing if it is empty, to the last segment if that has
the same style, and as a new segment otherwise. -/
def write (b : Buffer) (piece : Segment) : Buffer :=
  if piece.text.isEmpty then b
  else match b with
    | ⟨⟨text, isError⟩ :: rest⟩ =>
        if isError == piece.isError then ⟨⟨text ++ piece.text, isError⟩ :: rest⟩
        else ⟨piece :: ⟨text, isError⟩ :: rest⟩
    | ⟨[]⟩ => ⟨[piece]⟩

/-- Adds several pieces in order. -/
def writeAll (b : Buffer) (pieces : List Segment) : Buffer := pieces.foldl write b

/-- The buffer after writing pieces into an empty one. -/
def ofPieces (pieces : List Segment) : Buffer := writeAll {} pieces

/-- The segments in the order they were written. -/
def segments (b : Buffer) : List Segment := b.reversed.reverse

/-- All text, without the style. -/
def text (b : Buffer) : String := String.join (b.segments.map (·.text))

/-- The text of the error segments. -/
def errorText (b : Buffer) : String :=
  String.join ((b.segments.filter (·.isError)).map (·.text))

end Buffer

end ScopedScript
