/-
Diagnostics: an error shown inside the source it is about.

The source is written up to the error's span, the span stands out, the
messages follow on lines of their own, and the rest of the source ends the
report. A span that is no range of the source, or cuts a character in two,
is shown as lying at the end.
-/
import ScopedScript.Error
import ScopedScript.Styled
import ScopedScript.Text.Slice

namespace ScopedScript.Diagnostic

/-- Stands for the text of an error that has none. -/
def endOfInput : String := "<end of input>"

/-- The source cut around a span, or all of it before the mark if it cannot
be cut there. -/
def cutSource (source : String) (span : Span) : Text.Cut :=
  (Text.cut? source (span.clamp source.utf8ByteSize)).getD ⟨source, "", ""⟩

/-- The line of the message at a place in the chain; deeper causes stand
further in. -/
def messageLine (stage : Stage) (depth : Nat) (message : String) : String :=
  String.ofList (List.replicate (2 * depth) ' ') ++ stage.name ++ " error: " ++ message ++ "\n"

/-- The pieces of a diagnostic. -/
def render (source : String) (e : Error) : List Segment :=
  let cut := cutSource source e.span
  [.plain cut.before,
    .error (if cut.marked.isEmpty then endOfInput else cut.marked),
    .plain "\n"] ++ e.chain.mapIdx (fun depth m => .error (messageLine e.stage depth m)) ++
    [.plain cut.after]

end ScopedScript.Diagnostic
