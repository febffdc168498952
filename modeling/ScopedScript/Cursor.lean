/-
A cursor over tokens, for reading a program construct by construct.

The cursor holds the tokens that are left. Whatever a reader uses up stays
used up, also when it fails.
-/
import ScopedScript.Node.Build

namespace ScopedScript

/-- The tokens left, and the offset just past the last token of all. -/
structure Cursor where
  rest : List Token
  stop : Nat

namespace Cursor

/-- A cursor before the first token. -/
def ofTokens (tokens : List Token) : Cursor := ⟨tokens, endOfTokens tokens⟩

/-- The token at the cursor. -/
def current? (c : Cursor) : Option Token := c.rest.head?

/-- The token after the one at the cursor. -/
def next? (c : Cursor) : Option Token := c.rest[1]?

/-- The kind of the token at the cursor. -/
def kind? (c : Cursor) : Option Token.Kind := c.current?.map (·.kind)

/-- Whether the token at the cursor has a kind. -/
def isAt (c : Cursor) (kind : Token.Kind) : Bool := c.kind? == some kind

/-- The cursor after the current token; it stays at the end. -/
def advance (c : Cursor) : Cursor := { c with rest := c.rest.tail }

/-- The cursor after line breaks. -/
def skipNewLines (c : Cursor) : Cursor := { c with rest := Build.skipNewLines c.rest }

/-- The cursor after line breaks and semicolons. -/
def skipSeparators (c : Cursor) : Cursor := { c with rest := Build.skipSeparators c.rest }

/-- The empty span just past the last token. -/
def endOfInput (c : Cursor) : Span := .point c.stop

/-- The nodes or the error of a reply, and the cursor after it. -/
def after {n : Nat} (c : Cursor) (reply : Build.Reply n (List Node)) :
    Except Error (List Node) × Cursor :=
  (reply.result, { c with rest := reply.rest })

/-- Reads the statement or expression at the cursor. -/
def process (c : Cursor) (left : Option Node) : Except Error (List Node) × Cursor :=
  c.after (Build.process c.stop c.rest left)

/-- Reads a given construct at the cursor, whatever the current token
is. -/
def read (c : Cursor) (construct : Construct) (left : Option Node) :
    Except Error (List Node) × Cursor :=
  c.after (Build.read construct c.stop c.rest (fun ts _ l => Build.process c.stop ts l) left)

end Cursor

end ScopedScript
