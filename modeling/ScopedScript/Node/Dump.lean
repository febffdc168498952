/-
The dump of a tree: one line per node, children indented by two spaces more
than their parent. A line has the kind of the node, what the node holds
besides its children, and its span.
-/
import ScopedScript.Node
import ScopedScript.Number.Shortest
import ScopedScript.Text.Quoted

namespace ScopedScript.Node

/-- A name and a text as they stand in a line of a dump. -/
def dumpField (name text : String) : String := " " ++ name ++ "=" ++ text

/-- What a node holds besides its children, as a dump shows it. -/
def dumpFields : Node → String
  | .declaration _ name | .reference _ name => dumpField "name" (Text.quote name)
  | .number _ value => dumpField "value" (Number.dump value)
  | .string _ value => dumpField "value" (Text.quote value)
  | .boolean _ value => dumpField "value" (if value then "true" else "false")
  | .binary _ operator _ _ => dumpField "operator" operator.symbol
  | .readProperty _ _ property => dumpField "property" (Text.quote property)
  | .function _ name parameters _ =>
      dumpField "name" (Text.quote name) ++
        String.join (parameters.map fun p => dumpField "parameter" (Text.quote p.name))
  | .root .. | .assignment .. | .parenthesized .. | .call .. | .block .. | .ret .. => ""

/-- The spaces in front of a line at a depth. -/
def indent (depth : Nat) : String := String.ofList (List.replicate (2 * depth) ' ')

/-- The line of a node, without its children. -/
def dumpLine (depth : Nat) (node : Node) : String :=
  indent depth ++ node.kind.name ++ node.dumpFields ++ " @" ++ node.span.render ++ "\n"

/-- The dump of a tree that stands at a depth: its line, then its children
one step further in. -/
def dumpAt (depth : Nat) (node : Node) : String :=
  dumpLine depth node ++
    String.join (node.children.attach.map fun child => child.1.dumpAt (depth + 1))
termination_by sizeOf node
decreasing_by exact sizeOf_lt_of_mem_children child.2

/-- The dump of a tree. -/
def dump (node : Node) : String := node.dumpAt 0

end ScopedScript.Node
