/-
The tree of a program.

A node is one construct of the language with the span of its text. A node
owns its children; the tree is finite and has no sharing that anything
could observe.
-/
import ScopedScript.Span

namespace ScopedScript

/-- The operators between two operands. -/
inductive Operator where
  | add
  | sub
  | mul
  | div
deriving DecidableEq, Repr

namespace Operator

/-- The operator's sign. -/
def symbol : Operator → String
  | .add => "+"
  | .sub => "-"
  | .mul => "*"
  | .div => "/"

/-- The operator with a given sign. -/
def ofSymbol? : String → Option Operator
  | "+" => some .add
  | "-" => some .sub
  | "*" => some .mul
  | "/" => some .div
  | _ => none

theorem ofSymbol?_symbol (op : Operator) : ofSymbol? op.symbol = some op := by
  cases op <;> rfl

end Operator

/-- A declared parameter of a function. -/
structure Parameter where
  name : String
  span : Span
deriving DecidableEq, Repr

/-- A construct of the language. -/
inductive Node where
  /-- A whole program. -/
  | root (span : Span) (body : List Node)
  /-- `var name` -/
  | declaration (span : Span) (name : String)
  /-- `target = value` -/
  | assignment (span : Span) (target value : Node)
  /-- A name. -/
  | reference (span : Span) (name : String)
  | number (span : Span) (value : Float)
  | string (span : Span) (value : String)
  | boolean (span : Span) (value : Bool)
  /-- `left op right` -/
  | binary (span : Span) (operator : Operator) (left right : Node)
  /-- `( inner )` -/
  | parenthesized (span : Span) (inner : Node)
  /-- `object.property` -/
  | readProperty (span : Span) (object : Node) (property : String)
  /-- `callee(arguments)` -/
  | call (span : Span) (callee : Node) (arguments : List Node)
  /-- `function name(parameters) body` -/
  | function (span : Span) (name : String) (parameters : List Parameter) (body : Node)
  /-- Statements between braces. -/
  | block (span : Span) (body : List Node)
  /-- `return value`, the value being optional. -/
  | ret (span : Span) (value : Option Node)

/-- The constructs, without what they are made of. -/
inductive Node.Kind where
  | root
  | declaration
  | assignment
  | reference
  | number
  | string
  | boolean
  | binary
  | parenthesized
  | readProperty
  | call
  | function
  | block
  | ret
deriving DecidableEq, Repr

/-- The kind's name in messages and dumps. -/
def Node.Kind.name : Node.Kind → String
  | .root => "Root"
  | .declaration => "VariableDeclaration"
  | .assignment => "Assignment"
  | .reference => "Reference"
  | .number => "Number"
  | .string => "String"
  | .boolean => "Boolean"
  | .binary => "BinaryExpression"
  | .parenthesized => "ParenthesizedExpression"
  | .readProperty => "ReadProperty"
  | .call => "CallExpression"
  | .function => "Function"
  | .block => "Block"
  | .ret => "Return"

namespace Node

instance : Inhabited Node := ⟨.root ⟨0, 0⟩ []⟩

/-- Which construct a node is. -/
def kind : Node → Kind
  | .root .. => .root
  | .declaration .. => .declaration
  | .assignment .. => .assignment
  | .reference .. => .reference
  | .number .. => .number
  | .string .. => .string
  | .boolean .. => .boolean
  | .binary .. => .binary
  | .parenthesized .. => .parenthesized
  | .readProperty .. => .readProperty
  | .call .. => .call
  | .function .. => .function
  | .block .. => .block
  | .ret .. => .ret

/-- The text a node was read from. -/
def span : Node → Span
  | .root s .. | .declaration s .. | .assignment s .. | .reference s .. | .number s ..
  | .string s .. | .boolean s .. | .binary s .. | .parenthesized s .. | .readProperty s ..
  | .call s .. | .function s .. | .block s .. | .ret s .. => s

/-- The nodes directly below a node, in source order. -/
def children : Node → List Node
  | .root _ body | .block _ body => body
  | .assignment _ target value => [target, value]
  | .binary _ _ left right => [left, right]
  | .parenthesized _ inner => [inner]
  | .readProperty _ object _ => [object]
  | .call _ callee arguments => callee :: arguments
  | .function _ _ _ body => [body]
  | .ret _ value => value.toList
  | .declaration .. | .reference .. | .number .. | .string .. | .boolean .. => []

/-- A child is smaller than its parent, so functions may recurse through
`children`. -/
theorem sizeOf_lt_of_mem_children {node child : Node} (h : child ∈ node.children) :
    sizeOf child < sizeOf node := by
  cases node <;> simp [children] at h
  case root s body =>
    have := List.sizeOf_lt_of_mem h
    rw [root.sizeOf_spec]
    omega
  case block s body =>
    have := List.sizeOf_lt_of_mem h
    rw [block.sizeOf_spec]
    omega
  case call s callee arguments =>
    rw [call.sizeOf_spec]
    rcases h with rfl | h
    · omega
    · have := List.sizeOf_lt_of_mem h
      omega
  case assignment s target value =>
    rw [assignment.sizeOf_spec]
    rcases h with rfl | rfl <;> omega
  case binary s op left right =>
    rw [binary.sizeOf_spec]
    rcases h with rfl | rfl <;> omega
  case parenthesized s inner => subst h; rw [parenthesized.sizeOf_spec]; omega
  case readProperty s object property => subst h; rw [readProperty.sizeOf_spec]; omega
  case function s name parameters body => subst h; rw [function.sizeOf_spec]; omega
  case ret s value => subst h; rw [ret.sizeOf_spec, Option.some.sizeOf_spec]; omega

end Node

end ScopedScript
