/-
Equality of trees.

Two trees are compared construct by construct, spans included, with the
comparison of numbers as a parameter. `Node.equal` compares numbers as the
language does, so that the two zeros agree and what is not a number differs
from itself; `Node.identical` compares them by their bits.
-/
import ScopedScript.Node

namespace ScopedScript.Node

mutual

/-- Whether two trees agree, numbers being compared by `eq`. -/
def equalWith (eq : Float → Float → Bool) : Node → Node → Bool
  | .root s body, .root s' body' => s == s' && equalListWith eq body body'
  | .declaration s name, .declaration s' name' => s == s' && name == name'
  | .assignment s target value, .assignment s' target' value' =>
      s == s' && equalWith eq target target' && equalWith eq value value'
  | .reference s name, .reference s' name' => s == s' && name == name'
  | .number s value, .number s' value' => s == s' && eq value value'
  | .string s value, .string s' value' => s == s' && value == value'
  | .boolean s value, .boolean s' value' => s == s' && value == value'
  | .binary s op left right, .binary s' op' left' right' =>
      s == s' && op == op' && equalWith eq left left' && equalWith eq right right'
  | .parenthesized s inner, .parenthesized s' inner' => s == s' && equalWith eq inner inner'
  | .readProperty s object property, .readProperty s' object' property' =>
      s == s' && property == property' && equalWith eq object object'
  | .call s callee arguments, .call s' callee' arguments' =>
      s == s' && equalWith eq callee callee' && equalListWith eq arguments arguments'
  | .function s name parameters body, .function s' name' parameters' body' =>
      s == s' && name == name' && parameters == parameters' && equalWith eq body body'
  | .block s body, .block s' body' => s == s' && equalListWith eq body body'
  | .ret s value, .ret s' value' => s == s' && equalOptionWith eq value value'
  | _, _ => false

/-- `equalWith` for the children of a node. -/
def equalListWith (eq : Float → Float → Bool) : List Node → List Node → Bool
  | [], [] => true
  | a :: as, b :: bs => equalWith eq a b && equalListWith eq as bs
  | _, _ => false

/-- `equalWith` for an optional child. -/
def equalOptionWith (eq : Float → Float → Bool) : Option Node → Option Node → Bool
  | none, none => true
  | some a, some b => equalWith eq a b
  | _, _ => false

end

/-- Equality of trees in the language's own sense of numbers. -/
def equal : Node → Node → Bool := equalWith (· == ·)

/-- Whether two trees are the same, numbers bit for bit. -/
def identical : Node → Node → Bool := equalWith (fun a b => a.toBits == b.toBits)

end ScopedScript.Node
