/-
Values: what expressions yield when a program runs.

A function value is a closure: a definition together with the scope that
was active where the definition was evaluated. Which scope that is matters,
so a closure names it by its number.
-/
import ScopedScript.Node
import ScopedScript.Node.Equality
import ScopedScript.Number.Fixed
import ScopedScript.Text.Quoted

namespace ScopedScript

/-- Scopes are numbered in the order of their creation. -/
abbrev ScopeId := Nat

/-- A function definition and the scope it closes over. The definition is
one place of one program: `program` tells programs of the same text
apart. -/
structure Closure where
  program : Nat
  definition : Node
  scope : ScopeId

/-- What an expression yields. -/
inductive Value where
  | number (value : Float)
  | string (value : String)
  | boolean (value : Bool)
  | function (closure : Closure)
  /-- A function carried out by the host, by name. -/
  | native (name : String)
  /-- What a declared name holds before it is assigned. -/
  | unknown

namespace Closure

/-- The name a definition declares. A closure made of another construct has
none. -/
def name (c : Closure) : String :=
  match c.definition with
  | .function _ name _ _ => name
  | _ => "<anonymous>"

/-- Whether two closures are the same definition over the same scope. -/
def same (a b : Closure) : Bool :=
  a.program == b.program && a.scope == b.scope && a.definition.identical b.definition

/-- A closure as shown to a developer. -/
def inspect (c : Closure) : String :=
  let span := c.definition.span
  "FunctionValue \x7b name: " ++ Text.quote c.name ++
    ", span: Span \x7b start: " ++ toString span.start ++ ", end: " ++ toString span.stop ++
    " \x7d, .. \x7d"

end Closure

/-- The types of values. -/
inductive Value.Kind where
  | number
  | string
  | boolean
  | function
  | native
  | unknown
deriving DecidableEq, Repr

/-- The type's name in messages. -/
def Value.Kind.name : Value.Kind → String
  | .number => "number"
  | .string => "string"
  | .boolean => "boolean"
  | .function => "function"
  | .native => "native function"
  | .unknown => "unknown"

/-- A value as the host sees it: functions are reduced to their names. -/
inductive Printed where
  | number (value : Float)
  | string (value : String)
  | boolean (value : Bool)
  | function (name : String)
  | native (name : String)
  | unknown
deriving DecidableEq, Repr

/-- The text of a truth value. -/
def showBool (b : Bool) : String := if b then "true" else "false"

/-- The text `print` shows for a value. -/
def Printed.display : Printed → String
  | .number value => Number.display value
  | .string value => value
  | .boolean value => showBool value
  | .function name => "<function " ++ name ++ ">"
  | .native name => "<native " ++ name ++ ">"
  | .unknown => "unknown"

/-- The line `print` shows for its arguments. -/
def Printed.line (values : List Printed) : String :=
  " ".intercalate (values.map display)

namespace Value

/-- The type of a value. -/
def kind : Value → Kind
  | .number _ => .number
  | .string _ => .string
  | .boolean _ => .boolean
  | .function _ => .function
  | .native _ => .native
  | .unknown => .unknown

/-- What the host sees of a value. -/
def printed : Value → Printed
  | .number value => .number value
  | .string value => .string value
  | .boolean value => .boolean value
  | .function closure => .function closure.name
  | .native name => .native name
  | .unknown => .unknown

/-- The scope a value closes over, if it is a function. -/
def scope? : Value → Option ScopeId
  | .function closure => some closure.scope
  | _ => none

/-- The text a value contributes to a concatenation. Functions and unknown
values have none. -/
def text? : Value → Option String
  | .number value => some (Number.display value)
  | .string value => some value
  | .boolean value => some (showBool value)
  | .function _ | .native _ | .unknown => none

/-- Equality of values: numbers compare as numbers, functions are equal when
they are the same definition over the same scope. -/
def equal : Value → Value → Bool
  | .number a, .number b => a == b
  | .string a, .string b => a == b
  | .boolean a, .boolean b => a == b
  | .function a, .function b => a.same b
  | .native a, .native b => a == b
  | .unknown, .unknown => true
  | _, _ => false

end Value

end ScopedScript
