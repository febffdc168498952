/-
Constructs: what a token can begin or continue.

Every kind of token that is part of an expression or statement selects one
construct, which is then read from the tokens at hand. The remaining kinds
only separate or close constructs.
-/
import ScopedScript.Token

namespace ScopedScript

/-- What is read at a token. -/
inductive Construct where
  | reference
  | number
  | string
  | boolean
  | assignment
  | binary
  /-- A call after a left operand, a parenthesized expression otherwise. -/
  | openParen
  | readProperty
  | block
  | variableDeclaration
  | function
  | ret
deriving DecidableEq, Repr

namespace Construct

/-- What messages say when the construct is asked for and no token is
left. -/
def opening : Construct → String
  | .reference => "an identifier"
  | .number => "a number"
  | .string => "a string"
  | .boolean => "a boolean"
  | .assignment => "`=`"
  | .binary => "an operator"
  | .openParen => "`(`"
  | .readProperty => "`.`"
  | .block => "`\x7b`"
  | .variableDeclaration => "`var`"
  | .function => "a function declaration"
  | .ret => "`return`"

/-- The construct a token of a kind selects. -/
def ofToken? : Token.Kind → Option Construct
  | .identifier => some .reference
  | .number => some .number
  | .string => some .string
  | .boolean => some .boolean
  | .assign => some .assignment
  | .operator => some .binary
  | .openParen => some .openParen
  | .dot => some .readProperty
  | .openBlock => some .block
  | .variableDeclaration => some .variableDeclaration
  | .functionDeclaration => some .function
  | .ret => some .ret
  | .newLine | .semicolon | .closeBlock | .closeParen | .comma => none

end Construct

end ScopedScript
