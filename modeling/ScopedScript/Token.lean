/-
Tokens: the words of the language.

A token has a kind, a text and a span. The header of a function definition,
`function name(a, b)`, is a single token; the name and the parameters are
attributes of it, each with a span of its own.
-/
import ScopedScript.Span
import ScopedScript.Text.Quoted

namespace ScopedScript

/-- What a token is. -/
inductive Token.Kind where
  /-- The word `return`. -/
  | ret
  /-- The word `var`. -/
  | variableDeclaration
  /-- A whole function header. -/
  | functionDeclaration
  /-- Quoted text; the token's text is what stands between the quotes. -/
  | string
  | number
  /-- The word `true` or `false`. -/
  | boolean
  | newLine
  | assign
  | openBlock
  | closeBlock
  | openParen
  | closeParen
  | semicolon
  | comma
  | dot
  /-- One of `+ - * /`. -/
  | operator
  /-- Any other word. -/
  | identifier
deriving DecidableEq, Repr

namespace Token.Kind

/-- The kind's name, as dumps of tokens show it. -/
def name : Kind → String
  | .ret => "Return"
  | .variableDeclaration => "VariableDeclaration"
  | .functionDeclaration => "FunctionDeclaration"
  | .string => "String"
  | .number => "Number"
  | .boolean => "Boolean"
  | .newLine => "NewLine"
  | .assign => "Assign"
  | .openBlock => "OpenBlock"
  | .closeBlock => "CloseBlock"
  | .openParen => "OpenParen"
  | .closeParen => "CloseParen"
  | .semicolon => "Semicolon"
  | .comma => "Comma"
  | .dot => "Dot"
  | .operator => "Operator"
  | .identifier => "Identifier"

/-- Every kind, in the order of declaration. -/
def all : List Kind :=
  [.ret, .variableDeclaration, .functionDeclaration, .string, .number, .boolean, .newLine,
    .assign, .openBlock, .closeBlock, .openParen, .closeParen, .semicolon, .comma, .dot,
    .operator, .identifier]

/-- The kind with a given name. -/
def ofName? (name : String) : Option Kind := all.find? (·.name == name)

/-- What messages call a token of this kind. -/
def describe : Kind → String
  | .ret => "`return`"
  | .variableDeclaration => "`var`"
  | .functionDeclaration => "function declaration"
  | .string => "string literal"
  | .number => "number literal"
  | .boolean => "boolean literal"
  | .newLine => "newline"
  | .assign => "`=`"
  | .openBlock => "`\x7b`"
  | .closeBlock => "`\x7d`"
  | .openParen => "`(`"
  | .closeParen => "`)`"
  | .semicolon => "`;`"
  | .comma => "`,`"
  | .dot => "`.`"
  | .operator => "operator"
  | .identifier => "identifier"

/-- Whether a finished expression goes on at such a token, as the left
operand of a larger one. -/
def isContinuation : Kind → Bool
  | .assign | .operator | .openParen | .dot => true
  | _ => false

/-- Whether such a token stands between statements. -/
def isSeparator : Kind → Bool
  | .newLine | .semicolon => true
  | _ => false

end Token.Kind

/-- What an attribute of a function header says. -/
inductive Token.Key where
  | name
  | parameter
deriving DecidableEq, Repr

/-- The key as dumps of tokens show it. -/
def Token.Key.label : Key → String
  | .name => "name"
  | .parameter => "parameter"

/-- A part of a function header: the declared name or one parameter. -/
structure Token.Attribute where
  key : Token.Key
  value : String
  span : Span
deriving DecidableEq, Repr

/-- A word of the language with the place it was read from. -/
structure Token where
  kind : Token.Kind
  text : String
  span : Span
  attributes : List Token.Attribute := []
deriving DecidableEq, Repr

namespace Token

/-- All attributes under a key, in source order. -/
def attributesOf (t : Token) (key : Key) : List Attribute :=
  t.attributes.filter (·.key == key)

/-- The first attribute under a key. -/
def attribute? (t : Token) (key : Key) : Option Attribute :=
  t.attributes.find? (·.key == key)

/-- An attribute as dumps of tokens show it. -/
def Attribute.render (a : Attribute) : String :=
  " " ++ a.key.label ++ "=" ++ Text.quote a.value ++ "@" ++ a.span.render

/-- The token as dumps show it. -/
def render (t : Token) : String :=
  t.kind.name ++ " " ++ Text.quote t.text ++ " @" ++ t.span.render ++
    String.join (t.attributes.map Attribute.render)

end Token

end ScopedScript
