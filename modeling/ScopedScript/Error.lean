/-
Errors: what went wrong, where, and on the way to what.

An error is a fault at a span, wrapped in a layer for each context it passed
on its way out. The fault says what went wrong in terms of the stage that
found it; the words for it are chosen here and nowhere else. Each layer
reports a stage, a message and a span of its own; wrapping copies the stage
and the span of the layer below.
-/
import ScopedScript.Construct
import ScopedScript.Value

namespace ScopedScript

/-- The stages that find faults. -/
inductive Stage where
  | lexical
  | syntactic
  | runtime
deriving DecidableEq, Repr

/-- The stage's name in messages. -/
def Stage.name : Stage → String
  | .lexical => "lexical"
  | .syntactic => "syntax"
  | .runtime => "runtime"

/-- A text between backticks. -/
def ticked (text : String) : String := "`" ++ text ++ "`"

-- ============================================================== faults

/-- What can be wrong with the characters of a program. -/
inductive LexicalFault where
  /-- Characters that make no token were asked for and there are none. -/
  | unexpectedEnd
  | unterminatedString (quote : Char)
  | illegalCharacter (char : Char)
  /-- A number that runs into a letter. -/
  | digitFirst (text : String)
  /-- A word that runs into digits. -/
  | digitInside (text : String)
  | functionNameExpected (found : String)
  | openParenExpected (found : String)
  | parameterExpected (found : String)
  | commaOrCloseExpected (found : String)
  | unterminatedHeader
deriving DecidableEq, Repr

/-- The words for a lexical fault. -/
def LexicalFault.message : LexicalFault → String
  | .unexpectedEnd => "unexpected end of input"
  | .unterminatedString quote => "unterminated string literal, missing closing " ++ quote.toString
  | .illegalCharacter char => "illegal character " ++ ticked char.toString
  | .digitFirst text => "identifiers must not start with a digit: " ++ ticked text
  | .digitInside text => "identifiers must not contain digits: " ++ ticked text
  | .functionNameExpected found =>
      "expected a function name after `function`, found " ++ ticked found
  | .openParenExpected found => "expected `(` after the function name, found " ++ ticked found
  | .parameterExpected found => "expected a parameter name, found " ++ ticked found
  | .commaOrCloseExpected found => "expected `,` or `)` in parameter list, found " ++ ticked found
  | .unterminatedHeader => "unterminated function declaration"

/-- The places that hold exactly one node. -/
inductive Operand where
  | value
  | operand
  | expression
  | argument
  | returnValue
  | functionBody
deriving DecidableEq, Repr

/-- What messages call such a place. -/
def Operand.name : Operand → String
  | .value => "value"
  | .operand => "operand"
  | .expression => "expression"
  | .argument => "argument"
  | .returnValue => "return value"
  | .functionBody => "function body"

/-- The tokens that must stand at a fixed place. -/
inductive Required where
  | closeParen
  | propertyName
  | variableName
deriving DecidableEq, Repr

/-- The kind of token that is required. -/
def Required.kind : Required → Token.Kind
  | .closeParen => .closeParen
  | .propertyName | .variableName => .identifier

/-- What messages call the required token. -/
def Required.name : Required → String
  | .closeParen => "`)`"
  | .propertyName => "a property name after `.`"
  | .variableName => "a variable name after `var`"

/-- What can be wrong with the tokens of a program. -/
inductive SyntaxFault where
  | unexpectedEnd
  | unexpected (kind : Token.Kind)
  /-- A construct was asked for and no token is left. -/
  | noToken (construct : Construct)
  | cannotFollow (kind : Token.Kind) (left : Node.Kind)
  | missingLeft (kind : Token.Kind) (text : String)
  | notSingle (place : Operand) (count : Nat)
  | nothing (place : Operand)
  | required (token : Required) (found : Option Token.Kind)
  | unknownOperator (text : String)
  | invalidNumber (text : String)
  | unclosedBlock
  | unclosedCall
  | argumentSeparator (found : Token.Kind)
  | namelessFunction
  | bodyNotOpened (name : String) (found : Token.Kind)
  | bodyMissing (name : String)
  | bodyNotBlock (name : String)
deriving DecidableEq, Repr

/-- What messages call the token that was found, or the end of the
tokens. -/
def describeFound : Option Token.Kind → String
  | some kind => kind.describe
  | none => "end of input"

/-- The words for a fault of the builder. -/
def SyntaxFault.message : SyntaxFault → String
  | .unexpectedEnd => "unexpected end of input"
  | .unexpected kind => "unexpected " ++ kind.describe
  | .noToken construct => "expected " ++ construct.opening
  | .cannotFollow kind left => kind.describe ++ " cannot follow " ++ left.name
  | .missingLeft kind text =>
      "missing left operand for " ++ kind.describe ++ " " ++ ticked text
  | .notSingle place count =>
      "expected a single " ++ place.name ++ ", found " ++ toString count ++ " nodes"
  | .nothing place => "expected " ++ place.name
  | .required token found => "expected " ++ token.name ++ ", found " ++ describeFound found
  | .unknownOperator text => "unknown operator " ++ ticked text
  | .invalidNumber text => "invalid number literal " ++ ticked text
  | .unclosedBlock => "unclosed block, missing `\x7d`"
  | .unclosedCall => "unclosed call, missing `)`"
  | .argumentSeparator found => "expected `,` or `)` between arguments, found " ++ found.describe
  | .namelessFunction => "function declaration without a name"
  | .bodyNotOpened name found =>
      "expected `\x7b` to open the body of " ++ ticked name ++ ", found " ++ found.describe
  | .bodyMissing name => "expected the body of " ++ ticked name ++ ", found end of input"
  | .bodyNotBlock name => "the body of " ++ ticked name ++ " must be a block"

/-- Why a name could not be declared or resolved. -/
inductive ScopeFault where
  /-- The scope itself already has the name. -/
  | alreadyDeclared (name : String)
  /-- No scope of the chain has the name. -/
  | notDeclared (name : String)
  /-- A scope of the chain no longer exists. -/
  | missingClosure (name : String)
deriving DecidableEq, Repr

/-- The words for a failed declaration or look-up. -/
def ScopeFault.message : ScopeFault → String
  | .alreadyDeclared name => "variable already declared: " ++ ticked name
  | .notDeclared name => "variable not declared: " ++ ticked name
  | .missingClosure name => "missing closure reference while resolving " ++ ticked name

/-- How deep calls of functions may nest. -/
def maxCallDepth : Nat := 10000

/-- What can go wrong while a program runs. -/
inductive RuntimeFault where
  | scope (fault : ScopeFault)
  /-- A parameter that has just been declared cannot be given its argument. -/
  | parameterLost (fault : ScopeFault)
  /-- A node in the place of a value yields none. -/
  | noValue (kind : Node.Kind)
  | notAssignable (kind : Node.Kind)
  | noProperty (property : String) (kind : Value.Kind)
  | numbersRequired (operator : Operator) (left right : Value.Kind)
  | noText (kind : Value.Kind)
  | notCallable (kind : Value.Kind)
  /-- The callee yields no value at all. -/
  | nothingToCall
  /-- A function value that was not made of a function definition. -/
  | notADefinition
  /-- Something other than a function definition was to be defined. -/
  | functionExpected
  | tooDeep
  | unknownNative (name : String)
deriving DecidableEq, Repr

/-- The words for a fault of a running program. -/
def RuntimeFault.message : RuntimeFault → String
  | .scope fault | .parameterLost fault => fault.message
  | .noValue kind => "expression yields no value: " ++ kind.name
  | .notAssignable kind => "cannot assign to a " ++ kind.name
  | .noProperty property kind =>
      "cannot read property " ++ ticked property ++ " of a " ++ kind.name
  | .numbersRequired operator left right =>
      "operator " ++ ticked operator.symbol ++ " requires two numbers, found " ++ left.name ++
        " and " ++ right.name
  | .noText kind => "cannot convert a " ++ kind.name ++ " to text"
  | .notCallable kind => "no reference to a function: callee is a " ++ kind.name
  | .nothingToCall => "no reference to a function: callee yields no value"
  | .notADefinition => "function value without a function node"
  | .functionExpected => "expected a function"
  | .tooDeep => "maximum call depth of " ++ toString maxCallDepth ++ " exceeded"
  | .unknownNative name => "unknown native function " ++ ticked name

/-- What a fault says of the scopes, if it is about them. -/
def RuntimeFault.scope? : RuntimeFault → Option ScopeFault
  | .scope fault | .parameterLost fault => some fault
  | _ => none

/-- What went wrong. -/
inductive Fault where
  | lexical (fault : LexicalFault)
  | syntactic (fault : SyntaxFault)
  | runtime (fault : RuntimeFault)
  /-- A fault stated by a host in its own words. -/
  | stated (stage : Stage) (text : String)
deriving DecidableEq, Repr

/-- The stage that finds a fault. -/
def Fault.stage : Fault → Stage
  | .lexical _ => .lexical
  | .syntactic _ => .syntactic
  | .runtime _ => .runtime
  | .stated stage _ => stage

/-- What a fault says of the scopes, if it is about them. -/
def Fault.scope? : Fault → Option ScopeFault
  | .runtime fault => fault.scope?
  | _ => none

/-- The words for a fault. -/
def Fault.message : Fault → String
  | .lexical fault => fault.message
  | .syntactic fault => fault.message
  | .runtime fault => fault.message
  | .stated _ text => text

-- ============================================================ contexts

/-- What messages call the callee of a call. -/
inductive Callee where
  | named (name : String)
  | construct (kind : Node.Kind)
deriving DecidableEq, Repr

/-- The callee of a call, by name where it has one. -/
def Callee.ofNode : Node → Callee
  | .reference _ name => .named name
  | node => .construct node.kind

/-- The callee in words. -/
def Callee.describe : Callee → String
  | .named name => ticked name
  | .construct kind => kind.name

/-- What was being done when a fault came up. -/
inductive Context where
  | scanning
  | building
  | executing
  | assignedValue
  | rightOperand (operator : Operator)
  | block
  | argumentsOf (callee : Callee)
  | argument (position : Nat)
  | parentheses
  | declarationOf (name : String)
  | function (name : String)
  | returned
  | callOf (name : String)
  /-- A context stated by a host in its own words. -/
  | stated (text : String)
deriving DecidableEq, Repr

/-- The words for a context. -/
def Context.message : Context → String
  | .scanning => "while scanning the source"
  | .building => "while building the syntax tree"
  | .executing => "while executing the program"
  | .assignedValue => "while parsing the assigned value"
  | .rightOperand operator => "while parsing the right operand of " ++ ticked operator.symbol
  | .block => "while parsing block"
  | .argumentsOf callee => "while parsing the arguments of a call to " ++ callee.describe
  | .argument position => "while parsing argument " ++ toString position
  | .parentheses => "while parsing parentheses"
  | .declarationOf name => "while parsing the declaration of " ++ ticked name
  | .function name => "while parsing function " ++ ticked name
  | .returned => "while parsing `return`"
  | .callOf name => "in call to " ++ ticked name
  | .stated text => text

-- ============================================================== errors

/-- One layer around an error: what was being done, and the stage and the
span that the layer reports. -/
structure Layer where
  stage : Stage
  context : Context
  span : Span
deriving DecidableEq, Repr

/-- A fault, the place where it came up, and the layers around it, outermost
first. -/
structure Error where
  fault : Fault
  place : Span
  wraps : List Layer := []
deriving DecidableEq, Repr

namespace Error

/-- The stage that the outermost layer reports. -/
def stage (e : Error) : Stage :=
  match e.wraps with
  | [] => e.fault.stage
  | layer :: _ => layer.stage

/-- The span that the outermost layer reports. -/
def span (e : Error) : Span :=
  match e.wraps with
  | [] => e.place
  | layer :: _ => layer.span

/-- The outermost message. -/
def message (e : Error) : String :=
  match e.wraps with
  | [] => e.fault.message
  | layer :: _ => layer.context.message

/-- The error wrapped in one more layer, which takes over the stage and the
span of the layer below it. -/
def within (e : Error) (context : Context) : Error :=
  { e with wraps := ⟨e.stage, context, e.span⟩ :: e.wraps }

/-- The contexts around the fault, outermost first. -/
def contexts (e : Error) : List Context := e.wraps.map Layer.context

/-- The error inside one more layer and all the errors inside that one. -/
def causes (fault : Fault) (place : Span) : List Layer → List Error
  | [] => [⟨fault, place, []⟩]
  | layer :: wraps => ⟨fault, place, layer :: wraps⟩ :: causes fault place wraps

/-- The errors along the chain of causes, outermost first. Each of them is
the one after it in one more layer. -/
def layers (e : Error) : List Error := causes e.fault e.place e.wraps

/-- The error at the end of the chain: the fault without the layers. -/
def innermost (e : Error) : Error := { e with wraps := [] }

/-- All messages, outermost first; the last one is that of the fault. -/
def chain (e : Error) : List String := e.layers.map message

variable (e : Error) (c : Context)

@[simp] theorem stage_within : (e.within c).stage = e.stage := rfl

@[simp] theorem span_within : (e.within c).span = e.span := rfl

@[simp] theorem message_within : (e.within c).message = c.message := rfl

@[simp] theorem fault_within : (e.within c).fault = e.fault := rfl

@[simp] theorem contexts_within : (e.within c).contexts = c :: e.contexts := rfl

@[simp] theorem innermost_within : (e.within c).innermost = e.innermost := rfl

@[simp] theorem layers_within : (e.within c).layers = e.within c :: e.layers := rfl

@[simp] theorem chain_within : (e.within c).chain = c.message :: e.chain := rfl

/-- An error is the outermost one of its chain. -/
theorem head?_layers : e.layers.head? = some e := by
  cases e with | mk fault place wraps => cases wraps <;> rfl

theorem head?_chain : e.chain.head? = some e.message := by
  rw [chain, List.head?_map, head?_layers, Option.map_some]

/-- The chain ends with the fault. -/
theorem getLast?_layers : e.layers.getLast? = some e.innermost := by
  obtain ⟨fault, place, wraps⟩ := e
  induction wraps with
  | nil => rfl
  | cons layer wraps ih =>
      show (⟨fault, place, layer :: wraps⟩ :: layers ⟨fault, place, wraps⟩).getLast? = _
      rw [List.getLast?_cons, ih]
      rfl

/-- The chain in terms of the fault and its contexts. -/
theorem chain_eq : e.chain = e.contexts.map Context.message ++ [e.fault.message] := by
  obtain ⟨fault, place, wraps⟩ := e
  induction wraps with
  | nil => rfl
  | cons layer wraps ih => exact congrArg (layer.context.message :: ·) ih

end Error

end ScopedScript
