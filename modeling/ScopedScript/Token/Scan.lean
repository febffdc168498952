/-
Scanning: from the lexemes of a text to its tokens.

The scanner goes through the lexemes once. Outside of function headers each
lexeme is a token of its own, a blank, or a fault. The word `function` opens
a header, in which line breaks count as blanks; the header collects a name
and parameters until its closing parenthesis makes it a single token.
-/
import ScopedScript.Lexeme
import ScopedScript.Error

namespace ScopedScript.Scan

/-- What a function header goes on with. -/
inductive Expectation where
  | name
  | openParen
  | parameterOrClose
  | parameter
  | commaOrClose
deriving DecidableEq, Repr

/-- A function header that is being read: where it starts, its text so far
and its attributes so far, the last one first. -/
structure Header where
  start : Nat
  text : String
  attributes : List Token.Attribute
  expects : Expectation

/-- Where the scanner stands: the tokens so far, the last one first, and the
header it is in. -/
structure State where
  tokens : List Token := []
  header : Option Header := none

/-- A lexical error at a lexeme. -/
def fault (lexeme : Lexeme) (f : LexicalFault) : Error := ⟨.lexical f, lexeme.span, []⟩

/-- What is wrong with characters that make no token: a quote without its
partner, or a character outside the language. -/
def unrecognised : List Char → LexicalFault
  | [] => .unexpectedEnd
  | c :: _ => if c == '"' || c == '\'' then .unterminatedString c else .illegalCharacter c

/-- The error for a lexeme that makes no token. -/
def refused (lexeme : Lexeme) : Error := fault lexeme (unrecognised lexeme.chars)

/-- The error for a word that runs into digits. -/
def digitInside (lexeme : Lexeme) : Error := fault lexeme (.digitInside lexeme.text)

-- ================================================== outside of headers

/-- What stands between the quotes of a quoted text. -/
def unquoted (lexeme : Lexeme) : String := String.ofList lexeme.tail.dropLast

/-- One lexeme outside of a header. -/
def stepOutside (tokens : List Token) (lexeme : Lexeme) : Except Error State :=
  let token (kind : Token.Kind) (text : String) : Except Error State :=
    .ok { tokens := { kind, text, span := lexeme.span } :: tokens }
  let text := lexeme.text
  match lexeme.kind with
  | .ret => token .ret text
  | .var => token .variableDeclaration text
  | .function => .ok { tokens, header := some ⟨lexeme.span.start, text, [], .name⟩ }
  | .boolean => token .boolean text
  | .word => token .identifier text
  | .wordIntoNumber => .error (digitInside lexeme)
  | .number => token .number text
  | .numberIntoWord => .error (fault lexeme (.digitFirst text))
  | .quoted => token .string (unquoted lexeme)
  | .newLine => token .newLine text
  | .equals => token .assign text
  | .openBrace => token .openBlock text
  | .closeBrace => token .closeBlock text
  | .openParen => token .openParen text
  | .closeParen => token .closeParen text
  | .semicolon => token .semicolon text
  | .comma => token .comma text
  | .dot => token .dot text
  | .operator => token .operator text
  | .blank => .ok { tokens }
  | .unterminated | .illegal => .error (refused lexeme)

-- ====================================================== inside headers

/-- The fault of a lexeme that is not what the header goes on with. -/
def Expectation.fault (expected : Expectation) (found : String) : LexicalFault :=
  match expected with
  | .name => .functionNameExpected found
  | .openParen => .openParenExpected found
  | .parameterOrClose | .parameter => .parameterExpected found
  | .commaOrClose => .commaOrCloseExpected found

/-- The header with an attribute more. -/
def Header.add (h : Header) (key : Token.Key) (lexeme : Lexeme) (next : Expectation) : Header :=
  { h with
    text := h.text ++ lexeme.text
    attributes := ⟨key, lexeme.text, lexeme.span⟩ :: h.attributes
    expects := next }

/-- The header with a lexeme more that is no attribute. -/
def Header.pass (h : Header) (lexeme : Lexeme) (next : Expectation) : Header :=
  { h with text := h.text ++ lexeme.text, expects := next }

/-- The token of a header that ends with a lexeme. -/
def Header.close (h : Header) (lexeme : Lexeme) : Token :=
  { kind := .functionDeclaration
    text := h.text ++ lexeme.text
    span := ⟨h.start, lexeme.span.stop⟩
    attributes := h.attributes.reverse }

/-- One lexeme inside a header. -/
def stepHeader (tokens : List Token) (h : Header) (lexeme : Lexeme) : Except Error State :=
  let stay (h : Header) : Except Error State := .ok { tokens, header := some h }
  match lexeme.kind, h.expects with
  | .blank, expects | .newLine, expects => stay (h.pass lexeme expects)
  | .wordIntoNumber, _ => .error (digitInside lexeme)
  | .unterminated, _ | .illegal, _ => .error (refused lexeme)
  | .word, .name => stay (h.add .name lexeme .openParen)
  | .openParen, .openParen => stay (h.pass lexeme .parameterOrClose)
  | .closeParen, .parameterOrClose | .closeParen, .commaOrClose =>
      .ok { tokens := h.close lexeme :: tokens }
  | .word, .parameterOrClose | .word, .parameter => stay (h.add .parameter lexeme .commaOrClose)
  | .comma, .commaOrClose => stay (h.pass lexeme .parameter)
  | _, expects => .error (fault lexeme (expects.fault lexeme.text))

-- ========================================================= whole texts

/-- One lexeme. -/
def step (s : State) (lexeme : Lexeme) : Except Error State :=
  match s.header with
  | none => stepOutside s.tokens lexeme
  | some h => stepHeader s.tokens h lexeme

/-- The tokens at the end of a text of `size` bytes, which must not end
inside a header. -/
def finish (size : Nat) (s : State) : Except Error (List Token) :=
  match s.header with
  | none => .ok s.tokens.reverse
  | some _ => .error ⟨.lexical .unterminatedHeader, .point size, []⟩

end ScopedScript.Scan

namespace ScopedScript

/-- The tokens of a program text, or the first thing wrong with it. -/
def scan (source : String) : Except Error (List Token) := do
  let state ← (Lexeme.split source.toList).foldlM Scan.step {}
  Scan.finish source.utf8ByteSize state

end ScopedScript
