/-
Lexemes: a text cut into its smallest pieces.

Every character of a text belongs to exactly one lexeme, blanks and
characters without a meaning included, so the lexemes of a text put
together are the text again. Words, numbers and quoted texts are as long as
they can be.
-/
import ScopedScript.Span
import ScopedScript.Text.Slice

namespace ScopedScript

/-- What a lexeme is. -/
inductive Lexeme.Kind where
  | ret
  | var
  | function
  | boolean
  /-- A word that is none of the above. -/
  | word
  /-- A word running into digits, such as `a2`. -/
  | wordIntoNumber
  | number
  /-- A number running into a letter, such as `4x`. -/
  | numberIntoWord
  | quoted
  /-- A quoted text without its closing quote. -/
  | unterminated
  | newLine
  | equals
  | openBrace
  | closeBrace
  | openParen
  | closeParen
  | semicolon
  | comma
  | dot
  | operator
  /-- A space, tab, carriage return or form feed. -/
  | blank
  /-- A character without a meaning. -/
  | illegal
deriving DecidableEq, Repr

/-- A piece of a text: at least one character. -/
structure Lexeme where
  kind : Lexeme.Kind
  first : Char
  tail : List Char
  span : Span
deriving DecidableEq, Repr

namespace Lexeme

/-- The characters of a lexeme. -/
def chars (l : Lexeme) : List Char := l.first :: l.tail

/-- The text of a lexeme. -/
def text (l : Lexeme) : String := String.ofList l.chars

-- ======================================================== characters

/-- ASCII letters and the underscore. -/
def isWordChar (c : Char) : Bool := c.isAlpha || c == '_'

/-- Characters of words that run into digits. -/
def isWordOrDigit (c : Char) : Bool := isWordChar c || c.isDigit

/-- Characters that only separate. -/
def isBlank (c : Char) : Bool := c == ' ' || c == '\t' || c == '\r' || c == '\x0c'

/-- The kind of a lexeme of one character. -/
def Kind.ofSymbol (c : Char) : Kind :=
  match c with
  | '\n' => .newLine
  | '=' => .equals
  | '\x7b' => .openBrace
  | '\x7d' => .closeBrace
  | '(' => .openParen
  | ')' => .closeParen
  | ';' => .semicolon
  | ',' => .comma
  | '.' => .dot
  | '+' | '-' | '*' | '/' => .operator
  | c => if isBlank c then .blank else .illegal

/-- The kind of a word, which may be reserved. -/
def Kind.ofWord (word : List Char) : Kind :=
  match String.ofList word with
  | "return" => .ret
  | "var" => .var
  | "function" => .function
  | "true" | "false" => .boolean
  | _ => .word

-- ======================================================= one lexeme

/-- A lexeme cut off a text: its kind, the characters after its first one,
and the text left over. -/
structure Piece where
  kind : Kind
  tail : List Char
  rest : List Char

/-- Whether a text begins with a character of a class. -/
def startsWith (p : Char → Bool) : List Char → Bool
  | c :: _ => p c
  | [] => false

/-- Cuts off a word whose first character is `c`. -/
def cutWord (c : Char) (cs : List Char) : Piece :=
  let tail := cs.takeWhile isWordChar
  let rest := cs.dropWhile isWordChar
  if startsWith Char.isDigit rest then
    ⟨.wordIntoNumber, tail ++ rest.takeWhile isWordOrDigit, rest.dropWhile isWordOrDigit⟩
  else ⟨.ofWord (c :: tail), tail, rest⟩

/-- Cuts a point and the digits after it off a text, if both are there. -/
def cutFraction (cs : List Char) : List Char × List Char :=
  match cs with
  | '.' :: rest =>
      if startsWith Char.isDigit rest then
        ('.' :: rest.takeWhile Char.isDigit, rest.dropWhile Char.isDigit)
      else ([], cs)
  | _ => ([], cs)

/-- Cuts off a number after its first digit, with one more character if that
is a letter. -/
def cutNumber (cs : List Char) : Piece :=
  let whole := cs.takeWhile Char.isDigit
  let fraction := cutFraction (cs.dropWhile Char.isDigit)
  if startsWith isWordChar fraction.2 then
    ⟨.numberIntoWord, whole ++ fraction.1 ++ fraction.2.take 1, fraction.2.drop 1⟩
  else ⟨.number, whole ++ fraction.1, fraction.2⟩

/-- Cuts off a quoted text after its opening quote. -/
def cutQuoted (quote : Char) (cs : List Char) : Piece :=
  match cs.dropWhile (· != quote) with
  | close :: rest => ⟨.quoted, cs.takeWhile (· != quote) ++ [close], rest⟩
  | [] => ⟨.unterminated, cs, []⟩

/-- Cuts off the lexeme that begins with the character `c`. -/
def cut (c : Char) (cs : List Char) : Piece :=
  if isWordChar c then cutWord c cs
  else if c.isDigit then cutNumber cs
  else if c == '"' || c == '\'' then cutQuoted c cs
  else ⟨.ofSymbol c, [], cs⟩

-- ============================================= nothing gets lost

theorem cutWord_append (c : Char) (cs : List Char) :
    (cutWord c cs).tail ++ (cutWord c cs).rest = cs := by
  simp only [cutWord]
  split <;> simp

theorem cutFraction_append (cs : List Char) : (cutFraction cs).1 ++ (cutFraction cs).2 = cs := by
  unfold cutFraction
  split
  · split <;> simp
  · rfl

theorem cutNumber_append (cs : List Char) : (cutNumber cs).tail ++ (cutNumber cs).rest = cs := by
  simp only [cutNumber]
  split <;> simp only [List.append_assoc, List.take_append_drop, cutFraction_append,
    List.takeWhile_append_dropWhile]

theorem cutQuoted_append (quote : Char) (cs : List Char) :
    (cutQuoted quote cs).tail ++ (cutQuoted quote cs).rest = cs := by
  have h := List.takeWhile_append_dropWhile (p := (· != quote)) (l := cs)
  unfold cutQuoted
  split
  · rename_i close rest hr
    rw [hr] at h
    simpa using h
  · simp

/-- What is cut off and what is left over make up the text. -/
theorem cut_append (c : Char) (cs : List Char) : (cut c cs).tail ++ (cut c cs).rest = cs := by
  unfold cut
  split
  · exact cutWord_append c cs
  · split
    · exact cutNumber_append cs
    · split
      · exact cutQuoted_append c cs
      · rfl

theorem length_rest_cut_le (c : Char) (cs : List Char) : (cut c cs).rest.length ≤ cs.length := by
  have h := congrArg List.length (cut_append c cs)
  simp only [List.length_append] at h
  omega

-- ======================================================= all lexemes

/-- Cuts a text that starts at a byte offset into lexemes, onto the reversed
`done`. -/
def splitFrom (done : List Lexeme) (offset : Nat) : List Char → List Lexeme
  | [] => done.reverse
  | c :: cs =>
      let piece := cut c cs
      let stop := offset + Text.byteLength (c :: piece.tail)
      splitFrom (⟨piece.kind, c, piece.tail, ⟨offset, stop⟩⟩ :: done) stop piece.rest
termination_by cs => cs.length
decreasing_by
  have := length_rest_cut_le c cs
  simp only [List.length_cons]
  omega

/-- The lexemes of a text. -/
def split (text : List Char) : List Lexeme := splitFrom [] 0 text

end Lexeme

end ScopedScript
