/-
Building: from tokens to trees.

Each token that can begin or continue something selects a construct, and
the construct reads its tokens with the node before it, if there is one, as
its left operand. Constructs inside a construct are read by `process` on
what is left of the tokens, which by then is shorter: a `Nested` reader for
sequences shorter than `n` is all that a construct of `n` tokens needs, and
`process` ties the knot by recursion on the number of tokens.

Operators have no ranks. The right operand of an operator is a whole
construct of its own, so operators group to the right.
-/
import ScopedScript.Node
import ScopedScript.Error
import ScopedScript.Number.Literal

namespace ScopedScript.Build

-- ============================================================= replies

/-- What reading from `n` tokens gives: a value, for which at least one token
was used up, or an error. In both cases `rest` is what is left. -/
inductive Reply (n : Nat) (α : Type) where
  | ok (value : α) (rest : List Token) (shorter : rest.length < n)
  | fail (error : Error) (rest : List Token) (noLonger : rest.length ≤ n)

namespace Reply

variable {m n : Nat} {α β : Type}

/-- A reply from some of the tokens, seen as one from all of them. -/
def widen (h : m ≤ n) : Reply m α → Reply n α
  | .ok value rest shorter => .ok value rest (Nat.lt_of_lt_of_le shorter h)
  | .fail error rest noLonger => .fail error rest (Nat.le_trans noLonger h)

/-- Goes on from a value with the tokens left after it. -/
@[inline] def andThen (r : Reply m α) (h : m ≤ n)
    (next : α → (rest : List Token) → rest.length < m → Reply n β) : Reply n β :=
  match r with
  | .ok value rest shorter => next value rest shorter
  | .fail error rest noLonger => .fail error rest (Nat.le_trans noLonger h)

/-- The reply with its error, if any, in one more context. -/
def within (context : Context) : Reply n α → Reply n α
  | .ok value rest shorter => .ok value rest shorter
  | .fail error rest noLonger => .fail (error.within context) rest noLonger

/-- The value or the error of a reply. -/
def result : Reply n α → Except Error α
  | .ok value .. => .ok value
  | .fail error .. => .error error

/-- The tokens left after a reply. -/
def rest : Reply n α → List Token
  | .ok _ rest _ => rest
  | .fail _ rest _ => rest

theorem length_rest_le (r : Reply n α) : r.rest.length ≤ n := by
  cases r with
  | ok _ _ shorter => exact Nat.le_of_lt shorter
  | fail _ _ noLonger => exact noLonger

end Reply

/-- A reader for sequences of fewer than `n` tokens, given the left operand
if there is one. -/
abbrev Nested (n : Nat) :=
  (ts : List Token) → ts.length < n → Option Node → Reply ts.length (List Node)

/-- A reader for sequences of fewer than `n` tokens is one for fewer still. -/
def Nested.limit {m n : Nat} (nested : Nested n) (h : m ≤ n) : Nested m :=
  fun ts shorter left => nested ts (Nat.lt_of_lt_of_le shorter h) left

/-- A syntax error. -/
def syntaxError (fault : SyntaxFault) (span : Span) : Error := ⟨.syntactic fault, span, []⟩

-- ======================================================= tokens at hand

/-- The tokens after leading line breaks. -/
def skipNewLines (ts : List Token) : List Token := ts.dropWhile (·.kind == .newLine)

/-- The tokens after leading line breaks and semicolons. -/
def skipSeparators (ts : List Token) : List Token := ts.dropWhile (·.kind.isSeparator)

theorem length_skipNewLines_le (ts : List Token) : (skipNewLines ts).length ≤ ts.length :=
  (List.dropWhile_suffix _).length_le

theorem length_skipSeparators_le (ts : List Token) : (skipSeparators ts).length ≤ ts.length :=
  (List.dropWhile_suffix _).length_le

/-- Whether the next token lets a finished expression go on. -/
def continues : List Token → Bool
  | t :: _ => t.kind.isContinuation
  | [] => false

/-- Uses up the token that must come next. -/
def require (required : Required) (stop : Nat) : (ts : List Token) → Reply ts.length Token
  | t :: rest =>
      if t.kind = required.kind then .ok t rest (Nat.lt_succ_self _)
      else .fail (syntaxError (.required required (some t.kind)) t.span) (t :: rest) (Nat.le_refl _)
  | [] => .fail (syntaxError (.required required none) (.point stop)) [] (Nat.le_refl _)

-- ===================================================== parts of constructs

/-- The one node of a place that holds exactly one. -/
def single (place : Operand) : List Node → Except Error Node
  | [node] => .ok node
  | first :: second :: rest =>
      .error (syntaxError (.notSingle place (rest.length + 2)) (first.span.union second.span))
  | [] => .error (syntaxError (.nothing place) ⟨0, 0⟩)

/-- Reads one node without a left operand. -/
def operand {n : Nat} (nested : Nested n) (place : Operand) (ts : List Token)
    (h : ts.length < n) : Reply ts.length Node :=
  (nested ts h none).andThen (Nat.le_refl _) fun nodes rest shorter =>
    match single place nodes with
    | .ok node => .ok node rest shorter
    | .error error => .fail error rest (Nat.le_of_lt shorter)

/-- Lets a finished node go on as the left operand of what follows, if that
can be. -/
def chain {n : Nat} (nested : Nested n) (node : Node) (ts : List Token) (h : ts.length < n) :
    Reply n (List Node) :=
  if continues ts then (nested ts h (some node)).widen (Nat.le_of_lt h) else .ok [node] ts h

/-- Reads call arguments after `(`: nodes with commas between them up to the
closing parenthesis, whose span is returned. Line breaks are ignored, and so
is a comma before the parenthesis. `done` holds the arguments so far, the
last one first. -/
def arguments {n : Nat} (nested : Nested n) (opening : Span) (done : List Node) (ts : List Token)
    (h : ts.length < n) : Reply n (List Node × Span) :=
  have hskip := length_skipNewLines_le ts
  match hts : skipNewLines ts with
  | [] => .fail (syntaxError .unclosedCall opening) [] (Nat.zero_le _)
  | t :: rest =>
      have hlen : rest.length + 1 ≤ ts.length := by
        rw [hts] at hskip; exact hskip
      if t.kind = .closeParen then .ok (done.reverse, t.span) rest (by omega)
      else
        ((operand nested .argument (t :: rest) (Nat.lt_of_le_of_lt hlen h)).within
            (.argument (done.length + 1))).andThen (Nat.le_trans hlen (Nat.le_of_lt h))
          fun argument after hafter =>
          have hafter' := length_skipNewLines_le after
          have hafter'' : after.length ≤ rest.length := Nat.le_of_lt_succ hafter
          match hnext : skipNewLines after with
          | [] => .fail (syntaxError .unclosedCall opening) [] (Nat.zero_le _)
          | next :: left =>
              have hleft : left.length + 1 ≤ after.length := by
                rw [hnext] at hafter'; exact hafter'
              if next.kind = .comma then
                arguments nested opening (argument :: done) left (by omega)
              else if next.kind = .closeParen then
                .ok ((argument :: done).reverse, next.span) left (by omega)
              else
                .fail (syntaxError (.argumentSeparator next.kind) next.span) (next :: left)
                  (Nat.le_trans hleft (by omega))
termination_by ts.length

/-- Reads the statements of a block after `{` up to the matching brace, whose
span is returned. `done` holds the statements so far, the last one first. -/
def statements {n : Nat} (nested : Nested n) (opening : Span) (done : List Node)
    (ts : List Token) (h : ts.length < n) : Reply n (List Node × Span) :=
  have hskip := length_skipSeparators_le ts
  match hts : skipSeparators ts with
  | [] => .fail (syntaxError .unclosedBlock opening) [] (Nat.zero_le _)
  | t :: rest =>
      have hlen : rest.length + 1 ≤ ts.length := by
        rw [hts] at hskip; exact hskip
      if t.kind = .closeBlock then .ok (done.reverse, t.span) rest (by omega)
      else
        ((nested (t :: rest) (Nat.lt_of_le_of_lt hlen h) none).within .block).andThen
          (Nat.le_trans hlen (Nat.le_of_lt h)) fun nodes after hafter =>
            have hafter' : after.length ≤ rest.length := Nat.le_of_lt_succ hafter
            statements nested opening (nodes.reverse ++ done) after (by omega)
termination_by ts.length

-- ============================================================ constructs

/-- Goes on only if there is no left operand. -/
def alone {n : Nat} {α : Type} (left : Option Node) (token : Token) (rest : List Token)
    (h : rest.length < n) (next : Reply n α) : Reply n α :=
  match left with
  | some node =>
      .fail (syntaxError (.cannotFollow token.kind node.kind) token.span) rest (Nat.le_of_lt h)
  | none => next

/-- Goes on only with a left operand. -/
def joined {n : Nat} {α : Type} (left : Option Node) (token : Token) (rest : List Token)
    (h : rest.length < n) (next : Node → Reply n α) : Reply n α :=
  match left with
  | some node => next node
  | none =>
      .fail (syntaxError (.missingLeft token.kind token.text) token.span) rest (Nat.le_of_lt h)

section Constructs

variable (stop : Nat) (token : Token) (rest : List Token) (nested : Nested (rest.length + 1))
  (left : Option Node)

/-- A name, which may go on. -/
def reference : Reply (rest.length + 1) (List Node) :=
  alone left token rest (Nat.lt_succ_self _) <|
    chain nested (.reference token.span token.text) rest (Nat.lt_succ_self _)

/-- A number, which may go on. -/
def number : Reply (rest.length + 1) (List Node) :=
  alone left token rest (Nat.lt_succ_self _) <|
    match Number.read? token.text with
    | some value => chain nested (.number token.span value) rest (Nat.lt_succ_self _)
    | none => .fail (syntaxError (.invalidNumber token.text) token.span) rest (Nat.le_succ _)

/-- A quoted text, which may go on. -/
def string : Reply (rest.length + 1) (List Node) :=
  alone left token rest (Nat.lt_succ_self _) <|
    chain nested (.string token.span token.text) rest (Nat.lt_succ_self _)

/-- A truth value. It never goes on: nothing may follow it as an
operator. -/
def boolean : Reply (rest.length + 1) (List Node) :=
  alone left token rest (Nat.lt_succ_self _) <|
    .ok [.boolean token.span (token.text == "true")] rest (Nat.lt_succ_self _)

/-- `=` and the assigned value, with the target on the left. Whether the
target can be assigned to shows only when the program runs. -/
def assignment : Reply (rest.length + 1) (List Node) :=
  joined left token rest (Nat.lt_succ_self _) fun target =>
    ((operand nested .value rest (Nat.lt_succ_self _)).within .assignedValue).andThen
      (Nat.le_succ _) fun value after shorter =>
        .ok [.assignment (target.span.union value.span) target value] after (by omega)

/-- An operator and its right operand, with the left operand on the left. -/
def binary : Reply (rest.length + 1) (List Node) :=
  joined left token rest (Nat.lt_succ_self _) fun first =>
    match Operator.ofSymbol? token.text with
    | none => .fail (syntaxError (.unknownOperator token.text) token.span) rest (Nat.le_succ _)
    | some operator =>
        ((operand nested .operand rest (Nat.lt_succ_self _)).within
            (.rightOperand operator)).andThen (Nat.le_succ _)
          fun second after shorter =>
            .ok [.binary (first.span.union second.span) operator first second] after (by omega)

/-- The arguments of a call, which may go on. -/
def call (callee : Node) : Reply (rest.length + 1) (List Node) :=
  ((arguments nested token.span [] rest (Nat.lt_succ_self _)).within
      (.argumentsOf (.ofNode callee))).andThen (Nat.le_refl _)
    fun (arguments, closing) after shorter =>
      chain nested (.call (callee.span.union closing) callee arguments) after shorter

/-- A parenthesized expression, which may go on. Line breaks inside the
parentheses are ignored. -/
def parenthesized : Reply (rest.length + 1) (List Node) :=
  have hskip := length_skipNewLines_le rest
  ((operand nested .expression (skipNewLines rest) (by omega)).within .parentheses).andThen
    (by omega) fun inner after shorter =>
      have hafter := length_skipNewLines_le after
      ((require .closeParen stop (skipNewLines after)).within .parentheses).andThen (by omega)
        fun closing last shorter' =>
          chain nested (.parenthesized (token.span.union closing.span) inner) last (by omega)

/-- An opening parenthesis: a call of what stands to its left, or else a
parenthesized expression. -/
def openParen : Reply (rest.length + 1) (List Node) :=
  match left with
  | some callee => call token rest nested callee
  | none => parenthesized stop token rest nested

/-- A property read of what stands to the left, which may go on. -/
def readProperty : Reply (rest.length + 1) (List Node) :=
  joined left token rest (Nat.lt_succ_self _) fun object =>
    (require .propertyName stop rest).andThen (Nat.le_succ _) fun property after shorter =>
      chain nested (.readProperty (object.span.union property.span) object property.text) after
        (by omega)

/-- Statements between braces. -/
def block : Reply (rest.length + 1) (List Node) :=
  alone left token rest (Nat.lt_succ_self _) <|
    (statements nested token.span [] rest (Nat.lt_succ_self _)).andThen (Nat.le_refl _)
      fun (body, closing) after shorter =>
        .ok [.block (token.span.union closing) body] after shorter

/-- `var` and a name, and with a value also the assignment of it: two nodes
side by side. -/
def variableDeclaration : Reply (rest.length + 1) (List Node) :=
  alone left token rest (Nat.lt_succ_self _) <|
    (require .variableName stop rest).andThen (Nat.le_succ _) fun name after shorter =>
      let declaration := Node.declaration (token.span.union name.span) name.text
      match after, shorter with
      | [], _ => .ok [declaration] [] (Nat.succ_pos _)
      | equals :: value, shorter =>
          if equals.kind = .assign then
            have hvalue : value.length + 1 ≤ rest.length + 1 :=
              Nat.le_succ_of_le (Nat.le_of_lt shorter)
            ((assignment equals value (nested.limit hvalue)
                (some (.reference name.span name.text))).within (.declarationOf name.text)).andThen
              hvalue fun nodes last shorter' => .ok (declaration :: nodes) last (by omega)
          else .ok [declaration] (equals :: value) (by omega)

/-- The body of a function with a given name; it must be a single block. -/
def functionBody (name : String) (nodes : List Node) : Except Error Node :=
  match single .functionBody nodes with
  | .ok (.block span body) => .ok (.block span body)
  | .ok node => .error (syntaxError (.bodyNotBlock name) node.span)
  | .error error => .error error

/-- A function header and the block after it. Line breaks between the two
are ignored. -/
def function : Reply (rest.length + 1) (List Node) :=
  alone left token rest (Nat.lt_succ_self _) <|
    match token.attribute? .name with
    | none => .fail (syntaxError .namelessFunction token.span) rest (Nat.le_succ _)
    | some ⟨_, name, _⟩ =>
        have hskip := length_skipNewLines_le rest
        let parameters := (token.attributesOf .parameter).map fun a => Parameter.mk a.value a.span
        match hts : skipNewLines rest with
        | [] => .fail (syntaxError (.bodyMissing name) (.point stop)) [] (Nat.zero_le _)
        | brace :: inner =>
            have hlen : inner.length + 1 ≤ rest.length := by rw [hts] at hskip; exact hskip
            if brace.kind = .openBlock then
              ((nested (brace :: inner) (Nat.lt_succ_of_le hlen) none).within
                  (.function name)).andThen
                (Nat.le_succ_of_le hlen) fun nodes after shorter =>
                  have hafter : after.length ≤ inner.length := Nat.le_of_lt_succ shorter
                  match functionBody name nodes with
                  | .ok body =>
                      .ok [.function (token.span.union body.span) name parameters body] after
                        (by omega)
                  | .error error => .fail error after (by omega)
            else
              .fail (syntaxError (.bodyNotOpened name brace.kind) brace.span) (brace :: inner)
                (Nat.le_succ_of_le hlen)

/-- `return`, with a value unless a separator, a closing brace or the end
follows. -/
def ret : Reply (rest.length + 1) (List Node) :=
  alone left token rest (Nat.lt_succ_self _) <|
    let bare : Bool := match rest with
      | next :: _ => next.kind.isSeparator || next.kind == .closeBlock
      | [] => true
    if bare then .ok [.ret token.span none] rest (Nat.lt_succ_self _)
    else
      ((operand nested .returnValue rest (Nat.lt_succ_self _)).within .returned).andThen
        (Nat.le_succ _) fun value after shorter =>
          .ok [.ret (token.span.union value.span) (some value)] after (by omega)

end Constructs

/-- Reads a given construct at the first token, whatever that token is. -/
def read (construct : Construct) (stop : Nat) :
    (ts : List Token) → Nested ts.length → Option Node → Reply ts.length (List Node)
  | [], _, _ => .fail (syntaxError (.noToken construct) (.point stop)) [] (Nat.le_refl _)
  | token :: rest, nested, left =>
      match construct with
      | .reference => reference token rest nested left
      | .number => number token rest nested left
      | .string => string token rest nested left
      | .boolean => boolean token rest left
      | .assignment => assignment token rest nested left
      | .binary => binary token rest nested left
      | .openParen => openParen stop token rest nested left
      | .readProperty => readProperty stop token rest nested left
      | .block => block token rest nested left
      | .variableDeclaration => variableDeclaration stop token rest nested left
      | .function => function stop token rest nested left
      | .ret => ret token rest nested left

/-- Reads the construct that the first token selects. -/
def dispatch (stop : Nat) (ts : List Token) (nested : Nested ts.length) (left : Option Node) :
    Reply ts.length (List Node) :=
  match ts, nested with
  | [], _ => .fail (syntaxError .unexpectedEnd (.point stop)) [] (Nat.le_refl _)
  | token :: rest, nested =>
      match Construct.ofToken? token.kind with
      | some construct => read construct stop (token :: rest) nested left
      | none =>
          .fail (syntaxError (.unexpected token.kind) token.span) (token :: rest) (Nat.le_refl _)

/-- Reads the next statement or expression from tokens whose last one ends at
`stop`, with `left` as its left operand. It yields one node, or two for a
declaration with a value. -/
def process (stop : Nat) (ts : List Token) (left : Option Node) : Reply ts.length (List Node) :=
  dispatch stop ts (fun us _ l => process stop us l) left
termination_by ts.length

/-- Reads the statements of a program; `done` holds the nodes so far, the
last one first. -/
def program (stop : Nat) (done : List Node) (ts : List Token) : Except Error (List Node) :=
  have hskip := length_skipSeparators_le ts
  match hts : skipSeparators ts with
  | [] => .ok done.reverse
  | t :: rest =>
      match process stop (t :: rest) none with
      | .fail error _ _ => .error error
      | .ok nodes after shorter =>
          have : after.length < ts.length := by
            rw [hts] at hskip; omega
          program stop (nodes.reverse ++ done) after
termination_by ts.length

end ScopedScript.Build

namespace ScopedScript

/-- The offset just past the last token; 0 if there is none. -/
def endOfTokens (tokens : List Token) : Nat :=
  match tokens.getLast? with
  | some token => token.span.stop
  | none => 0

/-- The tree of a program. -/
def build (tokens : List Token) : Except Error Node :=
  let stop := endOfTokens tokens
  (Build.program stop [] tokens).map (.root ⟨0, stop⟩)

end ScopedScript
