/-
The grammar of programs.

This file states what a program is, without saying how one is read. There
are five kinds of phrases. Writing `sep` for a line break or a semicolon
and `NL` for a line break, and `E` for a statement that makes one node:

    body      ::= (sep* statement)* sep*
    statement ::= identifier tail | number tail | string tail | boolean
                | `(` NL* E NL* `)` tail
                | block
                | `var` identifier | `var` identifier `=` E
                | header NL* block
                | `return` | `return` E
    tail      ::= nothing | `=` E | operator E
                | `(` arguments `)` tail | `.` identifier tail
    arguments ::= NL* | NL* E NL* | NL* E NL* `,` arguments
    block     ::= `{` body `}`

Some alternatives end with nothing: a tail, a bare `return`, a bare `var`.
Which of them applies depends on the token that comes next, so `Derives`
relates the tokens of a phrase and the tokens after it to the nodes of the
phrase. The latter are looked at in three places only, and never further
than at the first one: an expression ends only where it cannot go on, a
bare `return` only stands before a separator, a closing brace or the end,
and a bare `var` only where no `=` follows.
-/
import ScopedScript.Node.Build

namespace ScopedScript.Grammar

/-- The kinds of phrases. The tail of an expression is read with the node
before it at hand. -/
inductive Phrase where
  | body
  | statement
  | tail (left : Node)
  | arguments
  | block

/-- A run of line breaks. -/
def NewLines (ts : List Token) : Prop := ∀ t ∈ ts, t.kind = .newLine

/-- A run of line breaks and semicolons. -/
def Separators (ts : List Token) : Prop := ∀ t ∈ ts, t.kind.isSeparator = true

/-- The parameters that a function header declares. -/
def parameters (header : Token) : List Parameter :=
  (header.attributesOf .parameter).map fun a => ⟨a.value, a.span⟩

/-- The tokens of a phrase, the tokens that come next, and the nodes that
the phrase makes. -/
inductive Derives : Phrase → (tokens next : List Token) → List Node → Prop
  -- statements of a program or a block
  | noStatement {seps next} (hseps : Separators seps) :
      Derives .body seps next []
  | nextStatement {seps ts rest next nodes more} (hseps : Separators seps)
      (hstatement : Derives .statement ts (rest ++ next) nodes)
      (hrest : Derives .body rest next more) :
      Derives .body (seps ++ (ts ++ rest)) next (nodes ++ more)
  | block {opening body closing next nodes} (hopening : opening.kind = .openBlock)
      (hbody : Derives .body body (closing :: next) nodes)
      (hclosing : closing.kind = .closeBlock) :
      Derives .block (opening :: (body ++ [closing])) next
        [.block (opening.span.union closing.span) nodes]
  -- expressions
  | reference {t ts next nodes} (ht : t.kind = .identifier)
      (htail : Derives (.tail (.reference t.span t.text)) ts next nodes) :
      Derives .statement (t :: ts) next nodes
  | number {t ts next nodes value} (ht : t.kind = .number)
      (hvalue : Number.read? t.text = some value)
      (htail : Derives (.tail (.number t.span value)) ts next nodes) :
      Derives .statement (t :: ts) next nodes
  | string {t ts next nodes} (ht : t.kind = .string)
      (htail : Derives (.tail (.string t.span t.text)) ts next nodes) :
      Derives .statement (t :: ts) next nodes
  | boolean {t next} (ht : t.kind = .boolean) :
      Derives .statement [t] next [.boolean t.span (t.text == "true")]
  | parenthesized {opening before ts after closing rest next inner nodes}
      (hopening : opening.kind = .openParen) (hbefore : NewLines before)
      (hinner : Derives .statement ts (after ++ closing :: (rest ++ next)) [inner])
      (hafter : NewLines after) (hclosing : closing.kind = .closeParen)
      (htail : Derives (.tail (.parenthesized (opening.span.union closing.span) inner))
        rest next nodes) :
      Derives .statement (opening :: (before ++ (ts ++ (after ++ closing :: rest)))) next nodes
  -- other statements
  | blockStatement {ts next nodes} (hblock : Derives .block ts next nodes) :
      Derives .statement ts next nodes
  | declaration {var name next} (hvar : var.kind = .variableDeclaration)
      (hname : name.kind = .identifier) (hnext : ∀ t ∈ next.head?, t.kind ≠ .assign) :
      Derives .statement [var, name] next
        [.declaration (var.span.union name.span) name.text]
  | initializedDeclaration {var name equals ts next value}
      (hvar : var.kind = .variableDeclaration) (hname : name.kind = .identifier)
      (hequals : equals.kind = .assign) (hvalue : Derives .statement ts next [value]) :
      Derives .statement (var :: name :: equals :: ts) next
        [.declaration (var.span.union name.span) name.text,
          .assignment (name.span.union value.span) (.reference name.span name.text) value]
  | function {header name before ts next body}
      (hheader : header.kind = .functionDeclaration)
      (hname : header.attribute? .name = some name) (hbefore : NewLines before)
      (hbody : Derives .block ts next [body]) :
      Derives .statement (header :: (before ++ ts)) next
        [.function (header.span.union body.span) name.value (parameters header) body]
  | bareReturn {t next} (ht : t.kind = .ret)
      (hnext : ∀ n ∈ next.head?, n.kind.isSeparator = true ∨ n.kind = .closeBlock) :
      Derives .statement [t] next [.ret t.span none]
  | returnValue {t ts next value} (ht : t.kind = .ret)
      (hvalue : Derives .statement ts next [value]) :
      Derives .statement (t :: ts) next [.ret (t.span.union value.span) (some value)]
  -- how an expression goes on
  | stop {left next} (hnext : ∀ n ∈ next.head?, n.kind.isContinuation = false) :
      Derives (.tail left) [] next [left]
  | assignment {left equals ts next value} (hequals : equals.kind = .assign)
      (hvalue : Derives .statement ts next [value]) :
      Derives (.tail left) (equals :: ts) next
        [.assignment (left.span.union value.span) left value]
  | binary {left t operator ts next right} (ht : t.kind = .operator)
      (hoperator : Operator.ofSymbol? t.text = some operator)
      (hright : Derives .statement ts next [right]) :
      Derives (.tail left) (t :: ts) next
        [.binary (left.span.union right.span) operator left right]
  | call {left opening ts closing rest next args nodes} (hopening : opening.kind = .openParen)
      (hargs : Derives .arguments ts (closing :: (rest ++ next)) args)
      (hclosing : closing.kind = .closeParen)
      (htail : Derives (.tail (.call (left.span.union closing.span) left args))
        rest next nodes) :
      Derives (.tail left) (opening :: (ts ++ closing :: rest)) next nodes
  | property {left dot name rest next nodes} (hdot : dot.kind = .dot)
      (hname : name.kind = .identifier)
      (htail : Derives (.tail (.readProperty (left.span.union name.span) left name.text))
        rest next nodes) :
      Derives (.tail left) (dot :: name :: rest) next nodes
  -- arguments
  | noArgument {before next} (hbefore : NewLines before) :
      Derives .arguments before next []
  | lastArgument {before ts after next arg} (hbefore : NewLines before)
      (harg : Derives .statement ts (after ++ next) [arg]) (hafter : NewLines after) :
      Derives .arguments (before ++ (ts ++ after)) next [arg]
  | nextArgument {before ts after comma rest next arg args} (hbefore : NewLines before)
      (harg : Derives .statement ts (after ++ comma :: (rest ++ next)) [arg])
      (hafter : NewLines after) (hcomma : comma.kind = .comma)
      (hrest : Derives .arguments rest next args) :
      Derives .arguments (before ++ (ts ++ (after ++ comma :: rest))) next (arg :: args)

/-- A statement that starts with a brace is a block. -/
theorem Derives.block_of_openBlock {us vs rest : List Token}
    {t : Token} {nodes : List Node} (h : Derives .statement us rest nodes)
    (hus : t :: vs = us ++ rest) (ht : t.kind = .openBlock) :
    Derives .block us rest nodes := by
  have hhead {u : Token} {ws : List Token} (hcons : us = u :: ws) : u.kind = .openBlock := by
    rw [hcons, List.cons_append] at hus
    cases hus
    exact ht
  cases h with
  | blockStatement hblock => exact hblock
  | reference hkind | string hkind | boolean hkind | parenthesized hkind | declaration hkind
  | initializedDeclaration hkind | function hkind | bareReturn hkind | returnValue hkind
  | number hkind =>
      rw [hhead rfl] at hkind
      cases hkind

/-- The tree of a program whose tokens are derived from the grammar. -/
def IsTreeOf (tree : Node) (tokens : List Token) : Prop :=
  ∃ body, Derives .body tokens [] body ∧ tree = .root ⟨0, endOfTokens tokens⟩ body

end ScopedScript.Grammar
