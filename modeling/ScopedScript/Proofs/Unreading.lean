/-
The tokens of a program can be read off its tree.

A tree has no place for line breaks, semicolons and the comma after a last
argument. Everything else that the scanner made is in it, once and in
order. `Node.signs` reads a tree from left to right and writes down, as a
`Sign`, what the tree knows of each token it was made of; `essential`
drops from the tokens of a program what a tree has no place for. The two
go together token by token (`the_tree_shows_every_token`).

# What depends on what comes next

Whether a comma is essential depends on the token behind it, so the tokens
of a phrase are thinned out with the tokens after the phrase at hand. The
grammar has these at hand as well, and the proof is one case for each of
its rules.

# Declarations with a value

`var x = 1` makes two nodes side by side, a declaration and an assignment
to a reference at the very place where the name is declared. Reading
backwards that place is read once. An assignment that merely follows a
declaration has its target further on, since tokens do not overlap
(`signsAfter_of_apart`).
-/
import Mathlib.Data.List.Forall2
import ScopedScript.Proofs.Rereading

namespace ScopedScript

-- ==================================================================== signs

/-- What a tree knows of a token it was made of. -/
inductive Sign where
  /-- A token of a kind with a text. -/
  | word (kind : Token.Kind) (text : String)
  /-- A number, by its value. -/
  | number (value : Float)
  /-- A function header, by its name and parameters. -/
  | header (name : String) (parameters : List Parameter)

/-- The token is as the sign says. -/
def Token.Bears (t : Token) : Sign → Prop
  | .word kind text => t.kind = kind ∧ t.text = text
  | .number value => t.kind = .number ∧ Number.read? t.text = some value
  | .header name parameters => t.kind = .functionDeclaration
      ∧ (∃ a, t.attribute? .name = some a ∧ a.value = name) ∧ Grammar.parameters t = parameters

namespace Node

/-- Where the name that a node declares is written: at its end. -/
def nameSpan? : Node → Option Span
  | .declaration span name => some ⟨span.stop - name.utf8ByteSize, span.stop⟩
  | _ => none

mutual

/-- The signs of a tree, from left to right. -/
def signs : Node → List Sign
  | .root _ body => signsAfter none body
  | .declaration _ name => [.word .variableDeclaration "var", .word .identifier name]
  | .assignment _ target value => target.signs ++ .word .assign "=" :: value.signs
  | .reference _ name => [.word .identifier name]
  | .number _ value => [.number value]
  | .string _ value => [.word .string value]
  | .boolean _ value => [.word .boolean (showBool value)]
  | .binary _ operator left right =>
      left.signs ++ .word .operator operator.symbol :: right.signs
  | .parenthesized _ inner => .word .openParen "(" :: (inner.signs ++ [.word .closeParen ")"])
  | .readProperty _ object property =>
      object.signs ++ [.word .dot ".", .word .identifier property]
  | .call _ callee arguments =>
      callee.signs ++ .word .openParen "(" :: (argumentSigns arguments ++ [.word .closeParen ")"])
  | .function _ name parameters body => .header name parameters :: body.signs
  | .block _ body =>
      .word .openBlock "\x7b" :: (signsAfter none body ++ [.word .closeBlock "\x7d"])
  | .ret _ none => [.word .ret "return"]
  | .ret _ (some value) => .word .ret "return" :: value.signs

/-- The signs of statements. A name that has just been declared is not shown
again as the target of an assignment. -/
def signsAfter (declared : Option Span) : List Node → List Sign
  | [] => []
  | .assignment _ target value :: rest =>
      (if declared = some target.span then [] else target.signs)
        ++ .word .assign "=" :: (value.signs ++ signsAfter none rest)
  | node :: rest => node.signs ++ signsAfter node.nameSpan? rest

/-- The signs of arguments, with commas between them. -/
def argumentSigns : List Node → List Sign
  | [] => []
  | argument :: rest =>
      argument.signs ++ ((if rest.isEmpty then [] else [.word .comma ","]) ++ argumentSigns rest)

end

end Node

-- ========================================================= essential tokens

/-- Whether the next token, line breaks aside, is a closing parenthesis. -/
def closesNext (ts : List Token) : Bool :=
  (Build.skipNewLines ts).head?.any (·.kind == .closeParen)

/-- The tokens without separators and without commas before a closing
parenthesis; `next` are the tokens that come after them. -/
def essential (next : List Token) : List Token → List Token
  | [] => []
  | t :: ts =>
      if t.kind.isSeparator || (t.kind == .comma && closesNext (ts ++ next)) then essential next ts
      else t :: essential next ts

theorem essential_append (next us vs : List Token) :
    essential next (us ++ vs) = essential (vs ++ next) us ++ essential next vs := by
  induction us with
  | nil => rfl
  | cons t us ih =>
      simp only [List.cons_append, essential, List.append_assoc, ih]
      split
      · rfl
      · rfl

theorem essential_separators {us : List Token} (h : Grammar.Separators us) (next : List Token) :
    essential next us = [] := by
  induction us with
  | nil => rfl
  | cons t us ih =>
      obtain ⟨ht, hus⟩ := List.forall_mem_cons.1 h
      rw [essential, ht, Bool.true_or, if_pos rfl]
      exact ih hus

theorem essential_newLines {us : List Token} (h : Grammar.NewLines us) (next : List Token) :
    essential next us = [] := by
  refine essential_separators (fun t ht => ?_) next
  rw [h t ht]
  rfl

/-- Separators and commas aside, a token is essential. -/
theorem essential_cons {t : Token} {kind : Token.Kind} (ht : t.kind = kind)
    (hkind : (kind.isSeparator || kind == .comma) = false) (next ts : List Token) :
    essential next (t :: ts) = t :: essential next ts := by
  obtain ⟨hseparator, hcomma⟩ := Bool.or_eq_false_iff.1 hkind
  rw [essential, ht, hseparator, hcomma]
  rfl

theorem essential_comma {t : Token} (ht : t.kind = .comma) (next ts : List Token) :
    essential next (t :: ts)
      = if closesNext (ts ++ next) then essential next ts else t :: essential next ts := by
  rw [essential, ht]
  rfl

theorem closesNext_append {before : List Token} (h : Grammar.NewLines before) {t : Token}
    (ht : t.kind ≠ .newLine) (ts : List Token) :
    closesNext (before ++ t :: ts) = (t.kind == .closeParen) := by
  rw [closesNext, Build.skipNewLines_append h ht]
  rfl

-- =========================================================== written tokens

/-- How tokens of a kind are written, if all of them are written alike. -/
def Token.Kind.spelling? : Token.Kind → Option String
  | .ret => some "return"
  | .variableDeclaration => some "var"
  | .newLine => some "\n"
  | .assign => some "="
  | .openBlock => some "\x7b"
  | .closeBlock => some "\x7d"
  | .openParen => some "("
  | .closeParen => some ")"
  | .semicolon => some ";"
  | .comma => some ","
  | .dot => some "."
  | .functionDeclaration | .string | .number | .boolean | .operator | .identifier => none

/-- The text of a token is what its kind says, and that of a name fills its
span. -/
structure Token.Written (t : Token) : Prop where
  spelled : ∀ text ∈ t.kind.spelling?, t.text = text
  boolean : t.kind = .boolean → t.text = "true" ∨ t.text = "false"
  name : t.kind = .identifier → t.span.stop = t.span.start + t.text.utf8ByteSize
  nonempty : t.span.start < t.span.stop

/-- Words that are reserved, and symbols, are written in one way. -/
theorem Lexeme.Cuts.spelled {c : Char} {kind : Lexeme.Kind} {tail rest : List Char}
    (h : Lexeme.Cuts c kind tail rest) {k : Token.Kind} (hkind : kind.token? = some k) :
    (∀ text ∈ k.spelling?, String.ofList (c :: tail) = text)
      ∧ (k = .boolean → String.ofList (c :: tail) = "true" ∨ String.ofList (c :: tail) = "false") := by
  have hmem : c :: tail ∈ kind.pattern := by
    refine h.mem_pattern ?_ ?_
    all_goals
      rintro rfl
      cases hkind
  cases kind with
  | boolean =>
      cases hkind
      refine ⟨nofun, fun _ => ?_⟩
      rcases hmem with hmem | hmem
      · exact .inl (congrArg String.ofList hmem)
      · exact .inr (congrArg String.ofList hmem)
  | word | number | quoted | operator =>
      cases hkind
      exact ⟨nofun, nofun⟩
  | function | wordIntoNumber | numberIntoWord | unterminated | blank | illegal => cases hkind
  | _ =>
      cases hkind
      refine ⟨fun text htext => ?_, nofun⟩
      cases htext
      exact congrArg String.ofList hmem

namespace Scan

theorem spelled_single {l : Lexeme} {offset : Nat} {rest : List Char} (h : l.Stands offset rest)
    {kind : Token.Kind} (hkind : l.kind.token? = some kind) :
    (∀ text ∈ kind.spelling?, (single l kind).text = text)
      ∧ (kind = .boolean → (single l kind).text = "true" ∨ (single l kind).text = "false") := by
  by_cases hquoted : l.kind = .quoted
  · rw [hquoted] at hkind
    cases hkind
    exact ⟨nofun, nofun⟩
  · have htext : (single l kind).text = String.ofList (l.first :: l.tail) := if_neg hquoted
    rw [htext]
    exact h.cuts.spelled hkind

theorem Makes.spelled {header : Option Header} {ls : List Lexeme} {ts : List Token}
    (h : Makes header ls ts) (hls : ∀ l ∈ ls, ∃ offset rest, l.Stands offset rest) :
    ∀ t ∈ ts, (∀ text ∈ t.kind.spelling?, t.text = text)
      ∧ (t.kind = .boolean → t.text = "true" ∨ t.text = "false") := by
  induction h with
  | nil => exact nofun
  | blank _ _ ih | opening _ _ ih | inside _ _ ih => exact ih (List.forall_mem_cons.1 hls).2
  | token hl _ ih =>
      obtain ⟨⟨offset, rest, hstands⟩, hls⟩ := List.forall_mem_cons.1 hls
      exact List.forall_mem_cons.2 ⟨spelled_single hstands hl, ih hls⟩
  | closing _ _ ih =>
      exact List.forall_mem_cons.2 ⟨⟨nofun, nofun⟩, ih (List.forall_mem_cons.1 hls).2⟩

end Scan

theorem written_of_scan {source : String} {tokens : List Token} (h : scan source = .ok tokens) :
    ∀ t ∈ tokens, t.Written := by
  intro t ht
  have hspelled := (scan_eq_ok_iff.1 h).spelled (fun l hl => by
    obtain ⟨before, after, hsplit⟩ := List.append_of_mem hl
    exact ⟨_, _, Lexeme.stands_of_mem_splitFrom hsplit⟩) t ht
  refine ⟨hspelled.1, hspelled.2, fun hname => ?_, (tiles_of_scan h).nonempty t ht⟩
  obtain ⟨before, written, after, -, -, hspan, hspells⟩ := (tiles_of_scan h).written_of_mem ht
  have htext : String.ofList written = t.text := by
    unfold Token.Spells at hspells
    rw [hname] at hspells
    exact hspells
  rw [hspan, ← htext, Text.utf8ByteSize_ofList]

namespace Token.Written

variable {t : Token}

/-- A token whose kind has one spelling bears that sign. -/
theorem bears (h : t.Written) {kind : Token.Kind} {text : String} (hkind : t.kind = kind)
    (hspelling : kind.spelling? = some text) : t.Bears (.word kind text) := by
  refine ⟨hkind, h.spelled text ?_⟩
  rw [hkind]
  exact hspelling

theorem showBool_eq (h : t.Written) (hkind : t.kind = .boolean) :
    t.text = showBool (t.text == "true") := by
  rcases h.boolean hkind with htext | htext
  · rw [htext]
    rfl
  · rw [htext]
    rfl

end Token.Written

theorem Operator.symbol_of_ofSymbol? {text : String} {operator : Operator}
    (h : Operator.ofSymbol? text = some operator) : text = operator.symbol := by
  unfold ofSymbol? at h
  split at h
  · cases h; rfl
  · cases h; rfl
  · cases h; rfl
  · cases h; rfl
  · cases h

-- ================================================================= statements

namespace Node

theorem signsAfter_singleton (node : Node) : signsAfter none [node] = node.signs := by
  cases node with
  | assignment span target value => simp [signsAfter, signs]
  | _ => simp [signsAfter]

/-- Where the name was declared that the last of several nodes declares. -/
def lastNameSpan (declared : Option Span) (nodes : List Node) : Option Span :=
  nodes.foldl (fun _ node => node.nameSpan?) declared

theorem signsAfter_append (declared : Option Span) (nodes more : List Node) :
    signsAfter declared (nodes ++ more)
      = signsAfter declared nodes ++ signsAfter (lastNameSpan declared nodes) more := by
  induction nodes generalizing declared with
  | nil => simp [signsAfter, lastNameSpan]
  | cons node nodes ih =>
      have hlast : lastNameSpan declared (node :: nodes) = lastNameSpan node.nameSpan? nodes := rfl
      rw [List.cons_append, hlast]
      cases node with
      | assignment span target value => simp [signsAfter, ih, nameSpan?]
      | _ => simp [signsAfter, ih]

/-- A name is declared at the end of a node. -/
theorem stop_of_lastNameSpan {nodes : List Node} {span : Span}
    (h : lastNameSpan none nodes = some span) : ∃ node ∈ nodes, node.span.stop = span.stop := by
  rcases nodes.eq_nil_or_concat' with rfl | ⟨before, last, rfl⟩
  · cases h
  · rw [lastNameSpan, List.foldl_concat] at h
    refine ⟨last, List.mem_append_right _ List.mem_cons_self, ?_⟩
    cases last with
    | declaration dspan name =>
        cases h
        rfl
    | _ => cases h

/-- A name that was declared somewhere else does not matter. -/
theorem signsAfter_of_ne {declared : Option Span} {nodes : List Node}
    (h : ∀ span target value, nodes.head? = some (.assignment span target value) →
      declared ≠ some target.span) :
    signsAfter declared nodes = signsAfter none nodes := by
  cases nodes with
  | nil => rfl
  | cons node nodes =>
      cases node with
      | assignment span target value => simp [signsAfter, h span target value rfl]
      | _ => simp [signsAfter]

end Node

namespace Grammar

/-- Tokens as the scanner makes them: written in full, and one after the
other. -/
structure Tidy (ts : List Token) : Prop where
  written : ∀ t ∈ ts, t.Written
  apart : ts.Pairwise fun t u => t.span.stop ≤ u.span.start

namespace Tidy

variable {ts us : List Token} {t : Token}

theorem sublist (h : Tidy us) (hsub : ts.Sublist us) : Tidy ts :=
  ⟨fun t ht => h.written t (hsub.subset ht), h.apart.sublist hsub⟩

theorem left (h : Tidy (ts ++ us)) : Tidy ts := h.sublist (List.sublist_append_left ..)

theorem right (h : Tidy (ts ++ us)) : Tidy us := h.sublist (List.sublist_append_right ..)

theorem head (h : Tidy (t :: ts)) : t.Written := h.written t List.mem_cons_self

theorem tail (h : Tidy (t :: ts)) : Tidy ts := h.sublist (List.sublist_cons_self ..)

theorem inOrder (h : Tidy ts) : InOrder ts := by
  refine h.apart.imp_of_mem fun {t u} ht hu hbefore => ?_
  have hfirst := (h.written t ht).nonempty
  have hsecond := (h.written u hu).nonempty
  omega

/-- A node ends where its last token does. -/
theorem stop_of_holds (h : Tidy ts) {n : Node} (hn : Holds ts n) :
    ∃ t ∈ ts, n.span.stop = t.span.stop := by
  obtain ⟨us, hsub, hderives⟩ := hn
  have hne := hderives.tokens_ne_nil
  have hspan : n.span = extent us :=
    hderives.spansExtent rfl (h.sublist hsub.sublist).inOrder
  refine ⟨us.getLast hne, hsub.subset (List.getLast_mem hne), ?_⟩
  have hstop : endOfTokens us = (us.getLast hne).span.stop := by
    rw [← endOfTokens_concat us.dropLast, List.dropLast_concat_getLast]
  rw [hspan]
  exact hstop

end Tidy

/-- The name in a declaration is where the token of the name was. -/
theorem nameSpan?_declaration {var name : Token} (hbefore : var.span.stop ≤ name.span.start)
    (hwritten : name.Written) (hname : name.kind = .identifier) :
    (Node.declaration (var.span.union name.span) name.text).nameSpan? = some name.span := by
  have hlength := hwritten.name hname
  have hstop : max var.span.stop name.span.stop = name.span.stop := by omega
  have hstart : name.span.stop - name.text.utf8ByteSize = name.span.start := by omega
  rw [Node.nameSpan?, Span.union, hstop, hstart]

/-- A statement and what comes after it are shown one after the other: what
is assigned to next is not the name that was just declared. -/
theorem signsAfter_append_of_apart {ts rest next next' : List Token} {nodes more : List Node}
    (hstatement : Derives .statement ts next nodes) (hrest : Derives .body rest next' more)
    (htidy : Tidy (ts ++ rest)) :
    Node.signsAfter none (nodes ++ more)
      = Node.signsAfter none nodes ++ Node.signsAfter none more := by
  rw [Node.signsAfter_append]
  congr 1
  refine Node.signsAfter_of_ne fun span target value hhead hsame => ?_
  obtain ⟨node, hnode, hstop⟩ := Node.stop_of_lastNameSpan hsame
  obtain ⟨t, ht, hend⟩ := htidy.left.stop_of_holds (hstatement.holdsAll node hnode).self
  have hassignment := hrest.holdsAll _ (List.mem_of_mem_head? hhead)
  have htarget := (hassignment.child target List.mem_cons_self).self
  obtain ⟨u, hu, hend'⟩ := htidy.right.stop_of_holds htarget
  have hbefore : t.span.stop ≤ u.span.start := (List.pairwise_append.1 htidy.apart).2.2 t ht u hu
  have hnonempty := (htidy.right.written u hu).nonempty
  omega

-- ================================================================ arguments

/-- A statement starts with neither a line break nor a closing parenthesis. -/
theorem Derives.head_kind {ts next : List Token} {nodes : List Node}
    (h : Derives .statement ts next nodes) :
    ∃ t us, ts = t :: us ∧ t.kind ≠ .newLine ∧ t.kind ≠ .closeParen := by
  cases h with
  | blockStatement hblock =>
      cases hblock with
      | block hkind => exact ⟨_, _, rfl, by simp [hkind], by simp [hkind]⟩
  | reference hkind | number hkind | string hkind | boolean hkind | parenthesized hkind
  | declaration hkind | initializedDeclaration hkind | function hkind | bareReturn hkind
  | returnValue hkind => exact ⟨_, _, rfl, by simp [hkind], by simp [hkind]⟩

/-- Arguments are at their end right away if there are none. -/
theorem Derives.closesNext_arguments {ts next : List Token} {args : List Node}
    (h : Derives .arguments ts next args) (hnext : ∃ t us, next = t :: us ∧ t.kind = .closeParen) :
    closesNext (ts ++ next) = args.isEmpty := by
  cases h with
  | noArgument hbefore =>
      obtain ⟨t, us, rfl, ht⟩ := hnext
      rw [closesNext_append hbefore (by simp [ht]), ht]
      rfl
  | lastArgument hbefore harg hafter =>
      obtain ⟨t, us, rfl, hline, hclose⟩ := harg.head_kind
      rw [List.append_assoc, List.cons_append, List.cons_append, closesNext_append hbefore hline]
      exact beq_false_of_ne hclose
  | nextArgument hbefore harg hafter hcomma hrest =>
      obtain ⟨t, us, rfl, hline, hclose⟩ := harg.head_kind
      rw [List.append_assoc, List.cons_append, List.cons_append, closesNext_append hbefore hline]
      exact beq_false_of_ne hclose

-- ============================================================== all phrases

/-- The tokens bear the signs, one by one. -/
abbrev Bear (ts : List Token) (signs : List Sign) : Prop := List.Forall₂ Token.Bears ts signs

/-- The essential tokens of a phrase bear the signs of its nodes. The tail of
an expression goes on from the tokens of the left operand. -/
def Shown (ts next : List Token) (nodes : List Node) : Phrase → Prop
  | .tail left => ∀ before, Bear before left.signs →
      Bear (before ++ essential next ts) (Node.signsAfter none nodes)
  | .arguments => (∃ t us, next = t :: us ∧ t.kind = .closeParen) →
      Bear (essential next ts) (Node.argumentSigns nodes)
  | _ => Bear (essential next ts) (Node.signsAfter none nodes)

theorem Bear.append {ts us : List Token} {as bs : List Sign} (h : Bear ts as) (h' : Bear us bs) :
    Bear (ts ++ us) (as ++ bs) := List.rel_append h h'

theorem Bear.singleton {t : Token} {sign : Sign} (h : t.Bears sign) : Bear [t] [sign] :=
  .cons h .nil

/-- The signs of a phrase that makes one node are those of the node. -/
theorem Shown.bear {ts next : List Token} {node : Node} (h : Shown ts next [node] .statement) :
    Bear (essential next ts) node.signs := by
  rw [← Node.signsAfter_singleton]
  exact h

/-- Every phrase shows its essential tokens. -/
theorem Derives.shown {phrase : Phrase} {ts next : List Token} {nodes : List Node}
    (h : Derives phrase ts next nodes) (htidy : Tidy ts) : Shown ts next nodes phrase := by
  induction h with
  | noStatement hseps =>
      show Bear (essential _ _) _
      rw [essential_separators hseps]
      exact .nil
  | nextStatement hseps hstatement hrest ihstatement ihrest =>
      have htidy' := htidy.right
      show Bear (essential _ _) _
      rw [essential_append, essential_separators hseps, List.nil_append, essential_append,
        signsAfter_append_of_apart hstatement hrest htidy']
      exact Bear.append (ihstatement htidy'.left) (ihrest htidy'.right)
  | @block opening body closing next nodes hopening hbody hclosing ih =>
      have hinner := ih htidy.tail.left
      have hopen := htidy.head.bears hopening rfl
      have hclose := htidy.tail.right.head.bears hclosing rfl
      show Bear (essential next (opening :: (body ++ [closing]))) _
      rw [essential_cons hopening rfl, essential_append, essential_cons hclosing rfl,
        Node.signsAfter_singleton, Node.signs]
      exact .cons hopen (Bear.append hinner (.singleton hclose))
  | @reference t ts next nodes ht htail ih =>
      show Bear (essential next (t :: ts)) _
      rw [essential_cons ht rfl]
      exact ih htidy.tail [t] (.singleton ⟨ht, rfl⟩)
  | @number t ts next nodes value ht hvalue htail ih =>
      show Bear (essential next (t :: ts)) _
      rw [essential_cons ht rfl]
      exact ih htidy.tail [t] (.singleton ⟨ht, hvalue⟩)
  | @string t ts next nodes ht htail ih =>
      show Bear (essential next (t :: ts)) _
      rw [essential_cons ht rfl]
      exact ih htidy.tail [t] (.singleton ⟨ht, rfl⟩)
  | @boolean t next ht =>
      show Bear (essential next [t]) _
      rw [essential_cons ht rfl, Node.signsAfter_singleton, Node.signs]
      exact .singleton ⟨ht, htidy.head.showBool_eq ht⟩
  | @parenthesized opening before ts after closing rest next inner nodes hopening hbefore hinner
      hafter hclosing htail ihinner ih =>
      have hts := htidy.tail.right
      have hopen := htidy.head.bears hopening rfl
      have hclose := hts.right.right.head.bears hclosing rfl
      have hleft := ih hts.right.right.tail (opening :: (essential _ ts ++ [closing]))
        (.cons hopen ((ihinner hts.left).bear.append (.singleton hclose)))
      show Bear (essential next (opening :: (before ++ (ts ++ (after ++ closing :: rest))))) _
      rw [essential_cons hopening rfl, essential_append, essential_newLines hbefore,
        essential_append, essential_append, essential_newLines hafter, essential_cons hclosing rfl]
      simpa using hleft
  | blockStatement _ ih => exact ih htidy
  | @declaration var name next hvar hname hnext =>
      have hword := htidy.head.bears hvar rfl
      show Bear (essential next [var, name]) _
      rw [essential_cons hvar rfl, essential_cons hname rfl, Node.signsAfter_singleton, Node.signs]
      exact .cons hword (Bear.singleton ⟨hname, rfl⟩)
  | @initializedDeclaration var name equals ts next value hvar hname hequals hvalue ih =>
      have hword := htidy.head.bears hvar rfl
      have hsign := htidy.tail.tail.head.bears hequals rfl
      have hvalue' := (ih htidy.tail.tail.tail).bear
      have hbefore : var.span.stop ≤ name.span.start :=
        (List.pairwise_cons.1 htidy.apart).1 name List.mem_cons_self
      have hspan := nameSpan?_declaration hbefore htidy.tail.head hname
      show Bear (essential next (var :: name :: equals :: ts)) _
      rw [essential_cons hvar rfl, essential_cons hname rfl, essential_cons hequals rfl]
      simp only [Node.signsAfter, hspan, Node.span, if_pos, Node.signs, List.append_nil,
        List.nil_append]
      exact .cons hword (.cons ⟨hname, rfl⟩ (.cons hsign hvalue'))
  | @function header name before ts next body hheader hname hbefore hbody ih =>
      have hbody' := Shown.bear (ih htidy.tail.right)
      show Bear (essential next (header :: (before ++ ts))) _
      rw [essential_cons hheader rfl, essential_append, essential_newLines hbefore,
        Node.signsAfter_singleton, Node.signs]
      exact .cons ⟨hheader, ⟨name, hname, rfl⟩, rfl⟩ hbody'
  | @bareReturn t next ht hnext =>
      show Bear (essential next [t]) _
      rw [essential_cons ht rfl, Node.signsAfter_singleton, Node.signs]
      exact .singleton (htidy.head.bears ht rfl)
  | @returnValue t ts next value ht hvalue ih =>
      show Bear (essential next (t :: ts)) _
      rw [essential_cons ht rfl, Node.signsAfter_singleton, Node.signs]
      exact .cons (htidy.head.bears ht rfl) (ih htidy.tail).bear
  | stop =>
      intro before hbefore
      rw [Node.signsAfter_singleton, essential, List.append_nil]
      exact hbefore
  | @assignment left equals ts next value hequals hvalue ih =>
      intro before hbefore
      rw [essential_cons hequals rfl, Node.signsAfter_singleton, Node.signs]
      exact hbefore.append (.cons (htidy.head.bears hequals rfl) (ih htidy.tail).bear)
  | @binary left t operator ts next right ht hoperator hright ih =>
      intro before hbefore
      rw [essential_cons ht rfl, Node.signsAfter_singleton, Node.signs]
      refine hbefore.append (.cons ⟨ht, ?_⟩ (ih htidy.tail).bear)
      exact Operator.symbol_of_ofSymbol? hoperator
  | @call left opening ts closing rest next args nodes hopening hargs hclosing htail ihargs ih =>
      intro before hbefore
      have hts := htidy.tail
      have hopen := htidy.head.bears hopening rfl
      have hclose := hts.right.head.bears hclosing rfl
      have hargs' := ihargs hts.left ⟨closing, _, rfl, hclosing⟩
      have hleft := ih hts.right.tail (before ++ opening :: (essential _ ts ++ [closing]))
        (hbefore.append (.cons hopen (Bear.append hargs' (.singleton hclose))))
      rw [essential_cons hopening rfl, essential_append, essential_cons hclosing rfl]
      simpa using hleft
  | @property left dot name rest next nodes hdot hname htail ih =>
      intro before hbefore
      have hleft := ih htidy.tail.tail (before ++ [dot, name])
        (hbefore.append (.cons (htidy.head.bears hdot rfl) (Bear.singleton ⟨hname, rfl⟩)))
      rw [essential_cons hdot rfl, essential_cons hname rfl]
      simpa using hleft
  | noArgument hbefore =>
      intro _
      rw [essential_newLines hbefore]
      exact .nil
  | @lastArgument before ts after next arg hbefore harg hafter ih =>
      intro _
      rw [essential_append, essential_newLines hbefore, essential_append,
        essential_newLines hafter]
      simpa [Node.argumentSigns] using (ih htidy.right.left).bear
  | @nextArgument before ts after comma rest next arg args hbefore harg hafter hcomma hrest iharg
      ihrest =>
      intro hnext
      have hts := htidy.right
      have harg' := (iharg hts.left).bear
      have hrest' := ihrest hts.right.right.tail hnext
      have hsign := hts.right.right.head.bears hcomma rfl
      rw [essential_append, essential_newLines hbefore, essential_append, essential_append,
        essential_newLines hafter, essential_comma hcomma, hrest.closesNext_arguments hnext,
        Node.argumentSigns]
      cases args with
      | nil => simpa using harg'.append hrest'
      | cons second args => simpa using harg'.append (Bear.append (.singleton hsign) hrest')

end Grammar

/-- The builder neither loses nor repeats nor reorders tokens. Read from left
to right, the tree of a program shows its tokens one by one, all but the
separators and the commas before a closing parenthesis. -/
theorem the_tree_shows_every_token {source : String} {tokens : List Token} {root : Node}
    (hscan : scan source = .ok tokens) (hbuild : build tokens = .ok root) :
    List.Forall₂ Token.Bears (essential [] tokens) root.signs := by
  obtain ⟨body, hbody, rfl⟩ := isTreeOf_of_build hbuild
  exact hbody.shown ⟨written_of_scan hscan, (tiles_of_scan hscan).pairwise⟩

/-- A declaration with a value, an argument with a comma and a line break
after it, and an assignment that merely follows a declaration. -/
theorem the_tree_shows_every_token_initialized :
    let source := "var x = f(a,\n)\nvar y\ny = b;"
    ∃ tokens root, scan source = .ok tokens ∧ build tokens = .ok root
      ∧ tokens.length = 17
      ∧ (essential [] tokens).map (·.text)
          = ["var", "x", "=", "f", "(", "a", ")", "var", "y", "y", "=", "b"]
      ∧ root.children.map (·.kind) = [.declaration, .assignment, .declaration, .assignment]
      ∧ List.Forall₂ Token.Bears (essential [] tokens) root.signs := by
  intro source
  have htokens : (scan source).toOption.map (fun tokens =>
      (tokens.length, (essential [] tokens).map (·.text))) = some (17,
        ["var", "x", "=", "f", "(", "a", ")", "var", "y", "y", "=", "b"]) := by decide +kernel
  have hkinds : (parse source).toOption.map (fun root => root.children.map (·.kind))
      = some [.declaration, .assignment, .declaration, .assignment] := by decide +kernel
  cases hscan : scan source with
  | error e =>
      rw [hscan] at htokens
      cases htokens
  | ok tokens =>
      rw [hscan] at htokens
      rw [parse_of_scan hscan] at hkinds
      obtain ⟨hlength, htexts⟩ := Prod.mk.inj (Option.some.inj htokens)
      cases hbuild : build tokens with
      | error e =>
          rw [hbuild] at hkinds
          cases hkinds
      | ok root =>
          rw [hbuild] at hkinds
          exact ⟨tokens, root, rfl, hbuild, hlength, htexts, Option.some.inj hkinds,
            the_tree_shows_every_token hscan hbuild⟩

end ScopedScript
