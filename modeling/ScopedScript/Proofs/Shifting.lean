/-
Building does not know where it is.

Tokens carry spans, and the nodes and errors made of them carry spans that
are put together from these. Nothing else of a tree depends on spans, so
tokens that are moved to the right give the tree and the error of the
tokens as they were, moved to the right.

The lemmas follow the definitions of the builder: `Reply.Moved` relates a
reply to that of the moved tokens, each combinator keeps it, and so does
each construct if reading inside of it does. The one place that would give
an error at a fixed span is an operand of no nodes, and there is none:
what is read is never nothing.
-/
import ScopedScript.Proofs.Scanning
import ScopedScript.Proofs.Building

namespace ScopedScript

-- =================================================================== trees

/-- The parameter, further to the right. -/
def Parameter.shift (k : Nat) (p : Parameter) : Parameter := { p with span := p.span.shift k }

mutual

/-- The tree, further to the right. -/
def Node.shift (k : Nat) : Node → Node
  | .root span body => .root (span.shift k) (Node.shiftAll k body)
  | .block span body => .block (span.shift k) (Node.shiftAll k body)
  | .declaration span name => .declaration (span.shift k) name
  | .assignment span target value =>
      .assignment (span.shift k) (target.shift k) (value.shift k)
  | .reference span name => .reference (span.shift k) name
  | .number span value => .number (span.shift k) value
  | .string span value => .string (span.shift k) value
  | .boolean span value => .boolean (span.shift k) value
  | .binary span operator left right =>
      .binary (span.shift k) operator (left.shift k) (right.shift k)
  | .parenthesized span inner => .parenthesized (span.shift k) (inner.shift k)
  | .readProperty span object property =>
      .readProperty (span.shift k) (object.shift k) property
  | .call span callee arguments =>
      .call (span.shift k) (callee.shift k) (Node.shiftAll k arguments)
  | .function span name parameters body =>
      .function (span.shift k) name (parameters.map (·.shift k)) (body.shift k)
  | .ret span none => .ret (span.shift k) none
  | .ret span (some value) => .ret (span.shift k) (some (value.shift k))

/-- The trees, further to the right. -/
def Node.shiftAll (k : Nat) : List Node → List Node
  | [] => []
  | node :: rest => node.shift k :: Node.shiftAll k rest

end

theorem Node.shiftAll_eq_map (k : Nat) (nodes : List Node) :
    Node.shiftAll k nodes = nodes.map (·.shift k) := by
  induction nodes with
  | nil => rfl
  | cons node rest ih => rw [Node.shiftAll, ih, List.map_cons]

@[simp] theorem Node.span_shift (k : Nat) (node : Node) :
    (node.shift k).span = node.span.shift k := by
  cases node with
  | ret span value => cases value <;> rfl
  | _ => rfl

@[simp] theorem Node.kind_shift (k : Nat) (node : Node) : (node.shift k).kind = node.kind := by
  cases node with
  | ret span value => cases value <;> rfl
  | _ => rfl

/-- Whether a node may be called does not depend on where it is. -/
@[simp] theorem Callee.ofNode_shift (k : Nat) (node : Node) :
    Callee.ofNode (node.shift k) = Callee.ofNode node := by
  cases node with
  | ret span value => cases value <;> rfl
  | _ => rfl

@[simp] theorem Span.union_shift (k : Nat) (a b : Span) :
    (a.shift k).union (b.shift k) = (a.union b).shift k := by
  simp only [Span.union, Span.shift, Nat.add_min_add_right, Nat.add_max_add_right]

namespace Build

-- ================================================================= replies

/-- What is read from tokens is what is read from them further to the
right; `f` moves what was found. -/
inductive Reply.Moved {m n : Nat} {α β : Type} (k : Nat) (f : α → β) : Reply m α → Reply n β → Prop
  | ok {a rest shorter shorter'} :
      Moved k f (.ok a rest shorter) (.ok (f a) (rest.map (·.shift k)) shorter')
  | fail {e rest noLonger noLonger'} :
      Moved k f (.fail e rest noLonger) (.fail (e.shift k) (rest.map (·.shift k)) noLonger')

namespace Reply.Moved

variable {m m' n n' k : Nat} {α α' β β' : Type} {f : α → α'} {g : β → β'} {r : Reply m α}
  {r' : Reply m' α'}

/-- Bounds on the number of tokens left over play no role. -/
theorem widen (h : m ≤ n) (h' : m' ≤ n') (hr : Moved k f r r') :
    Moved k f (r.widen h) (r'.widen h') := by
  cases hr with
  | ok => exact .ok
  | fail => exact .fail

/-- A context takes over the span of the error, moved or not. -/
theorem within (context : Context) (hr : Moved k f r r') :
    Moved k f (r.within context) (r'.within context) := by
  cases hr with
  | ok => exact .ok
  | @fail e rest noLonger noLonger' =>
      show Moved k f (.fail (e.within context) rest noLonger)
        (.fail ((e.shift k).within context) (rest.map (·.shift k)) noLonger')
      rw [← Error.shift_within]
      exact .fail

/-- Reading on after a moved reply, whose rest is moved as well. -/
theorem andThen {h : m ≤ n} {h' : m' ≤ n'}
    {next : α → (rest : List Token) → rest.length < m → Reply n β}
    {next' : α' → (rest : List Token) → rest.length < m' → Reply n' β'} (hr : Moved k f r r')
    (hnext : ∀ a rest shorter shorter', r.Yields a rest →
      Moved k g (next a rest shorter) (next' (f a) (rest.map (·.shift k)) shorter')) :
    Moved k g (r.andThen h next) (r'.andThen h' next') := by
  cases hr with
  | @ok a rest shorter shorter' => exact hnext a rest shorter shorter' ⟨shorter, rfl⟩
  | fail => exact .fail

/-- The second reply may be taken apart before the first one. -/
theorem of_eq (h : ∀ r'', r' = r'' → Moved k f r r'') : Moved k f r r' := h r' rfl

end Reply.Moved

open Reply Grammar

-- ========================================================== tokens at hand

section Parts

variable {k stop n n' : Nat} {ts : List Token}

/-- Which tokens are skipped depends on their kinds alone. -/
theorem skipNewLines_shift (k : Nat) (ts : List Token) :
    skipNewLines (ts.map (·.shift k)) = (skipNewLines ts).map (·.shift k) :=
  List.dropWhile_map ..

theorem skipSeparators_shift (k : Nat) (ts : List Token) :
    skipSeparators (ts.map (·.shift k)) = (skipSeparators ts).map (·.shift k) :=
  List.dropWhile_map ..

/-- Whether an expression goes on does not depend on where the next token is. -/
theorem continues_shift (k : Nat) (ts : List Token) :
    continues (ts.map (·.shift k)) = continues ts := by
  cases ts <;> rfl

/-- A token that is required but missing is reported where the tokens end,
which has moved with them. -/
theorem require_moved (required : Required) (stop : Nat) {ts' : List Token}
    (hts : ts' = ts.map (·.shift k)) :
    Moved k (·.shift k) (require required stop ts) (require required (stop + k) ts') := by
  subst hts
  cases ts with
  | nil => exact .fail
  | cons t rest =>
      show Moved k _ (if t.kind = required.kind then _ else _)
        (if t.kind = required.kind then _ else _)
      by_cases hkind : t.kind = required.kind
      · rw [if_pos hkind, if_pos hkind]
        exact .ok
      · rw [if_neg hkind, if_neg hkind]
        exact .fail

/-- What is read is never nothing. -/
theorem ne_nil_of_derives {phrase : Phrase} {us next : List Token} {nodes : List Node}
    (h : Derives phrase us next nodes) :
    (phrase = .statement ∨ phrase = .block ∨ ∃ left, phrase = .tail left) → nodes ≠ [] := by
  induction h with
  | noStatement | nextStatement | noArgument | lastArgument | nextArgument => simp
  | _ => simp_all

/-- What is read is never nothing. -/
theorem ne_nil_of_yields {left : Option Node} {nodes : List Node} {rest : List Token}
    (h : (process stop ts left).Yields nodes rest) : nodes ≠ [] := by
  obtain ⟨us, -, hderives⟩ := sound stop (ts.length + 1) (Nat.lt_succ_self _) h
  refine ne_nil_of_derives hderives ?_
  cases left with
  | none => exact .inl rfl
  | some left => exact .inr (.inr ⟨left, rfl⟩)

/-- If there is more than one node the error covers the first two. If there
were none it would be at the start of the text, wherever the tokens are. -/
theorem single_shift (k : Nat) (place : Operand) {nodes : List Node} (h : nodes ≠ []) :
    single place (nodes.map (·.shift k)) = moved k (·.shift k) (single place nodes) := by
  match nodes with
  | [] => exact absurd rfl h
  | [node] => rfl
  | first :: second :: rest =>
      simp [single, moved, Error.shift, syntaxError]

/-- Reading inside of fewer than `n` tokens does not depend on where they
are. -/
def Movable (k stop n : Nat) : Prop :=
  ∀ (ts : List Token) (left : Option Node), ts.length < n →
    Moved k (List.map (·.shift k)) (process stop ts left)
      (process (stop + k) (ts.map (·.shift k)) (left.map (·.shift k)))

/-- Reading that may be moved on many tokens may be moved on fewer. -/
theorem Movable.mono {m : Nat} (h : Movable k stop n) (hle : m ≤ n) : Movable k stop m :=
  fun ts left hlen => h ts left (Nat.lt_of_lt_of_le hlen hle)

variable (hread : Movable k stop n) {h : ts.length < n}

include hread

/-- An operand is read by one reading, which is never of no nodes. -/
theorem operand_moved (place : Operand) {ts' : List Token} (hts : ts' = ts.map (·.shift k))
    {h' : ts'.length < n'} :
    Moved k (·.shift k) (operand (reader stop) place ts h)
      (operand (reader (stop + k)) place ts' h') := by
  subst hts
  refine (hread ts none h).andThen fun nodes rest shorter shorter' hyields => ?_
  rw [single_shift k place (ne_nil_of_yields hyields)]
  cases single place nodes with
  | ok node => exact .ok
  | error e => exact .fail

/-- What is read goes on or not, and goes on with itself, moved, at its left. -/
theorem chain_moved (node : Node) {h' : (ts.map (·.shift k)).length < n'} :
    Moved k (List.map (·.shift k)) (chain (reader stop) node ts h)
      (chain (reader (stop + k)) (node.shift k) (ts.map (·.shift k)) h') := by
  unfold chain
  rw [continues_shift]
  cases continues ts with
  | true => exact (hread ts (some node) h).widen (Nat.le_of_lt h) (Nat.le_of_lt h')
  | false => exact .ok

end Parts

-- =================================================================== loops

section Loops

variable {k stop n n' : Nat} (hread : Movable k stop n)

include hread

/-- What a loop yields, further to the right: its nodes, and the span of the
token that closes it. -/
theorem arguments_moved (opening : Span) (done : List Node) (ts : List Token) {h : ts.length < n}
    {h' : (ts.map (·.shift k)).length < n'} :
    Moved k (Prod.map (List.map (·.shift k)) (·.shift k))
      (arguments (reader stop) opening done ts h)
      (arguments (reader (stop + k)) (opening.shift k) (done.map (·.shift k))
        (ts.map (·.shift k)) h') := by
  induction hn : ts.length using Nat.strongRecOn generalizing ts done with
  | ind m ih =>
      have hskip := skipNewLines_shift k ts
      have hlen := length_skipNewLines_le ts
      refine .of_eq fun r hr => ?_
      rw [arguments] at hr ⊢
      split at hr
      · next hts' =>
        split
        · subst hr
          exact .fail
        · next hts =>
          rw [hskip, hts] at hts'
          cases hts'
      · next t' rest' hts' =>
        split
        · next hts =>
          rw [hskip, hts] at hts'
          cases hts'
        · next t rest hts =>
          rw [hskip, hts] at hts'
          cases hts'
          subst hr
          rw [hts] at hlen
          show Moved k _ (if t.kind = .closeParen then _ else _)
            (if t.kind = .closeParen then _ else _)
          by_cases hclose : t.kind = .closeParen
          · rw [if_pos hclose, if_pos hclose, ← List.map_reverse]
            exact .ok
          · rw [if_neg hclose, if_neg hclose, List.length_map]
            have hrest : (t :: rest).length < n := Nat.lt_of_le_of_lt hlen h
            refine ((operand_moved hread .argument rfl).within _).andThen
              fun argument after shorter shorter' _ => ?_
            have hskip' := skipNewLines_shift k after
            have hlen' := length_skipNewLines_le after
            refine .of_eq fun r hr => ?_
            split at hr
            · next hnext' =>
              split
              · subst hr
                exact .fail
              · next hnext =>
                rw [hskip', hnext] at hnext'
                cases hnext'
            · next next' left' hnext' =>
              split
              · next hnext =>
                rw [hskip', hnext] at hnext'
                cases hnext'
              · next next left hnext =>
                rw [hskip', hnext] at hnext'
                cases hnext'
                subst hr
                rw [hnext] at hlen'
                show Moved k _
                  (if next.kind = .comma then _ else if next.kind = .closeParen then _ else _)
                  (if next.kind = .comma then _ else if next.kind = .closeParen then _ else _)
                by_cases hcomma : next.kind = .comma
                · rw [if_pos hcomma, if_pos hcomma]
                  refine ih left.length ?_ (argument :: done) left rfl
                  simp only [List.length_cons] at *
                  omega
                · rw [if_neg hcomma, if_neg hcomma]
                  by_cases hend : next.kind = .closeParen
                  · rw [if_pos hend, if_pos hend, ← List.map_cons, ← List.map_reverse]
                    exact .ok
                  · rw [if_neg hend, if_neg hend]
                    exact .fail

/-- The same for statements. The induction is on the tokens left. -/
theorem statements_moved (opening : Span) (done : List Node) (ts : List Token) {h : ts.length < n}
    {h' : (ts.map (·.shift k)).length < n'} :
    Moved k (Prod.map (List.map (·.shift k)) (·.shift k))
      (statements (reader stop) opening done ts h)
      (statements (reader (stop + k)) (opening.shift k) (done.map (·.shift k))
        (ts.map (·.shift k)) h') := by
  induction hn : ts.length using Nat.strongRecOn generalizing ts done with
  | ind m ih =>
      have hskip := skipSeparators_shift k ts
      have hlen := length_skipSeparators_le ts
      refine .of_eq fun r hr => ?_
      rw [statements] at hr ⊢
      split at hr
      · next hts' =>
        split
        · subst hr
          exact .fail
        · next hts =>
          rw [hskip, hts] at hts'
          cases hts'
      · next t' rest' hts' =>
        split
        · next hts =>
          rw [hskip, hts] at hts'
          cases hts'
        · next t rest hts =>
          rw [hskip, hts] at hts'
          cases hts'
          subst hr
          rw [hts] at hlen
          show Moved k _ (if t.kind = .closeBlock then _ else _)
            (if t.kind = .closeBlock then _ else _)
          by_cases hclose : t.kind = .closeBlock
          · rw [if_pos hclose, if_pos hclose, ← List.map_reverse]
            exact .ok
          · rw [if_neg hclose, if_neg hclose]
            have hrest : (t :: rest).length < n := Nat.lt_of_le_of_lt hlen h
            refine ((hread (t :: rest) none hrest).within .block).andThen
              fun nodes after shorter shorter' _ => ?_
            dsimp only
            have hmore : (nodes.map (·.shift k)).reverse ++ done.map (·.shift k)
                = (nodes.reverse ++ done).map (·.shift k) := by
              rw [List.map_append, List.map_reverse]
            simp only [hmore]
            refine ih after.length ?_ (nodes.reverse ++ done) after rfl
            simp only [List.length_cons] at *
            omega

end Loops

-- ============================================================== constructs

section Constructs

variable {k stop n n' : Nat} {token : Token} {rest : List Token} {left : Option Node}

/-- A construct that must stand alone and does not is reported at its own
token, which has moved. -/
theorem alone_moved {α β : Type} {f : α → β} {h : rest.length < n}
    {h' : (rest.map (·.shift k)).length < n'} {next : Reply n α} {next' : Reply n' β}
    (hnext : Moved k f next next') :
    Moved k f (alone left token rest h next)
      (alone (left.map (·.shift k)) (token.shift k) (rest.map (·.shift k)) h' next') := by
  cases left with
  | none => exact hnext
  | some node =>
      simp only [alone, Option.map_some, Node.kind_shift]
      exact .fail

/-- A construct that needs something at its left, and has it moved. -/
theorem joined_moved {α β : Type} {f : α → β} {h : rest.length < n}
    {h' : (rest.map (·.shift k)).length < n'} {next : Node → Reply n α} {next' : Node → Reply n' β}
    (hnext : ∀ node, Moved k f (next node) (next' (node.shift k))) :
    Moved k f (joined left token rest h next)
      (joined (left.map (·.shift k)) (token.shift k) (rest.map (·.shift k)) h' next') := by
  cases left with
  | none => exact .fail
  | some node => exact hnext node

variable (hread : Movable k stop (rest.length + 1))

include hread

theorem reference_moved :
    Moved k (List.map (·.shift k)) (reference token rest (reader stop) left)
      (reference (token.shift k) (rest.map (·.shift k)) (reader (stop + k))
        (left.map (·.shift k))) :=
  alone_moved (chain_moved hread (.reference token.span token.text))

/-- The value of a number is read off the text of its token. -/
theorem number_moved :
    Moved k (List.map (·.shift k)) (number token rest (reader stop) left)
      (number (token.shift k) (rest.map (·.shift k)) (reader (stop + k))
        (left.map (·.shift k))) := by
  refine alone_moved ?_
  rw [Token.text_shift]
  cases Number.read? token.text with
  | none => exact .fail
  | some value => exact chain_moved hread (.number token.span value)

theorem string_moved :
    Moved k (List.map (·.shift k)) (string token rest (reader stop) left)
      (string (token.shift k) (rest.map (·.shift k)) (reader (stop + k))
        (left.map (·.shift k))) :=
  alone_moved (chain_moved hread (.string token.span token.text))

omit hread in
/-- A boolean ends where its token ends: nothing goes on from it. -/
theorem boolean_moved :
    Moved k (List.map (·.shift k)) (boolean token rest left)
      (boolean (token.shift k) (rest.map (·.shift k)) (left.map (·.shift k))) :=
  alone_moved .ok

/-- The span from the target to the value moves with both. -/
theorem assignment_moved :
    Moved k (List.map (·.shift k)) (assignment token rest (reader stop) left)
      (assignment (token.shift k) (rest.map (·.shift k)) (reader (stop + k))
        (left.map (·.shift k))) := by
  refine joined_moved fun target => ?_
  refine ((operand_moved hread .value rfl).within .assignedValue).andThen
    fun value after shorter shorter' _ => ?_
  simp only [Node.span_shift, Span.union_shift]
  exact .ok

theorem binary_moved :
    Moved k (List.map (·.shift k)) (binary token rest (reader stop) left)
      (binary (token.shift k) (rest.map (·.shift k)) (reader (stop + k))
        (left.map (·.shift k))) := by
  refine joined_moved fun first => ?_
  rw [Token.text_shift]
  cases Operator.ofSymbol? token.text with
  | none => exact .fail
  | some operator =>
      refine ((operand_moved hread .operand rfl).within (.rightOperand operator)).andThen
        fun second after shorter shorter' _ => ?_
      simp only [Node.span_shift, Span.union_shift]
      exact .ok

/-- The span of a call ends with its closing parenthesis, which moves. -/
theorem call_moved (callee : Node) :
    Moved k (List.map (·.shift k)) (call token rest (reader stop) callee)
      (call (token.shift k) (rest.map (·.shift k)) (reader (stop + k)) (callee.shift k)) := by
  unfold call
  rw [Callee.ofNode_shift]
  refine ((arguments_moved hread token.span [] rest).within _).andThen
    fun (args, closing) after shorter shorter' _ => ?_
  have hnode : Node.call ((callee.shift k).span.union (closing.shift k)) (callee.shift k)
      (args.map (·.shift k)) = (Node.call (callee.span.union closing) callee args).shift k := by
    rw [Node.shift, Node.shiftAll_eq_map, Node.span_shift, Span.union_shift]
  show Moved k _ _ (chain _ (.call ((callee.shift k).span.union (closing.shift k)) (callee.shift k)
    (args.map (·.shift k))) _ _)
  rw [hnode]
  exact chain_moved hread _

theorem parenthesized_moved :
    Moved k (List.map (·.shift k)) (parenthesized stop token rest (reader stop))
      (parenthesized (stop + k) (token.shift k) (rest.map (·.shift k)) (reader (stop + k))) := by
  have hlen := length_skipNewLines_le rest
  unfold parenthesized
  refine ((operand_moved hread .expression (skipNewLines_shift k rest)).within
    .parentheses).andThen fun inner after shorter shorter' _ => ?_
  refine ((require_moved .closeParen stop (skipNewLines_shift k after)).within
    .parentheses).andThen fun closing last shorter shorter' _ => ?_
  have hnode : Node.parenthesized ((token.shift k).span.union (closing.shift k).span)
      (inner.shift k) = (Node.parenthesized (token.span.union closing.span) inner).shift k := by
    rw [Node.shift, ← Span.union_shift]
    rfl
  rw [hnode]
  exact chain_moved hread _

/-- Whether a parenthesis calls depends on what stands at its left. -/
theorem openParen_moved :
    Moved k (List.map (·.shift k)) (openParen stop token rest (reader stop) left)
      (openParen (stop + k) (token.shift k) (rest.map (·.shift k)) (reader (stop + k))
        (left.map (·.shift k))) := by
  cases left with
  | none => exact parenthesized_moved hread
  | some callee => exact call_moved hread callee

theorem readProperty_moved :
    Moved k (List.map (·.shift k)) (readProperty stop token rest (reader stop) left)
      (readProperty (stop + k) (token.shift k) (rest.map (·.shift k)) (reader (stop + k))
        (left.map (·.shift k))) := by
  refine joined_moved fun object => ?_
  refine (require_moved .propertyName stop rfl).andThen fun property after shorter shorter' _ => ?_
  have hnode : Node.readProperty ((object.shift k).span.union (property.shift k).span)
      (object.shift k) (property.shift k).text
        = (Node.readProperty (object.span.union property.span) object property.text).shift k := by
    rw [Node.shift, ← Span.union_shift, Node.span_shift]
    rfl
  rw [hnode]
  exact chain_moved hread _

theorem block_moved :
    Moved k (List.map (·.shift k)) (block token rest (reader stop) left)
      (block (token.shift k) (rest.map (·.shift k)) (reader (stop + k))
        (left.map (·.shift k))) := by
  refine alone_moved ?_
  refine (statements_moved hread token.span [] rest).andThen
    fun (body, closing) after shorter shorter' _ => ?_
  have hnode : Node.block ((token.shift k).span.union (closing.shift k)) (body.map (·.shift k))
      = (Node.block (token.span.union closing) body).shift k := by
    rw [Node.shift, Node.shiftAll_eq_map, ← Span.union_shift]
    rfl
  show Moved k _ _ (.ok [Node.block ((token.shift k).span.union (closing.shift k))
    (body.map (·.shift k))] _ _)
  rw [hnode]
  exact .ok

/-- A declaration without a value is one node and one with a value is two;
which of the two it is depends on the kind of the next token. -/
theorem variableDeclaration_moved :
    Moved k (List.map (·.shift k)) (variableDeclaration stop token rest (reader stop) left)
      (variableDeclaration (stop + k) (token.shift k) (rest.map (·.shift k)) (reader (stop + k))
        (left.map (·.shift k))) := by
  refine alone_moved ?_
  refine (require_moved .variableName stop rfl).andThen fun name after shorter shorter' _ => ?_
  have hnode : Node.declaration ((token.shift k).span.union (name.shift k).span) (name.shift k).text
      = (Node.declaration (token.span.union name.span) name.text).shift k := by
    rw [Node.shift, ← Span.union_shift]
    rfl
  simp only [hnode]
  cases after with
  | nil => exact .ok
  | cons equals value =>
      show Moved k _ (if equals.kind = .assign then _ else _)
        (if equals.kind = .assign then _ else _)
      by_cases hequals : equals.kind = .assign
      · rw [if_pos hequals, if_pos hequals]
        have hvalue : Movable k stop (value.length + 1) := by
          refine hread.mono ?_
          simp only [List.length_cons] at shorter
          omega
        refine ((assignment_moved hvalue).within (.declarationOf name.text)).andThen
          fun nodes last shorter shorter' _ => ?_
        exact .ok
      · rw [if_neg hequals, if_neg hequals]
        exact .ok

omit hread in
/-- What is no body is refused where it is, which has moved. -/
theorem functionBody_shift (name : String) {nodes : List Node} (h : nodes ≠ []) :
    functionBody name (nodes.map (·.shift k)) = moved k (·.shift k) (functionBody name nodes) := by
  unfold functionBody
  rw [single_shift k .functionBody h]
  cases single .functionBody nodes with
  | error e => rfl
  | ok node =>
      cases node with
      | ret span value => cases value <;> rfl
      | _ => rfl

omit hread in
/-- Attributes move with the token of the header. -/
theorem attribute?_shift (key : Token.Key) :
    (token.shift k).attribute? key = (token.attribute? key).map (·.shift k) := by
  unfold Token.attribute?
  exact List.find?_map ..

omit hread in
/-- So do the parameters that are made of them. -/
theorem parameters_shift :
    ((token.shift k).attributesOf .parameter).map (fun a => Parameter.mk a.value a.span)
      = ((token.attributesOf .parameter).map fun a => Parameter.mk a.value a.span).map
          (·.shift k) := by
  unfold Token.attributesOf
  show ((token.attributes.map (·.shift k)).filter _).map _ = _
  rw [List.filter_map, List.map_map, List.map_map]
  rfl

/-- The definition covers its header and its body. -/
theorem function_moved :
    Moved k (List.map (·.shift k)) (function stop token rest (reader stop) left)
      (function (stop + k) (token.shift k) (rest.map (·.shift k)) (reader (stop + k))
        (left.map (·.shift k))) := by
  refine alone_moved ?_
  rw [attribute?_shift, parameters_shift]
  cases token.attribute? .name with
  | none => exact .fail
  | some declared =>
      obtain ⟨key, name, span⟩ := declared
      have hskip := skipNewLines_shift k rest
      have hlen := length_skipNewLines_le rest
      refine .of_eq fun r hr => ?_
      dsimp only [Option.map_some, Token.Attribute.shift] at hr ⊢
      split at hr
      · next hts' =>
        split
        · subst hr
          exact .fail
        · next hts =>
          rw [hskip, hts] at hts'
          cases hts'
      · next brace' inner' hts' =>
        split
        · next hts =>
          rw [hskip, hts] at hts'
          cases hts'
        · next brace inner hts =>
          rw [hskip, hts] at hts'
          cases hts'
          subst hr
          rw [hts] at hlen
          show Moved k _ (if brace.kind = .openBlock then _ else _)
            (if brace.kind = .openBlock then _ else _)
          by_cases hopen : brace.kind = .openBlock
          · rw [if_pos hopen, if_pos hopen]
            refine ((hread (brace :: inner) none (Nat.lt_succ_of_le hlen)).within
              (.function name)).andThen fun nodes after shorter shorter' hyields => ?_
            rw [functionBody_shift name (ne_nil_of_yields (yields_within.1 hyields))]
            cases functionBody name nodes with
            | error e => exact .fail
            | ok body =>
                simp only [moved, Node.span_shift]
                rw [Token.span_shift, Span.union_shift]
                exact .ok
          · rw [if_neg hopen, if_neg hopen]
            exact .fail

/-- Whether a return has a value depends on the kind of the next token. -/
theorem ret_moved :
    Moved k (List.map (·.shift k)) (ret token rest (reader stop) left)
      (ret (token.shift k) (rest.map (·.shift k)) (reader (stop + k))
        (left.map (·.shift k))) := by
  refine alone_moved ?_
  cases rest with
  | nil => exact .ok
  | cons next more =>
      show Moved k _ (if (next.kind.isSeparator || next.kind == .closeBlock) = true then _ else _)
        (if (next.kind.isSeparator || next.kind == .closeBlock) = true then _ else _)
      by_cases hbare : (next.kind.isSeparator || next.kind == .closeBlock) = true
      · rw [if_pos hbare, if_pos hbare]
        exact .ok
      · rw [if_neg hbare, if_neg hbare]
        refine ((operand_moved hread .returnValue rfl).within .returned).andThen
          fun value after shorter shorter' _ => ?_
        rw [Token.span_shift, Node.span_shift, Span.union_shift]
        exact .ok

end Constructs

section Dispatch

variable {stop : Nat} {token : Token} {rest : List Token} {nested : Nested (token :: rest).length}
  {left : Option Node}

/-- The first token selects a construct by its kind. -/
theorem dispatch_of_some {construct : Construct}
    (h : Construct.ofToken? token.kind = some construct) :
    dispatch stop (token :: rest) nested left
      = read construct stop (token :: rest) nested left := by
  simp only [dispatch, h]

/-- A kind that selects nothing is an error at the token. -/
theorem dispatch_of_none (h : Construct.ofToken? token.kind = none) :
    dispatch stop (token :: rest) nested left
      = .fail (syntaxError (.unexpected token.kind) token.span) (token :: rest)
          (Nat.le_refl _) := by
  simp only [dispatch, h]

end Dispatch

/-- One level of reading does not depend on where the tokens are if reading
inside does not. -/
theorem dispatch_moved {k stop : Nat} (ts : List Token) (left : Option Node)
    (hread : Movable k stop ts.length) :
    Moved k (List.map (·.shift k)) (dispatch stop ts (reader stop) left)
      (dispatch (stop + k) (ts.map (·.shift k)) (reader (stop + k)) (left.map (·.shift k))) := by
  cases ts with
  | nil => exact .fail
  | cons token rest =>
      have hkind := Token.kind_shift k token
      show Moved k _ _ (dispatch (stop + k) (token.shift k :: rest.map (·.shift k)) _ _)
      cases hconstruct : Construct.ofToken? token.kind with
      | none =>
          rw [dispatch_of_none hconstruct, dispatch_of_none (hkind ▸ hconstruct)]
          exact .fail
      | some construct =>
          rw [dispatch_of_some hconstruct, dispatch_of_some (hkind ▸ hconstruct)]
          cases construct with
          | reference => exact reference_moved hread
          | number => exact number_moved hread
          | string => exact string_moved hread
          | boolean => exact boolean_moved
          | assignment => exact assignment_moved hread
          | binary => exact binary_moved hread
          | openParen => exact openParen_moved hread
          | readProperty => exact readProperty_moved hread
          | block => exact block_moved hread
          | variableDeclaration => exact variableDeclaration_moved hread
          | function => exact function_moved hread
          | ret => exact ret_moved hread

/-- Reading may be moved, however many tokens there are. The induction is on
their number, and readers inside have fewer. -/
theorem movable (k stop n : Nat) : Movable k stop n := by
  induction n with
  | zero => exact fun ts left h => absurd h (Nat.not_lt_zero _)
  | succ n ih =>
      intro ts left h
      rw [process_eq_dispatch, process_eq_dispatch]
      exact dispatch_moved ts left (ih.mono (Nat.le_of_lt_succ h))

-- ================================================================ programs

/-- A program ends where only separators are left. -/
theorem program_of_nil {stop : Nat} {done : List Node} {ts : List Token}
    (hts : skipSeparators ts = []) : program stop done ts = .ok done.reverse := by
  rw [program]
  split
  · rfl
  · next hts' =>
    rw [hts] at hts'
    cases hts'

/-- What a program comes to after its first statement. -/
def programAfter (stop : Nat) (done : List Node) {n : Nat} :
    Reply n (List Node) → Except Error (List Node)
  | .ok nodes after _ => program stop (nodes.reverse ++ done) after
  | .fail error _ _ => .error error

/-- Otherwise a statement is read, and the program goes on after it. -/
theorem program_of_cons {stop : Nat} {done : List Node} {ts rest : List Token} {t : Token}
    (hts : skipSeparators ts = t :: rest) :
    program stop done ts = programAfter stop done (process stop (t :: rest) none) := by
  rw [program]
  split
  · next hts' =>
    rw [hts] at hts'
    cases hts'
  · next hts' =>
    rw [hts] at hts'
    cases hts'
    cases process stop (t :: rest) none <;> rfl

/-- Moved tokens make a moved program, or fail with a moved error. -/
theorem program_shift (k stop : Nat) (done : List Node) (ts : List Token) :
    program (stop + k) (done.map (·.shift k)) (ts.map (·.shift k))
      = moved k (List.map (·.shift k)) (program stop done ts) := by
  induction hn : ts.length using Nat.strongRecOn generalizing ts done with
  | ind m ih =>
      have hskip := skipSeparators_shift k ts
      have hlen := length_skipSeparators_le ts
      cases hts : skipSeparators ts with
      | nil =>
          rw [hts] at hskip
          rw [program_of_nil hts, program_of_nil hskip, ← List.map_reverse]
          rfl
      | cons t rest =>
          rw [hts] at hskip hlen
          rw [program_of_cons hts, program_of_cons hskip]
          have hmoved := movable k stop _ (t :: rest) none (Nat.lt_succ_self _)
          rw [List.map_cons, Option.map_none] at hmoved
          generalize process stop (t :: rest) none = r at hmoved
          generalize process (stop + k) (t.shift k :: rest.map (·.shift k)) none = r' at hmoved
          cases hmoved with
          | fail => rfl
          | @ok nodes after shorter _ =>
              have hdone : (nodes.map (·.shift k)).reverse ++ done.map (·.shift k)
                  = (nodes.reverse ++ done).map (·.shift k) := by
                rw [List.map_append, List.map_reverse]
              show program (stop + k)
                ((nodes.map (·.shift k)).reverse ++ done.map (·.shift k)) _ = _
              rw [hdone]
              refine ih after.length ?_ (nodes.reverse ++ done) after rfl
              simp only [List.length_cons] at hlen shorter
              omega

end Build

end ScopedScript
