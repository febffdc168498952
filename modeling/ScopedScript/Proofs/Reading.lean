/-
What reading a construct yields.

A reply carries proofs about the tokens left over, so two replies with the
same value and the same rest need not look the same. `Reply.Yields` forgets
the proofs, and the lemmas of this file say, construct by construct, when
reading yields given nodes and leaves a given rest. They are equivalences:
read from left to right they take a reading apart, from right to left they
put one together.

Inside of `process` every construct reads its parts by `process` again, so
all lemmas are about `reader stop`, which is that and nothing else.
-/
import ScopedScript.Node.Build

namespace ScopedScript

-- ===================================================== kinds of first tokens

/-- The kind of token that selects a construct. -/
def Construct.kind : Construct → Token.Kind
  | .reference => .identifier
  | .number => .number
  | .string => .string
  | .boolean => .boolean
  | .assignment => .assign
  | .binary => .operator
  | .openParen => .openParen
  | .readProperty => .dot
  | .block => .openBlock
  | .variableDeclaration => .variableDeclaration
  | .function => .functionDeclaration
  | .ret => .ret

/-- Each construct is selected by one kind of token. -/
theorem Construct.ofToken?_eq_some {kind : Token.Kind} {construct : Construct} :
    Construct.ofToken? kind = some construct ↔ kind = construct.kind := by
  cases kind <;> cases construct <;> decide

/-- A kind that selects nothing is not the kind of any construct. -/
theorem Construct.kind_ne {kind : Token.Kind} (construct : Construct)
    (h : ofToken? kind = none) : construct.kind ≠ kind := by
  intro hkind
  rw [ofToken?_eq_some.2 hkind.symm] at h
  cases h

/-- No construct begins with a separator. -/
theorem Construct.isSeparator_kind (construct : Construct) :
    construct.kind.isSeparator = false := by
  cases construct <;> rfl

namespace Build

-- ================================================================ replies

namespace Reply

variable {m n : Nat} {α β : Type}

/-- The reply is a value, and leaves a rest. -/
def Yields (r : Reply n α) (value : α) (rest : List Token) : Prop :=
  ∃ shorter, r = .ok value rest shorter

/-- A reply that is a value yields this value. -/
theorem yields_ok {a value : α} {ts rest : List Token} {shorter : ts.length < n} :
    (Reply.ok a ts shorter).Yields value rest ↔ a = value ∧ ts = rest := by
  constructor
  · intro h
    obtain ⟨_, h⟩ := h
    cases h
    exact ⟨rfl, rfl⟩
  · intro h
    obtain ⟨rfl, rfl⟩ := h
    exact ⟨shorter, rfl⟩

/-- A failure yields nothing. -/
theorem not_yields_fail {error : Error} {ts rest : List Token} {value : α}
    {noLonger : ts.length ≤ n} : ¬(Reply.fail error ts noLonger).Yields value rest := by
  intro h
  obtain ⟨_, h⟩ := h
  cases h

/-- Bounds on the number of tokens left over play no role. -/
theorem yields_widen {r : Reply m α} {h : m ≤ n} {value : α} {rest : List Token} :
    (r.widen h).Yields value rest ↔ r.Yields value rest := by
  cases r with
  | ok a ts shorter => rw [widen, yields_ok, yields_ok]
  | fail error ts noLonger =>
      exact iff_of_false not_yields_fail not_yields_fail

/-- Contexts are for errors and do not matter to what is read. -/
theorem yields_within {r : Reply n α} {context : Context} {value : α} {rest : List Token} :
    (r.within context).Yields value rest ↔ r.Yields value rest := by
  cases r with
  | ok a ts shorter => rfl
  | fail error ts noLonger =>
      exact iff_of_false not_yields_fail not_yields_fail

/-- Reading one thing after another: the second begins where the first one
ended. -/
theorem yields_andThen {r : Reply m α} {h : m ≤ n}
    {next : α → (ts : List Token) → ts.length < m → Reply n β} {value : β}
    {rest : List Token} :
    (r.andThen h next).Yields value rest
      ↔ ∃ a ts shorter, r.Yields a ts ∧ (next a ts shorter).Yields value rest := by
  cases r with
  | ok a ts shorter =>
      constructor
      · intro hnext
        exact ⟨a, ts, shorter, ⟨shorter, rfl⟩, hnext⟩
      · intro h
        obtain ⟨a', ts', shorter', hr, hnext⟩ := h
        obtain ⟨rfl, rfl⟩ := yields_ok.1 hr
        exact hnext
  | fail error ts noLonger =>
      refine iff_of_false not_yields_fail ?_
      intro h
      obtain ⟨_, _, _, hr, -⟩ := h
      exact not_yields_fail hr

/-- The bound that a reply carries. -/
theorem length_lt_of_yields {r : Reply n α} {value : α} {rest : List Token}
    (h : r.Yields value rest) : rest.length < n := by
  obtain ⟨shorter, -⟩ := h
  exact shorter

end Reply

open Reply

-- =========================================================== parts at hand

/-- Reading by `process`, as all constructs inside of it do. -/
abbrev reader (stop : Nat) {n : Nat} : Nested n := fun ts _ left => process stop ts left

/-- Reading selects a construct by the first token, and the construct reads
its parts in the same way. -/
theorem process_eq_dispatch (stop : Nat) (ts : List Token) (left : Option Node) :
    process stop ts left = dispatch stop ts (reader stop) left := by
  rw [process]

section Parts

variable {stop n : Nat} {ts rest : List Token}

/-- A required token is the first one, and is of the kind. -/
theorem yields_require {required : Required} {t : Token} :
    (require required stop ts).Yields t rest ↔ ts = t :: rest ∧ t.kind = required.kind := by
  cases ts with
  | nil =>
      refine iff_of_false not_yields_fail ?_
      intro h
      obtain ⟨h, -⟩ := h
      cases h
  | cons u us =>
      simp only [require]
      by_cases hkind : u.kind = required.kind
      · rw [if_pos hkind, yields_ok]
        constructor
        · intro h
          obtain ⟨rfl, rfl⟩ := h
          exact ⟨rfl, hkind⟩
        · intro h
          obtain ⟨h, -⟩ := h
          cases h
          exact ⟨rfl, rfl⟩
      · rw [if_neg hkind]
        refine iff_of_false not_yields_fail ?_
        intro h
        obtain ⟨h, ht⟩ := h
        cases h
        exact hkind ht

/-- Of nodes in the place of an operand there has to be exactly one. -/
theorem single_eq_ok {place : Operand} {nodes : List Node} {node : Node} :
    single place nodes = .ok node ↔ nodes = [node] := by
  match nodes with
  | [] => simp [single]
  | [_] => simp [single]
  | _ :: _ :: _ => simp [single]

/-- An operand is one node, read with nothing at its left. -/
theorem yields_operand {place : Operand} {h : ts.length < n} {node : Node} :
    (operand (reader stop) place ts h).Yields node rest
      ↔ (process stop ts none).Yields [node] rest := by
  unfold operand
  rw [yields_andThen]
  constructor
  · intro h
    obtain ⟨nodes, after, shorter, hread, hsingle⟩ := h
    cases hnodes : single place nodes with
    | ok node' =>
        rw [hnodes] at hsingle
        obtain ⟨rfl, rfl⟩ := yields_ok.1 hsingle
        rw [single_eq_ok] at hnodes
        rwa [hnodes] at hread
    | error error =>
        rw [hnodes] at hsingle
        exact absurd hsingle not_yields_fail
  · intro hread
    refine ⟨[node], rest, length_lt_of_yields hread, hread, ?_⟩
    exact yields_ok.2 ⟨rfl, rfl⟩

/-- A finished node goes on with the tokens that follow it, or it is all
there is. -/
def GoesOn (stop : Nat) (node : Node) (ts : List Token) (nodes : List Node)
    (rest : List Token) : Prop :=
  if continues ts then (process stop ts (some node)).Yields nodes rest
  else nodes = [node] ∧ rest = ts

/-- After a node reading goes on if the next token takes it for its left
operand, and otherwise it ends. -/
theorem yields_chain {node : Node} {h : ts.length < n} {nodes : List Node} :
    (chain (reader stop) node ts h).Yields nodes rest ↔ GoesOn stop node ts nodes rest := by
  unfold chain GoesOn
  split
  · rw [yields_widen]
  · rw [yields_ok, eq_comm, @eq_comm _ ts]

/-- A construct that stands alone has nothing at its left. -/
theorem yields_alone {left : Option Node} {token : Token} {h : ts.length < n} {α : Type}
    {next : Reply n α} {value : α} :
    (alone left token ts h next).Yields value rest
      ↔ left = none ∧ next.Yields value rest := by
  cases left with
  | none => exact (and_iff_right rfl).symm
  | some node =>
      refine iff_of_false not_yields_fail ?_
      intro h
      obtain ⟨h, -⟩ := h
      cases h

/-- A construct that is joined to something has it at its left. -/
theorem yields_joined {left : Option Node} {token : Token} {h : ts.length < n} {α : Type}
    {next : Node → Reply n α} {value : α} :
    (joined left token ts h next).Yields value rest
      ↔ ∃ node, left = some node ∧ (next node).Yields value rest := by
  cases left with
  | none =>
      refine iff_of_false not_yields_fail ?_
      intro h
      obtain ⟨_, h, -⟩ := h
      cases h
  | some node =>
      constructor
      · intro hnext
        exact ⟨node, rfl, hnext⟩
      · intro h
        obtain ⟨_, h, hnext⟩ := h
        cases h
        exact hnext

end Parts

-- =================================================================== loops

section Loops

variable {stop n : Nat} {opening closing : Span} {ts rest : List Token}

private theorem exists_cons {l us : List Token} {t : Token} {P : Token → List Token → Prop}
    (h : l = t :: us) : (∃ t' us', l = t' :: us' ∧ P t' us') ↔ P t us := by
  subst h
  constructor
  · intro h
    obtain ⟨_, _, h, hp⟩ := h
    cases h
    exact hp
  · intro hp
    exact ⟨t, us, rfl, hp⟩

/-- One round of reading arguments. -/
theorem yields_arguments {done args : List Node} {h : ts.length < n} :
    (arguments (reader stop) opening done ts h).Yields (args, closing) rest
      ↔ ∃ t us, skipNewLines ts = t :: us
        ∧ ((t.kind = .closeParen ∧ args = done.reverse ∧ closing = t.span ∧ rest = us)
          ∨ ∃ argument mid next left, t.kind ≠ .closeParen
            ∧ (process stop (t :: us) none).Yields [argument] mid
            ∧ skipNewLines mid = next :: left
            ∧ ((next.kind = .comma ∧ ∃ h' : left.length < n,
                (arguments (reader stop) opening (argument :: done) left h').Yields
                  (args, closing) rest)
              ∨ (next.kind = .closeParen ∧ args = (argument :: done).reverse
                ∧ closing = next.span ∧ rest = left))) := by
  rw [arguments]
  split
  · next hts =>
    refine iff_of_false not_yields_fail ?_
    intro h
    obtain ⟨t, us, h, -⟩ := h
    rw [hts] at h
    cases h
  · next t us hts =>
    rw [exists_cons hts]
    dsimp only
    by_cases hclose : t.kind = .closeParen
    · -- the list ends here
      rw [if_pos hclose, yields_ok, Prod.mk.injEq]
      constructor
      · intro h
        obtain ⟨⟨rfl, rfl⟩, rfl⟩ := h
        exact .inl ⟨hclose, rfl, rfl, rfl⟩
      · intro h
        rcases h with ⟨-, rfl, rfl, rfl⟩ | ⟨_, _, _, _, hnot, -⟩
        · exact ⟨⟨rfl, rfl⟩, rfl⟩
        · exact absurd hclose hnot
    · -- an argument, and then a comma or the end
      rw [if_neg hclose, yields_andThen]
      constructor
      · intro h
        obtain ⟨argument, mid, _, hread, h⟩ := h
        have hread := yields_operand.1 (yields_within.1 hread)
        right
        split at h
        · exact absurd h not_yields_fail
        · next next left hnext =>
          refine ⟨argument, mid, next, left, hclose, hread, hnext, ?_⟩
          split at h
          · next hcomma => exact .inl ⟨hcomma, _, h⟩
          · split at h
            · next hend =>
              rw [yields_ok, Prod.mk.injEq] at h
              obtain ⟨⟨rfl, rfl⟩, rfl⟩ := h
              exact .inr ⟨hend, rfl, rfl, rfl⟩
            · exact absurd h not_yields_fail
      · intro h
        rcases h with ⟨hend, -⟩ | ⟨argument, mid, next, left, -, hread, hnext, h⟩
        · exact absurd hend hclose
        · refine ⟨argument, mid, length_lt_of_yields hread, ?_, ?_⟩
          · exact yields_within.2 (yields_operand.2 hread)
          · split
            · next hnil => rw [hnil] at hnext; cases hnext
            · next next' left' hnext' =>
              rw [hnext'] at hnext
              cases hnext
              rcases h with ⟨hcomma, _, h⟩ | ⟨hend, rfl, rfl, rfl⟩
              · rw [if_pos hcomma]
                exact h
              · rw [if_neg (by rw [hend]; decide), if_pos hend]
                exact yields_ok.2 ⟨rfl, rfl⟩

/-- One round of reading statements. -/
theorem yields_statements {done body : List Node} {h : ts.length < n} :
    (statements (reader stop) opening done ts h).Yields (body, closing) rest
      ↔ ∃ t us, skipSeparators ts = t :: us
        ∧ ((t.kind = .closeBlock ∧ body = done.reverse ∧ closing = t.span ∧ rest = us)
          ∨ ∃ nodes mid, t.kind ≠ .closeBlock
            ∧ (process stop (t :: us) none).Yields nodes mid
            ∧ ∃ h' : mid.length < n,
              (statements (reader stop) opening (nodes.reverse ++ done) mid h').Yields
                (body, closing) rest) := by
  rw [statements]
  split
  · next hts =>
    refine iff_of_false not_yields_fail ?_
    intro h
    obtain ⟨t, us, h, -⟩ := h
    rw [hts] at h
    cases h
  · next t us hts =>
    rw [exists_cons hts]
    dsimp only
    by_cases hclose : t.kind = .closeBlock
    · rw [if_pos hclose, yields_ok, Prod.mk.injEq]
      constructor
      · intro h
        obtain ⟨⟨rfl, rfl⟩, rfl⟩ := h
        exact .inl ⟨hclose, rfl, rfl, rfl⟩
      · intro h
        rcases h with ⟨-, rfl, rfl, rfl⟩ | ⟨_, _, hnot, -⟩
        · exact ⟨⟨rfl, rfl⟩, rfl⟩
        · exact absurd hclose hnot
    · rw [if_neg hclose, yields_andThen]
      constructor
      · intro h
        obtain ⟨nodes, mid, _, hread, h⟩ := h
        exact .inr ⟨nodes, mid, hclose, yields_within.1 hread, _, h⟩
      · intro h
        rcases h with ⟨hend, -⟩ | ⟨nodes, mid, -, hread, _, h⟩
        · exact absurd hend hclose
        · exact ⟨nodes, mid, length_lt_of_yields hread, yields_within.2 hread, h⟩

end Loops

-- ============================================================== constructs

section Constructs

variable {stop : Nat} {token : Token} {rest after : List Token} {left : Option Node}
  {nodes : List Node}

/-- A name makes a node of its text, which may go on. -/
theorem yields_reference :
    (reference token rest (reader stop) left).Yields nodes after
      ↔ left = none ∧ GoesOn stop (.reference token.span token.text) rest nodes after := by
  rw [reference, yields_alone, yields_chain]

/-- A number makes a node of the value of its text, which may go on. -/
theorem yields_number :
    (number token rest (reader stop) left).Yields nodes after
      ↔ left = none ∧ ∃ value, Number.read? token.text = some value
        ∧ GoesOn stop (.number token.span value) rest nodes after := by
  rw [number, yields_alone]
  refine and_congr_right fun _ => ?_
  cases Number.read? token.text with
  | none =>
      refine iff_of_false not_yields_fail ?_
      intro h
      obtain ⟨_, h, -⟩ := h
      cases h
  | some value =>
      show (chain (reader stop) (.number token.span value) rest _).Yields nodes after ↔ _
      rw [yields_chain]
      constructor
      · intro h
        exact ⟨value, rfl, h⟩
      · intro h
        obtain ⟨_, h, hgoes⟩ := h
        cases h
        exact hgoes

/-- A quoted text makes a node of what is between the quotes, which may go on. -/
theorem yields_string :
    (string token rest (reader stop) left).Yields nodes after
      ↔ left = none ∧ GoesOn stop (.string token.span token.text) rest nodes after := by
  rw [string, yields_alone, yields_chain]

/-- A boolean makes a node that does not go on. -/
theorem yields_boolean :
    (boolean token rest left).Yields nodes after
      ↔ left = none ∧ [.boolean token.span (token.text == "true")] = nodes ∧ rest = after := by
  rw [boolean, yields_alone, yields_ok]

/-- An assignment takes what is at its left for the target and one node for
the value, and does not go on: the value has taken all there is. -/
theorem yields_assignment :
    (assignment token rest (reader stop) left).Yields nodes after
      ↔ ∃ target value, left = some target ∧ (process stop rest none).Yields [value] after
        ∧ nodes = [.assignment (target.span.union value.span) target value] := by
  rw [assignment, yields_joined]
  refine exists_congr fun target => ?_
  constructor
  · intro h
    obtain ⟨hleft, h⟩ := h
    obtain ⟨value, ts, _, hvalue, h⟩ := yields_andThen.1 h
    obtain ⟨rfl, rfl⟩ := yields_ok.1 h
    exact ⟨value, hleft, yields_operand.1 (yields_within.1 hvalue), rfl⟩
  · intro h
    obtain ⟨value, hleft, hvalue, rfl⟩ := h
    refine ⟨hleft, yields_andThen.2 ⟨value, after, length_lt_of_yields hvalue, ?_, ?_⟩⟩
    · exact yields_within.2 (yields_operand.2 hvalue)
    · exact yields_ok.2 ⟨rfl, rfl⟩

/-- A binary operation takes all that follows for its right operand. -/
theorem yields_binary :
    (binary token rest (reader stop) left).Yields nodes after
      ↔ ∃ first operator second, left = some first
        ∧ Operator.ofSymbol? token.text = some operator
        ∧ (process stop rest none).Yields [second] after
        ∧ nodes = [.binary (first.span.union second.span) operator first second] := by
  rw [binary, yields_joined]
  refine exists_congr fun first => ?_
  cases Operator.ofSymbol? token.text with
  | none =>
      refine iff_of_false ?_ ?_
      · intro h
        obtain ⟨-, h⟩ := h
        exact not_yields_fail h
      · intro h
        obtain ⟨_, _, _, h, -⟩ := h
        cases h
  | some operator =>
      constructor
      · intro h
        obtain ⟨hleft, h⟩ := h
        obtain ⟨second, ts, _, hsecond, h⟩ := yields_andThen.1 h
        obtain ⟨rfl, rfl⟩ := yields_ok.1 h
        exact ⟨operator, second, hleft, rfl, yields_operand.1 (yields_within.1 hsecond), rfl⟩
      · intro h
        obtain ⟨_, second, hleft, h, hsecond, rfl⟩ := h
        cases h
        refine ⟨hleft, yields_andThen.2 ⟨second, after, length_lt_of_yields hsecond, ?_, ?_⟩⟩
        · exact yields_within.2 (yields_operand.2 hsecond)
        · exact yields_ok.2 ⟨rfl, rfl⟩

/-- An access is a name behind a point, and may go on. -/
theorem yields_readProperty :
    (readProperty stop token rest (reader stop) left).Yields nodes after
      ↔ ∃ object property ts, left = some object ∧ rest = property :: ts
        ∧ property.kind = .identifier
        ∧ GoesOn stop
            (.readProperty (object.span.union property.span) object property.text) ts
            nodes after := by
  rw [readProperty, yields_joined]
  refine exists_congr fun object => ?_
  constructor
  · intro h
    obtain ⟨hleft, h⟩ := h
    obtain ⟨property, ts, _, hproperty, h⟩ := yields_andThen.1 h
    obtain ⟨hrest, hkind⟩ := yields_require.1 hproperty
    exact ⟨property, ts, hleft, hrest, hkind, yields_chain.1 h⟩
  · intro h
    obtain ⟨property, ts, hleft, rfl, hkind, hgoes⟩ := h
    refine ⟨hleft, yields_andThen.2 ⟨property, ts, Nat.lt_succ_self _, ?_, ?_⟩⟩
    · exact yields_require.2 ⟨rfl, hkind⟩
    · exact yields_chain.2 hgoes

/-- Parentheses hold one node, may break lines, and may go on. -/
theorem yields_parenthesized :
    (parenthesized stop token rest (reader stop)).Yields nodes after
      ↔ ∃ inner ts closing ts', (process stop (skipNewLines rest) none).Yields [inner] ts
        ∧ skipNewLines ts = closing :: ts' ∧ closing.kind = .closeParen
        ∧ GoesOn stop (.parenthesized (token.span.union closing.span) inner) ts'
            nodes after := by
  rw [parenthesized]
  constructor
  · intro h
    obtain ⟨inner, ts, _, hinner, h⟩ := yields_andThen.1 h
    obtain ⟨closing, ts', _, hclosing, h⟩ := yields_andThen.1 h
    obtain ⟨hts, hkind⟩ := yields_require.1 (yields_within.1 hclosing)
    exact ⟨inner, ts, closing, ts', yields_operand.1 (yields_within.1 hinner), hts, hkind,
      yields_chain.1 h⟩
  · intro h
    obtain ⟨inner, ts, closing, ts', hinner, hts, hkind, hgoes⟩ := h
    refine yields_andThen.2 ⟨inner, ts, length_lt_of_yields hinner, ?_, ?_⟩
    · exact yields_within.2 (yields_operand.2 hinner)
    · refine yields_andThen.2 ⟨closing, ts', by rw [hts]; exact Nat.lt_succ_self _, ?_, ?_⟩
      · exact yields_within.2 (yields_require.2 ⟨hts, hkind⟩)
      · exact yields_chain.2 hgoes

/-- A call may go on behind its closing parenthesis. -/
theorem yields_call {callee : Node} :
    (call token rest (reader stop) callee).Yields nodes after
      ↔ ∃ args closing ts,
        (arguments (n := rest.length + 1) (reader stop) token.span [] rest
          (Nat.lt_succ_self _)).Yields (args, closing) ts
        ∧ GoesOn stop (.call (callee.span.union closing) callee args) ts nodes after := by
  rw [call]
  constructor
  · intro h
    obtain ⟨⟨args, closing⟩, ts, _, hargs, h⟩ := yields_andThen.1 h
    exact ⟨args, closing, ts, yields_within.1 hargs, yields_chain.1 h⟩
  · intro h
    obtain ⟨args, closing, ts, hargs, hgoes⟩ := h
    refine yields_andThen.2 ⟨(args, closing), ts, length_lt_of_yields hargs, ?_, ?_⟩
    · exact yields_within.2 hargs
    · exact yields_chain.2 hgoes

/-- A block stands alone and ends with its closing brace. -/
theorem yields_block :
    (block token rest (reader stop) left).Yields nodes after
      ↔ left = none ∧ ∃ body closing,
        (statements (n := rest.length + 1) (reader stop) token.span [] rest
          (Nat.lt_succ_self _)).Yields (body, closing) after
        ∧ nodes = [.block (token.span.union closing) body] := by
  rw [block, yields_alone]
  refine and_congr_right fun _ => ?_
  constructor
  · intro h
    obtain ⟨⟨body, closing⟩, ts, _, hbody, h⟩ := yields_andThen.1 h
    obtain ⟨rfl, rfl⟩ := yields_ok.1 h
    exact ⟨body, closing, hbody, rfl⟩
  · intro h
    obtain ⟨body, closing, hbody, rfl⟩ := h
    refine yields_andThen.2 ⟨(body, closing), after, length_lt_of_yields hbody, hbody, ?_⟩
    exact yields_ok.2 ⟨rfl, rfl⟩

/-- A declaration is a name. With an assignment behind it, it makes a second
node, whose target is the name. -/
theorem yields_variableDeclaration :
    (variableDeclaration stop token rest (reader stop) left).Yields nodes after
      ↔ left = none ∧ ∃ name ts, rest = name :: ts ∧ name.kind = .identifier
        ∧ (((∀ t ∈ ts.head?, t.kind ≠ .assign)
            ∧ nodes = [.declaration (token.span.union name.span) name.text] ∧ after = ts)
          ∨ ∃ equals us value, ts = equals :: us ∧ equals.kind = .assign
            ∧ (process stop us none).Yields [value] after
            ∧ nodes = [.declaration (token.span.union name.span) name.text,
                .assignment (name.span.union value.span) (.reference name.span name.text)
                  value]) := by
  rw [variableDeclaration, yields_alone]
  refine and_congr_right fun _ => ?_
  constructor
  · intro h
    obtain ⟨name, ts, shorter, hname, h⟩ := yields_andThen.1 h
    obtain ⟨hrest, hkind⟩ := yields_require.1 hname
    refine ⟨name, ts, hrest, hkind, ?_⟩
    cases ts with
    | nil =>
        obtain ⟨rfl, rfl⟩ := yields_ok.1 h
        exact .inl ⟨fun t ht => (nomatch ht), rfl, rfl⟩
    | cons equals us =>
        dsimp only at h
        split at h
        · next hassign =>
          obtain ⟨assigned, last, _, hassigned, h⟩ := yields_andThen.1 h
          obtain ⟨rfl, rfl⟩ := yields_ok.1 h
          obtain ⟨_, value, htarget, hvalue, rfl⟩ :=
            yields_assignment.1 (yields_within.1 hassigned)
          cases htarget
          exact .inr ⟨equals, us, value, rfl, hassign, hvalue, rfl⟩
        · next hassign =>
          obtain ⟨rfl, rfl⟩ := yields_ok.1 h
          refine .inl ⟨fun t ht => ?_, rfl, rfl⟩
          cases ht
          exact hassign
  · intro h
    obtain ⟨name, ts, rfl, hkind, h⟩ := h
    refine yields_andThen.2 ⟨name, ts, Nat.lt_succ_self _, yields_require.2 ⟨rfl, hkind⟩, ?_⟩
    cases ts with
    | nil =>
        rcases h with ⟨-, rfl, rfl⟩ | ⟨_, _, _, h, -⟩
        · exact yields_ok.2 ⟨rfl, rfl⟩
        · cases h
    | cons equals us =>
        dsimp only
        rcases h with ⟨hnot, rfl, rfl⟩ | ⟨_, _, value, heq, hassign, hvalue, rfl⟩
        · rw [if_neg (hnot equals rfl)]
          exact yields_ok.2 ⟨rfl, rfl⟩
        · cases heq
          rw [if_pos hassign]
          refine yields_andThen.2
            ⟨[.assignment (name.span.union value.span) (.reference name.span name.text) value],
              after, Nat.lt_succ_of_lt (length_lt_of_yields hvalue), ?_, ?_⟩
          · exact yields_within.2 (yields_assignment.2 ⟨_, value, rfl, hvalue, rfl⟩)
          · exact yields_ok.2 ⟨rfl, rfl⟩

/-- The body of a function is a block. -/
theorem functionBody_eq_ok {name : String} {body : Node} :
    functionBody name nodes = .ok body
      ↔ nodes = [body] ∧ ∃ span statements, body = .block span statements := by
  unfold functionBody
  constructor
  · intro h
    split at h
    · next span statements hsingle =>
      cases h
      exact ⟨single_eq_ok.1 hsingle, span, statements, rfl⟩
    · cases h
    · cases h
  · intro h
    obtain ⟨rfl, span, statements, rfl⟩ := h
    rfl

/-- A function takes its name and parameters from its token, and a block for
its body. -/
theorem yields_function :
    (function stop token rest (reader stop) left).Yields nodes after
      ↔ left = none ∧ ∃ name brace ts body, token.attribute? .name = some name
        ∧ skipNewLines rest = brace :: ts ∧ brace.kind = .openBlock
        ∧ (process stop (brace :: ts) none).Yields [body] after
        ∧ (∃ span statements, body = .block span statements)
        ∧ nodes = [.function (token.span.union body.span) name.value
            ((token.attributesOf .parameter).map fun a => ⟨a.value, a.span⟩) body] := by
  rw [function, yields_alone]
  refine and_congr_right fun _ => ?_
  constructor
  · intro h
    split at h
    · exact absurd h not_yields_fail
    · next key name span hname =>
      dsimp only at h
      split at h
      · exact absurd h not_yields_fail
      · next brace ts hts =>
        split at h
        · next hbrace =>
          obtain ⟨inner, last, _, hread, h⟩ := yields_andThen.1 h
          split at h
          · next body hbody =>
            obtain ⟨rfl, rfl⟩ := yields_ok.1 h
            obtain ⟨rfl, hblock⟩ := functionBody_eq_ok.1 hbody
            exact ⟨_, brace, ts, body, hname, hts, hbrace, yields_within.1 hread, hblock, rfl⟩
          · exact absurd h not_yields_fail
        · exact absurd h not_yields_fail
  · intro h
    obtain ⟨name, brace, ts, body, hname, hts, hbrace, hread, hblock, rfl⟩ := h
    split
    · next hnone => rw [hnone] at hname; cases hname
    · next key value span hsome =>
      rw [hsome] at hname
      cases hname
      dsimp only
      split
      · next hnil => rw [hnil] at hts; cases hts
      · next brace' ts' hts' =>
        rw [hts'] at hts
        cases hts
        rw [if_pos hbrace]
        refine yields_andThen.2
          ⟨[body], after, length_lt_of_yields hread, yields_within.2 hread, ?_⟩
        split
        · next body' hbody =>
          obtain ⟨hsame, -⟩ := functionBody_eq_ok.1 hbody
          cases hsame
          exact yields_ok.2 ⟨rfl, rfl⟩
        · next error herror =>
          rw [functionBody_eq_ok.2 ⟨rfl, hblock⟩] at herror
          cases herror

/-- A `return` before these tokens has no value. -/
def EndsReturn (ts : List Token) : Prop :=
  ∀ t ∈ ts.head?, t.kind.isSeparator = true ∨ t.kind = .closeBlock

/-- A return has a value unless the next token ends it. -/
theorem yields_ret :
    (ret token rest (reader stop) left).Yields nodes after
      ↔ left = none ∧
        ((EndsReturn rest ∧ nodes = [.ret token.span none] ∧ after = rest)
          ∨ ∃ value, ¬EndsReturn rest ∧ (process stop rest none).Yields [value] after
            ∧ nodes = [.ret (token.span.union value.span) (some value)]) := by
  unfold ret
  rw [yields_alone]
  refine and_congr_right fun _ => ?_
  dsimp only
  by_cases hend : EndsReturn rest
  · rw [if_pos ?bare, yields_ok]
    case bare =>
      cases rest with
      | nil => rfl
      | cons t ts => simpa using hend t rfl
    constructor
    · intro h
      obtain ⟨rfl, rfl⟩ := h
      exact .inl ⟨hend, rfl, rfl⟩
    · intro h
      rcases h with ⟨-, rfl, rfl⟩ | ⟨_, hnot, -⟩
      · exact ⟨rfl, rfl⟩
      · exact absurd hend hnot
  · rw [if_neg ?valued]
    case valued =>
      intro hbare
      refine hend fun t ht => ?_
      cases rest with
      | nil => cases ht
      | cons u us =>
          cases ht
          simpa using hbare
    constructor
    · intro h
      obtain ⟨value, last, _, hvalue, h⟩ := yields_andThen.1 h
      obtain ⟨rfl, rfl⟩ := yields_ok.1 h
      exact .inr ⟨value, hend, yields_operand.1 (yields_within.1 hvalue), rfl⟩
    · intro h
      rcases h with ⟨h, -⟩ | ⟨value, -, hvalue, rfl⟩
      · exact absurd h hend
      · refine yields_andThen.2 ⟨value, after, length_lt_of_yields hvalue, ?_, ?_⟩
        · exact yields_within.2 (yields_operand.2 hvalue)
        · exact yields_ok.2 ⟨rfl, rfl⟩

end Constructs

-- ============================================================= dispatching

/-- Reading is reading the construct that the first token selects. -/
theorem yields_process {stop : Nat} {ts after : List Token} {left : Option Node}
    {nodes : List Node} :
    (process stop ts left).Yields nodes after
      ↔ ∃ token rest construct, ts = token :: rest ∧ token.kind = construct.kind
        ∧ (read construct stop (token :: rest) (reader stop) left).Yields nodes after := by
  rw [process_eq_dispatch]
  cases ts with
  | nil =>
      refine iff_of_false not_yields_fail ?_
      intro h
      obtain ⟨_, _, _, h, -⟩ := h
      cases h
  | cons token rest =>
      simp only [dispatch]
      cases hconstruct : Construct.ofToken? token.kind with
      | none =>
          refine iff_of_false not_yields_fail ?_
          intro h
          obtain ⟨_, _, construct, h, hkind, -⟩ := h
          cases h
          rw [Construct.ofToken?_eq_some.2 hkind] at hconstruct
          cases hconstruct
      | some construct =>
          constructor
          · intro h
            exact ⟨token, rest, construct, rfl, Construct.ofToken?_eq_some.1 hconstruct, h⟩
          · intro h
            obtain ⟨_, _, construct', h, hkind, hread⟩ := h
            cases h
            rw [Construct.ofToken?_eq_some.2 hkind] at hconstruct
            cases hconstruct
            exact hread

/-- One round of reading a program. -/
theorem program_eq_ok {stop : Nat} {ts : List Token} {done body : List Node} :
    program stop done ts = .ok body
      ↔ (skipSeparators ts = [] ∧ body = done.reverse)
        ∨ ∃ t us nodes mid, skipSeparators ts = t :: us
          ∧ (process stop (t :: us) none).Yields nodes mid
          ∧ program stop (nodes.reverse ++ done) mid = .ok body := by
  rw [program]
  split
  · next hts =>
    constructor
    · intro h
      cases h
      exact .inl ⟨hts, rfl⟩
    · intro h
      rcases h with ⟨-, rfl⟩ | ⟨_, _, _, _, h, -⟩
      · rfl
      · rw [hts] at h
        cases h
  · next t us hts =>
    constructor
    · intro h
      split at h
      · cases h
      · next nodes mid shorter hread =>
        exact .inr ⟨t, us, nodes, mid, hts, ⟨shorter, hread⟩, h⟩
    · intro h
      rcases h with ⟨h, -⟩ | ⟨_, _, nodes, mid, h, ⟨shorter, hread⟩, hprogram⟩
      · rw [hts] at h
        cases h
      · rw [hts] at h
        cases h
        rw [hread]
        exact hprogram

end Build

end ScopedScript
