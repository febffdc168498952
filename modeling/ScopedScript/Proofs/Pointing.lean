/-
Where the spans of trees and of syntax errors come from.

Building makes spans in two ways only: it takes them over from tokens, and
it joins two of them. The one exception is the empty span behind the last
token, at which errors are reported when the tokens have run out. So
whatever is true of the spans of all tokens, and of a union when it is true
of both parts, is true of all spans of a tree, and of the span of every
error but those at the end (`build_marked`).

# Going through all readers

`Reply.Marked` says this of a single reply. For a reader to give such
replies it is enough that the readers inside do, on fewer tokens
(`Marking`). An error that would break the rule, the empty span at the
start of the text, is kept for a list of no nodes, and no reader yields
that.
-/
import ScopedScript.Proofs.Phrases
import ScopedScript.Proofs.Blaming

namespace ScopedScript

/-- The spans of the token and of its attributes are as `P` says. -/
def Token.Marked (P : Span → Prop) (t : Token) : Prop :=
  P t.span ∧ ∀ a ∈ t.attributes, P a.span

/-- The spans of the node and of its parameters are as `P` says. -/
def Node.Marked (P : Span → Prop) (n : Node) : Prop :=
  P n.span ∧ ∀ p ∈ n.parameters, P p.span

namespace Build

/-- The spans of what has been read and of the tokens left are as `P` says,
and that of an error is so or is at the end. -/
def Reply.Marked {n : Nat} {α : Type} (P : Span → Prop) (stop : Nat) (R : α → Prop) :
    Reply n α → Prop
  | .ok a rest _ => R a ∧ ∀ t ∈ rest, t.Marked P
  | .fail e _ _ => P e.span ∨ e.span = .point stop

namespace Reply.Marked

variable {P : Span → Prop} {stop m n : Nat} {α β : Type} {R : α → Prop} {Q : β → Prop}
  {r : Reply m α}

theorem widen (h : m ≤ n) (hr : r.Marked P stop R) : (r.widen h).Marked P stop R := by
  cases r with
  | ok a rest shorter => exact hr
  | fail e rest noLonger => exact hr

/-- A context takes over the span of the error. -/
theorem within (context : Context) (hr : r.Marked P stop R) :
    (r.within context).Marked P stop R := by
  cases r with
  | ok a rest shorter => exact hr
  | fail e rest noLonger => exact hr

/-- The second reader may rely on what is known of the value and of the tokens
left. -/
theorem andThen {h : m ≤ n} {next : α → (rest : List Token) → rest.length < m → Reply n β}
    (hr : r.Marked P stop R)
    (hnext : ∀ a rest shorter, R a → (∀ t ∈ rest, t.Marked P) →
      (next a rest shorter).Marked P stop Q) :
    (r.andThen h next).Marked P stop Q := by
  cases r with
  | ok a rest shorter => exact hnext a rest shorter hr.1 hr.2
  | fail e rest noLonger => exact hr

end Reply.Marked

/-- There are nodes, and all spans in them are as `P` says. -/
def NodesMarked (P : Span → Prop) (nodes : List Node) : Prop :=
  nodes ≠ [] ∧ ∀ n ∈ nodes, n.All (Node.Marked P)

/-- A single node is there, and all spans are in it. -/
theorem NodesMarked.singleton {P : Span → Prop} {n : Node} (h : n.All (Node.Marked P)) :
    NodesMarked P [n] := by
  refine ⟨List.cons_ne_nil _ _, fun m hm => ?_⟩
  rw [List.mem_singleton.1 hm]
  exact h

/-- Reading from fewer than `n` tokens takes all spans from them and from the
left operand. -/
def Marking (P : Span → Prop) (stop n : Nat) : Prop :=
  ∀ (ts : List Token) (left : Option Node), ts.length < n → (∀ t ∈ ts, t.Marked P) →
    (∀ node ∈ left, node.All (Node.Marked P)) →
    (process stop ts left).Marked P stop (NodesMarked P)

/-- Reading that is so on many tokens is so on fewer. -/
theorem Marking.mono {P : Span → Prop} {stop m n : Nat} (h : Marking P stop n) (hle : m ≤ n) :
    Marking P stop m :=
  fun ts left hlen => h ts left (Nat.lt_of_lt_of_le hlen hle)

/-- Reading with nothing at the left. -/
theorem Marking.afresh {P : Span → Prop} {stop n : Nat} (h : Marking P stop n) {ts : List Token}
    (hlen : ts.length < n) (hts : ∀ t ∈ ts, t.Marked P) :
    (process stop ts none).Marked P stop (NodesMarked P) := by
  refine h ts none hlen hts ?_
  intro node hnode
  cases hnode

section Readers

variable {P : Span → Prop} {stop n : Nat} {ts : List Token}

-- ========================================================== tokens at hand

/-- Tokens that are left after skipping were there before. -/
theorem marked_skipNewLines (hts : ∀ t ∈ ts, t.Marked P) : ∀ t ∈ skipNewLines ts, t.Marked P :=
  fun t ht => hts t ((List.dropWhile_sublist _).subset ht)

theorem marked_skipSeparators (hts : ∀ t ∈ ts, t.Marked P) : ∀ t ∈ skipSeparators ts, t.Marked P :=
  fun t ht => hts t ((List.dropWhile_sublist _).subset ht)

/-- A required token is one of the tokens, and so is what is found in its
place. If there is none the error is at the end. -/
theorem require_marked (required : Required) (hts : ∀ t ∈ ts, t.Marked P) :
    (require required stop ts).Marked P stop (Token.Marked P) := by
  cases ts with
  | nil => exact .inr rfl
  | cons t rest =>
      obtain ⟨ht, hrest⟩ := List.forall_mem_cons.1 hts
      show Reply.Marked P stop _ (if t.kind = required.kind then _ else _)
      by_cases hkind : t.kind = required.kind
      · rw [if_pos hkind]
        exact ⟨ht, hrest⟩
      · rw [if_neg hkind]
        exact .inl ht.1

variable (hunion : ∀ a b, P a → P b → P (a.union b))

include hunion

/-- The error for more than one node is at the union of the first two spans.
For no nodes it would be at the start of the text, but there are some. -/
theorem single_marked (place : Operand) {nodes : List Node} (hnodes : NodesMarked P nodes) :
    match single place nodes with
    | .ok node => node.All (Node.Marked P)
    | .error e => P e.span := by
  obtain ⟨hne, hall⟩ := hnodes
  match nodes with
  | [] => exact absurd rfl hne
  | [node] => exact hall node List.mem_cons_self
  | first :: second :: rest =>
      have hfirst := hall first List.mem_cons_self
      have hsecond := hall second (List.mem_cons_of_mem _ List.mem_cons_self)
      exact hunion _ _ hfirst.self.1 hsecond.self.1

variable (hread : Marking P stop n) {h : ts.length < n}

include hread

/-- An operand has its spans from the tokens it is read from. -/
theorem operand_marked (place : Operand) (hts : ∀ t ∈ ts, t.Marked P) :
    (operand (reader stop) place ts h).Marked P stop (Node.All (Node.Marked P)) := by
  refine (hread.afresh h hts).andThen fun nodes rest shorter hnodes hrest => ?_
  have hsingle := single_marked hunion place hnodes
  cases hs : single place nodes with
  | ok node =>
      rw [hs] at hsingle
      exact ⟨hsingle, hrest⟩
  | error e =>
      rw [hs] at hsingle
      exact .inl hsingle

omit hunion in
/-- What goes on from a node has its spans from the node and the tokens. -/
theorem chain_marked {node : Node} (hnode : node.All (Node.Marked P))
    (hts : ∀ t ∈ ts, t.Marked P) :
    (chain (reader stop) node ts h).Marked P stop (NodesMarked P) := by
  unfold chain
  by_cases hcontinues : continues ts = true
  · rw [if_pos hcontinues]
    refine (hread ts (some node) h hts ?_).widen (Nat.le_of_lt h)
    rintro left ⟨⟩
    exact hnode
  · rw [if_neg hcontinues]
    exact ⟨.singleton hnode, hts⟩

-- =================================================================== loops

/-- What a loop yields: nodes, and the span of the token that closes it. -/
def LoopMarked (P : Span → Prop) (result : List Node × Span) : Prop :=
  (∀ n ∈ result.1, n.All (Node.Marked P)) ∧ P result.2

/-- Arguments have their spans from their tokens, and an error in the list has
its span from the token at hand or from the opening parenthesis. The induction
is on the tokens left. -/
theorem arguments_marked {opening : Span} (hopening : P opening) {done : List Node}
    (hdone : ∀ n ∈ done, n.All (Node.Marked P)) (hts : ∀ t ∈ ts, t.Marked P) :
    (arguments (reader stop) opening done ts h).Marked P stop (LoopMarked P) := by
  induction hn : ts.length using Nat.strongRecOn generalizing ts done with
  | ind m ih =>
      have hskip := marked_skipNewLines hts
      have hlen := length_skipNewLines_le ts
      rw [arguments]
      split
      · exact .inl hopening
      · next t rest hrest =>
        rw [hrest] at hskip hlen
        obtain ⟨ht, hmore⟩ := List.forall_mem_cons.1 hskip
        by_cases hclose : t.kind = .closeParen
        · rw [if_pos hclose]
          exact ⟨⟨fun n hn => hdone n (List.mem_reverse.1 hn), ht.1⟩, hmore⟩
        · rw [if_neg hclose]
          refine ((operand_marked hunion hread .argument hskip).within _).andThen
            fun argument after shorter hargument hafter => ?_
          have hskip' := marked_skipNewLines hafter
          have hlen' := length_skipNewLines_le after
          have hdone' := List.forall_mem_cons.2 ⟨hargument, hdone⟩
          dsimp only
          split
          · exact .inl hopening
          · next next left hnext =>
            rw [hnext] at hskip' hlen'
            obtain ⟨hn', hleft⟩ := List.forall_mem_cons.1 hskip'
            by_cases hcomma : next.kind = .comma
            · rw [if_pos hcomma]
              refine ih left.length ?_ hdone' hleft rfl
              simp only [List.length_cons] at *
              omega
            · rw [if_neg hcomma]
              by_cases hend : next.kind = .closeParen
              · rw [if_pos hend]
                exact ⟨⟨fun n hn => hdone' n (List.mem_reverse.1 hn), hn'.1⟩, hleft⟩
              · rw [if_neg hend]
                exact .inl hn'.1

omit hunion in
/-- The same for statements, with the opening brace. -/
theorem statements_marked {opening : Span} (hopening : P opening) {done : List Node}
    (hdone : ∀ n ∈ done, n.All (Node.Marked P)) (hts : ∀ t ∈ ts, t.Marked P) :
    (statements (reader stop) opening done ts h).Marked P stop (LoopMarked P) := by
  induction hn : ts.length using Nat.strongRecOn generalizing ts done with
  | ind m ih =>
      have hskip := marked_skipSeparators hts
      have hlen := length_skipSeparators_le ts
      rw [statements]
      split
      · exact .inl hopening
      · next t rest hrest =>
        rw [hrest] at hskip hlen
        obtain ⟨ht, hmore⟩ := List.forall_mem_cons.1 hskip
        by_cases hclose : t.kind = .closeBlock
        · rw [if_pos hclose]
          exact ⟨⟨fun n hn => hdone n (List.mem_reverse.1 hn), ht.1⟩, hmore⟩
        · rw [if_neg hclose]
          have hlt : (t :: rest).length < n := Nat.lt_of_le_of_lt hlen h
          refine ((hread.afresh hlt hskip).within .block).andThen
            fun nodes after shorter hnodes hafter => ?_
          refine ih after.length ?_ ?_ hafter rfl
          · simp only [List.length_cons] at *
            omega
          · intro n hn
            rcases List.mem_append.1 hn with hn | hn
            · exact hnodes.2 n (List.mem_reverse.1 hn)
            · exact hdone n hn

end Readers

-- ============================================================== constructs

section Constructs

variable {P : Span → Prop} {stop n : Nat} {token : Token} {rest : List Token} {left : Option Node}

/-- A node that declares no parameters. -/
theorem all_marked_of_children {node : Node} (hspan : P node.span)
    (hparameters : node.parameters = [])
    (hchildren : ∀ child ∈ node.children, child.All (Node.Marked P)) :
    node.All (Node.Marked P) := by
  refine .mk ⟨hspan, ?_⟩ hchildren
  rw [hparameters]
  exact nofun

/-- A node without children and parameters has one span. -/
theorem all_marked_leaf {node : Node} (hspan : P node.span) (hparameters : node.parameters = [])
    (hchildren : node.children = []) : node.All (Node.Marked P) := by
  refine all_marked_of_children hspan hparameters ?_
  rw [hchildren]
  exact nofun

/-- A construct that must stand alone is reported at its own token. -/
theorem alone_marked {α : Type} {R : α → Prop} {h : rest.length < n} {next : Reply n α}
    (htoken : token.Marked P) (hnext : next.Marked P stop R) :
    (alone left token rest h next).Marked P stop R := by
  cases left with
  | none => exact hnext
  | some node => exact .inl htoken.1

/-- A construct that must not stand alone is reported at its own token;
otherwise its left operand is as said. -/
theorem joined_marked {α : Type} {R : α → Prop} {h : rest.length < n} {next : Node → Reply n α}
    (htoken : token.Marked P) (hleft : ∀ node ∈ left, node.All (Node.Marked P))
    (hnext : ∀ node, node.All (Node.Marked P) → (next node).Marked P stop R) :
    (joined left token rest h next).Marked P stop R := by
  cases left with
  | none => exact .inl htoken.1
  | some node => exact hnext node (hleft node rfl)

variable (hunion : ∀ a b, P a → P b → P (a.union b)) (hread : Marking P stop (rest.length + 1))
  (htoken : token.Marked P) (hrest : ∀ t ∈ rest, t.Marked P)

section Leaves

include hread htoken hrest

theorem reference_marked :
    (reference token rest (reader stop) left).Marked P stop (NodesMarked P) := by
  refine alone_marked htoken (chain_marked hread ?_ hrest)
  exact all_marked_leaf htoken.1 rfl rfl

theorem number_marked : (number token rest (reader stop) left).Marked P stop (NodesMarked P) := by
  refine alone_marked htoken ?_
  cases Number.read? token.text with
  | none => exact .inl htoken.1
  | some value => exact chain_marked hread (all_marked_leaf htoken.1 rfl rfl) hrest

theorem string_marked : (string token rest (reader stop) left).Marked P stop (NodesMarked P) := by
  refine alone_marked htoken (chain_marked hread ?_ hrest)
  exact all_marked_leaf htoken.1 rfl rfl

omit hread in
theorem boolean_marked : (boolean token rest left).Marked P stop (NodesMarked P) :=
  alone_marked htoken ⟨.singleton (all_marked_leaf htoken.1 rfl rfl), hrest⟩

end Leaves

/-- A node with one part. -/
theorem all_marked_single {node inner : Node} (hspan : P node.span)
    (hparameters : ∀ p ∈ node.parameters, P p.span) (hchildren : node.children = [inner])
    (hinner : inner.All (Node.Marked P)) : node.All (Node.Marked P) := by
  refine .mk ⟨hspan, hparameters⟩ ?_
  rw [hchildren]
  intro child hchild
  rw [List.mem_singleton.1 hchild]
  exact hinner

include hunion hread htoken hrest

/-- The span of an assignment joins those of target and value. -/
theorem assignment_marked (hleft : ∀ node ∈ left, node.All (Node.Marked P)) :
    (assignment token rest (reader stop) left).Marked P stop (NodesMarked P) := by
  refine joined_marked htoken hleft fun target htarget => ?_
  refine ((operand_marked hunion hread .value hrest).within .assignedValue).andThen
    fun value after shorter hvalue hafter => ⟨.singleton ?_, hafter⟩
  refine all_marked_of_children (hunion _ _ htarget.self.1 hvalue.self.1) rfl ?_
  exact List.forall_mem_cons.2 ⟨htarget, List.forall_mem_cons.2 ⟨hvalue, nofun⟩⟩

/-- The span of a binary operation joins those of its operands. An operator
without a meaning is reported at its token. -/
theorem binary_marked (hleft : ∀ node ∈ left, node.All (Node.Marked P)) :
    (binary token rest (reader stop) left).Marked P stop (NodesMarked P) := by
  refine joined_marked htoken hleft fun first hfirst => ?_
  cases Operator.ofSymbol? token.text with
  | none => exact .inl htoken.1
  | some operator =>
      refine ((operand_marked hunion hread .operand hrest).within _).andThen
        fun second after shorter hsecond hafter => ⟨.singleton ?_, hafter⟩
      refine all_marked_of_children (hunion _ _ hfirst.self.1 hsecond.self.1) rfl ?_
      exact List.forall_mem_cons.2 ⟨hfirst, List.forall_mem_cons.2 ⟨hsecond, nofun⟩⟩

/-- The span of a call joins those of the callee and the closing parenthesis. -/
theorem call_marked {callee : Node} (hcallee : callee.All (Node.Marked P)) :
    (call token rest (reader stop) callee).Marked P stop (NodesMarked P) := by
  have hnone : ∀ n ∈ ([] : List Node), n.All (Node.Marked P) := nofun
  refine ((arguments_marked hunion hread htoken.1 hnone hrest).within _).andThen
    fun (args, closing) after shorter hresult hafter => ?_
  refine chain_marked hread ?_ hafter
  refine all_marked_of_children (hunion _ _ hcallee.self.1 hresult.2) rfl ?_
  exact List.forall_mem_cons.2 ⟨hcallee, hresult.1⟩

/-- The span of parentheses joins those of the two tokens. -/
theorem parenthesized_marked :
    (parenthesized stop token rest (reader stop)).Marked P stop (NodesMarked P) := by
  have hlen := length_skipNewLines_le rest
  unfold parenthesized
  refine ((operand_marked hunion hread .expression (marked_skipNewLines hrest)).within _).andThen
    fun inner after shorter hinner hafter => ?_
  refine ((require_marked .closeParen (marked_skipNewLines hafter)).within _).andThen
    fun closing last shorter' hclosing hlast => ?_
  refine chain_marked hread ?_ hlast
  exact all_marked_single (hunion _ _ htoken.1 hclosing.1) nofun rfl hinner

theorem openParen_marked (hleft : ∀ node ∈ left, node.All (Node.Marked P)) :
    (openParen stop token rest (reader stop) left).Marked P stop (NodesMarked P) := by
  cases left with
  | none => exact parenthesized_marked hunion hread htoken hrest
  | some callee => exact call_marked hunion hread htoken hrest (hleft callee rfl)

/-- The span of an access joins those of the object and the name. -/
theorem readProperty_marked (hleft : ∀ node ∈ left, node.All (Node.Marked P)) :
    (readProperty stop token rest (reader stop) left).Marked P stop (NodesMarked P) := by
  refine joined_marked htoken hleft fun object hobject => ?_
  refine (require_marked .propertyName hrest).andThen fun property after shorter hproperty hafter => ?_
  refine chain_marked hread ?_ hafter
  exact all_marked_single (hunion _ _ hobject.self.1 hproperty.1) nofun rfl hobject

/-- The span of a block joins those of its braces. -/
theorem block_marked : (block token rest (reader stop) left).Marked P stop (NodesMarked P) := by
  refine alone_marked htoken ?_
  have hnone : ∀ n ∈ ([] : List Node), n.All (Node.Marked P) := nofun
  refine (statements_marked hread htoken.1 hnone hrest).andThen
    fun (body, closing) after shorter hresult hafter => ⟨.singleton ?_, hafter⟩
  exact all_marked_of_children (hunion _ _ htoken.1 hresult.2) rfl hresult.1

/-- The spans of both nodes of a declaration join that of the name, which they
share, with others. -/
theorem variableDeclaration_marked :
    (variableDeclaration stop token rest (reader stop) left).Marked P stop (NodesMarked P) := by
  refine alone_marked htoken ?_
  refine (require_marked .variableName hrest).andThen fun name after shorter hname hafter => ?_
  have hdeclaration : (Node.declaration (token.span.union name.span) name.text).All
      (Node.Marked P) := all_marked_leaf (hunion _ _ htoken.1 hname.1) rfl rfl
  cases after with
  | nil => exact ⟨.singleton hdeclaration, hafter⟩
  | cons equals value =>
      obtain ⟨hequals, hvalue⟩ := List.forall_mem_cons.1 hafter
      show Reply.Marked P stop _ (if equals.kind = .assign then _ else _)
      by_cases hassign : equals.kind = .assign
      · rw [if_pos hassign]
        have hshort : Marking P stop (value.length + 1) := by
          refine hread.mono ?_
          simp only [List.length_cons] at shorter
          omega
        have htarget : ∀ node ∈ some (Node.reference name.span name.text),
            node.All (Node.Marked P) := by
          rintro node ⟨⟩
          exact all_marked_leaf hname.1 rfl rfl
        refine ((assignment_marked hunion hshort hequals hvalue htarget).within _).andThen
          fun nodes last shorter' hnodes hlast => ⟨⟨List.cons_ne_nil _ _, ?_⟩, hlast⟩
        exact List.forall_mem_cons.2 ⟨hdeclaration, hnodes.2⟩
      · rw [if_neg hassign]
        exact ⟨.singleton hdeclaration, hafter⟩

omit hread htoken hrest in
/-- A body that is no block is reported at its span, and more than one node at
the union of the first two. -/
theorem functionBody_marked (name : String) {nodes : List Node} (hnodes : NodesMarked P nodes) :
    match functionBody name nodes with
    | .ok body => body.All (Node.Marked P)
    | .error e => P e.span := by
  have hsingle := single_marked hunion .functionBody hnodes
  unfold functionBody
  cases hs : single .functionBody nodes with
  | error e =>
      rw [hs] at hsingle
      exact hsingle
  | ok node =>
      rw [hs] at hsingle
      cases node with
      | block span body => exact hsingle
      | _ => exact hsingle.self.1

/-- The parameters of a function have the spans of attributes. -/
theorem function_marked :
    (function stop token rest (reader stop) left).Marked P stop (NodesMarked P) := by
  refine alone_marked htoken ?_
  cases token.attribute? .name with
  | none => exact .inl htoken.1
  | some declared =>
      obtain ⟨key, name, span⟩ := declared
      have hskip := marked_skipNewLines hrest
      have hlen := length_skipNewLines_le rest
      have hparameters : ∀ p ∈ (token.attributesOf .parameter).map fun a =>
          Parameter.mk a.value a.span, P p.span := by
        intro p hp
        obtain ⟨a, ha, rfl⟩ := List.mem_map.1 hp
        exact htoken.2 a (List.mem_filter.1 ha).1
      dsimp only
      split
      · exact .inr rfl
      · next brace inner hts =>
        rw [hts] at hskip hlen
        by_cases hopen : brace.kind = .openBlock
        · rw [if_pos hopen]
          have hlt : (brace :: inner).length < rest.length + 1 := Nat.lt_succ_of_le hlen
          refine ((hread.afresh hlt hskip).within _).andThen
            fun nodes after shorter hnodes hafter => ?_
          have hbody := functionBody_marked hunion name hnodes
          cases hs : functionBody name nodes with
          | error e =>
              rw [hs] at hbody
              exact .inl hbody
          | ok body =>
              rw [hs] at hbody
              refine ⟨.singleton ?_, hafter⟩
              exact all_marked_single (hunion _ _ htoken.1 hbody.self.1) hparameters rfl hbody
        · rw [if_neg hopen]
          exact .inl (hskip brace List.mem_cons_self).1

/-- The span of a return is that of its token, joined with that of its value
if it has one. -/
theorem ret_marked : (ret token rest (reader stop) left).Marked P stop (NodesMarked P) := by
  refine alone_marked htoken ?_
  have hbare : NodesMarked P [.ret token.span none] :=
    .singleton (all_marked_leaf htoken.1 rfl rfl)
  cases rest with
  | nil => exact ⟨hbare, nofun⟩
  | cons next more =>
      show Reply.Marked P stop _
        (if (next.kind.isSeparator || next.kind == .closeBlock) = true then _ else _)
      by_cases hend : (next.kind.isSeparator || next.kind == .closeBlock) = true
      · rw [if_pos hend]
        exact ⟨hbare, hrest⟩
      · rw [if_neg hend]
        refine ((operand_marked hunion hread .returnValue hrest).within _).andThen
          fun value after shorter hvalue hafter => ⟨.singleton ?_, hafter⟩
        exact all_marked_single (hunion _ _ htoken.1 hvalue.self.1) nofun rfl hvalue

end Constructs

-- ================================================================ programs

variable {P : Span → Prop} {stop : Nat} (hunion : ∀ a b, P a → P b → P (a.union b))

include hunion

/-- One level of reading takes all spans from the tokens if reading inside
does. -/
theorem dispatch_marked {ts : List Token} {left : Option Node} (hread : Marking P stop ts.length)
    (hts : ∀ t ∈ ts, t.Marked P) (hleft : ∀ node ∈ left, node.All (Node.Marked P)) :
    (dispatch stop ts (reader stop) left).Marked P stop (NodesMarked P) := by
  cases ts with
  | nil => exact .inr rfl
  | cons token rest =>
      obtain ⟨htoken, hrest⟩ := List.forall_mem_cons.1 hts
      cases hconstruct : Construct.ofToken? token.kind with
      | none =>
          rw [dispatch_of_none hconstruct]
          exact .inl htoken.1
      | some construct =>
          rw [dispatch_of_some hconstruct]
          cases construct with
          | reference => exact reference_marked hread htoken hrest
          | number => exact number_marked hread htoken hrest
          | string => exact string_marked hread htoken hrest
          | boolean => exact boolean_marked htoken hrest
          | assignment => exact assignment_marked hunion hread htoken hrest hleft
          | binary => exact binary_marked hunion hread htoken hrest hleft
          | openParen => exact openParen_marked hunion hread htoken hrest hleft
          | readProperty => exact readProperty_marked hunion hread htoken hrest hleft
          | block => exact block_marked hunion hread htoken hrest
          | variableDeclaration => exact variableDeclaration_marked hunion hread htoken hrest
          | function => exact function_marked hunion hread htoken hrest
          | ret => exact ret_marked hunion hread htoken hrest

/-- Reading takes all spans from tokens. The induction is on the number of
tokens, and readers inside have fewer. -/
theorem marking (n : Nat) : Marking P stop n := by
  induction n with
  | zero => exact fun ts left h => absurd h (Nat.not_lt_zero _)
  | succ n ih =>
      intro ts left h hts hleft
      rw [process_eq_dispatch]
      exact dispatch_marked hunion (ih.mono (Nat.le_of_lt_succ h)) hts hleft

/-- So do whole programs, statement after statement. -/
theorem program_marked {done : List Node} (hdone : ∀ n ∈ done, n.All (Node.Marked P))
    {ts : List Token} (hts : ∀ t ∈ ts, t.Marked P) :
    match program stop done ts with
    | .ok nodes => ∀ n ∈ nodes, n.All (Node.Marked P)
    | .error e => P e.span ∨ e.span = .point stop := by
  induction hn : ts.length using Nat.strongRecOn generalizing ts done with
  | ind m ih =>
      have hskip := marked_skipSeparators hts
      have hlen := length_skipSeparators_le ts
      cases hrest : skipSeparators ts with
      | nil =>
          rw [program_of_nil hrest]
          exact fun n hn => hdone n (List.mem_reverse.1 hn)
      | cons t rest =>
          rw [hrest] at hskip hlen
          rw [program_of_cons hrest]
          have hfirst : (process stop (t :: rest) none).Marked P stop (NodesMarked P) :=
            (marking hunion _).afresh (Nat.lt_succ_self _) hskip
          cases hprocess : process stop (t :: rest) none with
          | fail e after noLonger =>
              rw [hprocess] at hfirst
              exact hfirst
          | ok nodes after shorter =>
              rw [hprocess] at hfirst
              refine ih after.length ?_ ?_ hfirst.2 rfl
              · simp only [List.length_cons] at hlen shorter
                omega
              · intro n hn
                rcases List.mem_append.1 hn with hn | hn
                · exact hfirst.1.2 n (List.mem_reverse.1 hn)
                · exact hdone n hn

end Build

/-- The spans of a tree come from the tokens, and so does that of an error,
unless it is behind the last token. -/
theorem build_marked {P : Span → Prop} (hunion : ∀ a b, P a → P b → P (a.union b))
    {tokens : List Token} (htokens : ∀ t ∈ tokens, t.Marked P) :
    match build tokens with
    | .ok root => ∀ n ∈ root.children, n.All (Node.Marked P)
    | .error e => P e.span ∨ e.span = .point (endOfTokens tokens) := by
  have hnone : ∀ n ∈ ([] : List Node), n.All (Node.Marked P) := nofun
  have hprogram := @Build.program_marked P (endOfTokens tokens) hunion [] hnone tokens htokens
  rw [build_eq]
  cases hresult : Build.program (endOfTokens tokens) [] tokens with
  | ok nodes =>
      rw [hresult] at hprogram
      exact hprogram
  | error e =>
      rw [hresult] at hprogram
      exact hprogram

end ScopedScript
