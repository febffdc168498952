/-
Nodes and the tokens they are read from.

Every node of a program, however deep in the tree, has been read from some
tokens that stand side by side, and a program of these tokens alone is that
node. Two things are to be shown for this: that the tokens of a node do not
depend on what stands around them, and that the span of a node is the
extent of its tokens.

# Left operands

What stands around the tokens of a node is a matter of the next token only,
and where there is no next token every phrase may stop (`at_end`). The
exception are left operands. The grammar reads `f(x).y` from left to right
and hands `f(x)` on to a tail, so there is no phrase for `f(x)` in the
derivation. `Opens` says what the tokens before a tail have in common:
whatever tail comes next, they are the beginning of a statement. With no
tail they are a statement themselves.
-/
import ScopedScript.Proofs.Concatenation
import ScopedScript.Proofs.Lexical

namespace ScopedScript

namespace Node

/-- The node and all nodes below it satisfy a predicate. -/
inductive All (P : Node → Prop) : Node → Prop
  | mk {node : Node} (here : P node) (below : ∀ child ∈ node.children, All P child) : All P node

namespace All

variable {P Q : Node → Prop} {node : Node}

theorem self (h : All P node) : P node := by
  cases h with
  | mk here _ => exact here

theorem child (h : All P node) : ∀ child ∈ node.children, All P child := by
  cases h with
  | mk _ below => exact below

theorem imp (hpq : ∀ n, P n → Q n) (h : All P node) : All Q node := by
  induction h with
  | mk here _ ih => exact .mk (hpq _ here) ih

theorem of_at? (h : All P node) {path : Path} {n : Node} (hn : node.at? path = some n) : P n := by
  induction path generalizing node with
  | nil =>
      cases hn
      exact h.self
  | cons i path ih =>
      obtain ⟨child, hchild, hn⟩ := Option.bind_eq_some_iff.1 hn
      exact ih (h.child child (List.mem_of_getElem? hchild)) hn

end All

/-- What is seen of a node of a tree says that there are a tree and a node. -/
theorem exists_of_seen {α : Type} {result : Except Error Node} {path : Path} {see : Node → α}
    {a : α} (h : (result.toOption.bind (·.at? path)).map see = some a) :
    ∃ tree node, result = .ok tree ∧ tree.at? path = some node ∧ see node = a := by
  obtain ⟨node, hnode, hsee⟩ := Option.map_eq_some_iff.1 h
  obtain ⟨tree, htree, hnode⟩ := Option.bind_eq_some_iff.1 hnode
  cases result with
  | error e => cases htree
  | ok tree' =>
      cases htree
      exact ⟨tree, node, rfl, hnode, hsee⟩

end Node

namespace Grammar

-- ================================================================== extents

/-- From the start of the first token to the end of the last one. -/
def extent (ts : List Token) : Span := ⟨(ts.head?.map (·.span.start)).getD 0, endOfTokens ts⟩

/-- Later tokens start later and end later. -/
def InOrder (ts : List Token) : Prop :=
  ts.Pairwise fun t u => t.span.start ≤ u.span.start ∧ t.span.stop ≤ u.span.stop

@[simp] theorem extent_singleton (t : Token) : extent [t] = t.span := rfl

theorem endOfTokens_concat (ts : List Token) (t : Token) : endOfTokens (ts ++ [t]) = t.span.stop := by
  simp [endOfTokens]

theorem endOfTokens_cons {t : Token} {ts : List Token} (h : ts ≠ []) :
    endOfTokens (t :: ts) = endOfTokens ts := by
  rw [← List.dropLast_concat_getLast h, ← List.cons_append, endOfTokens_concat, endOfTokens_concat]

/-- The first tokens and the last ones, with all that is between them. -/
theorem extent_union {first middle last : List Token} (hfirst : first ≠ []) (hlast : last ≠ [])
    (h : InOrder (first ++ (middle ++ last))) :
    (extent first).union (extent last) = extent (first ++ (middle ++ last)) := by
  have hbefore : ∀ t ∈ first, ∀ u ∈ last,
      t.span.start ≤ u.span.start ∧ t.span.stop ≤ u.span.stop :=
    fun t ht u hu => (List.pairwise_append.1 h).2.2 t ht u (List.mem_append_right _ hu)
  have hstart : min (extent first).start (extent last).start
      = (extent (first ++ (middle ++ last))).start := by
    cases first with
    | nil => exact absurd rfl hfirst
    | cons a first =>
        cases last with
        | nil => exact absurd rfl hlast
        | cons b last => exact Nat.min_eq_left (hbefore a (by simp) b (by simp)).1
  have hstop : max (extent first).stop (extent last).stop
      = (extent (first ++ (middle ++ last))).stop := by
    have hends := (hbefore _ (List.getLast_mem hfirst) _ (List.getLast_mem hlast)).2
    rw [← List.dropLast_concat_getLast hfirst, ← List.dropLast_concat_getLast hlast]
    simp only [extent, ← List.append_assoc, endOfTokens_concat]
    exact Nat.max_eq_right hends
  rw [Span.union, hstart, hstop]

theorem InOrder.left {ts us : List Token} (h : InOrder (ts ++ us)) : InOrder ts :=
  (List.pairwise_append.1 h).1

theorem InOrder.right {ts us : List Token} (h : InOrder (ts ++ us)) : InOrder us :=
  (List.pairwise_append.1 h).2.1

theorem Derives.tokens_ne_nil {ts next : List Token} {nodes : List Node}
    (h : Derives .statement ts next nodes) : ts ≠ [] := by
  cases h with
  | blockStatement hblock =>
      cases hblock
      exact List.cons_ne_nil _ _
  | _ => exact List.cons_ne_nil _ _

/-- The span of a node that has been read from tokens, after others if it is
a tail. -/
def SpansExtent (n : Node) (ts : List Token) : Phrase → Prop
  | .statement | .block => InOrder ts → n.span = extent ts
  | .tail left => ∀ before, before ≠ [] → left.span = extent before → InOrder (before ++ ts) →
      n.span = extent (before ++ ts)
  | .body | .arguments => True

/-- The span of a node is the extent of its tokens. -/
theorem Derives.spansExtent {phrase : Phrase} {ts next : List Token} {nodes : List Node}
    (h : Derives phrase ts next nodes) {n : Node} (hn : nodes = [n]) : SpansExtent n ts phrase := by
  induction h generalizing n with
  | noStatement | nextStatement | noArgument | lastArgument | nextArgument => trivial
  | @block opening body closing next nodes =>
      cases hn
      intro horder
      exact extent_union (List.cons_ne_nil opening []) (List.cons_ne_nil closing []) horder
  | @reference t ts next nodes ht _ ih =>
      exact fun horder => ih hn [t] (List.cons_ne_nil _ _) rfl horder
  | @number t ts next nodes value ht _ _ ih =>
      exact fun horder => ih hn [t] (List.cons_ne_nil _ _) rfl horder
  | @string t ts next nodes ht _ ih =>
      exact fun horder => ih hn [t] (List.cons_ne_nil _ _) rfl horder
  | boolean | bareReturn =>
      cases hn
      exact fun _ => rfl
  | @parenthesized opening before ts after closing rest next inner nodes _ _ _ _ _ _ _ ih =>
      have hsplit : opening :: (before ++ (ts ++ (after ++ closing :: rest)))
          = ([opening] ++ ((before ++ (ts ++ after)) ++ [closing])) ++ rest := by simp
      intro horder
      rw [hsplit] at horder ⊢
      exact ih hn _ (by simp) (extent_union (by simp) (by simp) horder.left) horder
  | blockStatement _ ih => exact ih hn
  | @declaration var name =>
      cases hn
      exact @extent_union [var] [] [name] (by simp) (by simp)
  | initializedDeclaration => cases hn
  | @function header name before ts next body hheader hname hbefore hbody ih =>
      cases hn
      intro (horder : InOrder ([header] ++ (before ++ ts)))
      show header.span.union body.span = extent ([header] ++ (before ++ ts))
      rw [ih rfl horder.right.right, ← extent_union (by simp)
        (tokens_ne_nil (.blockStatement hbody)) horder, extent_singleton]
  | @returnValue t ts next value ht hvalue ih =>
      cases hn
      intro (horder : InOrder ([t] ++ ([] ++ ts)))
      show t.span.union value.span = extent ([t] ++ ([] ++ ts))
      rw [ih rfl horder.right.right, ← extent_union (by simp) hvalue.tokens_ne_nil horder,
        extent_singleton]
  | stop =>
      cases hn
      intro before _ hleft _
      rw [List.append_nil, hleft]
  | @assignment left equals ts next value hequals hvalue ih =>
      cases hn
      intro before hne hleft (horder : InOrder (before ++ ([equals] ++ ts)))
      show left.span.union value.span = extent (before ++ ([equals] ++ ts))
      rw [hleft, ih rfl horder.right.right, extent_union hne hvalue.tokens_ne_nil horder]
  | @binary left t operator ts next right ht hoperator hright ih =>
      cases hn
      intro before hne hleft (horder : InOrder (before ++ ([t] ++ ts)))
      show left.span.union right.span = extent (before ++ ([t] ++ ts))
      rw [hleft, ih rfl horder.right.right, extent_union hne hright.tokens_ne_nil horder]
  | @call left opening ts closing rest next args nodes _ _ _ _ _ ih =>
      intro before hne hleft horder
      have hsplit : before ++ opening :: (ts ++ closing :: rest)
          = (before ++ ((opening :: ts) ++ [closing])) ++ rest := by simp
      rw [hsplit] at horder ⊢
      refine ih hn _ (by simp) ?_ horder
      show left.span.union closing.span = extent (before ++ ((opening :: ts) ++ [closing]))
      rw [hleft, ← extent_union hne (by simp) horder.left, extent_singleton]
  | @property left dot name rest next nodes _ _ _ ih =>
      intro before hne hleft horder
      have hsplit : before ++ dot :: name :: rest = (before ++ ([dot] ++ [name])) ++ rest := by simp
      rw [hsplit] at horder ⊢
      refine ih hn _ (by simp) ?_ horder
      show left.span.union name.span = extent (before ++ ([dot] ++ [name]))
      rw [hleft, ← extent_union hne (by simp) horder.left, extent_singleton]

-- ============================================================= nodes by themselves

/-- With nothing to come every phrase may stop. -/
theorem Derives.at_end {phrase : Phrase} {ts next : List Token} {nodes : List Node}
    (h : Derives phrase ts next nodes) : Derives phrase ts [] nodes :=
  h.of_next nofun

/-- The tokens are a statement up to a tail: whatever the tail is, they are
its beginning. -/
def Opens (before : List Token) (left : Node) : Prop :=
  ∀ ts next nodes, Derives (.tail left) ts next nodes → Derives .statement (before ++ ts) next nodes

theorem Opens.parenthesized {opening closing : Token} {before ts after next : List Token}
    {inner : Node} (hopening : opening.kind = .openParen) (hbefore : NewLines before)
    (hinner : Derives .statement ts (after ++ closing :: next) [inner]) (hafter : NewLines after)
    (hclosing : closing.kind = .closeParen) :
    Opens (opening :: (before ++ (ts ++ (after ++ [closing]))))
      (.parenthesized (opening.span.union closing.span) inner) := by
  intro rest next' nodes htail
  have hinner' : Derives .statement ts (after ++ closing :: (rest ++ next')) [inner] :=
    hinner.of_next (Stops.append (.cons closing) after)
  simpa using Derives.parenthesized hopening hbefore hinner' hafter hclosing htail

theorem Opens.call {before ts next : List Token} {left : Node} {opening closing : Token}
    {args : List Node} (h : Opens before left) (hopening : opening.kind = .openParen)
    (hargs : Derives .arguments ts (closing :: next) args) (hclosing : closing.kind = .closeParen) :
    Opens (before ++ opening :: (ts ++ [closing]))
      (.call (left.span.union closing.span) left args) := by
  intro rest next' nodes htail
  have hargs' : Derives .arguments ts (closing :: (rest ++ next')) args :=
    hargs.of_next (.cons closing)
  simpa using h _ _ _ (.call hopening hargs' hclosing htail)

theorem Opens.property {before : List Token} {left : Node} {dot name : Token}
    (h : Opens before left) (hdot : dot.kind = .dot) (hname : name.kind = .identifier) :
    Opens (before ++ [dot, name]) (.readProperty (left.span.union name.span) left name.text) := by
  intro rest next nodes htail
  simpa using h _ _ _ (.property hdot hname htail)

/-- Among the tokens there are some that are the node and nothing else. -/
def Holds (ts : List Token) (n : Node) : Prop := ∃ us, us <:+: ts ∧ Derives .statement us [] [n]

theorem Opens.holds {before : List Token} {left : Node} (h : Opens before left) :
    Holds before left := by
  refine ⟨before, List.infix_rfl, ?_⟩
  have hwhole := h [] [] [left] (.stop nofun)
  rwa [List.append_nil] at hwhole

theorem Holds.mono {ts us : List Token} (hsub : ts <:+: us) (n : Node) (h : Holds ts n) :
    Holds us n := by
  obtain ⟨vs, hvs, hderives⟩ := h
  exact ⟨vs, hvs.trans hsub, hderives⟩

theorem Derives.holds {ts next : List Token} {n : Node} (h : Derives .statement ts next [n]) :
    Holds ts n := ⟨ts, List.infix_rfl, h.at_end⟩

/-- What tokens hold, more tokens hold. -/
theorem all_holds_mono {ts us : List Token} {n : Node} (hsub : ts <:+: us) (h : n.All (Holds ts)) :
    n.All (Holds us) := h.imp (Holds.mono hsub)

/-- The nodes of a phrase and all nodes below them are held by the tokens of
the phrase, and of a tail by these and the tokens before. -/
def HoldsAll (ts : List Token) (nodes : List Node) : Phrase → Prop
  | .tail left => ∀ before, Opens before left → left.All (Holds before) →
      ∀ n ∈ nodes, n.All (Holds (before ++ ts))
  | _ => ∀ n ∈ nodes, n.All (Holds ts)

/-- A left operand without parts. -/
theorem all_holds_leaf {before : List Token} {left : Node} (h : Opens before left)
    (hleaf : left.children = []) : left.All (Holds before) := by
  refine .mk h.holds ?_
  rw [hleaf]
  exact nofun

theorem Derives.holdsAll {phrase : Phrase} {ts next : List Token} {nodes : List Node}
    (h : Derives phrase ts next nodes) : HoldsAll ts nodes phrase := by
  induction h with
  | noStatement => exact nofun
  | @nextStatement seps ts rest next nodes more _ _ _ ihstatement ihrest =>
      intro n hn
      rcases List.mem_append.1 hn with hn | hn
      · refine all_holds_mono ⟨seps, rest, ?_⟩ (ihstatement n hn)
        simp
      · refine all_holds_mono ⟨seps ++ ts, [], ?_⟩ (ihrest n hn)
        simp
  | @block opening body closing next nodes hopening hbody hclosing ih =>
      intro n hn
      rw [List.mem_singleton.1 hn]
      refine .mk (holds (.blockStatement (.block hopening hbody hclosing))) fun child hchild => ?_
      exact all_holds_mono ⟨[opening], [closing], by simp⟩ (ih child hchild)
  | @reference t ts next nodes ht _ ih =>
      have hopens : Opens [t] (.reference t.span t.text) := fun _ _ _ => .reference ht
      exact ih [t] hopens (all_holds_leaf hopens rfl)
  | @number t ts next nodes value ht hvalue _ ih =>
      have hopens : Opens [t] (.number t.span value) := fun _ _ _ => .number ht hvalue
      exact ih [t] hopens (all_holds_leaf hopens rfl)
  | @string t ts next nodes ht _ ih =>
      have hopens : Opens [t] (.string t.span t.text) := fun _ _ _ => .string ht
      exact ih [t] hopens (all_holds_leaf hopens rfl)
  | @boolean t next ht =>
      intro n hn
      rw [List.mem_singleton.1 hn]
      exact .mk ⟨[t], List.infix_rfl, .boolean ht⟩ nofun
  | @parenthesized opening before ts after closing rest next inner nodes hopening hbefore hinner
      hafter hclosing htail ihinner ih =>
      have hopens := Opens.parenthesized hopening hbefore hinner hafter hclosing
      have hleft : (Node.parenthesized (opening.span.union closing.span) inner).All
          (Holds (opening :: (before ++ (ts ++ (after ++ [closing]))))) := by
        refine .mk hopens.holds fun child hchild => ?_
        exact all_holds_mono ⟨opening :: before, after ++ [closing], by simp⟩ (ihinner child hchild)
      intro n hn
      simpa using ih _ hopens hleft n hn
  | blockStatement _ ih => exact ih
  | declaration hvar hname hnext =>
      intro n hn
      rw [List.mem_singleton.1 hn]
      exact .mk (holds (.declaration hvar hname hnext)) nofun
  | @initializedDeclaration var name equals ts next value hvar hname hequals hvalue ih =>
      have hopens : Opens [name] (.reference name.span name.text) := fun _ _ _ => .reference hname
      have hvalue' := ih value List.mem_cons_self
      intro n hn
      rcases List.mem_cons.1 hn with rfl | hn
      · exact .mk ⟨[var, name], ⟨[], equals :: ts, rfl⟩, .declaration hvar hname nofun⟩ nofun
      · rw [List.mem_singleton.1 hn]
        refine .mk ⟨name :: equals :: ts, ⟨[var], [], by simp⟩, ?_⟩ ?_
        · exact hopens _ _ _ (.assignment hequals hvalue.at_end)
        · intro child hchild
          rcases List.mem_cons.1 hchild with rfl | hchild
          · exact all_holds_mono ⟨[var], equals :: ts, rfl⟩ (all_holds_leaf hopens rfl)
          · rw [List.mem_singleton.1 hchild]
            exact all_holds_mono ⟨[var, name, equals], [], by simp⟩ hvalue'
  | @function header name before ts next body hheader hname hbefore hbody ih =>
      intro n hn
      rw [List.mem_singleton.1 hn]
      refine .mk (holds (.function hheader hname hbefore hbody)) fun child hchild => ?_
      exact all_holds_mono ⟨header :: before, [], by simp⟩ (ih child hchild)
  | bareReturn ht hnext =>
      intro n hn
      rw [List.mem_singleton.1 hn]
      exact .mk (holds (.bareReturn ht hnext)) nofun
  | @returnValue t ts next value ht hvalue ih =>
      intro n hn
      rw [List.mem_singleton.1 hn]
      refine .mk (holds (.returnValue ht hvalue)) fun child hchild => ?_
      exact all_holds_mono ⟨[t], [], by simp⟩ (ih child hchild)
  | stop =>
      intro before _ hleft n hn
      rw [List.mem_singleton.1 hn, List.append_nil]
      exact hleft
  | @assignment left equals ts next value hequals hvalue ih =>
      intro before hopens hleft n hn
      rw [List.mem_singleton.1 hn]
      refine .mk (holds (hopens _ _ _ (.assignment hequals hvalue))) fun child hchild => ?_
      rcases List.mem_cons.1 hchild with rfl | hchild
      · exact all_holds_mono (List.prefix_append before _).isInfix hleft
      · exact all_holds_mono ⟨before ++ [equals], [], by simp⟩ (ih child hchild)
  | @binary left t operator ts next right ht hoperator hright ih =>
      intro before hopens hleft n hn
      rw [List.mem_singleton.1 hn]
      refine .mk (holds (hopens _ _ _ (.binary ht hoperator hright))) fun child hchild => ?_
      rcases List.mem_cons.1 hchild with rfl | hchild
      · exact all_holds_mono (List.prefix_append before _).isInfix hleft
      · exact all_holds_mono ⟨before ++ [t], [], by simp⟩ (ih child hchild)
  | @call left opening ts closing rest next args nodes hopening hargs hclosing htail ihargs ih =>
      intro before hopens hleft n hn
      have hopens' := hopens.call hopening hargs hclosing
      have hleft' : (Node.call (left.span.union closing.span) left args).All
          (Holds (before ++ opening :: (ts ++ [closing]))) := by
        refine .mk hopens'.holds fun child hchild => ?_
        rcases List.mem_cons.1 hchild with rfl | hchild
        · exact all_holds_mono (List.prefix_append before _).isInfix hleft
        · exact all_holds_mono ⟨before ++ [opening], [closing], by simp⟩ (ihargs child hchild)
      simpa using ih _ hopens' hleft' n hn
  | @property left dot name rest next nodes hdot hname htail ih =>
      intro before hopens hleft n hn
      have hopens' := hopens.property hdot hname
      have hleft' : (Node.readProperty (left.span.union name.span) left name.text).All
          (Holds (before ++ [dot, name])) := by
        refine .mk hopens'.holds fun child hchild => ?_
        rw [List.mem_singleton.1 hchild]
        exact all_holds_mono (List.prefix_append before _).isInfix hleft
      simpa using ih _ hopens' hleft' n hn
  | noArgument => exact nofun
  | @lastArgument before ts after next arg _ _ _ ih =>
      intro n hn
      exact all_holds_mono ⟨before, after, by simp⟩ (ih n hn)
  | @nextArgument before ts after comma rest next arg args _ _ _ _ _ iharg ihrest =>
      intro n hn
      rcases List.mem_cons.1 hn with rfl | hn
      · exact all_holds_mono ⟨before, after ++ comma :: rest, by simp⟩ (iharg n List.mem_cons_self)
      · exact all_holds_mono ⟨before ++ (ts ++ (after ++ [comma])), [], by simp⟩ (ihrest n hn)

/-- Below the root of a program every node is held by its tokens. -/
theorem Derives.holds_of_at? {ts next : List Token} {body : List Node}
    (h : Derives .body ts next body) {span : Span} {i : Nat} {path : Path} {n : Node}
    (hn : (Node.root span body).at? (i :: path) = some n) : Holds ts n := by
  obtain ⟨child, hchild, hn⟩ := Option.bind_eq_some_iff.1 hn
  exact (h.holdsAll child (List.mem_of_getElem? hchild)).of_at? hn

end Grammar

end ScopedScript
