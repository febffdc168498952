/-
Where the nodes of a program lie.

The span of a node covers the spans of its parts, and the parts of a node
lie one after the other. Neither can be seen from the spans alone, which
are made from two of the parts or from the parentheses around them; it is
the tokens that lie one after the other, and nodes are made of tokens.

# Side by side

The nodes below a node are held by tokens that follow each other, each
node by its own (`Spread`). This is a matter of the grammar, without a
word about spans, and shown rule by rule; a left operand brings the tokens
before the tail along, as in `Derives.holdsAll`. The only nodes that have
tokens in common are the declaration and the assignment that `var x = 1`
makes: both are held by the tokens of one statement (`Initializes`).

# From tokens to spans

A node starts with one of its tokens and ends with one. Tokens of a text
do not overlap, so nodes that are side by side do not overlap either, and
nodes that are held by some tokens lie inside of their extent, which is
the span of the node above. The two nodes of `var x = 1` meet in the name,
because the first ends with it and the second starts there.
-/
import Mathlib.Data.List.Chain
import ScopedScript.Proofs.Unreading

namespace ScopedScript

namespace Span

/-- The span is a part of another one. -/
def Inside (inner outer : Span) : Prop := outer.start ≤ inner.start ∧ inner.stop ≤ outer.stop

/-- What two spans have in common. -/
def overlap (a b : Span) : Span := ⟨max a.start b.start, min a.stop b.stop⟩

end Span

namespace Grammar

-- ============================================================= side by side

/-- The two nodes that a declaration with a value makes: among the tokens
there are `var`, the name and what follows them in one statement. -/
def Initializes (ts : List Token) (name : Token) (first second : Node) : Prop :=
  ∃ var rest, var :: name :: rest <:+: ts ∧ var.kind = .variableDeclaration
    ∧ Derives .statement (var :: name :: rest) [] [first, second]

theorem Initializes.mono {ts us : List Token} {name : Token} {first second : Node}
    (h : Initializes ts name first second) (hsub : ts <:+: us) :
    Initializes us name first second := by
  obtain ⟨var, rest, hrest, hvar, hderives⟩ := h
  exact ⟨var, rest, hrest.trans hsub, hvar, hderives⟩

theorem Initializes.holds {ts : List Token} {name : Token} {first second : Node}
    (h : Initializes ts name first second) : ∀ n ∈ [first, second], Holds ts n := by
  obtain ⟨var, rest, hrest, -, hderives⟩ := h
  intro n hn
  exact (hderives.holdsAll n hn).self.mono hrest

/-- The nodes are held by tokens that follow each other, each node by its
own; only the two nodes of a declaration share theirs. -/
inductive Spread : List Token → List Node → Prop
  | nil {ts} : Spread ts []
  | node {us ts n nodes} (hn : Holds us n) (hrest : Spread ts nodes) :
      Spread (us ++ ts) (n :: nodes)
  | pair {us ts name first second nodes} (hpair : Initializes us name first second)
      (hrest : Spread ts nodes) : Spread (us ++ ts) (first :: second :: nodes)

namespace Spread

variable {ts : List Token} {nodes : List Node}

theorem single {n : Node} (h : Holds ts n) : Spread ts [n] := by
  rw [← List.append_nil ts]
  exact .node h .nil

theorem append_left (h : Spread ts nodes) (before : List Token) : Spread (before ++ ts) nodes := by
  cases h with
  | nil => exact .nil
  | node hn hrest =>
      rw [← List.append_assoc]
      exact .node (hn.mono (List.suffix_append before _).isInfix) hrest
  | pair hpair hrest =>
      rw [← List.append_assoc]
      exact .pair (hpair.mono (List.suffix_append before _).isInfix) hrest

theorem append_right (h : Spread ts nodes) (after : List Token) : Spread (ts ++ after) nodes := by
  induction h with
  | nil => exact .nil
  | node hn _ ih =>
      rw [List.append_assoc]
      exact .node hn ih
  | pair hpair _ ih =>
      rw [List.append_assoc]
      exact .pair hpair ih

theorem holds (h : Spread ts nodes) : ∀ n ∈ nodes, Holds ts n := by
  induction h with
  | nil => exact nofun
  | @node us ts n nodes hn _ ih =>
      refine List.forall_mem_cons.2 ⟨hn.mono (List.prefix_append us ts).isInfix, fun m hm => ?_⟩
      exact (ih m hm).mono (List.suffix_append us ts).isInfix
  | @pair us ts name first second nodes hpair _ ih =>
      have hboth := (hpair.mono (List.prefix_append us ts).isInfix).holds
      refine List.forall_mem_append.2 ⟨hboth, fun m hm => ?_⟩
      exact (ih m hm).mono (List.suffix_append us ts).isInfix

end Spread

/-- A tail makes one node. -/
theorem Derives.single_of_tail {left : Node} {ts next : List Token} {nodes : List Node}
    (h : Derives (.tail left) ts next nodes) : ∃ n, nodes = [n] := by
  generalize hphrase : Phrase.tail left = phrase at h
  induction h generalizing left with
  | stop | assignment | binary => exact ⟨_, rfl⟩
  | call _ _ _ _ _ ih => exact ih rfl
  | property _ _ _ ih => exact ih rfl
  | _ => cases hphrase

/-- The nodes of a statement and those after it. -/
theorem Derives.spread_append {ts next rest : List Token} {nodes more : List Node}
    (h : Derives .statement ts next nodes) (hmore : Spread rest more) :
    Spread (ts ++ rest) (nodes ++ more) := by
  have one (hone : ∃ n, nodes = [n]) : Spread (ts ++ rest) (nodes ++ more) := by
    obtain ⟨n, rfl⟩ := hone
    exact .node h.holds hmore
  cases h with
  | reference _ htail | string _ htail => exact one htail.single_of_tail
  | number _ _ htail => exact one htail.single_of_tail
  | parenthesized _ _ _ _ _ htail => exact one htail.single_of_tail
  | blockStatement hblock =>
      cases hblock
      exact one ⟨_, rfl⟩
  | boolean | declaration | function | bareReturn | returnValue => exact one ⟨_, rfl⟩
  | @initializedDeclaration var name equals us _ value hvar hname hequals hvalue =>
      refine .pair ⟨var, equals :: us, List.infix_rfl, hvar, ?_⟩ hmore
      exact .initializedDeclaration hvar hname hequals hvalue.at_end

/-- Two operands with a token between them. -/
theorem Opens.spread_pair {before ts next : List Token} {left right : Node}
    (hleft : Opens before left) (hright : Derives .statement ts next [right]) (t : Token) :
    Spread (before ++ t :: ts) [left, right] :=
  .node hleft.holds (Spread.append_left (.single hright.holds) [t])

/-- The nodes below the nodes of a phrase, or those of a body and of
arguments themselves, are side by side; of a tail, if those below the
left operand are. -/
def Spreads (ts : List Token) (nodes : List Node) : Phrase → Prop
  | .body | .arguments => Spread ts nodes
  | .statement | .block => ∀ n ∈ nodes, Spread ts n.children
  | .tail left => ∀ before, Opens before left → Spread before left.children →
      ∀ n ∈ nodes, Spread (before ++ ts) n.children

theorem Derives.spreads {phrase : Phrase} {ts next : List Token} {nodes : List Node}
    (h : Derives phrase ts next nodes) : Spreads ts nodes phrase := by
  induction h with
  | noStatement | noArgument => exact .nil
  | @nextStatement seps ts rest next nodes more _ hstatement _ _ ih =>
      exact (hstatement.spread_append ih).append_left seps
  | @lastArgument before ts after next arg _ harg _ _ =>
      exact ((Spread.single harg.holds).append_right after).append_left before
  | @nextArgument before ts after comma rest next arg args _ harg _ _ _ _ ih =>
      have hrest : Spread (after ++ ([comma] ++ rest)) args :=
        (ih.append_left [comma]).append_left after
      exact (Spread.node harg.holds hrest).append_left before
  | @block opening body closing next nodes _ _ _ ih =>
      exact List.forall_mem_singleton.2 ((Spread.append_right ih [closing]).append_left [opening])
  -- what a left operand begins with
  | @reference t ts next nodes ht _ ih => exact ih [t] (fun _ _ _ => .reference ht) .nil
  | @number t ts next nodes value ht hvalue _ ih =>
      exact ih [t] (fun _ _ _ => .number ht hvalue) .nil
  | @string t ts next nodes ht _ ih => exact ih [t] (fun _ _ _ => .string ht) .nil
  | @parenthesized opening before ts after closing rest next inner nodes hopening hbefore hinner
      hafter hclosing _ _ ih =>
      have hspread : Spread (opening :: (before ++ (ts ++ (after ++ [closing])))) [inner] :=
        ((Spread.single hinner.holds).append_right (after ++ [closing])).append_left
          (opening :: before)
      have hopens := Opens.parenthesized hopening hbefore hinner hafter hclosing
      intro n hn
      simpa using ih _ hopens hspread n hn
  -- how it goes on
  | stop =>
      intro before _ hspread n hn
      rw [List.mem_singleton.1 hn, List.append_nil]
      exact hspread
  | @assignment left equals ts next value _ hvalue _ =>
      intro before hopens _
      exact List.forall_mem_singleton.2 (hopens.spread_pair hvalue equals)
  | @binary left t operator ts next right _ _ hright _ =>
      intro before hopens _
      exact List.forall_mem_singleton.2 (hopens.spread_pair hright t)
  | @call left opening ts closing rest next args nodes hopening hargs hclosing _ ihargs ih =>
      intro before hopens _
      have hspread : Spread (before ++ opening :: (ts ++ [closing])) (left :: args) :=
        .node hopens.holds ((Spread.append_right ihargs [closing]).append_left [opening])
      simpa using ih _ (hopens.call hopening hargs hclosing) hspread
  | @property left dot name rest next nodes hdot hname _ ih =>
      intro before hopens _
      have hspread : Spread (before ++ [dot, name]) [left] := .node hopens.holds .nil
      simpa using ih _ (hopens.property hdot hname) hspread
  -- other statements
  | boolean | declaration | bareReturn => exact List.forall_mem_singleton.2 .nil
  | blockStatement _ ih => exact ih
  | @initializedDeclaration var name equals ts next value _ hname _ hvalue _ =>
      have hopens : Opens [name] (.reference name.span name.text) := fun _ _ _ => .reference hname
      refine List.forall_mem_cons.2 ⟨.nil, List.forall_mem_singleton.2 ?_⟩
      exact (hopens.spread_pair hvalue equals).append_left [var]
  | @function header name before ts next body _ _ _ hbody _ =>
      have hspread := Spread.single (Derives.blockStatement hbody).holds
      exact List.forall_mem_singleton.2 (hspread.append_left (header :: before))
  | @returnValue t ts next value _ hvalue _ =>
      exact List.forall_mem_singleton.2 ((Spread.single hvalue.holds).append_left [t])

-- ==================================================== from tokens to spans

theorem InOrder.mem_extent {ts : List Token} (h : InOrder ts) {t : Token} (ht : t ∈ ts) :
    t.span.Inside (extent ts) := by
  obtain ⟨before, after, rfl⟩ := List.append_of_mem ht
  constructor
  · cases before with
    | nil => exact Nat.le_refl _
    | cons u before =>
        exact ((List.pairwise_cons.1 h).1 t (by simp)).1
  · rcases after.eq_nil_or_concat' with rfl | ⟨middle, u, rfl⟩
    · rw [extent, endOfTokens_concat]
    · have hsplit : before ++ t :: (middle ++ [u]) = (before ++ t :: middle) ++ [u] := by simp
      rw [hsplit] at h ⊢
      rw [extent, endOfTokens_concat]
      exact ((List.pairwise_append.1 h).2.2 t (by simp) u (by simp)).2

namespace Tidy

variable {ts us : List Token}

theorem extent_lt (h : Tidy ts) (hne : ts ≠ []) : (extent ts).start < (extent ts).stop := by
  obtain ⟨t, ts, rfl⟩ := List.exists_cons_of_ne_nil hne
  have hinside := h.inOrder.mem_extent (List.mem_cons_self : t ∈ t :: ts)
  have hnonempty := h.head.nonempty
  have hstart := hinside.1
  have hstop := hinside.2
  omega

/-- A node starts where its first token does. -/
theorem start_of_holds (h : Tidy ts) {n : Node} (hn : Holds ts n) :
    ∃ t ∈ ts, n.span.start = t.span.start := by
  obtain ⟨us, hsub, hderives⟩ := hn
  have hspan : n.span = extent us :=
    hderives.spansExtent rfl (h.sublist hsub.sublist).inOrder
  obtain ⟨t, us, rfl⟩ := List.exists_cons_of_ne_nil hderives.tokens_ne_nil
  refine ⟨t, hsub.subset List.mem_cons_self, ?_⟩
  rw [hspan]
  rfl

theorem inside_of_holds (h : Tidy ts) {n : Node} (hn : Holds ts n) : n.span.Inside (extent ts) := by
  obtain ⟨t, ht, hstart⟩ := h.start_of_holds hn
  obtain ⟨u, hu, hstop⟩ := h.stop_of_holds hn
  constructor
  · rw [hstart]
    exact (h.inOrder.mem_extent ht).1
  · rw [hstop]
    exact (h.inOrder.mem_extent hu).2

/-- Nodes of tokens that follow each other do. -/
theorem apart_of_holds (h : Tidy (ts ++ us)) {m n : Node} (hm : Holds ts m) (hn : Holds us n) :
    m.span.stop ≤ n.span.start := by
  obtain ⟨t, ht, hstop⟩ := h.left.stop_of_holds hm
  obtain ⟨u, hu, hstart⟩ := h.right.start_of_holds hn
  rw [hstop, hstart]
  exact (List.pairwise_append.1 h.apart).2.2 t ht u hu

end Tidy

/-- The first node declares the name, the second one assigns to it, and the
name is all that they have in common. -/
structure MeetIn (name : Token) (first second : Node) : Prop where
  declares : ∃ span, first = .declaration span name.text
  assigns : ∃ span target value, second = .assignment span target value ∧ target.span = name.span
  starts : second.span.start = name.span.start
  shared : first.span.overlap second.span = name.span

/-- What follows `var` and a name if there are two nodes. -/
theorem Derives.of_var {ts next : List Token} {first second : Node}
    (h : Derives .statement ts next [first, second]) {var name : Token} {rest : List Token}
    (hts : ts = var :: name :: rest) (hvar : var.kind = .variableDeclaration) :
    ∃ equals us value, rest = equals :: us ∧ Derives .statement us next [value]
      ∧ first = .declaration (var.span.union name.span) name.text
      ∧ second
        = .assignment (name.span.union value.span) (.reference name.span name.text) value := by
  cases h with
  | initializedDeclaration hvar hname hequals hvalue =>
      cases hts
      exact ⟨_, _, _, rfl, hvalue, rfl, rfl⟩
  | blockStatement hblock => cases hblock
  | reference hkind | number hkind | string hkind | parenthesized hkind =>
      rw [← (List.cons.inj hts).1, hkind] at hvar
      cases hvar

theorem Initializes.meetIn {ts : List Token} {name : Token} {first second : Node}
    (h : Initializes ts name first second) (htidy : Tidy ts) : MeetIn name first second := by
  obtain ⟨var, rest, hrest, hvar, hderives⟩ := h
  obtain ⟨equals, us, value, rfl, hvalue, rfl, rfl⟩ := hderives.of_var rfl hvar
  have htidy : Tidy (var :: name :: equals :: us) := htidy.sublist hrest.sublist
  have hnonempty := htidy.head.nonempty
  have hnonempty' := htidy.tail.head.nonempty
  have hbefore : var.span.stop ≤ name.span.start :=
    (List.pairwise_cons.1 htidy.apart).1 name List.mem_cons_self
  obtain ⟨t, ht, hstart⟩ := htidy.tail.tail.tail.start_of_holds hvalue.holds
  have hafter : name.span.stop ≤ t.span.start :=
    (List.pairwise_cons.1 htidy.tail.apart).1 t (List.mem_cons_of_mem _ ht)
  refine ⟨⟨_, rfl⟩, ⟨_, _, _, rfl, rfl⟩, ?_, ?_⟩
  · show min name.span.start value.span.start = name.span.start
    omega
  · have hleft : max (min var.span.start name.span.start) (min name.span.start value.span.start)
        = name.span.start := by omega
    have hright : min (max var.span.stop name.span.stop) (max name.span.stop value.span.stop)
        = name.span.stop := by omega
    exact congrArg₂ Span.mk hleft hright

/-- How a node lies after the one before it: the two are the nodes of a
declaration and meet in the name, or they are not and do not meet. -/
def Follows (tokens : List Token) (first second : Node) : Prop :=
  (∃ name, Initializes tokens name first second ∧ MeetIn name first second)
    ∨ (∀ name, ¬ Initializes tokens name first second) ∧ first.span.stop ≤ second.span.start

theorem Follows.of_apart {tokens : List Token} (htidy : Tidy tokens) {first second : Node}
    (h : first.span.stop ≤ second.span.start) : Follows tokens first second := by
  refine .inr ⟨fun name hpair => ?_, h⟩
  have hmeet := hpair.meetIn htidy
  obtain ⟨var, rest, hrest, -, -⟩ := hpair
  have hnonempty := (htidy.written name (hrest.subset (by simp))).nonempty
  -- the name would end before it starts
  have hstop : min first.span.stop second.span.stop = name.span.stop :=
    congrArg Span.stop hmeet.shared
  have hstart := hmeet.starts
  omega

/-- Nodes that are side by side follow each other. -/
theorem Spread.isChain {tokens : List Token} (htidy : Tidy tokens) {ts : List Token}
    {nodes : List Node} (h : Spread ts nodes) (hsub : ts <:+: tokens) :
    nodes.IsChain (Follows tokens) := by
  -- the node before the rest lies apart from all of the rest
  have apart {us ts : List Token} {n : Node} {nodes : List Node} (hn : Holds us n)
      (hrest : Spread ts nodes) (hsub : us ++ ts <:+: tokens) :
      ∀ m ∈ nodes.head?, Follows tokens n m := by
    intro m hm
    have hall := hrest.holds m (List.mem_of_mem_head? hm)
    exact .of_apart htidy ((htidy.sublist hsub.sublist).apart_of_holds hn hall)
  induction h with
  | nil => exact .nil
  | @node us ts n nodes hn hrest ih =>
      have hsub' : ts <:+: tokens := (List.suffix_append us ts).isInfix.trans hsub
      exact List.isChain_cons.2 ⟨apart hn hrest hsub, ih hsub'⟩
  | @pair us ts name first second nodes hpair hrest ih =>
      have hsub' : ts <:+: tokens := (List.suffix_append us ts).isInfix.trans hsub
      have hpair' : Initializes tokens name first second :=
        hpair.mono ((List.prefix_append us ts).isInfix.trans hsub)
      have hsecond : Holds us second := hpair.holds second (by simp)
      refine List.isChain_cons.2 ⟨?_, List.isChain_cons.2 ⟨apart hsecond hrest hsub, ih hsub'⟩⟩
      rintro m ⟨⟩
      exact .inl ⟨name, hpair', hpair'.meetIn htidy⟩

end Grammar

open Grammar

-- ================================================================ programs

theorem tidy_of_scan {source : String} {tokens : List Token} (h : scan source = .ok tokens) :
    Tidy tokens :=
  ⟨written_of_scan h, (tiles_of_scan h).pairwise⟩

/-- Tokens of a text that stand side by side have an extent in the text. -/
theorem extent_pointsInto {source : String} {tokens us : List Token}
    (h : scan source = .ok tokens) (hsub : us <:+: tokens) (hne : us ≠ []) :
    (extent us).PointsInto source := by
  obtain ⟨first, last, rfl⟩ := hsub
  rw [List.append_assoc] at h
  obtain ⟨slice, -, hslice, -⟩ := scan_slice h hne
  exact Span.pointsInto_of_slice? hslice

/-- The span of a program that has tokens. -/
theorem root_pointsInto {source : String} {tokens : List Token} (h : scan source = .ok tokens)
    (hne : tokens ≠ []) : Span.PointsInto ⟨0, endOfTokens tokens⟩ source := by
  have hextent := extent_pointsInto h List.infix_rfl hne
  exact ⟨Nat.zero_le _, hextent.inside, String.Pos.Raw.isValid_zero, hextent.stops⟩

/-- Spans nest and are in order. A node, unless it is a program without
tokens, has a span that is not empty and points into the source; the spans
of the nodes below it are parts of its own, and each of them ends before
the next one starts. Only the declaration and the assignment that a
declaration with a value makes meet, and what they have in common is the
name, which is the target of the assignment. -/
theorem spans_nest_in_order {source : String} {tokens : List Token} {tree : Node}
    (hscan : scan source = .ok tokens) (hbuild : build tokens = .ok tree) {path : Path}
    {node : Node} (hnode : tree.at? path = some node) :
    ((node.kind = .root → tokens ≠ []) →
        node.span.start < node.span.stop ∧ node.span.PointsInto source)
      ∧ (∀ child ∈ node.children, child.span.Inside node.span)
      ∧ node.children.IsChain (Follows tokens) := by
  have htidy := tidy_of_scan hscan
  obtain ⟨body, hbody, rfl⟩ := isTreeOf_of_build hbuild
  cases path with
  | nil =>
      cases hnode
      have hspread : Spread tokens body := hbody.spreads
      refine ⟨fun htokens => ⟨?_, root_pointsInto hscan (htokens rfl)⟩, fun child hchild => ?_,
        hspread.isChain htidy List.infix_rfl⟩
      · have hlt := htidy.extent_lt (htokens rfl)
        exact Nat.lt_of_le_of_lt (Nat.zero_le _) hlt
      · have hinside := htidy.inside_of_holds (hspread.holds child hchild)
        exact ⟨Nat.zero_le _, hinside.2⟩
  | cons i path =>
      obtain ⟨us, hsub, hderives⟩ := hbody.holds_of_at? hnode
      have hus := htidy.sublist hsub.sublist
      have hspan : node.span = extent us := hderives.spansExtent rfl hus.inOrder
      have hspread : Spread us node.children := hderives.spreads node List.mem_cons_self
      rw [hspan]
      refine ⟨fun _ => ⟨?_, ?_⟩, fun child hchild => ?_, hspread.isChain htidy hsub⟩
      · exact hus.extent_lt hderives.tokens_ne_nil
      · exact extent_pointsInto hscan hsub hderives.tokens_ne_nil
      · exact hus.inside_of_holds (hspread.holds child hchild)

/-- Inside of a function: a declaration with a value, whose two nodes meet in
the name, and a reference after them. -/
theorem spans_nest_in_order_initialized :
    let source := "function f() \x7b var x = g(a); x \x7d"
    ∃ tokens tree node, scan source = .ok tokens ∧ build tokens = .ok tree
      ∧ tree.at? [0, 0] = some node ∧ node.span = ⟨13, 32⟩
      ∧ node.children.map (fun child => (child.kind, child.span))
          = [(.declaration, ⟨15, 20⟩), (.assignment, ⟨19, 27⟩), (.reference, ⟨29, 30⟩)]
      ∧ node.span.PointsInto source ∧ (∀ child ∈ node.children, child.span.Inside node.span)
      ∧ node.children.IsChain (Follows tokens) := by
  intro source
  have hfound : ((parse source).toOption.bind (·.at? [0, 0])).map (fun node =>
      (node.kind, node.span, node.children.map fun child => (child.kind, child.span)))
      = some (.block, ⟨13, 32⟩, [(.declaration, ⟨15, 20⟩), (.assignment, ⟨19, 27⟩),
          (.reference, ⟨29, 30⟩)]) := by decide +kernel
  obtain ⟨tree, node, hparse, hnode, hlook⟩ := Node.exists_of_seen hfound
  obtain ⟨hkind, hlook⟩ := Prod.mk.inj hlook
  obtain ⟨hspan, hchildren⟩ := Prod.mk.inj hlook
  obtain ⟨tokens, hscan, hbuild⟩ := parse_eq_ok_iff.1 hparse
  obtain ⟨hinto, hinside, hchain⟩ := spans_nest_in_order hscan hbuild hnode
  have hroot : node.kind = .root → tokens ≠ [] := by
    rw [hkind]
    exact nofun
  exact ⟨tokens, tree, node, hscan, hbuild, hnode, hspan, hchildren, (hinto hroot).2, hinside,
    hchain⟩

end ScopedScript
