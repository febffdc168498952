/-
Operators group to the right.

There is no table of ranks. What stands to the right of an operator is read
as a statement of its own, which takes every operator that is still to
come, so `a - b * c - d` is `a - (b * (c - d))` whatever the operators are.

# Where a left operand ends

An operand that is a program by itself ends where its tokens do, because
nothing comes after them. Before an operator it has to end there for
another reason: the node it makes is one that an expression goes on after,
so the tokens are the beginning of a statement with any tail
(`Derives.opens`), and the operator with its right operand is such a tail.
The last operand is not followed by anything, here as there, and can be
any statement of one node.
-/
import ScopedScript.Proofs.Shaping

namespace ScopedScript

namespace Grammar

-- ============================================================ left operands

/-- The tokens of a phrase make a node that any tail may follow; those of a
tail do so together with the tokens before it. -/
def OpensWith (ts : List Token) (n : Node) : Phrase → Prop
  | .statement => Opens ts n
  | .tail left => ∀ before, Opens before left → Opens (before ++ ts) n
  | .body | .arguments | .block => True

theorem Derives.opensWith {phrase : Phrase} {ts next : List Token} {nodes : List Node}
    (h : Derives phrase ts next nodes) {n : Node} (hn : nodes = [n])
    (hkind : n.kind.isOperand = true) : OpensWith ts n phrase := by
  induction h with
  | noStatement | nextStatement | noArgument | lastArgument | nextArgument | block => trivial
  -- what a tail comes after is handed on to it
  | @reference t _ _ _ ht _ ih => exact ih hn [t] fun _ _ _ => .reference ht
  | @number t _ _ _ value ht hvalue _ ih => exact ih hn [t] fun _ _ _ => .number ht hvalue
  | @string t _ _ _ ht _ ih => exact ih hn [t] fun _ _ _ => .string ht
  | parenthesized hopening hbefore hinner hafter hclosing _ _ ih =>
      have hopens := ih hn _ (.parenthesized hopening hbefore hinner hafter hclosing)
      simpa [OpensWith] using hopens
  | call hopening hargs hclosing _ _ ih =>
      intro before hleft
      simpa using ih hn _ (hleft.call hopening hargs hclosing)
  | property hdot hname _ ih =>
      intro before hleft
      simpa using ih hn _ (hleft.property hdot hname)
  | stop =>
      intro before hleft
      cases hn
      rwa [List.append_nil]
  -- the other constructs make no operands
  | blockStatement hblock =>
      cases hblock
      cases hn
      cases hkind
  | initializedDeclaration => cases hn
  | boolean | declaration | function | bareReturn | returnValue | assignment | binary =>
      cases hn
      cases hkind

/-- A statement that makes an operand is the beginning of a statement, whatever
tail comes next. -/
theorem Derives.opens {ts next : List Token} {n : Node} (h : Derives .statement ts next [n])
    (hkind : n.kind.isOperand = true) : Opens ts n :=
  h.opensWith rfl hkind

-- ========================================================= programs of one node

/-- A body without nodes is made of separators. -/
theorem Derives.separators_of_body {ts next : List Token} (h : Derives .body ts next []) :
    Separators ts := by
  generalize hnodes : ([] : List Node) = nodes at h
  cases h with
  | noStatement hseps => exact hseps
  | nextStatement _ hstatement _ =>
      obtain ⟨hnil, -⟩ := List.append_eq_nil_iff.1 hnodes.symm
      exact absurd hnil (Build.ne_nil_of_derives hstatement (.inl rfl))

/-- Separators that neither begin nor end a program of one node are none. -/
theorem Derives.statement_of_body {ts next : List Token} {n : Node}
    (h : Derives .body ts next [n]) (hfirst : ∀ t ∈ ts.head?, t.kind.isSeparator = false)
    (hlast : ∀ t ∈ ts.getLast?, t.kind.isSeparator = false) : Derives .statement ts next [n] := by
  generalize hnodes : [n] = nodes at h
  cases h with
  | noStatement => cases hnodes
  | @nextStatement seps us rest next nodes more hseps hstatement hrest =>
      have hne := Build.ne_nil_of_derives hstatement (.inl rfl)
      obtain ⟨m, nodes, rfl⟩ := List.exists_cons_of_ne_nil hne
      obtain ⟨rfl, hnone⟩ := List.cons.inj hnodes
      obtain ⟨rfl, rfl⟩ := List.append_eq_nil_iff.1 hnone.symm
      have hbefore : seps = [] := by
        cases seps with
        | nil => rfl
        | cons t seps =>
            have ht := hfirst t rfl
            rw [hseps t List.mem_cons_self] at ht
            cases ht
      have hafter : rest = [] := by
        rcases List.eq_nil_or_concat rest with hnil | ⟨rest, t, rfl⟩
        · exact hnil
        · have ht := hlast t (by simp)
          rw [hrest.separators_of_body t (by simp)] at ht
          cases ht
      subst hbefore hafter
      simpa using hstatement

theorem Derives.body_of_statement {ts : List Token} {nodes : List Node}
    (h : Derives .statement ts [] nodes) : Derives .body ts [] nodes := by
  have hnone : Separators [] := nofun
  have hstatement : Derives .statement ts ([] ++ []) nodes := h
  simpa using Derives.nextStatement hnone hstatement (.noStatement hnone)

end Grammar

open Grammar

-- =================================================================== chains

/-- The tokens by themselves are a program of one node, without separators
around it. -/
structure Alone (ts : List Token) (n : Node) : Prop where
  built : (build ts).map Node.children = .ok [n]
  first : ∀ t ∈ ts.head?, t.kind ≠ .newLine ∧ t.kind ≠ .semicolon
  last : ∀ t ∈ ts.getLast?, t.kind ≠ .newLine ∧ t.kind ≠ .semicolon

theorem Token.Kind.isSeparator_eq_false {kind : Token.Kind}
    (h : kind ≠ .newLine ∧ kind ≠ .semicolon) : kind.isSeparator = false := by
  cases kind <;> simp_all [isSeparator]

theorem Alone.derives {ts : List Token} {n : Node} (h : Alone ts n) :
    Derives .statement ts [] [n] := by
  have hbuilt := h.built
  cases hbuild : build ts with
  | error e =>
      rw [hbuild] at hbuilt
      cases hbuilt
  | ok tree =>
      obtain ⟨body, hbody, rfl⟩ := isTreeOf_of_build hbuild
      rw [hbuild] at hbuilt
      have hnodes : body = [n] := Except.ok.inj hbuilt
      subst hnodes
      exact hbody.statement_of_body (fun t ht => Token.Kind.isSeparator_eq_false (h.first t ht))
        fun t ht => Token.Kind.isSeparator_eq_false (h.last t ht)

theorem Alone.of_derives {ts : List Token} {n : Node} (h : Derives .statement ts [] [n])
    (hfirst : ∀ t ∈ ts.head?, t.kind ≠ .newLine ∧ t.kind ≠ .semicolon)
    (hlast : ∀ t ∈ ts.getLast?, t.kind ≠ .newLine ∧ t.kind ≠ .semicolon) : Alone ts n := by
  refine ⟨?_, hfirst, hlast⟩
  rw [build_of_isTreeOf ⟨_, h.body_of_statement, rfl⟩]
  rfl

/-- A left operand and the operator after it: their tokens, and what these
stand for. -/
structure Link where
  tokens : List Token
  node : Node
  sign : Token
  operator : Operator
  alone : Alone tokens node
  operand : node.kind.isOperand = true
  kind : sign.kind = .operator
  text : sign.text = operator.symbol

namespace Link

/-- The tokens of a chain of operators that ends with an operand. -/
def chain (links : List Link) (last : List Token) : List Token :=
  links.foldr (fun link rest => link.tokens ++ link.sign :: rest) last

/-- The node of a chain of operators: each operator with all that comes after
it on its right. -/
def group (links : List Link) (last : Node) : Node :=
  links.foldr (fun link right =>
    .binary (link.node.span.union right.span) link.operator link.node right) last

/-- An operator and its right operand go with the operand before them. -/
theorem derives_cons (link : Link) {ts next : List Token} {right : Node}
    (h : Derives .statement ts next [right]) :
    Derives .statement (link.tokens ++ link.sign :: ts) next
      [.binary (link.node.span.union right.span) link.operator link.node right] := by
  have hoperator : Operator.ofSymbol? link.sign.text = some link.operator := by
    rw [link.text]
    exact link.operator.ofSymbol?_symbol
  exact link.alone.derives.opens link.operand _ _ _ (.binary link.kind hoperator h)

theorem derives_chain (links : List Link) {last next : List Token} {n : Node}
    (h : Derives .statement last next [n]) :
    Derives .statement (chain links last) next [group links n] := by
  induction links with
  | nil => exact h
  | cons link links ih => exact link.derives_cons ih

end Link

/-- Operators group to the right, whatever they are. A chain of operands,
each a program by itself, makes one node: the first operator with the first
operand on its left and the node of all the others on its right. -/
theorem operators_group_to_the_right (links : List Link) {last : List Token} {n : Node}
    (hlast : Alone last n) :
    build (Link.chain links last)
      = .ok (.root ⟨0, endOfTokens (Link.chain links last)⟩ [Link.group links n]) := by
  have hderives := Link.derives_chain links hlast.derives
  exact build_of_isTreeOf ⟨_, hderives.body_of_statement, rfl⟩

/-- `f() - (a) * x = true`: the assignment at the end is the operand of `*`,
and the product the operand of `-`. -/
theorem operators_group_to_the_right_assignment :
    let opening (offset : Nat) : Token := ⟨.openParen, "(", ⟨offset, offset + 1⟩, []⟩
    let closing (offset : Nat) : Token := ⟨.closeParen, ")", ⟨offset, offset + 1⟩, []⟩
    let name (text : String) (offset : Nat) : Token := ⟨.identifier, text, ⟨offset, offset + 1⟩, []⟩
    let sign (text : String) (offset : Nat) : Token := ⟨.operator, text, ⟨offset, offset + 1⟩, []⟩
    let call := [name "f" 0, opening 1, closing 2]
    let parens := [opening 6, name "a" 7, closing 8]
    let last := [name "x" 12, ⟨.assign, "=", ⟨14, 15⟩, []⟩, ⟨.boolean, "true", ⟨16, 20⟩, []⟩]
    let called : Node := .call ⟨0, 3⟩ (.reference ⟨0, 1⟩ "f") []
    let inner : Node := .parenthesized ⟨6, 9⟩ (.reference ⟨7, 8⟩ "a")
    let assigned : Node :=
      .assignment ⟨12, 20⟩ (.reference ⟨12, 13⟩ "x") (.boolean ⟨16, 20⟩ true)
    Alone last assigned ∧ build (call ++ sign "-" 4 :: (parens ++ sign "*" 10 :: last))
      = .ok (.root ⟨0, 20⟩
          [.binary ⟨0, 20⟩ .sub called (.binary ⟨6, 20⟩ .mul inner assigned)]) := by
  intro opening closing name sign call parens last called inner assigned
  have hopening (offset : Nat) : (opening offset).kind = .openParen := rfl
  have hclosing (offset : Nat) : (closing offset).kind = .closeParen := rfl
  have hname (text : String) (offset : Nat) : (name text offset).kind = .identifier := rfl
  have hnone : NewLines [] := nofun
  have hcall : Alone call called := by
    have hopens : Opens [name "f" 0] _ := fun _ _ _ => .reference (hname "f" 0)
    have hargs : Derives .arguments [] [closing 2] [] := .noArgument hnone
    have hwhole := hopens.call (hopening 1) hargs (hclosing 2)
    exact .of_derives (hwhole [] [] _ (.stop nofun)) (by decide) (by decide)
  have hparens : Alone parens inner := by
    have hinner : Derives .statement [name "a" 7] ([] ++ [closing 8]) _ :=
      .reference (hname "a" 7) (.stop (by simp [closing, Token.Kind.isContinuation]))
    have hwhole := Opens.parenthesized (hopening 6) hnone hinner hnone (hclosing 8)
    exact .of_derives (hwhole [] [] _ (.stop nofun)) (by decide) (by decide)
  have hlast : Alone last assigned := by
    have hvalue : Derives .statement [⟨.boolean, "true", ⟨16, 20⟩, []⟩] [] _ := .boolean rfl
    exact .of_derives (.reference (hname "x" 12) (.assignment rfl hvalue)) (by decide) (by decide)
  refine ⟨hlast, ?_⟩
  exact operators_group_to_the_right
    [⟨call, called, sign "-" 4, .sub, hcall, rfl, rfl, rfl⟩,
      ⟨parens, inner, sign "*" 10, .mul, hparens, rfl, rfl, rfl⟩] hlast

end ScopedScript
