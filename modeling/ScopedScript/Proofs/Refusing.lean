/-
What the builder can find wrong with scanned tokens.

Some faults are kept for what cannot happen: a number token that spells no
number, a header token without a name, a reader that yields nothing. The
words for them exist because each reader looks at its own tokens only and
trusts nobody. Put together, nobody breaks that trust: the scanner makes
proper tokens (`proper_of_scan`), every reader yields at least one node,
and at an opening brace it yields a block. So a program that is refused is
refused for a fault of its own (`ordinary_of_build_error`).

# Going through all readers

`Reply.Fair` says of a reply that it is a value or an ordinary error. What
a value is like is known from the grammar, so all that has to be carried
through the readers are the errors.
-/
import ScopedScript.Proofs.Phrases
import ScopedScript.Proofs.Tokenizing

namespace ScopedScript

-- ========================================================= reserved faults

/-- The fault of scanning that is kept for what cannot happen. -/
def LexicalFault.isReserved : LexicalFault → Bool
  | .unexpectedEnd => true
  | _ => false

/-- The faults of building that are kept for what cannot happen. -/
def SyntaxFault.isReserved : SyntaxFault → Bool
  | .noToken _ | .nothing _ | .unknownOperator _ | .invalidNumber _ | .namelessFunction
  | .bodyNotBlock _ | .notSingle .functionBody _ => true
  | _ => false

/-- The faults of running that are kept for what cannot happen. -/
def RuntimeFault.isReserved : RuntimeFault → Bool
  | .notADefinition | .functionExpected | .unknownNative _ | .parameterLost _ => true
  | _ => false

/-- The faults that no program brings about. What a host states is among
them: no stage does. -/
def Fault.isReserved : Fault → Bool
  | .lexical fault => fault.isReserved
  | .syntactic fault => fault.isReserved
  | .runtime fault => fault.isReserved
  | .stated .. => true

namespace Error

/-- All errors along the chain of causes report the stage and the span of the
innermost one. -/
def Uniform (e : Error) : Prop :=
  ∀ layer ∈ e.layers, layer.stage = e.innermost.stage ∧ layer.span = e.innermost.span

theorem uniform_raised (fault : Fault) (span : Span) : Uniform ⟨fault, span, []⟩ := by
  intro layer hlayer
  cases List.mem_singleton.1 hlayer
  exact ⟨rfl, rfl⟩

/-- One more layer reports what the layer below it does. -/
theorem Uniform.within {e : Error} (h : e.Uniform) (context : Context) :
    (e.within context).Uniform := by
  intro layer hlayer
  rcases List.mem_cons.1 hlayer with rfl | hlayer
  · exact h e (List.mem_of_mem_head? e.head?_layers)
  · exact h layer hlayer

/-- The error is one that a program can bring about in a stage, and no layer
around it reports another stage or place. -/
structure Ordinary (stage : Stage) (e : Error) : Prop where
  found : e.stage = stage
  unreserved : e.fault.isReserved = false
  uniform : e.Uniform

namespace Ordinary

variable {stage : Stage}

theorem raised {fault : Fault} {span : Span} (hstage : fault.stage = stage)
    (hfault : fault.isReserved = false) : Ordinary stage ⟨fault, span, []⟩ :=
  ⟨hstage, hfault, uniform_raised fault span⟩

theorem within {e : Error} (h : e.Ordinary stage) (context : Context) :
    (e.within context).Ordinary stage :=
  ⟨h.found, h.unreserved, h.uniform.within context⟩

/-- The stage that the error reports is that of its fault. -/
theorem fault_stage {e : Error} (h : e.Ordinary stage) : e.fault.stage = stage := by
  rw [← h.found, (h.uniform e (List.mem_of_mem_head? e.head?_layers)).1]
  rfl

end Ordinary

end Error

-- =========================================================== proper tokens

/-- The token has in it what the builder takes for granted. -/
structure Token.Proper (t : Token) : Prop where
  number : t.kind = .number → (Number.read? t.text).isSome = true
  operator : t.kind = .operator → (Operator.ofSymbol? t.text).isSome = true
  header : t.kind = .functionDeclaration → (t.attribute? .name).isSome = true

namespace Number

theorem splitDigits_append {ds rest : List Char} (hds : ∀ d ∈ ds, d.isDigit = true)
    (hrest : Lexeme.startsWith Char.isDigit rest = false) :
    splitDigits (ds ++ rest) = (ds, rest) := by
  rw [splitDigits, Lexeme.takeWhile_of_startsWith hds hrest,
    Lexeme.dropWhile_of_startsWith hds hrest]

/-- Digits with a fraction after them spell a number. -/
theorem isSome_readUnsigned? {ds fraction : List Char} (hne : ds ≠ [])
    (hds : ∀ d ∈ ds, d.isDigit = true) (hfraction : Lexeme.Fraction fraction)
    (negative : Bool) : (readUnsigned? negative (ds ++ fraction)).isSome = true := by
  unfold readUnsigned?
  cases hfraction with
  | none =>
      rw [splitDigits_append hds rfl]
      simp [hne, readExponent?]
  | @digits d es hdigits =>
      have hsplit := @splitDigits_append _ [] hdigits rfl
      rw [List.append_nil] at hsplit
      rw [splitDigits_append hds rfl]
      simp [hsplit, readExponent?]

theorem splitSign_of_isDigit {c : Char} (hc : c.isDigit = true) (cs : List Char) :
    splitSign (c :: cs) = (false, c :: cs) := by
  unfold splitSign
  split
  · next h =>
    cases h
    cases hc
  · next h =>
    cases h
    cases hc
  · rfl

theorem isSome_read? {c : Char} {whole fraction : List Char} (hc : c.isDigit = true)
    (hwhole : ∀ d ∈ whole, d.isDigit = true) (hfraction : Lexeme.Fraction fraction) :
    (read? (String.ofList (c :: (whole ++ fraction)))).isSome = true := by
  have hdigits : ∀ d ∈ c :: whole, d.isDigit = true := List.forall_mem_cons.2 ⟨hc, hwhole⟩
  rw [read?, String.toList_ofList, splitSign_of_isDigit hc]
  dsimp only
  split
  · rfl
  · rfl
  · rfl
  · exact isSome_readUnsigned? (List.cons_ne_nil _ _) hdigits hfraction false

end Number

namespace Lexeme

/-- A number lexeme spells a number. -/
theorem Cuts.isSome_read? {c : Char} {kind : Kind} {tail rest : List Char}
    (h : Cuts c kind tail rest) (hkind : kind = .number) :
    (Number.read? (String.ofList (c :: tail))).isSome = true := by
  subst hkind
  obtain ⟨hc, whole, hwhole, fraction, hfraction, rfl⟩ :=
    cons_mem_decimal.1 (h.mem_pattern nofun nofun)
  exact Number.isSome_read? hc hwhole hfraction

/-- An operator lexeme is the sign of an operator. -/
theorem Cuts.isSome_ofSymbol? {c : Char} {kind : Kind} {tail rest : List Char}
    (h : Cuts c kind tail rest) (hkind : kind = .operator) :
    (Operator.ofSymbol? (String.ofList (c :: tail))).isSome = true := by
  subst hkind
  rcases h.mem_pattern nofun nofun with ((hsign | hsign) | hsign) | hsign
  all_goals
    cases hsign
    rfl

end Lexeme

namespace Scan

/-- A token that a lexeme makes by itself is proper. -/
theorem proper_single {l : Lexeme} {offset : Nat} {rest : List Char} (h : l.Stands offset rest)
    {kind : Token.Kind} (hkind : l.kind.token? = some kind) : (single l kind).Proper := by
  obtain ⟨lexeme, first, tail, span⟩ := l
  have hcuts : Lexeme.Cuts first lexeme tail rest := h.cuts
  refine ⟨fun hnumber => ?_, fun hoperator => ?_, fun hheader => ?_⟩
  · cases lexeme <;> cases hkind <;> cases hnumber
    exact hcuts.isSome_read? rfl
  · cases lexeme <;> cases hkind <;> cases hoperator
    exact hcuts.isSome_ofSymbol? rfl
  · cases lexeme <;> cases hkind <;> cases hheader

/-- Behind its name a header has a name. -/
def Header.Named (h : Header) : Prop := h.expects ≠ .name → ∃ a ∈ h.attributes, a.key = .name

theorem Passes.named {h h' : Header} {l : Lexeme} (hpasses : Passes h l h') (hh : h.Named) :
    h'.Named := by
  cases hpasses with
  | space => exact hh
  | name => exact fun _ => ⟨_, List.mem_cons_self, rfl⟩
  | opening _ hexpects | comma _ hexpects =>
      exact fun _ => hh (by rw [hexpects]; simp)
  | parameter _ hexpects =>
      intro _
      have hafter : h.expects ≠ .name := by rcases hexpects with hexpects | hexpects <;> simp [hexpects]
      obtain ⟨a, ha, hkey⟩ := hh hafter
      exact ⟨a, List.mem_cons_of_mem _ ha, hkey⟩

/-- The token of a header is proper. -/
theorem Closes.proper {h : Header} {l : Lexeme} (hcloses : Closes h l) (hh : h.Named) :
    (h.close l).Proper := by
  refine ⟨nofun, nofun, fun _ => ?_⟩
  have hafter : h.expects ≠ .name := by
    rcases hcloses.expects with hexpects | hexpects <;> simp [hexpects]
  obtain ⟨a, ha, hkey⟩ := hh hafter
  rw [Token.attribute?, List.find?_isSome]
  exact ⟨a, List.mem_reverse.2 ha, by simp [hkey]⟩

/-- Lexemes of a text make proper tokens. -/
theorem Makes.proper {header : Option Header} {ls : List Lexeme} {ts : List Token}
    (h : Makes header ls ts) (hheader : ∀ h ∈ header, h.Named)
    (hls : ∀ l ∈ ls, ∃ offset rest, l.Stands offset rest) : ∀ t ∈ ts, t.Proper := by
  induction h with
  | nil => exact nofun
  | blank _ _ ih => exact ih nofun (List.forall_mem_cons.1 hls).2
  | token hl _ ih =>
      obtain ⟨⟨offset, rest, hstands⟩, hls⟩ := List.forall_mem_cons.1 hls
      exact List.forall_mem_cons.2 ⟨proper_single hstands hl, ih nofun hls⟩
  | opening _ _ ih =>
      refine ih ?_ (List.forall_mem_cons.1 hls).2
      rintro h ⟨⟩
      exact fun hexpects => absurd rfl hexpects
  | @inside h _ _ _ _ hl _ ih =>
      refine ih ?_ (List.forall_mem_cons.1 hls).2
      rintro _ ⟨⟩
      exact hl.named (hheader h rfl)
  | @closing h _ _ _ hl _ ih =>
      exact List.forall_mem_cons.2
        ⟨hl.proper (hheader h rfl), ih nofun (List.forall_mem_cons.1 hls).2⟩

end Scan

/-- Scanning makes proper tokens. -/
theorem proper_of_scan {source : String} {tokens : List Token} (h : scan source = .ok tokens) :
    ∀ t ∈ tokens, t.Proper := by
  refine (scan_eq_ok_iff.1 h).proper nofun fun l hl => ?_
  obtain ⟨before, after, hsplit⟩ := List.append_of_mem hl
  exact ⟨_, _, Lexeme.stands_of_mem_splitFrom hsplit⟩

-- ========================================================= what is read

namespace Build

open Grammar Reply

section Yields

variable {stop : Nat} {ts rest : List Token} {left : Option Node} {nodes : List Node}

theorem Reply.Yields.proper (h : (process stop ts left).Yields nodes rest)
    (hts : ∀ t ∈ ts, t.Proper) : ∀ t ∈ rest, t.Proper := by
  obtain ⟨us, rfl, -⟩ := sound stop _ (Nat.lt_succ_self _) h
  exact fun t ht => hts t (List.mem_append_right _ ht)

/-- What is read at a brace is a block. -/
theorem Reply.Yields.block {brace : Token} (hbrace : brace.kind = .openBlock)
    (h : (process stop (brace :: ts) none).Yields nodes rest) :
    ∃ span body, nodes = [.block span body] := by
  obtain ⟨us, hus, hderives⟩ := sound stop _ (Nat.lt_succ_self _) h
  cases hderives.block_of_openBlock hus hbrace with
  | block => exact ⟨_, _, rfl⟩

end Yields

-- ================================================================== replies

/-- The reply is a value or an ordinary error. -/
def Reply.Fair {n : Nat} {α : Type} : Reply n α → Prop
  | .ok .. => True
  | .fail e .. => e.Ordinary .syntactic

namespace Reply.Fair

variable {m n : Nat} {α β : Type} {r : Reply m α}

theorem widen (h : m ≤ n) (hr : r.Fair) : (r.widen h).Fair := by
  cases r with
  | ok a rest shorter => trivial
  | fail e rest noLonger => exact hr

theorem within (context : Context) (hr : r.Fair) : (r.within context).Fair := by
  cases r with
  | ok a rest shorter => trivial
  | fail e rest noLonger => exact hr.within context

theorem andThen {h : m ≤ n} {next : α → (rest : List Token) → rest.length < m → Reply n β}
    (hr : r.Fair) (hnext : ∀ a rest shorter, r.Yields a rest → (next a rest shorter).Fair) :
    (r.andThen h next).Fair := by
  cases r with
  | ok a rest shorter => exact hnext a rest shorter ⟨shorter, rfl⟩
  | fail e rest noLonger => exact hr

end Reply.Fair

/-- Reading from fewer than `n` proper tokens is fair. -/
def FairBelow (stop n : Nat) : Prop :=
  ∀ (ts : List Token) (left : Option Node), ts.length < n → (∀ t ∈ ts, t.Proper) →
    (process stop ts left).Fair

section Parts

variable {stop n : Nat} {ts : List Token}

theorem proper_skipNewLines (hts : ∀ t ∈ ts, t.Proper) : ∀ t ∈ skipNewLines ts, t.Proper :=
  fun t ht => hts t ((List.dropWhile_sublist _).subset ht)

theorem proper_skipSeparators (hts : ∀ t ∈ ts, t.Proper) : ∀ t ∈ skipSeparators ts, t.Proper :=
  fun t ht => hts t ((List.dropWhile_sublist _).subset ht)

theorem require_fair (required : Required) : (require required stop ts).Fair := by
  cases ts with
  | nil => exact .raised rfl rfl
  | cons t rest =>
      show Reply.Fair (if t.kind = required.kind then _ else _)
      by_cases hkind : t.kind = required.kind
      · rw [if_pos hkind]
        trivial
      · rw [if_neg hkind]
        exact .raised rfl rfl

/-- A place for one node refuses several, but never finds none. -/
theorem single_fair {place : Operand} (hplace : place ≠ .functionBody) {nodes : List Node}
    (hnodes : nodes ≠ []) {e : Error} (h : single place nodes = .error e) :
    e.Ordinary .syntactic := by
  match nodes with
  | [] => exact absurd rfl hnodes
  | [node] => cases h
  | first :: second :: rest =>
      cases h
      refine .raised rfl ?_
      cases place with
      | functionBody => exact absurd rfl hplace
      | _ => rfl

variable (hread : FairBelow stop n) {h : ts.length < n}

include hread

theorem operand_fair {place : Operand} (hplace : place ≠ .functionBody)
    (hts : ∀ t ∈ ts, t.Proper) : (operand (reader stop) place ts h).Fair := by
  refine (hread ts none h hts).andThen fun nodes rest shorter hnodes => ?_
  cases hsingle : single place nodes with
  | ok node => trivial
  | error e => exact single_fair hplace (ne_nil_of_yields hnodes) hsingle

theorem chain_fair (node : Node) (hts : ∀ t ∈ ts, t.Proper) :
    (chain (reader stop) node ts h).Fair := by
  unfold chain
  by_cases hcontinues : continues ts = true
  · rw [if_pos hcontinues]
    exact (hread ts (some node) h hts).widen (Nat.le_of_lt h)
  · rw [if_neg hcontinues]
    trivial

theorem arguments_fair (opening : Span) (done : List Node) (hts : ∀ t ∈ ts, t.Proper) :
    (arguments (reader stop) opening done ts h).Fair := by
  induction hn : ts.length using Nat.strongRecOn generalizing ts done with
  | ind m ih =>
      have hskip := proper_skipNewLines hts
      have hlen := length_skipNewLines_le ts
      rw [arguments]
      split
      · exact .raised rfl rfl
      · next t rest hrest =>
        rw [hrest] at hskip hlen
        by_cases hclose : t.kind = .closeParen
        · rw [if_pos hclose]
          trivial
        · rw [if_neg hclose]
          refine ((operand_fair hread (by simp) hskip).within _).andThen
            fun argument after shorter hargument => ?_
          have hafter := (yields_operand.1 (yields_within.1 hargument)).proper hskip
          have hskip' := proper_skipNewLines hafter
          have hlen' := length_skipNewLines_le after
          dsimp only
          split
          · exact .raised rfl rfl
          · next next left hnext =>
            rw [hnext] at hskip' hlen'
            by_cases hcomma : next.kind = .comma
            · rw [if_pos hcomma]
              refine ih left.length ?_ _ (List.forall_mem_cons.1 hskip').2 rfl
              simp only [List.length_cons] at *
              omega
            · rw [if_neg hcomma]
              by_cases hend : next.kind = .closeParen
              · rw [if_pos hend]
                trivial
              · rw [if_neg hend]
                exact .raised rfl rfl

theorem statements_fair (opening : Span) (done : List Node) (hts : ∀ t ∈ ts, t.Proper) :
    (statements (reader stop) opening done ts h).Fair := by
  induction hn : ts.length using Nat.strongRecOn generalizing ts done with
  | ind m ih =>
      have hskip := proper_skipSeparators hts
      have hlen := length_skipSeparators_le ts
      rw [statements]
      split
      · exact .raised rfl rfl
      · next t rest hrest =>
        rw [hrest] at hskip hlen
        by_cases hclose : t.kind = .closeBlock
        · rw [if_pos hclose]
          trivial
        · rw [if_neg hclose]
          have hlt : (t :: rest).length < n := Nat.lt_of_le_of_lt hlen h
          refine ((hread _ none hlt hskip).within .block).andThen
            fun nodes after shorter hnodes => ?_
          refine ih after.length ?_ _ ((yields_within.1 hnodes).proper hskip) rfl
          simp only [List.length_cons] at *
          omega

end Parts

-- =============================================================== constructs

section Constructs

variable {stop n : Nat} {token : Token} {rest : List Token} {left : Option Node}

theorem alone_fair {α : Type} {h : rest.length < n} {next : Reply n α} (hnext : next.Fair) :
    (alone left token rest h next).Fair := by
  cases left with
  | none => exact hnext
  | some node => exact .raised rfl rfl

theorem joined_fair {α : Type} {h : rest.length < n} {next : Node → Reply n α}
    (hnext : ∀ node, (next node).Fair) : (joined left token rest h next).Fair := by
  cases left with
  | none => exact .raised rfl rfl
  | some node => exact hnext node

theorem boolean_fair : (boolean token rest left).Fair := alone_fair trivial

variable (hread : FairBelow stop (rest.length + 1)) (hrest : ∀ t ∈ rest, t.Proper)

include hread hrest

theorem reference_fair : (reference token rest (reader stop) left).Fair :=
  alone_fair (chain_fair hread _ hrest)

theorem string_fair : (string token rest (reader stop) left).Fair :=
  alone_fair (chain_fair hread _ hrest)

theorem number_fair (htoken : token.Proper) (hkind : token.kind = .number) :
    (number token rest (reader stop) left).Fair := by
  refine alone_fair ?_
  cases hvalue : Number.read? token.text with
  | none =>
      have hsome := htoken.number hkind
      rw [hvalue] at hsome
      cases hsome
  | some value => exact chain_fair hread _ hrest

theorem assignment_fair : (assignment token rest (reader stop) left).Fair := by
  refine joined_fair fun target => ?_
  exact ((operand_fair hread (by simp) hrest).within _).andThen fun _ _ _ _ => trivial

theorem binary_fair (htoken : token.Proper) (hkind : token.kind = .operator) :
    (binary token rest (reader stop) left).Fair := by
  refine joined_fair fun first => ?_
  cases hoperator : Operator.ofSymbol? token.text with
  | none =>
      have hsome := htoken.operator hkind
      rw [hoperator] at hsome
      cases hsome
  | some operator =>
      exact ((operand_fair hread (by simp) hrest).within _).andThen fun _ _ _ _ => trivial

theorem call_fair (callee : Node) : (call token rest (reader stop) callee).Fair := by
  refine ((arguments_fair hread token.span [] hrest).within _).andThen
    fun (args, closing) after shorter hargs => ?_
  obtain ⟨vs, c, more, hvs, -⟩ :=
    arguments_derives (sound stop _) (yields_within.1 hargs) (Nat.lt_succ_self _)
  refine chain_fair hread _ fun t ht => hrest t ?_
  rw [hvs]
  exact List.mem_append_right _ (List.mem_cons_of_mem _ ht)

theorem parenthesized_fair : (parenthesized stop token rest (reader stop)).Fair := by
  have hlen := length_skipNewLines_le rest
  have hskip := proper_skipNewLines hrest
  unfold parenthesized
  refine ((operand_fair hread (by simp) hskip).within _).andThen
    fun inner after shorter hinner => ?_
  have hafter := proper_skipNewLines ((yields_operand.1 (yields_within.1 hinner)).proper hskip)
  refine ((require_fair .closeParen).within _).andThen fun closing last shorter' hclosing => ?_
  rw [(yields_require.1 (yields_within.1 hclosing)).1] at hafter
  exact chain_fair hread _ (List.forall_mem_cons.1 hafter).2

theorem readProperty_fair : (readProperty stop token rest (reader stop) left).Fair := by
  refine joined_fair fun object => ?_
  refine (require_fair .propertyName).andThen fun property after shorter hproperty => ?_
  have hrest' := hrest
  rw [(yields_require.1 hproperty).1] at hrest'
  exact chain_fair hread _ (List.forall_mem_cons.1 hrest').2

theorem block_fair : (block token rest (reader stop) left).Fair := by
  refine alone_fair ?_
  exact (statements_fair hread token.span [] hrest).andThen fun _ _ _ _ => trivial

theorem variableDeclaration_fair :
    (variableDeclaration stop token rest (reader stop) left).Fair := by
  refine alone_fair ?_
  refine (require_fair .variableName).andThen fun name after shorter hname => ?_
  have hrest' := hrest
  rw [(yields_require.1 hname).1] at hrest'
  have hafter := (List.forall_mem_cons.1 hrest').2
  cases after with
  | nil => trivial
  | cons equals value =>
      show Reply.Fair (if equals.kind = .assign then _ else _)
      by_cases hassign : equals.kind = .assign
      · rw [if_pos hassign]
        have hshort : FairBelow stop (value.length + 1) := by
          intro ts left hlen hts
          refine hread ts left ?_ hts
          simp only [List.length_cons] at shorter
          omega
        refine ((assignment_fair hshort (List.forall_mem_cons.1 hafter).2).within _).andThen ?_
        exact fun _ _ _ _ => trivial
      · rw [if_neg hassign]
        trivial

theorem function_fair (htoken : token.Proper) (hkind : token.kind = .functionDeclaration) :
    (function stop token rest (reader stop) left).Fair := by
  refine alone_fair ?_
  cases hname : token.attribute? .name with
  | none =>
      have hsome := htoken.header hkind
      rw [hname] at hsome
      cases hsome
  | some declared =>
      obtain ⟨key, name, span⟩ := declared
      have hskip := proper_skipNewLines hrest
      have hlen := length_skipNewLines_le rest
      dsimp only
      split
      · exact .raised rfl rfl
      · next brace inner hts =>
        rw [hts] at hskip hlen
        by_cases hopen : brace.kind = .openBlock
        · rw [if_pos hopen]
          have hlt : (brace :: inner).length < rest.length + 1 := Nat.lt_succ_of_le hlen
          refine ((hread _ none hlt hskip).within _).andThen fun nodes after shorter hnodes => ?_
          obtain ⟨bspan, body, rfl⟩ := (yields_within.1 hnodes).block hopen
          trivial
        · rw [if_neg hopen]
          exact .raised rfl rfl

theorem ret_fair : (ret token rest (reader stop) left).Fair := by
  refine alone_fair ?_
  cases rest with
  | nil => trivial
  | cons next more =>
      show Reply.Fair (if (next.kind.isSeparator || next.kind == .closeBlock) = true then _ else _)
      by_cases hend : (next.kind.isSeparator || next.kind == .closeBlock) = true
      · rw [if_pos hend]
        trivial
      · rw [if_neg hend]
        exact ((operand_fair hread (by simp) hrest).within _).andThen fun _ _ _ _ => trivial

end Constructs

-- ================================================================= programs

/-- One level of reading is fair if reading inside is. -/
theorem dispatch_fair {stop : Nat} {ts : List Token} {left : Option Node}
    (hread : FairBelow stop ts.length) (hts : ∀ t ∈ ts, t.Proper) :
    (dispatch stop ts (reader stop) left).Fair := by
  cases ts with
  | nil => exact .raised rfl rfl
  | cons token rest =>
      obtain ⟨htoken, hrest⟩ := List.forall_mem_cons.1 hts
      cases hconstruct : Construct.ofToken? token.kind with
      | none =>
          rw [dispatch_of_none hconstruct]
          exact .raised rfl rfl
      | some construct =>
          rw [dispatch_of_some hconstruct]
          have hkind := Construct.ofToken?_eq_some.1 hconstruct
          cases construct with
          | reference => exact reference_fair hread hrest
          | number => exact number_fair hread hrest htoken hkind
          | string => exact string_fair hread hrest
          | boolean => exact boolean_fair
          | assignment => exact assignment_fair hread hrest
          | binary => exact binary_fair hread hrest htoken hkind
          | openParen =>
              cases left with
              | none => exact parenthesized_fair hread hrest
              | some callee => exact call_fair hread hrest callee
          | readProperty => exact readProperty_fair hread hrest
          | block => exact block_fair hread hrest
          | variableDeclaration => exact variableDeclaration_fair hread hrest
          | function => exact function_fair hread hrest htoken hkind
          | ret => exact ret_fair hread hrest

theorem fairBelow (stop n : Nat) : FairBelow stop n := by
  induction n with
  | zero => exact fun ts left h => absurd h (Nat.not_lt_zero _)
  | succ n ih =>
      intro ts left h hts
      rw [process_eq_dispatch]
      refine dispatch_fair (fun us l hlen hus => ?_) hts
      exact ih us l (Nat.lt_of_lt_of_le hlen (Nat.le_of_lt_succ h)) hus

theorem ordinary_of_program {stop : Nat} {done : List Node} {ts : List Token} {e : Error}
    (hts : ∀ t ∈ ts, t.Proper) (h : program stop done ts = .error e) : e.Ordinary .syntactic := by
  induction hn : ts.length using Nat.strongRecOn generalizing ts done with
  | ind m ih =>
      have hskip := proper_skipSeparators hts
      have hlen := length_skipSeparators_le ts
      cases hrest : skipSeparators ts with
      | nil =>
          rw [program_of_nil hrest] at h
          cases h
      | cons t rest =>
          rw [hrest] at hskip hlen
          rw [program_of_cons hrest] at h
          have hfair := fairBelow stop _ (t :: rest) none (Nat.lt_succ_self _) hskip
          cases hprocess : process stop (t :: rest) none with
          | fail e' after noLonger =>
              rw [hprocess] at h hfair
              cases h
              exact hfair
          | ok nodes after shorter =>
              rw [hprocess] at h
              refine ih after.length ?_ (Reply.Yields.proper ⟨shorter, hprocess⟩ hskip) h rfl
              simp only [List.length_cons] at hlen shorter
              omega

end Build

/-- What the builder refuses it refuses for an ordinary fault. -/
theorem ordinary_of_build_error {tokens : List Token} {e : Error} (htokens : ∀ t ∈ tokens, t.Proper)
    (h : build tokens = .error e) : e.Ordinary .syntactic := by
  rw [build_eq] at h
  cases hprogram : Build.program (endOfTokens tokens) [] tokens with
  | ok nodes =>
      rw [hprogram] at h
      cases h
  | error e' =>
      rw [hprogram] at h
      cases h
      exact Build.ordinary_of_program htokens hprogram

end ScopedScript
