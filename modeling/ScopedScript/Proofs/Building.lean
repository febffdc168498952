/-
Building accepts exactly the grammar.

`Build.process` reads one statement, or goes on from a node, without ever
going back; the grammar says what statements are. Here the two are shown
to be the same thing, in both directions.

# From readings to derivations

By strong induction on the number of tokens: whatever a construct reads
inside is read from fewer tokens (`Sound` bundles what is known of them).
Only the two loops, over arguments and over statements, need an induction
of their own.

# From derivations to readings

By induction on the derivation, for all kinds of phrases together
(`Reads`). What follows a phrase is part of the derivation, so there is
nothing to guess: the token that decides where a phrase ends is the one
that the reader looks at.
-/
import ScopedScript.Proofs.Grammar
import ScopedScript.Proofs.Reading

namespace ScopedScript.Build

open Grammar Reply

-- ======================================================== runs of separators

theorem newLines_skipNewLines (ts : List Token) :
    ∃ before, ts = before ++ skipNewLines ts ∧ NewLines before := by
  refine ⟨ts.takeWhile (·.kind == .newLine), List.takeWhile_append_dropWhile.symm, ?_⟩
  intro t ht
  have := List.all_eq_true.1 List.all_takeWhile t ht
  simpa using this

theorem separators_skipSeparators (ts : List Token) :
    ∃ before, ts = before ++ skipSeparators ts ∧ Separators before := by
  refine ⟨ts.takeWhile (·.kind.isSeparator), List.takeWhile_append_dropWhile.symm, ?_⟩
  intro t ht
  exact List.all_eq_true.1 List.all_takeWhile t ht

theorem skipNewLines_append {before : List Token} (h : NewLines before) {t : Token}
    (ht : t.kind ≠ .newLine) (ts : List Token) :
    skipNewLines (before ++ t :: ts) = t :: ts := by
  unfold skipNewLines
  rw [List.dropWhile_append_of_pos fun u hu => by simp [h u hu]]
  exact List.dropWhile_cons_of_neg (by simpa using ht)

theorem skipSeparators_eq_nil {ts : List Token} (h : Separators ts) :
    skipSeparators ts = [] := by
  unfold skipSeparators
  rw [← List.append_nil ts, List.dropWhile_append_of_pos h]
  rfl

theorem skipSeparators_append {before : List Token} (h : Separators before) {t : Token}
    (ht : t.kind.isSeparator = false) (ts : List Token) :
    skipSeparators (before ++ t :: ts) = t :: ts := by
  unfold skipSeparators
  rw [List.dropWhile_append_of_pos fun u hu => h u hu]
  exact List.dropWhile_cons_of_neg (by simp [ht])

-- ======================================================= readings are derived

/-- The phrase that is read with or without a left operand. -/
def phraseAfter : Option Node → Phrase
  | none => .statement
  | some left => .tail left

/-- Every reading from fewer than `n` tokens is derived. -/
def Sound (stop n : Nat) : Prop :=
  ∀ {ts rest : List Token} {left : Option Node} {nodes : List Node}, ts.length < n →
    (process stop ts left).Yields nodes rest →
    ∃ us, ts = us ++ rest ∧ Derives (phraseAfter left) us rest nodes

section Sound

variable {stop n : Nat} (hsound : Sound stop n) {ts rest : List Token} {node : Node}
  {nodes : List Node}

include hsound

theorem GoesOn.derives (h : GoesOn stop node ts nodes rest) (hlen : ts.length < n) :
    ∃ us, ts = us ++ rest ∧ Derives (.tail node) us rest nodes := by
  unfold GoesOn at h
  split at h
  · exact hsound hlen h
  · next hcontinues =>
    obtain ⟨rfl, rfl⟩ := h
    refine ⟨[], rfl, .stop fun t ht => ?_⟩
    cases rest with
    | nil => cases ht
    | cons u us =>
        cases ht
        simpa [continues] using hcontinues

theorem arguments_derives {m : Nat} {opening closing : Span} {done args : List Node}
    {h : ts.length < m}
    (hyields : (arguments (reader stop) opening done ts h).Yields (args, closing) rest)
    (hlen : ts.length < n) :
    ∃ us t more, ts = us ++ t :: rest ∧ t.kind = .closeParen ∧ closing = t.span
      ∧ args = done.reverse ++ more ∧ Derives .arguments us (t :: rest) more := by
  induction hn : ts.length using Nat.strongRecOn generalizing ts done with
  | ind k ih =>
      obtain ⟨before, hts, hbefore⟩ := newLines_skipNewLines ts
      obtain ⟨t, us, hskip, hcases⟩ := yields_arguments.1 hyields
      rw [hskip] at hts
      have hus : (t :: us).length ≤ ts.length := by
        rw [hts, List.length_append]
        omega
      rcases hcases with ⟨hclose, rfl, rfl, rfl⟩ | ⟨arg, mid, next, left, -, hread, hmid, hcases⟩
      · exact ⟨before, t, [], hts, hclose, rfl, (List.append_nil _).symm, .noArgument hbefore⟩
      · obtain ⟨after, hmid', hafter⟩ := newLines_skipNewLines mid
        rw [hmid] at hmid'
        obtain ⟨es, hes, harg⟩ := hsound (by omega) hread
        rcases hcases with ⟨hcomma, h', hyields⟩ | ⟨hclose, rfl, rfl, rfl⟩
        · have hleft : left.length < ts.length := by
            have := congrArg List.length hes
            have := congrArg List.length hmid'
            simp only [List.length_append, List.length_cons] at *
            omega
          obtain ⟨vs, c, more, hvs, hc, hspan, hargs, hmore⟩ :=
            ih _ (by omega) hyields (by omega) rfl
          refine ⟨before ++ (es ++ (after ++ next :: vs)), c, arg :: more, ?_, hc, hspan, ?_, ?_⟩
          · rw [hts, hes, hmid', hvs]
            simp
          · rw [hargs, List.reverse_cons, List.append_assoc]
            rfl
          · refine .nextArgument hbefore ?_ hafter hcomma hmore
            rw [← hvs, ← hmid']
            exact harg
        · refine ⟨before ++ (es ++ after), next, [arg], ?_, hclose, rfl, ?_, ?_⟩
          · rw [hts, hes, hmid']
            simp
          · exact List.reverse_cons
          · refine .lastArgument hbefore ?_ hafter
            rw [← hmid']
            exact harg

theorem statements_derives {m : Nat} {opening closing : Span} {done body : List Node}
    {h : ts.length < m}
    (hyields : (statements (reader stop) opening done ts h).Yields (body, closing) rest)
    (hlen : ts.length < n) :
    ∃ us t more, ts = us ++ t :: rest ∧ t.kind = .closeBlock ∧ closing = t.span
      ∧ body = done.reverse ++ more ∧ Derives .body us (t :: rest) more := by
  induction hn : ts.length using Nat.strongRecOn generalizing ts done with
  | ind k ih =>
      obtain ⟨before, hts, hbefore⟩ := separators_skipSeparators ts
      obtain ⟨t, us, hskip, hcases⟩ := yields_statements.1 hyields
      rw [hskip] at hts
      have hus : (t :: us).length ≤ ts.length := by
        rw [hts, List.length_append]
        omega
      rcases hcases with ⟨hclose, rfl, rfl, rfl⟩ | ⟨nodes, mid, -, hread, h', hyields⟩
      · exact ⟨before, t, [], hts, hclose, rfl, (List.append_nil _).symm, .noStatement hbefore⟩
      · have hmid := length_lt_of_yields hread
        obtain ⟨es, hes, hstatement⟩ := hsound (by omega) hread
        obtain ⟨vs, c, more, hvs, hc, hspan, hbody, hmore⟩ :=
          ih _ (by omega) hyields (by omega) rfl
        refine ⟨before ++ (es ++ vs), c, nodes ++ more, ?_, hc, hspan, ?_, ?_⟩
        · rw [hts, hes, hvs]
          simp
        · rw [hbody, List.reverse_append, List.reverse_reverse, List.append_assoc]
        · refine .nextStatement hbefore ?_ hmore
          rw [← hvs]
          exact hstatement

end Sound

/-- Whatever is read is derived. -/
theorem sound (stop n : Nat) : Sound stop n := by
  induction n with
  | zero =>
      intro ts rest left nodes hlen
      exact absurd hlen (Nat.not_lt_zero _)
  | succ n ih =>
      intro ts rest left nodes hlen hyields
      obtain ⟨t, us, construct, rfl, hkind, hyields⟩ := yields_process.1 hyields
      have hus : us.length < n := Nat.lt_of_succ_lt_succ hlen
      cases construct with
      | reference =>
          obtain ⟨rfl, hgoes⟩ := yields_reference.1 hyields
          obtain ⟨vs, rfl, htail⟩ := hgoes.derives ih hus
          exact ⟨t :: vs, rfl, .reference hkind htail⟩
      | number =>
          obtain ⟨rfl, value, hvalue, hgoes⟩ := yields_number.1 hyields
          obtain ⟨vs, rfl, htail⟩ := hgoes.derives ih hus
          exact ⟨t :: vs, rfl, .number hkind hvalue htail⟩
      | string =>
          obtain ⟨rfl, hgoes⟩ := yields_string.1 hyields
          obtain ⟨vs, rfl, htail⟩ := hgoes.derives ih hus
          exact ⟨t :: vs, rfl, .string hkind htail⟩
      | boolean =>
          obtain ⟨rfl, rfl, rfl⟩ := yields_boolean.1 hyields
          exact ⟨[t], rfl, .boolean hkind⟩
      | assignment =>
          obtain ⟨target, value, rfl, hvalue, rfl⟩ := yields_assignment.1 hyields
          obtain ⟨vs, rfl, hderives⟩ := ih hus hvalue
          exact ⟨t :: vs, rfl, .assignment hkind hderives⟩
      | binary =>
          obtain ⟨first, operator, second, rfl, hoperator, hsecond, rfl⟩ :=
            yields_binary.1 hyields
          obtain ⟨vs, rfl, hderives⟩ := ih hus hsecond
          exact ⟨t :: vs, rfl, .binary hkind hoperator hderives⟩
      | openParen =>
          cases left with
          | none =>
              obtain ⟨before, hbefore, hnewLines⟩ := newLines_skipNewLines us
              obtain ⟨inner, mid, closing, last, hinner, hmid, hclosing, hgoes⟩ :=
                yields_parenthesized.1 hyields
              obtain ⟨after, hafter, hnewLines'⟩ := newLines_skipNewLines mid
              have hskip := length_skipNewLines_le us
              obtain ⟨vs, hvs, hderives⟩ := ih (by omega) hinner
              rw [hmid] at hafter
              have hlast : last.length < n := by
                have := congrArg List.length hvs
                have := congrArg List.length hafter
                simp only [List.length_append, List.length_cons] at *
                omega
              obtain ⟨ws, rfl, htail⟩ := hgoes.derives ih hlast
              refine ⟨t :: (before ++ (vs ++ (after ++ closing :: ws))), ?_, ?_⟩
              · rw [hbefore, hvs, hafter]
                simp
              · refine .parenthesized hkind hnewLines ?_ hnewLines' hclosing htail
                rw [← hafter]
                exact hderives
          | some callee =>
              obtain ⟨args, closing, mid, hargs, hgoes⟩ := yields_call.1 hyields
              obtain ⟨vs, c, more, rfl, hc, rfl, rfl, hderives⟩ := arguments_derives ih hargs hus
              have hmid : mid.length < n := by
                simp only [List.length_append, List.length_cons] at hus
                omega
              obtain ⟨ws, rfl, htail⟩ := hgoes.derives ih hmid
              refine ⟨t :: (vs ++ c :: ws), ?_, .call hkind hderives hc htail⟩
              simp
      | readProperty =>
          obtain ⟨object, property, vs, rfl, rfl, hproperty, hgoes⟩ :=
            yields_readProperty.1 hyields
          obtain ⟨ws, rfl, htail⟩ := hgoes.derives ih (Nat.lt_of_succ_lt hus)
          exact ⟨t :: property :: ws, rfl, .property hkind hproperty htail⟩
      | block =>
          obtain ⟨rfl, body, closing, hbody, rfl⟩ := yields_block.1 hyields
          obtain ⟨vs, c, more, rfl, hc, rfl, rfl, hderives⟩ := statements_derives ih hbody hus
          refine ⟨t :: (vs ++ [c]), ?_, .blockStatement (.block hkind hderives hc)⟩
          simp
      | variableDeclaration =>
          obtain ⟨rfl, name, vs, rfl, hname, hcases⟩ := yields_variableDeclaration.1 hyields
          rcases hcases with ⟨hnext, rfl, rfl⟩ | ⟨equals, ws, value, rfl, hequals, hvalue, rfl⟩
          · exact ⟨[t, name], rfl, .declaration hkind hname hnext⟩
          · simp only [List.length_cons] at hus
            obtain ⟨xs, rfl, hderives⟩ := ih (by omega) hvalue
            exact ⟨t :: name :: equals :: xs, rfl,
              .initializedDeclaration hkind hname hequals hderives⟩
      | function =>
          obtain ⟨before, hbefore, hnewLines⟩ := newLines_skipNewLines us
          obtain ⟨rfl, name, brace, vs, body, hname, hskip, hbrace, hbody, -, rfl⟩ :=
            yields_function.1 hyields
          have hle := length_skipNewLines_le us
          rw [hskip] at hbefore hle
          obtain ⟨ws, hws, hderives⟩ := ih (by omega) hbody
          refine ⟨t :: (before ++ ws), ?_, ?_⟩
          · rw [hbefore, hws]
            simp
          · exact .function hkind hname hnewLines (hderives.block_of_openBlock hws hbrace)
      | ret =>
          rcases yields_ret.1 hyields with ⟨rfl, ⟨hnext, rfl, rfl⟩ | ⟨value, -, hvalue, rfl⟩⟩
          · exact ⟨[t], rfl, .bareReturn hkind hnext⟩
          · obtain ⟨vs, rfl, hderives⟩ := ih hus hvalue
            exact ⟨t :: vs, rfl, .returnValue hkind hderives⟩

theorem program_derives {stop : Nat} {ts : List Token} {done body : List Node}
    (h : program stop done ts = .ok body) :
    ∃ more, body = done.reverse ++ more ∧ Derives .body ts [] more := by
  induction hn : ts.length using Nat.strongRecOn generalizing ts done with
  | ind k ih =>
      obtain ⟨before, hts, hbefore⟩ := separators_skipSeparators ts
      rcases program_eq_ok.1 h with ⟨hskip, rfl⟩ | ⟨t, us, nodes, mid, hskip, hread, hprogram⟩
      · rw [hskip, List.append_nil] at hts
        subst hts
        exact ⟨[], (List.append_nil _).symm, .noStatement hbefore⟩
      · rw [hskip] at hts
        have hmid := length_lt_of_yields hread
        obtain ⟨es, hes, hstatement⟩ := sound stop _ (Nat.lt_succ_self _) hread
        have hlen : mid.length < ts.length := by
          rw [hts, List.length_append]
          omega
        obtain ⟨more, rfl, hmore⟩ := ih _ (by omega) hprogram rfl
        refine ⟨nodes ++ more, ?_, ?_⟩
        · rw [List.reverse_append, List.reverse_reverse, List.append_assoc]
        · rw [hts, hes]
          refine .nextStatement hbefore ?_ hmore
          rw [List.append_nil]
          exact hstatement

-- ====================================================== derivations are read

/-- What it means to read a phrase before the tokens that come next. -/
def Reads (stop : Nat) : Phrase → (tokens next : List Token) → List Node → Prop
  | .statement, ts, next, nodes => (process stop (ts ++ next) none).Yields nodes next
  | .tail left, ts, next, nodes => GoesOn stop left (ts ++ next) nodes next
  | .block, ts, next, nodes =>
      (process stop (ts ++ next) none).Yields nodes next
        ∧ (∃ t us, ts = t :: us ∧ t.kind = .openBlock)
        ∧ ∃ span body, nodes = [.block span body]
  | .arguments, ts, next, nodes =>
      ∀ (m : Nat) (opening : Span) (done : List Node) (t : Token) (rest : List Token)
        (h : (ts ++ next).length < m), next = t :: rest → t.kind = .closeParen →
        (arguments (reader stop) opening done (ts ++ next) h).Yields
          (done.reverse ++ nodes, t.span) rest
  | .body, ts, next, nodes =>
      (∀ (m : Nat) (opening : Span) (done : List Node) (t : Token) (rest : List Token)
        (h : (ts ++ next).length < m), next = t :: rest → t.kind = .closeBlock →
        (statements (reader stop) opening done (ts ++ next) h).Yields
          (done.reverse ++ nodes, t.span) rest)
      ∧ (next = [] → ∀ done, program stop done ts = .ok (done.reverse ++ nodes))

/-- A phrase that is read has tokens, and the first one selects a
construct. -/
theorem cons_of_yields {stop : Nat} {ts next : List Token} {left : Option Node}
    {nodes : List Node} (h : (process stop (ts ++ next) left).Yields nodes next) :
    ∃ t us, ∃ construct : Construct, ts = t :: us ∧ t.kind = construct.kind := by
  have hlen := length_lt_of_yields h
  obtain ⟨t, us, construct, hts, hkind, -⟩ := yields_process.1 h
  cases ts with
  | nil => exact absurd hlen (Nat.lt_irrefl _)
  | cons u us' =>
      cases hts
      exact ⟨t, us', construct, rfl, hkind⟩

/-- A token that continues an expression makes a node go on. -/
theorem GoesOn.of_yields {stop : Nat} {node : Node} {t : Token} {ts rest : List Token}
    {nodes : List Node} (ht : t.kind.isContinuation = true)
    (h : (process stop (t :: ts) (some node)).Yields nodes rest) :
    GoesOn stop node (t :: ts) nodes rest := by
  unfold GoesOn
  rw [if_pos (show continues (t :: ts) = true from ht)]
  exact h

section Complete

variable {stop : Nat} {next : List Token}

theorem reads_noStatement {seps : List Token} (hseps : Separators seps) :
    Reads stop .body seps next [] := by
  refine ⟨fun m opening done t rest h hnext ht => ?_, fun _ done => ?_⟩
  · subst hnext
    have hsep : t.kind.isSeparator = false := by rw [ht]; rfl
    refine yields_statements.2 ⟨t, rest, skipSeparators_append hseps hsep rest, .inl ?_⟩
    exact ⟨ht, List.append_nil _, rfl, rfl⟩
  · exact program_eq_ok.2 (.inl ⟨skipSeparators_eq_nil hseps, List.append_nil _⟩)

theorem reads_nextStatement {seps ts rest : List Token} {nodes more : List Node}
    (hseps : Separators seps) (hstatement : Reads stop .statement ts (rest ++ next) nodes)
    (hrest : Reads stop .body rest next more) :
    Reads stop .body (seps ++ (ts ++ rest)) next (nodes ++ more) := by
  obtain ⟨u, us, construct, rfl, hkind⟩ := cons_of_yields hstatement
  have hsep : u.kind.isSeparator = false := by
    rw [hkind]
    exact construct.isSeparator_kind
  refine ⟨fun m opening done t tail h hnext ht => ?_, fun hnext done => ?_⟩
  · have hskip : skipSeparators ((seps ++ (u :: us ++ rest)) ++ next)
        = u :: (us ++ (rest ++ next)) := by
      rw [show (seps ++ (u :: us ++ rest)) ++ next = seps ++ u :: (us ++ (rest ++ next)) by simp]
      exact skipSeparators_append hseps hsep _
    have hlen : (rest ++ next).length < m := by
      simp only [List.length_append, List.length_cons] at h ⊢
      omega
    have hloop := hrest.1 m opening (nodes.reverse ++ done) t tail hlen hnext ht
    rw [List.reverse_append, List.reverse_reverse, List.append_assoc] at hloop
    refine yields_statements.2
      ⟨u, _, hskip, .inr ⟨nodes, rest ++ next, ?_, hstatement, hlen, hloop⟩⟩
    rw [hkind]
    exact construct.kind_ne rfl
  · subst hnext
    have hskip : skipSeparators (seps ++ (u :: us ++ rest)) = u :: (us ++ (rest ++ [])) := by
      rw [List.append_nil]
      exact skipSeparators_append hseps hsep _
    have hloop := hrest.2 rfl (nodes.reverse ++ done)
    rw [List.reverse_append, List.reverse_reverse, List.append_assoc] at hloop
    refine program_eq_ok.2 (.inr ⟨u, _, nodes, rest ++ [], hskip, hstatement, ?_⟩)
    rw [List.append_nil]
    exact hloop

theorem reads_noArgument {before : List Token} (hbefore : NewLines before) :
    Reads stop .arguments before next [] := by
  intro m opening done t rest h hnext ht
  subst hnext
  have hline : t.kind ≠ .newLine := by rw [ht]; decide
  refine yields_arguments.2 ⟨t, rest, skipNewLines_append hbefore hline rest, .inl ?_⟩
  exact ⟨ht, List.append_nil _, rfl, rfl⟩

theorem reads_lastArgument {before ts after : List Token} {arg : Node}
    (hbefore : NewLines before) (harg : Reads stop .statement ts (after ++ next) [arg])
    (hafter : NewLines after) :
    Reads stop .arguments (before ++ (ts ++ after)) next [arg] := by
  obtain ⟨u, us, construct, rfl, hkind⟩ := cons_of_yields harg
  intro m opening done t rest h hnext ht
  subst hnext
  have hskip : skipNewLines ((before ++ (u :: us ++ after)) ++ t :: rest)
      = u :: (us ++ (after ++ t :: rest)) := by
    rw [show (before ++ (u :: us ++ after)) ++ t :: rest
      = before ++ u :: (us ++ (after ++ t :: rest)) by simp]
    exact skipNewLines_append hbefore (by rw [hkind]; exact construct.kind_ne rfl) _
  have hskip' : skipNewLines (after ++ t :: rest) = t :: rest :=
    skipNewLines_append hafter (by rw [ht]; decide) rest
  refine yields_arguments.2 ⟨u, _, hskip, .inr ⟨arg, _, t, rest, ?_, harg, hskip', .inr ?_⟩⟩
  · rw [hkind]
    exact construct.kind_ne rfl
  · exact ⟨ht, List.reverse_cons.symm, rfl, rfl⟩

theorem reads_nextArgument {before ts after rest : List Token} {comma : Token} {arg : Node}
    {args : List Node} (hbefore : NewLines before)
    (harg : Reads stop .statement ts (after ++ comma :: (rest ++ next)) [arg])
    (hafter : NewLines after) (hcomma : comma.kind = .comma)
    (hrest : Reads stop .arguments rest next args) :
    Reads stop .arguments (before ++ (ts ++ (after ++ comma :: rest))) next (arg :: args) := by
  obtain ⟨u, us, construct, rfl, hkind⟩ := cons_of_yields harg
  intro m opening done t tail h hnext ht
  have hskip : skipNewLines ((before ++ (u :: us ++ (after ++ comma :: rest))) ++ next)
      = u :: (us ++ (after ++ comma :: (rest ++ next))) := by
    rw [show (before ++ (u :: us ++ (after ++ comma :: rest))) ++ next
      = before ++ u :: (us ++ (after ++ comma :: (rest ++ next))) by simp]
    exact skipNewLines_append hbefore (by rw [hkind]; exact construct.kind_ne rfl) _
  have hskip' : skipNewLines (after ++ comma :: (rest ++ next)) = comma :: (rest ++ next) :=
    skipNewLines_append hafter (by rw [hcomma]; decide) _
  have hlen : (rest ++ next).length < m := by
    simp only [List.length_append, List.length_cons] at h ⊢
    omega
  have hloop := hrest m opening (arg :: done) t tail hlen hnext ht
  rw [List.reverse_cons, List.append_assoc] at hloop
  refine yields_arguments.2
    ⟨u, _, hskip, .inr ⟨arg, _, comma, _, ?_, harg, hskip', .inl ⟨hcomma, hlen, hloop⟩⟩⟩
  rw [hkind]
  exact construct.kind_ne rfl

end Complete

/-- Whatever is derived is read. -/
theorem complete (stop : Nat) {phrase : Phrase} {ts next : List Token} {nodes : List Node}
    (h : Derives phrase ts next nodes) : Reads stop phrase ts next nodes := by
  induction h with
  | noStatement hseps => exact reads_noStatement hseps
  | nextStatement hseps _ _ hstatement hrest => exact reads_nextStatement hseps hstatement hrest
  | noArgument hbefore => exact reads_noArgument hbefore
  | lastArgument hbefore _ hafter harg => exact reads_lastArgument hbefore harg hafter
  | nextArgument hbefore _ hafter hcomma _ harg hrest =>
      exact reads_nextArgument hbefore harg hafter hcomma hrest
  | @block opening body closing next nodes hopening _ hclosing hbody =>
      refine ⟨?_, ⟨opening, _, rfl, hopening⟩, _, _, rfl⟩
      refine yields_process.2
        ⟨opening, (body ++ [closing]) ++ next, .block, rfl, hopening, yields_block.2 ⟨rfl, ?_⟩⟩
      rw [List.append_assoc]
      exact ⟨nodes, closing.span, hbody.1 _ _ [] closing next _ rfl hclosing, rfl⟩
  | @reference t ts next nodes ht _ htail =>
      exact yields_process.2 ⟨t, _, .reference, rfl, ht, yields_reference.2 ⟨rfl, htail⟩⟩
  | @number t ts next nodes value ht hvalue _ htail =>
      exact yields_process.2 ⟨t, _, .number, rfl, ht, yields_number.2 ⟨rfl, value, hvalue, htail⟩⟩
  | @string t ts next nodes ht _ htail =>
      exact yields_process.2 ⟨t, _, .string, rfl, ht, yields_string.2 ⟨rfl, htail⟩⟩
  | @boolean t next ht =>
      exact yields_process.2 ⟨t, _, .boolean, rfl, ht, yields_boolean.2 ⟨rfl, rfl, rfl⟩⟩
  | @parenthesized opening before ts after closing rest next inner nodes hopening hbefore _
      hafter hclosing _ hinner htail =>
      obtain ⟨u, us, construct, rfl, hkind⟩ := cons_of_yields hinner
      have hskip : skipNewLines ((before ++ (u :: us ++ (after ++ closing :: rest))) ++ next)
          = u :: us ++ (after ++ closing :: (rest ++ next)) := by
        rw [show (before ++ (u :: us ++ (after ++ closing :: rest))) ++ next
          = before ++ u :: (us ++ (after ++ closing :: (rest ++ next))) by simp]
        exact skipNewLines_append hbefore (by rw [hkind]; exact construct.kind_ne rfl) _
      refine yields_process.2
        ⟨opening, (before ++ (u :: us ++ (after ++ closing :: rest))) ++ next, .openParen, rfl,
          hopening, ?_⟩
      refine yields_parenthesized.2
        ⟨inner, after ++ closing :: (rest ++ next), closing, _, ?_, ?_, hclosing, htail⟩
      · rw [hskip]
        exact hinner
      · exact skipNewLines_append hafter (by rw [hclosing]; decide) _
  | blockStatement _ hblock => exact hblock.1
  | @declaration var name next hvar hname hnext =>
      refine yields_process.2 ⟨var, _, .variableDeclaration, rfl, hvar, ?_⟩
      exact yields_variableDeclaration.2 ⟨rfl, name, next, rfl, hname, .inl ⟨hnext, rfl, rfl⟩⟩
  | @initializedDeclaration var name equals ts next value hvar hname hequals _ hvalue =>
      refine yields_process.2 ⟨var, _, .variableDeclaration, rfl, hvar, ?_⟩
      exact yields_variableDeclaration.2
        ⟨rfl, name, _, rfl, hname, .inr ⟨equals, _, value, rfl, hequals, hvalue, rfl⟩⟩
  | @function header name before ts next body hheader hname hbefore _ hbody =>
      obtain ⟨hread, ⟨brace, us, rfl, hbrace⟩, span, statements, hblock⟩ := hbody
      cases hblock
      refine yields_process.2
        ⟨header, (before ++ brace :: us) ++ next, .function, rfl, hheader, ?_⟩
      refine yields_function.2
        ⟨rfl, name, brace, us ++ next, _, hname, ?_, hbrace, hread, ⟨span, statements, rfl⟩, rfl⟩
      rw [List.append_assoc]
      exact skipNewLines_append hbefore (by rw [hbrace]; decide) _
  | @bareReturn t next ht hnext =>
      exact yields_process.2 ⟨t, _, .ret, rfl, ht, yields_ret.2 ⟨rfl, .inl ⟨hnext, rfl, rfl⟩⟩⟩
  | @returnValue t ts next value ht _ hvalue =>
      obtain ⟨u, us, construct, rfl, hkind⟩ := cons_of_yields hvalue
      refine yields_process.2
        ⟨t, _, .ret, rfl, ht, yields_ret.2 ⟨rfl, .inr ⟨value, ?_, hvalue, rfl⟩⟩⟩
      intro hend
      rcases hend u rfl with hsep | hclose
      · rw [hkind, construct.isSeparator_kind] at hsep
        cases hsep
      · exact construct.kind_ne rfl (hkind.symm.trans hclose)
  | @stop left next hnext =>
      show GoesOn stop left next [left] next
      unfold GoesOn
      rw [if_neg]
      · exact ⟨rfl, rfl⟩
      · intro hcontinues
        cases next with
        | nil => cases hcontinues
        | cons t ts =>
            have hstop := hnext t rfl
            rw [show t.kind.isContinuation = true from hcontinues] at hstop
            cases hstop
  | @assignment left equals ts next value hequals _ hvalue =>
      refine GoesOn.of_yields (by rw [hequals]; rfl) ?_
      refine yields_process.2 ⟨equals, _, .assignment, rfl, hequals, ?_⟩
      exact yields_assignment.2 ⟨left, value, rfl, hvalue, rfl⟩
  | @binary left t operator ts next right ht hoperator _ hright =>
      refine GoesOn.of_yields (by rw [ht]; rfl) ?_
      refine yields_process.2 ⟨t, _, .binary, rfl, ht, ?_⟩
      exact yields_binary.2 ⟨left, operator, right, rfl, hoperator, hright, rfl⟩
  | @call left opening ts closing rest next args nodes hopening _ hclosing _ hargs htail =>
      refine GoesOn.of_yields (by rw [hopening]; rfl) ?_
      refine yields_process.2
        ⟨opening, (ts ++ closing :: rest) ++ next, .openParen, rfl, hopening, yields_call.2 ?_⟩
      rw [List.append_assoc, List.cons_append]
      exact ⟨args, closing.span, _, hargs _ _ [] closing _ _ rfl hclosing, htail⟩
  | @property left dot name rest next nodes hdot hname _ htail =>
      refine GoesOn.of_yields (by rw [hdot]; rfl) ?_
      refine yields_process.2 ⟨dot, _, .readProperty, rfl, hdot, ?_⟩
      exact yields_readProperty.2 ⟨left, name, _, rfl, rfl, hname, htail⟩

end ScopedScript.Build

namespace ScopedScript

open Grammar

theorem build_eq (tokens : List Token) :
    build tokens = (Build.program (endOfTokens tokens) [] tokens).map
      (.root ⟨0, endOfTokens tokens⟩) := by
  rfl

/-- The tree of a derivation is what building gives. -/
theorem build_of_isTreeOf {tokens : List Token} {tree : Node} (h : IsTreeOf tree tokens) :
    build tokens = .ok tree := by
  obtain ⟨body, hbody, rfl⟩ := h
  rw [build_eq, (Build.complete _ hbody).2 rfl []]
  rfl

theorem isTreeOf_of_build {tokens : List Token} {tree : Node} (h : build tokens = .ok tree) :
    IsTreeOf tree tokens := by
  rw [build_eq] at h
  cases hprogram : Build.program (endOfTokens tokens) [] tokens with
  | error error =>
      rw [hprogram] at h
      cases h
  | ok body =>
      rw [hprogram] at h
      cases h
      obtain ⟨more, hbody, hmore⟩ := Build.program_derives hprogram
      rw [List.reverse_nil, List.nil_append] at hbody
      subst hbody
      exact ⟨body, hmore, rfl⟩

/-- Building accepts the tokens that are derived from the grammar, and no
others, and gives the tree of the derivation, of which there is one. -/
theorem build_eq_ok_iff_isTreeOf (tokens : List Token) (tree : Node) :
    (build tokens = .ok tree ↔ IsTreeOf tree tokens)
      ∧ (∀ other, IsTreeOf tree tokens → IsTreeOf other tokens → other = tree) := by
  refine ⟨⟨isTreeOf_of_build, build_of_isTreeOf⟩, fun other htree hother => ?_⟩
  have hsame := (build_of_isTreeOf hother).symm.trans (build_of_isTreeOf htree)
  cases hsame
  rfl

end ScopedScript
