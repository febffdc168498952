/-
Reading the text of a node again.

The span of a node says where in the source its text is. That the span is
exact means: the text that it covers, taken as a program, is the node and
nothing else, but for the place. `Phrases` has shown this for tokens; here
it is carried over to texts.

# From tokens to texts

Tokens that stand side by side are made by lexemes that stand side by side,
with blanks around them that belong to no token. Without these blanks the
lexemes begin where the first token begins, and end where the last one ends
(`trim_start`, `trim_end`), and they are the lexemes of the text between the
two places (`Lexeme.splitFrom_middle`). So the text is scanned to the same
tokens, moved to the left (`scan_slice`).
-/
import ScopedScript.Proofs.Phrases
import ScopedScript.Proofs.Tiling

namespace ScopedScript

open Grammar

-- =============================================================== lexemes

namespace Scan

/-- A header that becomes a token starts where the token does. -/
theorem Makes.start_of_header {h : Header} {ls : List Lexeme} {t : Token} {ts : List Token}
    (hmakes : Makes (some h) ls (t :: ts)) : t.span.start = h.start := by
  induction ls generalizing h with
  | nil => cases hmakes
  | cons l ls ih =>
      cases hmakes with
      | inside hl hmakes => rw [ih hmakes, hl.start_eq]
      | closing hl hmakes => rfl

/-- Without the blanks before them, the lexemes begin where the first token
does. -/
theorem Makes.trim_start {ls : List Lexeme} {t : Token} {ts : List Token}
    (h : Makes none ls (t :: ts)) :
    ∃ before l rest, ls = before ++ l :: rest ∧ Makes none (l :: rest) (t :: ts)
      ∧ l.span.start = t.span.start := by
  induction ls with
  | nil => cases h
  | cons l ls ih =>
      cases h with
      | blank hl hmakes =>
          obtain ⟨before, l', rest, rfl, hrest, hstart⟩ := ih hmakes
          exact ⟨l :: before, l', rest, rfl, hrest, hstart⟩
      | token hl hmakes => exact ⟨[], l, ls, rfl, .token hl hmakes, rfl⟩
      | opening hl hmakes =>
          exact ⟨[], l, ls, rfl, .opening hl hmakes, hmakes.start_of_header.symm⟩

/-- Without the blanks after them, the lexemes end where the last token
does. -/
theorem Makes.trim_end {header : Option Header} {ls : List Lexeme} {ts : List Token}
    (h : Makes header ls ts) (hts : ts ≠ []) :
    ∃ core l after, ls = core ++ l :: after ∧ Makes header (core ++ [l]) ts
      ∧ l.span.stop = endOfTokens ts := by
  induction h with
  | nil => exact absurd rfl hts
  | @blank l ls ts hl _ ih =>
      obtain ⟨core, l', after, rfl, hcore, hstop⟩ := ih hts
      exact ⟨l :: core, l', after, rfl, .blank hl hcore, hstop⟩
  | @token l ls kind ts hl _ ih =>
      by_cases hlast : ts = []
      · subst hlast
        exact ⟨[], l, ls, rfl, .token hl .nil, rfl⟩
      · obtain ⟨core, l', after, rfl, hcore, hstop⟩ := ih hlast
        rw [endOfTokens_cons hlast]
        exact ⟨l :: core, l', after, rfl, .token hl hcore, hstop⟩
  | @opening l ls ts hl _ ih =>
      obtain ⟨core, l', after, rfl, hcore, hstop⟩ := ih hts
      exact ⟨l :: core, l', after, rfl, .opening hl hcore, hstop⟩
  | @inside h l h' ls ts hl _ ih =>
      obtain ⟨core, l', after, rfl, hcore, hstop⟩ := ih hts
      exact ⟨l :: core, l', after, rfl, .inside hl hcore, hstop⟩
  | @closing h l ls ts hl _ ih =>
      by_cases hlast : ts = []
      · subst hlast
        exact ⟨[], l, ls, rfl, .closing hl .nil, rfl⟩
      · obtain ⟨core, l', after, rfl, hcore, hstop⟩ := ih hlast
        rw [endOfTokens_cons hlast]
        exact ⟨l :: core, l', after, rfl, .closing hl hcore, hstop⟩

/-- Tokens that stand side by side are made by lexemes that do, and that have
the extent of the tokens. -/
theorem Makes.middle {ls : List Lexeme} {first us last : List Token}
    (h : Makes none ls (first ++ (us ++ last))) (hus : us ≠ []) :
    ∃ before l rest core l' after, ls = before ++ ((core ++ [l']) ++ after)
      ∧ core ++ [l'] = l :: rest ∧ Makes none (core ++ [l']) us
      ∧ extent us = ⟨l.span.start, l'.span.stop⟩ := by
  obtain ⟨t, us, rfl⟩ := List.exists_cons_of_ne_nil hus
  obtain ⟨before, more, rfl, -, hmore⟩ := h.parts (.inl rfl)
  obtain ⟨middle, after, rfl, hmiddle, -⟩ := hmore.parts (.inl rfl)
  obtain ⟨before', l, rest, rfl, hrest, hstart⟩ := hmiddle.trim_start
  obtain ⟨core, l', after', hcore, hmakes, hstop⟩ := hrest.trim_end hus
  have hfirst : ∃ rest', core ++ [l'] = l :: rest' := by
    cases core with
    | nil => exact ⟨[], by rw [(List.cons.inj hcore).1]; rfl⟩
    | cons c core => exact ⟨core ++ [l'], by rw [(List.cons.inj hcore).1]; rfl⟩
  obtain ⟨rest', hrest'⟩ := hfirst
  refine ⟨before ++ before', l, rest', core, l', after' ++ after, ?_, hrest', hmakes, ?_⟩
  · rw [hcore]
    simp
  · rw [hstart, hstop]
    rfl

/-- Lexemes that have been moved to the right make tokens that have been. -/
theorem scan_of_shifted {k : Nat} {cs : List Char} {us : List Token}
    (h : Makes none ((Lexeme.split cs).map (·.shift k)) us) :
    ∃ us', scan (String.ofList cs) = .ok us' ∧ us'.map (·.shift k) = us := by
  have hshift := foldlM_step_shift k [] (Lexeme.split cs) {}
  have hinit : ({} : State).after k [] = ⟨[], none⟩ := rfl
  rw [hinit, foldlM_of_makes h] at hshift
  unfold scan
  rw [String.toList_ofList]
  cases hfold : (Lexeme.split cs).foldlM step {} with
  | error e =>
      rw [hfold] at hshift
      cases hshift
  | ok s =>
      rw [hfold] at hshift
      obtain ⟨tokens, header⟩ := s
      cases header with
      | some header =>
          have hheader : none = some (header.shift k) :=
            congrArg State.header (Except.ok.inj hshift)
          cases hheader
      | none =>
          refine ⟨tokens.reverse, rfl, ?_⟩
          have htokens : us.reverse ++ [] = tokens.map (·.shift k) ++ [] :=
            congrArg State.tokens (Except.ok.inj hshift)
          rw [List.append_nil, List.append_nil] at htokens
          rw [List.map_reverse, ← htokens, List.reverse_reverse]

end Scan

-- ================================================================= tokens

/-- The text from the first to the last of some tokens is scanned to these
tokens. -/
theorem scan_slice {source : String} {first us last : List Token}
    (h : scan source = .ok (first ++ (us ++ last))) (hus : us ≠ []) :
    ∃ slice us', Text.slice? source (extent us) = some slice ∧ scan slice = .ok us'
      ∧ us'.map (·.shift (extent us).start) = us := by
  obtain ⟨before, l, rest, core, l', after, hsplit, hcore, hmakes, hextent⟩ :=
    (scan_eq_ok_iff.1 h).middle hus
  have hmiddle := Lexeme.splitFrom_middle hsplit
  have hsource := Lexeme.charsOf_splitFrom hsplit
  rw [Nat.zero_add] at hmiddle
  generalize hk : Text.byteLength (Lexeme.charsOf before) = k at hmiddle
  have hstart : l.span.start = k := by
    obtain ⟨_, hstands, -⟩ := Lexeme.stands_of_splitFrom (hmiddle.trans hcore)
    rw [hstands.span]
  have hstop : l'.span.stop = k + Text.byteLength (Lexeme.charsOf (core ++ [l'])) := by
    obtain ⟨_, hstands, -⟩ := Lexeme.stands_of_splitFrom (Lexeme.splitFrom_parts hmiddle).2
    rw [hstands.span, Lexeme.charsOf_append, Text.byteLength_append]
    simp [Nat.add_assoc]
  rw [hstart, hstop] at hextent
  -- the lexemes in the middle are those of the slice, moved to the right
  have hshift := Lexeme.splitFrom_shift k [] 0 (Lexeme.charsOf (core ++ [l']))
  rw [List.map_nil, Nat.zero_add, hmiddle] at hshift
  rw [hshift] at hmakes
  obtain ⟨us', hscan, hus'⟩ := Scan.scan_of_shifted hmakes
  refine ⟨String.ofList (Lexeme.charsOf (core ++ [l'])), us', ?_, hscan, ?_⟩
  · have happend : source.toList = Lexeme.charsOf before
        ++ (Lexeme.charsOf (core ++ [l']) ++ Lexeme.charsOf after) := by
      rw [← hsource]
      simp
    refine Text.slice?_of_append happend ?_
    rw [hextent, hk]
  · rw [hextent]
    exact hus'

/-- Tokens that make a program make the same program further to the left. -/
theorem build_of_shifted {k : Nat} {ts : List Token} (hts : ts ≠ []) {nodes : List Node} {stop : Nat}
    (h : build (ts.map (·.shift k)) = .ok (.root ⟨0, stop⟩ nodes)) :
    ∃ nodes', build ts = .ok (.root ⟨0, stop - k⟩ nodes') ∧ nodes'.map (·.shift k) = nodes := by
  have hend : endOfTokens (ts.map (·.shift k)) = endOfTokens ts + k := by
    rw [← List.dropLast_concat_getLast hts, List.map_append, List.map_singleton,
      endOfTokens_concat, endOfTokens_concat]
    rfl
  have hshift := Build.program_shift k (endOfTokens ts) [] ts
  rw [List.map_nil] at hshift
  rw [build_eq, hend, hshift] at h
  rw [build_eq]
  cases hprogram : Build.program (endOfTokens ts) [] ts with
  | error e =>
      rw [hprogram] at h
      cases h
  | ok nodes' =>
      rw [hprogram] at h
      cases h
      refine ⟨nodes', ?_, rfl⟩
      rw [Nat.add_sub_cancel]
      rfl

/-- The tokens of a text are in order. -/
theorem inOrder_of_scan {source : String} {tokens : List Token} (h : scan source = .ok tokens) :
    InOrder tokens := by
  have htiles := tiles_of_scan h
  refine htiles.pairwise.imp_of_mem fun {t u} ht hu hbefore => ?_
  have hfirst := htiles.nonempty t ht
  have hsecond := htiles.nonempty u hu
  omega

/-- A node of a program is read from tokens of the program. -/
theorem holds_of_parse {source : String} {tree : Node} (h : parse source = .ok tree) {path : Path}
    {node : Node} (hnode : tree.at? path = some node) (hroot : node.kind ≠ .root) :
    ∃ tokens, scan source = .ok tokens ∧ Holds tokens node := by
  obtain ⟨tokens, hscan, hbuild⟩ := parse_eq_ok_iff.1 h
  obtain ⟨body, hbody, rfl⟩ := isTreeOf_of_build hbuild
  refine ⟨tokens, hscan, ?_⟩
  cases path with
  | nil =>
      cases hnode
      exact absurd rfl hroot
  | cons i path => exact hbody.holds_of_at? hnode

/-- Spans are exact. The span of a node points into the source, and the text
that it covers is a program: the node alone, with all of its spans moved to
the left by what stands before it. -/
theorem rereading_a_span_gives_the_node {source : String} {tree : Node}
    (h : parse source = .ok tree) {path : Path} {node : Node}
    (hnode : tree.at? path = some node) (hroot : node.kind ≠ .root) :
    node.span.PointsInto source
      ∧ ∃ slice node', Text.slice? source node.span = some slice
        ∧ parse slice = .ok (.root ⟨0, node.span.length⟩ [node'])
        ∧ node'.shift node.span.start = node := by
  obtain ⟨tokens, hscan, us, ⟨first, last, rfl⟩, hderives⟩ := holds_of_parse h hnode hroot
  rw [List.append_assoc] at hscan
  have horder : InOrder us := (inOrder_of_scan hscan).right.left
  have hspan : node.span = extent us := hderives.spansExtent rfl horder
  obtain ⟨slice, us', hslice, hscan', hus'⟩ := scan_slice hscan hderives.tokens_ne_nil
  have hbody : Derives .body us [] [node] := by
    have hnone : Separators [] := nofun
    have hderives' : Derives .statement us ([] ++ []) [node] := hderives
    simpa using Derives.nextStatement hnone hderives' (.noStatement hnone)
  have hbuild := build_of_isTreeOf ⟨[node], hbody, rfl⟩
  rw [← hus'] at hbuild
  have hne : us' ≠ [] := by
    rintro rfl
    exact hderives.tokens_ne_nil hus'.symm
  obtain ⟨nodes, hnodes, hmoved⟩ := build_of_shifted hne hbuild
  rw [hus'] at hnodes
  obtain ⟨node', rfl, hnode'⟩ := List.map_eq_singleton_iff.1 hmoved
  rw [hspan]
  exact ⟨Span.pointsInto_of_slice? hslice, slice, node', hslice,
    parse_eq_ok_iff.2 ⟨us', hscan', hnodes⟩, hnode'⟩

/-- A left operand inside of a function, after a character of two bytes. -/
theorem rereading_a_span_gives_the_node_callee :
    let source := "var s = 'é'\nfunction f(a) \x7b return g( a ).b \x7d"
    ∃ tree node, parse source = .ok tree ∧ tree.at? [2, 0, 0, 0, 0] = some node
      ∧ node.kind = .call ∧ node.span = ⟨36, 42⟩ ∧ node.span.PointsInto source
      ∧ ∃ slice node', Text.slice? source node.span = some slice
        ∧ parse slice = .ok (.root ⟨0, node.span.length⟩ [node'])
        ∧ node'.shift node.span.start = node := by
  intro source
  have hfound : (((parse source).toOption.bind (·.at? [2, 0, 0, 0, 0])).map
      fun node => (node.kind, node.span)) = some (.call, ⟨36, 42⟩) := by decide +kernel
  obtain ⟨node, hnode, hlook⟩ := Option.map_eq_some_iff.1 hfound
  obtain ⟨tree, htree, hnode⟩ := Option.bind_eq_some_iff.1 hnode
  obtain ⟨hkind, hspan⟩ := Prod.mk.inj hlook
  cases hparse : parse source with
  | error e =>
      rw [hparse] at htree
      cases htree
  | ok tree' =>
      rw [hparse] at htree
      cases htree
      refine ⟨tree, node, rfl, hnode, hkind, hspan, ?_⟩
      exact rereading_a_span_gives_the_node hparse hnode (by rw [hkind]; decide)

end ScopedScript
