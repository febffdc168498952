/-
Every diagnostic points into the source.

An error may come from any stage of a run. A lexical error is at a lexeme,
a syntax error at tokens or at what has been built of them, and an error of
the running program at a node or a parameter of its tree; so all of these
errors are at some text of the source that is not empty (`Span.Marks`). The
others are reported because there is no more text. Their span is empty, and
nothing but blanks comes after it (`Span.AtEnd`).

# Nothing before it is wrong

A lexical error is the first one there is. The lexemes before it are cut the
same way without the text from the error on, and so the scanner is in the
same state behind them (`scan_first_lexemes`). At the end of the text that
state may be inside of a header, and that is all that it may be blamed for.
-/
import Mathlib.Data.List.Basic
import ScopedScript.Proofs.Tiling
import ScopedScript.Proofs.Pointing

namespace ScopedScript

-- =================================================================== spans

namespace Span

/-- The span covers some text of the source. -/
structure Marks (source : String) (span : Span) : Prop where
  points : span.PointsInto source
  nonempty : span.start < span.stop

/-- The span is empty, and only blanks come after it. -/
def AtEnd (source : String) (span : Span) : Prop :=
  ∃ before after, source = before ++ after ∧ span = .point before.utf8ByteSize
    ∧ ∀ c ∈ after.toList, Lexeme.isBlank c = true

variable {source : String} {a b span : Span}

theorem Marks.union (ha : a.Marks source) (hb : b.Marks source) : (a.union b).Marks source := by
  have horder := ha.nonempty
  refine ⟨⟨?_, ?_, ?_, ?_⟩, ?_⟩
  · show min a.start b.start ≤ max a.stop b.stop
    omega
  · exact Nat.max_le.2 ⟨ha.points.inside, hb.points.inside⟩
  · show String.Pos.Raw.IsValid source ⟨min a.start b.start⟩
    rcases Nat.le_total a.start b.start with hle | hle
    · rw [Nat.min_eq_left hle]
      exact ha.points.starts
    · rw [Nat.min_eq_right hle]
      exact hb.points.starts
  · show String.Pos.Raw.IsValid source ⟨max a.stop b.stop⟩
    rcases Nat.le_total a.stop b.stop with hle | hle
    · rw [Nat.max_eq_right hle]
      exact hb.points.stops
    · rw [Nat.max_eq_left hle]
      exact ha.points.stops
  · show min a.start b.start < max a.stop b.stop
    omega

/-- A span that some division of the source fits. -/
theorem marks_of_append {before written after : List Char}
    (h : source.toList = before ++ (written ++ after)) (hwritten : written ≠ [])
    (hspan : span = ⟨Text.byteLength before, Text.byteLength before + Text.byteLength written⟩) :
    span.Marks source := by
  refine ⟨pointsInto_of_slice? (Text.slice?_of_append h hspan), ?_⟩
  have hpos := Text.byteLength_pos hwritten
  rw [hspan]
  show Text.byteLength before < Text.byteLength before + Text.byteLength written
  omega

theorem AtEnd.cut (h : span.AtEnd source) :
    ∃ c, Text.cut? source span = some c ∧ ∀ ch ∈ c.after.toList, Lexeme.isBlank ch = true := by
  obtain ⟨before, after, rfl, rfl, hafter⟩ := h
  refine ⟨⟨before, "", after⟩, Text.cut?_eq_some_iff.2 ⟨?_, rfl, ?_⟩, hafter⟩
  · rw [String.append_empty]
  · rw [String.append_empty]
    rfl

theorem AtEnd.pointsInto (h : span.AtEnd source) : span.PointsInto source := by
  obtain ⟨c, hcut, -⟩ := h.cut
  exact pointsInto_iff_cut?.2 ⟨c, hcut⟩

/-- What a span that covers some text cuts out is some text. -/
theorem Marks.marked_ne_empty (h : span.Marks source) {c : Text.Cut}
    (hcut : Text.cut? source span = some c) : c.marked ≠ "" := by
  intro hempty
  obtain ⟨-, hstart, hstop⟩ := Text.cut?_eq_some_iff.1 hcut
  have hnonempty := h.nonempty
  rw [hempty, String.append_empty] at hstop
  omega

end Span

-- ================================================================ scanning

namespace Scan

theorem span_of_stepOutside {tokens : List Token} {l : Lexeme} {e : Error}
    (h : stepOutside tokens l = .error e) : e.span = l.span := by
  obtain ⟨kind, first, tail, span⟩ := l
  cases kind <;> cases h <;> rfl

theorem span_of_stepHeader {tokens : List Token} {header : Header} {l : Lexeme} {e : Error}
    (h : stepHeader tokens header l = .error e) : e.span = l.span := by
  unfold stepHeader at h
  split at h <;> cases h <;> rfl

/-- A fault is reported at the lexeme that has it. -/
theorem span_of_step {s : State} {l : Lexeme} {e : Error} (h : step s l = .error e) :
    e.span = l.span := by
  obtain ⟨tokens, header⟩ := s
  cases header with
  | none => exact span_of_stepOutside h
  | some header => exact span_of_stepHeader h

theorem finish_cases (size : Nat) (s : State) :
    (∃ tokens, finish size s = .ok tokens)
      ∨ finish size s = .error ⟨.lexical .unterminatedHeader, .point size, []⟩ := by
  obtain ⟨tokens, header⟩ := s
  cases header with
  | none => exact .inl ⟨_, rfl⟩
  | some header => exact .inr rfl

/-- The attributes of tokens are at lexemes. -/
theorem Makes.attributes {P : Span → Prop} {header : Option Header} {ls : List Lexeme}
    {ts : List Token} (h : Makes header ls ts) (hls : ∀ l ∈ ls, P l.span)
    (hheader : ∀ h ∈ header, ∀ a ∈ h.attributes, P a.span) :
    ∀ t ∈ ts, ∀ a ∈ t.attributes, P a.span := by
  induction h with
  | nil => exact nofun
  | blank _ _ ih => exact ih (List.forall_mem_cons.1 hls).2 nofun
  | token _ _ ih =>
      exact List.forall_mem_cons.2 ⟨nofun, ih (List.forall_mem_cons.1 hls).2 nofun⟩
  | opening _ _ ih =>
      refine ih (List.forall_mem_cons.1 hls).2 ?_
      rintro h ⟨⟩
      exact nofun
  | @inside h l h' ls ts hpasses _ ih =>
      obtain ⟨hl, hls⟩ := List.forall_mem_cons.1 hls
      have hh := hheader h rfl
      refine ih hls ?_
      rintro _ ⟨⟩
      cases hpasses with
      | space | opening | comma => exact hh
      | name | parameter => exact List.forall_mem_cons.2 ⟨hl, hh⟩
  | @closing h l ls ts _ _ ih =>
      refine List.forall_mem_cons.2 ⟨?_, ih (List.forall_mem_cons.1 hls).2 nofun⟩
      exact fun a ha => hheader h rfl a (List.mem_reverse.1 ha)

end Scan

/-- A lexeme of a text is some of the text. -/
theorem marks_of_lexeme {source : String} {before after : List Lexeme} {l : Lexeme}
    (h : Lexeme.split source.toList = before ++ l :: after) : l.span.Marks source := by
  have hchars := Lexeme.charsOf_splitFrom h
  have hspan := (Lexeme.stands_of_mem_splitFrom h).span
  rw [Nat.zero_add] at hspan
  rw [Lexeme.charsOf_append, Lexeme.charsOf_cons] at hchars
  exact Span.marks_of_append hchars.symm (List.cons_ne_nil _ _) hspan

theorem span_of_scan_error {source : String} {e : Error} (h : scan source = .error e) :
    e.span.Marks source ∨ e.span.AtEnd source := by
  rcases scan_error_cases h with ⟨before, l, after, state, hsplit, -, hstep⟩ | rfl
  · rw [Scan.span_of_step hstep]
    exact .inl (marks_of_lexeme hsplit)
  · exact .inr ⟨source, "", String.append_empty.symm, rfl, nofun⟩

/-- The first lexemes of a text, by themselves, are scanned as they are in
the text; what is left to see is whether they end inside of a header. -/
theorem scan_first_lexemes {source : String} {before after : List Lexeme} {state : Scan.State}
    (hsplit : Lexeme.split source.toList = before ++ after)
    (hbefore : before.foldlM Scan.step {} = .ok state) :
    scan (String.ofList (Lexeme.charsOf before))
      = Scan.finish (Text.byteLength (Lexeme.charsOf before)) state := by
  have hfirst : Lexeme.split (Lexeme.charsOf before) = before := (Lexeme.splitFrom_parts hsplit).1
  rw [scan, String.toList_ofList, Text.utf8ByteSize_ofList, hfirst, hbefore]
  rfl

/-- The lexical error that is reported is the first one: the text before it
can be scanned, or it ends inside of a header and nothing else is wrong with
it. -/
theorem reported_fault_is_the_first {source : String} {e : Error} (h : scan source = .error e) :
    ∃ front back, source = front ++ back ∧ front.utf8ByteSize = e.span.start
      ∧ ((∃ tokens, scan front = .ok tokens)
        ∨ ∃ e', scan front = .error e' ∧ e'.chain = ["unterminated function declaration"]
          ∧ e'.span = .point e.span.start) := by
  rcases scan_error_cases h with ⟨before, l, after, state, hsplit, hbefore, hstep⟩ | rfl
  · have hsource := Lexeme.charsOf_splitFrom hsplit
    have hstart := congrArg Span.start (Lexeme.stands_of_mem_splitFrom hsplit).span
    rw [Nat.zero_add] at hstart
    have hscan := scan_first_lexemes hsplit hbefore
    refine ⟨String.ofList (Lexeme.charsOf before), String.ofList (Lexeme.charsOf (l :: after)),
      ?_, ?_, ?_⟩
    · rw [← String.ofList_append, ← Lexeme.charsOf_append, hsource, String.ofList_toList]
    · rw [Text.utf8ByteSize_ofList, Scan.span_of_step hstep, hstart]
    · rw [hscan, Scan.span_of_step hstep, hstart]
      rcases Scan.finish_cases (Text.byteLength (Lexeme.charsOf before)) state with hok | herror
      · exact .inl hok
      · exact .inr ⟨_, herror, rfl, rfl⟩
  · -- reported at the end, so that the text before it is all of the text
    exact ⟨source, "", String.append_empty.symm, rfl, .inr ⟨_, h, rfl, rfl⟩⟩

/-- A number among parameters, behind a string of more bytes than characters.
The text before it has an open header. -/
theorem reported_fault_is_the_first_in_header :
    let source := "'é' function f(a 2)"
    let e : Error := ⟨.lexical (.commaOrCloseExpected "2"), ⟨18, 19⟩, []⟩
    scan source = .error e
      ∧ ∃ front back, source = front ++ back ∧ front.utf8ByteSize = 18
        ∧ ((∃ tokens, scan front = .ok tokens)
          ∨ ∃ e', scan front = .error e' ∧ e'.chain = ["unterminated function declaration"]
            ∧ e'.span = .point 18) := by
  intro source e
  have hfails : scan source = .error e := by decide +kernel
  exact ⟨hfails, reported_fault_is_the_first hfails⟩

theorem marked_of_scan {source : String} {tokens : List Token} (h : scan source = .ok tokens) :
    ∀ t ∈ tokens, t.Marked (Span.Marks source) := by
  intro t ht
  refine ⟨?_, ?_⟩
  · obtain ⟨before, written, after, hsource, hwritten, hspan, -⟩ :=
      (tiles_of_scan h).written_of_mem ht
    rw [Nat.zero_add] at hspan
    exact Span.marks_of_append hsource hwritten hspan
  · refine (scan_eq_ok_iff.1 h).attributes (fun l hl => ?_) nofun t ht
    obtain ⟨before, after, hsplit⟩ := List.append_of_mem hl
    exact marks_of_lexeme hsplit

theorem Tiles.all_blank {offset : Nat} {cs : List Char} {ts : List Token}
    (h : Tiles offset cs ts) (hts : ts = []) : ∀ c ∈ cs, Lexeme.isBlank c = true := by
  induction h with
  | nil => exact nofun
  | blank hc _ ih => exact List.forall_mem_cons.2 ⟨hc, ih hts⟩
  | token => cases hts

/-- After the last token there are only blanks. -/
theorem Tiles.after_last {offset : Nat} {cs : List Char} {ts : List Token}
    (h : Tiles offset cs ts) (hts : ts ≠ []) :
    ∃ before after, cs = before ++ after ∧ endOfTokens ts = offset + Text.byteLength before
      ∧ ∀ c ∈ after, Lexeme.isBlank c = true := by
  induction h with
  | nil => exact absurd rfl hts
  | @blank offset c cs ts hc _ ih =>
      obtain ⟨before, after, rfl, hend, hafter⟩ := ih hts
      refine ⟨c :: before, after, rfl, ?_, hafter⟩
      rw [hend, Text.byteLength_cons, Lexeme.utf8Size_of_isBlank hc]
      omega
  | @token offset written cs t ts hspan _ _ hrest ih =>
      by_cases hlast : ts = []
      · subst hlast
        refine ⟨written, cs, rfl, ?_, hrest.all_blank rfl⟩
        show t.span.stop = _
        rw [hspan]
      · obtain ⟨before, after, rfl, hend, hafter⟩ := ih hlast
        refine ⟨written ++ before, after, by simp, ?_, hafter⟩
        rw [Grammar.endOfTokens_cons hlast, hend, Text.byteLength_append]
        omega

theorem atEnd_of_scan {source : String} {tokens : List Token} (h : scan source = .ok tokens)
    (htokens : tokens ≠ []) : (Span.point (endOfTokens tokens)).AtEnd source := by
  obtain ⟨before, after, hsource, hend, hafter⟩ := (tiles_of_scan h).after_last htokens
  refine ⟨String.ofList before, String.ofList after, ?_, ?_, by simpa using hafter⟩
  · rw [← String.toList_inj, hsource]
    simp
  · rw [hend, Text.utf8ByteSize_ofList, Nat.zero_add]

-- ==================================================== building and running

theorem build_nil : build [] = .ok (.root ⟨0, 0⟩ []) := by
  rw [build_eq, Build.program_of_nil rfl]
  rfl

theorem span_of_build_error {source : String} {tokens : List Token} {e : Error}
    (hscan : scan source = .ok tokens) (h : build tokens = .error e) :
    e.span.Marks source ∨ e.span.AtEnd source := by
  have hmarked := build_marked (fun a b => Span.Marks.union) (marked_of_scan hscan)
  rw [h] at hmarked
  rcases hmarked with hspan | hspan
  · exact .inl hspan
  · rw [hspan]
    refine .inr (atEnd_of_scan hscan ?_)
    rintro rfl
    rw [build_nil] at h
    cases h

/-- The tree of a program with something in it, with all of its spans. -/
theorem marked_of_build {source : String} {tokens : List Token} {root : Node}
    (hscan : scan source = .ok tokens) (h : build tokens = .ok root) (htokens : tokens ≠ []) :
    root.All (Node.Marked (Span.Marks source)) := by
  have htoken := marked_of_scan hscan
  have hmarked := build_marked (fun a b => Span.Marks.union) htoken
  rw [h] at hmarked
  obtain ⟨body, -, rfl⟩ := isTreeOf_of_build h
  have hend := (atEnd_of_scan hscan htokens).pointsInto
  have hlast := htoken _ (List.getLast_mem htokens)
  have hstop : endOfTokens tokens = (tokens.getLast htokens).span.stop := by
    rw [← Grammar.endOfTokens_concat tokens.dropLast, List.dropLast_concat_getLast]
  have hstart : String.Pos.Raw.IsValid source ⟨0⟩ :=
    Span.isValid_iff.2 ⟨"", source, String.empty_append.symm, rfl⟩
  refine .mk ⟨⟨⟨Nat.zero_le _, hend.inside, hstart, hend.stops⟩, ?_⟩, nofun⟩ hmarked
  show 0 < endOfTokens tokens
  have hnonempty := hlast.1.nonempty
  omega

theorem span_of_evaluate_error {source : String} {root : Node} {e : Error}
    (hparse : parse source = .ok root) (h : (evaluate root).1 = .error e) :
    e.span.Marks source := by
  obtain ⟨tokens, hscan, hbuild⟩ := parse_eq_ok_iff.1 hparse
  have htokens : tokens ≠ [] := by
    rintro rfl
    rw [build_nil] at hbuild
    cases hbuild
    cases h
  have hmarked := marked_of_build hscan hbuild htokens
  obtain ⟨path, node, hnode, hspan⟩ := site_of_evaluate h
  obtain ⟨hself, hparameters⟩ := hmarked.of_at? hnode
  rcases hspan with hspan | ⟨p, hp, hspan⟩
  · rw [hspan]
    exact hself
  · rw [hspan]
    exact hparameters p hp

/-- The span of the error that ends a run. -/
theorem span_of_run {source : String} {options : Options} {e : Error}
    (h : (run source options).error = some e) : e.span.Marks source ∨ e.span.AtEnd source := by
  cases hscan : scan source with
  | error fault =>
      rw [(run_of_scan_error hscan options).2] at h
      cases h
      rw [Error.span_within]
      exact span_of_scan_error hscan
  | ok tokens =>
      cases hbuild : build tokens with
      | error fault =>
          rw [(run_of_build_error hscan hbuild options).2] at h
          cases h
          rw [Error.span_within]
          exact span_of_build_error hscan hbuild
      | ok root =>
          have hparse := parse_eq_ok_iff.2 ⟨tokens, hscan, hbuild⟩
          rw [(run_of_parse hparse options).2] at h
          cases hresult : (evaluate root).1 with
          | ok _ =>
              rw [hresult] at h
              cases h
          | error fault =>
              rw [hresult] at h
              cases h
              rw [Error.span_within]
              exact .inl (span_of_evaluate_error hparse hresult)

/-- Every diagnostic points into the source. The span of the error that ends
a run lies in the source, between characters, so that the source can be cut
there. It is empty, or what is shown of it is, only where nothing but blanks
comes after it. -/
theorem diagnostics_point_into_the_source {source : String} {options : Options} {e : Error}
    (h : (run source options).error = some e) :
    e.span.PointsInto source
      ∧ ∃ c, Text.cut? source (e.span.clamp source.utf8ByteSize) = some c
        ∧ Diagnostic.cutSource source e.span = c
        ∧ (e.span.isEmpty = true ∨ c.marked.isEmpty = true →
          ∀ ch ∈ c.after.toList, Lexeme.isBlank ch = true) := by
  have hspan := span_of_run h
  have hpoints : e.span.PointsInto source := hspan.elim (·.points) (·.pointsInto)
  have hclamp : e.span.clamp source.utf8ByteSize = e.span :=
    Span.clamp_eq_self hpoints.ordered hpoints.inside
  obtain ⟨c, hcut⟩ := Span.pointsInto_iff_cut?.1 hpoints
  rw [Diagnostic.cutSource, hclamp, hcut]
  refine ⟨hpoints, c, rfl, rfl, fun hempty => ?_⟩
  rcases hspan with hmarks | hend
  · have hnonempty := hmarks.nonempty
    have hmarked := hmarks.marked_ne_empty hcut
    rcases hempty with hempty | hempty
    · have hlength : e.span.stop - e.span.start = 0 := beq_iff_eq.1 hempty
      omega
    · exact absurd (String.isEmpty_iff.1 hempty) hmarked
  · obtain ⟨c', hcut', hafter⟩ := hend.cut
    rw [hcut] at hcut'
    cases hcut'
    exact hafter

/-- The right operand is missing, and a tab is all that comes after the
operator. The string before it takes more bytes than characters. -/
theorem diagnostics_point_into_the_source_missing_operand :
    ∃ e, (run "'é' + \t" {}).error = some e ∧ e.span = ⟨6, 6⟩ ∧ e.span.PointsInto "'é' + \t"
      ∧ ∀ ch ∈ (Diagnostic.cutSource "'é' + \t" e.span).after.toList, Lexeme.isBlank ch = true := by
  let missing : Error := Error.within ⟨.syntactic .unexpectedEnd, ⟨6, 6⟩, []⟩ (.rightOperand .add)
  have hfails : (run "'é' + \t" {}).error = some (missing.within .building) := by decide +kernel
  obtain ⟨hpoints, c, -, hshown, hempty⟩ := diagnostics_point_into_the_source hfails
  refine ⟨_, hfails, rfl, hpoints, ?_⟩
  rw [hshown]
  exact hempty (.inl rfl)

end ScopedScript
