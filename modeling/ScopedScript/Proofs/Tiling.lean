/-
Nothing of a text gets lost.

The tokens of a text lie side by side in it, in order, and between them
there are blanks and nothing else. `Tiles` says this of a piece of text
that starts at an offset: going through it from left to right one comes
across blanks, and across tokens that are written there.

A header takes many lexemes and is a token only at its end. Until then it
has a start and the text so far; what is left to tile is that text and the
rest together (`tiles_of_makes`).
-/
import ScopedScript.Proofs.Tokenizing

namespace ScopedScript

-- ================================================================== tilings

/-- How a token is written: as its text, which for a quoted text stands
between two equal quotes. -/
def Token.Spells (t : Token) (written : String) : Prop :=
  match t.kind with
  | .string => ∃ quote, (quote = '"' ∨ quote = '\'')
      ∧ written = String.singleton quote ++ t.text ++ String.singleton quote
  | _ => written = t.text

/-- The tokens lie side by side in a text that starts at an offset, and the
rest of it is blank. -/
inductive Tiles : Nat → List Char → List Token → Prop
  | nil {offset} : Tiles offset [] []
  | blank {offset c cs ts} (hc : Lexeme.isBlank c = true) (hrest : Tiles (offset + 1) cs ts) :
      Tiles offset (c :: cs) ts
  | token {offset written cs t ts} (hspan : t.span = ⟨offset, offset + Text.byteLength written⟩)
      (hwritten : written ≠ []) (hspells : t.Spells (String.ofList written))
      (hrest : Tiles (offset + Text.byteLength written) cs ts) :
      Tiles offset (written ++ cs) (t :: ts)

namespace Lexeme

variable {l : Lexeme} {offset : Nat} {rest : List Char}

theorem isBlank_of_ofSymbol {c : Char} (h : Kind.ofSymbol c = .blank) : isBlank c = true := by
  have hmem : [c] ∈ (Kind.ofSymbol c).pattern := mem_pattern_ofSymbol (by simp [h])
  rw [h] at hmem
  exact (cons_mem_many.1 hmem).1

theorem utf8Size_of_isBlank {c : Char} (h : isBlank c = true) : c.utf8Size = 1 := by
  simp only [isBlank, Bool.or_eq_true, beq_iff_eq] at h
  rcases h with ((rfl | rfl) | rfl) | rfl <;> decide

/-- A lexeme of the kind of blanks is a blank. -/
theorem Stands.of_blank (h : l.Stands offset rest) (hkind : l.kind = .blank) :
    ∃ c, isBlank c = true ∧ l.chars = [c] := by
  obtain ⟨kind, c, tail, span⟩ := l
  have hcuts : Cuts c kind tail rest := h.cuts
  cases hkind
  obtain ⟨hc, -⟩ := cons_mem_many.1 (hcuts.mem_pattern nofun nofun)
  obtain ⟨-, rfl, -⟩ := hcuts.unique (Cuts.blank hc) rfl
  exact ⟨c, hc, rfl⟩

/-- A quoted text is written between two equal quotes. -/
theorem Stands.of_quoted (h : l.Stands offset rest) (hkind : l.kind = .quoted) :
    ∃ quote, (quote = '"' ∨ quote = '\'')
      ∧ l.chars = quote :: ((Scan.unquoted l).toList ++ [quote]) := by
  obtain ⟨kind, c, tail, span⟩ := l
  have hcuts : Cuts c kind tail rest := h.cuts
  cases hkind
  rcases hcuts.mem_pattern nofun nofun with hmem | hmem
  · obtain ⟨rfl, content, -, rfl⟩ := cons_mem_between.1 hmem
    exact ⟨_, .inl rfl, by simp [Scan.unquoted, chars]⟩
  · obtain ⟨rfl, content, -, rfl⟩ := cons_mem_between.1 hmem
    exact ⟨_, .inr rfl, by simp [Scan.unquoted, chars]⟩

end Lexeme

namespace Scan

open Lexeme

/-- The token that a lexeme makes by itself is written as the lexeme. -/
theorem spells_single {l : Lexeme} {offset : Nat} {rest : List Char} (h : l.Stands offset rest)
    {kind : Token.Kind} (hkind : l.kind.token? = some kind) :
    (single l kind).Spells (String.ofList l.chars) := by
  unfold Token.Spells single
  by_cases hquoted : l.kind = .quoted
  · obtain ⟨quote, hquote, hchars⟩ := h.of_quoted hquoted
    rw [hquoted] at hkind
    cases hkind
    refine ⟨quote, hquote, ?_⟩
    rw [if_pos hquoted, hchars, ← String.toList_inj]
    simp
  · have hstring : kind ≠ .string := by
      rintro rfl
      cases hl : l.kind <;> rw [hl] at hkind hquoted
      case quoted => exact hquoted rfl
      all_goals cases hkind
    rw [if_neg hquoted]
    split
    · next hs => exact absurd hs hstring
    · rfl

/-- The tokens that lexemes make tile the text of the lexemes. In a header
that text begins where the header does. -/
theorem tiles_of_makes {header : Option Header} {ls : List Lexeme} {ts : List Token}
    (h : Makes header ls ts) {offset : Nat} {cs : List Char}
    (hsplit : splitFrom [] offset cs = ls) :
    match header with
    | none => Tiles offset cs ts
    | some h => h.start + Text.byteLength h.text.toList = offset → h.text.toList ≠ [] →
        Tiles h.start (h.text.toList ++ cs) ts := by
  induction h generalizing offset cs with
  | nil =>
      have hchars := charsOf_splitFrom hsplit
      subst hchars
      exact .nil
  | blank hl _ ih =>
      obtain ⟨rest, hstands, rfl, hrest⟩ := stands_of_splitFrom hsplit
      obtain ⟨c, hc, hchars⟩ := hstands.of_blank hl
      have hone : Text.byteLength [c] = 1 := by
        rw [Text.byteLength_cons, utf8Size_of_isBlank hc]
        rfl
      rw [hchars, hone] at hrest
      rw [hchars]
      exact .blank hc (ih hrest)
  | @token l ls kind ts hl _ ih =>
      obtain ⟨rest, hstands, rfl, hrest⟩ := stands_of_splitFrom hsplit
      exact .token hstands.span (List.cons_ne_nil _ _) (spells_single hstands hl) (ih hrest)
  | @opening l ls ts hl _ ih =>
      obtain ⟨rest, hstands, rfl, hrest⟩ := stands_of_splitFrom hsplit
      have hstart : l.span.start = offset := by rw [hstands.span]
      have htext : (opened l).text.toList = l.chars := String.toList_ofList
      have htiles := ih hrest
      dsimp only at htiles
      rw [htext] at htiles
      rw [← hstart] at htiles ⊢
      exact htiles rfl (List.cons_ne_nil _ _)
  | @inside header l header' ls ts hl _ ih =>
      intro hstart hne
      obtain ⟨rest, hstands, rfl, hrest⟩ := stands_of_splitFrom hsplit
      have htext : header'.text.toList = header.text.toList ++ l.chars := by
        rw [hl.text_eq, String.toList_append]
        exact congrArg (_ ++ ·) String.toList_ofList
      have htiles := ih hrest
      dsimp only at htiles
      rw [htext, hl.start_eq, List.append_assoc] at htiles
      refine htiles ?_ (by simp [hne])
      rw [Text.byteLength_append]
      omega
  | @closing header l ls ts hl _ ih =>
      intro hstart hne
      obtain ⟨rest, hstands, rfl, hrest⟩ := stands_of_splitFrom hsplit
      have hbytes := Text.byteLength_append header.text.toList l.chars
      have hstop : offset + Text.byteLength l.chars
          = header.start + Text.byteLength (header.text.toList ++ l.chars) := by omega
      rw [← List.append_assoc]
      refine .token ?_ (by simp [hne]) ?_ ?_
      · show Span.mk header.start l.span.stop = _
        rw [hstands.span, hstop]
      · show String.ofList (header.text.toList ++ l.chars) = header.text ++ l.text
        rw [String.ofList_append, String.ofList_toList]
        rfl
      · rw [← hstop]
        exact ih hrest

end Scan

/-- The tokens of a text tile it. -/
theorem tiles_of_scan {source : String} {tokens : List Token} (h : scan source = .ok tokens) :
    Tiles 0 source.toList tokens :=
  Scan.tiles_of_makes (scan_eq_ok_iff.1 h) rfl

-- ============================================================== what follows

namespace Tiles

variable {offset : Nat} {cs : List Char} {ts : List Token}

/-- A token is written where its span says. -/
theorem written_of_mem (h : Tiles offset cs ts) {t : Token} (ht : t ∈ ts) :
    ∃ before written after, cs = before ++ (written ++ after) ∧ written ≠ []
      ∧ t.span = ⟨offset + Text.byteLength before,
          offset + Text.byteLength before + Text.byteLength written⟩
      ∧ t.Spells (String.ofList written) := by
  induction h with
  | nil => cases ht
  | @blank offset c cs ts hc _ ih =>
      obtain ⟨before, written, after, rfl, hwritten, hspan, hspells⟩ := ih ht
      have hone := Lexeme.utf8Size_of_isBlank hc
      refine ⟨c :: before, written, after, rfl, hwritten, ?_, hspells⟩
      rw [hspan, Text.byteLength_cons, hone, Nat.add_assoc offset]
  | @token offset written cs t' ts hspan hwritten hspells _ ih =>
      rcases List.mem_cons.1 ht with rfl | ht
      · refine ⟨[], written, cs, rfl, hwritten, ?_, hspells⟩
        simpa [Text.byteLength] using hspan
      · obtain ⟨before, written', after, rfl, hwritten', hspan', hspells'⟩ := ih ht
        refine ⟨written ++ before, written', after, by simp, hwritten', ?_, hspells'⟩
        rw [hspan', Text.byteLength_append, Nat.add_assoc offset]

theorem offset_le (h : Tiles offset cs ts) : ∀ t ∈ ts, offset ≤ t.span.start := by
  intro t ht
  obtain ⟨before, written, after, -, -, hspan, -⟩ := h.written_of_mem ht
  rw [hspan]
  exact Nat.le_add_right ..

theorem nonempty (h : Tiles offset cs ts) : ∀ t ∈ ts, t.span.start < t.span.stop := by
  intro t ht
  obtain ⟨before, written, after, -, hwritten, hspan, -⟩ := h.written_of_mem ht
  have hpos := Text.byteLength_pos hwritten
  rw [hspan]
  show offset + _ < offset + _ + _
  omega

/-- A token ends before the next one starts. -/
theorem pairwise (h : Tiles offset cs ts) :
    ts.Pairwise fun t u => t.span.stop ≤ u.span.start := by
  induction h with
  | nil => exact .nil
  | blank _ _ ih => exact ih
  | token hspan _ _ hrest ih =>
      refine List.pairwise_cons.2 ⟨fun u hu => ?_, ih⟩
      rw [hspan]
      exact hrest.offset_le u hu

/-- A byte that no token covers is a blank. -/
theorem blank_of_uncovered (h : Tiles offset cs ts) {i : Nat} (hle : offset ≤ i)
    (hlt : i < offset + Text.byteLength cs)
    (huncovered : ∀ t ∈ ts, ¬(t.span.start ≤ i ∧ i < t.span.stop)) :
    ∃ before c after, cs = before ++ c :: after ∧ offset + Text.byteLength before = i
      ∧ Lexeme.isBlank c = true := by
  induction h with
  | nil =>
      simp only [Text.byteLength, List.foldl_nil] at hlt
      omega
  | @blank offset c cs ts hc _ ih =>
      have hone := Lexeme.utf8Size_of_isBlank hc
      by_cases hhere : offset = i
      · exact ⟨[], c, cs, rfl, by simpa [Text.byteLength] using hhere, hc⟩
      · rw [Text.byteLength_cons, hone] at hlt
        obtain ⟨before, c', after, rfl, hi, hc'⟩ := ih (by omega) (by omega) huncovered
        refine ⟨c :: before, c', after, rfl, ?_, hc'⟩
        rw [Text.byteLength_cons, hone]
        omega
  | @token offset written cs t ts hspan _ _ _ ih =>
      obtain ⟨hfirst, hrest⟩ := List.forall_mem_cons.1 huncovered
      rw [hspan] at hfirst
      have hpast : offset + Text.byteLength written ≤ i := by
        by_cases hin : i < offset + Text.byteLength written
        · exact absurd ⟨hle, hin⟩ hfirst
        · omega
      rw [Text.byteLength_append] at hlt
      obtain ⟨before, c, after, rfl, hi, hc⟩ := ih hpast (by omega) hrest
      refine ⟨written ++ before, c, after, by simp, ?_, hc⟩
      rw [Text.byteLength_append]
      omega

end Tiles

/-- The bytes of blanks: space, tab, carriage return and form feed. -/
def blankBytes : List UInt8 := [0x20, 0x09, 0x0d, 0x0c]

theorem byte_of_blank {source : String} {before after : List Char} {c : Char}
    (h : source.toList = before ++ c :: after) (hc : Lexeme.isBlank c = true) {i : Nat}
    (hbefore : Text.byteLength before = i) (hi : i < source.utf8ByteSize) :
    source.toByteArray[i] ∈ blankBytes := by
  have hsource : source = String.ofList before ++ (String.singleton c ++ String.ofList after) := by
    rw [← String.toList_inj]
    simp [h]
  have hsize : (String.ofList before).toByteArray.size = i := by
    rw [← hbefore, ← Text.utf8ByteSize_ofList]
    rfl
  have hblank : c = ' ' ∨ c = '\t' ∨ c = '\r' ∨ c = '\x0c' := by
    simpa [Lexeme.isBlank, or_assoc] using hc
  subst hsource
  simp only [String.toByteArray_append]
  rw [ByteArray.getElem_append_right (by omega)]
  simp only [hsize, Nat.sub_self]
  rcases hblank with rfl | rfl | rfl | rfl <;>
    rw [ByteArray.getElem_append_left (by decide)] <;> decide

/-- The slice of a text at a span that some division of it fits. -/
theorem Text.slice?_of_append {source : String} {before written after : List Char} {span : Span}
    (h : source.toList = before ++ (written ++ after))
    (hspan : span = ⟨byteLength before, byteLength before + byteLength written⟩) :
    slice? source span = some (String.ofList written) := by
  subst hspan
  refine slice?_eq_some_iff.2 ⟨String.ofList before, String.ofList after, ?_, ?_, ?_⟩
  · rw [← String.toList_inj, h]
    simp
  · rw [utf8ByteSize_ofList]
  · rw [← String.ofList_append, utf8ByteSize_ofList, byteLength_append]

/-- Scanning is lossless. The tokens of a text lie in it one after the
other, each is written there as its span says, and every byte that belongs
to none of them is a blank. -/
theorem scanning_is_lossless {source : String} {tokens : List Token}
    (h : scan source = .ok tokens) :
    (∀ t ∈ tokens, t.span.start < t.span.stop ∧ t.span.PointsInto source
        ∧ ∃ written, Text.slice? source t.span = some written ∧ t.Spells written)
      ∧ tokens.Pairwise
          (fun t u => t.span.start < u.span.start ∧ t.span.stop ≤ u.span.start)
      ∧ ∀ i (_ : i < source.utf8ByteSize),
          (∀ t ∈ tokens, ¬(t.span.start ≤ i ∧ i < t.span.stop)) →
            source.toByteArray[i] ∈ blankBytes := by
  have htiles := tiles_of_scan h
  refine ⟨fun t ht => ?_, ?_, fun i hi huncovered => ?_⟩
  · obtain ⟨before, written, after, hsource, -, hspan, hspells⟩ := htiles.written_of_mem ht
    rw [Nat.zero_add] at hspan
    have hslice := Text.slice?_of_append hsource hspan
    exact ⟨htiles.nonempty t ht, Span.pointsInto_of_slice? hslice, _, hslice, hspells⟩
  · refine htiles.pairwise.imp_of_mem fun {t u} ht _ hbefore => ⟨?_, hbefore⟩
    exact Nat.lt_of_lt_of_le (htiles.nonempty t ht) hbefore
  · have hlt : i < 0 + Text.byteLength source.toList := by
      rw [Text.byteLength_toList, Nat.zero_add]
      exact hi
    obtain ⟨before, c, after, hsource, hbefore, hc⟩ :=
      htiles.blank_of_uncovered (Nat.zero_le i) hlt huncovered
    exact byte_of_blank hsource hc (by omega) hi

/-- A header over two lines, and a quoted text in two bytes. -/
theorem scanning_is_lossless_header :
    let source := "function f(\n a)\t'é'"
    let tokens : List Token :=
      [⟨.functionDeclaration, "function f(\n a)", ⟨0, 15⟩,
        [⟨.name, "f", ⟨9, 10⟩⟩, ⟨.parameter, "a", ⟨13, 14⟩⟩]⟩,
        ⟨.string, "é", ⟨16, 20⟩, []⟩]
    scan source = .ok tokens
      ∧ (∀ t ∈ tokens, t.span.start < t.span.stop ∧ t.span.PointsInto source
        ∧ ∃ written, Text.slice? source t.span = some written ∧ t.Spells written)
      ∧ tokens.Pairwise
          (fun t u => t.span.start < u.span.start ∧ t.span.stop ≤ u.span.start)
      ∧ ∀ i (_ : i < source.utf8ByteSize),
          (∀ t ∈ tokens, ¬(t.span.start ≤ i ∧ i < t.span.stop)) →
            source.toByteArray[i] ∈ blankBytes := by
  intro source tokens
  have h : scan source = .ok tokens := by
    have hoption : (scan source).toOption = some tokens := by decide +kernel
    cases hscan : scan source with
    | error e =>
        rw [hscan] at hoption
        cases hoption
    | ok ts =>
        rw [hscan] at hoption
        cases hoption
        rfl
  exact ⟨h, scanning_is_lossless h⟩

end ScopedScript
