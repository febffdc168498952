/-
Diagnostics show the whole source.

A buffer merges neighbouring pieces of one style and drops empty ones, so
its segments say little about the pieces that were written. What writing
keeps is the list of characters, each with its style (`Buffer.styled`):
every write adds the characters of its piece at the end (`styled_write`),
and the text and the error text are read off that list. A diagnostic is then
known from its pieces, and the source from the cut around the span.
-/
import ScopedScript.Proofs.Slices
import ScopedScript.Diagnostic

namespace ScopedScript

-- ============================================================ styled text

/-- The characters of a piece, each with its style. -/
def Segment.styled (s : Segment) : List (Char × Bool) := s.text.toList.map (·, s.isError)

@[simp] theorem Segment.map_fst_styled (s : Segment) : s.styled.map Prod.fst = s.text.toList := by
  simp [styled, Function.comp_def]

@[simp] theorem Segment.text_plain (text : String) : (Segment.plain text).text = text := rfl

@[simp] theorem Segment.text_error (text : String) : (Segment.error text).text = text := rfl

/-- Of a piece the errors are all characters or none. -/
theorem Segment.filter_styled (s : Segment) :
    s.styled.filter Prod.snd = if s.isError then s.styled else [] := by
  cases hs : s.isError <;> simp [styled, hs]

@[simp] theorem Segment.filter_styled_plain (text : String) :
    (Segment.plain text).styled.filter Prod.snd = [] := filter_styled (.plain text)

@[simp] theorem Segment.filter_styled_error (text : String) :
    (Segment.error text).styled.filter Prod.snd = (Segment.error text).styled :=
  filter_styled (.error text)

/-- Pieces of errors one after the other are one long piece. -/
theorem Segment.flatMap_styled_error (texts : List String) :
    (texts.map Segment.error).flatMap styled = (Segment.error (String.join texts)).styled := by
  simp [styled, error, List.flatMap_map, List.map_flatMap]

namespace Buffer

/-- The characters of the buffer, each with its style. -/
def styled (b : Buffer) : List (Char × Bool) := b.segments.flatMap Segment.styled

theorem styled_nil : styled {} = [] := rfl

/-- Writing adds the characters of the piece at the end. -/
theorem styled_write (b : Buffer) (piece : Segment) :
    (b.write piece).styled = b.styled ++ piece.styled := by
  obtain ⟨segments⟩ := b
  by_cases hpiece : piece.text.isEmpty = true
  · have hnone : piece.styled = [] := by
      rw [Segment.styled, String.isEmpty_iff.1 hpiece]
      rfl
    simp [write, hpiece, hnone]
  · cases segments with
    | nil => simp [write, hpiece, styled, Buffer.segments]
    | cons last rest =>
        by_cases hstyle : last.isError = piece.isError
        · simp [write, hpiece, styled, Buffer.segments, Segment.styled, hstyle]
        · simp [write, hpiece, styled, Buffer.segments, hstyle]

theorem styled_writeAll (b : Buffer) (pieces : List Segment) :
    (b.writeAll pieces).styled = b.styled ++ pieces.flatMap Segment.styled := by
  induction pieces generalizing b with
  | nil => simp [writeAll]
  | cons piece pieces ih =>
      have hstep := ih (b.write piece)
      rw [styled_write] at hstep
      simpa [writeAll] using hstep

theorem styled_ofPieces (pieces : List Segment) :
    (ofPieces pieces).styled = pieces.flatMap Segment.styled := by
  rw [ofPieces, styled_writeAll, styled_nil, List.nil_append]

theorem toList_text (b : Buffer) : b.text.toList = b.styled.map Prod.fst := by
  simp [text, styled, List.flatMap_map, List.map_flatMap]

/-- The errors among the characters of several pieces are the characters of
the error pieces. -/
theorem flatMap_filter_styled (pieces : List Segment) :
    (pieces.flatMap fun s => (s.styled.filter Prod.snd).map Prod.fst)
      = (pieces.filter Segment.isError).flatMap fun s => s.text.toList := by
  induction pieces with
  | nil => rfl
  | cons s rest ih =>
      rw [List.flatMap_cons, ih, Segment.filter_styled]
      by_cases hs : s.isError = true
      · simp [hs]
      · simp [hs]

theorem toList_errorText (b : Buffer) :
    b.errorText.toList = (b.styled.filter Prod.snd).map Prod.fst := by
  rw [errorText, styled, String.toList_join, List.flatMap_map, List.filter_flatMap,
    List.map_flatMap]
  exact (flatMap_filter_styled b.segments).symm

end Buffer

-- ============================================================ diagnostics

namespace Diagnostic

/-- The parts around a span make up the source. -/
theorem append_cutSource (source : String) (span : Span) :
    source = (cutSource source span).before ++ (cutSource source span).marked
      ++ (cutSource source span).after := by
  cases hcut : Text.cut? source (span.clamp source.utf8ByteSize) with
  | none => simp [cutSource, hcut]
  | some c =>
      rw [cutSource, hcut]
      exact (Text.cut?_eq_some_iff.1 hcut).1

/-- A span that points into the source is where the source is cut. -/
theorem cut?_of_pointsInto {source : String} {span : Span} (h : span.PointsInto source) :
    Text.cut? source span = some (cutSource source span) := by
  obtain ⟨c, hcut⟩ := Span.pointsInto_iff_cut?.1 h
  rw [cutSource, Span.clamp_eq_self h.ordered h.inside, hcut]
  rfl

/-- The characters of a diagnostic, each with its style. -/
theorem styled_render (source : String) (e : Error) :
    (Buffer.ofPieces (render source e)).styled
      = (Segment.plain (cutSource source e.span).before).styled
        ++ (Segment.error (if (cutSource source e.span).marked = "" then endOfInput
            else (cutSource source e.span).marked)).styled
        ++ (Segment.plain "\n").styled
        ++ (Segment.error (String.join (e.chain.mapIdx (messageLine e.stage)))).styled
        ++ (Segment.plain (cutSource source e.span).after).styled := by
  have hlines : (e.chain.mapIdx fun depth m => Segment.error (messageLine e.stage depth m))
      = (e.chain.mapIdx (messageLine e.stage)).map Segment.error := by
    simp [List.mapIdx_eq_zipIdx_map, Function.comp_def]
  rw [Buffer.styled_ofPieces, render, hlines]
  simp [← Segment.flatMap_styled_error]

/-- A diagnostic shows the whole source. The source is divided in three, and
what is written is the first part, the second one as an error or a
placeholder if there is nothing to mark, a line break, one line as an error
for each message, each two spaces further in than the one before, and the
last part. This holds of every span; where the span is a range of the source,
the second part is what it covers. -/
theorem diagnostic_shows_the_whole_source (source : String) (e : Error) :
    ∃ before marked after mark lines, source = before ++ marked ++ after
      ∧ mark = (if marked = "" then "<end of input>" else marked)
      ∧ lines = String.join (e.chain.mapIdx fun depth message =>
          String.ofList (List.replicate (2 * depth) ' ')
            ++ e.stage.name ++ " error: " ++ message ++ "\n")
      ∧ (Buffer.ofPieces (render source e)).text = before ++ mark ++ "\n" ++ lines ++ after
      ∧ (Buffer.ofPieces (render source e)).errorText = mark ++ lines
      ∧ (Buffer.ofPieces (render source e)).styled
        = (Segment.plain before).styled ++ (Segment.error mark).styled
          ++ (Segment.plain "\n").styled ++ (Segment.error lines).styled
          ++ (Segment.plain after).styled
      ∧ (e.span.PointsInto source → e.span.start < e.span.stop →
        Text.cut? source e.span = some ⟨before, marked, after⟩ ∧ mark = marked) := by
  obtain ⟨mark, hmark⟩ : ∃ mark, mark = if (cutSource source e.span).marked = ""
      then endOfInput else (cutSource source e.span).marked := ⟨_, rfl⟩
  obtain ⟨lines, hlines⟩ :
      ∃ lines, lines = String.join (e.chain.mapIdx (messageLine e.stage)) := ⟨_, rfl⟩
  have hstyled := styled_render source e
  rw [← hmark, ← hlines] at hstyled
  refine ⟨_, _, _, mark, lines, append_cutSource source e.span, hmark, hlines, ?_, ?_, hstyled,
    fun hpoints hnonempty => ?_⟩
  · rw [← String.toList_inj, Buffer.toList_text, hstyled]
    simp
  · rw [← String.toList_inj, Buffer.toList_errorText, hstyled]
    simp
  · have hcut := cut?_of_pointsInto hpoints
    obtain ⟨-, hstart, hstop⟩ := Text.cut?_eq_some_iff.1 hcut
    refine ⟨hcut, hmark.trans (if_neg fun hempty => ?_)⟩
    rw [hempty, String.append_empty, hstart] at hstop
    omega

/-- The span covers one character of two bytes, and its error has a context
around it. -/
theorem diagnostic_shows_the_whole_source_undeclared :
    ∃ e : Error, e.span = ⟨6, 8⟩ ∧ e.span.PointsInto "print(ä)"
      ∧ (Buffer.ofPieces (render "print(ä)" e)).text
        = "print(ä\nruntime error: while executing the program\n"
          ++ "  runtime error: variable not declared: `ä`\n)" := by
  let e : Error := Error.within ⟨.runtime (.scope (.notDeclared "ä")), ⟨6, 8⟩, []⟩ .executing
  have hcut : Text.cut? "print(ä)" e.span = some ⟨"print(", "ä", ")"⟩ := rfl
  have hpoints : e.span.PointsInto "print(ä)" := Span.pointsInto_iff_cut?.2 ⟨_, hcut⟩
  refine ⟨e, rfl, hpoints, ?_⟩
  obtain ⟨before, marked, after, mark, lines, -, -, hlines, htext, -, -, hspan⟩ :=
    diagnostic_shows_the_whole_source "print(ä)" e
  obtain ⟨hcut', rfl⟩ := hspan hpoints (by decide)
  cases hcut.symm.trans hcut'
  rw [htext, hlines]
  decide +kernel

end Diagnostic

end ScopedScript
