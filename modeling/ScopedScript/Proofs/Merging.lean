/-
The segments of a buffer are a normal form.

Writing keeps the characters with their styles (`Buffer.styled_write`),
and so the texts that are read off them. It does not say by itself what the
segments are, since the same characters can be divided in many ways. Only
one of these divisions has no empty segment and no two neighbours of one
style, and the buffer is always divided like that (`Buffer.normal_write`).

# One division only

In a normal form the first segment is as long as its style lasts: behind
it there is nothing, or a character of the other style. Two normal forms of
the same characters therefore have the same first segment, and behind it
normal forms of the same characters again (`Segment.Normal.eq`).
-/
import Mathlib.Data.List.Chain
import ScopedScript.Proofs.Rendering

namespace ScopedScript

namespace Segment

-- ============================================================ normal forms

/-- No segment is empty, and neighbours have different styles. -/
structure Normal (segments : List Segment) : Prop where
  nonempty : ∀ s ∈ segments, s.text ≠ ""
  alternates : segments.IsChain fun s t => s.isError ≠ t.isError

theorem styled_ne_nil {s : Segment} (h : s.text ≠ "") : s.styled ≠ [] := by
  intro hnil
  rw [styled, List.map_eq_nil_iff, String.toList_eq_nil_iff] at hnil
  exact h hnil

theorem snd_of_mem_styled {s : Segment} {p : Char × Bool} (h : p ∈ s.styled) :
    p.2 = s.isError := by
  obtain ⟨c, -, rfl⟩ := List.mem_map.1 h
  rfl

theorem eq_of_styled {s t : Segment} (hstyle : s.isError = t.isError)
    (h : s.styled = t.styled) : s = t := by
  obtain ⟨text, isError⟩ := s
  obtain ⟨text', isError'⟩ := t
  cases hstyle
  have htext := congrArg (List.map Prod.fst) h
  rw [map_fst_styled, map_fst_styled, String.toList_inj] at htext
  cases htext
  rfl

/-- In what order the segments stand makes no difference. -/
theorem normal_reverse {segments : List Segment} :
    Normal segments.reverse ↔ Normal segments := by
  have hchain : segments.reverse.IsChain (fun s t => s.isError ≠ t.isError)
      ↔ segments.IsChain (fun s t => s.isError ≠ t.isError) := by
    rw [List.isChain_reverse]
    simp only [ne_comm]
  constructor
  · exact fun h => ⟨fun s hs => h.nonempty s (List.mem_reverse.2 hs), hchain.1 h.alternates⟩
  · exact fun h => ⟨fun s hs => h.nonempty s (List.mem_reverse.1 hs), hchain.2 h.alternates⟩

namespace Normal

variable {s t : Segment} {rest more : List Segment}

theorem nil : Normal [] := ⟨nofun, .nil⟩

theorem tail (h : Normal (s :: rest)) : Normal rest :=
  ⟨(List.forall_mem_cons.1 h.nonempty).2, h.alternates.tail⟩

theorem head_ne (h : Normal (s :: rest)) : s.text ≠ "" :=
  (List.forall_mem_cons.1 h.nonempty).1

/-- A segment in front, of the other style than what comes next. -/
theorem cons (hs : s.text ≠ "") (hnext : ∀ t ∈ rest.head?, s.isError ≠ t.isError)
    (h : Normal rest) : Normal (s :: rest) :=
  ⟨List.forall_mem_cons.2 ⟨hs, h.nonempty⟩, List.isChain_cons.2 ⟨hnext, h.alternates⟩⟩

theorem next_ne (h : Normal (s :: rest)) : ∀ t ∈ rest.head?, s.isError ≠ t.isError :=
  (List.isChain_cons.1 h.alternates).1

/-- Another text in the first segment. -/
theorem retext (h : Normal (s :: rest)) (ht : t.text ≠ "") (hstyle : t.isError = s.isError) :
    Normal (t :: rest) := by
  refine cons ht (fun u hu => ?_) h.tail
  rw [hstyle]
  exact h.next_ne u hu

/-- The characters begin in the style of the first segment. -/
theorem head_styled (h : Normal (s :: rest)) :
    ∃ c more, (s :: rest).flatMap styled = (c, s.isError) :: more := by
  obtain ⟨p, ps, hps⟩ := List.exists_cons_of_ne_nil (styled_ne_nil h.head_ne)
  have hp : p.2 = s.isError := snd_of_mem_styled (hps ▸ List.mem_cons_self)
  refine ⟨p.1, ps ++ rest.flatMap styled, ?_⟩
  rw [List.flatMap_cons, hps, ← hp]
  rfl

/-- Behind the first segment its style is over. -/
theorem style_over (h : Normal (s :: rest)) {p : Char × Bool} {ps : List (Char × Bool)}
    (hrest : rest.flatMap styled = p :: ps) : p.2 ≠ s.isError := by
  cases rest with
  | nil => cases hrest
  | cons t rest =>
      obtain ⟨c, more, hmore⟩ := h.tail.head_styled
      rw [hmore] at hrest
      cases hrest
      exact (h.next_ne t rfl).symm

/-- First segments of one style are equal if the characters are. -/
theorem head_eq (hs : Normal (s :: rest)) (ht : Normal (t :: more)) (hstyle : s.isError = t.isError)
    (h : s.styled ++ rest.flatMap styled = t.styled ++ more.flatMap styled) :
    s.styled = t.styled ∧ rest.flatMap styled = more.flatMap styled := by
  -- if one were longer, it would go on behind the other in a style that is over there
  rcases List.append_eq_append_iff.1 h with ⟨extra, hlong, hrest⟩ | ⟨extra, hlong, hrest⟩
  · cases extra with
    | nil => exact ⟨by rw [hlong, List.append_nil], hrest⟩
    | cons p extra =>
        have hp : p.2 = t.isError := snd_of_mem_styled (hlong ▸ by simp)
        exact absurd (hp.trans hstyle.symm) (hs.style_over hrest)
  · cases extra with
    | nil => exact ⟨by rw [hlong, List.append_nil], hrest.symm⟩
    | cons p extra =>
        have hp : p.2 = s.isError := snd_of_mem_styled (hlong ▸ by simp)
        exact absurd (hp.trans hstyle) (ht.style_over hrest)

/-- Two normal forms of the same characters are the same. -/
theorem eq {first second : List Segment} (hfirst : Normal first) (hsecond : Normal second)
    (h : first.flatMap styled = second.flatMap styled) : first = second := by
  induction first generalizing second with
  | nil =>
      cases second with
      | nil => rfl
      | cons t more =>
          obtain ⟨c, chars, hchars⟩ := hsecond.head_styled
          rw [hchars] at h
          cases h
  | cons s rest ih =>
      obtain ⟨c, chars, hchars⟩ := hfirst.head_styled
      cases second with
      | nil =>
          rw [hchars] at h
          cases h
      | cons t more =>
          obtain ⟨c', chars', hchars'⟩ := hsecond.head_styled
          have hstyle : s.isError = t.isError := by
            rw [hchars, hchars'] at h
            exact congrArg Prod.snd (List.cons.inj h).1
          obtain ⟨hsame, hbehind⟩ := hfirst.head_eq hsecond hstyle h
          rw [eq_of_styled hstyle hsame, ih hfirst.tail hsecond.tail hbehind]

end Normal

end Segment

-- ================================================================= writing

namespace Buffer

open Segment

/-- A write leaves a normal form. -/
theorem normal_write {b : Buffer} (h : Normal b.segments) (piece : Segment) :
    Normal (b.write piece).segments := by
  obtain ⟨reversed⟩ := b
  rw [segments, normal_reverse] at h ⊢
  by_cases hpiece : piece.text = ""
  · simpa [write, hpiece] using h
  · cases reversed with
    | nil =>
        have hfirst : Normal [piece] := .cons hpiece (fun t ht => by cases ht) .nil
        simpa [write, hpiece] using hfirst
    | cons last rest =>
        by_cases hstyle : last.isError = piece.isError
        · -- the last segment only gets longer
          have hlonger : Normal (⟨last.text ++ piece.text, last.isError⟩ :: rest) := by
            refine h.retext ?_ rfl
            simp [hpiece]
          simpa [write, hpiece, hstyle] using hlonger
        · have hnew : Normal (piece :: last :: rest) := by
            refine .cons hpiece ?_ h
            rintro t ⟨⟩
            exact Ne.symm hstyle
          simpa [write, hpiece, hstyle] using hnew

theorem normal_writeAll {b : Buffer} (h : Normal b.segments) (pieces : List Segment) :
    Normal (b.writeAll pieces).segments := by
  induction pieces generalizing b with
  | nil => exact h
  | cons piece pieces ih => exact ih (normal_write h piece)

theorem normal_ofPieces (pieces : List Segment) : Normal (ofPieces pieces).segments :=
  normal_writeAll (b := {}) .nil pieces

theorem text_ofPieces (pieces : List Segment) :
    (ofPieces pieces).text = String.join (pieces.map (·.text)) := by
  rw [← String.toList_inj, toList_text, styled_ofPieces]
  simp [List.flatMap_map, List.map_flatMap]

theorem errorText_ofPieces (pieces : List Segment) :
    (ofPieces pieces).errorText = String.join ((pieces.filter (·.isError)).map (·.text)) := by
  rw [← String.toList_inj, toList_errorText, styled_ofPieces, List.filter_flatMap,
    List.map_flatMap, flatMap_filter_styled]
  simp [List.flatMap_map]

/-- What has been written piece by piece is kept in a normal form: no segment
is empty and neighbours differ in style, the text is all that was written and
the error text all that was written as an error, and the segments are the
same for other pieces just if these come to the same characters with the same
styles. -/
theorem buffer_keeps_a_normal_form (pieces : List Segment) :
    Normal (ofPieces pieces).segments
      ∧ (ofPieces pieces).text = String.join (pieces.map (·.text))
      ∧ (ofPieces pieces).errorText
        = String.join ((pieces.filter (·.isError)).map (·.text))
      ∧ ∀ others, (ofPieces others).segments = (ofPieces pieces).segments
        ↔ others.flatMap Segment.styled = pieces.flatMap Segment.styled := by
  refine ⟨normal_ofPieces pieces, text_ofPieces pieces, errorText_ofPieces pieces,
    fun others => ⟨fun h => ?_, fun h => ?_⟩⟩
  · rw [← styled_ofPieces, ← styled_ofPieces, Buffer.styled, h, Buffer.styled]
  · rw [← styled_ofPieces, ← styled_ofPieces] at h
    exact (normal_ofPieces others).eq (normal_ofPieces pieces) h

/-- Neither an empty piece nor a cut in a text leaves a trace. -/
example : (ofPieces [.plain "a", .error "b", .error "", .error "c"]).segments
    = [.plain "a", .error "bc"] := by decide

end Buffer

end ScopedScript
