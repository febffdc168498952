/-
Spans that point into a text.

Offsets count bytes, and a text can only be cut between two of its
characters. A span points into a text if both of its ends are such places,
in order. Spans of this kind are exactly those at which `Text.cut?` cuts
(`pointsInto_iff_cut?`), and the cut is the only way to divide the text
there (`cut?_eq_some_iff`), so to know where a span points it is enough to
find some division of the text that fits.
-/
import ScopedScript.Proofs.Scanning

namespace ScopedScript

-- =================================================================== bytes

namespace Text

theorem byteLength_cons (c : Char) (cs : List Char) :
    byteLength (c :: cs) = c.utf8Size + byteLength cs := by
  rw [byteLength, List.foldl_cons, foldl_utf8Size]
  omega

theorem byteLength_pos {cs : List Char} (h : cs ≠ []) : 0 < byteLength cs := by
  cases cs with
  | nil => exact absurd rfl h
  | cons c cs =>
      have hc := c.utf8Size_pos
      rw [byteLength_cons]
      omega

theorem utf8ByteSize_ofList (cs : List Char) :
    (String.ofList cs).utf8ByteSize = byteLength cs := by
  rw [← byteLength_toList, String.toList_ofList]

-- ================================================================= cutting

/-- Characters worth the offset go to the front, and the others stay. -/
theorem splitFrom_append (front cs rest : List Char) :
    splitFrom front (byteLength cs) (cs ++ rest) = some (front.reverse ++ cs, rest) := by
  induction cs generalizing front with
  | nil => simp [byteLength, splitFrom]
  | cons c cs ih =>
      have hc := c.utf8Size_pos
      obtain ⟨n, hn⟩ : ∃ n, byteLength (c :: cs) = n + 1 :=
        Nat.exists_eq_succ_of_ne_zero (Nat.ne_of_gt (byteLength_pos (List.cons_ne_nil c cs)))
      have hle : c.utf8Size ≤ n + 1 := by
        rw [← hn, byteLength_cons]
        omega
      have hrest : n + 1 - c.utf8Size = byteLength cs := by
        rw [← hn, byteLength_cons]
        omega
      rw [hn, List.cons_append, splitFrom, if_pos hle, hrest, ih]
      simp

theorem append_of_splitFrom {front cs before after : List Char} {offset : Nat}
    (h : splitFrom front offset cs = some (before, after)) :
    ∃ moved, before = front.reverse ++ moved ∧ cs = moved ++ after
      ∧ byteLength moved = offset := by
  fun_induction splitFrom front offset cs with
  | case1 front cs =>
      cases h
      exact ⟨[], by simp, rfl, rfl⟩
  | case2 => cases h
  | case3 front offset c cs hle ih =>
      obtain ⟨moved, rfl, rfl, hmoved⟩ := ih h
      refine ⟨c :: moved, by simp, rfl, ?_⟩
      rw [byteLength_cons, hmoved]
      omega
  | case4 => cases h

/-- A text is cut at an offset where characters worth the offset end. -/
theorem splitAt?_eq_some_iff {offset : Nat} {cs before after : List Char} :
    splitAt? offset cs = some (before, after) ↔ cs = before ++ after ∧ byteLength before = offset := by
  constructor
  · intro h
    obtain ⟨moved, rfl, hcs, hmoved⟩ := append_of_splitFrom h
    exact ⟨hcs, hmoved⟩
  · rintro ⟨rfl, rfl⟩
    exact splitFrom_append [] before after

/-- A text is cut at both ends of a span in the only way in which it can be
divided there. -/
theorem cut?_eq_some_iff {text : String} {span : Span} {c : Cut} :
    cut? text span = some c
      ↔ text = c.before ++ c.marked ++ c.after ∧ c.before.utf8ByteSize = span.start
        ∧ (c.before ++ c.marked).utf8ByteSize = span.stop := by
  obtain ⟨before, marked, after⟩ := c
  simp only [cut?, Option.bind_eq_bind, Option.bind_eq_some_iff, Prod.exists, Option.pure_def,
    Option.some.injEq, Cut.mk.injEq]
  constructor
  · rintro ⟨front, rest, hstop, first, second, hstart, rfl, rfl, rfl⟩
    obtain ⟨htext, hfront⟩ := splitAt?_eq_some_iff.1 hstop
    obtain ⟨rfl, hfirst⟩ := splitAt?_eq_some_iff.1 hstart
    refine ⟨?_, ?_, ?_⟩
    · rw [← String.ofList_append, ← String.ofList_append, ← htext, String.ofList_toList]
    · rw [utf8ByteSize_ofList, hfirst]
    · rw [← String.ofList_append, utf8ByteSize_ofList, hfront]
  · rintro ⟨htext, hstart, hstop⟩
    refine ⟨before.toList ++ marked.toList, after.toList, ?_, before.toList, marked.toList, ?_,
      String.ofList_toList, String.ofList_toList, String.ofList_toList⟩
    · rw [splitAt?_eq_some_iff, htext, String.toList_append, String.toList_append,
        ← String.toList_append, byteLength_toList]
      exact ⟨rfl, hstop⟩
    · rw [splitAt?_eq_some_iff, byteLength_toList]
      exact ⟨rfl, hstart⟩

/-- The part of a text that a span covers. -/
def slice? (text : String) (span : Span) : Option String := (cut? text span).map (·.marked)

theorem slice?_eq_some_iff {text marked : String} {span : Span} :
    slice? text span = some marked
      ↔ ∃ before after, text = before ++ marked ++ after ∧ before.utf8ByteSize = span.start
        ∧ (before ++ marked).utf8ByteSize = span.stop := by
  unfold slice?
  rw [Option.map_eq_some_iff]
  constructor
  · rintro ⟨⟨before, _, after⟩, hcut, rfl⟩
    exact ⟨before, after, cut?_eq_some_iff.1 hcut⟩
  · rintro ⟨before, after, h⟩
    exact ⟨⟨before, marked, after⟩, cut?_eq_some_iff.2 h, rfl⟩

end Text

-- ================================================================ pointing

namespace Span

/-- Both ends of the span lie in the text, between two characters and in
order. -/
structure PointsInto (span : Span) (text : String) : Prop where
  ordered : span.start ≤ span.stop
  inside : span.stop ≤ text.utf8ByteSize
  starts : String.Pos.Raw.IsValid text ⟨span.start⟩
  stops : String.Pos.Raw.IsValid text ⟨span.stop⟩

theorem isValid_iff {text : String} {offset : Nat} :
    String.Pos.Raw.IsValid text ⟨offset⟩
      ↔ ∃ before after, text = before ++ after ∧ before.utf8ByteSize = offset := by
  rw [String.Pos.Raw.isValid_iff_exists_append]
  refine exists_congr fun before => exists_congr fun after => and_congr_right fun _ => ?_
  rw [String.Pos.Raw.ext_iff, String.byteIdx_rawEndPos, eq_comm]

/-- A text can be cut at the spans that point into it, and at no others. -/
theorem pointsInto_iff_cut? {span : Span} {text : String} :
    span.PointsInto text ↔ ∃ c, Text.cut? text span = some c := by
  constructor
  · intro h
    obtain ⟨before, rest, htext, hbefore⟩ := isValid_iff.1 h.starts
    obtain ⟨front, after, htext', hfront⟩ := isValid_iff.1 h.stops
    -- the text before the start is a part of the text before the stop
    have happend : before.toList ++ rest.toList = front.toList ++ after.toList := by
      rw [← String.toList_append, ← String.toList_append, ← htext, ← htext']
    rcases List.append_eq_append_iff.1 happend with ⟨marked, hfront', hrest⟩ | ⟨more, hmore, -⟩
    · refine ⟨⟨before, String.ofList marked, after⟩, Text.cut?_eq_some_iff.2 ⟨?_, hbefore, ?_⟩⟩
      · rw [htext', ← String.toList_inj]
        simp [hfront']
      · rw [← hfront, ← Text.byteLength_toList, ← Text.byteLength_toList, hfront']
        simp
    · have hbytes := Text.byteLength_append front.toList more
      rw [← hmore, Text.byteLength_toList, Text.byteLength_toList] at hbytes
      have hordered := h.ordered
      have hnone : more = [] := by
        cases more with
        | nil => rfl
        | cons c cs =>
            have := Text.byteLength_pos (List.cons_ne_nil c cs)
            omega
      subst hnone
      rw [List.append_nil, String.toList_inj] at hmore
      refine ⟨⟨before, "", after⟩, Text.cut?_eq_some_iff.2 ⟨?_, hbefore, ?_⟩⟩
      · rw [htext', hmore, String.append_empty]
      · rw [String.append_empty, hmore, hfront]
  · rintro ⟨⟨before, marked, after⟩, hcut⟩
    obtain ⟨rfl, hstart, hstop⟩ := Text.cut?_eq_some_iff.1 hcut
    refine ⟨?_, ?_, ?_, ?_⟩
    · rw [← hstart, ← hstop, String.utf8ByteSize_append]
      omega
    · simp only [← hstop, String.utf8ByteSize_append]
      omega
    · exact isValid_iff.2 ⟨before, marked ++ after, String.append_assoc, hstart⟩
    · exact isValid_iff.2 ⟨before ++ marked, after, rfl, hstop⟩

theorem pointsInto_of_slice? {span : Span} {text marked : String}
    (h : Text.slice? text span = some marked) : span.PointsInto text := by
  obtain ⟨c, hcut, -⟩ := Option.map_eq_some_iff.1 h
  exact pointsInto_iff_cut?.2 ⟨c, hcut⟩

end Span

end ScopedScript
