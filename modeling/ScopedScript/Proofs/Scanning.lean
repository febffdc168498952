/-
Scanning a text that goes on after a line break.

A line break ends every lexeme but a quoted text, and quoted texts that are
not closed are faults. So what comes before a line break is cut into
lexemes as if it were all there is, provided that it is in order, and what
comes after it as if it were a text of its own, only further to the right.

# Moving to the right

Spans count bytes from the start of the text, and apart from that scanning
does not know where it is: it commutes with `shift`, which moves all spans
of a lexeme, a token or an error.
-/
import ScopedScript.Token.Scan

namespace ScopedScript

-- =================================================================== bytes

namespace Text

theorem foldl_utf8Size (n : Nat) (cs : List Char) :
    cs.foldl (fun n c => n + c.utf8Size) n = n + byteLength cs := by
  unfold byteLength
  induction cs generalizing n with
  | nil => rfl
  | cons c cs ih =>
      rw [List.foldl_cons, List.foldl_cons, ih, ih (0 + c.utf8Size)]
      omega

theorem byteLength_append (cs ds : List Char) :
    byteLength (cs ++ ds) = byteLength cs + byteLength ds := by
  rw [byteLength, List.foldl_append, foldl_utf8Size]
  rfl

theorem byteLength_toList (s : String) : byteLength s.toList = s.utf8ByteSize := by
  induction s using String.push_induction with
  | empty => rfl
  | push b c ih =>
      rw [String.toList_push, byteLength_append, ih, String.utf8ByteSize_push]
      simp [byteLength]

end Text

-- ================================================================ shifting

/-- The lexeme, further to the right. -/
def Lexeme.shift (k : Nat) (l : Lexeme) : Lexeme := { l with span := l.span.shift k }

/-- The attribute, further to the right. -/
def Token.Attribute.shift (k : Nat) (a : Token.Attribute) : Token.Attribute :=
  { a with span := a.span.shift k }

/-- The token, further to the right. -/
def Token.shift (k : Nat) (t : Token) : Token :=
  { t with span := t.span.shift k, attributes := t.attributes.map (·.shift k) }

@[simp] theorem Token.kind_shift (k : Nat) (t : Token) : (t.shift k).kind = t.kind := rfl

@[simp] theorem Token.text_shift (k : Nat) (t : Token) : (t.shift k).text = t.text := rfl

@[simp] theorem Token.span_shift (k : Nat) (t : Token) :
    (t.shift k).span = t.span.shift k := rfl

/-- The layer, further to the right. -/
def Layer.shift (k : Nat) (layer : Layer) : Layer := { layer with span := layer.span.shift k }

/-- The error with all its layers, further to the right. -/
def Error.shift (k : Nat) (e : Error) : Error :=
  { e with place := e.place.shift k, wraps := e.wraps.map (·.shift k) }

@[simp] theorem Error.shift_raised (k : Nat) (fault : Fault) (span : Span) :
    Error.shift k ⟨fault, span, []⟩ = ⟨fault, span.shift k, []⟩ := rfl

/-- A layer copies a shifted span as it copies any other. -/
theorem Error.shift_within (k : Nat) (e : Error) (context : Context) :
    (e.within context).shift k = (e.shift k).within context := by
  obtain ⟨fault, place, wraps⟩ := e
  cases wraps <;> rfl

/-- A result, further to the right; `f` moves what was found. -/
def moved {α β : Type} (k : Nat) (f : α → β) : Except Error α → Except Error β
  | .ok a => .ok (f a)
  | .error e => .error (e.shift k)

-- ================================================================= lexemes

namespace Lexeme

/-- Blanks and line breaks. -/
def isSpace (c : Char) : Bool := isBlank c || c == '\n'

theorem isSpace_iff {c : Char} :
    isSpace c = true ↔ c = ' ' ∨ c = '\t' ∨ c = '\r' ∨ c = '\x0c' ∨ c = '\n' := by
  simp [isSpace, isBlank, or_assoc]

/-- A space is a lexeme of its own, and takes one byte. -/
theorem cut_of_isSpace {c : Char} (h : isSpace c = true) (cs : List Char) :
    cut c cs = ⟨.ofSymbol c, [], cs⟩ ∧ Text.byteLength [c] = 1 := by
  rcases isSpace_iff.1 h with rfl | rfl | rfl | rfl | rfl <;> exact ⟨rfl, rfl⟩

section Space

variable {space : Char} (h : isSpace space = true) (cs t : List Char)

include h

theorem isWordChar_of_isSpace : isWordChar space = false := by
  rcases isSpace_iff.1 h with rfl | rfl | rfl | rfl | rfl <;> decide

theorem isDigit_of_isSpace : space.isDigit = false := by
  rcases isSpace_iff.1 h with rfl | rfl | rfl | rfl | rfl <;> decide

theorem isWordOrDigit_of_isSpace : isWordOrDigit space = false := by
  rw [isWordOrDigit, isWordChar_of_isSpace h, isDigit_of_isSpace h]
  rfl

omit h

theorem takeWhile_append_of_neg {p : Char → Bool} (hp : p space = false) :
    (cs ++ space :: t).takeWhile p = cs.takeWhile p := by
  induction cs with
  | nil => simp [hp]
  | cons c cs ih => cases hc : p c <;> simp [hc, ih]

theorem dropWhile_append_of_neg {p : Char → Bool} (hp : p space = false) :
    (cs ++ space :: t).dropWhile p = cs.dropWhile p ++ space :: t := by
  induction cs with
  | nil => simp [hp]
  | cons c cs ih => cases hc : p c <;> simp [hc, ih]

theorem startsWith_append_of_neg {p : Char → Bool} (hp : p space = false) :
    startsWith p (cs ++ space :: t) = startsWith p cs := by
  cases cs with
  | nil => exact hp
  | cons c cs => rfl

/-- The same piece, with more left over. -/
def Piece.before (piece : Piece) (more : List Char) : Piece :=
  { piece with rest := piece.rest ++ more }

include h

theorem cutWord_append_space (c : Char) :
    cutWord c (cs ++ space :: t) = (cutWord c cs).before (space :: t) := by
  have hword := isWordChar_of_isSpace h
  have hboth := isWordOrDigit_of_isSpace h
  simp only [cutWord, takeWhile_append_of_neg _ _ hword, dropWhile_append_of_neg _ _ hword,
    startsWith_append_of_neg _ _ (isDigit_of_isSpace h)]
  split
  · rw [takeWhile_append_of_neg _ _ hboth, dropWhile_append_of_neg _ _ hboth]
    rfl
  · rfl

theorem cutFraction_append_space :
    cutFraction (cs ++ space :: t) = ((cutFraction cs).1, (cutFraction cs).2 ++ space :: t) := by
  have hdigit := isDigit_of_isSpace h
  unfold cutFraction
  cases cs with
  | nil => rcases isSpace_iff.1 h with rfl | rfl | rfl | rfl | rfl <;> rfl
  | cons c cs =>
      by_cases hc : c = '.'
      · subst hc
        simp only [List.cons_append, startsWith_append_of_neg _ _ hdigit]
        split
        · rw [takeWhile_append_of_neg _ _ hdigit, dropWhile_append_of_neg _ _ hdigit]
        · rfl
      · simp [hc]

theorem cutNumber_append_space :
    cutNumber (cs ++ space :: t) = (cutNumber cs).before (space :: t) := by
  have hdigit := isDigit_of_isSpace h
  simp only [cutNumber, takeWhile_append_of_neg _ _ hdigit, dropWhile_append_of_neg _ _ hdigit,
    cutFraction_append_space h, startsWith_append_of_neg _ _ (isWordChar_of_isSpace h)]
  cases hrest : (cutFraction (cs.dropWhile Char.isDigit)).2 with
  | nil => rfl
  | cons d ds =>
      split
      · rfl
      · rfl

omit h in
/-- A quoted text ends with its closing quote, whatever follows. -/
theorem cutQuoted_append_closed {quote : Char}
    (hclosed : (cutQuoted quote cs).kind ≠ .unterminated) :
    cutQuoted quote (cs ++ t) = (cutQuoted quote cs).before t := by
  unfold cutQuoted at hclosed ⊢
  cases hdrop : cs.dropWhile (· != quote) with
  | nil =>
      rw [hdrop] at hclosed
      exact absurd rfl hclosed
  | cons close rest =>
      have hlen : (cs.takeWhile (· != quote)).length ≠ cs.length := by
        have happend := congrArg List.length
          (List.takeWhile_append_dropWhile (p := (· != quote)) (l := cs))
        rw [hdrop] at happend
        simp only [List.length_append, List.length_cons] at happend
        omega
      rw [List.dropWhile_append, List.takeWhile_append, hdrop, if_neg (by simp), if_neg hlen]
      rfl

/-- A space ends every lexeme that is in order. -/
theorem cut_append_space {c : Char} (hkind : (cut c cs).kind ≠ .unterminated) :
    cut c (cs ++ space :: t) = (cut c cs).before (space :: t) := by
  by_cases hword : isWordChar c = true
  · simp only [cut, if_pos hword]
    exact cutWord_append_space h cs t c
  · by_cases hdigit : c.isDigit = true
    · simp only [cut, if_neg hword, if_pos hdigit]
      exact cutNumber_append_space h cs t
    · by_cases hquote : (c == '"' || c == '\'') = true
      · simp only [cut, if_neg hword, if_neg hdigit, if_pos hquote] at hkind ⊢
        exact cutQuoted_append_closed cs _ hkind
      · simp only [cut, if_neg hword, if_neg hdigit, if_neg hquote]
        rfl

end Space

theorem splitFrom_eq_append (done : List Lexeme) (offset : Nat) (cs : List Char) :
    splitFrom done offset cs = done.reverse ++ splitFrom [] offset cs := by
  induction hn : cs.length using Nat.strongRecOn generalizing done offset cs with
  | ind n ih =>
      cases cs with
      | nil => simp [splitFrom]
      | cons c cs =>
          have hlen : (cut c cs).rest.length < n := by
            have := length_rest_cut_le c cs
            simp only [List.length_cons] at hn
            omega
          rw [splitFrom, splitFrom, ih _ hlen _ _ _ rfl, ih _ hlen [_] _ _ rfl]
          simp

/-- Lexemes do not depend on where the text starts. -/
theorem splitFrom_shift (k : Nat) (done : List Lexeme) (offset : Nat) (cs : List Char) :
    splitFrom (done.map (shift k)) (offset + k) cs = (splitFrom done offset cs).map (shift k) := by
  fun_induction splitFrom done offset cs with
  | case1 done offset => rw [splitFrom, List.map_reverse]
  | case2 done offset c cs piece stop ih =>
      rw [splitFrom, ← ih]
      have hstop : offset + k + Text.byteLength (c :: (cut c cs).tail) = stop + k := by
        show _ = offset + Text.byteLength (c :: (cut c cs).tail) + k
        omega
      rw [hstop]
      rfl

/-- The lexemes before a space are those of the text before it. -/
theorem splitFrom_append_space {space : Char} (hspace : isSpace space = true) {done : List Lexeme}
    {offset : Nat} {cs : List Char} (t : List Char)
    (h : ∀ l ∈ splitFrom done offset cs, l.kind ≠ .unterminated) :
    splitFrom done offset (cs ++ space :: t)
      = splitFrom (splitFrom done offset cs).reverse (offset + Text.byteLength cs)
          (space :: t) := by
  fun_induction splitFrom done offset cs with
  | case1 done offset => simp [Text.byteLength]
  | case2 done offset c cs piece stop ih =>
      have hkind : piece.kind ≠ .unterminated := by
        refine h ⟨piece.kind, c, piece.tail, ⟨offset, stop⟩⟩ ?_
        rw [splitFrom_eq_append]
        simp
      have hbytes : offset + Text.byteLength (c :: cs)
          = stop + Text.byteLength piece.rest := by
        show _ = offset + Text.byteLength (c :: piece.tail) + Text.byteLength piece.rest
        rw [Nat.add_assoc, ← Text.byteLength_append, List.cons_append, cut_append]
      rw [List.cons_append, splitFrom, cut_append_space hspace cs t hkind, hbytes]
      exact ih h

/-- A space at an offset, as a lexeme. -/
def ofSpace (space : Char) (offset : Nat) : Lexeme :=
  ⟨.ofSymbol space, space, [], ⟨offset, offset + 1⟩⟩

/-- A text that goes on after a space is cut in two parts. -/
theorem split_append_space {space : Char} (hspace : isSpace space = true) {cs : List Char}
    (t : List Char) (h : ∀ l ∈ split cs, l.kind ≠ .unterminated) :
    split (cs ++ space :: t)
      = split cs ++ ofSpace space (Text.byteLength cs)
          :: (split t).map (shift (Text.byteLength cs + 1)) := by
  obtain ⟨hcut, hbytes⟩ := cut_of_isSpace hspace t
  have hshift := splitFrom_shift (Text.byteLength cs + 1) [] 0 t
  rw [List.map_nil, Nat.zero_add] at hshift
  unfold split at h ⊢
  rw [splitFrom_append_space hspace t h, splitFrom, hcut, hbytes, splitFrom_eq_append, ← hshift,
    Nat.zero_add, List.reverse_cons, List.reverse_reverse, List.append_assoc]
  rfl

end Lexeme

-- ================================================================ scanning

namespace Scan

/-- The header, further to the right. -/
def Header.shift (k : Nat) (h : Header) : Header :=
  { h with start := h.start + k, attributes := h.attributes.map (·.shift k) }

/-- The state of a scanner that has been through other tokens before. -/
def State.after (k : Nat) (before : List Token) (s : State) : State :=
  ⟨s.tokens.map (·.shift k) ++ before, s.header.map (·.shift k)⟩

variable (k : Nat) (before : List Token)

theorem stepOutside_shift (tokens : List Token) (l : Lexeme) :
    stepOutside (tokens.map (·.shift k) ++ before) (l.shift k)
      = moved k (State.after k before) (stepOutside tokens l) := by
  obtain ⟨kind, first, tail, span⟩ := l
  cases kind <;> rfl

theorem close_shift (h : Header) (l : Lexeme) :
    (h.shift k).close (l.shift k) = (h.close l).shift k := by
  simp [Header.close, Header.shift, Token.shift, Lexeme.shift, Lexeme.text, Lexeme.chars,
    Span.shift]

theorem stepHeader_shift (tokens : List Token) (h : Header) (l : Lexeme) :
    stepHeader (tokens.map (·.shift k) ++ before) (h.shift k) (l.shift k)
      = moved k (State.after k before) (stepHeader tokens h l) := by
  have hclose : Except.ok (State.mk
      ((h.shift k).close (l.shift k) :: (tokens.map (·.shift k) ++ before))
      none) = moved k (State.after k before) (.ok ⟨h.close l :: tokens, none⟩) := by
    rw [close_shift]
    rfl
  obtain ⟨kind, first, tail, span⟩ := l
  obtain ⟨start, text, attributes, expects⟩ := h
  cases kind with
  | closeParen =>
      cases expects with
      | parameterOrClose => exact hclose
      | commaOrClose => exact hclose
      | _ => rfl
  | _ => cases expects <;> rfl

theorem step_shift (s : State) (l : Lexeme) :
    step (s.after k before) (l.shift k) = moved k (State.after k before) (step s l) := by
  obtain ⟨tokens, header⟩ := s
  cases header with
  | none => exact stepOutside_shift k before tokens l
  | some h => exact stepHeader_shift k before tokens h l

theorem foldlM_step_shift (ls : List Lexeme) (s : State) :
    (ls.map (·.shift k)).foldlM step (s.after k before)
      = moved k (State.after k before) (ls.foldlM step s) := by
  induction ls generalizing s with
  | nil => rfl
  | cons l ls ih =>
      rw [List.map_cons, List.foldlM_cons, List.foldlM_cons, step_shift]
      cases hstep : step s l with
      | ok s' => exact ih s'
      | error e => rfl

theorem finish_shift (size : Nat) (s : State) :
    finish (size + k) (s.after k before)
      = moved k (fun tokens => before.reverse ++ tokens.map (·.shift k)) (finish size s) := by
  obtain ⟨tokens, header⟩ := s
  cases header with
  | none => simp [finish, State.after, moved]
  | some h => rfl

/-- A fold that fails does so at a lexeme, after the lexemes before it have
been gone through. -/
theorem exists_step_of_foldlM {ls : List Lexeme} {s : State} {e : Error}
    (h : ls.foldlM step s = .error e) :
    ∃ before l after s', ls = before ++ l :: after ∧ before.foldlM step s = .ok s'
      ∧ step s' l = .error e := by
  induction ls generalizing s with
  | nil => cases h
  | cons l ls ih =>
      rw [List.foldlM_cons] at h
      cases hstep : step s l with
      | error e' =>
          rw [hstep] at h
          cases h
          exact ⟨[], l, ls, s, rfl, rfl, hstep⟩
      | ok s' =>
          rw [hstep] at h
          obtain ⟨before, l', after, s'', rfl, hbefore, hfails⟩ := ih h
          refine ⟨l :: before, l', after, s'', rfl, ?_, hfails⟩
          rw [List.foldlM_cons, hstep]
          exact hbefore

/-- A quoted text that is not closed is a fault, outside of headers and
inside of them. -/
theorem step_of_unterminated {l : Lexeme} (h : l.kind = .unterminated) (s : State) :
    step s l = .error (refused l) := by
  obtain ⟨tokens, header⟩ := s
  cases header with
  | none => simp [step, stepOutside, h]
  | some header => simp [step, stepHeader, h]

theorem kind_ne_unterminated {ls : List Lexeme} {s s' : State} (h : ls.foldlM step s = .ok s') :
    ∀ l ∈ ls, l.kind ≠ .unterminated := by
  induction ls generalizing s with
  | nil => intro l hl; cases hl
  | cons l ls ih =>
      rw [List.foldlM_cons] at h
      cases hstep : step s l with
      | error e =>
          rw [hstep] at h
          cases h
      | ok s'' =>
          rw [hstep] at h
          refine List.forall_mem_cons.2 ⟨fun hkind => ?_, ih h⟩
          rw [step_of_unterminated hkind] at hstep
          cases hstep

end Scan

/-- A scan fails at a lexeme, after the lexemes before it have been gone
through, or at the end of a text that ends inside a header. -/
theorem scan_error_cases {source : String} {e : Error} (h : scan source = .error e) :
    (∃ before l after state, Lexeme.split source.toList = before ++ l :: after
      ∧ before.foldlM Scan.step {} = .ok state ∧ Scan.step state l = .error e)
    ∨ e = ⟨.lexical .unterminatedHeader, .point source.utf8ByteSize, []⟩ := by
  unfold scan at h
  cases hfold : (Lexeme.split source.toList).foldlM Scan.step {} with
  | error e' =>
      rw [hfold] at h
      cases h
      exact .inl (Scan.exists_step_of_foldlM hfold)
  | ok state =>
      rw [hfold] at h
      obtain ⟨tokens, header⟩ := state
      cases header with
      | none => cases h
      | some header =>
          cases h
          exact .inr rfl

/-- The token of a space at an offset. Only line breaks are tokens. -/
def Token.ofSpace (space : Char) (offset : Nat) : List Token :=
  if space = '\n' then [⟨.newLine, "\n", ⟨offset, offset + 1⟩, []⟩] else []

theorem Scan.step_ofSpace {space : Char} (hspace : Lexeme.isSpace space = true) (offset : Nat)
    (tokens : List Token) :
    step ⟨tokens, none⟩ (.ofSpace space offset)
      = .ok ⟨Token.ofSpace space offset ++ tokens, none⟩ := by
  rcases Lexeme.isSpace_iff.1 hspace with rfl | rfl | rfl | rfl | rfl <;> rfl

/-- A text that goes on after a space is scanned in two parts. -/
theorem scan_append_space {space : Char} (hspace : Lexeme.isSpace space = true) {s : String}
    {tokens : List Token} (h : scan s = .ok tokens) (t : String) :
    scan (s ++ String.singleton space ++ t)
      = moved (s.utf8ByteSize + 1)
          (fun more => tokens ++ (Token.ofSpace space s.utf8ByteSize
            ++ more.map (·.shift (s.utf8ByteSize + 1)))) (scan t) := by
  have hbytes : space.utf8Size = 1 := by
    have := (Lexeme.cut_of_isSpace hspace []).2
    simpa [Text.byteLength] using this
  have hsize : (s ++ String.singleton space ++ t).utf8ByteSize
      = t.utf8ByteSize + (s.utf8ByteSize + 1) := by
    rw [String.utf8ByteSize_append, String.utf8ByteSize_append, String.utf8ByteSize_singleton,
      hbytes]
    exact Nat.add_comm _ _
  have hchars : (s ++ String.singleton space ++ t).toList = s.toList ++ space :: t.toList := by
    rw [String.toList_append, String.toList_append, String.toList_singleton, List.append_assoc]
    rfl
  unfold scan at h ⊢
  cases hfold : (Lexeme.split s.toList).foldlM Scan.step {} with
  | error e =>
      rw [hfold] at h
      cases h
  | ok state =>
      rw [hfold] at h
      obtain ⟨done, header⟩ := state
      cases header with
      | some header => cases h
      | none =>
          cases h
          have hsplit := Lexeme.split_append_space hspace t.toList (Scan.kind_ne_unterminated hfold)
          rw [Text.byteLength_toList] at hsplit
          have hrest := Scan.foldlM_step_shift (s.utf8ByteSize + 1)
            (Token.ofSpace space s.utf8ByteSize ++ done) (Lexeme.split t.toList) {}
          have hfinish := Scan.finish_shift (s.utf8ByteSize + 1)
            (Token.ofSpace space s.utf8ByteSize ++ done) t.utf8ByteSize
          have hreverse : (Token.ofSpace space s.utf8ByteSize).reverse
              = Token.ofSpace space s.utf8ByteSize := by
            unfold Token.ofSpace
            split <;> rfl
          rw [List.reverse_append, hreverse] at hfinish
          rw [hchars, hsplit, hsize, List.foldlM_append, hfold]
          show ((Scan.step ⟨done, none⟩ (.ofSpace space s.utf8ByteSize)) >>=
            (((Lexeme.split t.toList).map (·.shift (s.utf8ByteSize + 1))).foldlM
              Scan.step)) >>= _ = _
          rw [Scan.step_ofSpace hspace]
          refine (congrArg (· >>= _) hrest).trans ?_
          cases (Lexeme.split t.toList).foldlM Scan.step {} with
          | error e => rfl
          | ok state =>
              refine (hfinish state).trans ?_
              simp only [List.append_assoc]
              rfl

end ScopedScript
