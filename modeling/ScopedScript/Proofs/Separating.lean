/-
Scanning and building on both sides of a separator.

A space between two texts keeps them apart: no lexeme but an open quote
goes across it, and no token but an unfinished header. So a text that is
in order is scanned as if it were alone, and after the space scanning
starts afresh (`scan_append_space`). This file adds what becomes of a text
that is not in order, and what separators do between tokens.

# The first fault stays the first

A fault ends the scan at the lexeme that has it, and nothing behind that
lexeme has been looked at. The lexemes up to there are cut off as before
if a space and more text follow (`splitFrom_append_closed`), unless one of
them is an open quote, and that would have been the fault. The only other
fault that more text can mend is a header that the text ends in, and that
one is found when all lexemes have been gone through.

# Separators between tokens

Line breaks and semicolons keep statements apart as a space does texts:
the statements of a program end where separators come after it
(`Build.program_append`). What comes behind is read as it would be alone.
All that it is told of the whole is where the last token ends, to report
an early end there, and its last token is that of the whole. Only if there
is nothing behind the separators is the end another one, and then nobody
asks for it (`Build.program_endOfTokens_append`).
-/
import Mathlib.Data.List.Basic
import ScopedScript.Proofs.Concatenation
import ScopedScript.Proofs.Munching

namespace ScopedScript

-- ================================================================= lexemes

namespace Lexeme

/-- The first lexemes of a text stay as they are if a space and more text
follow, as long as none of them is an open quote. -/
theorem splitFrom_append_closed {space : Char} (hspace : isSpace space = true) {offset : Nat}
    {cs : List Char} {before after : List Lexeme}
    (h : splitFrom [] offset cs = before ++ after)
    (hclosed : ∀ l ∈ before, l.kind ≠ .unterminated) (t : List Char) :
    ∃ rest, splitFrom [] offset (cs ++ space :: t) = before ++ rest := by
  induction before generalizing offset cs with
  | nil => exact ⟨_, rfl⟩
  | cons l before ih =>
      obtain ⟨hl, hbefore⟩ := List.forall_mem_cons.1 hclosed
      cases cs with
      | nil =>
          rw [splitFrom] at h
          cases h
      | cons c cs =>
          rw [splitFrom, splitFrom_eq_append] at h
          obtain ⟨rfl, hrest⟩ := List.cons.inj h
          obtain ⟨rest, hmore⟩ := ih hrest hbefore
          refine ⟨rest, ?_⟩
          rw [List.cons_append, splitFrom, splitFrom_eq_append, cut_append_space hspace cs t hl]
          exact congrArg (_ :: ·) hmore

end Lexeme

-- ================================================================ scanning

/-- A quote that makes no token misses its partner. -/
theorem Scan.fault_refused_of_quote {l : Lexeme} (h : l.first = '"' ∨ l.first = '\'') :
    (refused l).fault = .lexical (.unterminatedString l.first) := by
  have hquote : (l.first == '"' || l.first == '\'') = true := by simpa using h
  exact congrArg Fault.lexical (if_pos hquote)

/-- A text with a fault that more text does not mend has the same fault if
a space and more text follow. -/
theorem scan_append_space_of_error {space : Char} (hspace : Lexeme.isSpace space = true)
    {s : String} {e : Error} (h : scan s = .error e)
    (hquote : ∀ quote, e.fault ≠ .lexical (.unterminatedString quote))
    (hheader : e.fault ≠ .lexical .unterminatedHeader) (t : String) :
    scan (s ++ String.singleton space ++ t) = .error e := by
  have hchars : (s ++ String.singleton space ++ t).toList = s.toList ++ space :: t.toList := by
    rw [String.toList_append, String.toList_append, String.toList_singleton, List.append_assoc]
    rfl
  rcases scan_error_cases h with ⟨before, l, after, state, hsplit, hbefore, hfails⟩ | rfl
  · have hl : l.kind ≠ .unterminated := by
      intro hl
      have hfirst := (Lexeme.stands_of_mem_splitFrom hsplit).cuts.of_unterminated hl
      rw [Scan.step_of_unterminated hl] at hfails
      cases hfails
      exact hquote l.first (Scan.fault_refused_of_quote hfirst)
    have hclosed : ∀ l' ∈ before ++ [l], l'.kind ≠ .unterminated := by
      refine List.forall_mem_append.2 ⟨Scan.kind_ne_unterminated hbefore, ?_⟩
      exact List.forall_mem_singleton.2 hl
    rw [List.append_cons] at hsplit
    obtain ⟨rest, hrest⟩ := Lexeme.splitFrom_append_closed hspace hsplit hclosed t.toList
    rw [scan, hchars, Lexeme.split, hrest, List.append_assoc, List.foldlM_append, hbefore]
    show (([l] ++ rest).foldlM Scan.step state >>= _) = _
    rw [List.singleton_append, List.foldlM_cons, hfails]
    rfl
  · exact absurd rfl hheader

/-- Scanning distributes over texts with a space between them: the tokens of
the first, that of the space if it is a line break, and what comes of the
second, further to the right. A fault of the first text is the fault of
both, unless it is that a quote or a header is not closed. -/
theorem scanning_distributes_over_spaces {space : Char}
    (hspace : space ∈ [' ', '\t', '\r', '\x0c', '\n']) (s t : String) :
    (∀ tokens, scan s = .ok tokens →
      (∀ more, scan t = .ok more →
        scan (s ++ String.singleton space ++ t)
          = .ok (tokens ++ Token.ofSpace space s.utf8ByteSize
              ++ more.map (·.shift (s.utf8ByteSize + 1))))
      ∧ ∀ e, scan t = .error e →
        scan (s ++ String.singleton space ++ t) = .error (e.shift (s.utf8ByteSize + 1)))
    ∧ ∀ e, scan s = .error e → (∀ quote, e.fault ≠ .lexical (.unterminatedString quote)) →
      e.fault ≠ .lexical .unterminatedHeader →
        scan (s ++ String.singleton space ++ t) = .error e := by
  have hspace : Lexeme.isSpace space = true := by
    refine Lexeme.isSpace_iff.2 ?_
    simpa using hspace
  refine ⟨fun tokens hs => ?_, fun e hs hquote hheader => ?_⟩
  · have hwhole := scan_append_space hspace hs t
    refine ⟨fun more ht => ?_, fun e ht => ?_⟩
    · rw [hwhole, ht, List.append_assoc]
      rfl
    · rw [hwhole, ht]
      rfl
  · exact scan_append_space_of_error hspace hs hquote hheader t

/-- A digit in a name is the fault of a text, and stays so before a quote
that would be open; the same quote is closed by what follows it. -/
theorem scanning_distributes_over_spaces_quote :
    '\t' ∈ [' ', '\t', '\r', '\x0c', '\n']
      ∧ scan "a b2 'c\t'" = .error ⟨.lexical (.digitInside "b2"), ⟨2, 4⟩, []⟩
      ∧ scan "a\tb2" = .error ⟨.lexical (.digitInside "b2"), ⟨2, 4⟩, []⟩ := by
  have hspace : '\t' ∈ [' ', '\t', '\r', '\x0c', '\n'] := by decide
  have hfirst : scan "a b2 'c" = .error ⟨.lexical (.digitInside "b2"), ⟨2, 4⟩, []⟩ := by
    decide +kernel
  have hword : scan "a" = .ok [⟨.identifier, "a", ⟨0, 1⟩, []⟩] := by decide +kernel
  have hsecond : scan "b2" = .error ⟨.lexical (.digitInside "b2"), ⟨0, 2⟩, []⟩ := by
    decide +kernel
  refine ⟨hspace, ?_, ?_⟩
  · exact (scanning_distributes_over_spaces hspace "a b2 'c" "'").2 _ hfirst nofun nofun
  · exact ((scanning_distributes_over_spaces hspace "a" "b2").1 _ hword).2 _ hsecond

-- ================================================================ building

open Grammar

/-- Tokens are read alike behind others: their end is the end of all, or
there are none. -/
theorem Build.program_endOfTokens_append (done : List Node) (ts us : List Token) :
    program (endOfTokens (ts ++ us)) done us = program (endOfTokens us) done us := by
  cases hlast : us.getLast? with
  | none =>
      have hus : us = [] := List.getLast?_eq_none_iff.1 hlast
      have hskip : skipSeparators us = [] := by rw [hus]; rfl
      rw [program_of_nil hskip, program_of_nil hskip]
  | some t =>
      have hend : endOfTokens (ts ++ us) = endOfTokens us := by
        unfold endOfTokens
        rw [List.getLast?_append, hlast]
        rfl
      rw [hend]

/-- The tokens of a program and separators after them do not matter for the
tokens behind the separators. -/
theorem build_append_separators {ts seps : List Token} {first : Node} (h : build ts = .ok first)
    (hseps : Separators seps) (hne : seps ≠ []) (more : List Token) :
    build (ts ++ seps ++ more)
      = (build more).map fun second =>
          .root ⟨0, endOfTokens (ts ++ seps ++ more)⟩ (first.children ++ second.children) := by
  obtain ⟨body, hbody, rfl⟩ := isTreeOf_of_build h
  obtain ⟨separator, seps, rfl⟩ := List.exists_cons_of_ne_nil hne
  have hseparator : separator.kind.isSeparator = true := hseps separator List.mem_cons_self
  have hskip : Build.skipSeparators (separator :: (seps ++ more)) = Build.skipSeparators more :=
    List.dropWhile_append_of_pos hseps
  have hend := Build.program_endOfTokens_append [] (ts ++ separator :: seps) more
  rw [build_eq, build_eq, ← hend]
  simp only [List.append_assoc, List.cons_append]
  rw [Build.program_append _ hbody hseparator, Build.program_skipSeparators _ _ hskip,
    Build.program_done]
  cases Build.program (endOfTokens (ts ++ separator :: (seps ++ more))) [] more with
  | error e => rfl
  | ok nodes => simp [Except.map, Node.children]

/-- Building distributes over tokens with separators between them. After the
statements of a program come those of what is behind the separators, and
if that is no program, its fault is the fault of the whole. -/
theorem building_distributes_over_separators {a w : List Token} {first : Node}
    (ha : build a = .ok first) (hw : ∀ t ∈ w, t.kind = .newLine ∨ t.kind = .semicolon)
    (hne : w ≠ []) (b : List Token) :
    (∀ second, build b = .ok second →
      build (a ++ w ++ b)
        = .ok (.root ⟨0, endOfTokens (a ++ w ++ b)⟩ (first.children ++ second.children)))
    ∧ ∀ e, build b = .error e → build (a ++ w ++ b) = .error e := by
  have hseps : Separators w := by
    intro t ht
    rcases hw t ht with hkind | hkind
    · rw [hkind]
      rfl
    · rw [hkind]
      rfl
  have hwhole := build_append_separators ha hseps hne b
  refine ⟨fun second hb => ?_, fun e hb => ?_⟩
  · rw [hwhole, hb]
    rfl
  · rw [hwhole, hb]
    rfl

/-- A `return` ends where a separator comes, be it before another one or
before a parenthesis that is not closed. -/
theorem building_distributes_over_separators_return :
    let a : List Token := [⟨.ret, "return", ⟨0, 6⟩, []⟩]
    let w : List Token := [⟨.semicolon, ";", ⟨6, 7⟩, []⟩, Token.lineBreak 7]
    let b : List Token := [⟨.ret, "return", ⟨8, 14⟩, []⟩]
    let c : List Token := [⟨.openParen, "(", ⟨8, 9⟩, []⟩]
    build (a ++ w ++ b) = .ok (.root ⟨0, 14⟩ [.ret ⟨0, 6⟩ none, .ret ⟨8, 14⟩ none])
      ∧ ∃ e, build c = .error e ∧ build (a ++ w ++ c) = .error e := by
  intro a w b c
  have program (t : Token) (ht : t.kind = .ret) :
      build [t] = .ok (.root ⟨0, t.span.stop⟩ [.ret t.span none]) := by
    have hnone : Separators [] := nofun
    have hreturn : Derives .statement [t] ([] ++ []) [.ret t.span none] := .bareReturn ht nofun
    exact build_of_isTreeOf ⟨_, .nextStatement hnone hreturn (.noStatement hnone), rfl⟩
  have ha : build a = .ok (.root ⟨0, 6⟩ [.ret ⟨0, 6⟩ none]) := program _ rfl
  have hw : ∀ t ∈ w, t.kind = .newLine ∨ t.kind = .semicolon := by decide
  have hdistributes := building_distributes_over_separators ha hw (List.cons_ne_nil _ _)
  refine ⟨(hdistributes b).1 _ (program _ rfl), ?_⟩
  have hno : (build c).toBool = false := by decide +kernel
  cases hc : build c with
  | ok tree =>
      rw [hc] at hno
      cases hno
  | error e => exact ⟨e, rfl, (hdistributes c).2 e hc⟩

end ScopedScript
