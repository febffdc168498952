/-
What the token of a function header says of the header.

A header is one token, however long it is and however it is laid out. What
is inside of it is found in the attributes of the token. Here it is shown
that these are the words of the header, in order and each at its place, and
that the layout is nowhere but in the text of the token.

# Lexemes up to the closing parenthesis

`Fills` follows the scanner through a header: each lexeme goes on with the
header, and the last one closes it. What the scanner still expects
determines how the rest of the header is written (`Expectation.remainder`),
and each word on the way becomes an attribute (`Fills.attributes`).

# Other spaces

A space inside of a header is a lexeme of its own that is passed over,
whichever it is. With another space in its place the lexemes before it end
where they did, since no lexeme goes on with a space (`Cuts.respaced`), and
so the whole text is cut as before (`splitFrom_replaced`).
-/
import Mathlib.Data.List.Forall2
import ScopedScript.Proofs.Language
import ScopedScript.Proofs.Unreading

namespace ScopedScript

-- ================================================================= lexemes

namespace Lexeme

variable {l : Lexeme} {offset : Nat} {rest : List Char}

theorem toList_text (l : Lexeme) : l.text.toList = l.chars := String.toList_ofList

/-- The kinds of spaces. -/
theorem ofSymbol_isSpace_iff {c : Char} :
    (Kind.ofSymbol c = .blank ∨ Kind.ofSymbol c = .newLine) ↔ isSpace c = true := by
  constructor
  · rintro (h | h)
    · rw [isSpace, isBlank_of_ofSymbol h]
      rfl
    · have hmem : [c] ∈ (Kind.ofSymbol c).pattern := mem_pattern_ofSymbol (by simp [h])
      rw [h] at hmem
      cases hmem
      rfl
  · intro h
    rcases isSpace_iff.1 h with rfl | rfl | rfl | rfl | rfl <;> decide

/-- A lexeme of the kind of spaces is a space. -/
theorem Stands.of_space (h : l.Stands offset rest) (hkind : l.kind = .blank ∨ l.kind = .newLine) :
    ∃ c, isSpace c = true ∧ l = ofSpace c offset := by
  obtain ⟨kind, c, tail, span⟩ := l
  have hcuts : Cuts c kind tail rest := h.cuts
  have hspan : span = ⟨offset, offset + Text.byteLength (c :: tail)⟩ := h.span
  have hkind : kind = .blank ∨ kind = .newLine := hkind
  clear h
  cases hcuts with
  | word => rcases hkind with h | h <;> exact absurd h (ofWord_ne (by decide) _)
  | symbol =>
      have hc := ofSymbol_isSpace_iff.1 hkind
      rw [(cut_of_isSpace hc []).2] at hspan
      rw [hspan]
      exact ⟨c, hc, rfl⟩
  | _ => simp at hkind

theorem isSpace_of_isWordChar {c : Char} (h : isWordChar c = true) : isSpace c = false := by
  by_cases hspace : isSpace c = true
  · rw [isWordChar_of_isSpace hspace] at h
    cases h
  · simpa using hspace

/-- Words and the word `function` are made of letters, which make them what
they are. -/
theorem Cuts.of_letters {c : Char} {kind : Kind} {tail : List Char} (h : Cuts c kind tail rest)
    (hkind : kind = .word ∨ kind = .function) :
    Kind.ofWord (c :: tail) = kind ∧ ∀ d ∈ c :: tail, isWordChar d = true := by
  have hletters : ∀ d ∈ c :: tail, isWordChar d = true := by
    rcases hkind with rfl | rfl
    · exact List.forall_mem_cons.2 (cons_mem_many.1 (h.mem_pattern nofun nofun))
    · rw [mem_verbatim.1 (h.mem_pattern nofun nofun)]
      exact List.all_eq_true.1 rfl
  obtain ⟨hword, -, -⟩ := (Cuts.of_letters_alone hletters rfl).unique (Cuts.truncate h) rfl
  exact ⟨hword, hletters⟩

theorem Stands.of_word (h : l.Stands offset rest) (hkind : l.kind = .word) :
    (∀ c ∈ l.chars, isWordChar c = true) ∧ l.text ∉ Stretch.keywords := by
  obtain ⟨hword, hletters⟩ := h.cuts.of_letters (.inl hkind)
  refine ⟨hletters, ofWord_eq_word.1 ?_⟩
  rw [toList_text]
  exact hword.trans hkind

theorem Stands.of_function (h : l.Stands offset rest) (hkind : l.kind = .function) :
    l.text = "function" := by
  obtain ⟨hword, -⟩ := h.cuts.of_letters (.inr hkind)
  refine ofWord_eq_function.1 ?_
  rw [toList_text]
  exact hword.trans hkind

/-- A symbol is written in one way. -/
theorem Stands.chars_eq (h : l.Stands offset rest) {kind : Token.Kind}
    (hkind : l.kind.token? = some kind) {text : String} (htext : kind.spelling? = some text) :
    l.chars = text.toList := by
  rw [← (h.cuts.spelled hkind).1 text htext]
  exact l.toList_text.symm

/-- Lexemes of a text lie one after the other. -/
theorem pairwise_splitFrom {cs : List Char} {ls : List Lexeme} (h : splitFrom [] offset cs = ls) :
    (∀ l ∈ ls, offset ≤ l.span.start ∧ l.span.start < l.span.stop)
      ∧ ls.Pairwise fun l l' => l.span.stop ≤ l'.span.start := by
  induction ls generalizing offset cs with
  | nil => exact ⟨nofun, .nil⟩
  | cons l ls ih =>
      obtain ⟨rest, hstands, -, hrest⟩ := stands_of_splitFrom h
      obtain ⟨hafter, hpairwise⟩ := ih hrest
      have hpos : 0 < Text.byteLength l.chars := Text.byteLength_pos (List.cons_ne_nil _ _)
      have hstart : l.span.start = offset := congrArg Span.start hstands.span
      have hstop : l.span.stop = offset + Text.byteLength l.chars :=
        congrArg Span.stop hstands.span
      refine ⟨List.forall_mem_cons.2 ⟨by omega, fun l' hl' => ?_⟩,
        List.pairwise_cons.2 ⟨fun l' hl' => ?_, hpairwise⟩⟩
      · have := hafter l' hl'
        omega
      · have := hafter l' hl'
        omega

/-- The words among lexemes. -/
def words (ls : List Lexeme) : List Lexeme := ls.filter (·.kind == .word)

theorem words_cons_of_eq {ls : List Lexeme} (h : l.kind = .word) :
    words (l :: ls) = l :: words ls :=
  List.filter_cons_of_pos (by simpa using h)

theorem words_cons_of_ne {ls : List Lexeme} (h : l.kind ≠ .word) : words (l :: ls) = words ls :=
  List.filter_cons_of_neg (by simpa using h)

/-- What a word says in a header. -/
def asAttribute (key : Token.Key) (l : Lexeme) : Token.Attribute := ⟨key, l.text, l.span⟩

/-- A text without its spaces. -/
def compact (cs : List Char) : List Char := cs.filter (!isSpace ·)

theorem compact_append (cs ds : List Char) : compact (cs ++ ds) = compact cs ++ compact ds :=
  List.filter_append cs ds

theorem compact_eq_self_iff {cs : List Char} :
    compact cs = cs ↔ ∀ c ∈ cs, isSpace c = false := by
  rw [compact, List.filter_eq_self]
  simp only [Bool.not_eq_true']

theorem compact_of_letters {cs : List Char} (h : ∀ c ∈ cs, isWordChar c = true) :
    compact cs = cs :=
  compact_eq_self_iff.2 fun c hc => isSpace_of_isWordChar (h c hc)

end Lexeme

-- ============================================================== one header

namespace Scan

open Lexeme (words charsOf compact Stands)

/-- Lexemes with which a header goes on up to its end, and the token that it
is then. -/
inductive Fills : Header → List Lexeme → Token → Prop
  | inside {h l h' ls t} (hl : Passes h l h') (hrest : Fills h' ls t) : Fills h (l :: ls) t
  | closing {h l} (hl : Closes h l) : Fills h [l] (h.close l)

theorem Makes.append {header : Option Header} {ls ls' : List Lexeme} {ts ts' : List Token}
    (h : Makes header ls ts) (h' : Makes none ls' ts') : Makes header (ls ++ ls') (ts ++ ts') := by
  induction h with
  | nil => exact h'
  | blank hl _ ih => exact .blank hl ih
  | token hl _ ih => exact .token hl ih
  | opening hl _ ih => exact .opening hl ih
  | inside hl _ ih => exact .inside hl ih
  | closing hl _ ih => exact .closing hl ih

theorem Fills.makes {h : Header} {ls : List Lexeme} {t : Token} (hfills : Fills h ls t) :
    Makes (some h) ls [t] := by
  induction hfills with
  | inside hl _ ih => exact .inside hl ih
  | closing hl => exact .closing hl .nil

/-- A header is filled before anything else is made. -/
theorem Makes.exists_fills {h : Header} {ls : List Lexeme} {ts : List Token}
    (hmakes : Makes (some h) ls ts) :
    ∃ inner after t rest, ls = inner ++ after ∧ ts = t :: rest ∧ Fills h inner t
      ∧ Makes none after rest := by
  induction ls generalizing h with
  | nil => cases hmakes
  | cons l ls ih =>
      cases hmakes with
      | inside hl hmakes =>
          obtain ⟨inner, after, t, rest, rfl, rfl, hfills, hafter⟩ := ih hmakes
          exact ⟨l :: inner, after, t, rest, rfl, rfl, .inside hl hfills, hafter⟩
      | closing hl hmakes => exact ⟨[l], ls, _, _, rfl, rfl, .closing hl, hmakes⟩

/-- The token of a header comes from the word `function` and the lexemes that
fill the header. -/
theorem Makes.at_header {ls : List Lexeme} {front back : List Token} {t : Token}
    (h : Makes none ls (front ++ t :: back)) (ht : t.kind = .functionDeclaration) :
    ∃ before l inner after, ls = before ++ (l :: inner ++ after) ∧ l.kind = .function
      ∧ Makes none before front ∧ Fills (opened l) inner t ∧ Makes none after back := by
  obtain ⟨before, more, rfl, hbefore, hmore⟩ := h.parts (.inl rfl)
  clear h
  induction more generalizing before with
  | nil => cases hmore
  | cons l ls ih =>
      cases hmore with
      | blank hl hmakes =>
          obtain ⟨before', l', inner, after, hls, hfound⟩ := ih (before ++ [l])
            (by simpa using hbefore.append (.blank hl .nil)) hmakes
          exact ⟨before', l', inner, after, by simpa using hls, hfound⟩
      | @token _ _ kind _ hl hmakes =>
          have hkind : kind = .functionDeclaration := ht
          rw [hkind] at hl
          cases hcases : l.kind <;> rw [hcases] at hl <;> cases hl
      | opening hl hmakes =>
          obtain ⟨inner, after, t', rest, rfl, htokens, hfills, hafter⟩ := hmakes.exists_fills
          cases htokens
          exact ⟨before, l, inner, after, rfl, hl, hbefore, hfills, hafter⟩

section Fills

variable {h : Header} {ls : List Lexeme} {t : Token}

theorem Fills.text_eq (hfills : Fills h ls t) : t.text = h.text ++ String.ofList (charsOf ls) := by
  induction hfills with
  | @inside h l h' ls t hl _ ih =>
      rw [ih, hl.text_eq, Lexeme.charsOf_cons, String.ofList_append, String.append_assoc]
      rfl
  | @closing h l hl =>
      rw [Lexeme.charsOf_cons, Lexeme.charsOf_nil, List.append_nil]
      rfl

/-- The token of a header has the text of all the lexemes of the header. -/
theorem Fills.toList_text {l : Lexeme} (hfills : Fills (opened l) ls t) :
    t.text.toList = charsOf (l :: ls) := by
  rw [hfills.text_eq, String.toList_append, String.toList_ofList, Lexeme.charsOf_cons,
    ← l.toList_text]
  rfl

/-- A header ends with a parenthesis. -/
theorem Fills.ends (hfills : Fills h ls t) :
    ∃ init last, ls = init ++ [last] ∧ last.kind = .closeParen
      ∧ t.span = ⟨h.start, last.span.stop⟩ := by
  induction hfills with
  | @inside h l h' ls t hl _ ih =>
      obtain ⟨init, last, rfl, hlast, hspan⟩ := ih
      rw [hl.start_eq] at hspan
      exact ⟨l :: init, last, rfl, hlast, hspan⟩
  | @closing h l hl => exact ⟨[], l, rfl, hl.kind, rfl⟩

/-- The words of a header become its attributes: the name where one is
expected, and parameters from there on. -/
theorem Fills.attributes (hfills : Fills h ls t) :
    (h.expects = .name → ∃ name parameters, words ls = name :: parameters
      ∧ t.attributes = h.attributes.reverse
          ++ name.asAttribute .name :: parameters.map (·.asAttribute .parameter))
    ∧ (h.expects ≠ .name →
      t.attributes = h.attributes.reverse ++ (words ls).map (·.asAttribute .parameter)) := by
  induction hfills with
  | @inside h l h' ls t hl _ ih =>
      cases hl with
      | space hl =>
          rw [Lexeme.words_cons_of_ne (by rcases hl with hl | hl <;> simp [hl])]
          exact ih
      | name hl hh =>
          refine ⟨fun _ => ⟨l, words ls, Lexeme.words_cons_of_eq hl, ?_⟩, fun hne => absurd hh hne⟩
          rw [ih.2 nofun]
          simp [Header.add, Lexeme.asAttribute]
      | opening hl hh =>
          rw [Lexeme.words_cons_of_ne (by simp [hl])]
          exact ⟨fun hname => absurd hname (by simp [hh]), fun _ => ih.2 nofun⟩
      | parameter hl hh =>
          refine ⟨fun hname => absurd hh (by simp [hname]), fun _ => ?_⟩
          rw [Lexeme.words_cons_of_eq hl, ih.2 nofun]
          simp [Header.add, Lexeme.asAttribute]
      | comma hl hh =>
          rw [Lexeme.words_cons_of_ne (by simp [hl])]
          exact ⟨fun hname => absurd hname (by simp [hh]), fun _ => ih.2 nofun⟩
  | @closing h l hl =>
      rw [Lexeme.words_cons_of_ne (by simp [hl.kind])]
      exact ⟨fun hname => absurd hl.expects (by simp [hname]), fun _ => (List.append_nil _).symm⟩

end Fills

/-- Parameters with commas between them, and the parenthesis behind them. -/
def listed (parameters : List (List Char)) : List Char :=
  [','].intercalate parameters ++ [')']

/-- The same after a first parameter. -/
def furtherListed (parameters : List (List Char)) : List Char :=
  parameters.flatMap (',' :: ·) ++ [')']

theorem listed_cons (first : List Char) (others : List (List Char)) :
    listed (first :: others) = first ++ furtherListed others := by
  unfold listed furtherListed
  induction others generalizing first with
  | nil => simp [List.intercalate]
  | cons second others ih =>
      have hstep : [','].intercalate (first :: second :: others)
          = first ++ ',' :: [','].intercalate (second :: others) := by
        simp [List.intercalate]
      rw [hstep, List.append_assoc, List.cons_append, ih]
      simp

/-- How the rest of a header is written, spaces apart, if these are the words
in it. -/
def Expectation.remainder : Expectation → List (List Char) → List Char
  | .name, word :: parameters => word ++ '(' :: listed parameters
  | .name, [] => []
  | .openParen, parameters => '(' :: listed parameters
  | .parameterOrClose, parameters | .parameter, parameters => listed parameters
  | .commaOrClose, parameters => furtherListed parameters

theorem Expectation.remainder_of_parameter {expects : Expectation}
    (h : expects = .parameterOrClose ∨ expects = .parameter) (parameters : List (List Char)) :
    expects.remainder parameters = listed parameters := by
  rcases h with rfl | rfl <;> rfl

theorem Expectation.remainder_of_close {expects : Expectation}
    (h : expects = .parameterOrClose ∨ expects = .commaOrClose) : expects.remainder [] = [')'] := by
  rcases h with rfl | rfl <;> rfl

/-- A header is written as it is expected to be. -/
theorem Fills.compact_eq {h : Header} {ls : List Lexeme} {t : Token} (hfills : Fills h ls t)
    (hls : ∀ l ∈ ls, ∃ offset rest, l.Stands offset rest) :
    compact (charsOf ls) = h.expects.remainder ((words ls).map (·.chars))
      ∧ (h.expects = .parameter → words ls ≠ []) := by
  induction hfills with
  | @inside h l h' ls t hl _ ih =>
      obtain ⟨⟨offset, rest, hstands⟩, hls⟩ := List.forall_mem_cons.1 hls
      obtain ⟨hcompact, hparameter⟩ := ih hls
      rw [Lexeme.charsOf_cons, Lexeme.compact_append, hcompact]
      cases hl with
      | space hl =>
          obtain ⟨c, hc, hspace⟩ := hstands.of_space hl
          have hnone : compact l.chars = [] := by
            rw [hspace]
            exact List.filter_cons_of_neg (by simp [Lexeme.ofSpace, hc])
          rw [Lexeme.words_cons_of_ne (by rcases hl with hl | hl <;> simp [hl]), hnone]
          exact ⟨rfl, hparameter⟩
      | name hl hh =>
          rw [Lexeme.words_cons_of_eq hl, Lexeme.compact_of_letters (hstands.of_word hl).1, hh]
          exact ⟨rfl, nofun⟩
      | opening hl hh =>
          rw [Lexeme.words_cons_of_ne (by simp [hl]), hh,
            hstands.chars_eq (congrArg _ hl) rfl]
          exact ⟨rfl, nofun⟩
      | parameter hl hh =>
          rw [Lexeme.words_cons_of_eq hl, Lexeme.compact_of_letters (hstands.of_word hl).1,
            Expectation.remainder_of_parameter hh, List.map_cons, listed_cons]
          exact ⟨rfl, fun _ => List.cons_ne_nil _ _⟩
      | comma hl hh =>
          obtain ⟨first, others, hwords⟩ := List.exists_cons_of_ne_nil (hparameter rfl)
          rw [Lexeme.words_cons_of_ne (by simp [hl]), hh,
            hstands.chars_eq (congrArg _ hl) rfl, hwords, List.map_cons]
          refine ⟨?_, nofun⟩
          show ',' :: listed (first.chars :: _) = furtherListed (first.chars :: _)
          rw [listed_cons]
          simp [furtherListed]
  | @closing h l hl =>
      obtain ⟨offset, rest, hstands⟩ := hls l List.mem_cons_self
      rw [Lexeme.words_cons_of_ne (by simp [hl.kind]), Lexeme.charsOf_cons, Lexeme.charsOf_nil,
        List.append_nil, hstands.chars_eq (congrArg _ hl.kind) rfl]
      refine ⟨(Expectation.remainder_of_close hl.expects).symm, fun hparameter => ?_⟩
      exact absurd hl.expects (by simp [hparameter])

end Scan

-- ============================================================= other spaces

namespace Lexeme

/-- The same text, except that spaces may be others. -/
def Respaced : List Char → List Char → Prop :=
  List.Forall₂ fun c d => c = d ∨ (isSpace c = true ∧ isSpace d = true)

/-- The same lexeme, or a space in the place of a space. -/
inductive Replaces : Lexeme → Lexeme → Prop
  | same {l} : Replaces l l
  | space {c d offset} (hc : isSpace c = true) (hd : isSpace d = true) :
      Replaces (ofSpace c offset) (ofSpace d offset)

section Respaced

variable {cs ds : List Char}

theorem startsWith_respaced {p : Char → Bool} (hp : ∀ c, isSpace c = true → p c = false)
    (h : Respaced cs ds) (hcs : startsWith p cs = false) : startsWith p ds = false := by
  cases h with
  | nil => rfl
  | cons hcd =>
      rcases hcd with rfl | ⟨-, hd⟩
      · exact hcs
      · exact hp _ hd

theorem pointAhead_respaced (h : Respaced cs ds) (hcs : pointAhead cs = false) :
    pointAhead ds = false := by
  cases h with
  | nil => rfl
  | @cons c d cs ds hcd hrest =>
      by_cases hd : d = '.'
      · subst hd
        have hc : c = '.' := hcd.resolve_right fun hspaces => absurd hspaces.2 (by decide)
        subst hc
        exact startsWith_respaced (fun c => isDigit_of_isSpace) hrest hcs
      · simp [pointAhead, hd]

/-- No lexeme goes on with a space, so it does not matter which spaces follow
it. -/
theorem Cuts.respaced {c : Char} {kind : Kind} {tail : List Char} (h : Cuts c kind tail cs)
    (hrest : Respaced cs ds) : Cuts c kind tail ds := by
  have hstops := startsWith_respaced (fun c => isWordOrDigit_of_isSpace) hrest
  cases h with
  | word hc htail hcs => exact .word hc htail (hstops hcs)
  | wordIntoNumber hc hword hd hmore hcs => exact .wordIntoNumber hc hword hd hmore (hstops hcs)
  | number hc hwhole hfraction hcs hpoint =>
      exact .number hc hwhole hfraction (hstops hcs)
        fun hnil => pointAhead_respaced hrest (hpoint hnil)
  | numberIntoWord hc hwhole hfraction hletter =>
      exact .numberIntoWord hc hwhole hfraction hletter
  | quoted hc hcontent => exact .quoted hc hcontent
  | unterminated hc hcontent =>
      cases hrest
      exact .unterminated hc hcontent
  | symbol hc hquote => exact .symbol hc hquote

theorem Replaces.respaced {l l' : Lexeme} (h : Replaces l l') : Respaced l.chars l'.chars := by
  cases h with
  | same => exact List.forall₂_same.2 fun c _ => .inl rfl
  | space hc hd => exact .cons (.inr ⟨hc, hd⟩) .nil

theorem respaced_charsOf {ls ls' : List Lexeme} (h : List.Forall₂ Replaces ls ls') :
    Respaced (charsOf ls) (charsOf ls') :=
  List.rel_flatMap h fun _ _ => Replaces.respaced

/-- Other spaces at the same places make no other lexemes. -/
theorem splitFrom_replaced {ls ls' : List Lexeme} (h : List.Forall₂ Replaces ls ls') {offset : Nat}
    (hsplit : splitFrom [] offset cs = ls) : splitFrom [] offset (charsOf ls') = ls' := by
  induction h generalizing offset cs with
  | nil => rw [charsOf_nil, splitFrom, List.reverse_nil]
  | @cons l l' ls ls' hl hls ih =>
      obtain ⟨rest, hstands, -, hrest⟩ := stands_of_splitFrom hsplit
      have hafter := respaced_charsOf hls
      rw [charsOf_splitFrom hrest] at hafter
      rw [charsOf_cons]
      cases hl with
      | same =>
          rw [splitFrom_of_stands ⟨hstands.cuts.respaced hafter, hstands.span⟩, ih hrest]
      | @space c d offset' hc hd =>
          have hbytes : Text.byteLength (ofSpace d offset').chars
              = Text.byteLength (ofSpace c offset').chars :=
            (cut_of_isSpace hd []).2.trans (cut_of_isSpace hc []).2.symm
          have hquote : ¬(d = '"' ∨ d = '\'') := by
            rintro (rfl | rfl) <;> cases hd
          have hstands' : (ofSpace d offset').Stands offset (charsOf ls') := by
            refine ⟨.symbol (isWordOrDigit_of_isSpace hd) hquote, ?_⟩
            rw [hbytes]
            exact hstands.span
          rw [splitFrom_of_stands hstands', hbytes, ih hrest]

/-- Characters that are no spaces stay as they are. -/
theorem Respaced.of_append {word : List Char} (h : Respaced (word ++ cs) ds)
    (hword : ∀ c ∈ word, isSpace c = false) : ∃ es, ds = word ++ es ∧ Respaced cs es := by
  induction word generalizing ds with
  | nil => exact ⟨ds, rfl, h⟩
  | cons c word ih =>
      obtain ⟨hc, hword⟩ := List.forall_mem_cons.1 hword
      cases h with
      | cons hcd hrest =>
          have hsame := hcd.resolve_right fun hspaces => by
            rw [hc] at hspaces
            cases hspaces.1
          subst hsame
          obtain ⟨es, rfl, hes⟩ := ih hrest hword
          exact ⟨es, rfl, hes⟩

/-- The lexeme is a space, or there is none in it. -/
def Unmixed (l : Lexeme) : Prop :=
  (∃ c offset, isSpace c = true ∧ l = ofSpace c offset) ∨ ∀ c ∈ l.chars, isSpace c = false

/-- Other spaces in a text without quoted ones are in the place of lexemes. -/
theorem exists_replaced {ls : List Lexeme} (hls : ∀ l ∈ ls, l.Unmixed)
    (h : Respaced (charsOf ls) cs) : ∃ ls', List.Forall₂ Replaces ls ls' ∧ charsOf ls' = cs := by
  induction ls generalizing cs with
  | nil =>
      cases h
      exact ⟨[], .nil, rfl⟩
  | cons l ls ih =>
      obtain ⟨hl, hmore⟩ := List.forall_mem_cons.1 hls
      rw [charsOf_cons] at h
      rcases hl with ⟨c, offset, hc, rfl⟩ | hplain
      · cases h with
        | @cons _ d _ ds hcd hrest =>
            obtain ⟨ls', hreplaced, rfl⟩ := ih hmore hrest
            have hd : isSpace d = true := hcd.elim (fun hsame => hsame ▸ hc) (·.2)
            exact ⟨ofSpace d offset :: ls', .cons (.space hc hd) hreplaced, rfl⟩
      · obtain ⟨es, rfl, hes⟩ := h.of_append hplain
        obtain ⟨ls', hreplaced, rfl⟩ := ih hmore hes
        exact ⟨l :: ls', .cons .same hreplaced, charsOf_cons l ls'⟩

theorem Replaces.eq_of_kind {l l' : Lexeme} (h : Replaces l l')
    (hkind : ¬(l.kind = .blank ∨ l.kind = .newLine)) : l' = l := by
  cases h with
  | same => rfl
  | space hc => exact absurd (ofSymbol_isSpace_iff.2 hc) hkind

end Respaced

end Lexeme

namespace Scan

open Lexeme (Replaces charsOf)

/-- A header does not have quoted texts, in which spaces would be part of a
lexeme. -/
theorem Fills.unmixed {h : Header} {ls : List Lexeme} {t : Token} (hfills : Fills h ls t)
    (hls : ∀ l ∈ ls, ∃ offset rest, l.Stands offset rest) : ∀ l ∈ ls, l.Unmixed := by
  induction hfills with
  | @inside h l h' ls t hl _ ih =>
      obtain ⟨⟨offset, rest, hstands⟩, hls⟩ := List.forall_mem_cons.1 hls
      refine List.forall_mem_cons.2 ⟨?_, ih hls⟩
      cases hl with
      | space hl =>
          obtain ⟨c, hc, hspace⟩ := hstands.of_space hl
          exact .inl ⟨c, offset, hc, hspace⟩
      | name hl | parameter hl =>
          exact .inr fun c hc => Lexeme.isSpace_of_isWordChar ((hstands.of_word hl).1 c hc)
      | opening hl | comma hl =>
          right
          rw [hstands.chars_eq (congrArg _ hl) rfl]
          exact Lexeme.compact_eq_self_iff.1 rfl
  | @closing h l hl =>
      obtain ⟨offset, rest, hstands⟩ := hls l List.mem_cons_self
      refine List.forall_mem_singleton.2 (.inr ?_)
      rw [hstands.chars_eq (congrArg _ hl.kind) rfl]
      exact Lexeme.compact_eq_self_iff.1 rfl

theorem Passes.replaced {h h' : Header} {l l' : Lexeme} (hpasses : Passes h l h')
    (hl : Replaces l l') (text : String) :
    Passes { h with text } l' { h' with text := text ++ l'.text } := by
  cases hpasses with
  | space hspace =>
      refine .space ?_
      cases hl with
      | same => exact hspace
      | space _ hd => exact Lexeme.ofSymbol_isSpace_iff.2 hd
  | name hkind hh =>
      rw [hl.eq_of_kind (by simp [hkind])]
      exact .name hkind hh
  | opening hkind hh =>
      rw [hl.eq_of_kind (by simp [hkind])]
      exact .opening hkind hh
  | parameter hkind hh =>
      rw [hl.eq_of_kind (by simp [hkind])]
      exact .parameter hkind hh
  | comma hkind hh =>
      rw [hl.eq_of_kind (by simp [hkind])]
      exact .comma hkind hh

/-- A header with other spaces is the same but for its text. -/
theorem Fills.replaced {h : Header} {ls ls' : List Lexeme} {t : Token} (hfills : Fills h ls t)
    (hls : List.Forall₂ Replaces ls ls') (text : String) :
    Fills { h with text } ls' { t with text := text ++ String.ofList (charsOf ls') } := by
  induction hfills generalizing ls' text with
  | @inside h l h' ls t hl _ ih =>
      cases hls with
      | @cons _ l' _ ls' hreplaces hls =>
          have hrest := ih hls (text ++ l'.text)
          rw [String.append_assoc, Lexeme.text, ← String.ofList_append] at hrest
          rw [Lexeme.charsOf_cons]
          exact .inside (hl.replaced hreplaces text) hrest
  | @closing h l hl =>
      cases hls with
      | cons hreplaces hnil =>
          cases hnil
          rw [hreplaces.eq_of_kind (by simp [hl.kind]), Lexeme.charsOf_cons, Lexeme.charsOf_nil,
            List.append_nil]
          exact .closing ⟨hl.kind, hl.expects⟩

end Scan

-- ================================================================= headers

/-- The attribute is a name that the source has where the attribute says. -/
structure Token.Attribute.Quotes (source : String) (a : Token.Attribute) : Prop where
  slice : Text.slice? source a.span = some a.value
  nonempty : a.value ≠ ""
  letters : ∀ c ∈ a.value.toList, Lexeme.isWordChar c = true
  free : a.value ∉ Stretch.keywords

section Source

variable {source : String} {before after inner : List Lexeme} {l : Lexeme}

theorem quotes_of_word (h : Lexeme.split source.toList = before ++ l :: after)
    (hl : l.kind = .word) (key : Token.Key) : (l.asAttribute key).Quotes source := by
  have hstands := Lexeme.stands_of_mem_splitFrom h
  have hchars := Lexeme.charsOf_splitFrom h
  obtain ⟨hletters, hfree⟩ := hstands.of_word hl
  have htext := l.toList_text
  rw [Lexeme.charsOf_append, Lexeme.charsOf_cons] at hchars
  refine ⟨?_, fun hempty => ?_, ?_, hfree⟩
  · have hspan := hstands.span
    rw [Nat.zero_add] at hspan
    exact Text.slice?_of_append hchars.symm hspan
  · have hnone : l.chars = [] := by
      rw [← htext]
      exact congrArg String.toList hempty
    cases hnone
  · show ∀ c ∈ l.text.toList, _
    rwa [htext]

theorem quotes_of_header (h : Lexeme.split source.toList = before ++ (l :: inner ++ after))
    {w : Lexeme} (hw : w ∈ Lexeme.words inner) (key : Token.Key) :
    (w.asAttribute key).Quotes source := by
  obtain ⟨hmem, hword⟩ := List.mem_filter.1 hw
  obtain ⟨init, more, rfl⟩ := List.append_of_mem hmem
  have hsplit : Lexeme.split source.toList = (before ++ l :: init) ++ w :: (more ++ after) := by
    rw [h]
    simp
  exact quotes_of_word hsplit (by simpa using hword) key

/-- The token of a header covers the word `function` and the lexemes that
fill the header. -/
theorem cut?_of_fills (h : Lexeme.split source.toList = before ++ (l :: inner ++ after)) {t : Token}
    (hfills : Scan.Fills (Scan.opened l) inner t) :
    Text.cut? source t.span = some ⟨String.ofList (Lexeme.charsOf before), t.text,
      String.ofList (Lexeme.charsOf after)⟩ := by
  obtain ⟨init, last, rfl, -, hspan⟩ := hfills.ends
  have htext : t.text = String.ofList (Lexeme.charsOf (l :: (init ++ [last]))) := by
    rw [← hfills.toList_text, String.ofList_toList]
  have hstart := (Lexeme.stands_of_mem_splitFrom h).span
  have hlast : Lexeme.split source.toList = (before ++ l :: init) ++ last :: after := by
    rw [h]
    simp
  have hstop := (Lexeme.stands_of_mem_splitFrom hlast).span
  have hsource := Lexeme.charsOf_splitFrom h
  rw [htext]
  refine Text.cut?_eq_some_iff.2 ⟨?_, ?_, ?_⟩
  · rw [← String.toList_inj, ← hsource]
    simp
  · rw [Text.utf8ByteSize_ofList, hspan]
    show _ = l.span.start
    rw [hstart, Nat.zero_add]
  · rw [← String.ofList_append, Text.utf8ByteSize_ofList, hspan]
    show _ = last.span.stop
    rw [hstop, Nat.zero_add, ← Text.byteLength_append]
    simp

/-- The attributes of a header lie inside of it, one after the other. -/
theorem pairwise_of_fills (h : Lexeme.split source.toList = before ++ (l :: inner ++ after))
    {t : Token} (hfills : Scan.Fills (Scan.opened l) inner t) :
    (∀ w ∈ Lexeme.words inner, t.span.start < w.span.start ∧ w.span.stop < t.span.stop)
      ∧ (Lexeme.words inner).Pairwise
          (fun w w' => w.span.start < w'.span.start ∧ w.span.stop ≤ w'.span.start) := by
  obtain ⟨hnonempty, hpairwise⟩ := Lexeme.pairwise_splitFrom h
  obtain ⟨-, hpairwise, -⟩ := List.pairwise_append.1 hpairwise
  obtain ⟨hheader, -, -⟩ := List.pairwise_append.1 hpairwise
  obtain ⟨hopening, hinner⟩ := List.pairwise_cons.1 hheader
  have hpos {w : Lexeme} (hw : w ∈ l :: inner) : w.span.start < w.span.stop :=
    (hnonempty w (by simp only [List.mem_append]; exact .inr (.inl hw))).2
  refine ⟨fun w hw => ?_, ?_⟩
  · obtain ⟨hmem, hword⟩ := List.mem_filter.1 hw
    obtain ⟨init, last, rfl, hlast, hspan⟩ := hfills.ends
    have hstart : t.span.start = l.span.start := by
      rw [hspan]
      rfl
    have hstop : t.span.stop = last.span.stop := by
      rw [hspan]
    have hinit : w ∈ init := by
      rcases List.mem_append.1 hmem with hinit | hw
      · exact hinit
      · rw [List.mem_singleton.1 hw, hlast] at hword
        cases hword
    have hfirst := hopening w hmem
    have hclosing := (List.pairwise_append.1 hinner).2.2 w hinit last List.mem_cons_self
    have hl := hpos List.mem_cons_self
    have hlast := hpos (List.mem_cons_of_mem l (List.mem_append_right init List.mem_cons_self))
    omega
  · refine (hinner.sublist List.filter_sublist).imp_of_mem fun {w w'} hw _ hbefore => ?_
    have hw := hpos (List.mem_cons_of_mem l (List.mem_filter.1 hw).1)
    omega

/-- The lexemes of a header are where they have been cut. -/
theorem stands_of_header (h : Lexeme.split source.toList = before ++ (l :: inner ++ after)) :
    ∀ w ∈ l :: inner, ∃ offset rest, w.Stands offset rest := by
  intro w hw
  obtain ⟨init, more, hheader⟩ := List.append_of_mem hw
  rw [hheader, List.append_assoc, ← List.append_assoc before] at h
  exact ⟨_, _, Lexeme.stands_of_mem_splitFrom h⟩

/-- Spaces apart, a header is written in one way. -/
theorem compact_of_fills (h : Lexeme.split source.toList = before ++ (l :: inner ++ after))
    (hl : l.kind = .function) {t : Token} (hfills : Scan.Fills (Scan.opened l) inner t) :
    Lexeme.compact t.text.toList = "function".toList
      ++ Scan.Expectation.name.remainder ((Lexeme.words inner).map (·.chars)) := by
  obtain ⟨⟨offset, rest, hstands⟩, hinner⟩ := List.forall_mem_cons.1 (stands_of_header h)
  rw [hfills.toList_text, Lexeme.charsOf_cons, Lexeme.compact_append,
    (hfills.compact_eq hinner).1, ← l.toList_text, hstands.of_function hl]
  rfl

/-- With other spaces in a header, its token has another text, and nothing
else becomes different. -/
theorem scan_respaced (h : Lexeme.split source.toList = before ++ (l :: inner ++ after))
    (hl : l.kind = .function) {front back : List Token} {t : Token}
    (hbefore : Scan.Makes none before front) (hfills : Scan.Fills (Scan.opened l) inner t)
    (hafter : Scan.Makes none after back) {marked : String}
    (hmarked : Lexeme.Respaced t.text.toList marked.toList) :
    scan (String.ofList (Lexeme.charsOf before) ++ marked ++ String.ofList (Lexeme.charsOf after))
      = .ok (front ++ { t with text := marked } :: back) := by
  obtain ⟨⟨offset, rest, hstands⟩, hinner⟩ := List.forall_mem_cons.1 (stands_of_header h)
  have hplain : ∀ c ∈ l.chars, Lexeme.isSpace c = false := by
    rw [← l.toList_text, hstands.of_function hl]
    exact Lexeme.compact_eq_self_iff.1 rfl
  -- the word `function` stays, and the spaces behind it are lexemes
  rw [hfills.toList_text, Lexeme.charsOf_cons] at hmarked
  obtain ⟨cs, hcs, hrest⟩ := hmarked.of_append hplain
  obtain ⟨inner', hreplaced, rfl⟩ := Lexeme.exists_replaced (hfills.unmixed hinner) hrest
  have hmarked : marked = l.text ++ String.ofList (Lexeme.charsOf inner') := by
    rw [← String.toList_inj, hcs, String.toList_append, String.toList_ofList, l.toList_text]
  -- cut as before
  have hsame (ls : List Lexeme) : List.Forall₂ Lexeme.Replaces ls ls :=
    List.forall₂_same.2 fun _ _ => .same
  have hsplit := Lexeme.splitFrom_replaced
    (List.rel_append (hsame before) (List.rel_append (.cons .same hreplaced) (hsame after))) h
  rw [scan_eq_ok_iff]
  have hchars : (String.ofList (Lexeme.charsOf before) ++ marked
      ++ String.ofList (Lexeme.charsOf after)).toList
        = Lexeme.charsOf (before ++ (l :: inner' ++ after)) := by
    simp [hcs]
  rw [hchars, Lexeme.split, hsplit, hmarked]
  have hfilled := (hfills.replaced hreplaced l.text).makes
  exact hbefore.append (.opening hl (hfilled.append hafter))

end Source

/-- The token of a function header describes the header faithfully. Its
attributes are a name and parameters, and spaces apart the header consists of
these and nothing else. They are names that stand inside of the header, one
after the other, each where its span says. With other spaces in the place of
those in the header, nothing changes but the text of the token. -/
theorem header_tokens_are_faithful {source : String} {front back : List Token} {t : Token}
    (h : scan source = .ok (front ++ t :: back)) (ht : t.kind = .functionDeclaration) :
    (∃ name parameters, t.attributes = name :: parameters ∧ name.key = .name
      ∧ (∀ p ∈ parameters, p.key = .parameter)
      ∧ Lexeme.compact t.text.toList = ("function" ++ name.value ++ "("
          ++ ",".intercalate (parameters.map (·.value)) ++ ")").toList)
    ∧ (∀ a ∈ t.attributes, a.Quotes source ∧ t.span.start < a.span.start
      ∧ a.span.stop < t.span.stop)
    ∧ t.attributes.Pairwise
        (fun a b => a.span.start < b.span.start ∧ a.span.stop ≤ b.span.start)
    ∧ ∃ c, Text.cut? source t.span = some c ∧ ∀ marked,
        Lexeme.Respaced c.marked.toList marked.toList →
          scan (c.before ++ marked ++ c.after)
            = .ok (front ++ { t with text := marked } :: back) := by
  obtain ⟨before, l, inner, after, hsplit, hl, hbefore, hfills, hafter⟩ :=
    (scan_eq_ok_iff.1 h).at_header ht
  obtain ⟨name, parameters, hwords, hattributes⟩ := hfills.attributes.1 rfl
  have hattributes : t.attributes
      = name.asAttribute .name :: parameters.map (·.asAttribute .parameter) := hattributes
  obtain ⟨hinside, hpairwise⟩ := pairwise_of_fills hsplit hfills
  refine ⟨⟨_, _, hattributes, rfl, ?_, ?_⟩, ?_, ?_, ?_⟩
  · intro p hp
    obtain ⟨w, -, rfl⟩ := List.mem_map.1 hp
    rfl
  · rw [compact_of_fills hsplit hl hfills, hwords]
    simp [Scan.Expectation.remainder, Scan.listed, Lexeme.asAttribute, Lexeme.text,
      String.toList_intercalate, Function.comp_def]
  · have hword {w : Lexeme} (hw : w ∈ Lexeme.words inner) (key : Token.Key) :
        (w.asAttribute key).Quotes source ∧ t.span.start < w.span.start
          ∧ w.span.stop < t.span.stop :=
      ⟨quotes_of_header hsplit hw key, hinside w hw⟩
    rw [hattributes]
    refine List.forall_mem_cons.2 ⟨hword (hwords ▸ List.mem_cons_self) .name, fun a ha => ?_⟩
    obtain ⟨w, hw, rfl⟩ := List.mem_map.1 ha
    exact hword (hwords ▸ List.mem_cons_of_mem name hw) .parameter
  · rw [hwords] at hpairwise
    obtain ⟨hname, hparameters⟩ := List.pairwise_cons.1 hpairwise
    rw [hattributes]
    exact List.pairwise_cons.2 ⟨List.forall_mem_map.2 hname, List.pairwise_map.2 hparameters⟩
  · exact ⟨_, cut?_of_fills hsplit hfills, fun marked hmarked =>
      scan_respaced hsplit hl hbefore hfills hafter hmarked⟩

/-- A header over two lines, and the same on one line. -/
theorem header_tokens_are_faithful_two_lines :
    let source := "x function f(a,\n b)\t'é'"
    let header : Token := ⟨.functionDeclaration, "function f(a,\n b)", ⟨2, 19⟩,
      [⟨.name, "f", ⟨11, 12⟩⟩, ⟨.parameter, "a", ⟨13, 14⟩⟩, ⟨.parameter, "b", ⟨17, 18⟩⟩]⟩
    let front : List Token := [⟨.identifier, "x", ⟨0, 1⟩, []⟩]
    let back : List Token := [⟨.string, "é", ⟨20, 24⟩, []⟩]
    scan source = .ok (front ++ header :: back)
      ∧ (∀ a ∈ header.attributes, a.Quotes source)
      ∧ scan "x function\tf(a,  b)\t'é'"
          = .ok (front ++ { header with text := "function\tf(a,  b)" } :: back) := by
  intro source header front back
  have h : scan source = .ok (front ++ header :: back) := by decide +kernel
  obtain ⟨-, hquotes, -, c, hcut, hrespaced⟩ := header_tokens_are_faithful h rfl
  have hparts : Text.cut? source header.span = some ⟨"x ", header.text, "\t'é'"⟩ :=
    Text.cut?_eq_some_iff.2 ⟨rfl, rfl, rfl⟩
  cases hcut.symm.trans hparts
  refine ⟨h, fun a ha => (hquotes a ha).1, hrespaced "function\tf(a,  b)" ?_⟩
  unfold Lexeme.Respaced
  decide

end ScopedScript
