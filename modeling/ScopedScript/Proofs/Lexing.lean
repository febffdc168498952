/-
Lexemes, described by what they are and by what follows them.

`Lexeme.cut` says how the next lexeme is cut off a text: it goes on as long
as it can. `Cuts` says the same without going through the text. A word is
made of letters and no letter or digit follows it, a number is made of
digits and nothing follows that would make it longer, and so on. There is
one rule for each way in which a lexeme can end, and `cuts_cut` and
`Cuts.cut_eq` show that these are the ways in which `cut` ends.

# Truncation

What follows a lexeme matters only in so far as it must not make the lexeme
longer, and less text makes nothing longer (`Cuts.truncate`). So the
lexemes from one place of a text to another are the lexemes of the text
between the two places (`splitFrom_middle`).
-/
import ScopedScript.Proofs.Slices

namespace ScopedScript.Lexeme

-- ============================================================== characters

theorem isDigit_of_isWordChar {c : Char} (h : isWordChar c = true) : c.isDigit = false := by
  unfold isWordChar at h
  delta Char.isAlpha Char.isUpper Char.isLower at h
  simp only [Bool.or_eq_true, Bool.and_eq_true, decide_eq_true_eq, beq_iff_eq] at h
  simp only [Char.isDigit, Bool.and_eq_false_iff, decide_eq_false_iff_not]
  rcases h with (⟨h, -⟩ | ⟨h, -⟩) | rfl
  · right
    intro hle
    exact absurd (UInt32.le_trans h hle) (by decide)
  · right
    intro hle
    exact absurd (UInt32.le_trans h hle) (by decide)
  · decide

theorem isWordOrDigit_of_isWordChar {c : Char} (h : isWordChar c = true) :
    isWordOrDigit c = true := by
  rw [isWordOrDigit, h]
  rfl

theorem isWordOrDigit_of_isDigit {c : Char} (h : c.isDigit = true) : isWordOrDigit c = true := by
  rw [isWordOrDigit, h, Bool.or_true]

/-- A character that is neither a letter nor a digit. -/
theorem isWordOrDigit_eq_false {c : Char} :
    isWordOrDigit c = false ↔ isWordChar c = false ∧ c.isDigit = false :=
  Bool.or_eq_false_iff

-- =================================================== what a text starts with

section StartsWith

variable {p : Char → Bool} {cs : List Char}

theorem startsWith_dropWhile (p : Char → Bool) (cs : List Char) :
    startsWith p (cs.dropWhile p) = false := by
  induction cs with
  | nil => rfl
  | cons c cs ih =>
      by_cases hc : p c = true
      · rw [List.dropWhile_cons_of_pos hc]
        exact ih
      · rw [List.dropWhile_cons_of_neg hc]
        simpa [startsWith] using hc

/-- Less text starts with no more. -/
theorem startsWith_truncate {more : List Char} (h : startsWith p (cs ++ more) = false) :
    startsWith p cs = false := by
  cases cs with
  | nil => rfl
  | cons c cs => exact h

theorem startsWith_mono {q : Char → Bool} (hpq : ∀ c, p c = true → q c = true)
    (h : startsWith q cs = false) : startsWith p cs = false := by
  cases cs with
  | nil => rfl
  | cons c cs =>
      have hc : q c = false := h
      show p c = false
      by_cases hp : p c = true
      · rw [hpq c hp] at hc
        cases hc
      · simpa using hp

/-- Characters of a class are taken up to the first character that is not of
the class. -/
theorem takeWhile_of_startsWith {word : List Char} (hword : ∀ c ∈ word, p c = true)
    (hrest : startsWith p cs = false) : (word ++ cs).takeWhile p = word := by
  rw [List.takeWhile_append_of_pos hword]
  cases cs with
  | nil => simp
  | cons c cs =>
      rw [List.takeWhile_cons_of_neg (by simpa [startsWith] using hrest), List.append_nil]

theorem dropWhile_of_startsWith {word : List Char} (hword : ∀ c ∈ word, p c = true)
    (hrest : startsWith p cs = false) : (word ++ cs).dropWhile p = cs := by
  rw [List.dropWhile_append_of_pos hword]
  cases cs with
  | nil => rfl
  | cons c cs => exact List.dropWhile_cons_of_neg (by simpa [startsWith] using hrest)

theorem mem_takeWhile {c : Char} (h : c ∈ cs.takeWhile p) : p c = true :=
  List.all_eq_true.1 List.all_takeWhile c h

end StartsWith

/-- A text starts with a point and a digit, so that a number before it would
go on. -/
def pointAhead : List Char → Bool
  | '.' :: cs => startsWith Char.isDigit cs
  | _ => false

theorem pointAhead_truncate {cs more : List Char} (h : pointAhead (cs ++ more) = false) :
    pointAhead cs = false := by
  cases cs with
  | nil => rfl
  | cons c cs =>
      by_cases hc : c = '.'
      · subst hc
        exact startsWith_truncate h
      · simp [pointAhead, hc]

-- ==================================================================== words

/-- A word is of one of these kinds. -/
theorem ofWord_mem (word : List Char) :
    Kind.ofWord word ∈ [Kind.ret, .var, .function, .boolean, .word] := by
  unfold Kind.ofWord
  split <;> decide

theorem ofWord_ne {kind : Kind} (hkind : kind ∉ [Kind.ret, .var, .function, .boolean, .word])
    (word : List Char) : Kind.ofWord word ≠ kind := by
  rintro rfl
  exact hkind (ofWord_mem word)

-- ================================================================== lexemes

/-- What a number may have after its whole part: nothing, or a point and
digits. -/
inductive Fraction : List Char → Prop
  | none : Fraction []
  | digits {d : Char} {ds : List Char} (h : ∀ e ∈ d :: ds, e.isDigit = true) :
      Fraction ('.' :: d :: ds)

/-- A text that starts with `c` is cut into a lexeme of a kind, with `tail`
after its first character, and a rest. -/
inductive Cuts (c : Char) : Kind → (tail rest : List Char) → Prop
  | word {tail rest} (hc : isWordChar c = true) (htail : ∀ d ∈ tail, isWordChar d = true)
      (hrest : startsWith isWordOrDigit rest = false) :
      Cuts c (.ofWord (c :: tail)) tail rest
  | wordIntoNumber {word d more rest} (hc : isWordChar c = true)
      (hword : ∀ e ∈ word, isWordChar e = true) (hd : d.isDigit = true)
      (hmore : ∀ e ∈ more, isWordOrDigit e = true)
      (hrest : startsWith isWordOrDigit rest = false) :
      Cuts c .wordIntoNumber (word ++ d :: more) rest
  | number {whole fraction rest} (hc : c.isDigit = true) (hwhole : ∀ d ∈ whole, d.isDigit = true)
      (hfraction : Fraction fraction) (hrest : startsWith isWordOrDigit rest = false)
      (hpoint : fraction = [] → pointAhead rest = false) :
      Cuts c .number (whole ++ fraction) rest
  | numberIntoWord {whole fraction letter rest} (hc : c.isDigit = true)
      (hwhole : ∀ d ∈ whole, d.isDigit = true) (hfraction : Fraction fraction)
      (hletter : isWordChar letter = true) :
      Cuts c .numberIntoWord (whole ++ fraction ++ [letter]) rest
  | quoted {content rest} (hc : c = '"' ∨ c = '\'') (hcontent : c ∉ content) :
      Cuts c .quoted (content ++ [c]) rest
  | unterminated {content} (hc : c = '"' ∨ c = '\'') (hcontent : c ∉ content) :
      Cuts c .unterminated content []
  | symbol {rest} (hc : isWordOrDigit c = false) (hquote : ¬(c = '"' ∨ c = '\'')) :
      Cuts c (.ofSymbol c) [] rest

/-- The rest of a text plays no role except for what it starts with, so
there may be less of it. -/
theorem Cuts.truncate {c : Char} {kind : Kind} {tail rest more : List Char}
    (h : Cuts c kind tail (rest ++ more)) : Cuts c kind tail rest := by
  generalize hwhole : rest ++ more = whole at h
  cases h with
  | word hc htail hrest =>
      subst hwhole
      exact .word hc htail (startsWith_truncate hrest)
  | wordIntoNumber hc hword hd hmore hrest =>
      subst hwhole
      exact .wordIntoNumber hc hword hd hmore (startsWith_truncate hrest)
  | number hc hwhole' hfraction hrest hpoint =>
      subst hwhole
      exact .number hc hwhole' hfraction (startsWith_truncate hrest)
        fun hnil => pointAhead_truncate (hpoint hnil)
  | numberIntoWord hc hwhole' hfraction hletter =>
      exact .numberIntoWord hc hwhole' hfraction hletter
  | quoted hc hcontent => exact .quoted hc hcontent
  | unterminated hc hcontent =>
      obtain ⟨rfl, -⟩ := List.append_eq_nil_iff.1 hwhole
      exact .unterminated hc hcontent
  | symbol hc hquote => exact .symbol hc hquote

-- -------------------------------------------------- cutting gives a lexeme

section Cut

variable (c : Char) (cs : List Char)

theorem cuts_cutWord (hc : isWordChar c = true) :
    Cuts c (cutWord c cs).kind (cutWord c cs).tail (cutWord c cs).rest := by
  have hword : ∀ e ∈ cs.takeWhile isWordChar, isWordChar e = true := fun e => mem_takeWhile
  have hstops := startsWith_dropWhile isWordChar cs
  simp only [cutWord]
  generalize cs.dropWhile isWordChar = rest at hstops ⊢
  by_cases hdigit : startsWith Char.isDigit rest = true
  · rw [if_pos hdigit]
    cases rest with
    | nil => cases hdigit
    | cons d ds =>
        have hd : d.isDigit = true := hdigit
        have hmore : ∀ e ∈ ds.takeWhile isWordOrDigit, isWordOrDigit e = true :=
          fun e => mem_takeWhile
        simp only [List.takeWhile_cons_of_pos (isWordOrDigit_of_isDigit hd),
          List.dropWhile_cons_of_pos (isWordOrDigit_of_isDigit hd)]
        exact .wordIntoNumber hc hword hd hmore (startsWith_dropWhile isWordOrDigit ds)
  · rw [if_neg hdigit]
    refine .word hc hword ?_
    cases rest with
    | nil => rfl
    | cons d ds => exact isWordOrDigit_eq_false.2 ⟨hstops, by simpa [startsWith] using hdigit⟩

/-- A fraction is cut off a text where there is one. -/
theorem fraction_cutFraction (hstops : startsWith Char.isDigit cs = false) :
    Fraction (cutFraction cs).1 ∧ startsWith Char.isDigit (cutFraction cs).2 = false
      ∧ ((cutFraction cs).1 = [] → pointAhead (cutFraction cs).2 = false) := by
  unfold cutFraction
  split
  · next rest =>
    by_cases hdigit : startsWith Char.isDigit rest = true
    · rw [if_pos hdigit]
      cases rest with
      | nil => cases hdigit
      | cons d ds =>
          have hd : d.isDigit = true := hdigit
          simp only [List.takeWhile_cons_of_pos hd, List.dropWhile_cons_of_pos hd]
          refine ⟨.digits (List.forall_mem_cons.2 ⟨hd, fun e => mem_takeWhile⟩), ?_, ?_⟩
          · exact startsWith_dropWhile Char.isDigit ds
          · intro h
            cases h
    · rw [if_neg hdigit]
      exact ⟨.none, hstops, fun _ => by simpa [pointAhead] using hdigit⟩
  · next hpoint =>
    refine ⟨.none, hstops, fun _ => ?_⟩
    cases cs with
    | nil => rfl
    | cons d ds =>
        simp [pointAhead]

theorem cuts_cutNumber (hc : c.isDigit = true) :
    Cuts c (cutNumber cs).kind (cutNumber cs).tail (cutNumber cs).rest := by
  have hwhole : ∀ e ∈ cs.takeWhile Char.isDigit, e.isDigit = true := fun e => mem_takeWhile
  obtain ⟨hfraction, hstops, hpoint⟩ :=
    fraction_cutFraction _ (startsWith_dropWhile Char.isDigit cs)
  simp only [cutNumber]
  generalize cutFraction (cs.dropWhile Char.isDigit) = cut at hfraction hstops hpoint ⊢
  obtain ⟨fraction, rest⟩ := cut
  by_cases hletter : startsWith isWordChar rest = true
  · rw [if_pos hletter]
    cases rest with
    | nil => cases hletter
    | cons letter rest => exact .numberIntoWord hc hwhole hfraction hletter
  · rw [if_neg hletter]
    refine .number hc hwhole hfraction ?_ hpoint
    cases rest with
    | nil => rfl
    | cons d ds => exact isWordOrDigit_eq_false.2 ⟨by simpa [startsWith] using hletter, hstops⟩

theorem cuts_cutQuoted (hc : c = '"' ∨ c = '\'') :
    Cuts c (cutQuoted c cs).kind (cutQuoted c cs).tail (cutQuoted c cs).rest := by
  have hcontent : c ∉ cs.takeWhile (· != c) := by
    intro hmem
    have := mem_takeWhile hmem
    simp at this
  have hstops := startsWith_dropWhile (· != c) cs
  have happend := List.takeWhile_append_dropWhile (p := (· != c)) (l := cs)
  unfold cutQuoted
  cases hdrop : cs.dropWhile (· != c) with
  | nil =>
      rw [hdrop, List.append_nil] at happend
      rw [happend] at hcontent
      exact .unterminated hc hcontent
  | cons close rest =>
      rw [hdrop] at hstops
      have hclose : close = c := by simpa [startsWith] using hstops
      subst hclose
      exact .quoted hc hcontent

/-- What is cut off a text is a lexeme. -/
theorem cuts_cut : Cuts c (cut c cs).kind (cut c cs).tail (cut c cs).rest := by
  unfold cut
  by_cases hword : isWordChar c = true
  · rw [if_pos hword]
    exact cuts_cutWord c cs hword
  · by_cases hdigit : c.isDigit = true
    · rw [if_neg hword, if_pos hdigit]
      exact cuts_cutNumber c cs hdigit
    · by_cases hquote : c = '"' ∨ c = '\''
      · rw [if_neg hword, if_neg hdigit, if_pos (by simpa using hquote)]
        exact cuts_cutQuoted c cs hquote
      · rw [if_neg hword, if_neg hdigit, if_neg (by simpa using hquote)]
        refine .symbol (isWordOrDigit_eq_false.2 ⟨?_, ?_⟩) hquote
        · simpa using hword
        · simpa using hdigit

/-- Every text begins with a lexeme. -/
theorem exists_cuts :
    ∃ kind tail rest, tail ++ rest = cs ∧ Cuts c kind tail rest :=
  ⟨_, _, _, cut_append c cs, cuts_cut c cs⟩

end Cut

-- ------------------------------------------------------ a lexeme is cut off

theorem cutFraction_of_fraction {fraction rest : List Char} (h : Fraction fraction)
    (hstops : startsWith Char.isDigit rest = false)
    (hpoint : fraction = [] → pointAhead rest = false) :
    cutFraction (fraction ++ rest) = (fraction, rest) := by
  cases h with
  | none =>
      have hpoint := hpoint rfl
      unfold cutFraction
      rw [List.nil_append]
      split
      · next rest => rw [if_neg (by simpa [pointAhead] using hpoint)]
      · rfl
  | @digits d ds hdigits =>
      have hd : d.isDigit = true := hdigits d List.mem_cons_self
      have htake := takeWhile_of_startsWith hdigits hstops
      have hdrop := dropWhile_of_startsWith hdigits hstops
      rw [List.cons_append] at htake hdrop
      simp only [List.cons_append, cutFraction]
      rw [if_pos (show startsWith Char.isDigit (d :: (ds ++ rest)) = true from hd), htake, hdrop]

theorem Fraction.startsWith {fraction rest : List Char} (h : Fraction fraction)
    (hrest : Lexeme.startsWith Char.isDigit rest = false) :
    Lexeme.startsWith Char.isDigit (fraction ++ rest) = false := by
  cases h with
  | none => exact hrest
  | digits => rfl

/-- A quote is no letter and no digit. -/
theorem not_wordOrDigit_of_quote {c : Char} (hc : c = '"' ∨ c = '\'') :
    isWordChar c = false ∧ c.isDigit = false := by
  rcases hc with rfl | rfl <;> decide

/-- A lexeme is what is cut off the text that it starts. -/
theorem Cuts.cut_eq {c : Char} {kind : Kind} {tail rest : List Char} (h : Cuts c kind tail rest) :
    cut c (tail ++ rest) = ⟨kind, tail, rest⟩ := by
  unfold cut
  cases h with
  | word hc htail hrest =>
      have hword := startsWith_mono (fun d => isWordOrDigit_of_isWordChar) hrest
      have hdigit := startsWith_mono (fun d => isWordOrDigit_of_isDigit) hrest
      simp only [if_pos hc, cutWord, takeWhile_of_startsWith htail hword,
        dropWhile_of_startsWith htail hword]
      rw [if_neg (by simp [hdigit])]
  | @wordIntoNumber word d more rest hc hword hd hmore hrest =>
      have hstops : Lexeme.startsWith isWordChar (d :: (more ++ rest)) = false := by
        show isWordChar d = false
        by_cases hd' : isWordChar d = true
        · rw [isDigit_of_isWordChar hd'] at hd
          cases hd
        · simpa using hd'
      have hall : ∀ e ∈ d :: more, isWordOrDigit e = true :=
        List.forall_mem_cons.2 ⟨isWordOrDigit_of_isDigit hd, hmore⟩
      have htake := takeWhile_of_startsWith hall hrest
      have hdrop := dropWhile_of_startsWith hall hrest
      rw [List.cons_append] at htake hdrop
      simp only [if_pos hc, cutWord, List.append_assoc, List.cons_append,
        takeWhile_of_startsWith hword hstops, dropWhile_of_startsWith hword hstops]
      rw [if_pos (show Lexeme.startsWith Char.isDigit (d :: (more ++ rest)) = true from hd),
        htake, hdrop]
  | number hc hwhole hfraction hrest hpoint =>
      have hword : ¬isWordChar c = true := fun h => by
        rw [isDigit_of_isWordChar h] at hc
        cases hc
      have hletter := startsWith_mono (fun d => isWordOrDigit_of_isWordChar) hrest
      have hdigit := startsWith_mono (fun d => isWordOrDigit_of_isDigit) hrest
      have hstops := hfraction.startsWith hdigit
      simp only [if_neg hword, if_pos hc, cutNumber, List.append_assoc,
        takeWhile_of_startsWith hwhole hstops, dropWhile_of_startsWith hwhole hstops,
        cutFraction_of_fraction hfraction hdigit hpoint]
      rw [if_neg (by simp [hletter])]
  | @numberIntoWord whole fraction letter rest hc hwhole hfraction hletter =>
      have hword : ¬isWordChar c = true := fun h => by
        rw [isDigit_of_isWordChar h] at hc
        cases hc
      have hdigit : Lexeme.startsWith Char.isDigit (letter :: rest) = false :=
        isDigit_of_isWordChar hletter
      have hpoint : pointAhead (letter :: rest) = false := by
        have hne : letter ≠ '.' := by
          rintro rfl
          cases hletter
        simp [pointAhead, hne]
      have hstops := hfraction.startsWith hdigit
      simp only [if_neg hword, if_pos hc, cutNumber, List.append_assoc, List.cons_append,
        List.nil_append, takeWhile_of_startsWith hwhole hstops,
        dropWhile_of_startsWith hwhole hstops,
        cutFraction_of_fraction hfraction hdigit fun _ => hpoint]
      rw [if_pos (show Lexeme.startsWith isWordChar (letter :: rest) = true from hletter)]
      rfl
  | @quoted content rest hc hcontent =>
      obtain ⟨hword, hdigit⟩ := not_wordOrDigit_of_quote hc
      have hall : ∀ e ∈ content, (e != c) = true := by
        intro e he
        simp only [bne_iff_ne]
        rintro rfl
        exact hcontent he
      have hstops : Lexeme.startsWith (· != c) (c :: rest) = false := by simp [Lexeme.startsWith]
      rw [if_neg (by simp [hword]), if_neg (by simp [hdigit]), if_pos (by simpa using hc)]
      simp only [cutQuoted, List.append_assoc, List.cons_append, List.nil_append,
        takeWhile_of_startsWith hall hstops, dropWhile_of_startsWith hall hstops]
  | unterminated hc hcontent =>
      obtain ⟨hword, hdigit⟩ := not_wordOrDigit_of_quote hc
      have hall : ∀ e ∈ tail, (e != c) = true := by
        intro e he
        simp only [bne_iff_ne]
        rintro rfl
        exact hcontent he
      have hdrop := dropWhile_of_startsWith hall
        (show Lexeme.startsWith (· != c) [] = false from rfl)
      rw [List.append_nil] at hdrop
      rw [if_neg (by simp [hword]), if_neg (by simp [hdigit]), if_pos (by simpa using hc)]
      simp only [cutQuoted, List.append_nil, hdrop]
  | symbol hc hquote =>
      obtain ⟨hword, hdigit⟩ := isWordOrDigit_eq_false.1 hc
      rw [if_neg (by simp [hword]), if_neg (by simp [hdigit]), if_neg (by simpa using hquote)]
      rfl

/-- A text begins with one lexeme only. -/
theorem Cuts.unique {c : Char} {kind kind' : Kind} {tail tail' rest rest' : List Char}
    (h : Cuts c kind tail rest) (h' : Cuts c kind' tail' rest')
    (happend : tail ++ rest = tail' ++ rest') :
    kind = kind' ∧ tail = tail' ∧ rest = rest' := by
  have hcut := h.cut_eq
  rw [happend, h'.cut_eq] at hcut
  cases hcut
  exact ⟨rfl, rfl, rfl⟩

-- ============================================================= all lexemes

/-- The characters of lexemes, one lexeme after the other. -/
def charsOf (ls : List Lexeme) : List Char := ls.flatMap chars

@[simp] theorem charsOf_nil : charsOf [] = [] := rfl

@[simp] theorem charsOf_cons (l : Lexeme) (ls : List Lexeme) :
    charsOf (l :: ls) = l.chars ++ charsOf ls := List.flatMap_cons

@[simp] theorem charsOf_append (ls more : List Lexeme) :
    charsOf (ls ++ more) = charsOf ls ++ charsOf more := List.flatMap_append

/-- The lexeme stands at an offset, before a rest. -/
structure Stands (l : Lexeme) (offset : Nat) (rest : List Char) : Prop where
  cuts : Cuts l.first l.kind l.tail rest
  span : l.span = ⟨offset, offset + Text.byteLength l.chars⟩

theorem splitFrom_cons (offset : Nat) (c : Char) (cs : List Char) :
    ∃ l rest, l.Stands offset rest ∧ c :: cs = l.chars ++ rest
      ∧ splitFrom [] offset (c :: cs)
        = l :: splitFrom [] (offset + Text.byteLength l.chars) rest := by
  refine ⟨⟨(cut c cs).kind, c, (cut c cs).tail,
    ⟨offset, offset + Text.byteLength (c :: (cut c cs).tail)⟩⟩, (cut c cs).rest,
    ⟨cuts_cut c cs, rfl⟩, ?_, ?_⟩
  · exact congrArg (c :: ·) (cut_append c cs).symm
  · rw [splitFrom, splitFrom_eq_append]
    rfl

theorem splitFrom_of_stands {l : Lexeme} {offset : Nat} {rest : List Char}
    (h : l.Stands offset rest) :
    splitFrom [] offset (l.chars ++ rest)
      = l :: splitFrom [] (offset + Text.byteLength l.chars) rest := by
  obtain ⟨kind, c, tail, span⟩ := l
  obtain ⟨hcuts, hspan⟩ := h
  have hspan : span = ⟨offset, offset + Text.byteLength (c :: tail)⟩ := hspan
  subst hspan
  show splitFrom [] offset (c :: (tail ++ rest)) = _
  rw [splitFrom, splitFrom_eq_append, hcuts.cut_eq]
  rfl

/-- The first lexeme of a text stands at its start. -/
theorem stands_of_splitFrom {offset : Nat} {cs : List Char} {l : Lexeme} {ls : List Lexeme}
    (h : splitFrom [] offset cs = l :: ls) :
    ∃ rest, l.Stands offset rest ∧ cs = l.chars ++ rest
      ∧ splitFrom [] (offset + Text.byteLength l.chars) rest = ls := by
  cases cs with
  | nil =>
      rw [splitFrom] at h
      cases h
  | cons c cs =>
      obtain ⟨l', rest, hstands, hcs, hsplit⟩ := splitFrom_cons offset c cs
      rw [hsplit] at h
      cases h
      exact ⟨rest, hstands, hcs, rfl⟩

/-- The lexemes of a text put together are the text. -/
theorem charsOf_splitFrom {offset : Nat} {cs : List Char} {ls : List Lexeme}
    (h : splitFrom [] offset cs = ls) : charsOf ls = cs := by
  induction ls generalizing offset cs with
  | nil =>
      cases cs with
      | nil => rfl
      | cons c cs =>
          obtain ⟨l, rest, -, -, hsplit⟩ := splitFrom_cons offset c cs
          rw [hsplit] at h
          cases h
  | cons l ls ih =>
      obtain ⟨rest, -, rfl, hrest⟩ := stands_of_splitFrom h
      rw [charsOf_cons, ih hrest]

/-- The first lexemes of a text are the lexemes of its first part, and the
others are those of what is left. -/
theorem splitFrom_parts {offset : Nat} {cs : List Char} {ls more : List Lexeme}
    (h : splitFrom [] offset cs = ls ++ more) :
    splitFrom [] offset (charsOf ls) = ls
      ∧ splitFrom [] (offset + Text.byteLength (charsOf ls)) (charsOf more) = more := by
  induction ls generalizing offset cs with
  | nil =>
      refine ⟨by simp [splitFrom], ?_⟩
      rw [List.nil_append] at h
      rw [charsOf_splitFrom h]
      exact h
  | cons l ls ih =>
      rw [List.cons_append] at h
      obtain ⟨rest, hstands, -, hrest⟩ := stands_of_splitFrom h
      have hchars := charsOf_splitFrom hrest
      obtain ⟨hfirst, hlast⟩ := ih hrest
      rw [charsOf_append] at hchars
      -- the lexeme stands before less text than it did
      have hstands' : l.Stands offset (charsOf ls) :=
        ⟨Cuts.truncate (hchars ▸ hstands.cuts), hstands.span⟩
      refine ⟨?_, ?_⟩
      · rw [charsOf_cons, splitFrom_of_stands hstands', hfirst]
      · rw [charsOf_cons, Text.byteLength_append, ← Nat.add_assoc]
        exact hlast

/-- Lexemes in the middle of a text are the lexemes of the text that they
cover. -/
theorem splitFrom_middle {offset : Nat} {cs : List Char} {before ls after : List Lexeme}
    (h : splitFrom [] offset cs = before ++ (ls ++ after)) :
    splitFrom [] (offset + Text.byteLength (charsOf before)) (charsOf ls) = ls :=
  (splitFrom_parts (splitFrom_parts h).2).1

/-- Every lexeme of a text stands where the lexemes before it end. -/
theorem stands_of_mem_splitFrom {offset : Nat} {cs : List Char} {before after : List Lexeme}
    {l : Lexeme} (h : splitFrom [] offset cs = before ++ l :: after) :
    l.Stands (offset + Text.byteLength (charsOf before)) (charsOf after) := by
  obtain ⟨rest, hstands, -, hrest⟩ := stands_of_splitFrom (splitFrom_parts h).2
  rwa [charsOf_splitFrom hrest]

end ScopedScript.Lexeme
