/-
The longest match.

The lexemes of the language have patterns, and a text is cut by taking off
the longest of its prefixes that a pattern matches, again and again. If two
patterns match the same prefix, a reserved word goes before words at large.
`Lexeme.cut` knows nothing of patterns: it goes on as long as it can. This
file states the patterns and the rule (`Kind.pattern`, `Munches`), and shows
that what `cut` takes off a text is what the rule takes off it.

# Why cutting finds the longest match

A text that a pattern matches is a single lexeme when it stands alone
(`Cuts.of_mem_pattern`), and a lexeme stays one when there is less text
behind it (`Cuts.truncate`). Were there a longer match than what was cut
off, the text of that match would begin with two different lexemes.

# Where patterns and cutting part

Patterns match blanks by the run and `cut` takes them one at a time. For the
scanner this comes to the same, since a blank adds nothing to the tokens and
its text to a header (`foldlM_step_blanks`). Where no pattern matches,
patterns do not tell how much of the text is to be refused: it is all of it
after a quote, and any other character alone (`Taken`). With these two
settled, `scan_of_munched` says that scanning is going through the lexemes
that the patterns choose.
-/
import Mathlib.Computability.Language
import ScopedScript.Proofs.Lexing

open Computability

namespace ScopedScript

namespace Lexeme

-- ================================================================= patterns

/-- One character of a class. -/
def one (p : Char → Bool) : Language Char := {cs | ∃ c, p c = true ∧ cs = [c]}

/-- Characters of a class, at least one. -/
def many (p : Char → Bool) : Language Char := one p * (one p)∗

/-- A text as it stands. -/
def verbatim (text : String) : Language Char := {text.toList}

/-- Digits, which may be followed by a point and more digits. -/
def decimal : Language Char := many Char.isDigit * (1 + verbatim "." * many Char.isDigit)

/-- A quote, anything else, and the quote again. -/
def between (quote : Char) : Language Char :=
  one (· == quote) * (one (· != quote))∗ * one (· == quote)

/-- What the lexemes of a kind look like. What makes no lexeme of another
kind is unterminated or illegal, and no pattern says so. -/
def Kind.pattern : Kind → Language Char
  | .ret => verbatim "return"
  | .var => verbatim "var"
  | .function => verbatim "function"
  | .boolean => verbatim "true" + verbatim "false"
  | .word => many isWordChar
  | .wordIntoNumber => many isWordChar * (one Char.isDigit * (one isWordOrDigit)∗)
  | .number => decimal
  | .numberIntoWord => decimal * one isWordChar
  | .quoted => between '"' + between '\''
  | .newLine => verbatim "\n"
  | .equals => verbatim "="
  | .openBrace => verbatim "\x7b"
  | .closeBrace => verbatim "\x7d"
  | .openParen => verbatim "("
  | .closeParen => verbatim ")"
  | .semicolon => verbatim ";"
  | .comma => verbatim ","
  | .dot => verbatim "."
  | .operator => verbatim "+" + verbatim "-" + verbatim "*" + verbatim "/"
  | .blank => many isBlank
  | .unterminated | .illegal => 0

section Membership

variable {p : Char → Bool} {c quote : Char} {cs : List Char} {text : String}

@[simp] theorem mem_one : cs ∈ one p ↔ ∃ c, p c = true ∧ cs = [c] := Iff.rfl

@[simp] theorem mem_one_kstar : cs ∈ (one p)∗ ↔ ∀ c ∈ cs, p c = true := by
  rw [Language.mem_kstar]
  constructor
  · rintro ⟨parts, rfl, hparts⟩ c hc
    obtain ⟨part, hpart, hmem⟩ := List.mem_flatten.1 hc
    obtain ⟨d, hd, rfl⟩ := hparts part hpart
    rwa [List.mem_singleton.1 hmem]
  · intro h
    refine ⟨cs.map fun c => [c], (List.flatMap_singleton' cs).symm, fun part hpart => ?_⟩
    obtain ⟨c, hc, rfl⟩ := List.mem_map.1 hpart
    exact ⟨c, h c hc, rfl⟩

@[simp] theorem mem_verbatim : cs ∈ verbatim text ↔ cs = text.toList := Iff.rfl

/-- A match of at least one character, by its first character. -/
theorem cons_mem_one_mul {l : Language Char} : c :: cs ∈ one p * l ↔ p c = true ∧ cs ∈ l := by
  rw [Language.mem_mul]
  constructor
  · rintro ⟨_, ⟨d, hd, rfl⟩, more, hmore, happend⟩
    obtain ⟨rfl, rfl⟩ := List.cons.inj happend
    exact ⟨hd, hmore⟩
  · rintro ⟨hc, hcs⟩
    exact ⟨[c], ⟨c, hc, rfl⟩, cs, hcs, rfl⟩

theorem cons_mem_many : c :: cs ∈ many p ↔ p c = true ∧ ∀ d ∈ cs, p d = true := by
  rw [many, cons_mem_one_mul, mem_one_kstar]

theorem cons_mem_many_mul {l : Language Char} : c :: cs ∈ many p * l ↔
    p c = true ∧ ∃ word, (∀ d ∈ word, p d = true) ∧ ∃ more ∈ l, word ++ more = cs := by
  rw [many, mul_assoc, cons_mem_one_mul, Language.mem_mul]
  simp only [mem_one_kstar]

theorem nil_notMem_one_mul {l : Language Char} : [] ∉ one p * l := by
  rw [Language.mem_mul]
  rintro ⟨_, ⟨c, -, rfl⟩, _, -, happend⟩
  cases happend

theorem nil_notMem_many_mul {l : Language Char} : [] ∉ many p * l := by
  rw [many, mul_assoc]
  exact nil_notMem_one_mul

theorem mem_fraction : cs ∈ 1 + verbatim "." * many Char.isDigit ↔ Fraction cs := by
  rw [Language.mem_add, Language.mem_one, Language.mem_mul]
  constructor
  · rintro (rfl | ⟨_, rfl, more, hmore, rfl⟩)
    · exact .none
    · cases more with
      | nil => exact absurd hmore nil_notMem_one_mul
      | cons d ds =>
          obtain ⟨hd, hds⟩ := cons_mem_many.1 hmore
          exact .digits (List.forall_mem_cons.2 ⟨hd, hds⟩)
  · intro h
    cases h with
    | none => exact .inl rfl
    | @digits d ds h =>
        exact .inr ⟨_, rfl, d :: ds, cons_mem_many.2 (List.forall_mem_cons.1 h), rfl⟩

theorem cons_mem_decimal : c :: cs ∈ decimal ↔ c.isDigit = true
    ∧ ∃ whole, (∀ d ∈ whole, d.isDigit = true) ∧ ∃ fraction, Fraction fraction
      ∧ whole ++ fraction = cs := by
  rw [decimal, cons_mem_many_mul]
  simp only [mem_fraction]

theorem cons_mem_between : c :: cs ∈ between quote
    ↔ c = quote ∧ ∃ content, quote ∉ content ∧ content ++ [quote] = cs := by
  rw [between, mul_assoc, cons_mem_one_mul, Language.mem_mul, beq_iff_eq]
  simp [List.forall_mem_ne']

theorem nil_notMem_pattern (kind : Kind) : [] ∉ kind.pattern := by
  cases kind with
  | word | blank => exact nil_notMem_one_mul
  | wordIntoNumber | number => exact nil_notMem_many_mul
  | numberIntoWord =>
      show [] ∉ decimal * one isWordChar
      rw [decimal, mul_assoc]
      exact nil_notMem_many_mul
  | quoted =>
      show [] ∉ between '"' + between '\''
      rw [Language.mem_add, between, between, mul_assoc, mul_assoc]
      exact not_or.2 ⟨nil_notMem_one_mul, nil_notMem_one_mul⟩
  | boolean | operator =>
      simp only [Kind.pattern, Language.mem_add, mem_verbatim]
      decide
  | _ => simp [Kind.pattern]

end Membership

-- =========================================================== single lexemes

section Single

variable {c : Char} {cs tail rest : List Char} {kind : Kind}

/-- A word is a match of its pattern, reserved or not. -/
theorem mem_pattern_ofWord {word : List Char} (h : word ∈ many isWordChar) :
    word ∈ (Kind.ofWord word).pattern := by
  have htext {text : String} (hword : String.ofList word = text) : word = text.toList := by
    rw [← hword, String.toList_ofList]
  unfold Kind.ofWord
  split
  case h_4 hword => exact .inl (htext hword)
  case h_5 hword => exact .inr (htext hword)
  case h_6 => exact h
  all_goals next hword => exact htext hword

/-- A symbol with a meaning is a match of its pattern. -/
theorem mem_pattern_ofSymbol (h : Kind.ofSymbol c ≠ .illegal) :
    [c] ∈ (Kind.ofSymbol c).pattern := by
  generalize hkind : Kind.ofSymbol c = kind at h ⊢
  unfold Kind.ofSymbol at hkind
  split at hkind <;> subst hkind
  case h_10 => exact .inl (.inl (.inl rfl))
  case h_11 => exact .inl (.inl (.inr rfl))
  case h_12 => exact .inl (.inr rfl)
  case h_13 => exact .inr rfl
  case h_14 =>
    by_cases hblank : isBlank c = true
    · rw [if_pos hblank]
      exact cons_mem_many.2 ⟨hblank, nofun⟩
    · rw [if_neg hblank] at h
      exact absurd rfl h
  all_goals rfl

/-- A lexeme is a match of the pattern of its kind. -/
theorem Cuts.mem_pattern (h : Cuts c kind tail rest) (hunterminated : kind ≠ .unterminated)
    (hillegal : kind ≠ .illegal) : c :: tail ∈ kind.pattern := by
  cases h with
  | word hc htail => exact mem_pattern_ofWord (cons_mem_many.2 ⟨hc, htail⟩)
  | @wordIntoNumber word d more rest hc hword hd hmore =>
      refine cons_mem_many_mul.2 ⟨hc, word, hword, d :: more, ?_, rfl⟩
      exact cons_mem_one_mul.2 ⟨hd, mem_one_kstar.2 hmore⟩
  | number hc hwhole hfraction => exact cons_mem_decimal.2 ⟨hc, _, hwhole, _, hfraction, rfl⟩
  | numberIntoWord hc hwhole hfraction hletter =>
      refine Language.mem_mul.2 ⟨_, cons_mem_decimal.2 ⟨hc, _, hwhole, _, hfraction, rfl⟩, _,
        ⟨_, hletter, rfl⟩, rfl⟩
  | quoted hc hcontent =>
      rcases hc with rfl | rfl
      · exact .inl (cons_mem_between.2 ⟨rfl, _, hcontent, rfl⟩)
      · exact .inr (cons_mem_between.2 ⟨rfl, _, hcontent, rfl⟩)
  | unterminated => exact absurd rfl hunterminated
  | symbol => exact mem_pattern_ofSymbol hillegal

theorem Cuts.of_letters_alone (h : ∀ d ∈ c :: cs, isWordChar d = true)
    (hkind : Kind.ofWord (c :: cs) = kind) : Cuts c kind cs [] := by
  obtain ⟨hc, hcs⟩ := List.forall_mem_cons.1 h
  rw [← hkind]
  exact .word hc hcs rfl

/-- A match of a pattern is a single lexeme when it stands alone, unless it
is made of blanks. What matches the pattern of words may be a reserved word. -/
theorem Cuts.of_mem_pattern (h : c :: cs ∈ kind.pattern) (hblank : kind ≠ .blank) :
    Cuts c (if kind = .word then .ofWord (c :: cs) else kind) cs [] := by
  cases kind with
  | word =>
      obtain ⟨hc, hcs⟩ := cons_mem_many.1 h
      exact .word hc hcs rfl
  | wordIntoNumber =>
      obtain ⟨hc, word, hword, more, hmore, rfl⟩ := cons_mem_many_mul.1 h
      cases more with
      | nil => exact absurd hmore nil_notMem_one_mul
      | cons d more =>
          obtain ⟨hd, hmore⟩ := cons_mem_one_mul.1 hmore
          exact .wordIntoNumber hc hword hd (mem_one_kstar.1 hmore) rfl
  | number =>
      obtain ⟨hc, whole, hwhole, fraction, hfraction, rfl⟩ := cons_mem_decimal.1 h
      exact .number hc hwhole hfraction rfl fun _ => rfl
  | numberIntoWord =>
      obtain ⟨number, hnumber, _, ⟨letter, hletter, rfl⟩, happend⟩ := Language.mem_mul.1 h
      cases number with
      | nil => exact absurd hnumber (nil_notMem_pattern .number)
      | cons d number =>
          obtain ⟨rfl, rfl⟩ := List.cons.inj happend
          obtain ⟨hc, whole, hwhole, fraction, hfraction, rfl⟩ := cons_mem_decimal.1 hnumber
          exact .numberIntoWord hc hwhole hfraction hletter
  | quoted =>
      rcases h with h | h
      · obtain ⟨rfl, content, hcontent, rfl⟩ := cons_mem_between.1 h
        exact .quoted (.inl rfl) hcontent
      · obtain ⟨rfl, content, hcontent, rfl⟩ := cons_mem_between.1 h
        exact .quoted (.inr rfl) hcontent
  | ret | var | function =>
      cases h
      exact .of_letters_alone (List.all_eq_true.1 rfl) (by decide)
  | boolean =>
      rcases h with h | h
      · cases h
        exact .of_letters_alone (List.all_eq_true.1 rfl) (by decide)
      · cases h
        exact .of_letters_alone (List.all_eq_true.1 rfl) (by decide)
  | operator =>
      rcases h with ((h | h) | h) | h
      all_goals
        cases h
        exact .symbol (by decide) (by decide)
  | blank => exact absurd rfl hblank
  | unterminated | illegal => cases h
  | _ =>
      cases h
      exact .symbol (by decide) (by decide)

/-- A blank is a lexeme of its own. -/
theorem Cuts.blank (hc : isBlank c = true) : Cuts c .blank [] rest := by
  simp only [isBlank, Bool.or_eq_true, beq_iff_eq] at hc
  rcases hc with ((rfl | rfl) | rfl) | rfl <;> exact .symbol (by decide) (by decide)

/-- No pattern but that of blanks matches what begins with a blank. -/
theorem kind_eq_blank (hc : isBlank c = true) (h : c :: cs ∈ kind.pattern) : kind = .blank := by
  by_contra hkind
  have hcut := (Cuts.of_mem_pattern h hkind).unique (Cuts.blank hc) (List.append_nil cs)
  have hblank := hcut.1
  split at hblank
  · exact ofWord_ne (by decide) _ hblank
  · exact hkind hblank

/-- What is at fault is so too if there is less of it, as long as it begins
the same. -/
theorem Cuts.fault_of_prefix {after : List Char} (h : Cuts c kind tail rest)
    (hkind : kind = .unterminated ∨ kind = .illegal) (happend : cs ++ after = tail ++ rest) :
    ∃ tail' rest', tail' ++ rest' = cs ∧ Cuts c kind tail' rest' := by
  cases h with
  | word => rcases hkind with h | h <;> exact absurd h (ofWord_ne (by decide) _)
  | symbol hc hquote => exact ⟨[], cs, rfl, .symbol hc hquote⟩
  | unterminated hc hcontent =>
      rw [List.append_nil] at happend
      subst happend
      have hcs : c ∉ cs := fun h => hcontent (List.mem_append_left _ h)
      exact ⟨cs, [], List.append_nil cs, .unterminated hc hcs⟩
  | _ => simp at hkind

end Single

-- ============================================================ longest matches

/-- The patterns take a lexeme of a kind off a text: no longer prefix is a
match, and if this one is a match of two patterns, it is a reserved word. -/
structure Munches (kind : Kind) (chars rest : List Char) : Prop where
  matched : chars ∈ kind.pattern
  longest : ∀ {other : Kind} {more : List Char}, more <+: chars ++ rest →
    more ∈ other.pattern → more.length ≤ chars.length
  first : ∀ {other : Kind}, chars ∈ other.pattern → other = kind ∨ other = .word

/-- No pattern matches a prefix of the text. -/
def Unmatched (text : List Char) : Prop :=
  ∀ (kind : Kind) (chars : List Char), chars <+: text → chars ∉ kind.pattern

section Munches

variable {c : Char} {cs tail rest chars : List Char} {kind : Kind}

/-- There is one lexeme at most for patterns to take off a text. -/
theorem Munches.unique {kind' : Kind} {chars' rest' : List Char} (h : Munches kind chars rest)
    (h' : Munches kind' chars' rest') (htext : chars ++ rest = chars' ++ rest') :
    kind = kind' ∧ chars = chars' ∧ rest = rest' := by
  have hlength : chars.length = chars'.length :=
    Nat.le_antisymm (h'.longest ⟨rest, htext⟩ h.matched) (h.longest ⟨rest', htext.symm⟩ h'.matched)
  obtain ⟨rfl, rfl⟩ := List.append_inj htext hlength
  refine ⟨?_, rfl, rfl⟩
  rcases h.first h'.matched with rfl | rfl
  · rfl
  · rcases h'.first h.matched with rfl | rfl <;> rfl

/-- What is cut off a text is the longest match, except for blanks. -/
theorem Cuts.munches (h : Cuts c kind tail rest) (hunterminated : kind ≠ .unterminated)
    (hillegal : kind ≠ .illegal) (hblank : kind ≠ .blank) : Munches kind (c :: tail) rest := by
  have hc : isBlank c ≠ true := fun hc => by
    exact hblank (h.unique (Cuts.blank hc) rfl).1
  have hother {other : Kind} {cs : List Char} (hmem : c :: cs ∈ other.pattern) :
      other ≠ .blank := by
    rintro rfl
    exact hc (cons_mem_many.1 hmem).1
  refine ⟨h.mem_pattern hunterminated hillegal, fun {other more} hprefix hmem => ?_,
    fun {other} hmem => ?_⟩
  · by_contra hlonger
    rw [Nat.not_le] at hlonger
    obtain ⟨x, rfl⟩ : c :: tail <+: more :=
      List.prefix_of_prefix_length_le (List.prefix_append _ rest) hprefix hlonger.le
    -- a longer match would be cut in two ways
    obtain ⟨after, rfl⟩ : x <+: rest := (List.prefix_append_right_inj _).1 hprefix
    have hcut := h.truncate.unique (Cuts.of_mem_pattern hmem (hother hmem)) (by simp)
    obtain ⟨-, -, rfl⟩ := hcut
    simp at hlonger
  · have halone : Cuts c kind tail [] := Cuts.truncate h
    obtain ⟨hkind, -, -⟩ := halone.unique (Cuts.of_mem_pattern hmem (hother hmem)) rfl
    split at hkind
    · next hword => exact .inr hword
    · exact .inl hkind.symm

/-- Where a quote has no partner or a character no meaning, nothing is a
match. -/
theorem Cuts.unmatched (h : Cuts c kind tail rest)
    (hkind : kind = .unterminated ∨ kind = .illegal) : Unmatched (c :: (tail ++ rest)) := by
  intro other chars hprefix hmem
  cases chars with
  | nil => exact nil_notMem_pattern other hmem
  | cons d cs =>
      obtain ⟨rfl, after, happend⟩ := List.cons_prefix_cons.1 hprefix
      have hother : other ≠ .blank := by
        rintro rfl
        obtain ⟨rfl, -, -⟩ := h.unique (Cuts.blank (cons_mem_many.1 hmem).1) rfl
        rcases hkind with h | h <;> cases h
      -- as much of the text as there is in the match would be at fault too
      obtain ⟨tail', rest', hcs, hfault⟩ := h.fault_of_prefix hkind happend
      obtain ⟨hsame, -, -⟩ := hfault.unique (Cuts.of_mem_pattern hmem hother) (by simpa using hcs)
      rw [hsame] at hkind
      split at hkind
      · rcases hkind with h | h <;> exact ofWord_ne (by decide) _ h
      · rcases hkind with rfl | rfl <;> exact hmem

/-- The longest match of a text that begins with a blank is the whole run of
blanks. -/
theorem munches_blanks (hc : isBlank c = true) :
    Munches .blank (c :: cs.takeWhile isBlank) (cs.dropWhile isBlank) := by
  refine ⟨cons_mem_many.2 ⟨hc, fun d => mem_takeWhile⟩, fun {other more} hprefix hmem => ?_,
    fun {other} hmem => .inl (kind_eq_blank hc hmem)⟩
  cases more with
  | nil => exact Nat.zero_le _
  | cons d more =>
      rw [List.cons_append, List.takeWhile_append_dropWhile] at hprefix
      obtain ⟨rfl, after, rfl⟩ := List.cons_prefix_cons.1 hprefix
      obtain rfl := kind_eq_blank hc hmem
      rw [List.takeWhile_append_of_pos (cons_mem_many.1 hmem).2]
      simp

end Munches

-- =============================================================== next lexemes

/-- What is taken off a text that begins with a character: the longest match.
If there is none, all of the text is refused after a quote, and any other
character alone. -/
inductive Taken (c : Char) : Kind → (tail rest : List Char) → Prop
  | matched {kind tail rest} (h : Munches kind (c :: tail) rest) : Taken c kind tail rest
  | quote {tail} (hc : c = '"' ∨ c = '\'') (h : Unmatched (c :: tail)) :
      Taken c .unterminated tail []
  | character {rest} (hc : ¬(c = '"' ∨ c = '\'')) (h : Unmatched (c :: rest)) :
      Taken c .illegal [] rest

section Taken

variable {c : Char} {cs tail rest : List Char} {kind : Kind}

/-- Whatever is taken off as blanks is made of blanks. -/
theorem Taken.all_blank (h : Taken c kind tail rest) (hkind : kind = .blank) :
    ∀ d ∈ c :: tail, isBlank d = true := by
  cases h with
  | matched h =>
      subst hkind
      exact List.forall_mem_cons.2 (cons_mem_many.1 h.matched)
  | quote | character => cases hkind

theorem Taken.unique {kind' : Kind} {tail' rest' : List Char} (h : Taken c kind tail rest)
    (h' : Taken c kind' tail' rest') (happend : tail ++ rest = tail' ++ rest') :
    kind = kind' ∧ tail = tail' ∧ rest = rest' := by
  cases h with
  | matched h =>
      cases h' with
      | matched h' =>
          obtain ⟨rfl, htail, rfl⟩ := h.unique h' (congrArg (c :: ·) happend)
          exact ⟨rfl, (List.cons.inj htail).2, rfl⟩
      | quote hc h' =>
          exact absurd h.matched (h' _ _ ⟨rest, by simpa using happend⟩)
      | character hc h' =>
          exact absurd h.matched (h' _ _ ⟨rest, congrArg (c :: ·) happend⟩)
  | quote hc h =>
      cases h' with
      | matched h' => exact absurd h'.matched (h _ _ ⟨rest', by simpa using happend.symm⟩)
      | quote => simpa using happend
      | character hc' => exact absurd hc hc'
  | character hc h =>
      cases h' with
      | matched h' => exact absurd h'.matched (h _ _ ⟨rest', congrArg (c :: ·) happend.symm⟩)
      | quote hc' => exact absurd hc' hc
      | character => exact ⟨rfl, rfl, happend⟩

/-- What is cut off a text is taken off it, except for blanks. -/
theorem Cuts.taken (h : Cuts c kind tail rest) (hblank : kind ≠ .blank) :
    Taken c kind tail rest := by
  by_cases hfault : kind = .unterminated ∨ kind = .illegal
  · have hunmatched := h.unmatched hfault
    cases h with
    | word => rcases hfault with h | h <;> exact absurd h (ofWord_ne (by decide) _)
    | symbol hc hquote =>
        have hillegal : Kind.ofSymbol c = .illegal := by
          by_contra hmeant
          have hmem := mem_pattern_ofSymbol hmeant
          rw [hfault.resolve_right hmeant] at hmem
          exact hmem
        rw [hillegal]
        exact .character hquote hunmatched
    | unterminated hc => exact .quote hc (by simpa using hunmatched)
    | _ => simp at hfault
  · obtain ⟨hunterminated, hillegal⟩ := not_or.1 hfault
    exact .matched (h.munches hunterminated hillegal hblank)

/-- Only a quote begins a quoted text without its end. -/
theorem Cuts.of_unterminated (h : Cuts c kind tail rest) (hkind : kind = .unterminated) :
    c = '"' ∨ c = '\'' := by
  subst hkind
  cases h.taken nofun with
  | matched h => cases h.matched
  | quote hc => exact hc

/-- There is something to take off every text. -/
theorem exists_taken (c : Char) (cs : List Char) :
    ∃ kind tail rest, tail ++ rest = cs ∧ Taken c kind tail rest := by
  by_cases hc : isBlank c = true
  · exact ⟨_, _, _, List.takeWhile_append_dropWhile, .matched (munches_blanks hc)⟩
  · obtain ⟨kind, tail, rest, happend, hcuts⟩ := exists_cuts c cs
    refine ⟨kind, tail, rest, happend, hcuts.taken ?_⟩
    rintro rfl
    exact hc (cons_mem_many.1 (hcuts.mem_pattern nofun nofun)).1

/-- What is taken off a text is cut off it, unless it is made of blanks. -/
theorem Taken.cuts (h : Taken c kind tail rest) (hblank : kind ≠ .blank) :
    Cuts c kind tail rest := by
  obtain ⟨kind', tail', rest', happend, hcuts⟩ := exists_cuts c (tail ++ rest)
  have hblank' : kind' ≠ .blank := by
    rintro rfl
    obtain ⟨hc, -⟩ := cons_mem_many.1 (hcuts.mem_pattern nofun nofun)
    have hrun := h.unique (.matched (munches_blanks hc)) List.takeWhile_append_dropWhile.symm
    exact hblank hrun.1
  obtain ⟨rfl, rfl, rfl⟩ := h.unique (hcuts.taken hblank') happend.symm
  exact hcuts

end Taken

-- ============================================================== whole texts

/-- The lexemes that are taken off a text that starts at a byte offset. -/
inductive Munched : Nat → List Char → List Lexeme → Prop
  | nil {offset} : Munched offset [] []
  | cons {offset rest ls} {l : Lexeme} (h : Taken l.first l.kind l.tail rest)
      (hspan : l.span = ⟨offset, offset + Text.byteLength l.chars⟩)
      (hrest : Munched l.span.stop rest ls) : Munched offset (l.chars ++ rest) (l :: ls)

section Munched

variable {cs : List Char} {offset : Nat} {ls ls' : List Lexeme}

/-- Patterns make lexemes of every text. -/
theorem exists_munched (offset : Nat) (cs : List Char) : ∃ ls, Munched offset cs ls := by
  induction hlength : cs.length using Nat.strong_induction_on generalizing offset cs with
  | h n ih =>
      cases cs with
      | nil => exact ⟨[], .nil⟩
      | cons c cs =>
          obtain ⟨kind, tail, rest, rfl, htaken⟩ := exists_taken c cs
          have hshorter : rest.length < n := by
            rw [← hlength, List.length_cons, List.length_append]
            omega
          let span : Span := ⟨offset, offset + Text.byteLength (c :: tail)⟩
          obtain ⟨ls, hls⟩ := ih rest.length hshorter span.stop rest rfl
          exact ⟨_, .cons (l := ⟨kind, c, tail, span⟩) htaken rfl hls⟩

/-- Patterns make lexemes of a text in one way. -/
theorem Munched.unique (h : Munched offset cs ls) (h' : Munched offset cs ls') : ls = ls' := by
  generalize hcs : cs = cs' at h'
  induction h generalizing cs' ls' with
  | nil =>
      cases h' with
      | nil => rfl
      | cons => cases hcs
  | @cons offset rest ls l h hspan hrest ih =>
      cases h' with
      | nil => cases hcs
      | @cons _ rest' ls' l' h' hspan' hrest' =>
          obtain ⟨kind, c, tail, span⟩ := l
          obtain ⟨kind', c', tail', span'⟩ := l'
          obtain ⟨hc, happend⟩ := List.cons.inj hcs
          cases hc
          obtain ⟨hkind, htail, rfl⟩ := h.unique h' happend
          cases hkind
          cases htail
          have hsame : span = span' := hspan.trans hspan'.symm
          subst hsame
          rw [ih rest rfl hrest']

end Munched

end Lexeme

-- ================================================================= scanning

namespace Scan

open Lexeme

/-- The scanner after blanks: a header goes on with them. -/
def State.pad (s : State) (blanks : List Char) : State :=
  { s with header := s.header.map fun h => { h with text := h.text ++ String.ofList blanks } }

theorem State.pad_nil (s : State) : s.pad [] = s := by
  obtain ⟨tokens, _ | h⟩ := s
  · rfl
  · simp [pad]

theorem State.pad_append (s : State) (blanks more : List Char) :
    (s.pad blanks).pad more = s.pad (blanks ++ more) := by
  obtain ⟨tokens, _ | h⟩ := s
  · rfl
  · simp [pad, String.ofList_append, String.append_assoc]

theorem step_blank {l : Lexeme} (hl : l.kind = .blank) (s : State) :
    step s l = .ok (s.pad l.chars) := by
  obtain ⟨tokens, _ | h⟩ := s
  · simp [step, stepOutside, hl, State.pad]
  · simp [step, stepHeader, hl, State.pad, Header.pass, Lexeme.text]

/-- Blanks one at a time are to the scanner what the run of them is. -/
theorem foldlM_step_blanks {blanks : List Char} (hblanks : ∀ c ∈ blanks, isBlank c = true)
    (rest : List Char) (offset : Nat) (s : State) :
    (splitFrom [] offset (blanks ++ rest)).foldlM step s
      = (splitFrom [] (offset + Text.byteLength blanks) rest).foldlM step (s.pad blanks) := by
  induction blanks generalizing offset s with
  | nil =>
      rw [State.pad_nil]
      rfl
  | cons c blanks ih =>
      obtain ⟨hc, hblanks⟩ := List.forall_mem_cons.1 hblanks
      have hstands : Stands ⟨.blank, c, [], ⟨offset, offset + Text.byteLength [c]⟩⟩ offset
          (blanks ++ rest) := ⟨Cuts.blank hc, rfl⟩
      have hsplit := splitFrom_of_stands hstands
      have hlength : offset + Text.byteLength (c :: blanks)
          = offset + Text.byteLength [c] + Text.byteLength blanks := by
        rw [← List.singleton_append, Text.byteLength_append, Nat.add_assoc]
      rw [List.cons_append, ← List.singleton_append]
      refine (congrArg (List.foldlM step s) hsplit).trans ?_
      rw [List.foldlM_cons, step_blank rfl, hlength]
      refine (ih hblanks _ _).trans ?_
      rw [State.pad_append]
      rfl

/-- Scanning goes through the lexemes that the patterns take off the text. -/
theorem foldlM_step_munched {offset : Nat} {cs : List Char} {ls : List Lexeme}
    (h : Munched offset cs ls) (s : State) :
    ls.foldlM step s = (splitFrom [] offset cs).foldlM step s := by
  induction h generalizing s with
  | nil =>
      rw [splitFrom]
      rfl
  | @cons offset rest ls l h hspan hrest ih =>
      rw [List.foldlM_cons]
      rw [hspan] at ih
      by_cases hblank : l.kind = .blank
      · have hblanks : ∀ c ∈ l.chars, isBlank c = true := h.all_blank hblank
        rw [foldlM_step_blanks hblanks, step_blank hblank]
        exact ih _
      · rw [splitFrom_of_stands ⟨h.cuts hblank, hspan⟩, List.foldlM_cons]
        exact congrArg (step s l >>= ·) (funext ih)

end Scan

/-- Scanning a text is going through the lexemes that the patterns take off
it, of which there is one list. -/
theorem scan_of_munched (source : String) :
    (∃! ls, Lexeme.Munched 0 source.toList ls)
      ∧ ∀ ls, Lexeme.Munched 0 source.toList ls →
          scan source = ls.foldlM Scan.step {} >>= Scan.finish source.utf8ByteSize := by
  obtain ⟨ls, hls⟩ := Lexeme.exists_munched 0 source.toList
  refine ⟨⟨ls, hls, fun ls' hls' => hls'.unique hls⟩, fun ls hls => ?_⟩
  rw [Scan.foldlM_step_munched hls]
  rfl

end ScopedScript
