/-
The texts that can be scanned.

Which texts those are can be said without lexemes, longest matches or a
state. Read a text from left to right as stretches: quoted literals, runs of
letters and digits, and single signs (`Stretch.read`). The text is in the
language if its literals are closed, its signs are known, its runs do not
mix letters and digits, and after every `function` there is the rest of a
header (`InLanguage`).

# Lexemes and stretches

A lexeme that is in order is one stretch, or three if it is a number with a
fraction, and what follows it is read as if nothing stood before it
(`Cuts.read_append`). A lexeme that is a fault contains a stretch, or the
beginning of one, that the language has no place for
(`Cuts.unsound`). What is left is the header, where the scanner and the
language go from lexeme to lexeme together (`makes_iff_headers`).
-/
import ScopedScript.Proofs.Tokenizing

namespace ScopedScript

-- ================================================================ stretches

/-- A piece of a text for a reader who only knows about quotes. -/
inductive Stretch where
  /-- Letters, digits and underscores, as many as there are. -/
  | run (word : String)
  /-- A quoted text with its closing quote. -/
  | literal (quote : Char) (content : String)
  /-- An opening quote without a partner, and the rest of the text. -/
  | unclosed (quote : Char) (content : String)
  /-- Any other character. -/
  | sign (c : Char)
deriving DecidableEq, Repr

namespace Stretch

/-- ASCII letters, digits and the underscore. -/
def isRunChar (c : Char) : Bool := c.isAlphanum || c == '_'

/-- Reads a text from left to right. -/
def read : List Char → List Stretch
  | [] => []
  | c :: cs =>
      if isRunChar c then
        .run (String.ofList (c :: cs.takeWhile isRunChar)) :: read (cs.dropWhile isRunChar)
      else if c = '"' ∨ c = '\'' then
        match _h : cs.dropWhile (· != c) with
        | [] => [.unclosed c (String.ofList cs)]
        | _ :: rest => .literal c (String.ofList (cs.takeWhile (· != c))) :: read rest
      else .sign c :: read cs
termination_by cs => cs.length
decreasing_by
  · have := (List.dropWhile_suffix isRunChar (l := cs)).length_le
    simp only [List.length_cons]
    omega
  · have := (List.dropWhile_suffix (· != c) (l := cs)).length_le
    simp only [_h, List.length_cons] at this ⊢
    omega
  · simp

/-- Every character that may stand outside of literals and runs. -/
def signs : List Char :=
  [' ', '\t', '\r', '\x0c', '\n', '=', '\x7b', '\x7d', '(', ')', ';', ',', '.', '+', '-', '*', '/']

/-- Spaces and line breaks, which a header may have anywhere. -/
def isSpace : Stretch → Bool
  | .sign c => c ∈ [' ', '\t', '\r', '\x0c', '\n']
  | _ => false

/-- The words with a meaning of their own. -/
def keywords : List String := ["return", "var", "function", "true", "false"]

/-- A word that can be the name of something. -/
structure IsName (word : String) : Prop where
  digitFree : ∀ c ∈ word.toList, c.isDigit = false
  free : word ∉ keywords

/-- A header after the word `function`. -/
def header (name : String) (parameters : List String) : List Stretch :=
  .run name :: .sign '(' :: ((parameters.map .run).intersperse (.sign ',') ++ [.sign ')'])

/-- Spaces apart, the stretches begin with a header. -/
def OpensHeader (ss : List Stretch) : Prop :=
  ∃ name parameters, IsName name ∧ (∀ p ∈ parameters, IsName p)
    ∧ header name parameters <+: ss.filter (!·.isSpace)

end Stretch

/-- The texts that can be scanned. -/
structure InLanguage (text : List Char) : Prop where
  closed : ∀ quote content, .unclosed quote content ∉ Stretch.read text
  signs : ∀ c, .sign c ∈ Stretch.read text → c ∈ Stretch.signs
  runs : ∀ word, .run word ∈ Stretch.read text →
    (∀ c ∈ word.toList, c.isDigit = true) ∨ ∀ c ∈ word.toList, c.isDigit = false
  headers : ∀ before after, Stretch.read text = before ++ .run "function" :: after →
    Stretch.OpensHeader after

-- ================================================================== reading

namespace Stretch

open Lexeme (startsWith)

theorem isRunChar_eq (c : Char) : isRunChar c = Lexeme.isWordOrDigit c := by
  simp only [isRunChar, Char.isAlphanum, Lexeme.isWordOrDigit, Lexeme.isWordChar]
  cases c.isAlpha <;> cases c.isDigit <;> simp

theorem read_nil : read [] = [] := by rw [read]

theorem read_run {c : Char} {word rest : List Char}
    (hword : ∀ d ∈ c :: word, Lexeme.isWordOrDigit d = true)
    (hrest : startsWith Lexeme.isWordOrDigit rest = false) :
    read (c :: (word ++ rest)) = .run (String.ofList (c :: word)) :: read rest := by
  obtain ⟨hc, hword⟩ := List.forall_mem_cons.1 hword
  have hfun : isRunChar = Lexeme.isWordOrDigit := funext isRunChar_eq
  rw [read, hfun, if_pos hc, Lexeme.takeWhile_of_startsWith hword hrest,
    Lexeme.dropWhile_of_startsWith hword hrest]

/-- A run that does not end where one would like it to. -/
theorem read_run_prefix {c : Char} {word : List Char} (rest : List Char)
    (hword : ∀ d ∈ c :: word, Lexeme.isWordOrDigit d = true) :
    ∃ more after, read (c :: (word ++ rest)) = .run (String.ofList (c :: (word ++ more))) :: after := by
  refine ⟨rest.takeWhile Lexeme.isWordOrDigit, read (rest.dropWhile Lexeme.isWordOrDigit), ?_⟩
  have hall : ∀ d ∈ c :: (word ++ rest.takeWhile Lexeme.isWordOrDigit),
      Lexeme.isWordOrDigit d = true := by
    intro d hd
    rw [← List.cons_append] at hd
    rcases List.mem_append.1 hd with hd | hd
    · exact hword d hd
    · exact Lexeme.mem_takeWhile hd
  rw [← read_run hall (Lexeme.startsWith_dropWhile Lexeme.isWordOrDigit rest), List.append_assoc,
    List.takeWhile_append_dropWhile]

section Quote

variable {c : Char} {content : List Char}

theorem not_isRunChar_of_quote (hc : c = '"' ∨ c = '\'') : ¬isRunChar c = true := by
  rcases hc with rfl | rfl <;> decide

theorem ne_of_not_mem (hcontent : c ∉ content) : ∀ d ∈ content, (d != c) = true := by
  intro d hd
  rw [bne_iff_ne]
  rintro rfl
  exact hcontent hd

theorem read_literal (hc : c = '"' ∨ c = '\'') (hcontent : c ∉ content) (rest : List Char) :
    read (c :: (content ++ c :: rest)) = .literal c (String.ofList content) :: read rest := by
  have hstops : startsWith (· != c) (c :: rest) = false := by simp [startsWith]
  have hall := ne_of_not_mem hcontent
  have hdrop := Lexeme.dropWhile_of_startsWith hall hstops
  rw [read, if_neg (not_isRunChar_of_quote hc), if_pos hc,
    Lexeme.takeWhile_of_startsWith hall hstops]
  split
  · next hnil =>
    rw [hdrop] at hnil
    cases hnil
  · next hcons =>
    rw [hdrop] at hcons
    cases hcons
    rfl

theorem read_unclosed (hc : c = '"' ∨ c = '\'') (hcontent : c ∉ content) :
    read (c :: content) = [.unclosed c (String.ofList content)] := by
  have hdrop := Lexeme.dropWhile_of_startsWith (ne_of_not_mem hcontent)
    (show startsWith (· != c) [] = false from rfl)
  rw [List.append_nil] at hdrop
  rw [read, if_neg (not_isRunChar_of_quote hc), if_pos hc]
  split
  · rfl
  · next hcons =>
    rw [hdrop] at hcons
    cases hcons

end Quote

theorem read_sign {c : Char} (hc : Lexeme.isWordOrDigit c = false) (hquote : ¬(c = '"' ∨ c = '\''))
    (rest : List Char) : read (c :: rest) = .sign c :: read rest := by
  rw [read, isRunChar_eq, if_neg (by simp [hc]), if_neg hquote]

end Stretch

-- ====================================================== one lexeme, stretches

/-- What a stretch must be like, by itself. -/
def Stretch.Sound : Stretch → Prop
  | .run word => (∀ c ∈ word.toList, c.isDigit = true) ∨ ∀ c ∈ word.toList, c.isDigit = false
  | .literal _ _ => True
  | .unclosed _ _ => False
  | .sign c => c ∈ signs

/-- A property of every sign is decided sign by sign. -/
theorem Stretch.forall_signs {P : Char → Prop} [DecidablePred P]
    (h : signs.all (fun c => decide (P c)) = true) : ∀ c ∈ signs, P c :=
  fun c hc => of_decide_eq_true (List.all_eq_true.1 h c hc)

namespace Lexeme

open Stretch (read)

/-- Whether lexemes of a kind are no faults. -/
def Kind.inOrder : Kind → Bool
  | .wordIntoNumber | .numberIntoWord | .unterminated | .illegal => false
  | _ => true

theorem inOrder_ofWord (word : List Char) : (Kind.ofWord word).inOrder = true := by
  unfold Kind.ofWord
  split <;> rfl

theorem inOrder_ofSymbol {c : Char} : (Kind.ofSymbol c).inOrder = true ↔ c ∈ Stretch.signs := by
  constructor
  · intro h
    unfold Kind.ofSymbol at h
    split at h
    case h_14 =>
      by_cases hblank : isBlank c = true
      · simp only [isBlank, Bool.or_eq_true, beq_iff_eq] at hblank
        rcases hblank with ((rfl | rfl) | rfl) | rfl <;> decide
      · rw [if_neg hblank] at h
        cases h
    all_goals decide
  · exact Stretch.forall_signs (P := fun c => (Kind.ofSymbol c).inOrder = true) (by decide) c

/-- The signs of the kinds that a header passes over. -/
theorem isSpace_sign_iff {c : Char} (hc : c ∈ Stretch.signs) :
    (Stretch.sign c).isSpace = true ↔ Kind.ofSymbol c = .blank ∨ Kind.ofSymbol c = .newLine :=
  Stretch.forall_signs (P := fun c => (Stretch.sign c).isSpace = true
    ↔ Kind.ofSymbol c = .blank ∨ Kind.ofSymbol c = .newLine) (by decide) c hc

/-- How a lexeme of a kind in order is read. -/
inductive Reads : Kind → List Stretch → Prop
  | word {word : String} (h : ∀ c ∈ word.toList, c.isDigit = false) :
      Reads (.ofWord word.toList) [.run word]
  | whole {digits : String} (hne : digits.toList ≠ [])
      (h : ∀ c ∈ digits.toList, c.isDigit = true) : Reads .number [.run digits]
  | fraction {whole digits : String} (hne : whole.toList ≠ []) (hne' : digits.toList ≠ [])
      (hwhole : ∀ c ∈ whole.toList, c.isDigit = true)
      (hdigits : ∀ c ∈ digits.toList, c.isDigit = true) :
      Reads .number [.run whole, .sign '.', .run digits]
  | quoted {quote content} : Reads .quoted [.literal quote content]
  | sign {c} (hc : c ∈ Stretch.signs) : Reads (.ofSymbol c) [.sign c]

theorem Reads.sound {kind : Kind} {ss : List Stretch} (h : Reads kind ss) : ∀ s ∈ ss, s.Sound := by
  cases h with
  | word h => simpa [Stretch.Sound] using .inr h
  | whole _ h => simpa [Stretch.Sound] using .inl h
  | fraction _ _ hwhole hdigits =>
      simp only [List.forall_mem_cons]
      exact ⟨.inl hwhole, (by decide : '.' ∈ Stretch.signs), .inl hdigits, by simp⟩
  | quoted => simp [Stretch.Sound]
  | sign hc => simpa [Stretch.Sound] using hc

section Cuts

variable {c : Char} {kind : Kind} {tail rest : List Char}

theorem digits_run {cs : List Char} (h : ∀ d ∈ cs, d.isDigit = true) :
    ∀ d ∈ cs, isWordOrDigit d = true :=
  fun d hd => isWordOrDigit_of_isDigit (h d hd)

theorem letters_run {cs : List Char} (h : ∀ d ∈ cs, isWordChar d = true) :
    ∀ d ∈ cs, isWordOrDigit d = true :=
  fun d hd => isWordOrDigit_of_isWordChar (h d hd)

/-- A lexeme in order is read by itself, and so is what follows it. -/
theorem Cuts.read_append (h : Cuts c kind tail rest) (hkind : kind.inOrder = true) :
    ∃ ss, Reads kind ss ∧ read (c :: (tail ++ rest)) = ss ++ read rest := by
  cases h with
  | word hc htail hrest =>
      have hall : ∀ d ∈ c :: tail, isWordChar d = true := List.forall_mem_cons.2 ⟨hc, htail⟩
      refine ⟨[.run (String.ofList (c :: tail))], ?_, Stretch.read_run (letters_run hall) hrest⟩
      have hreads : Reads (.ofWord (String.ofList (c :: tail)).toList) _ :=
        .word fun d hd => isDigit_of_isWordChar (hall d (by simpa using hd))
      rwa [String.toList_ofList] at hreads
  | @number whole fraction rest hc hwhole hfraction hrest hpoint =>
      have hall : ∀ d ∈ c :: whole, d.isDigit = true := List.forall_mem_cons.2 ⟨hc, hwhole⟩
      cases hfraction with
      | none =>
          refine ⟨[.run (String.ofList (c :: whole))], .whole (by simp) (by simpa using hall), ?_⟩
          rw [List.append_nil]
          exact Stretch.read_run (digits_run hall) hrest
      | @digits d ds hdigits =>
          refine ⟨[.run (String.ofList (c :: whole)), .sign '.', .run (String.ofList (d :: ds))],
            .fraction (by simp) (by simp) (by simpa using hall) (by simpa using hdigits), ?_⟩
          have hpoint : read ('.' :: d :: (ds ++ rest))
              = .sign '.' :: .run (String.ofList (d :: ds)) :: read rest := by
            rw [Stretch.read_sign (by decide) (by decide),
              Stretch.read_run (digits_run hdigits) hrest]
          rw [List.append_assoc, Stretch.read_run (digits_run hall) rfl]
          exact congrArg _ hpoint
  | @quoted content rest hc hcontent =>
      refine ⟨[.literal c (String.ofList content)], .quoted, ?_⟩
      rw [List.append_assoc]
      exact Stretch.read_literal hc hcontent rest
  | symbol hc hquote =>
      exact ⟨[.sign c], .sign (inOrder_ofSymbol.1 hkind), Stretch.read_sign hc hquote rest⟩
  | wordIntoNumber | numberIntoWord | unterminated => cases hkind

/-- A run with a letter and a digit in it. -/
theorem not_sound_run {cs : List Char} {letter digit : Char} (hletter : letter ∈ cs)
    (hdigit : digit ∈ cs) (h : isWordChar letter = true) (h' : digit.isDigit = true) :
    ¬(Stretch.run (String.ofList cs)).Sound := by
  simp only [Stretch.Sound, String.toList_ofList]
  rintro (hall | hall)
  · have := hall letter hletter
    rw [isDigit_of_isWordChar h] at this
    cases this
  · have := hall digit hdigit
    rw [h'] at this
    cases this

/-- A lexeme that is a fault has a place where the text is not in the
language. -/
theorem Cuts.unsound (h : Cuts c kind tail rest) (hkind : kind.inOrder = false) :
    ∃ s ∈ read (c :: (tail ++ rest)), ¬s.Sound := by
  cases h with
  | @wordIntoNumber word d more rest hc hword hd hmore hrest =>
      have hall : ∀ e ∈ c :: (word ++ d :: more), isWordOrDigit e = true := by
        intro e he
        rw [← List.cons_append] at he
        rcases List.mem_append.1 he with he | he
        · exact letters_run (List.forall_mem_cons.2 ⟨hc, hword⟩) e he
        · rcases List.mem_cons.1 he with rfl | he
          · exact isWordOrDigit_of_isDigit hd
          · exact hmore e he
      rw [Stretch.read_run hall hrest]
      exact ⟨_, List.mem_cons_self, not_sound_run (by simp) (by simp) hc hd⟩
  | @numberIntoWord whole fraction letter rest hc hwhole hfraction hletter =>
      -- the digits before the letter are read together with it
      have hrun : ∀ d ds more, (∀ e ∈ d :: ds, e.isDigit = true) →
          ∃ s ∈ read (d :: (ds ++ letter :: more)), ¬s.Sound := by
        intro d ds more hdigits
        have hall : ∀ e ∈ d :: (ds ++ [letter]), isWordOrDigit e = true := by
          intro e he
          rw [← List.cons_append] at he
          rcases List.mem_append.1 he with he | he
          · exact digits_run hdigits e he
          · rw [List.mem_singleton.1 he]
            exact isWordOrDigit_of_isWordChar hletter
        obtain ⟨more', after, hread⟩ := Stretch.read_run_prefix more hall
        rw [List.append_assoc] at hread
        rw [show ds ++ letter :: more = ds ++ ([letter] ++ more) from rfl, hread]
        refine ⟨_, List.mem_cons_self, not_sound_run ?_ ?_ hletter (hdigits d List.mem_cons_self)⟩
        · simp
        · simp
      have hall : ∀ d ∈ c :: whole, d.isDigit = true := List.forall_mem_cons.2 ⟨hc, hwhole⟩
      cases hfraction with
      | none => simpa using hrun c whole rest hall
      | @digits d ds hdigits =>
          obtain ⟨s, hs, hsound⟩ := hrun d ds rest hdigits
          have htext : whole ++ '.' :: d :: ds ++ [letter] ++ rest
              = whole ++ '.' :: d :: (ds ++ letter :: rest) := by simp
          rw [htext, Stretch.read_run (digits_run hall) rfl,
            Stretch.read_sign (by decide) (by decide)]
          exact ⟨s, List.mem_cons_of_mem _ (List.mem_cons_of_mem _ hs), hsound⟩
  | unterminated hc hcontent =>
      rw [List.append_nil, Stretch.read_unclosed hc hcontent]
      exact ⟨_, List.mem_cons_self, fun h => h⟩
  | symbol hc hquote =>
      refine ⟨.sign c, ?_, fun hsign => ?_⟩
      · rw [List.nil_append, Stretch.read_sign hc hquote]
        exact List.mem_cons_self
      · rw [inOrder_ofSymbol.2 hsign] at hkind
        cases hkind
  | word =>
      rw [inOrder_ofWord] at hkind
      cases hkind
  | number | quoted => cases hkind

end Cuts

end Lexeme

-- ================================================================== headers

namespace Stretch

open Scan (Expectation)

/-- The stretches begin with what is left of a header. -/
inductive Completes : Expectation → List Stretch → Prop
  | name {word ss} (hword : IsName word) (hrest : Completes .openParen ss) :
      Completes .name (.run word :: ss)
  | opening {ss} (hrest : Completes .parameterOrClose ss) :
      Completes .openParen (.sign '(' :: ss)
  | parameter {expects word ss} (hexpects : expects = .parameterOrClose ∨ expects = .parameter)
      (hword : IsName word) (hrest : Completes .commaOrClose ss) :
      Completes expects (.run word :: ss)
  | comma {ss} (hrest : Completes .parameter ss) : Completes .commaOrClose (.sign ',' :: ss)
  | closing {expects ss} (hexpects : expects = .parameterOrClose ∨ expects = .commaOrClose) :
      Completes expects (.sign ')' :: ss)

/-- Parameters after the first one, each with its comma. -/
def furtherParameters (parameters : List String) : List Stretch :=
  parameters.flatMap fun p => [.sign ',', .run p]

theorem intersperse_parameters (first : String) (others : List String) :
    ((first :: others).map Stretch.run).intersperse (.sign ',')
      = .run first :: furtherParameters others := by
  induction others generalizing first with
  | nil => rfl
  | cons second others ih =>
      have hstep : ((first :: second :: others).map Stretch.run).intersperse (.sign ',')
          = .run first :: .sign ',' :: ((second :: others).map Stretch.run).intersperse (.sign ',') :=
        rfl
      rw [hstep, ih]
      rfl

theorem completes_commaOrClose_iff {ss : List Stretch} :
    Completes .commaOrClose ss
      ↔ ∃ parameters, (∀ p ∈ parameters, IsName p)
        ∧ furtherParameters parameters ++ [.sign ')'] <+: ss := by
  constructor
  · intro h
    generalize hexpects : Expectation.commaOrClose = expects at h
    -- a comma and the parameter after it belong together
    suffices hboth : (expects = .commaOrClose → ∃ parameters, (∀ p ∈ parameters, IsName p)
          ∧ furtherParameters parameters ++ [.sign ')'] <+: ss)
        ∧ (expects = .parameter → ∃ first others, IsName first ∧ (∀ p ∈ others, IsName p)
          ∧ .run first :: (furtherParameters others ++ [.sign ')']) <+: ss) from
      hboth.1 hexpects.symm
    clear hexpects
    induction h with
    | name | opening => exact ⟨nofun, nofun⟩
    | @parameter expects word ss hexpects hword _ ih =>
        refine ⟨fun h => ?_, fun _ => ?_⟩
        · rw [h] at hexpects
          rcases hexpects with h | h <;> cases h
        · obtain ⟨others, hothers, hprefix⟩ := ih.1 rfl
          exact ⟨word, others, hword, hothers, List.cons_prefix_cons.2 ⟨rfl, hprefix⟩⟩
    | comma _ ih =>
        refine ⟨fun _ => ?_, nofun⟩
        obtain ⟨first, others, hfirst, hothers, hprefix⟩ := ih.2 rfl
        exact ⟨first :: others, List.forall_mem_cons.2 ⟨hfirst, hothers⟩,
          List.cons_prefix_cons.2 ⟨rfl, hprefix⟩⟩
    | closing hexpects =>
        refine ⟨fun _ => ⟨[], nofun, List.cons_prefix_cons.2 ⟨rfl, List.nil_prefix⟩⟩, fun h => ?_⟩
        rw [h] at hexpects
        rcases hexpects with h | h <;> cases h
  · rintro ⟨parameters, hnames, rest, rfl⟩
    induction parameters with
    | nil => exact .closing (.inr rfl)
    | cons p parameters ih =>
        obtain ⟨hp, hnames⟩ := List.forall_mem_cons.1 hnames
        exact .comma (.parameter (.inr rfl) hp (ih hnames))

/-- What the scanner expects after the word `function` is a header. -/
theorem completes_name_iff {ss : List Stretch} :
    Completes .name (ss.filter (!·.isSpace)) ↔ OpensHeader ss := by
  unfold OpensHeader
  generalize ss.filter (!·.isSpace) = ss
  constructor
  · intro h
    cases h with
    | parameter hexpects => rcases hexpects with h | h <;> cases h
    | closing hexpects => rcases hexpects with h | h <;> cases h
    | @name name ss hname hrest =>
        cases hrest with
        | parameter hexpects => rcases hexpects with h | h <;> cases h
        | closing hexpects => rcases hexpects with h | h <;> cases h
        | opening hrest =>
            cases hrest with
            | closing =>
                refine ⟨name, [], hname, nofun, ?_⟩
                simp [header]
            | @parameter _ first ss _ hfirst hrest =>
                obtain ⟨others, hothers, hprefix⟩ := completes_commaOrClose_iff.1 hrest
                refine ⟨name, first :: others, hname, List.forall_mem_cons.2 ⟨hfirst, hothers⟩, ?_⟩
                rw [header, intersperse_parameters]
                simpa using hprefix
  · rintro ⟨name, parameters, hname, hnames, rest, rfl⟩
    refine .name hname (.opening ?_)
    cases parameters with
    | nil => exact .closing (.inl rfl)
    | cons first others =>
        obtain ⟨hfirst, hothers⟩ := List.forall_mem_cons.1 hnames
        rw [intersperse_parameters]
        refine .parameter (.inl rfl) hfirst (completes_commaOrClose_iff.2 ⟨others, hothers, ?_⟩)
        exact List.prefix_append _ rest

/-- Every `function` is followed by a header. -/
def Headers (ss : List Stretch) : Prop :=
  ∀ before after, ss = before ++ .run "function" :: after → OpensHeader after

theorem headers_nil : Headers [] := by
  intro before after h
  cases before <;> cases h

theorem headers_cons {s : Stretch} {ss : List Stretch} :
    Headers (s :: ss) ↔ (s = .run "function" → OpensHeader ss) ∧ Headers ss := by
  constructor
  · intro h
    refine ⟨?_, fun before after hss => h (s :: before) after (by rw [hss]; rfl)⟩
    rintro rfl
    exact h [] ss rfl
  · rintro ⟨hfirst, hrest⟩ before after hss
    cases before with
    | nil =>
        cases hss
        exact hfirst rfl
    | cons s' before =>
        obtain ⟨-, hss⟩ := List.cons.inj hss
        exact hrest before after hss

end Stretch

namespace Lexeme

open Stretch (read Headers OpensHeader Completes)
open Scan (Makes Passes Closes Header)

theorem ofWord_eq_word {word : String} :
    Kind.ofWord word.toList = .word ↔ word ∉ Stretch.keywords := by
  unfold Kind.ofWord
  rw [String.ofList_toList]
  split <;> simp_all [Stretch.keywords]

theorem ofWord_eq_function {word : String} :
    Kind.ofWord word.toList = .function ↔ word = "function" := by
  unfold Kind.ofWord
  rw [String.ofList_toList]
  split <;> simp_all

section Reads

variable {kind : Kind} {ss : List Stretch}

theorem Reads.of_word (h : Reads kind ss) (hkind : kind = .word) :
    ∃ word, Stretch.IsName word ∧ ss = [.run word] := by
  cases h with
  | @word word h => exact ⟨word, ⟨h, ofWord_eq_word.1 hkind⟩, rfl⟩
  | @sign c hc =>
      exact absurd hkind (Stretch.forall_signs (P := (Kind.ofSymbol · ≠ .word)) (by decide) c hc)
  | whole | fraction | quoted => cases hkind

/-- The kinds of spaces and line breaks. -/
theorem Reads.of_space (h : Reads kind ss) (hkind : kind = .blank ∨ kind = .newLine) :
    ∃ c, (Stretch.sign c).isSpace = true ∧ ss = [.sign c] := by
  cases h with
  | word => rcases hkind with h | h <;> exact absurd h (ofWord_ne (by decide) _)
  | @sign c hc => exact ⟨c, (isSpace_sign_iff hc).2 hkind, rfl⟩
  | whole | fraction | quoted => simp at hkind

/-- A sign with a kind to itself. -/
theorem Reads.of_sign {d : Char} (h : Reads kind ss) (hd : d ∈ ['(', ',', ')'])
    (hkind : kind = .ofSymbol d) : ss = [.sign d] := by
  simp only [List.mem_cons, List.not_mem_nil, or_false] at hd
  cases h with
  | word => rcases hd with rfl | rfl | rfl <;> exact absurd hkind (ofWord_ne (by decide) _)
  | @sign c hc =>
      have hsame : Stretch.signs.all
          (fun c => decide (Kind.ofSymbol c = .ofSymbol d → c = d)) = true := by
        rcases hd with rfl | rfl | rfl <;> decide
      have heq : c = d := Stretch.forall_signs hsame c hc hkind
      rw [heq]
  | whole | fraction | quoted => rcases hd with rfl | rfl | rfl <;> cases hkind

theorem ne_function_of_digits {digits : String} (h : ∀ c ∈ digits.toList, c.isDigit = true) :
    digits ≠ "function" := by
  rintro rfl
  exact absurd (h 'f' (by decide)) (by decide)

theorem not_isName_of_digits {digits : String} (hne : digits.toList ≠ [])
    (h : ∀ c ∈ digits.toList, c.isDigit = true) : ¬Stretch.IsName digits := by
  intro hname
  obtain ⟨c, hc⟩ := List.exists_mem_of_ne_nil _ hne
  have := hname.digitFree c hc
  rw [h c hc] at this
  cases this

/-- The word `function` is read as such, and nothing else is. -/
theorem Reads.headers_append (h : Reads kind ss) (rest : List Stretch) :
    Headers (ss ++ rest) ↔ (kind = .function → OpensHeader rest) ∧ Headers rest := by
  cases h with
  | @word word h =>
      rw [List.singleton_append, Stretch.headers_cons, ofWord_eq_function, Stretch.run.injEq]
  | whole _ h => simp [Stretch.headers_cons, ne_function_of_digits h]
  | fraction _ _ h h' =>
      simp [Stretch.headers_cons, ne_function_of_digits h, ne_function_of_digits h']
  | quoted => simp [Stretch.headers_cons]
  | @sign c hc =>
      have hkind := Stretch.forall_signs (P := (Kind.ofSymbol · ≠ .function)) (by decide) c hc
      simp [Stretch.headers_cons, hkind]

/-- A header goes on with a lexeme if its stretches begin what is left of
the header. -/
theorem Reads.completes_append {h : Header} {l : Lexeme} (hreads : Reads l.kind ss)
    (rest : List Stretch) :
    Completes h.expects (ss.filter (!·.isSpace) ++ rest)
      ↔ (∃ h', Passes h l h' ∧ Completes h'.expects rest) ∨ Closes h l := by
  constructor
  · intro hcompletes
    generalize hkind : l.kind = kind at hreads
    generalize hexpects : h.expects = expects at hcompletes
    cases hreads with
    | word =>
        cases hcompletes with
        | name hword hrest =>
            exact .inl ⟨_, .name (hkind.trans (ofWord_eq_word.2 hword.free)) hexpects, hrest⟩
        | parameter hstate hword hrest =>
            rw [← hexpects] at hstate
            exact .inl ⟨_, .parameter (hkind.trans (ofWord_eq_word.2 hword.free)) hstate, hrest⟩
    | whole hne hdigits =>
        cases hcompletes with
        | name hword => exact absurd hword (not_isName_of_digits hne hdigits)
        | parameter _ hword => exact absurd hword (not_isName_of_digits hne hdigits)
    | fraction hne _ hdigits =>
        cases hcompletes with
        | name hword => exact absurd hword (not_isName_of_digits hne hdigits)
        | parameter _ hword => exact absurd hword (not_isName_of_digits hne hdigits)
    | quoted => cases hcompletes
    | @sign c hc =>
        by_cases hspace : (Stretch.sign c).isSpace = true
        · have hl : l.kind = .blank ∨ l.kind = .newLine := by
            rw [hkind]
            exact (isSpace_sign_iff hc).1 hspace
          refine .inl ⟨_, .space hl, ?_⟩
          rw [List.filter_cons_of_neg (by simp [hspace])] at hcompletes
          exact hexpects ▸ hcompletes
        · rw [List.filter_cons_of_pos (by simp [hspace])] at hcompletes
          cases hcompletes with
          | opening hrest => exact .inl ⟨_, .opening hkind hexpects, hrest⟩
          | comma hrest => exact .inl ⟨_, .comma hkind hexpects, hrest⟩
          | closing hstate =>
              rw [← hexpects] at hstate
              exact .inr ⟨hkind, hstate⟩
  · rintro (⟨h', hpasses, hrest⟩ | ⟨hkind, hexpects⟩)
    · cases hpasses with
      | space hl =>
          obtain ⟨c, hspace, rfl⟩ := hreads.of_space hl
          rw [List.filter_cons_of_neg (by simp [hspace])]
          exact hrest
      | name hl hh =>
          obtain ⟨word, hword, rfl⟩ := hreads.of_word hl
          rw [hh]
          exact .name hword hrest
      | opening hl hh =>
          obtain rfl := hreads.of_sign (d := '(') (by decide) hl
          rw [hh]
          exact .opening hrest
      | parameter hl hh =>
          obtain ⟨word, hword, rfl⟩ := hreads.of_word hl
          exact .parameter hh hword hrest
      | comma hl hh =>
          obtain rfl := hreads.of_sign (d := ',') (by decide) hl
          rw [hh]
          exact .comma hrest
    · obtain rfl := hreads.of_sign (d := ')') (by decide) hkind
      exact .closing hexpects

end Reads

-- ============================================================== all lexemes

/-- The lexemes of a text that can be scanned are in order. -/
theorem inOrder_of_makes {header : Option Header} {ls : List Lexeme} {ts : List Token}
    (h : Makes header ls ts) : ∀ l ∈ ls, l.kind.inOrder = true := by
  induction h with
  | nil => nofun
  | blank hl _ ih | opening hl _ ih =>
      refine List.forall_mem_cons.2 ⟨?_, ih⟩
      rw [hl]
      rfl
  | @token l ls kind ts hl _ ih =>
      refine List.forall_mem_cons.2 ⟨?_, ih⟩
      cases hkind : l.kind <;> rw [hkind] at hl <;> first | rfl | cases hl
  | inside hl _ ih =>
      refine List.forall_mem_cons.2 ⟨?_, ih⟩
      cases hl with
      | space hl => rcases hl with hl | hl <;> rw [hl] <;> rfl
      | name hl | opening hl | parameter hl | comma hl =>
          rw [hl]
          rfl
  | closing hl _ ih =>
      refine List.forall_mem_cons.2 ⟨?_, ih⟩
      rw [hl.kind]
      rfl

/-- A text whose stretches are sound has lexemes in order, and the other way
round. -/
theorem inOrder_iff_sound {offset : Nat} {cs : List Char} {ls : List Lexeme}
    (hsplit : splitFrom [] offset cs = ls) :
    (∀ l ∈ ls, l.kind.inOrder = true) ↔ ∀ s ∈ read cs, s.Sound := by
  induction ls generalizing offset cs with
  | nil =>
      have hchars := charsOf_splitFrom hsplit
      subst hchars
      simp [Stretch.read_nil]
  | cons l ls ih =>
      obtain ⟨rest, hstands, rfl, hrest⟩ := stands_of_splitFrom hsplit
      show _ ↔ ∀ s ∈ read (l.first :: (l.tail ++ rest)), s.Sound
      rw [List.forall_mem_cons]
      by_cases hl : l.kind.inOrder = true
      · obtain ⟨ss, hreads, hread⟩ := hstands.cuts.read_append hl
        rw [hread, List.forall_mem_append, ih hrest]
        exact ⟨fun h => ⟨hreads.sound, h.2⟩, fun h => ⟨hl, h.2⟩⟩
      · obtain ⟨s, hs, hsound⟩ := hstands.cuts.unsound (by simpa using hl)
        exact ⟨fun h => absurd h.1 hl, fun h => absurd (h s hs) hsound⟩

theorem exists_makes_cons {l : Lexeme} {ls : List Lexeme} (hl : l.kind.inOrder = true) :
    (∃ ts, Makes none (l :: ls) ts)
      ↔ if l.kind = .function then ∃ ts, Makes (some (Scan.opened l)) ls ts
        else ∃ ts, Makes none ls ts := by
  by_cases hfunction : l.kind = .function
  · rw [if_pos hfunction]
    constructor
    · rintro ⟨ts, hmakes⟩
      cases hmakes with
      | blank hkind => rw [hfunction] at hkind; cases hkind
      | token hkind => rw [hfunction] at hkind; cases hkind
      | opening _ hmakes => exact ⟨ts, hmakes⟩
    · rintro ⟨ts, hmakes⟩
      exact ⟨ts, .opening hfunction hmakes⟩
  · rw [if_neg hfunction]
    constructor
    · rintro ⟨ts, hmakes⟩
      cases hmakes with
      | blank _ hmakes => exact ⟨_, hmakes⟩
      | token _ hmakes => exact ⟨_, hmakes⟩
      | opening hkind => exact absurd hkind hfunction
    · rintro ⟨ts, hmakes⟩
      by_cases hblank : l.kind = .blank
      · exact ⟨ts, .blank hblank hmakes⟩
      · obtain ⟨kind, hkind⟩ : ∃ kind, l.kind.token? = some kind := by
          cases hcases : l.kind <;> rw [hcases] at hl hfunction hblank <;>
            simp_all [Kind.token?, Kind.inOrder]
        exact ⟨_, .token hkind hmakes⟩

theorem kind_ne_function_of_passes {h h' : Header} {l : Lexeme} (hpasses : Passes h l h') :
    l.kind ≠ .function := by
  intro hfunction
  cases hpasses with
  | space hl => rcases hl with hl | hl <;> rw [hl] at hfunction <;> cases hfunction
  | name hl | opening hl | parameter hl | comma hl =>
      rw [hl] at hfunction
      cases hfunction

theorem exists_makes_header_cons {h : Header} {l : Lexeme} {ls : List Lexeme} :
    (∃ ts, Makes (some h) (l :: ls) ts)
      ↔ (∃ h', Passes h l h' ∧ ∃ ts, Makes (some h') ls ts)
        ∨ (Closes h l ∧ ∃ ts, Makes none ls ts) := by
  constructor
  · rintro ⟨ts, hmakes⟩
    cases hmakes with
    | inside hl hmakes => exact .inl ⟨_, hl, _, hmakes⟩
    | closing hl hmakes => exact .inr ⟨hl, _, hmakes⟩
  · rintro (⟨h', hl, ts, hmakes⟩ | ⟨hl, ts, hmakes⟩)
    · exact ⟨ts, .inside hl hmakes⟩
    · exact ⟨_, .closing hl hmakes⟩

/-- With lexemes in order, all that can go wrong is a header. -/
theorem makes_iff_headers {offset : Nat} {cs : List Char} {ls : List Lexeme}
    (hsplit : splitFrom [] offset cs = ls) (horder : ∀ l ∈ ls, l.kind.inOrder = true) :
    ((∃ ts, Makes none ls ts) ↔ Headers (read cs))
      ∧ ∀ h, (∃ ts, Makes (some h) ls ts)
          ↔ Completes h.expects ((read cs).filter (!·.isSpace)) ∧ Headers (read cs) := by
  induction ls generalizing offset cs with
  | nil =>
      have hchars := charsOf_splitFrom hsplit
      subst hchars
      rw [charsOf_nil, Stretch.read_nil]
      refine ⟨iff_of_true ⟨[], .nil⟩ Stretch.headers_nil, fun h => iff_of_false ?_ ?_⟩
      · rintro ⟨ts, hmakes⟩
        cases hmakes
      · rintro ⟨hcompletes, -⟩
        generalize h.expects = expects at hcompletes
        cases hcompletes
  | cons l ls ih =>
      obtain ⟨hl, horder⟩ := List.forall_mem_cons.1 horder
      obtain ⟨rest, hstands, rfl, hrest⟩ := stands_of_splitFrom hsplit
      obtain ⟨ss, hreads, hread⟩ := hstands.cuts.read_append hl
      obtain ⟨houtside, hinside⟩ := ih hrest horder
      rw [show l.chars ++ rest = l.first :: (l.tail ++ rest) from rfl, hread, List.filter_append,
        hreads.headers_append]
      refine ⟨?_, fun h => ?_⟩
      · rw [exists_makes_cons hl]
        by_cases hfunction : l.kind = .function
        · rw [if_pos hfunction, hinside, ← Stretch.completes_name_iff]
          simp [hfunction, Scan.opened]
        · rw [if_neg hfunction, houtside]
          simp [hfunction]
      · rw [exists_makes_header_cons, hreads.completes_append]
        simp only [hinside, houtside]
        constructor
        · rintro (⟨h', hpasses, hcompletes, hheaders⟩ | ⟨hcloses, hheaders⟩)
          · refine ⟨.inl ⟨h', hpasses, hcompletes⟩, fun hfunction => ?_, hheaders⟩
            exact absurd hfunction (kind_ne_function_of_passes hpasses)
          · refine ⟨.inr hcloses, fun hfunction => ?_, hheaders⟩
            rw [hcloses.kind] at hfunction
            cases hfunction
        · rintro ⟨⟨h', hpasses, hcompletes⟩ | hcloses, -, hheaders⟩
          · exact .inl ⟨h', hpasses, hcompletes, hheaders⟩
          · exact .inr ⟨hcloses, hheaders⟩

end Lexeme

theorem inLanguage_iff {text : List Char} :
    InLanguage text ↔ (∀ s ∈ Stretch.read text, s.Sound) ∧ Stretch.Headers (Stretch.read text) := by
  constructor
  · intro h
    refine ⟨fun s hs => ?_, h.headers⟩
    cases s with
    | run word => exact h.runs word hs
    | literal => trivial
    | unclosed quote content => exact absurd hs (h.closed quote content)
    | sign c => exact h.signs c hs
  · rintro ⟨hsound, hheaders⟩
    exact ⟨fun quote content hs => hsound _ hs, fun c hs => hsound _ hs,
      fun word hs => hsound _ hs, hheaders⟩

/-- The scanner accepts exactly the texts of the language. -/
theorem scanning_accepts_the_language (source : String) :
    (∃ tokens, scan source = .ok tokens) ↔ InLanguage source.toList := by
  have hsplit : Lexeme.splitFrom [] 0 source.toList = Lexeme.split source.toList := rfl
  rw [inLanguage_iff, ← Lexeme.inOrder_iff_sound hsplit]
  simp only [scan_eq_ok_iff]
  constructor
  · rintro ⟨tokens, hmakes⟩
    have horder := Lexeme.inOrder_of_makes hmakes
    exact ⟨horder, (Lexeme.makes_iff_headers hsplit horder).1.1 ⟨tokens, hmakes⟩⟩
  · rintro ⟨horder, hheaders⟩
    exact (Lexeme.makes_iff_headers hsplit horder).1.2 hheaders

end ScopedScript
