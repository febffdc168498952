/-
Which lexemes make which tokens.

The scanner goes from lexeme to lexeme and carries a state along: the tokens
so far, and the header it is in. `Makes` describes the same without tokens
that pile up: it relates lexemes to the tokens they make, one rule for each
thing that a lexeme can do, and what is left of the state is the header.

# One lexeme at a time

`stepOutside_eq_ok` and `stepHeader_eq_ok` say all that a step of the
scanner can do if it does not fail. Everything else about scanning that
succeeds follows from `Makes`, by induction on its rules; the bridge is
`scan_eq_ok_iff`.
-/
import ScopedScript.Proofs.Munching

namespace ScopedScript

/-- The kind of the token that a lexeme of a kind makes by itself. -/
def Lexeme.Kind.token? : Lexeme.Kind → Option Token.Kind
  | .ret => some .ret
  | .var => some .variableDeclaration
  | .boolean => some .boolean
  | .word => some .identifier
  | .number => some .number
  | .quoted => some .string
  | .newLine => some .newLine
  | .equals => some .assign
  | .openBrace => some .openBlock
  | .closeBrace => some .closeBlock
  | .openParen => some .openParen
  | .closeParen => some .closeParen
  | .semicolon => some .semicolon
  | .comma => some .comma
  | .dot => some .dot
  | .operator => some .operator
  | .function | .wordIntoNumber | .numberIntoWord | .unterminated | .blank | .illegal => none

namespace Scan

-- =============================================================== one lexeme

/-- The token that a lexeme makes by itself. -/
def single (l : Lexeme) (kind : Token.Kind) : Token :=
  { kind, text := if l.kind = .quoted then unquoted l else l.text, span := l.span }

/-- The header that a lexeme opens. -/
def opened (l : Lexeme) : Header := ⟨l.span.start, l.text, [], .name⟩

/-- Outside of headers a lexeme is passed over, opens a header or makes a
token. -/
theorem stepOutside_eq_ok {tokens : List Token} {l : Lexeme} {s : State} :
    stepOutside tokens l = .ok s
      ↔ (l.kind = .blank ∧ s = ⟨tokens, none⟩)
        ∨ (l.kind = .function ∧ s = ⟨tokens, some (opened l)⟩)
        ∨ ∃ kind, l.kind.token? = some kind ∧ s = ⟨single l kind :: tokens, none⟩ := by
  obtain ⟨kind, first, tail, span⟩ := l
  cases kind <;>
    simp [stepOutside, Lexeme.Kind.token?, single, opened, eq_comm (a := s)]

/-- A lexeme with which a header goes on, and the header after it. -/
inductive Passes (h : Header) (l : Lexeme) : Header → Prop
  | space (hl : l.kind = .blank ∨ l.kind = .newLine) : Passes h l (h.pass l h.expects)
  | name (hl : l.kind = .word) (hh : h.expects = .name) : Passes h l (h.add .name l .openParen)
  | opening (hl : l.kind = .openParen) (hh : h.expects = .openParen) :
      Passes h l (h.pass l .parameterOrClose)
  | parameter (hl : l.kind = .word)
      (hh : h.expects = .parameterOrClose ∨ h.expects = .parameter) :
      Passes h l (h.add .parameter l .commaOrClose)
  | comma (hl : l.kind = .comma) (hh : h.expects = .commaOrClose) :
      Passes h l (h.pass l .parameter)

/-- A lexeme that ends a header. -/
structure Closes (h : Header) (l : Lexeme) : Prop where
  kind : l.kind = .closeParen
  expects : h.expects = .parameterOrClose ∨ h.expects = .commaOrClose

/-- Inside of a header a lexeme is part of it or ends it. -/
theorem stepHeader_eq_ok {tokens : List Token} {h : Header} {l : Lexeme} {s : State} :
    stepHeader tokens h l = .ok s
      ↔ (∃ h', Passes h l h' ∧ s = ⟨tokens, some h'⟩)
        ∨ (Closes h l ∧ s = ⟨h.close l :: tokens, none⟩) := by
  constructor
  · intro hstep
    unfold stepHeader at hstep
    split at hstep
    · next hkind =>
      cases hstep
      exact .inl ⟨_, .space (.inl hkind), rfl⟩
    · next hkind =>
      cases hstep
      exact .inl ⟨_, .space (.inr hkind), rfl⟩
    · cases hstep
    · cases hstep
    · cases hstep
    · next hkind hexpects =>
      cases hstep
      exact .inl ⟨_, .name hkind hexpects, rfl⟩
    · next hkind hexpects =>
      cases hstep
      exact .inl ⟨_, .opening hkind hexpects, rfl⟩
    · next hkind hexpects =>
      cases hstep
      exact .inr ⟨⟨hkind, .inl hexpects⟩, rfl⟩
    · next hkind hexpects =>
      cases hstep
      exact .inr ⟨⟨hkind, .inr hexpects⟩, rfl⟩
    · next hkind hexpects =>
      cases hstep
      exact .inl ⟨_, .parameter hkind (.inl hexpects), rfl⟩
    · next hkind hexpects =>
      cases hstep
      exact .inl ⟨_, .parameter hkind (.inr hexpects), rfl⟩
    · next hkind hexpects =>
      cases hstep
      exact .inl ⟨_, .comma hkind hexpects, rfl⟩
    · cases hstep
  · rintro (⟨h', hpasses, rfl⟩ | ⟨⟨hkind, hexpects⟩, rfl⟩)
    · cases hpasses with
      | space hl => rcases hl with hl | hl <;> simp [stepHeader, hl]
      | name hl hh => simp [stepHeader, hl, hh]
      | opening hl hh => simp [stepHeader, hl, hh]
      | parameter hl hh => rcases hh with hh | hh <;> simp [stepHeader, hl, hh]
      | comma hl hh => simp [stepHeader, hl, hh]
    · rcases hexpects with hexpects | hexpects <;> simp [stepHeader, hkind, hexpects]

theorem Passes.text_eq {h h' : Header} {l : Lexeme} (hpasses : Passes h l h') :
    h'.text = h.text ++ l.text := by
  cases hpasses <;> rfl

theorem Passes.start_eq {h h' : Header} {l : Lexeme} (hpasses : Passes h l h') :
    h'.start = h.start := by
  cases hpasses <;> rfl

-- ============================================================== all lexemes

/-- The tokens that lexemes make, outside of headers or from inside of a
header on. -/
inductive Makes : Option Header → List Lexeme → List Token → Prop
  | nil : Makes none [] []
  | blank {l ls ts} (hl : l.kind = .blank) (hrest : Makes none ls ts) : Makes none (l :: ls) ts
  | token {l ls kind ts} (hl : l.kind.token? = some kind) (hrest : Makes none ls ts) :
      Makes none (l :: ls) (single l kind :: ts)
  | opening {l ls ts} (hl : l.kind = .function) (hrest : Makes (some (opened l)) ls ts) :
      Makes none (l :: ls) ts
  | inside {h l h' ls ts} (hl : Passes h l h') (hrest : Makes (some h') ls ts) :
      Makes (some h) (l :: ls) ts
  | closing {h l ls ts} (hl : Closes h l) (hrest : Makes none ls ts) :
      Makes (some h) (l :: ls) (h.close l :: ts)

/-- The tokens that are made come after the tokens that there are. -/
theorem makes_of_foldlM {ls : List Lexeme} {s s' : State} (h : ls.foldlM step s = .ok s')
    (hend : s'.header = none) :
    ∃ ts, s'.tokens = ts.reverse ++ s.tokens ∧ Makes s.header ls ts := by
  induction ls generalizing s with
  | nil =>
      cases h
      rw [hend]
      exact ⟨[], rfl, .nil⟩
  | cons l ls ih =>
      rw [List.foldlM_cons] at h
      cases hstep : step s l with
      | error e =>
          rw [hstep] at h
          cases h
      | ok s'' =>
          rw [hstep] at h
          obtain ⟨ts, htokens, hmakes⟩ := ih h
          obtain ⟨tokens, header⟩ := s
          cases header with
          | none =>
              rcases stepOutside_eq_ok.1 hstep with ⟨hl, rfl⟩ | ⟨hl, rfl⟩ | ⟨kind, hl, rfl⟩
              · exact ⟨ts, htokens, .blank hl hmakes⟩
              · exact ⟨ts, htokens, .opening hl hmakes⟩
              · refine ⟨single l kind :: ts, ?_, .token hl hmakes⟩
                rw [htokens]
                simp
          | some header =>
              rcases stepHeader_eq_ok.1 hstep with ⟨header', hl, rfl⟩ | ⟨hl, rfl⟩
              · exact ⟨ts, htokens, .inside hl hmakes⟩
              · refine ⟨header.close l :: ts, ?_, .closing hl hmakes⟩
                rw [htokens]
                simp

theorem foldlM_outside {tokens : List Token} {l : Lexeme} {s : State} (ls : List Lexeme)
    (h : stepOutside tokens l = .ok s) :
    (l :: ls).foldlM step ⟨tokens, none⟩ = ls.foldlM step s := by
  rw [List.foldlM_cons, show step ⟨tokens, none⟩ l = .ok s from h]
  rfl

theorem foldlM_header {tokens : List Token} {header : Header} {l : Lexeme} {s : State}
    (ls : List Lexeme) (h : stepHeader tokens header l = .ok s) :
    (l :: ls).foldlM step ⟨tokens, some header⟩ = ls.foldlM step s := by
  rw [List.foldlM_cons, show step ⟨tokens, some header⟩ l = .ok s from h]
  rfl

theorem foldlM_of_makes {header : Option Header} {ls : List Lexeme} {ts : List Token}
    (h : Makes header ls ts) (tokens : List Token) :
    ls.foldlM step ⟨tokens, header⟩ = .ok ⟨ts.reverse ++ tokens, none⟩ := by
  induction h generalizing tokens with
  | nil => rfl
  | blank hl _ ih => rw [foldlM_outside _ (stepOutside_eq_ok.2 (.inl ⟨hl, rfl⟩)), ih]
  | @token l ls kind ts hl _ ih =>
      rw [foldlM_outside _ (stepOutside_eq_ok.2 (.inr (.inr ⟨kind, hl, rfl⟩))), ih]
      simp
  | opening hl _ ih => rw [foldlM_outside _ (stepOutside_eq_ok.2 (.inr (.inl ⟨hl, rfl⟩))), ih]
  | inside hl _ ih => rw [foldlM_header _ (stepHeader_eq_ok.2 (.inl ⟨_, hl, rfl⟩)), ih]
  | closing hl _ ih =>
      rw [foldlM_header _ (stepHeader_eq_ok.2 (.inr ⟨hl, rfl⟩)), ih]
      simp

/-- Lexemes that make the first tokens, and lexemes that make the others. -/
theorem Makes.parts {header : Option Header} {ls : List Lexeme} {first last : List Token}
    (h : Makes header ls (first ++ last)) (hfirst : header = none ∨ first ≠ []) :
    ∃ before after, ls = before ++ after ∧ Makes header before first
      ∧ Makes none after last := by
  generalize htokens : first ++ last = ts at h
  induction h generalizing first with
  | nil =>
      obtain ⟨rfl, rfl⟩ := List.append_eq_nil_iff.1 htokens
      exact ⟨[], [], rfl, .nil, .nil⟩
  | @blank l ls ts hl _ ih =>
      obtain ⟨before, after, rfl, hbefore, hafter⟩ := ih (.inl rfl) htokens
      exact ⟨l :: before, after, rfl, .blank hl hbefore, hafter⟩
  | @token l ls kind ts hl hrest ih =>
      cases first with
      | nil =>
          rw [List.nil_append] at htokens
          subst htokens
          exact ⟨[], l :: ls, rfl, .nil, .token hl hrest⟩
      | cons t first =>
          obtain ⟨rfl, hrest'⟩ := List.cons.inj htokens
          obtain ⟨before, after, rfl, hbefore, hafter⟩ := ih (.inl rfl) hrest'
          exact ⟨l :: before, after, rfl, .token hl hbefore, hafter⟩
  | @opening l ls ts hl hrest ih =>
      by_cases hnil : first = []
      · subst hnil
        rw [List.nil_append] at htokens
        subst htokens
        exact ⟨[], l :: ls, rfl, .nil, .opening hl hrest⟩
      · obtain ⟨before, after, rfl, hbefore, hafter⟩ := ih (.inr hnil) htokens
        exact ⟨l :: before, after, rfl, .opening hl hbefore, hafter⟩
  | @inside h l h' ls ts hl _ ih =>
      have hne : first ≠ [] := hfirst.resolve_left (by simp)
      obtain ⟨before, after, rfl, hbefore, hafter⟩ := ih (.inr hne) htokens
      exact ⟨l :: before, after, rfl, .inside hl hbefore, hafter⟩
  | @closing h l ls ts hl _ ih =>
      cases first with
      | nil => exact absurd rfl (hfirst.resolve_left (by simp))
      | cons t first =>
          obtain ⟨rfl, hrest'⟩ := List.cons.inj htokens
          obtain ⟨before, after, rfl, hbefore, hafter⟩ := ih (.inl rfl) hrest'
          exact ⟨l :: before, after, rfl, .closing hl hbefore, hafter⟩

end Scan

/-- A text is scanned into the tokens that its lexemes make. -/
theorem scan_eq_ok_iff {source : String} {tokens : List Token} :
    scan source = .ok tokens ↔ Scan.Makes none (Lexeme.split source.toList) tokens := by
  unfold scan
  constructor
  · intro h
    cases hfold : (Lexeme.split source.toList).foldlM Scan.step {} with
    | error e =>
        rw [hfold] at h
        cases h
    | ok s =>
        rw [hfold] at h
        obtain ⟨done, header⟩ := s
        cases header with
        | some header => cases h
        | none =>
            cases h
            obtain ⟨ts, htokens, hmakes⟩ := Scan.makes_of_foldlM hfold rfl
            have hdone : done.reverse = ts := by
              rw [show done = ts.reverse ++ [] from htokens]
              simp
            rw [hdone]
            exact hmakes
  · intro h
    rw [Scan.foldlM_of_makes h []]
    show Except.ok (tokens.reverse ++ []).reverse = Except.ok tokens
    simp

end ScopedScript
