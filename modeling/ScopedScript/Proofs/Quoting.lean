/-
Quoted text can be read again.

Inside quotes a character stands for itself or is written as an escape.
`unescape` takes the first character off such a text, and it gives back the
character that was written, whatever comes after it (`unescape_escapeChar`).
So a quoted text ends at its own closing quote, and what stands in front of
some other text is known from the whole (`quote_append_inj`).
-/
import ScopedScript.Text.Quoted
import Mathlib.Tactic.SplitIfs

namespace ScopedScript

-- ================================================================== joining

/-- Texts that are written one after the other are known from the whole if
the first one is known from the rest of them and what comes after the last
cannot be taken for one of them. What is known of a text is `g`. -/
theorem flatMap_append_inj {α β γ : Type} {f : α → List β} {g : α → γ} {as bs : List α}
    {stop stop' : List β}
    (first : ∀ {a b : α} {as bs : List α},
      f a ++ (as.flatMap f ++ stop) = f b ++ (bs.flatMap f ++ stop') →
        g a = g b ∧ as.flatMap f ++ stop = bs.flatMap f ++ stop')
    (last : ∀ a rest, f a ++ rest ≠ stop) (last' : ∀ a rest, f a ++ rest ≠ stop')
    (h : as.flatMap f ++ stop = bs.flatMap f ++ stop') : as.map g = bs.map g ∧ stop = stop' := by
  induction as generalizing bs with
  | nil =>
      cases bs with
      | nil => exact ⟨rfl, h⟩
      | cons b bs =>
          rw [List.flatMap_cons, List.append_assoc] at h
          exact absurd h.symm (last b _)
  | cons a as ih =>
      cases bs with
      | nil =>
          rw [List.flatMap_cons, List.append_assoc] at h
          exact absurd h (last' a _)
      | cons b bs =>
          rw [List.flatMap_cons, List.flatMap_cons, List.append_assoc, List.append_assoc] at h
          obtain ⟨hfirst, hrest⟩ := first h
          obtain ⟨hmap, hstop⟩ := ih hrest
          exact ⟨by rw [List.map_cons, List.map_cons, hfirst, hmap], hstop⟩

namespace Text

-- ============================================================= code points

/-- The number that hexadecimal digits spell. -/
def ofHex (ds : List Char) : Nat :=
  ds.foldl (fun n c =>
    16 * n + if c.isDigit then c.toNat - '0'.toNat else c.toNat - 'a'.toNat + 10) 0

theorem ofHex_toDigits (n : Nat) : ofHex (Nat.toDigits 16 n) = n := by
  have hdigit : ∀ d < 16, ofHex [d.digitChar] = d := by decide
  induction n using Nat.strongRecOn with
  | _ n ih =>
      by_cases hlt : n < 16
      · rw [Nat.toDigits_of_lt_base hlt]
        exact hdigit n hlt
      · have hlast := hdigit (n % 16) (Nat.mod_lt n (by decide))
        have hfront := ih (n / 16) (by omega)
        rw [Nat.toDigits_of_base_le (by decide) (Nat.not_lt.1 hlt), ofHex, List.foldl_append]
        rw [ofHex] at hfront hlast
        rw [hfront]
        simp only [List.foldl_cons, List.foldl_nil, Nat.mul_zero, Nat.zero_add] at hlast ⊢
        omega

/-- A digit is a letter or a figure. -/
theorem isAlphanum_of_mem_toDigits {n : Nat} {c : Char} (h : c ∈ Nat.toDigits 16 n) :
    c.isAlphanum = true := by
  have hdigit : ∀ d < 16, d.digitChar.isAlphanum = true := by decide
  induction n using Nat.strongRecOn with
  | _ n ih =>
      by_cases hlt : n < 16
      · rw [Nat.toDigits_of_lt_base hlt, List.mem_singleton] at h
        rw [h]
        exact hdigit n hlt
      · rw [Nat.toDigits_of_base_le (by decide) (Nat.not_lt.1 hlt), List.mem_append,
          List.mem_singleton] at h
        rcases h with h | h
        · exact ih (n / 16) (by omega) h
        · rw [h]
          exact hdigit (n % 16) (Nat.mod_lt n (by decide))

-- ================================================================= escapes

/-- The first character of a text inside quotes, and what comes after it. -/
def unescape : List Char → Option (Char × List Char)
  | '\\' :: 'u' :: '\x7b' :: cs =>
      some (Char.ofNat (ofHex (cs.takeWhile (· != '\x7d'))), (cs.dropWhile (· != '\x7d')).tail)
  | '\\' :: 'n' :: cs => some ('\n', cs)
  | '\\' :: 'r' :: cs => some ('\r', cs)
  | '\\' :: 't' :: cs => some ('\t', cs)
  | '\\' :: '0' :: cs => some ('\x00', cs)
  | '\\' :: c :: cs => some (c, cs)
  | c :: cs => some (c, cs)
  | [] => none

theorem unescape_escapeCode (c : Char) (rest : List Char) :
    unescape (escapeCode c ++ rest) = some (c, rest) := by
  have hinner : ∀ d ∈ Nat.toDigits 16 c.toNat, (d != '\x7d') = true := by
    intro d hd
    rw [bne_iff_ne]
    rintro rfl
    exact absurd (isAlphanum_of_mem_toDigits hd) (by decide)
  have hcode : escapeCode c ++ rest
      = '\\' :: 'u' :: '\x7b' :: (Nat.toDigits 16 c.toNat ++ '\x7d' :: rest) := by
    simp [escapeCode]
  rw [hcode, unescape, List.takeWhile_append_of_pos hinner, List.dropWhile_append_of_pos hinner]
  simp [ofHex_toDigits, Char.ofNat_toNat]

/-- A character is read off its escape. -/
theorem unescape_escapeChar (c : Char) (rest : List Char) :
    unescape (escapeChar c ++ rest) = some (c, rest) := by
  unfold escapeChar
  split_ifs with hquote hslash hbreak hreturn htab hnul hgraphic
  · subst hquote
    rfl
  · subst hslash
    rfl
  · subst hbreak
    rfl
  · subst hreturn
    rfl
  · subst htab
    rfl
  · subst hnul
    rfl
  · simp [unescape, hslash]
  · exact unescape_escapeCode c rest

theorem escapeChar_append_inj {c d : Char} {rest rest' : List Char}
    (h : escapeChar c ++ rest = escapeChar d ++ rest') : c = d ∧ rest = rest' := by
  have hread := congrArg unescape h
  rw [unescape_escapeChar, unescape_escapeChar] at hread
  cases hread
  exact ⟨rfl, rfl⟩

/-- An escape starts with a backslash and keeps to its line; a character that
stands for itself is neither a quote nor a line break. -/
theorem escapeChar_cases (c : Char) :
    (∃ cs, escapeChar c = '\\' :: cs ∧ '\n' ∉ cs)
      ∨ escapeChar c = [c] ∧ c ≠ '"' ∧ c ≠ '\n' := by
  unfold escapeChar
  split_ifs with hquote hslash hbreak hreturn htab hnul hgraphic
  · exact .inl ⟨['"'], rfl, by decide⟩
  · exact .inl ⟨['\\'], rfl, by decide⟩
  · exact .inl ⟨['n'], rfl, by decide⟩
  · exact .inl ⟨['r'], rfl, by decide⟩
  · exact .inl ⟨['t'], rfl, by decide⟩
  · exact .inl ⟨['0'], rfl, by decide⟩
  · exact .inr ⟨rfl, hquote, hbreak⟩
  · refine .inl ⟨_, rfl, fun hmem => ?_⟩
    have hdigits : '\n' ∉ Nat.toDigits 16 c.toNat := fun h =>
      absurd (isAlphanum_of_mem_toDigits h) (by decide)
    simp [hdigits] at hmem

-- ============================================================ quoted texts

/-- A closing quote is not the start of a character. -/
theorem escapeChar_append_ne (c : Char) (rest rest' : List Char) :
    escapeChar c ++ rest ≠ '"' :: rest' := by
  rcases escapeChar_cases c with ⟨cs, hescape, -⟩ | ⟨hself, hquote, -⟩
  · simp [hescape]
  · simp [hself, hquote]

theorem toList_quote (text : String) :
    (quote text).toList = '"' :: (text.toList.flatMap escapeChar ++ ['"']) := String.toList_ofList

/-- A quoted text is known from any text that it stands in front of, and so
is what comes after it. -/
theorem quote_append_inj {a b : String} {rest rest' : List Char}
    (h : (quote a).toList ++ rest = (quote b).toList ++ rest') : a = b ∧ rest = rest' := by
  rw [toList_quote, toList_quote] at h
  simp only [List.cons_append, List.append_assoc, List.nil_append, List.cons.injEq, true_and] at h
  obtain ⟨htext, hrest⟩ := flatMap_append_inj (g := id) escapeChar_append_inj
    (fun c more => escapeChar_append_ne c more rest)
    (fun c more => escapeChar_append_ne c more rest') h
  rw [List.map_id, List.map_id] at htext
  exact ⟨String.toList_inj.1 htext, (List.cons.inj hrest).2⟩

/-- A line break does not stand in a quoted text. -/
theorem break_not_mem_quote (text : String) : '\n' ∉ (quote text).toList := by
  have hescape (c : Char) : '\n' ∉ escapeChar c := by
    rcases escapeChar_cases c with ⟨cs, hescape, hbreak⟩ | ⟨hself, -, hbreak⟩
    · simp [hescape, hbreak]
    · simp [hself, Ne.symm hbreak]
  rw [toList_quote]
  simp [hescape]

end Text

end ScopedScript
