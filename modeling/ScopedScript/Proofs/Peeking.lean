/-
One token of lookahead.

What is read at a cursor, and where reading stops, is decided by the tokens
that are used up and by the kind of the token behind them. Neither the
tokens before the cursor nor those further on come into it, and where
reading stops at a separator, a closing brace or the end of the tokens it
would have stopped at any other of these.

Constructs look at the next token in many places, most of them inside of
the construct, where the next token is used up later on. The grammar has
sorted this out: a phrase is derived before the tokens that come next, and
only their first one plays a part (`Derives.of_next`). So there is nothing
to do but to go from readings to derivations and back.
-/
import ScopedScript.Proofs.Advancing

namespace ScopedScript

-- =============================================================== lookahead

/-- No statement goes on at the token, or there is none. -/
def EndsStatement (next : Option Token) : Prop :=
  ∀ t ∈ next, t.kind ∈ [Token.Kind.newLine, .semicolon, .closeBlock]

/-- The tokens that come next are of one kind, or both end a statement. No
token at all is a kind of its own here. -/
def LooksAlike (next next' : Option Token) : Prop :=
  next.map (·.kind) = next'.map (·.kind) ∨ EndsStatement next ∧ EndsStatement next'

namespace Grammar

/-- Tokens that look alike stop the same phrases. -/
theorem stops_of_looksAlike {next next' : List Token} (h : LooksAlike next.head? next'.head?) :
    Stops next next' := by
  intro t' ht'
  rcases h with hkind | ⟨-, hends⟩
  · rw [Option.mem_def.1 ht'] at hkind
    obtain ⟨t, ht, hkind⟩ := Option.map_eq_some_iff.1 hkind
    exact .inr ⟨t, ht, hkind⟩
  · have hkind := hends t' ht'
    simp only [List.mem_cons, List.not_mem_nil, or_false] at hkind
    rcases hkind with hkind | hkind | hkind
    · exact .inl (.inl (by rw [hkind]; rfl))
    · exact .inl (.inl (by rw [hkind]; rfl))
    · exact .inl (.inr hkind)

/-- A tail that uses up tokens starts with one that lets the expression go
on. -/
theorem Derives.isContinuation_of_tail {left : Node} {t : Token} {us next : List Token}
    {nodes : List Node} (h : Derives (.tail left) (t :: us) next nodes) :
    t.kind.isContinuation = true := by
  cases h with
  | assignment hkind | binary hkind | call hkind | property hkind =>
      rw [hkind]
      rfl

end Grammar

namespace Build

open Grammar

/-- A phrase that uses up tokens is read before the tokens that come next. -/
theorem yields_of_derives (stop : Nat) {left : Option Node} {us next : List Token}
    {nodes : List Node} (h : Derives (phraseAfter left) us next nodes) (hus : us ≠ []) :
    (process stop (us ++ next) left).Yields nodes next := by
  have hreads := complete stop h
  cases left with
  | none => exact hreads
  | some node =>
      obtain ⟨t, vs, rfl⟩ := List.exists_cons_of_ne_nil hus
      have hcontinues : continues (t :: vs ++ next) = true := h.isContinuation_of_tail
      have hgoes : GoesOn stop node (t :: vs ++ next) nodes next := hreads
      rwa [GoesOn, if_pos hcontinues] at hgoes

end Build

namespace Cursor

open Build Grammar

theorem process_of_yields {c : Cursor} {left : Option Node} {nodes : List Node}
    {rest : List Token} (h : (Build.process c.stop c.rest left).Yields nodes rest) :
    c.process left = (.ok nodes, ⟨rest, c.stop⟩) := by
  obtain ⟨shorter, hreply⟩ := h
  rw [process, hreply]
  rfl

/-- What is read at a cursor are tokens of a phrase, which are all that the
cursor is moved past. -/
theorem derives_of_process {tokens : List Token} {i : Nat} {left : Option Node}
    {nodes : List Node} {c : Cursor} (h : (past tokens i).process left = (.ok nodes, c)) :
    ∃ us rest, us ≠ [] ∧ tokens.drop i = us ++ rest ∧ c = ⟨rest, endOfTokens tokens⟩
      ∧ Derives (phraseAfter left) us rest nodes := by
  have hyields := yields_of_process (congrArg Prod.fst h)
  obtain ⟨us, hus, hderives⟩ := sound _ _ (Nat.lt_succ_self _) hyields
  refine ⟨us, _, fun hnil => ?_, hus, ?_, hderives⟩
  · have hlen := Reply.length_lt_of_yields hyields
    rw [hus, hnil] at hlen
    exact absurd hlen (Nat.lt_irrefl _)
  · rw [process_of_yields hyields] at h
    exact (congrArg Prod.snd h).symm

/-- A phrase is read at a cursor wherever it stands. -/
theorem process_of_derives {left : Option Node} {us next : List Token} {nodes : List Node}
    (h : Derives (phraseAfter left) us next nodes) (hus : us ≠ []) (before : List Token) :
    (past (before ++ us ++ next) before.length).process left
      = (.ok nodes, past (before ++ us ++ next) (before.length + us.length)) := by
  have hrest : (past (before ++ us ++ next) before.length).rest = us ++ next := by
    simp [past]
  have hlast : past (before ++ us ++ next) (before.length + us.length)
      = ⟨next, endOfTokens (before ++ us ++ next)⟩ := by
    rw [past, ← List.length_append, List.drop_left]
  rw [hlast]
  refine process_of_yields ?_
  rw [hrest]
  exact yields_of_derives _ h hus

end Cursor

open Cursor

/-- What is read at a position is read wherever the same tokens stand, after
any others, before any others of which the first looks alike. The cursor is
moved past just these tokens. -/
theorem one_token_of_lookahead_decides {tokens : List Token} {i : Nat} {left : Option Node}
    {nodes : List Node} {c : Cursor} (h : (past tokens i).process left = (.ok nodes, c)) :
    ∃ j, i < j ∧ j ≤ tokens.length ∧ c = past tokens j
      ∧ ∀ before after, LooksAlike tokens[j]? after.head? →
        (past (before ++ tokens.extract i j ++ after) before.length).process left
          = (.ok nodes,
              past (before ++ tokens.extract i j ++ after) (before.length + (j - i))) := by
  obtain ⟨us, rest, hus, hdrop, rfl, hderives⟩ := derives_of_process h
  have hpos : 0 < us.length := List.length_pos_iff.2 hus
  have hlength := congrArg List.length hdrop
  rw [List.length_drop, List.length_append] at hlength
  have hrest : tokens.drop (i + us.length) = rest := by
    rw [← List.drop_drop, hdrop, List.drop_left]
  have htaken : tokens.extract i (i + us.length) = us := by
    rw [List.extract_eq_take_drop, hdrop, Nat.add_sub_cancel_left, List.take_left]
  refine ⟨i + us.length, by omega, by omega, ?_, fun before after hlooks => ?_⟩
  · rw [past, hrest]
  · rw [htaken, Nat.add_sub_cancel_left]
    rw [← List.head?_drop, hrest] at hlooks
    exact process_of_derives (hderives.of_next (Grammar.stops_of_looksAlike hlooks)) hus before

/-- In `f + y` before a line break `+ y` goes on from `f`, and so it does in a
block before the closing brace. -/
theorem one_token_of_lookahead_decides_in_block :
    let token (kind : Token.Kind) (text : String) : Token := ⟨kind, text, ⟨7, 3⟩, []⟩
    let left := Node.reference ⟨0, 1⟩ "f"
    let tokens := [token .identifier "f", token .operator "+", token .identifier "y",
      token .newLine "\n"]
    let others := [token .openBlock "\x7b", token .identifier "f", token .operator "+",
      token .identifier "y", token .closeBlock "\x7d"]
    ∃ nodes, (past tokens 1).process (some left) = (.ok nodes, past tokens 3)
      ∧ (past others 2).process (some left) = (.ok nodes, past others 4) := by
  intro token left tokens others
  have hderives : Grammar.Derives (Build.phraseAfter (some left))
      [token .operator "+", token .identifier "y"] [token .newLine "\n"] _ :=
    .binary rfl rfl (.reference rfl (.stop fun n hn => by cases hn; rfl))
  have hread := process_of_derives hderives (List.cons_ne_nil _ _) [token .identifier "f"]
  refine ⟨_, hread, ?_⟩
  obtain ⟨j, -, hj, hc, hothers⟩ := one_token_of_lookahead_decides hread
  have hlength := congrArg (List.length ∘ Cursor.rest) hc
  have hlast : j = 3 := by
    simp only [past, Function.comp, List.length_drop] at hlength hj
    simp only [List.length_append, List.length_cons, List.length_nil] at hlength hj
    omega
  subst hlast
  exact hothers [token .openBlock "\x7b", token .identifier "f"] [token .closeBlock "\x7d"]
    (.inr ⟨fun t ht => by cases ht; decide, fun t ht => by cases ht; decide⟩)

end ScopedScript
