/-
The value of a chain of `+`.

Operators group to the right, so a chain of `+` is added up from its end.
Numbers at the end are added as numbers. The first value before them that
is no number makes a text of their sum, and from there on every value is
put in front of a text, numbers included. What a chain comes to is
therefore decided by its last value that is no number (`Amounts`).

# One more value on the left

`Amounts.cons` is the only step: a number goes before a number, or a text
before something that has a text. A value without a text goes before
nothing and nothing goes before it, and the sum of two values never is
one, so it makes the chain fail wherever it stands
(`foldrM_combine_fails`).
-/
import ScopedScript.Proofs.Discipline

namespace ScopedScript.Value

-- ================================================================ two values

theorem text?_eq_none_iff {v : Value} :
    v.text? = none ↔ v.kind = .function ∨ v.kind = .native ∨ v.kind = .unknown := by
  cases v <;> simp [text?, kind]

theorem eq_number_of_kind {v : Value} (h : v.kind = .number) : ∃ x, v = .number x := by
  cases v with
  | number x => exact ⟨x, rfl⟩
  | _ => cases h

/-- Two values of which one is no number are added as texts. -/
theorem combine_add_eq {left right : Value} (h : left.kind ≠ .number ∨ right.kind ≠ .number) :
    left.combine .add right = do
      let a ← left.text
      let b ← right.text
      return .string (a ++ b) := by
  unfold combine
  split
  · rcases h with h | h <;> exact absurd rfl h
  · exact if_pos rfl

theorem combine_add_of_text {left right : Value} {a b : String} (ha : left.text? = some a)
    (hb : right.text? = some b) (h : left.kind ≠ .number ∨ right.kind ≠ .number) :
    left.combine .add right = .ok (.string (a ++ b)) := by
  rw [combine_add_eq h, text, text, ha, hb]
  rfl

/-- A value without a text cannot be added to anything. -/
theorem combine_add_fails {left right : Value} (h : left.text? = none ∨ right.text? = none) :
    ∃ fault, left.combine .add right = .error fault := by
  have hkind {v : Value} (hv : v.text? = none) : v.kind ≠ .number := by
    rcases text?_eq_none_iff.1 hv with hv | hv | hv <;> simp [hv]
  rw [combine_add_eq (h.imp hkind hkind), text, text]
  cases hleft : left.text? with
  | none => exact ⟨_, rfl⟩
  | some a =>
      rw [h.resolve_left (by simp [hleft])]
      exact ⟨_, rfl⟩

-- =============================================================== many values

/-- Numbers added up from the right, if there are any. -/
def sumRight? : List Float → Option Float
  | [] => none
  | x :: xs => some ((sumRight? xs).elim x (x + ·))

/-- What values come to if they are added up from the right: a sum if they
are all numbers, and otherwise something that shows the texts of the values
up to the last one that is no number, and the sum of the numbers after it
if there are any. -/
inductive Amounts : List Value → Value → Prop
  | sum {xs : List Float} {s : Float} (hsum : sumRight? xs = some s) :
      Amounts (xs.map .number) (.number s)
  | text {front : List Value} {xs : List Float} {texts : List String} {v : Value}
      (hfront : front ≠ []) (hlast : ∀ l ∈ front.getLast?, l.kind ≠ .number)
      (htexts : front.map text? = texts.map some) (hkind : v.kind ≠ .number)
      (hv : v.text? = some (String.join texts ++ (sumRight? xs).elim "" Number.display)) :
      Amounts (front ++ xs.map .number) v

theorem amounts_singleton {v : Value} {a : String} (h : v.text? = some a) : Amounts [v] v := by
  by_cases hkind : v.kind = .number
  · obtain ⟨x, rfl⟩ := eq_number_of_kind hkind
    exact @Amounts.sum [x] x rfl
  · refine @Amounts.text [v] [] [a] v (List.cons_ne_nil v []) ?_ ?_ hkind ?_
    · rintro l ⟨⟩
      exact hkind
    · simp [h]
    · simpa [String.join, sumRight?] using h

/-- One more value on the left. -/
theorem Amounts.cons {left v : Value} {a : String} {vs : List Value} (h : Amounts vs v)
    (ha : left.text? = some a) :
    ∃ v', left.combine .add v = .ok v' ∧ Amounts (left :: vs) v' := by
  cases h with
  | @sum xs s hsum =>
      by_cases hkind : left.kind = .number
      · obtain ⟨x, rfl⟩ := eq_number_of_kind hkind
        refine ⟨.number (x + s), rfl, @Amounts.sum (x :: xs) (x + s) ?_⟩
        rw [sumRight?, hsum]
        rfl
      · refine ⟨_, combine_add_of_text ha rfl (.inl hkind), ?_⟩
        refine @Amounts.text [left] xs [a] _ (List.cons_ne_nil left []) ?_ ?_ nofun ?_
        · rintro l ⟨⟩
          exact hkind
        · simp [ha]
        · simp [text?, String.join, hsum]
  | @text front xs texts _ hfront hlast htexts hkind hv =>
      refine ⟨_, combine_add_of_text ha hv (.inr hkind), ?_⟩
      refine @Amounts.text (left :: front) xs (a :: texts) _ (List.cons_ne_nil left front)
        ?_ ?_ nofun ?_
      · rwa [List.getLast?_cons_of_ne_nil hfront]
      · rw [List.map_cons, List.map_cons, ha, htexts]
      · rw [String.join_cons, String.append_assoc]
        rfl

/-- Values that have texts can be added up. -/
theorem amounts_foldrM {last : Value} {vs : List Value}
    (h : ∀ v ∈ vs ++ [last], v.text? ≠ none) :
    ∃ total, vs.foldrM (combine .add) last = .ok total ∧ Amounts (vs ++ [last]) total := by
  induction vs with
  | nil =>
      obtain ⟨a, ha⟩ := Option.ne_none_iff_exists'.1 (h last List.mem_cons_self)
      exact ⟨last, rfl, amounts_singleton ha⟩
  | cons v vs ih =>
      obtain ⟨hv, hvs⟩ := List.forall_mem_cons.1 h
      obtain ⟨a, ha⟩ := Option.ne_none_iff_exists'.1 hv
      obtain ⟨sum, hsum, hamounts⟩ := ih hvs
      obtain ⟨total, htotal, hamounts'⟩ := hamounts.cons ha
      refine ⟨total, ?_, hamounts'⟩
      rw [List.foldrM_cons, hsum]
      exact htotal

/-- A value without a text cannot be part of a sum. -/
theorem foldrM_combine_fails {last : Value} {vs : List Value} (hvs : vs ≠ [])
    (h : ∃ v ∈ vs ++ [last], v.text? = none) :
    ∃ fault, vs.foldrM (combine .add) last = .error fault := by
  induction vs with
  | nil => exact absurd rfl hvs
  | cons v vs ih =>
      rw [List.foldrM_cons]
      cases hsum : vs.foldrM (combine .add) last with
      | error fault => exact ⟨fault, rfl⟩
      | ok sum =>
          refine combine_add_fails ?_
          obtain ⟨w, hw, htext⟩ := h
          rcases List.mem_cons.1 hw with rfl | hw
          · exact .inl htext
          · -- all but the last value have been added already, so it is the last one
            right
            cases vs with
            | nil =>
                rw [List.mem_singleton.1 hw] at htext
                cases hsum
                exact htext
            | cons u vs =>
                obtain ⟨fault, hfault⟩ := ih (List.cons_ne_nil u vs) ⟨w, hw, htext⟩
                rw [hsum] at hfault
                cases hfault

/-- A sum of values that is no number is a text. -/
theorem eq_string_of_foldrM {last total : Value} {vs : List Value} (hvs : vs ≠ [])
    (h : vs.foldrM (combine .add) last = .ok total) (hkind : total.kind ≠ .number) {a : String}
    (ha : total.text? = some a) : total = .string a := by
  obtain ⟨v, vs, rfl⟩ := List.exists_cons_of_ne_nil hvs
  rw [List.foldrM_cons] at h
  cases hsum : vs.foldrM (combine .add) last with
  | error fault =>
      rw [hsum] at h
      cases h
  | ok sum =>
      rw [hsum] at h
      have hstring := (Eval.Keeps.kind_combine h).resolve_left hkind
      cases total with
      | string b =>
          cases ha
          rfl
      | _ => cases hstring

/-- What a chain of `+` comes to. It fails if and only if a value in it is a
function or unknown. Otherwise its value is the sum, if there are only
numbers, or else a text: the texts of the values up to the last one that is
no number, and behind them that of the sum of the numbers that are left. -/
theorem value_of_a_chain_of_additions {vs : List Value} (hvs : vs ≠ []) (last : Value) :
    ((∃ fault, vs.foldrM (combine .add) last = .error fault)
      ↔ ∃ v ∈ vs ++ [last], v.kind = .function ∨ v.kind = .native ∨ v.kind = .unknown)
    ∧ ((∀ v ∈ vs ++ [last], ¬(v.kind = .function ∨ v.kind = .native ∨ v.kind = .unknown)) →
      ∃ front xs, vs ++ [last] = front ++ xs.map .number
        ∧ (∀ v ∈ front.getLast?, v.kind ≠ .number)
        ∧ (front = [] → ∃ s, sumRight? xs = some s
          ∧ vs.foldrM (combine .add) last = .ok (.number s))
        ∧ (front ≠ [] → ∃ texts, front.map text? = texts.map some
          ∧ vs.foldrM (combine .add) last
            = .ok (.string (String.join texts ++ (sumRight? xs).elim "" Number.display)))) := by
  simp only [← text?_eq_none_iff]
  refine ⟨⟨fun ⟨fault, hfault⟩ => ?_, foldrM_combine_fails hvs⟩, fun htexts => ?_⟩
  · refine Classical.byContradiction fun hnone => ?_
    obtain ⟨total, htotal, -⟩ := amounts_foldrM fun v hv htext => hnone ⟨v, hv, htext⟩
    rw [hfault] at htotal
    cases htotal
  · obtain ⟨total, htotal, hamounts⟩ := amounts_foldrM htexts
    generalize hvalues : vs ++ [last] = values at hamounts
    cases hamounts with
    | @sum xs s hsum =>
        refine ⟨[], xs, rfl, nofun, fun _ => ⟨s, hsum, htotal⟩, fun hne => absurd rfl hne⟩
    | @text front xs texts _ hfront hlast htexts hkind hv =>
        refine ⟨front, xs, rfl, hlast, fun hnil => absurd hnil hfront, fun _ => ⟨texts, htexts, ?_⟩⟩
        rw [htotal, eq_string_of_foldrM hvs htotal hkind hv]

/-- `1 + true + 2 + 3`: the numbers behind `true` are added, the one before it
is not. -/
theorem value_of_a_chain_of_additions_mixed :
    let vs : List Value := [.number 1, .boolean true, .number 2]
    vs ≠ [] ∧ (¬∃ fault, vs.foldrM (combine .add) (.number 3) = .error fault)
      ∧ vs.foldrM (combine .add) (.number 3) = .ok (.string "1true5") := by
  intro vs
  have hvs : vs ≠ [] := List.cons_ne_nil _ _
  have hplain : ∀ v ∈ vs ++ [.number 3],
      ¬(v.kind = .function ∨ v.kind = .native ∨ v.kind = .unknown) := by
    simp [vs, kind]
  obtain ⟨hfails, -⟩ := value_of_a_chain_of_additions hvs (.number 3)
  refine ⟨hvs, fun hfault => ?_, ?_⟩
  · obtain ⟨v, hv, hkind⟩ := hfails.1 hfault
    exact hplain v hv hkind
  · have hone : Number.display 1 = "1" := by decide +kernel
    have hfive : Number.display (2 + 3) = "5" := by decide +kernel
    show Except.ok (Value.string (Number.display 1 ++ ("true" ++ Number.display (2 + 3)))) = _
    rw [hone, hfive]
    rfl

end ScopedScript.Value
