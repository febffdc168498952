/-
The operations of the store, step by step.

`StoreCells` says what an operation leaves of a store. Where two stores are
held against each other that is not enough: it matters which scopes are let
go, and when. This file gives every operation as what it does: one cell is
put, and then some scopes are let go, each of them by one step that lowers
a count or frees a scope.

In what order scopes are let go makes no difference (`dropAll_perm`). Two
steps at different scopes do not see each other, and a scope that is freed
only adds to what is still to be let go. So whoever compares two stores
need not compare the order of slots.
-/
import ScopedScript.Proofs.StoreCells

namespace ScopedScript

namespace Store

variable {s : Store} {scope : ScopeId} {c : Cell} {name : String} {value : Value}

-- ============================================================= letting go

theorem dropAll_of_none (h : s.cell? scope = none) (rest : List ScopeId) :
    s.dropAll (scope :: rest) = s.dropAll rest := by
  rw [dropAll]
  split
  · rfl
  · next hc =>
    rw [h] at hc
    cases hc

theorem dropAll_of_some (h : s.cell? scope = some c) (rest : List ScopeId) :
    s.dropAll (scope :: rest)
      = if 1 < c.holders then
          (s.put scope (some { c with holders := c.holders - 1 })).dropAll rest
        else (s.put scope none).dropAll (c.held ++ rest) := by
  rw [dropAll]
  split
  · next hgone =>
    rw [h] at hgone
    cases hgone
  · next hc =>
    rw [h] at hc
    cases hc
    rfl

/-- What one step of letting go makes of a scope. -/
def released : Option Cell → Option Cell
  | none => none
  | some c => if 1 < c.holders then some { c with holders := c.holders - 1 } else none

/-- What is still to be let go after one step, besides what was. -/
def freed : Option Cell → List ScopeId
  | none => []
  | some c => if 1 < c.holders then [] else c.held

theorem put_none_of_none (h : s.cell? scope = none) : s.put scope none = s := by
  have hcells : s.cells.setIfInBounds scope none = s.cells := by
    apply Array.ext_getElem?
    intro i
    by_cases hi : scope = i
    · subst hi
      by_cases hlt : scope < s.cells.size
      · rw [Array.getElem?_setIfInBounds_self_of_lt hlt]
        rw [cell?, Array.getElem?_eq_getElem hlt, Option.join_some] at h
        rw [Array.getElem?_eq_getElem hlt, h]
      · rw [Array.setIfInBounds_eq_of_size_le (Nat.le_of_not_lt hlt)]
    · rw [Array.getElem?_setIfInBounds_ne hi]
  unfold put
  rw [hcells]

/-- Letting go of a scope, with all of its ways in one. -/
theorem dropAll_cons (s : Store) (scope : ScopeId) (rest : List ScopeId) :
    s.dropAll (scope :: rest)
      = (s.put scope (released (s.cell? scope))).dropAll (freed (s.cell? scope) ++ rest) := by
  cases hc : s.cell? scope with
  | none =>
      rw [dropAll_of_none hc]
      show s.dropAll rest = (s.put scope none).dropAll ([] ++ rest)
      rw [put_none_of_none hc, List.nil_append]
  | some c =>
      rw [dropAll_of_some hc]
      unfold released freed
      by_cases hheld : 1 < c.holders
      · simp only [if_pos hheld, List.nil_append]
      · simp only [if_neg hheld]

/-- What holds if there is nothing to let go, and before a step whenever it
holds after it, holds of everything that is let go. -/
theorem dropAll_induction {motive : Store → List ScopeId → Prop} (nil : ∀ s, motive s [])
    (step : ∀ s scope rest,
      motive (s.put scope (released (s.cell? scope))) (freed (s.cell? scope) ++ rest) →
        motive s (scope :: rest))
    (s : Store) (pending : List ScopeId) : motive s pending := by
  fun_induction dropAll s pending with
  | case1 s => exact nil s
  | case2 s scope rest hgone ih =>
      apply step
      rw [hgone]
      show motive (s.put scope none) ([] ++ rest)
      rw [put_none_of_none hgone]
      exact ih
  | case3 s scope rest c hc hheld ih =>
      apply step
      rw [hc]
      simp only [released, freed, if_pos hheld]
      exact ih
  | case4 s scope rest c hc hheld ih =>
      apply step
      rw [hc]
      simp only [released, freed, if_neg hheld]
      exact ih

theorem dropAll_append (s : Store) (first second : List ScopeId) :
    s.dropAll (first ++ second) = (s.dropAll first).dropAll second := by
  induction s, first using dropAll_induction with
  | nil s => rw [List.nil_append, dropAll]
  | step s scope rest ih =>
      rw [List.cons_append, dropAll_cons, dropAll_cons, ← ih, List.append_assoc]

/-- A step uses up as much as it leaves to do. -/
theorem weight_put_released (s : Store) (scope : ScopeId) :
    (s.put scope (released (s.cell? scope))).weight + (freed (s.cell? scope)).length
      ≤ s.weight := by
  cases hc : s.cell? scope with
  | none =>
      show (s.put scope none).weight + 0 ≤ s.weight
      rw [put_none_of_none hc]
      exact Nat.le_refl _
  | some c =>
      have hweight := weight_put s scope c (released (some c)) hc
      have hlength := c.length_held_lt_weight
      unfold released freed at *
      by_cases hheld : 1 < c.holders
      · simp only [if_pos hheld, cellWeight, Cell.weight, List.length_nil] at *
        omega
      · simp only [if_neg hheld, cellWeight] at *
        omega

theorem put_comm {i j : ScopeId} (hne : i ≠ j) (s : Store) (cell cell' : Option Cell) :
    (s.put i cell).put j cell' = (s.put j cell').put i cell := by
  unfold put
  rw [Array.setIfInBounds_comm _ _ hne]

/-- The order in which scopes are let go makes no difference. -/
theorem dropAll_perm {pending pending' : List ScopeId} (h : pending.Perm pending') (s : Store) :
    s.dropAll pending = s.dropAll pending' := by
  -- a step leaves permuted lists to do, so the induction is on what there is left to use up
  induction hn : s.weight + pending.length using Nat.strongRecOn
    generalizing s pending pending' with
  | ind n ih =>
    have after {t : Store} {l l' : List ScopeId} (hless : t.weight + l.length < n)
        (hperm : l.Perm l') : t.dropAll l = t.dropAll l' := ih _ hless hperm t rfl
    clear ih
    induction h with
    | nil => rfl
    | @cons scope rest rest' hrest _ =>
        have hless := weight_put_released s scope
        rw [List.length_cons] at hn
        rw [dropAll_cons, dropAll_cons]
        refine after ?_ (hrest.append_left _)
        rw [List.length_append]
        omega
    | swap first second rest =>
        simp only [List.length_cons] at hn
        -- the second scope is let go next, before anything that the first one frees
        have both {i j : ScopeId} (hne : i ≠ j) :
            s.dropAll (i :: j :: rest)
              = ((s.put i (released (s.cell? i))).put j (released (s.cell? j))).dropAll
                  (freed (s.cell? j) ++ (freed (s.cell? i) ++ rest)) := by
          have hless := weight_put_released s i
          rw [dropAll_cons, after ?_ List.perm_middle, dropAll_cons, cell?_put_ne _ hne]
          simp only [List.length_append, List.length_cons]
          omega
        by_cases hne : first = second
        · rw [hne]
        · have hless := weight_put_released s first
          have hless' := weight_put_released (s.put first (released (s.cell? first))) second
          rw [cell?_put_ne _ hne] at hless'
          rw [both hne, both (Ne.symm hne), put_comm (Ne.symm hne)]
          refine after ?_ ?_
          · simp only [List.length_append]
            omega
          · rw [← List.append_assoc, ← List.append_assoc]
            exact List.perm_append_comm.append_right rest
    | @trans l₁ l₂ l₃ hfirst _ ih₁ ih₂ => rw [ih₁ hn, ih₂ (by rw [← hfirst.length_eq]; exact hn)]

-- ============================================================== resolving

theorem resolve_of_none (h : s.cell? scope = none) (name : String) :
    s.resolve name scope = .error (.missingClosure name) := by
  rw [resolve, h]

section Found

variable (hc : s.cell? scope = some c)

include hc

theorem resolve_of_has (hhas : c.has name = true) : s.resolve name scope = .ok scope := by
  rw [resolve, hc]
  exact if_pos hhas

theorem resolve_of_parent_none (hhas : ¬c.has name = true) (hparent : c.parent = none) :
    s.resolve name scope = .error (.notDeclared name) := by
  rw [resolve, hc]
  simp only [if_neg hhas, hparent]

theorem resolve_of_parent_some {parent : ScopeId} (hhas : ¬c.has name = true)
    (hparent : c.parent = some parent) :
    s.resolve name scope
      = if parent < scope then s.resolve name parent else .error (.missingClosure name) := by
  rw [resolve, hc]
  simp only [if_neg hhas, hparent]

end Found

-- ============================================================= operations

/-- What a slot of a scope does not hold of a value: the scope itself. -/
def spare (scope : ScopeId) (value : Value) : List ScopeId :=
  if value.scope? = some scope then [scope] else []

/-- What a slot holds and what it does not need are what the value closes
over. -/
theorem count_spare (scope : ScopeId) (value : Value) (i : ScopeId) :
    (spare scope value).count i + (Slot.ofValue scope value).held?.toList.count i
      = value.scope?.toList.count i := by
  cases value with
  | function closure =>
      by_cases hown : closure.scope = scope
      · simp [spare, Slot.ofValue, Slot.held?, Value.scope?, hown]
      · simp [spare, Slot.ofValue, Slot.held?, Value.scope?, hown]
  | _ => rfl

/-- Storing a value puts one cell, and lets go of what the slot does not
need. -/
theorem store_eq (s : Store) (scope : ScopeId) (value : Value) (put : Slot → Cell) :
    s.store scope value put
      = (s.put scope (some (put (Slot.ofValue scope value)))).dropAll (spare scope value) := by
  unfold store
  cases value with
  | function closure =>
      by_cases hown : closure.scope = scope
      · simp [spare, Slot.ofValue, dropValue, Value.scope?, hown]
      · simp [spare, Slot.ofValue, Value.scope?, hown, dropAll]
  | _ => exact (dropAll.eq_1 _).symm

theorem declare_of_none (hc : s.cell? scope = none) (name : String) (value : Value) :
    s.declare scope name value
      = (.error (.missingClosure name), s.dropAll value.scope?.toList) := by
  unfold declare
  rw [hc]
  rfl

theorem declare_of_has (hc : s.cell? scope = some c) (hhas : c.has name = true) (value : Value) :
    s.declare scope name value
      = (.error (.alreadyDeclared name), s.dropAll value.scope?.toList) := by
  unfold declare
  simp only [hc, if_pos hhas]
  rfl

theorem declare_of_fresh (hc : s.cell? scope = some c) (hhas : ¬c.has name = true)
    (value : Value) :
    s.declare scope name value
      = (.ok (), (s.put scope (some (c.add name (.ofValue scope value)))).dropAll
          (spare scope value)) := by
  unfold declare
  simp only [hc, if_neg hhas, store_eq]

theorem assign_of_error {fault : ScopeFault} (hresolve : s.resolve name scope = .error fault)
    (value : Value) :
    s.assign scope name value = (.error fault, s.dropAll value.scope?.toList) := by
  unfold assign
  rw [hresolve]
  rfl

/-- What the slot held before is let go last. -/
theorem assign_of_ok {owner : ScopeId} (hresolve : s.resolve name scope = .ok owner)
    (hc : s.cell? owner = some c) (value : Value) :
    s.assign scope name value
      = (.ok (), (s.put owner (some (c.replace name (.ofValue owner value)))).dropAll
          (spare owner value ++ ((c.get? name).bind Slot.held?).toList)) := by
  unfold assign
  simp only [hresolve, hc, store_eq, dropAll_append]

theorem lookup_of_error {fault : ScopeFault} (hresolve : s.resolve name scope = .error fault) :
    s.lookup scope name = (.error fault, s) := by
  unfold lookup
  rw [hresolve]

theorem lookup_of_ok {owner : ScopeId} {slot : Slot} (hresolve : s.resolve name scope = .ok owner)
    (hc : s.cell? owner = some c) (hslot : c.get? name = some slot) :
    s.lookup scope name
      = (.ok (slot.toValue owner), Scopes.holdValue (slot.toValue owner) s) := by
  unfold lookup Scopes.holdValue
  simp only [hresolve, hc, Option.bind_some, hslot]
  cases (slot.toValue owner).scope? with
  | none => rfl
  | some closed => rfl

end Store

end ScopedScript
