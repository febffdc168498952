/-
Freeing scopes goes unnoticed, but for one error.

A program runs over a store that frees every scope nothing holds any more,
and keeps a function over its own scope as its definition only. Held
against the ideal store, in which nothing is ever freed, such a run is the
ideal run, except that it may be cut short where a look-up has to go on in
a scope that is gone.

# The relation

`Agrees` ties the two stores: they have made the same scopes, and every
scope that is still there has the names of its ideal twin, with the values
its slots stand for, and the same parent. Scopes that are gone are not
mentioned, so freeing a scope keeps the relation for free (`LeftOf`), and
no operation has to know who holds what. What is gone can only be noticed
by an operation that needs it, and that operation fails with the one fault
that `missingClosure` names.
-/
import ScopedScript.Run
import ScopedScript.Proofs.Failing
import ScopedScript.Proofs.Ideal

namespace ScopedScript

-- ============================================================== agreement

/-- A scope and its ideal twin keep the same. -/
structure Cell.Twin (scope : ScopeId) (c : Cell) (d : Ideal.Cell) : Prop where
  slots : d.slots = c.values scope
  parent : d.parent = c.parent.filter (· < scope)

theorem Cell.Twin.has {scope : ScopeId} {c : Cell} {d : Ideal.Cell} (h : Twin scope c d)
    (name : String) : d.has name = c.has name := by
  unfold Ideal.Cell.has Cell.has
  rw [h.slots, lookup_values, Option.isSome_map]

theorem Cell.Twin.add {scope : ScopeId} {c : Cell} {d : Ideal.Cell} (h : Twin scope c d)
    (name : String) (value : Value) :
    Twin scope (c.add name (Slot.ofValue scope value)) (d.add name value) := by
  refine ⟨?_, h.parent⟩
  rw [values_add, ← h.slots]
  rfl

theorem Cell.Twin.replace {scope : ScopeId} {c : Cell} {d : Ideal.Cell} (h : Twin scope c d)
    (name : String) (value : Value) :
    Twin scope (c.replace name (Slot.ofValue scope value)) (d.replace name value) := by
  refine ⟨?_, h.parent⟩
  rw [values_replace, ← h.slots]
  rfl

/-- The scopes that are still there keep what they keep in the ideal
store. -/
structure Agrees (s : Store) (t : Ideal) : Prop where
  size : s.cells.size = t.cells.size
  cell : ∀ {i : ScopeId} {c : Cell}, s.cell? i = some c →
    ∃ d, t.cells[i]? = some d ∧ c.Twin i d

/-- The fault of a look-up that has to go on in a scope that is gone. -/
def ScopeFault.IsMissing (fault : ScopeFault) : Prop := ∃ name, fault = .missingClosure name

namespace Agrees

variable {s s' : Store} {t : Ideal}

theorem empty : Agrees {} Ideal.empty := by
  refine ⟨rfl, fun h => ?_⟩
  cases h

/-- Freeing scopes keeps the agreement. -/
theorem leftOf (h : Agrees s t) (hleft : s'.LeftOf s) : Agrees s' t := by
  refine ⟨hleft.size.trans h.size, fun hcell => ?_⟩
  obtain ⟨c, hc, hslots, hparent⟩ := hleft.cell hcell
  obtain ⟨d, hd, htwin⟩ := h.cell hc
  refine ⟨d, hd, ?_, ?_⟩
  · rw [htwin.slots, Cell.values, Cell.values, hslots]
  · rw [htwin.parent, hparent]

/-- Twins put in the same place keep the agreement. -/
theorem put (h : Agrees s t) {t' : Ideal} {scope : ScopeId} {c : Cell} {d : Ideal.Cell}
    (htwin : c.Twin scope d) (ht' : t'.cells = t.cells.setIfInBounds scope d) :
    Agrees (s.put scope (some c)) t' := by
  have hsize : t'.cells.size = t.cells.size := by rw [ht', Array.size_setIfInBounds]
  refine ⟨by rw [Store.size_put, hsize, h.size], fun {i c'} hcell => ?_⟩
  have hlt : i < t.cells.size := by
    have := Store.lt_size_of_cell? hcell
    rwa [Store.size_put, h.size] at this
  rw [ht']
  by_cases hi : scope = i
  · subst hi
    rw [Store.cell?_put_self (by rw [h.size]; exact hlt), Option.some.injEq] at hcell
    subst hcell
    exact ⟨d, Array.getElem?_setIfInBounds_self_of_lt hlt, htwin⟩
  · rw [Store.cell?_put_ne _ hi] at hcell
    rw [Array.getElem?_setIfInBounds_ne hi]
    exact h.cell hcell

theorem create (h : Agrees s t) (parent : Option ScopeId) :
    (s.create parent).1 = (t.create parent).1
      ∧ Agrees (s.create parent).2 (t.create parent).2 := by
  refine ⟨h.size, ?_, fun {i c} hcell => ?_⟩
  · rw [Store.size_create, h.size]
    exact (Array.size_push _).symm
  · rw [Store.cell?_create] at hcell
    show ∃ d, (t.cells.push _)[i]? = some d ∧ _
    rw [Array.getElem?_push, ← h.size]
    by_cases hi : i = s.cells.size
    · rw [if_pos hi] at hcell ⊢
      cases hcell
      exact ⟨_, rfl, rfl, by rw [hi]⟩
    · rw [if_neg hi] at hcell ⊢
      exact h.cell hcell

/-- A name resolves alike, unless a scope on the way is gone. -/
theorem resolve (h : Agrees s t) (name : String) (scope : ScopeId) :
    s.resolve name scope = t.resolve name scope
      ∨ s.resolve name scope = .error (.missingClosure name) := by
  fun_induction Store.resolve s name scope with
  | case1 scope hgone => exact .inr rfl
  | case2 scope c hc hhas =>
      obtain ⟨d, hd, htwin⟩ := h.cell hc
      left
      rw [Ideal.resolve_eq hd, htwin.has, if_pos hhas]
  | case3 scope c hc hhas hparent =>
      obtain ⟨d, hd, htwin⟩ := h.cell hc
      left
      rw [Ideal.resolve_eq hd, htwin.has, if_neg hhas, htwin.parent, hparent]
      rfl
  | case4 scope c hc hhas parent hparent holder ih =>
      obtain ⟨d, hd, htwin⟩ := h.cell hc
      have hparent' : d.parent = some parent := by
        rw [htwin.parent, hparent, Option.filter_some, if_pos (by simpa using holder)]
      rw [Ideal.resolve_eq hd, htwin.has, if_neg hhas, hparent']
      exact ih
  | case5 scope c hc hhas parent hparent holder => exact .inr rfl

-- ======================================================= the operations agree

theorem declare (h : Agrees s t) (scope : ScopeId) (name : String) (value : Value) :
    Answered Agrees ScopeFault.IsMissing (s.declare scope name value)
      (t.declare scope name value) := by
  rcases s.declare_cases scope name value with ⟨-, hmissing, -⟩ | ⟨c, hc, hcases⟩
  · exact .inr ⟨_, hmissing, name, rfl⟩
  · obtain ⟨d, hd, htwin⟩ := h.cell hc
    left
    unfold Ideal.declare
    split
    · next hnone => rw [hd] at hnone; cases hnone
    · next d' hd' =>
      rw [hd] at hd'
      cases hd'
      rcases hcases with ⟨hhas, hanswer, hleft⟩ | ⟨hhas, hanswer, hleft⟩
      · rw [if_pos (by rw [htwin.has, hhas])]
        exact ⟨hanswer, h.leftOf hleft⟩
      · rw [if_neg (by rw [htwin.has, hhas]; exact Bool.false_ne_true)]
        exact ⟨hanswer, (h.put (htwin.add name value) rfl).leftOf hleft⟩

theorem assign (h : Agrees s t) (scope : ScopeId) (name : String) (value : Value) :
    Answered Agrees ScopeFault.IsMissing (s.assign scope name value)
      (t.assign scope name value) := by
  rcases s.assign_cases scope name value with
    ⟨fault, hresolve, hanswer, hleft⟩ | ⟨owner, c, hresolve, hc, hanswer, hleft⟩
  · -- the name does not resolve
    rcases h.resolve name scope with hsame | hmissing
    · left
      rw [Ideal.assign, ← hsame, hresolve]
      exact ⟨hanswer, h.leftOf hleft⟩
    · rw [hresolve] at hmissing
      cases hmissing
      exact .inr ⟨_, hanswer, name, rfl⟩
  · -- the owner's slot is replaced
    obtain ⟨d, hd, htwin⟩ := h.cell hc
    rcases h.resolve name scope with hsame | hmissing
    · left
      unfold Ideal.assign
      rw [← hsame, hresolve]
      dsimp only
      split
      · next hnone => rw [hd] at hnone; cases hnone
      · next d' hd' =>
        rw [hd] at hd'
        cases hd'
        exact ⟨hanswer, (h.put (htwin.replace name value) rfl).leftOf hleft⟩
    · rw [hresolve] at hmissing
      cases hmissing

theorem lookup (h : Agrees s t) (scope : ScopeId) (name : String) :
    Answered Agrees ScopeFault.IsMissing (s.lookup scope name) (t.lookup scope name) := by
  obtain ⟨fault, hresolve, hanswer, hleft⟩
      | ⟨owner, c, slot, hresolve, hc, hslot, hanswer, hleft⟩ := s.lookup_cases scope name
  · rcases h.resolve name scope with hsame | hmissing
    · left
      rw [Ideal.lookup, ← hsame, hresolve]
      exact ⟨hanswer, h.leftOf hleft⟩
    · rw [hresolve] at hmissing
      cases hmissing
      exact .inr ⟨_, hanswer, name, rfl⟩
  · obtain ⟨d, hd, htwin⟩ := h.cell hc
    rcases h.resolve name scope with hsame | hmissing
    · left
      rw [Ideal.lookup, ← hsame, hresolve]
      dsimp only
      rw [hd, Option.bind_some, htwin.slots, Cell.lookup_values, hslot, Option.map_some]
      exact ⟨hanswer, h.leftOf hleft⟩
    · rw [hresolve] at hmissing
      cases hmissing

end Agrees

/-- The store that programs run on follows the ideal store. -/
def Store.followsIdeal : Simulation Store Ideal where
  Related := Agrees
  Escapes := ScopeFault.IsMissing
  create parent h := h.create parent
  hold scope h := h.leftOf (Store.hold_leftOf scope _)
  drop scope h := h.leftOf (Store.drop_leftOf scope _)
  declare scope name value h := h.declare scope name value
  assign scope name value h := h.assign scope name value
  lookup scope name h := h.lookup scope name

-- ================================================================ programs

/-- The two stores start out alike: the predeclared functions go into a
scope that was just made, so nothing is missing. -/
theorem Agrees.createGlobal :
    Agrees (Scopes.createGlobal ({} : Store)).2 (Scopes.createGlobal Ideal.empty).2 := by
  have hmade := (Agrees.empty.create none).2
  rcases hmade.declare 0 "print" (.native "print") with ⟨-, hagrees⟩ | ⟨fault, hfault, -⟩
  · exact hagrees
  · have hok : (Store.declare 0 "print" (.native "print") (Store.create none {}).2).1
        = .ok () := rfl
    rw [hok] at hfault
    cases hfault

/-- A run over the store that frees scopes is the ideal run, or it ends
with a look-up that has to go on in a scope that is gone and has printed
nothing that the ideal run does not print. -/
theorem evaluate_ideal_or_missing_closure (root : Node) :
    evaluate root = Ideal.evaluate root
    ∨ ∃ e name, (evaluate root).1 = .error e
      ∧ e.fault = .runtime (.scope (.missingClosure name))
      ∧ e.chain.getLast? = some ("missing closure reference while resolving " ++ ticked name)
      ∧ (evaluate root).2.toList <+: (Ideal.evaluate root).2.toList := by
  have hfollows := Eval.Follows.runProgram Store.followsIdeal root rfl Agrees.createGlobal
  revert hfollows
  unfold evaluate Ideal.evaluate
  have hfault {e : Error} {w : World Store} {fault : ScopeFault}
      (h : runProgram root { scopes := {} } = .error e w) :
      e.fault.scope? = some fault → e.fault = .runtime (.scope fault) := by
    have hfails : (evaluate root).1 = .error e := by rw [evaluate, h]
    exact fault_of_scope? hfails
  revert hfault
  generalize runProgram root { scopes := ({} : Store) } = r,
    runProgram root { scopes := Ideal.empty } = r'
  intro hfault hfollows
  cases hfollows with
  | ok result alike => exact .inl (congrArg (Prod.mk (Except.ok ())) alike.printed)
  | error e alike => exact .inl (congrArg (Prod.mk (Except.error e)) alike.printed)
  | @escape w r' e escapes printed =>
      obtain ⟨_, hscope, name, rfl⟩ := escapes
      have hfault := hfault rfl hscope
      right
      refine ⟨e, name, rfl, hfault, ?_, ?_⟩
      · rw [Error.chain_eq, List.getLast?_append, hfault]
        rfl
      · cases r' <;> exact printed

end ScopedScript
