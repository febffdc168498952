/-
Reachable stores.

A store is not just any array of scopes. It comes about by operations, and
whoever calls them can only pass scopes that have been made: the parent of
a new scope, and the scopes that function values close over. `Reachable`
says no more than that. It holds at every moment of an evaluation, and it
is why every parent is older than its children.
-/
import ScopedScript.Proofs.Watching

namespace ScopedScript

/-- The value closes over one of the first `n` scopes, if over any. -/
def Value.Among (n : Nat) (value : Value) : Prop := ∀ scope ∈ value.scope?, scope < n

namespace Store

/-- The stores that come about by operations on scopes that have been
made. -/
inductive Reachable : Store → Prop
  | empty : Reachable {}
  | create {s parent} (h : Reachable s) (hparent : ∀ outer ∈ parent, outer < s.cells.size) :
      Reachable (s.create parent).2
  | hold {s scope} (h : Reachable s) : Reachable (s.hold scope)
  | drop {s scope} (h : Reachable s) : Reachable (s.drop scope)
  | declare {s scope name value} (h : Reachable s) (hvalue : value.Among s.cells.size) :
      Reachable (s.declare scope name value).2
  | assign {s scope name value} (h : Reachable s) (hvalue : value.Among s.cells.size) :
      Reachable (s.assign scope name value).2
  | lookup {s scope name} (h : Reachable s) : Reachable (s.lookup scope name).2

/-- Parents are older than their children, and values close over scopes
that have been made. -/
def Ordered (s : Store) : Prop :=
  s.Contains (fun scope parent => ∀ outer ∈ parent, outer < scope) (fun _ _ => True)
    (Value.Among s.cells.size)

theorem Reachable.ordered {s : Store} (h : s.Reachable) : s.Ordered := by
  unfold Ordered
  induction h with
  | empty =>
      refine ⟨fun hc => ?_, fun hc => ?_⟩
      · cases hc
      · cases hc
  | @create s parent _ hparent ih =>
      rw [size_create]
      refine Contains.create (ih.weaken id id fun hvalue scope hscope => ?_) hparent
      exact Nat.lt_succ_of_lt (hvalue scope hscope)
  | hold _ ih =>
      rw [size_hold]
      exact ih.leftOf (hold_leftOf ..)
  | drop _ ih =>
      rw [size_drop]
      exact ih.leftOf (drop_leftOf ..)
  | declare _ hvalue ih =>
      rw [size_declare]
      exact ih.declare trivial hvalue
  | assign _ hvalue ih =>
      rw [size_assign]
      exact ih.assign _ _ hvalue
  | lookup _ ih =>
      rw [size_lookup]
      exact (ih.lookup _ _).1

/-- What is reachable, as a discipline: all that has to be known is how many
scopes have been made. -/
def reachable : Discipline Store Nat where
  Grows m n := m ≤ n
  Holds n s := s.cells.size = n ∧ s.Reachable
  Fits := Value.Among
  Placed n t := t.scope < n
  Allows _ _ _ := True
  Framed n _ frame := frame < n
  refl := Nat.le_refl
  trans := Nat.le_trans
  fits_grows hgrows hvalue := fun scope hscope => Nat.lt_of_lt_of_le (hvalue scope hscope) hgrows
  placed_grows hgrows ht := Nat.lt_of_lt_of_le ht hgrows
  allows_grows _ _ := trivial
  framed_grows hgrows hframe := Nat.lt_of_lt_of_le hframe hgrows
  hold scope h := ⟨(size_hold ..).trans h.1, h.2.hold⟩
  drop scope h := ⟨(size_drop ..).trans h.1, h.2.drop⟩
  declare h _ hfits := ⟨(size_declare ..).trans h.1, h.2.declare (by rw [h.1]; exact hfits)⟩
  assign scope name h hfits :=
    ⟨(size_assign ..).trans h.1, h.2.assign (by rw [h.1]; exact hfits)⟩
  lookup scope name h := by
    refine ⟨⟨(size_lookup ..).trans h.1, h.2.lookup⟩, fun hvalue => ?_⟩
    rw [← h.1]
    exact (h.2.ordered.lookup scope name).2 hvalue
  fits_plain hplain _ := by
    intro scope hscope
    rw [hplain] at hscope
    cases hscope
  child ht _ _ := ht
  declaration _ _ := trivial
  function ht _ := by
    refine ⟨trivial, fun scope hscope => ?_⟩
    cases hscope
    exact ht
  body _ hframe _ := hframe
  parameter _ _ _ := trivial

theorem reachable_creates : reachable.Creates := by
  intro n s closure hholds _ hfits
  obtain ⟨hsize, hreachable⟩ : s.cells.size = n ∧ s.Reachable := hholds
  have houter : closure.scope < s.cells.size := by
    rw [hsize]
    exact hfits closure.scope rfl
  have hcreated : (s.create (some closure.scope)).2.Reachable := by
    refine hreachable.create fun outer hparent => ?_
    cases hparent
    exact houter
  refine ⟨n + 1, Nat.le_succ n, ⟨?_, hcreated⟩, ?_⟩
  · show (s.create (some closure.scope)).2.cells.size = n + 1
    rw [size_create, hsize]
  · show s.cells.size < n + 1
    rw [hsize]
    exact Nat.lt_succ_self n

end Store

/-- Every moment of an evaluation is reachable if its start is. -/
theorem Eval.reachable_of_mem_history {s : Store} (hs : s.Reachable) {t : Task}
    (ht : t.scope < s.cells.size) (printed : Array (List Printed)) {m : Moment}
    (hm : m ∈ (after (watchTask t ⟨{ store := s }, printed⟩)).scopes.history) :
    m.store.Reachable := by
  have hstart : Store.reachable.OnRecord s.cells.size s.cells.size { store := s } := by
    refine ⟨⟨rfl, hs⟩, fun m hm => ?_, fun scope hstart hlt => ?_⟩
    · cases hm
    · exact absurd hlt (Nat.not_lt_of_le hstart)
  obtain ⟨n, -, hrecord⟩ :=
    onRecord_watchTask (w := ⟨_, printed⟩) Store.reachable_creates hstart ht
  obtain ⟨k, -, hholds⟩ := (hrecord.moments m hm).store
  exact hholds.2

end ScopedScript
