/-
Evaluation touches and depends on nothing but what it sees.

What a node comes to when it is evaluated in a scope is settled by the
scopes that are seen from there. The rest of the store is left as it was
(`Store.Arises.cell?_after_eval`), and it is of no account: two stores that
look the same from the scopes in which a node is evaluated give the same
result, the same calls of `print` and the same changes, whatever else is in
them. That scopes have different numbers in the two stores does not matter
either, as long as it is settled which of them stand for each other.

# What looks the same

An evaluation starts with an outlook: a store that has come about, and a
scope in it on which there is a handle. Two outlooks agree
(`Outlook.Agree`) if scopes that stand for each other have the same names
with the same values, and the same parents, up to which scopes stand for
each other. One more thing can be told from inside: whether a scope is kept
alive by something that is not seen. By how many things does not matter.

# Counting

Letting go of a scope frees it if its count runs out, and the two stores
need not count alike. What is the same is how often the scopes that are seen
hold each other (`count_heldBy_eq`). Summed up over these scopes it is the
difference between the count of a scope and its owners outside
(`owners_add_holdsSeen`), and so this difference is the same in both stores.
-/
import Mathlib.Algebra.Order.BigOperators.Group.Finset
import ScopedScript.Proofs.Mirroring
import ScopedScript.Proofs.Ownership

namespace ScopedScript

-- =============================================================== agreement

/-- Scopes that keep the same: the same values under the same names, and
parents that stand for each other or are both gone. -/
structure Cell.Alike (Pairs : ScopeId → ScopeId → Prop) (s s' : Store) (i i' : ScopeId)
    (c c' : Cell) : Prop where
  slot : ∀ name, Option.Rel (Value.Alike Pairs) ((c.get? name).map (·.toValue i))
    ((c'.get? name).map (·.toValue i'))
  parent : Option.Rel
    (fun outer outer' => Pairs outer outer' ∨ s.isLive outer = false ∧ s'.isLive outer' = false)
    c.parent c'.parent

/-- Scopes that stand for each other are both gone, or keep the same. -/
def Store.Alike (Pairs : ScopeId → ScopeId → Prop) (s s' : Store) : Prop :=
  ∀ i i', Pairs i i' → Option.Rel (Cell.Alike Pairs s s' i i') (s.cell? i) (s'.cell? i')

/-- Where an evaluation can start: a store that has come about, and a scope
on which there is a handle. A handle on any scope that is there can be had
(`Store.Arises.hold`). -/
structure Outlook where
  store : Store
  held : List ScopeId
  scope : ScopeId
  arises : store.Arises held
  handle : scope ∈ held

namespace Outlook

/-- The scopes that are seen. -/
def Sees (v : Outlook) (i : ScopeId) : Prop := v.store.Sees v.scope i

/-- The scope is owned by something that is not seen: by a handle, or by a
scope with a function in a slot. -/
def Owned (v : Outlook) (i : ScopeId) : Prop :=
  i ∈ v.held ∨ ∃ other, ¬ v.Sees other ∧ v.store.Owns other i

/-- The same is seen: what is seen can be paired, one to one, such that pairs
keep the same and are both owned by something that is not seen, or both
not. -/
structure Agree (Pairs : ScopeId → ScopeId → Prop) (v v' : Outlook) : Prop where
  start : Pairs v.scope v'.scope
  one : ∀ {i i' j j'}, Pairs i i' → Pairs j j' → (i = j ↔ i' = j')
  seen : ∀ {i i'}, Pairs i i' → v.Sees i ∧ v'.Sees i'
  alike : Store.Alike Pairs v.store v'.store
  owned : ∀ {i i'}, Pairs i i' → (v.Owned i ↔ v'.Owned i')

/-- The pairs, and the scopes that are made next, in the order in which they
are made. -/
def Later (Pairs : ScopeId → ScopeId → Prop) (v v' : Outlook) (i i' : ScopeId) : Prop :=
  Pairs i i' ∨ ∃ k, i = v.store.cells.size + k ∧ i' = v'.store.cells.size + k

end Outlook

/-- Evaluations that come to the same: results that are alike or the same
error, the same calls of `print`, and stores in which scopes that stand for
each other keep the same. -/
inductive Eval.Same (Pairs : ScopeId → ScopeId → Prop) :
    Outcome Store (Option Value) → Outcome Store (Option Value) → Prop
  | ok {result result' : Option Value} {w w' : World Store}
      (hresult : Option.Rel (Value.Alike Pairs) result result')
      (hstores : Store.Alike Pairs w.scopes w'.scopes) (hprinted : w'.printed = w.printed) :
      Eval.Same Pairs (.ok result w) (.ok result' w')
  | error {e : Error} {w w' : World Store} (hstores : Store.Alike Pairs w.scopes w'.scopes)
      (hprinted : w'.printed = w.printed) : Eval.Same Pairs (.error e w) (.error e w')

-- ================================================================ counting

theorem Store.count_slotHolds_eq_sum (s : Store) (i : ScopeId) :
    s.slotHolds.count i = ∑ j ∈ Finset.range s.cells.size, (heldBy (s.cell? j)).count i := by
  have hlist (cells : List (Option Cell)) : (cells.flatMap heldBy).count i
      = ∑ j ∈ Finset.range cells.length, (heldBy cells[j]?.join).count i := by
    induction cells with
    | nil => rfl
    | cons cell cells ih =>
        rw [List.flatMap_cons, List.count_append, ih, List.length_cons, Finset.sum_range_succ',
          Nat.add_comm]
        rfl
  rw [slotHolds, hlist, Array.length_toList]
  refine Finset.sum_congr rfl fun j _ => ?_
  rw [cell?, Array.getElem?_toList]

namespace Outlook

variable {v v' : Outlook} {i i' : ScopeId} {c c' : Cell}

open Classical in
/-- How often a scope is owned by what is not seen. -/
noncomputable def owners (v : Outlook) (i : ScopeId) : Nat :=
  v.held.count i + ∑ j ∈ Finset.range v.store.cells.size with ¬ v.Sees j,
    (Store.heldBy (v.store.cell? j)).count i

open Classical in
/-- How often a scope is held by what is seen. -/
noncomputable def holdsSeen (v : Outlook) (i : ScopeId) : Nat :=
  ∑ j ∈ Finset.range v.store.cells.size with v.Sees j, (Store.heldBy (v.store.cell? j)).count i

theorem owners_add_holdsSeen (v : Outlook) (i : ScopeId) :
    v.owners i + v.holdsSeen i = Store.holdersIn (v.store.cell? i) := by
  classical
  have hsplit : v.holdsSeen i + (v.owners i - v.held.count i) = v.store.slotHolds.count i := by
    unfold holdsSeen owners
    rw [Store.count_slotHolds_eq_sum, Nat.add_sub_cancel_left]
    exact Finset.sum_filter_add_sum_filter_not _ _ _
  have hle : v.held.count i ≤ v.owners i := Nat.le_add_right ..
  have hcount := v.arises.balanced.count i
  omega

theorem owners_eq_zero_iff : v.owners i = 0 ↔ ¬ v.Owned i := by
  classical
  have hbalanced := v.arises.balanced
  unfold owners Owned
  rw [Nat.add_eq_zero_iff, List.count_eq_zero, Finset.sum_eq_zero_iff, not_or]
  refine and_congr_right fun _ => ⟨fun hnone howned => ?_, fun hnone j hj => ?_⟩
  · obtain ⟨other, hsees, howns⟩ := howned
    obtain ⟨c, hc, hmem⟩ := hbalanced.owns_iff.1 howns
    have hother := hnone other
      (Finset.mem_filter.2 ⟨Finset.mem_range.2 (Store.lt_size_of_cell? hc), hsees⟩)
    rw [hc, List.count_eq_zero] at hother
    exact hother hmem
  · rw [List.count_eq_zero]
    intro hmem
    cases hc : v.store.cell? j with
    | none =>
        rw [hc] at hmem
        cases hmem
    | some c =>
        rw [hc] at hmem
        exact hnone ⟨j, (Finset.mem_filter.1 hj).2, hbalanced.owns_iff.2 ⟨c, hc, hmem⟩⟩

/-- Nothing owns a scope that has yet to be made. -/
theorem owners_of_size_le (hi : v.store.cells.size ≤ i) : v.owners i = 0 := by
  have htotal := v.owners_add_holdsSeen i
  have hnone : v.store.cell? i = none := by
    rw [Store.cell?, Array.getElem?_eq_none hi]
    rfl
  rw [hnone, Store.holdersIn] at htotal
  omega

/-- What a confined evaluation holds comes on top of the owners, who are all
still there. -/
theorem owners_lt {s : Store} {l : List ScopeId}
    (h : Store.Confined v.store v.held v.scope (i :: l) s) (hc : s.cell? i = some c) :
    v.owners i < c.holders := by
  classical
  have hcount := h.balanced.count i
  have hkept : ∑ j ∈ Finset.range v.store.cells.size with ¬ v.Sees j,
        (Store.heldBy (v.store.cell? j)).count i
      ≤ ∑ j ∈ Finset.range s.cells.size, (Store.heldBy (s.cell? j)).count i := by
    have hsame : ∑ j ∈ Finset.range v.store.cells.size with ¬ v.Sees j,
          (Store.heldBy (v.store.cell? j)).count i
        = ∑ j ∈ Finset.range v.store.cells.size with ¬ v.Sees j,
          (Store.heldBy (s.cell? j)).count i := by
      refine Finset.sum_congr rfl fun j hj => ?_
      obtain ⟨hlt, hsees⟩ := Finset.mem_filter.1 hj
      rw [h.apart (not_or.2 ⟨hsees, Nat.not_le.2 (Finset.mem_range.1 hlt)⟩)]
    rw [hsame]
    refine Finset.sum_le_sum_of_subset fun j hj => ?_
    have hlt := Finset.mem_range.1 (Finset.mem_filter.1 hj).1
    exact Finset.mem_range.2 (Nat.lt_of_lt_of_le hlt h.size)
  rw [hc, Store.holdersIn, Store.count_slotHolds_eq_sum, List.cons_append, List.count_cons_self,
    List.count_append] at hcount
  unfold owners
  omega

end Outlook

-- =================================================================== pairs

theorem Value.Alike.mono {Pairs Pairs' : ScopeId → ScopeId → Prop} {value value' : Value}
    (h : Value.Alike Pairs value value') (hpairs : ∀ {i i'}, Pairs i i' → Pairs' i i') :
    Value.Alike Pairs' value value' := by
  cases h with
  | plain hplain => exact .plain hplain
  | function hscope => exact .function (hpairs hscope)

theorem Value.Alike.symm {Pairs : ScopeId → ScopeId → Prop} {value value' : Value}
    (h : Value.Alike Pairs value value') : Value.Alike (flip Pairs) value' value := by
  cases h with
  | plain hplain => exact .plain hplain
  | function hscope => exact .function hscope

namespace Outlook.Agree

variable {Pairs : ScopeId → ScopeId → Prop} {v v' : Outlook} {i i' : ScopeId} {c c' : Cell}

theorem symm (h : Agree Pairs v v') : Agree (flip Pairs) v' v := by
  refine ⟨h.start, fun hi hj => (h.one hi hj).symm, fun hi => (h.seen hi).symm, fun i' i hi => ?_,
    fun hi => (h.owned hi).symm⟩
  have hcells := h.alike i i' hi
  generalize v.store.cell? i = cell, v'.store.cell? i' = cell' at hcells
  cases hcells with
  | none => exact .none
  | @some c c' hcells =>
      refine .some ⟨fun name => ?_, ?_⟩
      · have hslot := hcells.slot name
        generalize (c.get? name).map _ = value, (c'.get? name).map _ = value' at hslot
        cases hslot with
        | none => exact .none
        | some hvalue => exact .some hvalue.symm
      · have hparent := hcells.parent
        generalize c.parent = outer, c'.parent = outer' at hparent
        cases hparent with
        | none => exact .none
        | some houter => exact .some (houter.imp_right And.symm)

theorem cells (h : Agree Pairs v v') (hi : Pairs i i') :
    ∃ c c', v.store.cell? i = some c ∧ v'.store.cell? i' = some c'
      ∧ Cell.Alike Pairs v.store v'.store i i' c c' := by
  obtain ⟨c, hc⟩ := v.arises.balanced.cell?_of_sees v.handle (h.seen hi).1
  have hcells := h.alike i i' hi
  rw [hc] at hcells
  generalize v'.store.cell? i' = cell' at hcells
  cases hcells with
  | @some _ c' hcells => exact ⟨c, c', hc, rfl, hcells⟩

/-- Everything that is seen has a partner. -/
theorem exists_partner (h : Agree Pairs v v') (hsees : v.Sees i) : ∃ i', Pairs i i' := by
  unfold Outlook.Sees at hsees
  induction hsees with
  | refl => exact ⟨v'.scope, h.start⟩
  | @parent i outer c _ hc hparent hlive ih =>
      obtain ⟨i', hi⟩ := ih
      obtain ⟨d, c', hd, -, hcells⟩ := h.cells hi
      rw [hc] at hd
      cases hd
      have houter := hcells.parent
      rw [hparent] at houter
      generalize c'.parent = parent' at houter
      cases houter with
      | some houter =>
          rcases houter with houter | ⟨hgone, -⟩
          · exact ⟨_, houter⟩
          · rw [hlive] at hgone
            cases hgone
  | @closure i closed c entry _ hc hentry hclosed ih =>
      obtain ⟨i', hi⟩ := ih
      obtain ⟨d, c', hd, -, hcells⟩ := h.cells hi
      rw [hc] at hd
      cases hd
      obtain ⟨⟨name, slot⟩, hslot, rfl⟩ := List.mem_map.1 hentry
      have hvalues := hcells.slot name
      have hnames := (v.arises.balanced.sound hc).names
      rw [Cell.get?_of_mem_slots hnames hslot, Option.map_some] at hvalues
      generalize (c'.get? name).map _ = value' at hvalues
      cases hvalues with
      | some hvalue =>
          have hscope := hvalue.scope?
          dsimp only at hclosed
          rw [hclosed] at hscope
          generalize Value.scope? _ = closed' at hscope
          cases hscope with
          | some hpair => exact ⟨_, hpair⟩

theorem lt_size (h : Agree Pairs v v') (hi : Pairs i i') :
    i < v.store.cells.size ∧ i' < v'.store.cells.size := by
  obtain ⟨c, c', hc, hc', -⟩ := h.cells hi
  exact ⟨Store.lt_size_of_cell? hc, Store.lt_size_of_cell? hc'⟩

/-- Scopes that are made later are none of those that were paired. -/
theorem later_one (h : Agree Pairs v v') {j j' : ScopeId} (hi : Later Pairs v v' i i')
    (hj : Later Pairs v v' j j') : i = j ↔ i' = j' := by
  rcases hi with hi | ⟨k, rfl, rfl⟩
  · obtain ⟨hlt, hlt'⟩ := h.lt_size hi
    rcases hj with hj | ⟨m, rfl, rfl⟩
    · exact h.one hi hj
    · exact iff_of_false (Nat.ne_of_lt (Nat.lt_add_right m hlt))
        (Nat.ne_of_lt (Nat.lt_add_right m hlt'))
  · rcases hj with hj | ⟨m, rfl, rfl⟩
    · obtain ⟨hlt, hlt'⟩ := h.lt_size hj
      exact iff_of_false (Nat.ne_of_gt (Nat.lt_add_right k hlt))
        (Nat.ne_of_gt (Nat.lt_add_right k hlt'))
    · rw [Nat.add_left_cancel_iff, Nat.add_left_cancel_iff]

theorem later_owned (h : Agree Pairs v v') (hi : Later Pairs v v' i i') :
    v.owners i = 0 ↔ v'.owners i' = 0 := by
  rcases hi with hi | ⟨k, rfl, rfl⟩
  · rw [owners_eq_zero_iff, owners_eq_zero_iff, h.owned hi]
  · rw [owners_of_size_le (Nat.le_add_right ..), owners_of_size_le (Nat.le_add_right ..)]

/-- What evaluations have in common that see the same. -/
noncomputable def bond (h : Agree Pairs v v') : Bond where
  Pairs := Later Pairs v v'
  one := h.later_one
  owners := v.owners
  owners' := v'.owners
  owned := h.later_owned
  Gone := v.store.Gone
  Gone' := v'.store.Gone

-- ============================================================ the beginning

/-- Values that are alike are in slots that are alike: a function over the
scope of its slot is kept without the scope on both sides. -/
theorem slotMirrors (h : Agree Pairs v v') (hi : Pairs i i') {slot slot' : Slot}
    (hvalue : Value.Alike Pairs (slot.toValue i) (slot'.toValue i'))
    (hheld : slot.held? ≠ some i) (hheld' : slot'.held? ≠ some i') :
    Slot.Mirrors h.bond slot slot' := by
  cases slot with
  | own program definition =>
      cases slot' with
      | own program' definition' =>
          cases hvalue with
          | plain hplain => cases hplain
          | function hscope => exact .own
      | plain value' =>
          change Value.Alike Pairs (.function ⟨program, definition, i⟩) value' at hvalue
          cases hvalue with
          | plain hplain => cases hplain
          | function hscope => exact absurd (congrArg some ((h.one hi hscope).1 rfl).symm) hheld'
  | plain value =>
      cases slot' with
      | own program' definition' =>
          change Value.Alike Pairs value (.function ⟨program', definition', i'⟩) at hvalue
          cases hvalue with
          | plain hplain => cases hplain
          | function hscope => exact absurd (congrArg some ((h.one hi hscope).2 rfl).symm) hheld
      | plain value' => exact .plain (hvalue.mono .inl)

theorem slots (h : Agree Pairs v v') (hi : Pairs i i') (hc : v.store.cell? i = some c)
    (hc' : v'.store.cell? i' = some c') (hcells : Cell.Alike Pairs v.store v'.store i i' c c')
    (name : String) : Option.Rel (Slot.Mirrors h.bond) (c.get? name) (c'.get? name) := by
  have hvalues := hcells.slot name
  have hapart {slot : Slot} (hslot : c.get? name = some slot) : slot.held? ≠ some i := by
    intro hheld
    apply (v.arises.balanced.sound hc).apart
    exact List.mem_filterMap.2 ⟨_, Cell.mem_slots_of_get? hslot, hheld⟩
  have hapart' {slot' : Slot} (hslot' : c'.get? name = some slot') : slot'.held? ≠ some i' := by
    intro hheld
    apply (v'.arises.balanced.sound hc').apart
    exact List.mem_filterMap.2 ⟨_, Cell.mem_slots_of_get? hslot', hheld⟩
  generalize c.get? name = slot, c'.get? name = slot' at hvalues hapart hapart'
  cases slot with
  | none =>
      cases slot' with
      | none => exact .none
      | some slot' => cases hvalues
  | some slot =>
      cases slot' with
      | none => cases hvalues
      | some slot' =>
          cases hvalues with
          | some hvalue => exact .some (h.slotMirrors hi hvalue (hapart rfl) (hapart' rfl))

/-- Scopes that are paired hold paired scopes equally often. -/
theorem count_heldBy_eq (h : Agree Pairs v v') {j j' : ScopeId} (hi : Pairs i i')
    (hj : Pairs j j') :
    (Store.heldBy (v.store.cell? j)).count i = (Store.heldBy (v'.store.cell? j')).count i' := by
  obtain ⟨c, c', hc, hc', hcells⟩ := h.cells hj
  obtain ⟨l, hheld, hperm⟩ := exists_held_aligned (v.arises.balanced.sound hc).names
    (v'.arises.balanced.sound hc').names (h.slots hj hc hc' hcells)
  rw [hc, hc']
  show c.held.count i = c'.held.count i'
  rw [← hperm.count_eq]
  generalize c.held = held at hheld
  clear hperm
  induction hheld with
  | nil => rfl
  | @cons closed closed' _ _ hclosed _ ih =>
      have hsame := h.later_one hclosed (.inl hi)
      rw [List.count_cons, List.count_cons, ih]
      by_cases heq : closed = i
      · rw [beq_iff_eq.2 heq, beq_iff_eq.2 (hsame.1 heq)]
      · rw [beq_eq_false_iff_ne.2 heq, beq_eq_false_iff_ne.2 (heq ∘ hsame.2)]

/-- A scope is held as often by what is seen here as its partner is by what
is seen there. -/
theorem holdsSeen_eq (h : Agree Pairs v v') (hi : Pairs i i') :
    v.holdsSeen i = v'.holdsSeen i' := by
  classical
  choose partner hpartner using fun (j : ScopeId) (hj : v.Sees j) => h.exists_partner hj
  unfold holdsSeen
  refine Finset.sum_bij (fun j hj => partner j (Finset.mem_filter.1 hj).2) (fun j hj => ?_)
    (fun j hj k hk heq => ?_) (fun j' hj' => ?_) fun j hj => ?_
  · have hpair := hpartner j (Finset.mem_filter.1 hj).2
    exact Finset.mem_filter.2 ⟨Finset.mem_range.2 (h.lt_size hpair).2, (h.seen hpair).2⟩
  · exact (h.one (hpartner j _) (hpartner k _)).2 heq
  · obtain ⟨j, hpair⟩ := h.symm.exists_partner (Finset.mem_filter.1 hj').2
    have hsees := (h.seen hpair).1
    refine ⟨j, Finset.mem_filter.2 ⟨Finset.mem_range.2 (h.lt_size hpair).1, hsees⟩, ?_⟩
    exact (h.one (hpartner j hsees) hpair).1 rfl
  · exact h.count_heldBy_eq hi (hpartner j _)

theorem linked (h : Agree Pairs v v') (hc : v.store.cell? i = some c)
    (hc' : v'.store.cell? i' = some c') (hcells : Cell.Alike Pairs v.store v'.store i i' c c') :
    Option.Rel (h.bond.Linked i i') c.parent c'.parent := by
  have hparent := hcells.parent
  have holder := v.arises.reachable.ordered.parent hc
  have holder' := v'.arises.reachable.ordered.parent hc'
  have hi := Store.lt_size_of_cell? hc
  have hi' := Store.lt_size_of_cell? hc'
  generalize c.parent = outer, c'.parent = outer' at hparent holder holder'
  cases hparent with
  | none => exact .none
  | @some outer outer' hparent =>
      refine .some ⟨?_, holder outer rfl, holder' outer' rfl⟩
      rcases hparent with hpair | ⟨hgone, hgone'⟩
      · exact .inl (.inl hpair)
      · refine .inr ⟨⟨Nat.lt_trans (holder outer rfl) hi, ?_⟩,
          ⟨Nat.lt_trans (holder' outer' rfl) hi', ?_⟩⟩
        · exact Option.not_isSome_iff_eq_none.1 (Bool.eq_false_iff.1 hgone)
        · exact Option.not_isSome_iff_eq_none.1 (Bool.eq_false_iff.1 hgone')

/-- To begin with the stores mirror each other. -/
theorem mirrors (h : Agree Pairs v v') : Store.Mirrors h.bond v.store v'.store := by
  refine ⟨fun k => ?_, fun {i i'} hi => ?_, id, id⟩
  · exact ⟨.inr ⟨k, rfl, rfl⟩, owners_of_size_le (Nat.le_add_right ..),
      owners_of_size_le (Nat.le_add_right ..)⟩
  · rcases hi with hi | ⟨k, rfl, rfl⟩
    · obtain ⟨c, c', hc, hc', hcells⟩ := h.cells hi
      rw [hc, hc']
      refine .some ⟨h.slots hi hc hc' hcells, (v.arises.balanced.sound hc).names,
        (v'.arises.balanced.sound hc').names, h.linked hc hc' hcells, ?_⟩
      have htotal := v.owners_add_holdsSeen i
      have htotal' := v'.owners_add_holdsSeen i'
      rw [hc, Store.holdersIn] at htotal
      rw [hc', Store.holdersIn, ← h.holdsSeen_eq hi] at htotal'
      show c.holders + v'.owners i' = c'.holders + v.owners i
      omega
    · rw [Store.cell?, Store.cell?, Array.getElem?_eq_none (Nat.le_add_right ..),
        Array.getElem?_eq_none (Nat.le_add_right ..)]
      exact .none

end Outlook.Agree

-- ================================================================= the end

/-- Stores that mirror each other keep the same. -/
theorem Store.Mirrors.alike {b : Bond} {s s' : Store} (h : Store.Mirrors b s s') :
    Store.Alike b.Pairs s s' := by
  intro i i' hi
  have hcells := h.cell hi
  generalize s.cell? i = cell, s'.cell? i' = cell' at hcells
  cases hcells with
  | none => exact .none
  | @some c c' hcells =>
      refine .some ⟨fun name => ?_, ?_⟩
      · have hslot := hcells.slot name
        generalize c.get? name = slot, c'.get? name = slot' at hslot
        cases hslot with
        | none => exact .none
        | some hslot => exact .some (hslot.toValue hi)
      · have hparent := hcells.parent
        generalize c.parent = outer, c'.parent = outer' at hparent
        cases hparent with
        | none => exact .none
        | some hlinked =>
            refine .some (hlinked.paired.imp_right fun hgone => ?_)
            rw [Store.isLive, Store.isLive, (h.gone hgone.1).2, (h.gone' hgone.2).2]
            exact ⟨rfl, rfl⟩

/-- An evaluation goes the same wherever it sees the same. -/
theorem Outlook.Agree.same_eval {Pairs : ScopeId → ScopeId → Prop} {v v' : Outlook}
    (h : Agree Pairs v v') (program : Nat) (node : Node) (printed : Array (List Printed)) :
    Eval.Same (Later Pairs v v') (eval program v.scope node ⟨v.store, printed⟩)
      (eval program v'.scope node ⟨v'.store, printed⟩) := by
  have hpaced := Tandem.paced_evalTask
    (T := h.bond.tandem v.store v.handle fun hconfined hc => owners_lt hconfined hc)
    ⟨0, program, v.scope, [], node⟩ (.inl h.start)
  obtain ⟨-, hmatched⟩ := hpaced ⟨v.store, printed⟩ ⟨v'.store, printed⟩ [v.scope]
    ⟨List.mem_cons_self .., List.mem_cons_self ..⟩ (List.nil_subset _) (v.arises.lent v.scope)
    h.mirrors rfl
  change Tandem.Matched _ _ (eval program v.scope node ⟨v.store, printed⟩)
    (eval program v'.scope node ⟨v'.store, printed⟩) at hmatched
  generalize eval program v.scope node ⟨v.store, printed⟩ = r,
    eval program v'.scope node ⟨v'.store, printed⟩ = r' at hmatched
  cases hmatched with
  | ok hresult hmirrors hprinted => exact .ok hresult (Store.Mirrors.alike hmirrors) hprinted
  | error hmirrors hprinted => exact .error (Store.Mirrors.alike hmirrors) hprinted

/-- Evaluation touches and depends on nothing but what it sees. It leaves
every scope alone that was there and that it does not see, whether it
succeeds or fails; and where the same is seen it yields the same result,
prints the same and makes the same changes. -/
theorem evaluation_is_local (v : Outlook) (program : Nat) (node : Node)
    (printed : Array (List Printed)) :
    (∀ i, i < v.store.cells.size → ¬ v.Sees i →
      (Eval.after (eval program v.scope node ⟨v.store, printed⟩)).scopes.cell? i
        = v.store.cell? i)
    ∧ ∀ (v' : Outlook) (Pairs : ScopeId → ScopeId → Prop), Outlook.Agree Pairs v v' →
      Eval.Same (Outlook.Later Pairs v v') (eval program v.scope node ⟨v.store, printed⟩)
        (eval program v'.scope node ⟨v'.store, printed⟩) :=
  ⟨fun _ hi hsees => v.arises.cell?_after_eval v.handle program node printed hi hsees,
    fun _ _ hagree => hagree.same_eval program node printed⟩

/-- A function that prints a name of the scope it closes over. -/
def teller : Node :=
  .function ⟨0, 30⟩ "tell" []
    (.block ⟨16, 30⟩ [.call ⟨18, 28⟩ (.reference ⟨18, 23⟩ "print") [.reference ⟨24, 27⟩ "tale"]])

/-- Two scopes, numbered from `n`: the first one has a function over the
second one, which nothing else holds. -/
def tale (n : ScopeId) : List (Option Cell) :=
  [some { slots := [("tell", .plain (.function ⟨0, teller, n + 1⟩)),
            ("print", .plain (.native "print"))],
          parent := none },
    some { slots := [("tale", .plain (.string "once"))], parent := some n }]

/-- The function is called and replaced, which frees the scope it closes
over. -/
def telling : Node :=
  .root ⟨0, 20⟩ [.call ⟨0, 6⟩ (.reference ⟨0, 4⟩ "tell") [],
    .assignment ⟨8, 19⟩ (.reference ⟨8, 12⟩ "tell") (.boolean ⟨15, 19⟩ true)]

/-- Only the two scopes. -/
def narrow : Outlook where
  store := ⟨(tale 0).toArray⟩
  held := [0]
  scope := 0
  arises := by
    have hfirst : Store.Arises [0] _ := @Store.Arises.declare _ _ 0 "print" (.native "print")
      (@Store.Arises.create _ _ none .empty (by simp))
    have hsecond : Store.Arises [1, 0] _ := @Store.Arises.declare _ _ 1 "tale" (.string "once")
      (@Store.Arises.create _ _ (some 0) hfirst (by simp))
    exact @Store.Arises.declare _ _ 0 "tell" (.function ⟨0, teller, 1⟩) hsecond
  handle := List.mem_singleton_self 0

/-- The two scopes, and one that was there before them. -/
def wide : Outlook where
  store := ⟨(some { slots := [("aside", .plain .unknown)], parent := none } :: tale 1).toArray⟩
  held := [1, 0]
  scope := 1
  arises := by
    have hbefore : Store.Arises [0] _ := @Store.Arises.declare _ _ 0 "aside" .unknown
      (@Store.Arises.create _ _ none .empty (by simp))
    have hfirst : Store.Arises [1, 0] _ := @Store.Arises.declare _ _ 1 "print" (.native "print")
      (@Store.Arises.create _ _ none hbefore (by simp))
    have hsecond : Store.Arises [2, 1, 0] _ := @Store.Arises.declare _ _ 2 "tale" (.string "once")
      (@Store.Arises.create _ _ (some 1) hfirst (by simp))
    exact @Store.Arises.declare _ _ 1 "tell" (.function ⟨0, teller, 2⟩) hsecond
  handle := List.mem_cons_self ..

/-- What is seen of two scopes that are numbered from `n`, if they are all
that has a number from there on. -/
theorem sees_tale {s : Store} {n i : ScopeId} {c d : Cell} (hcells : tale n = [some c, some d])
    (hc : s.cell? n = some c) (hd : s.cell? (n + 1) = some d) (h : s.Sees n i) :
    i = n ∨ i = n + 1 := by
  cases hcells
  induction h with
  | refl => exact .inl rfl
  | parent _ hcell hparent _ ih =>
      rcases ih with rfl | rfl
      · rw [hc] at hcell
        cases hcell
        cases hparent
      · rw [hd] at hcell
        cases hcell
        cases hparent
        exact .inl rfl
  | closure _ hcell hentry hclosed ih =>
      rcases ih with rfl | rfl
      · rw [hc] at hcell
        cases hcell
        rcases List.mem_cons.1 hentry with rfl | hentry
        · cases hclosed
          exact .inr rfl
        · rw [List.mem_singleton.1 hentry] at hclosed
          cases hclosed
      · rw [hd] at hcell
        cases hcell
        rw [List.mem_singleton.1 hentry] at hclosed
        cases hclosed

/-- The scopes of the one store and those of the other. -/
def renumbered (i i' : Nat) : Prop := i = i' + 1 ∧ i' < 2

theorem renumbered_cases {i i' : Nat} (h : renumbered i i') :
    (i = 1 ∧ i' = 0) ∨ (i = 2 ∧ i' = 1) := by
  unfold renumbered at h
  omega

theorem agree_wide_narrow : Outlook.Agree renumbered wide narrow := by
  have hsecond : wide.Sees 2 := .closure .refl rfl (List.mem_cons_self ..) rfl
  have hsecond' : narrow.Sees 1 := .closure .refl rfl (List.mem_cons_self ..) rfl
  refine ⟨⟨rfl, by decide⟩, fun {i i' j j'} hi hj => ?_, fun hi => ?_, fun i i' hi => ?_,
    fun hi => ?_⟩
  · rw [hi.1, hj.1]
    exact Nat.add_right_cancel_iff
  · rcases renumbered_cases hi with ⟨rfl, rfl⟩ | ⟨rfl, rfl⟩
    · exact ⟨.refl, .refl⟩
    · exact ⟨hsecond, hsecond'⟩
  · rcases renumbered_cases hi with ⟨rfl, rfl⟩ | ⟨rfl, rfl⟩
    · refine .some ⟨fun name => ?_, .none⟩
      unfold Cell.get?
      rw [List.lookup_cons, List.lookup_cons, List.lookup_cons, List.lookup_cons]
      cases name == "tell"
      · cases name == "print"
        · exact .none
        · exact .some (.plain rfl)
      · exact .some (.function ⟨rfl, by decide⟩)
    · refine .some ⟨fun name => ?_, .some (.inl ⟨rfl, by decide⟩)⟩
      unfold Cell.get?
      rw [List.lookup_cons]
      cases name == "tale"
      · exact .none
      · exact .some (.plain rfl)
  · rcases renumbered_cases hi with ⟨rfl, rfl⟩ | ⟨rfl, rfl⟩
    · exact iff_of_true (.inl wide.handle) (.inl narrow.handle)
    · refine iff_of_false ?_ ?_
      · rintro (hmem | ⟨other, hsees, howns⟩)
        · exact absurd hmem (by decide)
        · obtain ⟨c, hc, hmem⟩ := wide.arises.balanced.owns_iff.1 howns
          match other, hc with
          | 0, hc =>
              cases hc
              cases hmem
          | 1, _ => exact hsees .refl
          | 2, _ => exact hsees hsecond
          | n + 3, hc => cases hc
      · rintro (hmem | ⟨other, hsees, howns⟩)
        · exact absurd hmem (by decide)
        · obtain ⟨c, hc, -⟩ := narrow.arises.balanced.owns_iff.1 howns
          match other, hc with
          | 0, _ => exact hsees .refl
          | 1, _ => exact hsees hsecond'
          | n + 2, hc => cases hc

/-- The scope that was there before stays as it was, and without it the call
goes the same: it prints, and its scope is gone in the end. -/
theorem evaluation_is_local_without_another_scope :
    (¬ wide.Sees 0 ∧ (Eval.after (eval 0 1 telling ⟨wide.store, #[]⟩)).scopes.cell? 0
      = wide.store.cell? 0)
    ∧ (Outlook.Agree renumbered wide narrow ∧ Eval.Same (Outlook.Later renumbered wide narrow)
      (eval 0 1 telling ⟨wide.store, #[]⟩) (eval 0 0 telling ⟨narrow.store, #[]⟩))
    ∧ (Eval.after (eval 0 1 telling ⟨wide.store, #[]⟩)).printed = #[[.string "once"]]
    ∧ (Eval.after (eval 0 1 telling ⟨wide.store, #[]⟩)).scopes.isLive 2 = false := by
  obtain ⟨hkept, hsame⟩ := evaluation_is_local wide 0 telling #[]
  have hunseen : ¬ wide.Sees 0 := by
    intro hsees
    rcases sees_tale rfl rfl rfl hsees with hzero | hzero
    · cases hzero
    · cases hzero
  refine ⟨⟨hunseen, hkept 0 (by decide) hunseen⟩,
    ⟨agree_wide_narrow, hsame narrow renumbered agree_wide_narrow⟩, ?_, ?_⟩
  · decide +kernel
  · decide +kernel

end ScopedScript
