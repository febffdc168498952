/-
The books of the store.

Every scope has a count of how often it is held, and a scope whose count
runs out is freed. The count is a number in a cell; who the holders are is
written down nowhere. This file writes it down: `Balanced s outside` says
that the count of every scope is the number of times it is on the list
`outside`, of what is held from outside the store, plus the number of
slots that hold it.

# Why a balance is worth having

A balance settles liveness. A scope that is gone counts as held zero
times, so nothing holds it; a scope that is there is held at least once,
so something does (`Balanced.isLive_iff`).

# Keeping the books

All operations are entries in the books: something moves from the list
into a slot, or from a slot onto the list, or is struck off. One lemma
carries the arithmetic, `Balanced.put` for a change to one cell; letting
go follows from it by induction on the cascade, since a freed scope puts
what its slots held onto the list of what is still to be let go.
-/
import ScopedScript.Proofs.Evolution
import ScopedScript.Proofs.StoreSteps

namespace ScopedScript

-- ================================================================= cells

namespace Cell

/-- A scope that is held, with every name once, and with no slot that holds
the scope itself. -/
structure Sound (scope : ScopeId) (c : Cell) : Prop where
  held : 0 < c.holders
  names : (c.slots.map Prod.fst).Nodup
  apart : scope ∉ c.held

theorem mem_slots_of_get? {c : Cell} {name : String} {slot : Slot} (h : c.get? name = some slot) :
    (name, slot) ∈ c.slots := by
  obtain ⟨before, after, hslots, -⟩ := List.lookup_eq_some_iff.1 h
  rw [hslots]
  simp

theorem get?_of_mem_slots {c : Cell} (hnames : (c.slots.map Prod.fst).Nodup) {name : String}
    {slot : Slot} (h : (name, slot) ∈ c.slots) : c.get? name = some slot := by
  obtain ⟨before, after, hslots⟩ := List.append_of_mem h
  refine List.lookup_eq_some_iff.2 ⟨before, after, hslots, fun entry hentry => ?_⟩
  -- an earlier entry of the same name would make the name occur twice
  have hne : entry.1 ≠ name := by
    intro heq
    rw [hslots, List.map_append, List.map_cons, List.nodup_append] at hnames
    exact hnames.2.2 entry.1 (List.mem_map_of_mem hentry) name (List.mem_cons_self ..) heq
  exact bne_iff_ne.2 (Ne.symm hne)

theorem held_add (c : Cell) (name : String) (slot : Slot) :
    (c.add name slot).held = slot.held?.toList ++ c.held := by
  unfold add held
  rw [List.filterMap_cons]
  cases slot.held? <;> rfl

/-- A replaced slot gives back what it held and takes what the new one
holds. -/
theorem count_held_replace {c : Cell} (hnames : (c.slots.map Prod.fst).Nodup) {name : String}
    {old : Slot} (hold : c.get? name = some old) (slot : Slot) (i : ScopeId) :
    (c.replace name slot).held.count i + old.held?.toList.count i
      = c.held.count i + slot.held?.toList.count i := by
  unfold get? at hold
  unfold replace held
  dsimp only
  revert hnames hold
  induction c.slots with
  | nil => intro _ hold; cases hold
  | cons entry slots ih =>
      intro hnames hold
      rw [List.map_cons, List.nodup_cons] at hnames
      have hcons (l : List (String × Slot)) (e : String × Slot) :
          ((e :: l).filterMap (·.2.held?)).count i
            = e.2.held?.toList.count i + (l.filterMap (·.2.held?)).count i := by
        rw [List.filterMap_cons]
        cases e.2.held? with
        | none => simp
        | some j => simp only [Option.toList_some, List.count_cons, List.count_nil]; omega
      by_cases hname : entry.1 = name
      · -- the name is here and nowhere else
        have hrest : slots.map (fun e => if e.1 = name then (name, slot) else e) = slots := by
          refine (List.map_congr_left fun e he => ?_).trans (List.map_id slots)
          have hne : e.1 ≠ name := by
            intro heq
            exact hnames.1 (hname ▸ heq ▸ List.mem_map_of_mem he)
          exact if_neg hne
        have hfound : entry.2 = old := by
          rw [List.lookup_cons, hname] at hold
          simpa using hold
        rw [List.map_cons, if_pos hname, hrest, hcons, hcons, hfound]
        dsimp only
        omega
      · have hnext : slots.lookup name = some old := by
          rw [List.lookup_cons] at hold
          have hbeq : (name == entry.1) = false := beq_eq_false_iff_ne.2 (Ne.symm hname)
          rw [hbeq] at hold
          exact hold
        have := ih hnames.2 hnext
        rw [List.map_cons, if_neg hname, hcons, hcons]
        omega

theorem Sound.add {scope : ScopeId} {c : Cell} (h : c.Sound scope) {name : String}
    (hname : c.has name = false) (value : Value) :
    (c.add name (Slot.ofValue scope value)).Sound scope := by
  refine ⟨h.held, ?_, ?_⟩
  · have hfresh : name ∉ c.slots.map Prod.fst := by
      intro hmem
      rw [has_eq_true_iff.2 hmem] at hname
      cases hname
    exact List.nodup_cons.2 ⟨hfresh, h.names⟩
  · rw [held_add, List.mem_append, not_or]
    refine ⟨fun hmem => ?_, h.apart⟩
    exact Slot.held?_ofValue_ne scope value (Option.mem_toList.1 hmem)

theorem Sound.replace {scope : ScopeId} {c : Cell} (h : c.Sound scope) (name : String)
    (value : Value) : (c.replace name (Slot.ofValue scope value)).Sound scope := by
  refine ⟨h.held, ?_, fun hmem => ?_⟩
  · rw [names_replace]
    exact h.names
  · obtain ⟨entry, hentry, hheld⟩ := List.mem_filterMap.1 hmem
    obtain ⟨old, hold, rfl⟩ := List.mem_map.1 hentry
    by_cases hname : old.1 = name
    · rw [if_pos hname] at hheld
      exact Slot.held?_ofValue_ne scope value hheld
    · rw [if_neg hname] at hheld
      exact h.apart (List.mem_filterMap.2 ⟨old, hold, hheld⟩)

end Cell

-- ================================================================ balance

namespace Store

/-- The scopes that the slots of a scope hold; one that is gone has no
slots. -/
def heldBy : Option Cell → List ScopeId
  | some c => c.held
  | none => []

/-- The scopes that slots hold, each as often as slots hold it. -/
def slotHolds (s : Store) : List ScopeId := s.cells.toList.flatMap heldBy

/-- How often a scope is held; one that is gone is not. -/
def holdersIn : Option Cell → Nat
  | some c => c.holders
  | none => 0

/-- Every scope is held as often as it is on the list of what is held from
outside, plus as often as slots hold it. -/
structure Balanced (s : Store) (outside : List ScopeId) : Prop where
  count : ∀ scope,
    holdersIn (s.cell? scope) = outside.count scope + s.slotHolds.count scope
  sound : ∀ {scope : ScopeId} {c : Cell}, s.cell? scope = some c → c.Sound scope

variable {s : Store} {scope : ScopeId} {c : Cell} {outside outside' : List ScopeId}

/-- Changing a cell changes what slots hold by the difference of the two. -/
theorem count_slotHolds_put (hc : s.cell? scope = some c) (new : Option Cell) (i : ScopeId) :
    (s.put scope new).slotHolds.count i + c.held.count i
      = s.slotHolds.count i + (heldBy new).count i := by
  have hlt : scope < s.cells.toList.length := by
    rw [Array.length_toList]
    exact lt_size_of_cell? hc
  have hcell : s.cells.toList[scope] = some c := by
    rw [cell?, Option.join_eq_some_iff] at hc
    rw [Array.getElem_toList]
    exact (Array.getElem?_eq_some_iff.1 hc).2
  obtain ⟨front, back, hcells, -, hset⟩ := @List.exists_of_set _ scope new _ hlt
  rw [hcell] at hcells
  unfold slotHolds put
  rw [Array.toList_setIfInBounds, hset, hcells]
  simp only [List.flatMap_append, List.flatMap_cons, List.count_append, heldBy]
  omega

/-- The books after a change to one cell: whatever the list and the slots
lose or gain between them shows in the count of the cell. -/
theorem Balanced.put (h : s.Balanced outside) (hc : s.cell? scope = some c) {new : Option Cell}
    (hnew : ∀ d, new = some d → d.Sound scope)
    (hcount : ∀ i, outside'.count i + (heldBy new).count i + (if i = scope then c.holders else 0)
      = outside.count i + c.held.count i + (if i = scope then holdersIn new else 0)) :
    (s.put scope new).Balanced outside' := by
  refine ⟨fun i => ?_, fun {i d} hd => ?_⟩
  · have hslots := count_slotHolds_put hc new i
    have hbefore := h.count i
    have hentry := hcount i
    by_cases hi : i = scope
    · subst hi
      rw [cell?_put_self (lt_size_of_cell? hc)]
      rw [hc] at hbefore
      simp only [holdersIn, if_true] at hbefore hentry ⊢
      omega
    · rw [cell?_put_ne _ (Ne.symm hi)]
      rw [if_neg hi, if_neg hi] at hentry
      omega
  · by_cases hi : scope = i
    · subst hi
      rw [cell?_put_self (lt_size_of_cell? hc)] at hd
      exact hnew d hd
    · rw [cell?_put_ne _ hi] at hd
      exact h.sound hd

theorem Balanced.perm (h : s.Balanced outside) (hperm : outside.Perm outside') :
    s.Balanced outside' := by
  refine ⟨fun i => ?_, h.sound⟩
  rw [h.count i, hperm.count_eq]

-- =============================================================== liveness

/-- What is held, by the list or by a slot, is there. -/
theorem Balanced.cell?_of_mem (h : s.Balanced outside)
    (hmem : scope ∈ outside ∨ scope ∈ s.slotHolds) : ∃ c, s.cell? scope = some c := by
  have hcount := h.count scope
  have hpos : 0 < outside.count scope + s.slotHolds.count scope := by
    rcases hmem with hmem | hmem
    · have := List.count_pos_iff.2 hmem
      omega
    · have := List.count_pos_iff.2 hmem
      omega
  cases hcell : s.cell? scope with
  | some c => exact ⟨c, rfl⟩
  | none =>
      rw [hcell] at hcount
      simp only [holdersIn] at hcount
      omega

/-- A scope is there exactly if the list or a slot holds it. -/
theorem Balanced.isLive_iff (h : s.Balanced outside) :
    s.isLive scope = true ↔ scope ∈ outside ∨ scope ∈ s.slotHolds := by
  unfold isLive
  rw [Option.isSome_iff_exists]
  refine ⟨fun hlive => ?_, h.cell?_of_mem⟩
  obtain ⟨c, hc⟩ := hlive
  have hcount := h.count scope
  have hpos := (h.sound hc).held
  rw [hc] at hcount
  simp only [holdersIn] at hcount
  by_cases hout : scope ∈ outside
  · exact .inl hout
  · have hzero := List.count_eq_zero.2 hout
    exact .inr (List.count_pos_iff.1 (by omega))

/-- What slots hold is in a slot of a scope that is there. -/
theorem mem_slotHolds_iff : scope ∈ s.slotHolds ↔ ∃ i c, s.cell? i = some c ∧ scope ∈ c.held := by
  unfold slotHolds
  rw [List.mem_flatMap]
  constructor
  · rintro ⟨cell, hcell, hmem⟩
    obtain ⟨i, hi⟩ := List.mem_iff_getElem?.1 hcell
    cases cell with
    | none => cases hmem
    | some c =>
        refine ⟨i, c, ?_, hmem⟩
        rw [cell?, ← Array.getElem?_toList, hi]
        rfl
  · rintro ⟨i, c, hc, hmem⟩
    rw [cell?, Option.join_eq_some_iff, ← Array.getElem?_toList] at hc
    exact ⟨some c, List.mem_of_getElem? hc, hmem⟩

/-- What a function in a slot closes over is there: the slot holds it, unless
it is the scope of the slot. -/
theorem Balanced.cell?_of_value (h : s.Balanced outside) (hc : s.cell? scope = some c)
    {entry : String × Value} (hentry : entry ∈ c.values scope) {closed : ScopeId}
    (hclosed : entry.2.scope? = some closed) : ∃ d, s.cell? closed = some d := by
  obtain ⟨⟨name, slot⟩, hslot, rfl⟩ := List.mem_map.1 hentry
  cases slot with
  | own program definition =>
      cases hclosed
      exact ⟨c, hc⟩
  | plain value =>
      refine h.cell?_of_mem (.inr (mem_slotHolds_iff.2 ⟨scope, c, hc, ?_⟩))
      exact List.mem_filterMap.2 ⟨_, hslot, hclosed⟩

-- ============================================================= letting go

/-- One step of letting go strikes a scope off the list. If it frees the
scope, what its slots held goes onto the list instead. -/
theorem Balanced.release (h : s.Balanced (scope :: outside)) :
    (s.put scope (released (s.cell? scope))).Balanced (freed (s.cell? scope) ++ outside) := by
  -- nothing on the list is gone
  obtain ⟨c, hc⟩ := h.cell?_of_mem (.inl (List.mem_cons_self ..))
  have hsound := h.sound hc
  have hpos := hsound.held
  rw [hc]
  unfold released freed
  by_cases hheld : 1 < c.holders
  · simp only [if_pos hheld, List.nil_append]
    refine h.put hc ?_ fun i => ?_
    · rintro d ⟨rfl⟩
      exact ⟨by show 0 < c.holders - 1; omega, hsound.names, hsound.apart⟩
    · simp only [heldBy, holdersIn, List.count_cons, beq_iff_eq, Cell.held]
      by_cases hi : i = scope
      · subst hi
        simp only [if_true]
        omega
      · rw [if_neg hi, if_neg hi, if_neg (Ne.symm hi)]
        omega
  · simp only [if_neg hheld]
    refine h.put hc (fun d hd => by cases hd) fun i => ?_
    simp only [heldBy, holdersIn, List.count_append, List.count_cons, List.count_nil, beq_iff_eq]
    by_cases hi : i = scope
    · subst hi
      simp only [if_true]
      omega
    · rw [if_neg hi, if_neg hi, if_neg (Ne.symm hi)]
      omega

/-- Letting go strikes what is let go of off the list. -/
theorem Balanced.dropAll {pending : List ScopeId} (h : s.Balanced (pending ++ outside)) :
    (s.dropAll pending).Balanced outside := by
  induction s, pending using dropAll_induction with
  | nil s =>
      rw [Store.dropAll]
      exact h
  | step s scope rest ih =>
      rw [dropAll_cons]
      apply ih
      rw [List.append_assoc]
      exact h.release

theorem Balanced.drop (h : s.Balanced (scope :: outside)) : (s.drop scope).Balanced outside :=
  Balanced.dropAll (show s.Balanced ([scope] ++ outside) from h)

theorem Balanced.dropValue {value : Value} (h : s.Balanced (value.scope?.toList ++ outside)) :
    (s.dropValue value).Balanced outside :=
  h.dropAll

-- ============================================================= operations

theorem Balanced.hold (h : s.Balanced outside) (hc : s.cell? scope = some c) :
    (s.hold scope).Balanced (scope :: outside) := by
  unfold Store.hold
  rw [hc]
  refine h.put hc ?_ fun i => ?_
  · rintro d ⟨rfl⟩
    have hsound := h.sound hc
    exact ⟨Nat.succ_pos _, hsound.names, hsound.apart⟩
  · simp only [heldBy, holdersIn, List.count_cons, beq_iff_eq, Cell.held]
    by_cases hi : i = scope
    · subst hi
      simp only [if_true]
      omega
    · rw [if_neg hi, if_neg hi, if_neg (Ne.symm hi)]
      omega

/-- A new scope is held once, from outside. -/
theorem Balanced.create (h : s.Balanced outside) (parent : Option ScopeId) :
    (s.create parent).2.Balanced (s.cells.size :: outside) := by
  have hslots : (s.create parent).2.slotHolds = s.slotHolds := by
    unfold slotHolds Store.create
    rw [Array.toList_push, List.flatMap_append]
    exact List.append_nil _
  refine ⟨fun i => ?_, fun {i c} hc => ?_⟩
  · have hbefore := h.count i
    rw [cell?_create, hslots, List.count_cons]
    by_cases hi : i = s.cells.size
    · -- the number was not in use, so nothing holds it yet
      have hnone : s.cell? i = none := by
        rw [hi, cell?, Array.getElem?_size]
        rfl
      rw [hnone] at hbefore
      simp only [holdersIn] at hbefore
      simp only [holdersIn, hi, beq_self_eq_true, if_true] at hbefore ⊢
      omega
    · have hbeq : (s.cells.size == i) = false := beq_eq_false_iff_ne.2 (Ne.symm hi)
      rw [if_neg hi, hbeq]
      simpa using hbefore
  · rw [cell?_create] at hc
    by_cases hi : i = s.cells.size
    · rw [if_pos hi] at hc
      cases hc
      exact ⟨Nat.one_pos, List.nodup_nil, List.not_mem_nil⟩
    · rw [if_neg hi] at hc
      exact h.sound hc

/-- A value goes into a slot, and what the slot held before onto the list.
A function over the scope of the slot is not held by it, so the hold on
the value stays on the list. -/
theorem Balanced.putSlot {value : Value} (h : s.Balanced (value.scope?.toList ++ outside))
    (put : Slot → Cell) (before : List ScopeId) (hc : s.cell? scope = some c)
    (hsound : (put (Slot.ofValue scope value)).Sound scope)
    (hholders : (put (Slot.ofValue scope value)).holders = c.holders)
    (hheld : ∀ i, (put (Slot.ofValue scope value)).held.count i + before.count i
      = c.held.count i + (Slot.ofValue scope value).held?.toList.count i) :
    (s.put scope (some (put (Slot.ofValue scope value)))).Balanced
      (spare scope value ++ before ++ outside) := by
  refine h.put hc (fun d hd => by cases hd; exact hsound) fun i => ?_
  have hi := hheld i
  have hspare := count_spare scope value i
  simp only [heldBy, holdersIn, hholders, List.count_append]
  omega

theorem Balanced.add {value : Value} (h : s.Balanced (value.scope?.toList ++ outside))
    {name : String} (hc : s.cell? scope = some c) (hhas : ¬c.has name = true) :
    (s.put scope (some (c.add name (.ofValue scope value)))).Balanced
      (spare scope value ++ outside) := by
  have hname : c.has name = false := Bool.eq_false_iff.2 hhas
  have hput := h.putSlot (c.add name) [] hc ((h.sound hc).add hname value) rfl fun i => by
    rw [Cell.held_add, List.count_append, List.count_nil]
    omega
  rwa [List.append_nil] at hput

theorem Balanced.replace {value : Value} (h : s.Balanced (value.scope?.toList ++ outside))
    {name : String} (hc : s.cell? scope = some c) (hhas : c.has name = true) :
    (s.put scope (some (c.replace name (.ofValue scope value)))).Balanced
      (spare scope value ++ ((c.get? name).bind Slot.held?).toList ++ outside) := by
  obtain ⟨old, hold⟩ := Option.isSome_iff_exists.1 hhas
  have hsound := h.sound hc
  refine h.putSlot (c.replace name) _ hc (hsound.replace name value) rfl fun i => ?_
  rw [hold, Option.bind_some]
  exact Cell.count_held_replace hsound.names hold _ i

/-- Declaring takes the value off the list, also where it fails. -/
theorem Balanced.declare {value : Value} (h : s.Balanced (value.scope?.toList ++ outside))
    (scope : ScopeId) (name : String) : (s.declare scope name value).2.Balanced outside := by
  cases hc : s.cell? scope with
  | none =>
      rw [declare_of_none hc]
      exact h.dropAll
  | some c =>
      by_cases hhas : c.has name = true
      · rw [declare_of_has hc hhas]
        exact h.dropAll
      · rw [declare_of_fresh hc hhas]
        exact (h.add hc hhas).dropAll

/-- Assigning takes the value off the list, also where it fails, and lets go
of what the slot held before. -/
theorem Balanced.assign {value : Value} (h : s.Balanced (value.scope?.toList ++ outside))
    (scope : ScopeId) (name : String) : (s.assign scope name value).2.Balanced outside := by
  cases hresolve : s.resolve name scope with
  | error fault =>
      rw [assign_of_error hresolve]
      exact h.dropAll
  | ok owner =>
      obtain ⟨c, hc, hhas⟩ := resolve_ok hresolve
      rw [assign_of_ok hresolve hc]
      exact (h.replace hc hhas).dropAll

/-- Looking a name up puts the value on the list. -/
theorem Balanced.lookup (h : s.Balanced outside) (scope : ScopeId) (name : String) :
    match (s.lookup scope name).1 with
    | .ok value => (s.lookup scope name).2.Balanced (value.scope?.toList ++ outside)
    | .error _ => (s.lookup scope name).2.Balanced outside := by
  cases hresolve : s.resolve name scope with
  | error fault =>
      rw [lookup_of_error hresolve]
      exact h
  | ok owner =>
      obtain ⟨c, hc, hhas⟩ := resolve_ok hresolve
      obtain ⟨slot, hslot⟩ := Option.isSome_iff_exists.1 hhas
      rw [lookup_of_ok hresolve hc hslot]
      dsimp only
      unfold Scopes.holdValue
      cases hclosed : (slot.toValue owner).scope? with
      | none => exact h
      | some closed =>
          obtain ⟨d, hd⟩ := h.cell?_of_value hc (Cell.mem_values_of_get? owner hslot) hclosed
          exact h.hold hd

theorem balanced_empty : Balanced {} [] := by
  refine ⟨fun scope => rfl, fun hc => ?_⟩
  cases hc

end Store

end ScopedScript
