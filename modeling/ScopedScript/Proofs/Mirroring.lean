/-
Two stores that mirror each other.

Two evaluations of the same node work on parts of two stores that look the
same. The scopes of these parts stand for each other, and so do the scopes
that the evaluations make. This file says when scopes that stand for each
other keep the same (`Cell.Mirrors`), and takes the operations one by one:
done to both stores they answer alike and leave stores that mirror each
other.

# Names, not order

Slots are compared by name. The order in which names were declared differs
between the stores, and with it the order in which a freed scope lets go of
what its slots held. As the order makes no difference to what is left, it
is enough to bring one of the lists into the order of the other
(`exists_aligned`).

# Counts

A scope may be held more often in the one store than in the other, by
handles and slots that the evaluations do not see. These owners stay what
they are, so the counts differ by a constant (`Cell.Mirrors.holders`). A
scope without such owners is freed when its last hold is given up, in both
stores; a scope with owners is freed in neither, however many they are.
-/
import ScopedScript.Proofs.Confinement
import ScopedScript.Proofs.Tandem

namespace ScopedScript

-- =================================================================== cells

namespace Cell

variable {c : Cell}

/-- A name that is added has its slot, and all others have theirs. -/
theorem get?_add (c : Cell) (name other : String) (slot : Slot) :
    (c.add name slot).get? other = if other = name then some slot else c.get? other := by
  unfold add get?
  rw [List.lookup_cons]
  by_cases hname : other = name
  · rw [if_pos hname, beq_iff_eq.2 hname]
  · rw [if_neg hname, beq_eq_false_iff_ne.2 hname]

/-- Replacing changes the slot of a name that is there, and adds none. -/
theorem get?_replace (c : Cell) (name other : String) (slot : Slot) :
    (c.replace name slot).get? other
      = if other = name then (c.get? other).map fun _ => slot else c.get? other := by
  unfold replace get?
  induction c.slots with
  | nil => split <;> rfl
  | cons entry slots ih =>
      rw [List.map_cons, List.lookup_cons, List.lookup_cons, ih]
      by_cases hentry : entry.1 = name
      · rw [if_pos hentry, hentry]
        by_cases hother : other = name
        · rw [if_pos hother, if_pos hother, beq_iff_eq.2 hother]
          rfl
        · rw [if_neg hother, if_neg hother, beq_eq_false_iff_ne.2 hother]
      · rw [if_neg hentry]
        by_cases hother : other = name
        · have hne : other ≠ entry.1 := fun heq => hentry (heq ▸ hother)
          rw [if_pos hother, if_pos hother, beq_eq_false_iff_ne.2 hne]
        · rw [if_neg hother, if_neg hother]

end Cell

/-- A name that is on no slot is not found. -/
theorem lookup_eq_none {slots : List (String × Slot)} {name : String}
    (h : name ∉ slots.map Prod.fst) : slots.lookup name = none := by
  rw [List.lookup_eq_none_iff]
  intro entry hentry
  refine bne_iff_ne.2 fun heq => h ?_
  rw [heq]
  exact List.mem_map_of_mem hentry

/-- Lists that have the same under every name can be brought into the same
order. -/
theorem exists_aligned {R : Slot → Slot → Prop} {slots slots' : List (String × Slot)}
    (hnames : (slots.map Prod.fst).Nodup) (hnames' : (slots'.map Prod.fst).Nodup)
    (h : ∀ name, Option.Rel R (slots.lookup name) (slots'.lookup name)) :
    ∃ l, List.Forall₂ (fun entry entry' => R entry.2 entry'.2) slots l ∧ l.Perm slots' := by
  induction slots generalizing slots' with
  | nil =>
      cases slots' with
      | nil => exact ⟨[], .nil, .nil⟩
      | cons entry slots' =>
          have hfirst := h entry.1
          rw [List.lookup_cons, beq_self_eq_true] at hfirst
          cases hfirst
  | cons entry slots ih =>
      obtain ⟨name, slot⟩ := entry
      rw [List.map_cons, List.nodup_cons] at hnames
      have hfirst := h name
      rw [List.lookup_cons, beq_self_eq_true] at hfirst
      cases hfound : slots'.lookup name with
      | none =>
          rw [hfound] at hfirst
          cases hfirst
      | some slot' =>
          rw [hfound] at hfirst
          obtain ⟨before, after, rfl, -⟩ := List.lookup_eq_some_iff.1 hfound
          -- without the name on either side the rest is as before
          rw [(List.perm_middle.map Prod.fst).nodup_iff, List.map_cons, List.nodup_cons] at hnames'
          have hrest (other : String) :
              Option.Rel R (slots.lookup other) ((before ++ after).lookup other) := by
            by_cases hother : other = name
            · subst hother
              rw [lookup_eq_none hnames.1, lookup_eq_none hnames'.1]
              exact .none
            · have hrel := h other
              rw [List.lookup_append] at hrel ⊢
              rw [List.lookup_cons, List.lookup_cons, beq_eq_false_iff_ne.2 hother] at hrel
              exact hrel
          obtain ⟨l, haligned, hperm⟩ := ih hnames.2 hnames'.2 hrest
          cases hfirst with
          | some hslot =>
              exact ⟨(name, slot') :: l, .cons hslot haligned,
                (hperm.cons _).trans List.perm_middle.symm⟩

-- =================================================================== bonds

/-- What two evaluations have in common while they run: which scopes stand
for each other, how often scopes are owned by what the evaluations do not
see, and which scopes were gone to begin with. -/
structure Bond where
  Pairs : ScopeId → ScopeId → Prop
  one : ∀ {i i' j j'}, Pairs i i' → Pairs j j' → (i = j ↔ i' = j')
  owners : ScopeId → Nat
  owners' : ScopeId → Nat
  owned : ∀ {i i'}, Pairs i i' → (owners i = 0 ↔ owners' i' = 0)
  Gone : ScopeId → Prop
  Gone' : ScopeId → Prop

section Relations

variable (b : Bond)

/-- Slots of scopes that stand for each other. -/
inductive Slot.Mirrors : Slot → Slot → Prop
  | plain {value value' : Value} (hvalue : Value.Alike b.Pairs value value') :
      Slot.Mirrors (.plain value) (.plain value')
  | own {program : Nat} {definition : Node} :
      Slot.Mirrors (.own program definition) (.own program definition)

/-- Parents of scopes: they stand for each other, or both were gone to begin
with. -/
structure Bond.Linked (i i' outer outer' : ScopeId) : Prop where
  paired : b.Pairs outer outer' ∨ b.Gone outer ∧ b.Gone' outer'
  older : outer < i
  older' : outer' < i'

/-- Scopes that stand for each other and keep the same. -/
structure Cell.Mirrors (i i' : ScopeId) (c c' : Cell) : Prop where
  slot : ∀ name, Option.Rel (Slot.Mirrors b) (c.get? name) (c'.get? name)
  names : (c.slots.map Prod.fst).Nodup
  names' : (c'.slots.map Prod.fst).Nodup
  parent : Option.Rel (b.Linked i i') c.parent c'.parent
  holders : c.holders + b.owners' i' = c'.holders + b.owners i

/-- Stores in which scopes that stand for each other keep the same, and in
which the next scopes to be made stand for each other. -/
structure Store.Mirrors (s s' : Store) : Prop where
  next : ∀ k, b.Pairs (s.cells.size + k) (s'.cells.size + k)
    ∧ b.owners (s.cells.size + k) = 0 ∧ b.owners' (s'.cells.size + k) = 0
  cell : ∀ {i i'}, b.Pairs i i' → Option.Rel (Cell.Mirrors b i i') (s.cell? i) (s'.cell? i')
  gone : ∀ {i}, b.Gone i → i < s.cells.size ∧ s.cell? i = none
  gone' : ∀ {i'}, b.Gone' i' → i' < s'.cells.size ∧ s'.cell? i' = none

end Relations

variable {b : Bond} {i i' : ScopeId} {name : String} {value value' : Value}

-- =================================================================== slots

namespace Slot.Mirrors

variable {slot slot' : Slot}

/-- Slots that mirror one another are read as values that are alike. -/
theorem toValue (h : Slot.Mirrors b slot slot') (hi : b.Pairs i i') :
    Value.Alike b.Pairs (slot.toValue i) (slot'.toValue i') := by
  cases h with
  | plain hvalue => exact hvalue
  | own => exact .function hi

/-- Slots that mirror one another hold a pair of scopes, or neither holds one. -/
theorem held? (h : Slot.Mirrors b slot slot') : Option.Rel b.Pairs slot.held? slot'.held? := by
  cases h with
  | plain hvalue => exact hvalue.scope?
  | own => exact .none

/-- A function closes over the scope of its slot on both sides or on
neither. -/
theorem ofValue (hi : b.Pairs i i') (hvalue : Value.Alike b.Pairs value value') :
    Slot.Mirrors b (.ofValue i value) (.ofValue i' value') := by
  cases hvalue with
  | plain hplain =>
      cases value with
      | function closure => cases hplain
      | _ => exact .plain (.plain rfl)
  | @function program definition closed closed' hclosed =>
      have hsame := b.one hclosed hi
      unfold Slot.ofValue
      by_cases hown : closed = i
      · simp only [if_pos hown, if_pos (hsame.1 hown)]
        exact .own
      · simp only [if_neg hown, if_neg (hown ∘ hsame.2)]
        exact .plain (.function hclosed)

end Slot.Mirrors

theorem forall₂_toList {o o' : Option ScopeId} (h : Option.Rel b.Pairs o o') :
    List.Forall₂ b.Pairs o.toList o'.toList := by
  cases h with
  | none => exact .nil
  | some hpair => exact .cons hpair .nil

/-- A value that is stored in the scope it closes over does not go on holding
it, on either side. -/
theorem forall₂_spare (hi : b.Pairs i i') (hvalue : Value.Alike b.Pairs value value') :
    List.Forall₂ b.Pairs (Store.spare i value) (Store.spare i' value') := by
  unfold Store.spare
  have hscope := hvalue.scope?
  generalize value.scope? = closed, value'.scope? = closed' at hscope
  cases hscope with
  | none => exact .nil
  | @some closed closed' hclosed =>
      have hsame := b.one hclosed hi
      simp only [Option.some.injEq]
      by_cases hown : closed = i
      · rw [if_pos hown, if_pos (hsame.1 hown)]
        exact .cons hi .nil
      · rw [if_neg hown, if_neg (hown ∘ hsame.2)]
        exact .nil

-- =================================================================== cells

/-- Two scopes that mirror one another hold paired scopes, though the slots
may stand in another order. -/
theorem exists_held_aligned {c c' : Cell} (hnames : (c.slots.map Prod.fst).Nodup)
    (hnames' : (c'.slots.map Prod.fst).Nodup)
    (h : ∀ name, Option.Rel (Slot.Mirrors b) (c.get? name) (c'.get? name)) :
    ∃ l, List.Forall₂ b.Pairs c.held l ∧ l.Perm c'.held := by
  obtain ⟨l, haligned, hperm⟩ := exists_aligned hnames hnames' h
  refine ⟨l.filterMap (·.2.held?), ?_, hperm.filterMap _⟩
  unfold Cell.held
  generalize c.slots = slots at haligned
  clear hperm
  induction haligned with
  | nil => exact .nil
  | @cons entry entry' slots slots' hentry _ ih =>
      have hheld := hentry.held?
      rw [List.filterMap_cons, List.filterMap_cons]
      generalize entry.2.held? = closed, entry'.2.held? = closed' at hheld
      cases hheld with
      | none => exact ih
      | some hpair => exact .cons hpair ih

namespace Cell.Mirrors

variable {c c' : Cell}

theorem has (h : Cell.Mirrors b i i' c c') (name : String) : c'.has name = c.has name := by
  have hslot := h.slot name
  unfold Cell.has
  generalize c.get? name = slot, c'.get? name = slot' at hslot
  cases hslot <;> rfl

/-- A name has a slot on both sides or on neither. -/
theorem slot_of_some (h : Cell.Mirrors b i i' c c') {slot : Slot}
    (hslot : c.get? name = some slot) :
    ∃ slot', c'.get? name = some slot' ∧ Slot.Mirrors b slot slot' := by
  have hslots := h.slot name
  rw [hslot] at hslots
  generalize c'.get? name = found at hslots
  cases hslots with
  | some hslots => exact ⟨_, rfl, hslots⟩

theorem before (h : Cell.Mirrors b i i' c c') (name : String) :
    Option.Rel b.Pairs ((c.get? name).bind Slot.held?) ((c'.get? name).bind Slot.held?) := by
  have hslot := h.slot name
  generalize c.get? name = slot, c'.get? name = slot' at hslot
  cases hslot with
  | none => exact .none
  | some hslot => exact hslot.held?

/-- Parents stand for each other, or both were gone to begin with. -/
theorem parent_of_some (h : Cell.Mirrors b i i' c c') {outer : ScopeId}
    (hparent : c.parent = some outer) :
    ∃ outer', c'.parent = some outer' ∧ b.Linked i i' outer outer' := by
  have hlinked := h.parent
  rw [hparent] at hlinked
  generalize c'.parent = parent' at hlinked
  cases hlinked with
  | some hlinked => exact ⟨_, rfl, hlinked⟩

theorem parent_of_none (h : Cell.Mirrors b i i' c c') (hparent : c.parent = none) :
    c'.parent = none := by
  have hlinked := h.parent
  rw [hparent] at hlinked
  generalize c'.parent = parent' at hlinked
  cases hlinked
  rfl

/-- What the slots hold, in the order of the first scope. -/
theorem held (h : Cell.Mirrors b i i' c c') :
    ∃ l, List.Forall₂ b.Pairs c.held l ∧ l.Perm c'.held :=
  exists_held_aligned h.names h.names' h.slot

/-- A name that is new on one side is new on the other. -/
theorem add (h : Cell.Mirrors b i i' c c') (hhas : ¬c.has name = true) {slot slot' : Slot}
    (hslot : Slot.Mirrors b slot slot') :
    Cell.Mirrors b i i' (c.add name slot) (c'.add name slot') := by
  have hhas' : ¬c'.has name = true := by
    rw [h.has]
    exact hhas
  refine { h with slot := fun other => ?_, names := ?_, names' := ?_ }
  · rw [get?_add, get?_add]
    by_cases hother : other = name
    · rw [if_pos hother, if_pos hother]
      exact .some hslot
    · rw [if_neg hother, if_neg hother]
      exact h.slot other
  · exact List.nodup_cons.2 ⟨fun hmem => hhas (has_eq_true_iff.2 hmem), h.names⟩
  · exact List.nodup_cons.2 ⟨fun hmem => hhas' (has_eq_true_iff.2 hmem), h.names'⟩

theorem replace (h : Cell.Mirrors b i i' c c') (name : String) {slot slot' : Slot}
    (hslot : Slot.Mirrors b slot slot') :
    Cell.Mirrors b i i' (c.replace name slot) (c'.replace name slot') := by
  refine { h with slot := fun other => ?_, names := ?_, names' := ?_ }
  · rw [get?_replace, get?_replace]
    have hbefore := h.slot other
    by_cases hother : other = name
    · rw [if_pos hother, if_pos hother]
      generalize c.get? other = old, c'.get? other = old' at hbefore
      cases hbefore with
      | none => exact .none
      | some _ => exact .some hslot
    · rw [if_neg hother, if_neg hother]
      exact hbefore
  · rw [names_replace]
    exact h.names
  · rw [names_replace]
    exact h.names'

/-- One step of letting go does the same to both scopes, as long as the hold
that is given up is not one of the owners. -/
theorem release (h : Cell.Mirrors b i i' c c') (hi : b.Pairs i i')
    (howners : b.owners i < c.holders) :
    Option.Rel (Cell.Mirrors b i i') (Store.released (some c)) (Store.released (some c'))
      ∧ ∃ l, List.Forall₂ b.Pairs (Store.freed (some c)) l ∧ l.Perm (Store.freed (some c')) := by
  have hholders := h.holders
  have howned := b.owned hi
  have hsame : 1 < c'.holders ↔ 1 < c.holders := by omega
  unfold Store.released Store.freed
  by_cases hheld : 1 < c.holders
  · simp only [if_pos hheld, if_pos (hsame.2 hheld)]
    refine ⟨.some { h with holders := ?_ }, [], .nil, .nil⟩
    show c.holders - 1 + b.owners' i' = c'.holders - 1 + b.owners i
    omega
  · simp only [if_neg hheld, if_neg (hheld ∘ hsame.1)]
    exact ⟨.none, h.held⟩

end Cell.Mirrors

-- ================================================================== stores

namespace Store.Mirrors

variable {s s' : Store} {c c' : Cell}

/-- Scopes that stand for each other are there in both stores or in
neither. -/
theorem cases (h : Store.Mirrors b s s') (hi : b.Pairs i i') :
    (s.cell? i = none ∧ s'.cell? i' = none)
      ∨ ∃ c c', s.cell? i = some c ∧ s'.cell? i' = some c' ∧ Cell.Mirrors b i i' c c' := by
  have hcells := h.cell hi
  generalize s.cell? i = cell, s'.cell? i' = cell' at hcells
  cases hcells with
  | none => exact .inl ⟨rfl, rfl⟩
  | @some c c' hcells => exact .inr ⟨c, c', rfl, rfl, hcells⟩

/-- A scope is there if its partner is. -/
theorem cell?_of_some (h : Store.Mirrors b s s') (hi : b.Pairs i i') (hc : s.cell? i = some c) :
    ∃ c', s'.cell? i' = some c' ∧ Cell.Mirrors b i i' c c' := by
  rcases h.cases hi with ⟨hgone, -⟩ | ⟨d, c', hd, hc', hcells⟩
  · rw [hgone] at hc
    cases hc
  · rw [hd] at hc
    cases hc
    exact ⟨c', hc', hcells⟩

/-- Replacing a pair by scopes that mirror one another leaves all other pairs
alone, since every scope has one partner. -/
theorem put (h : Store.Mirrors b s s') (hi : b.Pairs i i') (hc : s.cell? i = some c)
    (hc' : s'.cell? i' = some c') {new new' : Option Cell}
    (hnew : Option.Rel (Cell.Mirrors b i i') new new') :
    Store.Mirrors b (s.put i new) (s'.put i' new') := by
  refine ⟨fun k => ?_, fun {j j'} hj => ?_, fun {j} hj => ?_, fun {j'} hj' => ?_⟩
  · rw [size_put, size_put]
    exact h.next k
  · have hsame := b.one hi hj
    by_cases hij : i = j
    · have hij' := hsame.1 hij
      subst hij
      subst hij'
      rw [cell?_put_self (lt_size_of_cell? hc), cell?_put_self (lt_size_of_cell? hc')]
      exact hnew
    · rw [cell?_put_ne _ hij, cell?_put_ne _ (hij ∘ hsame.2)]
      exact h.cell hj
  · obtain ⟨hlt, hgone⟩ := h.gone hj
    have hne : i ≠ j := by
      rintro rfl
      rw [hc] at hgone
      cases hgone
    rw [size_put, cell?_put_ne _ hne]
    exact ⟨hlt, hgone⟩
  · obtain ⟨hlt, hgone⟩ := h.gone' hj'
    have hne : i' ≠ j' := by
      rintro rfl
      rw [hc'] at hgone
      cases hgone
    rw [size_put, cell?_put_ne _ hne]
    exact ⟨hlt, hgone⟩

/-- Both scopes of a pair are held once more. -/
theorem hold (h : Store.Mirrors b s s') (hi : b.Pairs i i') :
    Store.Mirrors b (s.hold i) (s'.hold i') := by
  unfold Store.hold
  rcases h.cases hi with ⟨hc, hc'⟩ | ⟨c, c', hc, hc', hcells⟩
  · rw [hc, hc']
    exact h
  · rw [hc, hc']
    refine h.put hi hc hc' (.some { hcells with holders := ?_ })
    have hholders := hcells.holders
    show c.holders + 1 + b.owners' i' = c'.holders + 1 + b.owners i
    omega

/-- Scopes that are made at the same time are a pair. -/
theorem create (h : Store.Mirrors b s s') {outer outer' : ScopeId} (houter : b.Pairs outer outer')
    (hc : s.cell? outer = some c) :
    b.Pairs s.cells.size s'.cells.size
      ∧ Store.Mirrors b (s.create (some outer)).2 (s'.create (some outer')).2 := by
  have hmade : b.Pairs s.cells.size s'.cells.size := (h.next 0).1
  obtain ⟨c', hc', -⟩ := h.cell?_of_some houter hc
  refine ⟨hmade, fun k => ?_, fun {j j'} hj => ?_, fun {j} hj => ?_, fun {j'} hj' => ?_⟩
  · have hnext := h.next (k + 1)
    rw [size_create, size_create]
    rwa [← Nat.add_assoc, ← Nat.add_assoc, Nat.add_right_comm, Nat.add_right_comm _ k] at hnext
  · have hsame := b.one hj hmade
    rw [cell?_create, cell?_create]
    by_cases hnew : j = s.cells.size
    · have hnew' := hsame.1 hnew
      subst hnew
      subst hnew'
      rw [if_pos rfl, if_pos rfl]
      refine .some ⟨fun _ => .none, List.nodup_nil, List.nodup_nil, .some ?_, ?_⟩
      · exact ⟨.inl houter, lt_size_of_cell? hc, lt_size_of_cell? hc'⟩
      · have hnone := (h.next 0).2
        simp only [Nat.add_zero] at hnone
        rw [hnone.1, hnone.2]
    · rw [if_neg hnew, if_neg (hnew ∘ hsame.2)]
      exact h.cell hj
  · obtain ⟨hlt, hgone⟩ := h.gone hj
    rw [size_create, cell?_create, if_neg (Nat.ne_of_lt hlt)]
    exact ⟨Nat.lt_succ_of_lt hlt, hgone⟩
  · obtain ⟨hlt, hgone⟩ := h.gone' hj'
    rw [size_create, cell?_create, if_neg (Nat.ne_of_lt hlt)]
    exact ⟨Nat.lt_succ_of_lt hlt, hgone⟩

/-- A name resolves to scopes that stand for each other, or it fails alike:
where the one look-up meets a scope that is gone, so does the other. -/
theorem resolve (h : Store.Mirrors b s s') (name : String) (hi : b.Pairs i i') :
    AnswersAlike b.Pairs (s.resolve name i) (s'.resolve name i') := by
  fun_induction Store.resolve s name i generalizing i' with
  | case1 i hgone =>
      rcases h.cases hi with ⟨-, hgone'⟩ | ⟨c, c', hc, -, -⟩
      · rw [resolve_of_none hgone']
        exact .error
      · rw [hgone] at hc
        cases hc
  | case2 i c hc hhas =>
      obtain ⟨c', hc', hcells⟩ := h.cell?_of_some hi hc
      rw [resolve_of_has hc' (by rw [hcells.has]; exact hhas)]
      exact .ok hi
  | case3 i c hc hhas hparent =>
      obtain ⟨c', hc', hcells⟩ := h.cell?_of_some hi hc
      rw [resolve_of_parent_none hc' (by rw [hcells.has]; exact hhas)
        (hcells.parent_of_none hparent)]
      exact .error
  | case4 i c hc hhas outer hparent holder ih =>
      obtain ⟨c', hc', hcells⟩ := h.cell?_of_some hi hc
      obtain ⟨outer', hparent', hlinked⟩ := hcells.parent_of_some hparent
      rw [resolve_of_parent_some hc' (by rw [hcells.has]; exact hhas) hparent',
        if_pos hlinked.older']
      rcases hlinked.paired with houter | ⟨hgone, hgone'⟩
      · exact ih houter
      · rw [resolve_of_none (h.gone hgone).2, resolve_of_none (h.gone' hgone').2]
        exact .error
  | case5 i c hc hhas outer hparent holder =>
      obtain ⟨c', hc', hcells⟩ := h.cell?_of_some hi hc
      obtain ⟨outer', -, hlinked⟩ := hcells.parent_of_some hparent
      exact absurd hlinked.older holder

/-- Declaring a name in both scopes of a pair. -/
theorem declare (h : Store.Mirrors b s s') (name : String) (hi : b.Pairs i i') :
    AnswersAlike (fun _ _ => True) (s.declare i name .unknown).1 (s'.declare i' name .unknown).1
      ∧ Store.Mirrors b (s.declare i name .unknown).2 (s'.declare i' name .unknown).2 := by
  -- the value that is declared closes over nothing
  have hnothing {t t' : Store} (ht : Store.Mirrors b t t') :
      Store.Mirrors b (t.dropAll []) (t'.dropAll []) := by
    rw [dropAll.eq_1, dropAll.eq_1]
    exact ht
  rcases h.cases hi with ⟨hc, hc'⟩ | ⟨c, c', hc, hc', hcells⟩
  · rw [declare_of_none hc, declare_of_none hc']
    exact ⟨.error, hnothing h⟩
  · have hhas' := hcells.has name
    by_cases hhas : c.has name = true
    · rw [declare_of_has hc hhas, declare_of_has hc' (hhas'.trans hhas)]
      exact ⟨.error, hnothing h⟩
    · rw [declare_of_fresh hc hhas, declare_of_fresh hc' (by rw [hhas']; exact hhas)]
      refine ⟨.ok trivial, hnothing ?_⟩
      exact h.put hi hc hc' (.some (hcells.add hhas (.ofValue hi (.plain rfl))))

/-- Looking up a name from both scopes of a pair. -/
theorem lookup (h : Store.Mirrors b s s') (name : String) (hi : b.Pairs i i') :
    AnswersAlike (Value.Alike b.Pairs) (s.lookup i name).1 (s'.lookup i' name).1
      ∧ Store.Mirrors b (s.lookup i name).2 (s'.lookup i' name).2 := by
  rcases (h.resolve name hi).cases with
    ⟨fault, hresolve, hresolve'⟩ | ⟨owner, owner', hresolve, hresolve', howner⟩
  · rw [lookup_of_error hresolve, lookup_of_error hresolve']
    exact ⟨.error, h⟩
  · obtain ⟨c, hc, hhas⟩ := resolve_ok hresolve
    obtain ⟨c', hc', hcells⟩ := h.cell?_of_some howner hc
    obtain ⟨slot, hslot⟩ := Option.isSome_iff_exists.1 hhas
    obtain ⟨slot', hslot', hslots⟩ := hcells.slot_of_some hslot
    have hvalue := hslots.toValue howner
    rw [lookup_of_ok hresolve hc hslot, lookup_of_ok hresolve' hc' hslot']
    exact ⟨.ok hvalue, hvalue.holdValue h fun hpair => h.hold hpair⟩

end Store.Mirrors

-- ============================================================== letting go

/-- The owners of a scope are others than an evaluation that is confined: if
it holds the scope, the scope is held once more. -/
def Bond.Covers (b : Bond) (origin : Store) (held : List ScopeId) (start : ScopeId) : Prop :=
  ∀ {l s i c}, Store.Confined origin held start (i :: l) s → s.cell? i = some c →
    b.owners i < c.holders

namespace Store.Mirrors

variable {s s' : Store} {origin : Store} {held l : List ScopeId} {start : ScopeId}

theorem release (h : Store.Mirrors b s s') (hcovers : b.Covers origin held start)
    (hconfined : Confined origin held start (i :: l) s) (hi : b.Pairs i i') :
    Store.Mirrors b (s.put i (released (s.cell? i))) (s'.put i' (released (s'.cell? i')))
      ∧ ∃ l, List.Forall₂ b.Pairs (freed (s.cell? i)) l ∧ l.Perm (freed (s'.cell? i')) := by
  obtain ⟨c, hc⟩ := hconfined.cell?_of_held (List.mem_cons_self ..)
  obtain ⟨c', hc', hcells⟩ := h.cell?_of_some hi hc
  obtain ⟨hreleased, hfreed⟩ := hcells.release hi (hcovers hconfined hc)
  rw [hc, hc']
  exact ⟨h.put hi hc hc' hreleased, hfreed⟩

/-- Letting go of scopes that stand for each other, as long as the first ones
are held. -/
theorem dropAll (h : Store.Mirrors b s s') (hcovers : b.Covers origin held start)
    {pending pending' : List ScopeId} (hconfined : Confined origin held start (pending ++ l) s)
    (hpending : List.Forall₂ b.Pairs pending pending') :
    Store.Mirrors b (s.dropAll pending) (s'.dropAll pending') := by
  induction s, pending using dropAll_induction generalizing s' pending' with
  | nil s =>
      cases hpending
      rw [Store.dropAll, Store.dropAll]
      exact h
  | step s scope rest ih =>
      cases hpending with
      | @cons _ scope' _ rest' hscope hrest =>
          obtain ⟨hreleased, freed', hfreed, hperm⟩ := h.release hcovers hconfined hscope
          rw [dropAll_cons, dropAll_cons, ← dropAll_perm (hperm.append_right rest')]
          refine ih hreleased ?_ (List.rel_append hfreed hrest)
          rw [List.append_assoc]
          exact hconfined.release

/-- Assigning values that are alike from both scopes of a pair. What is let go
of on one side has its partner let go of on the other. -/
theorem assign (h : Store.Mirrors b s s') (hcovers : b.Covers origin held start) (name : String)
    (hconfined : Confined origin held start (value.scope?.toList ++ l) s)
    (hregion : Region origin start i) (hi : b.Pairs i i')
    (hvalue : Value.Alike b.Pairs value value') :
    AnswersAlike (fun _ _ => True) (s.assign i name value).1 (s'.assign i' name value').1
      ∧ Store.Mirrors b (s.assign i name value).2 (s'.assign i' name value').2 := by
  rcases (h.resolve name hi).cases with
    ⟨fault, hresolve, hresolve'⟩ | ⟨owner, owner', hresolve, hresolve', howner⟩
  · rw [assign_of_error hresolve, assign_of_error hresolve']
    exact ⟨.error, h.dropAll hcovers hconfined (forall₂_toList hvalue.scope?)⟩
  · obtain ⟨c, hc, hhas⟩ := resolve_ok hresolve
    obtain ⟨c', hc', hcells⟩ := h.cell?_of_some howner hc
    rw [assign_of_ok hresolve hc, assign_of_ok hresolve' hc']
    refine ⟨.ok trivial, ?_⟩
    have hput := h.put howner hc hc' (.some (hcells.replace name (.ofValue howner hvalue)))
    refine hput.dropAll hcovers
      (hconfined.replace (hconfined.region_of_resolve hregion hresolve) hc hhas) ?_
    exact List.rel_append (forall₂_spare howner hvalue) (forall₂_toList (hcells.before name))

end Store.Mirrors

-- ================================================================== tandem

/-- Two stores that mirror each other are in step, as long as what is done to
the first one is confined. -/
def Bond.tandem (b : Bond) (origin : Store) {held : List ScopeId} {start : ScopeId}
    (hstart : start ∈ held) (hcovers : b.Covers origin held start) : Tandem Store where
  custody := Store.confinement origin hstart
  Pairs := b.Pairs
  InStep := Store.Mirrors b
  create hheld hstanding hmem houter h := by
    have hperm := List.perm_cons_erase hstanding.1
    obtain ⟨c, hc⟩ := (hheld _ hperm).cell?_of_mem hstart hperm hmem
    exact h.create houter hc
  hold hscope h := h.hold hscope
  drop {s s' l scope dropped dropped'} hheld hstanding hdropped h :=
    h.dropAll hcovers (Store.Lent.confined (x := [dropped]) hheld
      (List.perm_cons_erase hstanding.1)) (.cons hdropped .nil)
  declare name hscope h := h.declare name hscope
  assign name hheld hstanding hscope hvalue h := by
    have hperm := List.perm_cons_erase hstanding.1
    have hconfined := Store.Lent.confined hheld hperm
    exact h.assign hcovers name hconfined (hconfined.region_of_mem hperm hstanding.2) hscope hvalue
  lookup name _ _ hscope h := h.lookup name hscope

end ScopedScript
