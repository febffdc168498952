/-
What the operations never take back.

A store changes all the time: names come in, values are replaced, scopes
are made and freed. Some things only go one way. A number is given to one
scope only, a scope that is gone stays gone, and a scope that is there has
the parent it was made with and all the names it ever had. `Evolves` says
so of a store and any later one; it is the order in which stores follow
one another, and whatever is read off a scope once can be carried along
it.
-/
import ScopedScript.Proofs.StoreCells

namespace ScopedScript

-- ================================================================== names

namespace Cell

variable {c : Cell} {name : String}

/-- The names a scope has are those of its slots. -/
theorem has_eq_true_iff : c.has name = true ↔ name ∈ c.slots.map Prod.fst := by
  unfold has get?
  rw [List.lookup_isSome_iff, List.mem_map]
  refine exists_congr fun entry => and_congr_right fun _ => ?_
  rw [beq_iff_eq]
  exact eq_comm

/-- Replacing a value changes no names. -/
theorem names_replace (c : Cell) (name : String) (slot : Slot) :
    (c.replace name slot).slots.map Prod.fst = c.slots.map Prod.fst := by
  unfold replace
  rw [List.map_map]
  refine List.map_congr_left fun entry _ => ?_
  by_cases hname : entry.1 = name
  · simp [hname]
  · simp [hname]

/-- Names that are there stay when another one comes in. -/
theorem has_add (added : String) (slot : Slot) (h : c.has name = true) :
    (c.add added slot).has name = true := by
  rw [has_eq_true_iff] at h ⊢
  exact List.mem_cons_of_mem _ h

theorem has_replace (replaced : String) (slot : Slot) (h : c.has name = true) :
    (c.replace replaced slot).has name = true := by
  rw [has_eq_true_iff] at h ⊢
  rw [names_replace]
  exact h

end Cell

-- ============================================================== evolution

namespace Store

variable {s s' s'' : Store} {scope : ScopeId} {c : Cell}

/-- What holds between a store and a later one. -/
structure Evolves (s s' : Store) : Prop where
  size : s.cells.size ≤ s'.cells.size
  cell : ∀ {i : ScopeId} {c' : Cell}, s'.cell? i = some c' → i < s.cells.size →
    ∃ c, s.cell? i = some c ∧ c'.parent = c.parent
      ∧ ∀ name, c.has name = true → c'.has name = true

theorem Evolves.refl (s : Store) : Evolves s s :=
  ⟨Nat.le_refl _, fun {_ c'} hc _ => ⟨c', hc, rfl, fun _ hname => hname⟩⟩

/-- What one store has kept of another it keeps for all later ones. -/
theorem Evolves.trans (h : Evolves s s') (h' : Evolves s' s'') : Evolves s s'' := by
  refine ⟨Nat.le_trans h.size h'.size, fun {i c''} hc'' hi => ?_⟩
  obtain ⟨c', hc', hparent', hnames'⟩ := h'.cell hc'' (Nat.lt_of_lt_of_le hi h.size)
  obtain ⟨c, hc, hparent, hnames⟩ := h.cell hc' hi
  exact ⟨c, hc, hparent'.trans hparent, fun name hname => hnames' name (hnames name hname)⟩

/-- A scope that is gone stays gone. -/
theorem Evolves.isLive_eq_false (h : Evolves s s') (hi : scope < s.cells.size)
    (hgone : s.isLive scope = false) : s'.isLive scope = false := by
  unfold isLive at hgone ⊢
  cases hcell : s'.cell? scope with
  | none => rfl
  | some c' =>
      obtain ⟨c, hc, -, -⟩ := h.cell hcell hi
      rw [hc] at hgone
      cases hgone

/-- A store with scopes freed is a later one. -/
theorem LeftOf.evolves (h : LeftOf s' s) : Evolves s s' := by
  refine ⟨Nat.le_of_eq h.size.symm, fun {i c'} hc' _ => ?_⟩
  obtain ⟨c, hc, hslots, hparent⟩ := h.cell hc'
  refine ⟨c, hc, hparent, fun name hname => ?_⟩
  unfold Cell.has Cell.get? at hname ⊢
  rw [hslots]
  exact hname

/-- A cell may be changed as long as it keeps its parent and its names. -/
theorem put_evolves {d : Cell} (hc : s.cell? scope = some c) (hparent : d.parent = c.parent)
    (hnames : ∀ name, c.has name = true → d.has name = true) :
    Evolves s (s.put scope (some d)) := by
  refine ⟨Nat.le_of_eq (size_put ..).symm, fun {i c'} hc' _ => ?_⟩
  by_cases hi : scope = i
  · subst hi
    rw [cell?_put_self (lt_size_of_cell? hc), Option.some.injEq] at hc'
    subst hc'
    exact ⟨c, hc, hparent, hnames⟩
  · rw [cell?_put_ne _ hi] at hc'
    exact ⟨c', hc', rfl, fun _ hname => hname⟩

-- ============================================================== operations

/-- A scope that is made has a number of its own. -/
theorem create_evolves (s : Store) (parent : Option ScopeId) : Evolves s (s.create parent).2 := by
  refine ⟨?_, fun {i c'} hc' hi => ?_⟩
  · rw [size_create]
    exact Nat.le_succ _
  · rw [cell?_create, if_neg (Nat.ne_of_lt hi)] at hc'
    exact ⟨c', hc', rfl, fun _ hname => hname⟩

theorem hold_evolves (scope : ScopeId) (s : Store) : Evolves s (s.hold scope) :=
  (hold_leftOf scope s).evolves

theorem drop_evolves (scope : ScopeId) (s : Store) : Evolves s (s.drop scope) :=
  (drop_leftOf scope s).evolves

/-- Declaring adds one name at most, and may free scopes. -/
theorem declare_evolves (s : Store) (scope : ScopeId) (name : String) (value : Value) :
    Evolves s (s.declare scope name value).2 := by
  rcases s.declare_cases scope name value with
    ⟨-, -, hleft⟩ | ⟨c, hc, ⟨-, -, hleft⟩ | ⟨-, -, hleft⟩⟩
  · exact hleft.evolves
  · exact hleft.evolves
  · have hput := put_evolves (d := c.add name (Slot.ofValue scope value)) hc rfl
      fun _ hname => Cell.has_add _ _ hname
    exact hput.trans hleft.evolves

/-- Assigning replaces a value, and may free the scope that the old one closed
over. -/
theorem assign_evolves (s : Store) (scope : ScopeId) (name : String) (value : Value) :
    Evolves s (s.assign scope name value).2 := by
  rcases s.assign_cases scope name value with ⟨fault, -, -, hleft⟩ | ⟨owner, c, -, hc, -, hleft⟩
  · exact hleft.evolves
  · have hput := put_evolves (d := c.replace name (Slot.ofValue owner value)) hc rfl
      fun _ hname => Cell.has_replace _ _ hname
    exact hput.trans hleft.evolves

/-- A look-up does no more than hold the scope that it answers with. -/
theorem lookup_evolves (s : Store) (scope : ScopeId) (name : String) :
    Evolves s (s.lookup scope name).2 := by
  rcases s.lookup_cases scope name with ⟨fault, -, -, hleft⟩ | ⟨owner, c, slot, -, -, -, -, hleft⟩
  · exact hleft.evolves
  · exact hleft.evolves

end Store

end ScopedScript
