/-
What the operations of the store do to its cells.

Letting go of a scope can set off a cascade, and most operations let go of
something. None of this touches what a scope that is still there keeps: its
names, its values and its parent stay as they were. `LeftOf` says so once
for all cascades, and the case lemmas below give every operation as one
change to one cell, followed by letting go. Whoever reasons about the
contents of scopes reads the case lemmas and never the cascade.
-/
import ScopedScript.Scope.Store

namespace ScopedScript

-- ========================================================== values of slots

namespace Cell

/-- The names of a scope with the values its slots stand for. -/
def values (c : Cell) (scope : ScopeId) : List (String × Value) :=
  c.slots.map fun entry => (entry.1, entry.2.toValue scope)

/-- The values of a scope are what its slots are read as. -/
theorem lookup_values (c : Cell) (scope : ScopeId) (name : String) :
    (c.values scope).lookup name = (c.get? name).map (·.toValue scope) := by
  unfold values get?
  induction c.slots with
  | nil => rfl
  | cons entry slots ih =>
      rw [List.map_cons, List.lookup_cons, List.lookup_cons, ih]
      cases name == entry.1 <;> rfl

theorem mem_values_of_get? {c : Cell} {name : String} {slot : Slot} (scope : ScopeId)
    (h : c.get? name = some slot) : (name, slot.toValue scope) ∈ c.values scope := by
  have hvalue : (c.values scope).lookup name = some (slot.toValue scope) := by
    rw [lookup_values, h]
    rfl
  obtain ⟨before, after, hvalues, -⟩ := List.lookup_eq_some_iff.1 hvalue
  rw [hvalues]
  exact List.mem_append_right _ (List.mem_cons_self ..)

/-- A slot that is added is read as the value that was stored. -/
theorem values_add (c : Cell) (scope : ScopeId) (name : String) (value : Value) :
    (c.add name (Slot.ofValue scope value)).values scope = (name, value) :: c.values scope := by
  unfold values add
  rw [List.map_cons, Slot.toValue_ofValue]

/-- So is a slot that is replaced; the others are read as before. -/
theorem values_replace (c : Cell) (scope : ScopeId) (name : String) (value : Value) :
    (c.replace name (Slot.ofValue scope value)).values scope
      = (c.values scope).map fun entry => if entry.1 = name then (name, value) else entry := by
  unfold values replace
  rw [List.map_map, List.map_map]
  refine List.map_congr_left fun entry _ => ?_
  by_cases hname : entry.1 = name
  · simp only [Function.comp_apply, if_pos hname, Slot.toValue_ofValue]
  · simp only [Function.comp_apply, if_neg hname]

end Cell

namespace Store

variable {s s' s'' : Store} {scope : ScopeId} {name : String} {value : Value}

-- ================================================================= cells

theorem size_put (s : Store) (scope : ScopeId) (cell : Option Cell) :
    (s.put scope cell).cells.size = s.cells.size :=
  Array.size_setIfInBounds

/-- Scopes that are there have been made. -/
theorem lt_size_of_cell? {c : Cell} (h : s.cell? scope = some c) :
    scope < s.cells.size := by
  rw [cell?, Option.join_eq_some_iff] at h
  obtain ⟨hlt, -⟩ := Array.getElem?_eq_some_iff.1 h
  exact hlt

/-- A scope is what was put in its place. -/
theorem cell?_put_self {cell : Option Cell} (h : scope < s.cells.size) :
    (s.put scope cell).cell? scope = cell := by
  rw [cell?, put, Array.getElem?_setIfInBounds_self_of_lt h]
  rfl

/-- Other scopes are what they were. -/
theorem cell?_put_ne {i : ScopeId} (cell : Option Cell) (h : scope ≠ i) :
    (s.put scope cell).cell? i = s.cell? i := by
  rw [cell?, put, Array.getElem?_setIfInBounds_ne h]
  rfl

theorem size_create (s : Store) (parent : Option ScopeId) :
    (s.create parent).2.cells.size = s.cells.size + 1 :=
  Array.size_push _

/-- After a scope has been made the store has the cells it had, and the new
one. -/
theorem cell?_create (s : Store) (parent : Option ScopeId) (i : ScopeId) :
    (s.create parent).2.cell? i
      = if i = s.cells.size then some { parent } else s.cell? i := by
  rw [cell?, create, Array.getElem?_push]
  split
  · rfl
  · rfl

-- ============================================================ what is left

/-- What is left of a store: scopes may be gone, and may be held more or
less often, but those that are there keep what they kept. -/
structure LeftOf (s' s : Store) : Prop where
  size : s'.cells.size = s.cells.size
  cell : ∀ {i : ScopeId} {c' : Cell}, s'.cell? i = some c' →
    ∃ c, s.cell? i = some c ∧ c'.slots = c.slots ∧ c'.parent = c.parent

theorem LeftOf.refl (s : Store) : LeftOf s s :=
  ⟨rfl, fun h => ⟨_, h, rfl, rfl⟩⟩

/-- What is left of what is left. -/
theorem LeftOf.trans (h : LeftOf s'' s') (h' : LeftOf s' s) : LeftOf s'' s := by
  refine ⟨h.size.trans h'.size, fun hcell => ?_⟩
  obtain ⟨c', hc', hslots', hparent'⟩ := h.cell hcell
  obtain ⟨c, hc, hslots, hparent⟩ := h'.cell hc'
  exact ⟨c, hc, hslots'.trans hslots, hparent'.trans hparent⟩

/-- A store without one of its scopes. -/
theorem put_none_leftOf (s : Store) (scope : ScopeId) : LeftOf (s.put scope none) s := by
  refine ⟨size_put .., fun {i c'} hcell => ?_⟩
  by_cases hi : scope = i
  · subst hi
    by_cases hlt : scope < s.cells.size
    · rw [cell?_put_self hlt] at hcell
      cases hcell
    · have := lt_size_of_cell? hcell
      rw [size_put] at this
      exact absurd this hlt
  · rw [cell?_put_ne _ hi] at hcell
    exact ⟨c', hcell, rfl, rfl⟩

/-- A store with a scope held more or less often. -/
theorem put_holders_leftOf {c : Cell} (h : s.cell? scope = some c) (holders : Nat) :
    LeftOf (s.put scope (some { c with holders })) s := by
  refine ⟨size_put .., fun {i c'} hcell => ?_⟩
  by_cases hi : scope = i
  · subst hi
    rw [cell?_put_self (lt_size_of_cell? h), Option.some.injEq] at hcell
    subst hcell
    exact ⟨c, h, rfl, rfl⟩
  · rw [cell?_put_ne _ hi] at hcell
    exact ⟨c', hcell, rfl, rfl⟩

/-- Letting go frees scopes and does nothing else. -/
theorem dropAll_leftOf (s : Store) (pending : List ScopeId) :
    LeftOf (s.dropAll pending) s := by
  fun_induction dropAll s pending with
  | case1 s => exact LeftOf.refl s
  | case2 s scope rest hgone ih => exact ih
  | case3 s scope rest c hc hheld ih => exact ih.trans (put_holders_leftOf hc _)
  | case4 s scope rest c hc hheld ih => exact ih.trans (put_none_leftOf s scope)

theorem drop_leftOf (scope : ScopeId) (s : Store) : LeftOf (s.drop scope) s :=
  dropAll_leftOf s [scope]

theorem dropValue_leftOf (value : Value) (s : Store) : LeftOf (s.dropValue value) s :=
  dropAll_leftOf s _

theorem hold_leftOf (scope : ScopeId) (s : Store) : LeftOf (s.hold scope) s := by
  unfold hold
  split
  · next c hc => exact put_holders_leftOf hc _
  · exact LeftOf.refl s

/-- Storing a value puts one cell and lets go of what the slot does not
need. -/
theorem store_leftOf (s : Store) (scope : ScopeId) (value : Value) (put : Slot → Cell) :
    LeftOf (s.store scope value put)
      (s.put scope (some (put (Slot.ofValue scope value)))) := by
  unfold store
  dsimp only
  split
  · exact LeftOf.refl _
  · exact dropValue_leftOf ..

-- ============================================================== operations

/-- What declaring a name comes to. -/
theorem declare_cases (s : Store) (scope : ScopeId) (name : String) (value : Value) :
    (s.cell? scope = none ∧ (s.declare scope name value).1 = .error (.missingClosure name)
      ∧ LeftOf (s.declare scope name value).2 s)
    ∨ ∃ c, s.cell? scope = some c ∧
      ((c.has name = true ∧ (s.declare scope name value).1 = .error (.alreadyDeclared name)
          ∧ LeftOf (s.declare scope name value).2 s)
        ∨ (c.has name = false ∧ (s.declare scope name value).1 = .ok ()
          ∧ LeftOf (s.declare scope name value).2
              (s.put scope (some (c.add name (Slot.ofValue scope value)))))) := by
  unfold declare
  cases hcell : s.cell? scope with
  | none => exact .inl ⟨rfl, rfl, dropValue_leftOf ..⟩
  | some c =>
      refine .inr ⟨c, rfl, ?_⟩
      dsimp only
      cases hhas : c.has name with
      | true => exact .inl ⟨rfl, rfl, dropValue_leftOf ..⟩
      | false => exact .inr ⟨rfl, rfl, store_leftOf ..⟩

/-- A name resolves to a scope that is there and has it. -/
theorem resolve_ok {owner : ScopeId} (h : s.resolve name scope = .ok owner) :
    ∃ c, s.cell? owner = some c ∧ c.has name = true := by
  fun_induction resolve s name scope with
  | case1 scope hgone => cases h
  | case2 scope c hc hhas =>
      cases h
      exact ⟨c, hc, hhas⟩
  | case3 scope c hc hhas hparent => cases h
  | case4 scope c hc hhas parent hparent holder ih => exact ih h
  | case5 scope c hc hhas parent hparent holder => cases h

/-- What assigning to a name comes to. -/
theorem assign_cases (s : Store) (scope : ScopeId) (name : String) (value : Value) :
    (∃ fault, s.resolve name scope = .error fault
      ∧ (s.assign scope name value).1 = .error fault
      ∧ LeftOf (s.assign scope name value).2 s)
    ∨ ∃ owner c, s.resolve name scope = .ok owner ∧ s.cell? owner = some c
      ∧ (s.assign scope name value).1 = .ok ()
      ∧ LeftOf (s.assign scope name value).2
          (s.put owner (some (c.replace name (Slot.ofValue owner value)))) := by
  unfold assign
  cases hresolve : s.resolve name scope with
  | error fault => exact .inl ⟨fault, rfl, rfl, dropValue_leftOf ..⟩
  | ok owner =>
      obtain ⟨c, hc, -⟩ := resolve_ok hresolve
      refine .inr ⟨owner, c, rfl, hc, ?_⟩
      dsimp only
      rw [hc]
      exact ⟨rfl, (dropAll_leftOf ..).trans (store_leftOf ..)⟩

/-- What looking a name up comes to. -/
theorem lookup_cases (s : Store) (scope : ScopeId) (name : String) :
    (∃ fault, s.resolve name scope = .error fault
      ∧ (s.lookup scope name).1 = .error fault ∧ LeftOf (s.lookup scope name).2 s)
    ∨ ∃ owner c slot, s.resolve name scope = .ok owner ∧ s.cell? owner = some c
      ∧ c.get? name = some slot
      ∧ (s.lookup scope name).1 = .ok (slot.toValue owner)
      ∧ LeftOf (s.lookup scope name).2 s := by
  unfold lookup
  cases hresolve : s.resolve name scope with
  | error fault => exact .inl ⟨fault, rfl, rfl, LeftOf.refl s⟩
  | ok owner =>
      obtain ⟨c, hc, hhas⟩ := resolve_ok hresolve
      obtain ⟨slot, hslot⟩ := Option.isSome_iff_exists.1 hhas
      refine .inr ⟨owner, c, slot, rfl, hc, hslot, ?_⟩
      dsimp only
      rw [hc, Option.bind_some, hslot]
      dsimp only
      split
      · exact ⟨rfl, hold_leftOf ..⟩
      · exact ⟨rfl, LeftOf.refl s⟩

-- =================================================================== sizes

theorem size_hold (scope : ScopeId) (s : Store) :
    (s.hold scope).cells.size = s.cells.size :=
  (hold_leftOf scope s).size

theorem size_drop (scope : ScopeId) (s : Store) :
    (s.drop scope).cells.size = s.cells.size :=
  (drop_leftOf scope s).size

/-- Declaring makes no scope, and leaves the places of those that it frees. -/
theorem size_declare (scope : ScopeId) (name : String) (value : Value) (s : Store) :
    (s.declare scope name value).2.cells.size = s.cells.size := by
  rcases s.declare_cases scope name value with ⟨-, -, hleft⟩ | ⟨c, -, ⟨-, -, hleft⟩ | ⟨-, -, hleft⟩⟩
  · exact hleft.size
  · exact hleft.size
  · exact hleft.size.trans (size_put ..)

theorem size_assign (scope : ScopeId) (name : String) (value : Value) (s : Store) :
    (s.assign scope name value).2.cells.size = s.cells.size := by
  rcases s.assign_cases scope name value with ⟨fault, -, -, hleft⟩ | ⟨owner, c, -, -, -, hleft⟩
  · exact hleft.size
  · exact hleft.size.trans (size_put ..)

theorem size_lookup (scope : ScopeId) (name : String) (s : Store) :
    (s.lookup scope name).2.cells.size = s.cells.size := by
  rcases s.lookup_cases scope name with ⟨fault, -, -, hleft⟩ | ⟨owner, c, slot, -, -, -, -, hleft⟩
  · exact hleft.size
  · exact hleft.size

-- ================================================================ contents

/-- What the scopes that are there contain: their parents are as `Link`
says, their names as `Allows` and the values of their slots as `Fits`. -/
structure Contains (Link : ScopeId → Option ScopeId → Prop)
    (Allows : ScopeId → String → Prop) (Fits : Value → Prop) (s : Store) : Prop where
  parent : ∀ {i : ScopeId} {c : Cell}, s.cell? i = some c → Link i c.parent
  slot : ∀ {i : ScopeId} {c : Cell}, s.cell? i = some c →
    ∀ entry ∈ c.values i, Allows i entry.1 ∧ Fits entry.2

namespace Contains

variable {Link Link' : ScopeId → Option ScopeId → Prop}
  {Allows Allows' : ScopeId → String → Prop} {Fits Fits' : Value → Prop}

/-- What is asked of the contents may be less. -/
theorem weaken (h : Contains Link Allows Fits s)
    (hlink : ∀ {i parent}, Link i parent → Link' i parent)
    (hallows : ∀ {i name}, Allows i name → Allows' i name)
    (hfits : ∀ {value}, Fits value → Fits' value) : Contains Link' Allows' Fits' s := by
  refine ⟨fun hc => hlink (h.parent hc), fun hc entry hentry => ?_⟩
  obtain ⟨hname, hvalue⟩ := h.slot hc entry hentry
  exact ⟨hallows hname, hfits hvalue⟩

/-- Freeing scopes puts nothing into those that are left. -/
theorem leftOf (h : Contains Link Allows Fits s) (hleft : s'.LeftOf s) :
    Contains Link Allows Fits s' := by
  refine ⟨fun hc => ?_, fun hc entry hentry => ?_⟩
  · obtain ⟨c, hc, -, hparent⟩ := hleft.cell hc
    rw [hparent]
    exact h.parent hc
  · obtain ⟨c, hc, hslots, -⟩ := hleft.cell hc
    rw [Cell.values, hslots] at hentry
    exact h.slot hc entry hentry

/-- Contents that are put into a scope have to be looked at, all others are
known. -/
theorem put (h : Contains Link Allows Fits s) {c : Cell} (hparent : Link scope c.parent)
    (hslot : ∀ entry ∈ c.values scope, Allows scope entry.1 ∧ Fits entry.2) :
    Contains Link Allows Fits (s.put scope (some c)) := by
  have hcell {i : ScopeId} {c' : Cell} (hc : (s.put scope (some c)).cell? i = some c') :
      (i = scope ∧ c' = c) ∨ s.cell? i = some c' := by
    by_cases hi : scope = i
    · subst hi
      have hlt := lt_size_of_cell? hc
      rw [size_put] at hlt
      rw [cell?_put_self hlt] at hc
      cases hc
      exact .inl ⟨rfl, rfl⟩
    · rw [cell?_put_ne _ hi] at hc
      exact .inr hc
  refine ⟨fun hc => ?_, fun hc entry hentry => ?_⟩
  · rcases hcell hc with ⟨rfl, rfl⟩ | hc
    · exact hparent
    · exact h.parent hc
  · rcases hcell hc with ⟨rfl, rfl⟩ | hc
    · exact hslot entry hentry
    · exact h.slot hc entry hentry

/-- A new scope is empty, so only its parent has to be looked at. -/
theorem create (h : Contains Link Allows Fits s) {parent : Option ScopeId}
    (hparent : Link s.cells.size parent) : Contains Link Allows Fits (s.create parent).2 := by
  refine ⟨fun {i c} hc => ?_, fun {i c} hc entry hentry => ?_⟩
  · rw [cell?_create] at hc
    by_cases hi : i = s.cells.size
    · rw [if_pos hi] at hc
      cases hc
      rw [hi]
      exact hparent
    · rw [if_neg hi] at hc
      exact h.parent hc
  · rw [cell?_create] at hc
    by_cases hi : i = s.cells.size
    · rw [if_pos hi] at hc
      cases hc
      cases hentry
    · rw [if_neg hi] at hc
      exact h.slot hc entry hentry

/-- A declaration puts one name and one value into a scope. -/
theorem declare (h : Contains Link Allows Fits s) (hname : Allows scope name)
    (hvalue : Fits value) : Contains Link Allows Fits (s.declare scope name value).2 := by
  rcases s.declare_cases scope name value with
    ⟨-, -, hleft⟩ | ⟨c, hc, ⟨-, -, hleft⟩ | ⟨-, -, hleft⟩⟩
  · exact h.leftOf hleft
  · exact h.leftOf hleft
  · have hparent := h.parent hc
    refine leftOf ?_ hleft
    refine h.put hparent fun entry hentry => ?_
    rw [Cell.values_add] at hentry
    rcases List.mem_cons.1 hentry with rfl | hentry
    · exact ⟨hname, hvalue⟩
    · exact h.slot hc entry hentry

/-- An assignment puts one value into a scope, under a name that is there. -/
theorem assign (h : Contains Link Allows Fits s) (scope : ScopeId) (name : String)
    (hvalue : Fits value) : Contains Link Allows Fits (s.assign scope name value).2 := by
  rcases s.assign_cases scope name value with ⟨fault, -, -, hleft⟩ | ⟨owner, c, -, hc, -, hleft⟩
  · exact h.leftOf hleft
  · have hparent := h.parent hc
    refine leftOf ?_ hleft
    refine h.put hparent fun entry hentry => ?_
    rw [Cell.values_replace] at hentry
    obtain ⟨old, hold, hentry⟩ := List.mem_map.1 hentry
    have hslot := h.slot hc old hold
    by_cases hname : old.1 = name
    · rw [if_pos hname] at hentry
      rw [hname] at hslot
      rw [← hentry]
      exact ⟨hslot.1, hvalue⟩
    · rw [if_neg hname] at hentry
      rw [← hentry]
      exact hslot

/-- A look-up answers with a value that was in a scope. -/
theorem lookup (h : Contains Link Allows Fits s) (scope : ScopeId) (name : String) :
    Contains Link Allows Fits (s.lookup scope name).2
      ∧ ∀ {value}, (s.lookup scope name).1 = .ok value → Fits value := by
  rcases s.lookup_cases scope name with
    ⟨fault, -, hanswer, hleft⟩ | ⟨owner, c, slot, -, hc, hslot, hanswer, hleft⟩
  · refine ⟨h.leftOf hleft, fun hok => ?_⟩
    rw [hanswer] at hok
    cases hok
  · refine ⟨h.leftOf hleft, fun hok => ?_⟩
    rw [hanswer] at hok
    cases hok
    exact (h.slot hc _ (Cell.mem_values_of_get? owner hslot)).2

end Contains

end Store

end ScopedScript
