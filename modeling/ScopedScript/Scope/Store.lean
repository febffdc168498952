/-
The store in which a scope lives as long as something holds it.

A scope is held by running calls, by hosts, and by function values: those
at hand, and those in the slots of other scopes. A function in a slot of
the very scope it closes over holds nothing, since its closure can be
restored from the slot's place; only cycles through several scopes keep
themselves alive. A parent is not held by its children, so a look-up may
find that the scope it should go on in is gone.

Scopes are numbered in the order of their creation and a number is never
used again. Parents are older than their children, so look-ups end.
-/
import ScopedScript.Scope

namespace ScopedScript

/-- What a scope keeps under a name. -/
inductive Slot where
  | plain (value : Value)
  /-- A function that closes over the scope the slot belongs to. -/
  | own (program : Nat) (definition : Node)

namespace Slot

/-- The slot of a scope for a value. -/
def ofValue (scope : ScopeId) : Value → Slot
  | .function closure =>
      if closure.scope = scope then .own closure.program closure.definition
      else .plain (.function closure)
  | value => .plain value

/-- The value that a slot of a scope stands for. -/
def toValue (scope : ScopeId) : Slot → Value
  | .plain value => value
  | .own program definition => .function ⟨program, definition, scope⟩

/-- The scope that a slot holds. -/
def held? : Slot → Option ScopeId
  | .plain value => value.scope?
  | .own .. => none

@[simp] theorem toValue_ofValue (scope : ScopeId) (value : Value) :
    (ofValue scope value).toValue scope = value := by
  cases value with
  | function closure =>
    simp only [ofValue]
    split
    · next h => subst h; rfl
    · rfl
  | _ => rfl

/-- No slot of a scope holds that scope. -/
theorem held?_ofValue_ne (scope : ScopeId) (value : Value) :
    (ofValue scope value).held? ≠ some scope := by
  cases value with
  | function closure =>
    simp only [ofValue]
    split
    · simp [held?]
    · next h => simpa [held?, Value.scope?] using h
  | _ => simp [ofValue, held?, Value.scope?]

end Slot

/-- A scope: its names, its parent and how often it is held. -/
structure Cell where
  slots : List (String × Slot) := []
  parent : Option ScopeId
  holders : Nat := 1

namespace Cell

/-- What the scope keeps under a name. -/
def get? (c : Cell) (name : String) : Option Slot := c.slots.lookup name

/-- Whether the scope has a name. -/
def has (c : Cell) (name : String) : Bool := (c.get? name).isSome

/-- The scope with a name more. -/
def add (c : Cell) (name : String) (slot : Slot) : Cell :=
  { c with slots := (name, slot) :: c.slots }

/-- The scope with another slot under a name it has. -/
def replace (c : Cell) (name : String) (slot : Slot) : Cell :=
  { c with slots := c.slots.map fun entry => if entry.1 = name then (name, slot) else entry }

/-- The scopes held by the slots. -/
def held (c : Cell) : List ScopeId := c.slots.filterMap (·.2.held?)

/-- One for the scope and one for each of its slots. -/
def weight (c : Cell) : Nat := c.slots.length + 1

theorem length_held_lt_weight (c : Cell) : c.held.length < c.weight :=
  Nat.lt_succ_of_le (List.length_filterMap_le _ _)

end Cell

/-- The scopes that were ever made, by number; those that are gone are
`none`. -/
structure Store where
  cells : Array (Option Cell) := #[]

namespace Store

/-- The scope with a number, unless it is gone. -/
def cell? (s : Store) (scope : ScopeId) : Option Cell := s.cells[scope]?.join

/-- Whether a scope still exists. -/
def isLive (s : Store) (scope : ScopeId) : Bool := (s.cell? scope).isSome

/-- The store with a scope replaced or taken out. -/
def put (s : Store) (scope : ScopeId) (cell : Option Cell) : Store :=
  ⟨s.cells.setIfInBounds scope cell⟩

-- ============================================================ letting go

/-- The weight of a scope that may be gone. -/
def cellWeight : Option Cell → Nat
  | some c => c.weight
  | none => 0

/-- The weight of several scopes. -/
def totalWeight : List (Option Cell) → Nat
  | [] => 0
  | cell :: cells => cellWeight cell + totalWeight cells

/-- The weight of all scopes; it bounds what letting go can set off. -/
def weight (s : Store) : Nat := totalWeight s.cells.toList

/-- Replacing a scope changes the weight by the difference of the two. -/
theorem totalWeight_set (cells : List (Option Cell)) (i : Nat) (old new : Option Cell)
    (h : cells[i]? = some old) :
    totalWeight (cells.set i new) + cellWeight old = totalWeight cells + cellWeight new := by
  induction cells generalizing i with
  | nil => simp at h
  | cons cell cells ih =>
    cases i with
    | zero =>
      simp only [List.getElem?_cons_zero, Option.some.injEq] at h
      subst h
      simp only [List.set_cons_zero, totalWeight]
      omega
    | succ i =>
      simp only [List.getElem?_cons_succ] at h
      simp only [List.set_cons_succ, totalWeight]
      have := ih i h
      omega

theorem weight_put (s : Store) (scope : ScopeId) (c : Cell) (new : Option Cell)
    (h : s.cell? scope = some c) :
    (s.put scope new).weight + c.weight = s.weight + cellWeight new := by
  have hcell : s.cells.toList[scope]? = some (some c) := by
    simp only [cell?, Option.join_eq_some_iff] at h
    simpa using h
  have hset := totalWeight_set s.cells.toList scope (some c) new hcell
  rw [weight, put, Array.toList_setIfInBounds]
  exact hset

/-- Holds each of the scopes once less. A scope that nothing holds any more
is taken out, and with it the holds of its slots. -/
def dropAll (s : Store) : List ScopeId → Store
  | [] => s
  | scope :: rest =>
      match _h : s.cell? scope with
      | none => s.dropAll rest
      | some c =>
          if 1 < c.holders then
            (s.put scope (some { c with holders := c.holders - 1 })).dropAll rest
          else (s.put scope none).dropAll (c.held ++ rest)
termination_by pending => s.weight + pending.length
decreasing_by
  · simp
  · have := weight_put s scope c (some { c with holders := c.holders - 1 }) _h
    simp only [cellWeight, Cell.weight, List.length_cons] at *
    omega
  · have := weight_put s scope c none _h
    have := c.length_held_lt_weight
    simp only [cellWeight, List.length_append, List.length_cons] at *
    omega

/-- Holds a scope once less. -/
def drop (scope : ScopeId) (s : Store) : Store := s.dropAll [scope]

/-- Holds a scope once more. -/
def hold (scope : ScopeId) (s : Store) : Store :=
  match s.cell? scope with
  | some c => s.put scope (some { c with holders := c.holders + 1 })
  | none => s

-- ============================================================== scopes

/-- Makes a scope that is held once. -/
def create (parent : Option ScopeId) (s : Store) : ScopeId × Store :=
  (s.cells.size, ⟨s.cells.push (some { parent })⟩)

/-- The nearest scope that has a name, starting from a scope and going on in
its parents. -/
def resolve (s : Store) (name : String) (scope : ScopeId) : Except ScopeFault ScopeId :=
  match s.cell? scope with
  | none => .error (.missingClosure name)
  | some c =>
      if c.has name then .ok scope
      else match c.parent with
        | none => .error (.notDeclared name)
        | some parent =>
            if parent < scope then s.resolve name parent else .error (.missingClosure name)
termination_by scope

/-- Lets go of a value. -/
def dropValue (value : Value) (s : Store) : Store := s.dropAll value.scope?.toList

/-- Puts a value into a scope under a name; `put` says how. The hold on the
value goes with the slot, or is let go if the slot does not need it. -/
def store (s : Store) (scope : ScopeId) (value : Value) (put : Slot → Cell) : Store :=
  let slot := Slot.ofValue scope value
  let s := s.put scope (some (put slot))
  match slot with
  | .plain _ => s
  | .own .. => s.dropValue value

/-- Adds a name to a scope that does not have it. -/
def declare (scope : ScopeId) (name : String) (value : Value) (s : Store) :
    Except ScopeFault Unit × Store :=
  match s.cell? scope with
  | none => (.error (.missingClosure name), s.dropValue value)
  | some c =>
      if c.has name then (.error (.alreadyDeclared name), s.dropValue value)
      else (.ok (), s.store scope value (c.add name))

/-- Replaces the value of a name in the nearest scope that has it. What the
slot held before is let go. -/
def assign (scope : ScopeId) (name : String) (value : Value) (s : Store) :
    Except ScopeFault Unit × Store :=
  match s.resolve name scope with
  | .error fault => (.error fault, s.dropValue value)
  | .ok owner =>
      match s.cell? owner with
      | none => (.error (.missingClosure name), s.dropValue value)
      | some c =>
          let before := (c.get? name).bind Slot.held?
          (.ok (), (s.store owner value (c.replace name)).dropAll before.toList)

/-- The value of a name in the nearest scope that has it, held once more. -/
def lookup (scope : ScopeId) (name : String) (s : Store) : Except ScopeFault Value × Store :=
  match s.resolve name scope with
  | .error fault => (.error fault, s)
  | .ok owner =>
      match (s.cell? owner).bind (·.get? name) with
      | none => (.error (.notDeclared name), s)
      | some slot =>
          let value := slot.toValue owner
          match value.scope? with
          | some closed => (.ok value, s.hold closed)
          | none => (.ok value, s)

instance : Scopes Store where
  create := create
  hold := hold
  drop := drop
  declare := declare
  assign := assign
  lookup := lookup

end Store

end ScopedScript
