/-
The ideal store: scopes that live forever.

Nothing is counted and nothing is freed. Every scope that was ever made
keeps its names, every name keeps its whole value, functions over the
scope itself included, and a scope's parent is there whenever it is looked
for. This is the store a reader of programs has in mind; the store that
programs run on is held against it elsewhere.

A parent is older than its child by construction, so the type carries what
makes look-ups end. A number that stands for no scope yet is no parent.
-/
import ScopedScript.Eval

namespace ScopedScript

/-- A scope of the ideal store. -/
structure Ideal.Cell where
  slots : List (String × Value) := []
  parent : Option ScopeId

namespace Ideal.Cell

/-- Whether the scope has a name. -/
def has (c : Cell) (name : String) : Bool := (c.slots.lookup name).isSome

/-- The scope with a name more. -/
def add (c : Cell) (name : String) (value : Value) : Cell :=
  { c with slots := (name, value) :: c.slots }

/-- The scope with another value under a name it has. -/
def replace (c : Cell) (name : String) (value : Value) : Cell :=
  { c with slots := c.slots.map fun entry => if entry.1 = name then (name, value) else entry }

end Ideal.Cell

/-- All scopes that were ever made, by number. -/
structure Ideal where
  cells : Array Ideal.Cell
  older : ∀ {i : ScopeId} {c : Ideal.Cell} {parent : ScopeId},
    cells[i]? = some c → c.parent = some parent → parent < i

namespace Ideal

/-- The store without scopes. -/
def empty : Ideal where
  cells := #[]
  older h := by cases h

/-- The store with a scope replaced by one with the same parent. -/
def put (s : Ideal) (scope : ScopeId) (c : Cell)
    (h : ∀ old, s.cells[scope]? = some old → c.parent = old.parent) : Ideal where
  cells := s.cells.setIfInBounds scope c
  older {i d parent} hcell hparent := by
    rw [Array.getElem?_setIfInBounds] at hcell
    split at hcell
    · next hi =>
      subst hi
      split at hcell
      · next hlt =>
        obtain ⟨old, hold⟩ : ∃ old, s.cells[scope]? = some old :=
          ⟨_, Array.getElem?_eq_getElem hlt⟩
        cases hcell
        rw [h old hold] at hparent
        exact s.older hold hparent
      · cases hcell
    · exact s.older hcell hparent

/-- Makes a scope. -/
def create (parent : Option ScopeId) (s : Ideal) : ScopeId × Ideal :=
  (s.cells.size,
    { cells := s.cells.push { parent := parent.filter (· < s.cells.size) }
      older := fun {i c p} hcell hparent => by
        rw [Array.getElem?_push] at hcell
        split at hcell
        · next hi =>
          cases hcell
          obtain ⟨-, hlt⟩ := Option.filter_eq_some_iff.1 hparent
          rw [hi]
          simpa using hlt
        · exact s.older hcell hparent })

/-- The nearest scope that has a name, starting from a scope and going on in
its parents. -/
def resolve (s : Ideal) (name : String) (scope : ScopeId) : Except ScopeFault ScopeId :=
  match _hcell : s.cells[scope]? with
  | none => .error (.notDeclared name)
  | some c =>
      if c.has name then .ok scope
      else match _hparent : c.parent with
        | none => .error (.notDeclared name)
        | some parent => s.resolve name parent
termination_by scope
decreasing_by exact s.older _hcell _hparent

/-- Where a name resolves to from a scope that was made. -/
theorem resolve_eq {s : Ideal} {name : String} {scope : ScopeId} {c : Cell}
    (hcell : s.cells[scope]? = some c) :
    s.resolve name scope =
      if c.has name then .ok scope
      else match c.parent with
        | none => .error (.notDeclared name)
        | some parent => s.resolve name parent := by
  rw [resolve]
  split
  · next hnone => rw [hcell] at hnone; cases hnone
  · next c' hcell' =>
    rw [hcell] at hcell'
    cases hcell'
    split
    · rfl
    · split
      · next hparent => rw [hparent]
      · next parent hparent => rw [hparent]

/-- Adds a name to a scope that does not have it. -/
def declare (scope : ScopeId) (name : String) (value : Value) (s : Ideal) :
    Except ScopeFault Unit × Ideal :=
  match hcell : s.cells[scope]? with
  | none => (.error (.notDeclared name), s)
  | some c =>
      if c.has name then (.error (.alreadyDeclared name), s)
      else (.ok (), s.put scope (c.add name value) fun old hold => by
        rw [hcell] at hold
        cases hold
        rfl)

/-- Replaces the value of a name in the nearest scope that has it. -/
def assign (scope : ScopeId) (name : String) (value : Value) (s : Ideal) :
    Except ScopeFault Unit × Ideal :=
  match s.resolve name scope with
  | .error fault => (.error fault, s)
  | .ok owner =>
      match hcell : s.cells[owner]? with
      | none => (.error (.notDeclared name), s)
      | some c => (.ok (), s.put owner (c.replace name value) fun old hold => by
          rw [hcell] at hold
          cases hold
          rfl)

/-- The value of a name in the nearest scope that has it. -/
def lookup (scope : ScopeId) (name : String) (s : Ideal) : Except ScopeFault Value × Ideal :=
  match s.resolve name scope with
  | .error fault => (.error fault, s)
  | .ok owner =>
      match (s.cells[owner]?).bind (·.slots.lookup name) with
      | none => (.error (.notDeclared name), s)
      | some value => (.ok value, s)

/-- Holding and letting go of scopes changes nothing here. -/
instance : Scopes Ideal where
  create := create
  hold _ s := s
  drop _ s := s
  declare := declare
  assign := assign
  lookup := lookup

/-- Evaluates the tree of a program over the ideal store. -/
def evaluate (root : Node) : Except Error Unit × Array (List Printed) :=
  match runProgram root { scopes := Ideal.empty } with
  | .ok _ w => (.ok (), w.printed)
  | .error e w => (.error e, w.printed)

end Ideal

end ScopedScript
