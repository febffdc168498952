/-
Stores with a record.

A statement about the middle of a run needs the middle of the run, and what
a run leaves behind does not have it. So a program is run over a store that
puts things on record: a state with a store inside, on which every operation
answers as on the store inside and besides notes whatever there is to note.
This file says once what makes such a state a recording and that its record
is all that a run over it adds.

# Why this is the same run

The evaluator knows a store only by its operations. A recording and the
store inside are related by looking inside, the operations keep the relation,
so whatever is done over the one is done over the other (`forgetting`), and
`forget` takes the outcome of the one to the outcome of the other.
-/
import ScopedScript.Scope.Store
import ScopedScript.Proofs.Simulation

namespace ScopedScript

/-- A state with a store inside. The operations act on the store inside as on
any store and answer as it does; what else they do is up to the recording. -/
class Recording (ρ : Type) [Scopes ρ] where
  inside : ρ → Store
  create : ∀ (parent : Option ScopeId) (r : ρ),
    (Scopes.create parent r).map id inside = Scopes.create parent (inside r)
  hold : ∀ (scope : ScopeId) (r : ρ),
    inside (Scopes.hold scope r) = Scopes.hold scope (inside r)
  drop : ∀ (scope : ScopeId) (r : ρ),
    inside (Scopes.drop scope r) = Scopes.drop scope (inside r)
  declare : ∀ (scope : ScopeId) (name : String) (value : Value) (r : ρ),
    (Scopes.declare scope name value r).map id inside
      = Scopes.declare scope name value (inside r)
  assign : ∀ (scope : ScopeId) (name : String) (value : Value) (r : ρ),
    (Scopes.assign scope name value r).map id inside
      = Scopes.assign scope name value (inside r)
  lookup : ∀ (scope : ScopeId) (name : String) (r : ρ),
    (Scopes.lookup scope name r).map id inside = Scopes.lookup scope name (inside r)

namespace Eval

open Recording (inside)

variable {ρ α : Type} [Scopes ρ] [Recording ρ]

/-- A recording answers as the store inside. -/
def forgetting (ρ : Type) [Scopes ρ] [Recording ρ] : Simulation ρ Store where
  Related r s := inside r = s
  Escapes _ := False
  create parent h := by
    rw [← h, ← Recording.create]
    exact ⟨rfl, rfl⟩
  hold scope h := by rw [← h, ← Recording.hold]
  drop scope h := by rw [← h, ← Recording.drop]
  declare scope name value h := by
    rw [← h, ← Recording.declare]
    exact .inl ⟨rfl, rfl⟩
  assign scope name value h := by
    rw [← h, ← Recording.assign]
    exact .inl ⟨rfl, rfl⟩
  lookup scope name h := by
    rw [← h, ← Recording.lookup]
    exact .inl ⟨rfl, rfl⟩

/-- A note changes the record and nothing else. -/
theorem simulates_note {f : ρ → ρ} (hf : ∀ r, inside (f r) = inside r) :
    Simulates (forgetting ρ) (change f) (Pure.pure ()) where
  grows _ _ := List.prefix_rfl
  follows w _ alike := .ok () ⟨alike.printed, (hf w.scopes).trans alike.scopes⟩

/-- The outcome of a run on record, without the record. -/
def forget : Outcome ρ α → Outcome Store α
  | .ok a w => .ok a ⟨inside w.scopes, w.printed⟩
  | .error e w => .error e ⟨inside w.scopes, w.printed⟩

/-- A recording reports no fault of its own, so what follows a run is that
run on record. -/
theorem forget_eq {r : Outcome ρ α} {r' : Outcome Store α}
    (h : Follows (forgetting ρ) r r') : forget r = r' := by
  have hworld {w : World ρ} {v : World Store} (alike : Alike (forgetting ρ) w v) :
      ⟨inside w.scopes, w.printed⟩ = v := by
    obtain ⟨scopes, printed⟩ := v
    obtain ⟨hprinted, hscopes⟩ := alike
    cases hprinted
    cases hscopes
    rfl
  cases h with
  | ok a alike => exact congrArg (EStateM.Result.ok a) (hworld alike)
  | error e alike => exact congrArg (EStateM.Result.error e) (hworld alike)
  | escape escapes =>
      obtain ⟨fault, -, hescapes⟩ := escapes
      exact hescapes.elim

/-- The global scope is made on record as it is made in the store inside. -/
theorem inside_createGlobal (r : ρ) :
    (Scopes.createGlobal r).1 = (Scopes.createGlobal (inside r)).1
      ∧ inside (Scopes.createGlobal r).2 = (Scopes.createGlobal (inside r)).2 := by
  unfold Scopes.createGlobal
  rw [← Recording.create]
  generalize Scopes.create none r = made
  obtain ⟨scope, r⟩ := made
  have hdeclare (r : ρ) (name : String) :
      (Scopes.declare scope name (.native name) (inside r)).2
        = inside (Scopes.declare scope name (.native name) r).2 := by
    rw [← Recording.declare]
    rfl
  dsimp only [Prod.map_apply]
  exact ⟨rfl, (List.foldl_hom inside hdeclare).symm⟩

/-- A program does over a recording what it does over the store inside. -/
theorem forget_runProgram (root : Node) (r : ρ) :
    forget (runProgram root { scopes := r }) = runProgram root { scopes := inside r } := by
  obtain ⟨hscope, hinside⟩ := inside_createGlobal r
  exact forget_eq (Follows.runProgram (forgetting ρ) root hscope hinside)

end Eval

end ScopedScript
