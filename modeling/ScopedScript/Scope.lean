/-
Scopes as the evaluator sees them.

A scope holds names and has at most one parent, in which look-ups go on.
The evaluator needs no more of a store of scopes than the operations below.
It says exactly when it starts and stops to hold a scope: a running call
holds the scope made for it, and a function value holds the scope it closes
over for as long as the value itself is at hand. What a store does with
that knowledge is its own affair.
-/
import ScopedScript.Error

namespace ScopedScript

/-- The operations on a store of scopes.

`declare` and `assign` take the value over: the caller's hold on it passes
to the store, also when they fail. `lookup` hands the caller a hold on the
value it returns. -/
class Scopes (σ : Type) where
  /-- Makes a scope without names, held once, and returns its number. -/
  create : (parent : Option ScopeId) → σ → ScopeId × σ
  /-- Holds a scope once more. -/
  hold : ScopeId → σ → σ
  /-- Holds a scope once less. -/
  drop : ScopeId → σ → σ
  /-- Adds a name to a scope that does not have it. -/
  declare : ScopeId → (name : String) → Value → σ → Except ScopeFault Unit × σ
  /-- Replaces the value of a name in the nearest scope that has it. -/
  assign : ScopeId → (name : String) → Value → σ → Except ScopeFault Unit × σ
  /-- The value of a name in the nearest scope that has it. -/
  lookup : ScopeId → (name : String) → σ → Except ScopeFault Value × σ

namespace Scopes

variable {σ : Type} [Scopes σ]

/-- Holds the scope a value closes over once more. -/
def holdValue (value : Value) (s : σ) : σ :=
  match value.scope? with
  | some scope => hold scope s
  | none => s

/-- Holds the scope a value closes over once less. -/
def dropValue (value : Value) (s : σ) : σ :=
  match value.scope? with
  | some scope => drop scope s
  | none => s

/-- Lets go of several values. -/
def dropValues (values : List Value) (s : σ) : σ :=
  values.foldl (fun s value => dropValue value s) s

/-- The functions every program finds declared. -/
def nativeNames : List String := ["print"]

/-- Makes a scope without a parent that has the predeclared functions. -/
def createGlobal (s : σ) : ScopeId × σ :=
  let (scope, s) := create none s
  (scope, nativeNames.foldl (fun s name => (declare scope name (.native name) s).2) s)

end Scopes

end ScopedScript
