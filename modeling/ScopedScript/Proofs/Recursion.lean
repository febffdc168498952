/-
The evaluator, one level at a time.

`evalNode` recurses on the tree and `callAt` on the calls that are still
allowed, so between them the two hide a single recursion: to evaluate a
node in a scope is to do a bounded amount of work and to evaluate a few
more nodes, some of them children, some of them the bodies of functions
that came out of the store. This file brings that recursion out.

# Tasks and levels

A `Task` is a node to evaluate together with everything its evaluation
depends on besides the world. `level` is what happens for one task, with
the evaluation of the tasks inside it left open in a `Handler`.
`evalTask_eq_level` closes the loop: the evaluator is `level` with itself
as the handler. A statement about every evaluation is then a statement
about `level`, handed up by induction.

Some steps are others with something done to the outcome; they are brought
into that form first (`finish`), so that whoever goes through all steps has
one case for them.

# The measure

A task inside a task has more calls around it or, with as many, a smaller
node (`Task.Inside`). Calls nest at most `maxCallDepth` deep and nodes are
finite, so `Inside` is well-founded; the induction principle of every file
that consumes this one is `Task.induction`.
-/
import ScopedScript.Eval

namespace ScopedScript

-- ================================================================ tasks

/-- A way down a tree: which child to take at each node. -/
abbrev Path := List Nat

/-- A node to evaluate: how many calls are under way, the program the node
belongs to, the scope it is evaluated in and the way to it from the root
of the body that is running. -/
structure Task where
  depth : Nat
  program : Nat
  scope : ScopeId
  path : Path
  node : Node

namespace Task

/-- The task for the child with a number. -/
def child (t : Task) (i : Nat) (node : Node) : Task :=
  { t with path := t.path ++ [i], node }

/-- The task for the body of a function that is called from a task. -/
def body (t : Task) (program : Nat) (frame : ScopeId) (node : Node) : Task :=
  ⟨t.depth + 1, program, frame, [], node⟩

/-- What evaluation uses up: first the calls that are still allowed, then
the size of the node. -/
noncomputable def measure (t : Task) : Nat × Nat := (maxCallDepth - t.depth, sizeOf t.node)

/-- Whether a task has less to use up than another. -/
def Inside (t u : Task) : Prop :=
  Prod.Lex (· < ·) (· < ·) t.measure u.measure

/-- Tasks inside are deeper in the calls or smaller in the tree, and there is
an end to both. -/
theorem inside_wf : WellFounded Inside :=
  InvImage.wf measure (Prod.lex Nat.lt_wfRel Nat.lt_wfRel).wf

/-- What holds of a task whenever it holds of all tasks inside holds of
every task. -/
theorem induction {motive : Task → Prop}
    (ih : ∀ t, (∀ u, Inside u t → motive u) → motive t) (t : Task) : motive t :=
  inside_wf.induction t ih

/-- A child is smaller than its node. -/
theorem child_inside {t : Task} {i : Nat} {node : Node}
    (h : node ∈ t.node.children) : Inside (t.child i node) t :=
  Prod.Lex.right _ (Node.sizeOf_lt_of_mem_children h)

/-- The body of a callee may be larger, but there is a call less to go. -/
theorem body_inside {t : Task} {program : Nat} {frame : ScopeId} {node : Node}
    (h : t.depth < maxCallDepth) : Inside (t.body program frame node) t := by
  refine Prod.Lex.left _ _ ?_
  show maxCallDepth - (t.depth + 1) < maxCallDepth - t.depth
  omega

end Task

-- =============================================================== outcomes

namespace Eval

/-- A way to report a fault of the scopes that does not hide it. -/
class Reports (report : ScopeFault → RuntimeFault) : Prop where
  scope?_eq : ∀ fault, Fault.scope? (.runtime (report fault)) = some fault

instance : Reports .scope := ⟨fun _ => rfl⟩

instance : Reports .parameterLost := ⟨fun _ => rfl⟩

variable {σ α : Type}

/-- What came of a step. -/
abbrev Outcome (σ α : Type) := EStateM.Result Error (World σ) α

/-- The step with its outcome changed afterwards. -/
def finish (f : Outcome σ α → Outcome σ α) (m : Eval σ α) : Eval σ α :=
  fun w => f (m w)

/-- The outcome after a change to the scopes. -/
def ensured (cleanup : σ → σ) : Outcome σ α → Outcome σ α
  | .ok a w => .ok a { w with scopes := cleanup w.scopes }
  | .error e w => .error e { w with scopes := cleanup w.scopes }

/-- The outcome after values have been let go of in case of failure. -/
def kept [Scopes σ] (values : List Value) : Outcome σ α → Outcome σ α
  | .ok a w => .ok a w
  | .error e w => .error e { w with scopes := Scopes.dropValues values w.scopes }

/-- The outcome with its error, if any, in one more context. -/
def inContext (context : Context) : Outcome σ α → Outcome σ α
  | .ok a w => .ok a w
  | .error e w => .error (e.within context) w

theorem ensuring_eq_finish (cleanup : σ → σ) (m : Eval σ α) :
    ensuring cleanup m = finish (ensured cleanup) m := by
  funext w
  unfold ensuring finish
  cases m w <;> rfl

theorem keeping_eq_finish [Scopes σ] (values : List Value) (m : Eval σ α) :
    keeping values m = finish (kept values) m := by
  funext w
  unfold keeping finish
  cases m w <;> rfl

theorem within_eq_finish (context : Context) (m : Eval σ α) :
    within context m = finish (inContext context) m := by
  rfl

/-- Notes a call of `print`. -/
def record (values : List Value) : Eval σ (Option Value) :=
  fun w => .ok none { w with printed := w.printed.push (values.map Value.printed) }

/-- Printing is the only thing that predeclared functions do. -/
theorem callNative_eq (span : Span) (name : String) (values : List Value) :
    callNative (σ := σ) span name values
      = if name = "print" then record values else fail (.unknownNative name) span := rfl

-- ================================================================ levels

variable [Scopes σ]

/-- What a level of evaluation leaves open: how the tasks inside are
evaluated, and how the scope for a call is made. -/
structure Handler (σ : Type) where
  eval : Task → Eval σ (Option Value)
  enter : Closure → Eval σ ScopeId

/-- Makes a scope. -/
def newScope (parent : Option ScopeId) : Eval σ ScopeId :=
  fun ⟨scopes, printed⟩ =>
    let (scope, scopes) := Scopes.create parent scopes
    .ok scope ⟨scopes, printed⟩

variable (h : Handler σ) (t : Task)

/-- The statements of a program; `i` is the number of the first one. -/
def levelAll (i : Nat) : List Node → Eval σ (Option Value)
  | [] => return none
  | statement :: rest => do
      discard (← h.eval (t.child i statement))
      levelAll (i + 1) rest

/-- The statements of a block up to its first `return`. -/
def levelBlock (i : Nat) : List Node → Eval σ (Option Value)
  | [] => return none
  | statement :: rest =>
      if isReturn statement then h.eval (t.child i statement)
      else do
        discard (← h.eval (t.child i statement))
        levelBlock (i + 1) rest

/-- Arguments from left to right; `done` holds the values so far, the last
one first. -/
def levelArguments (i : Nat) (done : List Value) : List Node → Eval σ (List Value)
  | [] => return done.reverse
  | argument :: rest => do
      let value ← keeping done do demand argument (← h.eval (t.child i argument))
      levelArguments (i + 1) (value :: done) rest

/-- A call from a task. -/
def levelCall : Caller σ := fun closure values span =>
  match closure.definition with
  | .function _ name parameters body =>
      if maxCallDepth ≤ t.depth then keeping values (fail .tooDeep span)
      else do
        let frame ← h.enter closure
        ensuring (Scopes.drop frame) do
          let surplus ← bindParameters name frame parameters values
          ensuring (Scopes.dropValues surplus)
            (within (.callOf name) (h.eval (t.body closure.program frame body)))
  | _ => keeping values (fail .notADefinition span)

/-- One level of evaluation. -/
def level : Eval σ (Option Value) :=
  match t.node with
  | .root _ body => levelAll h t 0 body
  | .block _ body => levelBlock h t 0 body
  | .declaration span name => do
      onScopes span (Scopes.declare t.scope name .unknown)
      return none
  | .assignment _ target value => do
      let result ← demand value (← h.eval (t.child 1 value))
      assignTo t.scope target result
  | .reference span name => do
      return some (← onScopes span (Scopes.lookup t.scope name))
  | .number _ value => return some (.number value)
  | .string _ value => return some (.string value)
  | .boolean _ value => return some (.boolean value)
  | .binary span operator left right => do
      let first ← demand left (← h.eval (t.child 0 left))
      let second ← keeping [first] do demand right (← h.eval (t.child 1 right))
      operate span operator first second
  | .parenthesized _ inner => h.eval (t.child 0 inner)
  | .readProperty span object property => do
      let value ← demand object (← h.eval (t.child 0 object))
      keeping [value] (fail (.noProperty property value.kind) span)
  | .call span callee arguments => do
      let target ← h.eval (t.child 0 callee)
      let values ← keeping target.toList (levelArguments h t 1 [] arguments)
      callValue (levelCall h t) span callee.span target values
  | .function span name parameters body =>
      define t.program t.scope (.function span name parameters body)
  | .ret _ none => return none
  | .ret _ (some value) => h.eval (t.child 0 value)

-- ================================================= the evaluator by levels

/-- The evaluator on tasks. -/
def evalTask (t : Task) : Eval σ (Option Value) :=
  evalNode (callAt (maxCallDepth - t.depth)) t.program t.scope t.node

/-- The evaluator as the handler of its own levels. -/
def evaluator : Handler σ := ⟨evalTask, fun closure => newScope (some closure.scope)⟩

/-- Evaluating statements is a level over the evaluator. -/
theorem evalAll_eq_levelAll (i : Nat) (body : List Node) :
    evalAll (callAt (maxCallDepth - t.depth)) t.program t.scope body
      = levelAll (σ := σ) evaluator t i body := by
  induction body generalizing i with
  | nil => simp only [evalAll, levelAll]
  | cons statement rest ih =>
      simp only [evalAll, levelAll, ih (i + 1)]
      rfl

/-- So is evaluating those of a block. -/
theorem evalBlock_eq_levelBlock (i : Nat) (body : List Node) :
    evalBlock (callAt (maxCallDepth - t.depth)) t.program t.scope body
      = levelBlock (σ := σ) evaluator t i body := by
  induction body generalizing i with
  | nil => simp only [evalBlock, levelBlock]
  | cons statement rest ih =>
      simp only [evalBlock, levelBlock, ih (i + 1)]
      rfl

/-- So is evaluating arguments. -/
theorem evalArguments_eq_levelArguments (i : Nat) (done : List Value)
    (arguments : List Node) :
    evalArguments (callAt (maxCallDepth - t.depth)) t.program t.scope done arguments
      = levelArguments (σ := σ) evaluator t i done arguments := by
  induction arguments generalizing i done with
  | nil => simp only [evalArguments, levelArguments]
  | cons argument rest ih =>
      simp only [evalArguments, levelArguments, ih (i + 1)]
      rfl

/-- A call that counts the calls still allowed is one that counts the calls
under way. -/
theorem callAt_eq_levelCall :
    callAt (maxCallDepth - t.depth) = levelCall (σ := σ) evaluator t := by
  funext closure values span
  obtain ⟨program, definition, scope⟩ := closure
  cases definition with
  | function _ name parameters body =>
      by_cases hdepth : maxCallDepth ≤ t.depth
      · rw [Nat.sub_eq_zero_of_le hdepth, callAt]
        simp only [levelCall, if_pos hdepth]
      · obtain ⟨k, hk⟩ : ∃ k, maxCallDepth - t.depth = k + 1 :=
          ⟨maxCallDepth - t.depth - 1, by omega⟩
        have hk' : maxCallDepth - (t.depth + 1) = k := by omega
        rw [hk, callAt]
        simp only [levelCall, if_neg hdepth, stacked_eq, evaluator, evalTask, Task.body, hk']
        rfl
  | _ =>
      rw [callAt]
      rfl

/-- The evaluator is one level with the evaluator inside. -/
theorem evalTask_eq_level : evalTask t = level (σ := σ) evaluator t := by
  obtain ⟨depth, program, scope, path, node⟩ := t
  unfold evalTask level
  cases node with
  | root _ body =>
      rw [evalNode]
      exact evalAll_eq_levelAll _ 0 body
  | block _ body =>
      rw [evalNode]
      exact evalBlock_eq_levelBlock _ 0 body
  | call span callee arguments =>
      have hargs := evalArguments_eq_levelArguments (σ := σ)
        ⟨depth, program, scope, path, .call span callee arguments⟩ 1 [] arguments
      have hcall := callAt_eq_levelCall (σ := σ)
        ⟨depth, program, scope, path, .call span callee arguments⟩
      simp only at hargs hcall
      simp only [evalNode, hargs, ← hcall]
      rfl
  | ret _ value =>
      cases value with
      | none => rw [evalNode]
      | some value => exact evalNode.eq_def ..
  | _ =>
      unfold evalNode
      rfl

end Eval

end ScopedScript
