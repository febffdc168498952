/-
Evaluation: running a tree against a store of scopes.

A node is evaluated in a scope and yields a value, or none where it stands
for no value (declarations, blocks that return nothing, calls of `print`).
The evaluator holds every function value it has at hand and lets go of it
when it is done with it: results of statements at once, operands when they
have been combined, callees and arguments when the call returns. Which of
them are held at which moment decides what a store may free, so it is part
of what a program means.

Calls nest at most `maxCallDepth` deep. Evaluation recurses on the calls
that are still allowed and, inside a call, on the tree: `evalNode` is
structural and takes the way to call a function as an argument, and
`callAt` supplies it for one call less.
-/
import ScopedScript.Scope
import ScopedScript.Value.Combine

namespace ScopedScript

/-- What evaluation changes: the scopes, and the calls of `print` so far. -/
structure World (σ : Type) where
  scopes : σ
  printed : Array (List Printed) := #[]

/-- An evaluation step. A step that fails leaves behind what it did up to
then. -/
abbrev Eval (σ : Type) := EStateM Error (World σ)

namespace Eval

variable {σ : Type} [Scopes σ] {α : Type}

-- ============================================================== steps

/-- Fails with a fault of the running program. -/
@[inline] def fail (fault : RuntimeFault) (span : Span) : Eval σ α :=
  throw ⟨.runtime fault, span, []⟩

/-- Changes the scopes. -/
@[inline] def change (f : σ → σ) : Eval σ Unit :=
  fun ⟨scopes, printed⟩ => .ok () ⟨f scopes, printed⟩

/-- An operation on the scopes, whose fault is reported at a span. -/
@[inline] def onScopesAs (report : ScopeFault → RuntimeFault) (span : Span)
    (f : σ → Except ScopeFault α × σ) : Eval σ α :=
  fun ⟨scopes, printed⟩ =>
    match f scopes with
    | (.ok a, scopes) => .ok a ⟨scopes, printed⟩
    | (.error fault, scopes) => .error ⟨.runtime (report fault), span, []⟩ ⟨scopes, printed⟩

/-- An operation on the scopes, whose fault is that of the program. -/
abbrev onScopes (span : Span) (f : σ → Except ScopeFault α × σ) : Eval σ α :=
  onScopesAs .scope span f

/-- Makes a change to the scopes after a step, whether it fails or not. -/
@[inline] def ensuring (cleanup : σ → σ) (step : Eval σ α) : Eval σ α :=
  fun w =>
    match step w with
    | .ok a ⟨scopes, printed⟩ => .ok a ⟨cleanup scopes, printed⟩
    | .error e ⟨scopes, printed⟩ => .error e ⟨cleanup scopes, printed⟩

/-- Keeps values during a step and lets go of them if it fails. -/
@[inline] def keeping (values : List Value) (step : Eval σ α) : Eval σ α :=
  fun w =>
    match step w with
    | .ok a w => .ok a w
    | .error e ⟨scopes, printed⟩ => .error e ⟨Scopes.dropValues values scopes, printed⟩

/-- The step with its error, if any, in one more context. -/
@[inline] def within (context : Context) (step : Eval σ α) : Eval σ α :=
  fun w =>
    match step w with
    | .ok a w => .ok a w
    | .error e w => .error (e.within context) w

/-- Lets go of the result of a statement. -/
@[inline] def discard (result : Option Value) : Eval σ Unit :=
  change (Scopes.dropValues result.toList)

/-- The value of a node that has to have one. -/
@[inline] def demand (node : Node) : Option Value → Eval σ Value
  | some value => pure value
  | none => fail (.noValue node.kind) node.span

/-- Runs a computation on a stack of its own. It is the same value; only
deep recursion notices the difference. -/
def onFreshStack (f : Unit → α) : α := (Task.spawn f .dedicated).get

@[simp] theorem onFreshStack_eq (f : Unit → α) : onFreshStack f = f () := rfl

-- ========================================================= constructs

/-- Stores a value under the name that a target refers to. -/
def assignTo (scope : ScopeId) (target : Node) (value : Value) : Eval σ (Option Value) :=
  match target with
  | .reference span name => do
      change (Scopes.holdValue value)
      keeping [value] (onScopes span (Scopes.assign scope name value))
      return some value
  | target => keeping [value] (fail (.notAssignable target.kind) target.span)

/-- The value of an operator node on two operands, which are let go. -/
def operate (span : Span) (operator : Operator) (left right : Value) : Eval σ (Option Value) := do
  change (Scopes.dropValues [left, right])
  match left.combine operator right with
  | .ok value => return some value
  | .error fault => fail fault span

/-- Gives a name in a scope to the function of a definition, over that
scope. -/
def defineAs (program : Nat) (scope : ScopeId) (span : Span) (name : String)
    (definition : Node) : Eval σ (Option Value) := do
  let value := Value.function ⟨program, definition, scope⟩
  change (Scopes.holdValue value)
  keeping [value] do
    onScopes span (Scopes.declare scope name .unknown)
    change (Scopes.holdValue value)
    onScopes span (Scopes.assign scope name value)
  return some value

/-- Defines the function that a node is the definition of. -/
def define (program : Nat) (scope : ScopeId) (node : Node) : Eval σ (Option Value) :=
  match node with
  | .function span name _ _ => defineAs program scope span name node
  | node => fail .functionExpected node.span

/-- Carries out a function of the host. -/
def callNative (span : Span) (name : String) (values : List Value) : Eval σ (Option Value) :=
  if name = "print" then
    fun ⟨scopes, printed⟩ => .ok none ⟨scopes, printed.push (values.map Value.printed)⟩
  else fail (.unknownNative name) span

/-- How to call a function with arguments, which pass to the callee, from a
call at a span. -/
abbrev Caller (σ : Type) := Closure → List Value → Span → Eval σ (Option Value)

/-- Calls what a callee at `calleeSpan` yielded. -/
def callValue (call : Caller σ) (span calleeSpan : Span) (target : Option Value)
    (values : List Value) : Eval σ (Option Value) :=
  match target with
  | some (.native name) =>
      ensuring (Scopes.dropValues values) (callNative span name values)
  | some (.function closure) =>
      ensuring (Scopes.dropValue (.function closure)) (call closure values span)
  | some value =>
      keeping values (fail (.notCallable value.kind) calleeSpan)
  | none => keeping values (fail .nothingToCall calleeSpan)

/-- Whether a node is a `return` statement. -/
def isReturn : Node → Bool
  | .ret .. => true
  | _ => false

mutual

/-- Evaluates a node of a program in a scope. -/
def evalNode (call : Caller σ) (program : Nat) (scope : ScopeId) : Node → Eval σ (Option Value)
  | .root _ body => evalAll call program scope body
  | .block _ body => evalBlock call program scope body
  | .declaration span name => do
      onScopes span (Scopes.declare scope name .unknown)
      return none
  | .assignment _ target value => do
      let result ← demand value (← evalNode call program scope value)
      assignTo scope target result
  | .reference span name => do
      return some (← onScopes span (Scopes.lookup scope name))
  | .number _ value => return some (.number value)
  | .string _ value => return some (.string value)
  | .boolean _ value => return some (.boolean value)
  | .binary span operator left right => do
      let first ← demand left (← evalNode call program scope left)
      let second ← keeping [first] do demand right (← evalNode call program scope right)
      operate span operator first second
  | .parenthesized _ inner => evalNode call program scope inner
  | .readProperty span object property => do
      let value ← demand object (← evalNode call program scope object)
      keeping [value] (fail (.noProperty property value.kind) span)
  | .call span callee arguments => do
      let target ← evalNode call program scope callee
      let values ← keeping target.toList (evalArguments call program scope [] arguments)
      callValue call span callee.span target values
  | .function span name parameters body =>
      define program scope (.function span name parameters body)
  | .ret _ none => return none
  | .ret _ (some value) => evalNode call program scope value

/-- Evaluates the statements of a program one after the other. -/
def evalAll (call : Caller σ) (program : Nat) (scope : ScopeId) :
    List Node → Eval σ (Option Value)
  | [] => return none
  | statement :: rest => do
      discard (← evalNode call program scope statement)
      evalAll call program scope rest

/-- Evaluates the statements of a block up to its first `return`, whose value
is that of the block. -/
def evalBlock (call : Caller σ) (program : Nat) (scope : ScopeId) :
    List Node → Eval σ (Option Value)
  | [] => return none
  | statement :: rest =>
      if isReturn statement then evalNode call program scope statement
      else do
        discard (← evalNode call program scope statement)
        evalBlock call program scope rest

/-- Evaluates arguments from left to right; `done` holds the values so far,
the last one first. -/
def evalArguments (call : Caller σ) (program : Nat) (scope : ScopeId) (done : List Value) :
    List Node → Eval σ (List Value)
  | [] => return done.reverse
  | argument :: rest => do
      let value ← keeping done do demand argument (← evalNode call program scope argument)
      evalArguments call program scope (value :: done) rest

end

-- ============================================================== calls

/-- Declares parameters in the scope of a call and gives them the arguments,
in order. Parameters without an argument stay unknown; surplus arguments are
returned. -/
def bindParameters (function : String) (frame : ScopeId) :
    List Parameter → List Value → Eval σ (List Value)
  | [], values => return values
  | parameter :: rest, values => do
      within (.callOf function)
        (keeping values (onScopes parameter.span (Scopes.declare frame parameter.name .unknown)))
      match values with
      | [] => bindParameters function frame rest []
      | value :: values =>
          keeping values
            (onScopesAs .parameterLost parameter.span (Scopes.assign frame parameter.name value))
          bindParameters function frame rest values

/-- So many nested calls share a stack. -/
def callsPerStack : Nat := 100

/-- Runs a step on the stack of the call around it, or on one of its own
where enough calls have piled up. -/
def stacked (depth : Nat) (step : Eval σ α) : Eval σ α :=
  fun w => if depth % callsPerStack = 0 then onFreshStack fun _ => step w else step w

omit [Scopes σ] in
@[simp] theorem stacked_eq (depth : Nat) (step : Eval σ α) : stacked depth step = step := by
  funext w
  simp [stacked]

/-- Calls a function while `depth` nested calls are still allowed. The body
runs in a new scope whose parent is the scope the function closes over. -/
def callAt (depth : Nat) (closure : Closure) (values : List Value) (span : Span) :
    Eval σ (Option Value) :=
  match closure.definition with
  | .function _ name parameters body =>
      match depth with
      | 0 => keeping values (fail .tooDeep span)
      | depth + 1 => do
          let frame ← fun ⟨scopes, printed⟩ =>
            let (frame, scopes) := Scopes.create (some closure.scope) scopes
            .ok frame ⟨scopes, printed⟩
          ensuring (Scopes.drop frame) do
            let surplus ← bindParameters name frame parameters values
            ensuring (Scopes.dropValues surplus)
              (within (.callOf name)
                (stacked depth
                  (evalNode (fun c vs s => callAt depth c vs s) closure.program frame body)))
  | _ => keeping values (fail .notADefinition span)

end Eval

open Eval

/-- Evaluates a node of a program in a scope, with all calls still
allowed. -/
def eval {σ : Type} [Scopes σ] (program : Nat) (scope : ScopeId) (node : Node) :
    Eval σ (Option Value) :=
  evalNode (callAt maxCallDepth) program scope node

/-- Evaluates a node that has to have a value. -/
def evalValue {σ : Type} [Scopes σ] (program : Nat) (scope : ScopeId) (node : Node) :
    Eval σ Value := do
  demand node (← eval program scope node)

/-- Runs a program in a new scope with the predeclared functions. -/
def runProgram {σ : Type} [Scopes σ] (root : Node) : Eval σ (Option Value) := do
  let scope ← fun ⟨scopes, printed⟩ =>
    let (scope, scopes) := Scopes.createGlobal scopes
    .ok scope ⟨scopes, printed⟩
  eval 0 scope root

end ScopedScript
