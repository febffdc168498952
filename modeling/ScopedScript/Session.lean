/-
Sessions: a host that works with scopes and programs side by side.

A session owns one store of scopes. The host refers to scopes by handles,
which hold their scopes until they are dropped, and to functions of the
programs it has loaded by the number of the program. Programs are evaluated
in any scope the host has a handle on.
-/
import ScopedScript.Run

namespace ScopedScript

/-- A session: the scopes and what was printed, the handles by number, the
statements of the loaded programs by number, and the number of the next
program. -/
structure Session where
  world : World Store
  handles : Array (Option ScopeId)
  programs : Array (List Node)
  nextProgram : Nat

namespace Session

/-- A value as a host states it. -/
inductive Given where
  | value (value : Value)
  /-- The first statement of a loaded program, over the scope of a handle. -/
  | function (program handle : Nat)

/-- What a host can ask of a session. Scopes are given by handles. -/
inductive Command where
  /-- Makes a scope without a parent. -/
  | root
  /-- Makes a child of a scope. -/
  | child (scope : Nat)
  /-- Makes another handle on a scope. -/
  | duplicate (scope : Nat)
  /-- Gives a handle up. -/
  | drop (scope : Nat)
  /-- Whether two handles are on the same scope. -/
  | sameScope (scope other : Nat)
  | declare (scope : Nat) (name : String) (value : Given)
  | assign (scope : Nat) (name : String) (value : Given)
  | lookup (scope : Nat) (name : String)
  /-- Makes a handle on the scope that a function closes over. -/
  | closure (scope : Nat) (name : String)
  /-- Shows a value. -/
  | inspect (value : Given)
  /-- Whether two values are equal. -/
  | equal (a b : Given)
  /-- Whether a value equals that of a name. -/
  | equalName (scope : Nat) (a : Given) (name : String)
  /-- Evaluates statements one by one; with `demanding`, each has to have a
  value. -/
  | eval (scope : Nat) (statements : List Node) (demanding : Bool)

/-- What a session answers. -/
inductive Answer where
  /-- The number of a new handle. -/
  | handle (number : Nat)
  | done
  | truth (holds : Bool)
  | value (value : Value)
  | scopeFault (fault : ScopeFault)
  | notAFunction (kind : Value.Kind)
  /-- The results of the statements that were evaluated, what they printed,
  and the error that stopped them. -/
  | evaluated (results : List (Option Printed)) (printed : List (List Printed))
      (error : Option Error)
  /-- A handle or program that the session does not have. -/
  | unknownNumber

/-- A session with the statements of loaded programs. Handle 0 is on a scope
with the predeclared functions. -/
def start (programs : List (List Node)) : Session :=
  let (scope, scopes) := Scopes.createGlobal ({} : Store)
  { world := { scopes }
    handles := #[some scope]
    programs := programs.toArray
    nextProgram := programs.length }

/-- The scope of a handle. -/
def scope? (s : Session) (handle : Nat) : Option ScopeId := s.handles[handle]?.join

/-- A value that a host stated. -/
def value? (s : Session) : Given → Option Value
  | .value value => some value
  | .function program handle => do
      let definition ← (← s.programs[program]?).head?
      return .function ⟨program, definition, ← s.scope? handle⟩

/-- The session with its scopes changed. -/
def change (s : Session) (f : Store → Store) : Session :=
  { s with world := { s.world with scopes := f s.world.scopes } }

/-- Makes a handle on a scope that is already held for it. -/
def addHandle (s : Session) (scope : ScopeId) : Answer × Session :=
  (.handle s.handles.size, { s with handles := s.handles.push (some scope) })

/-- Makes a scope and a handle on it. -/
def create (s : Session) (parent : Option ScopeId) : Answer × Session :=
  let (scope, scopes) := s.world.scopes.create parent
  (s.change fun _ => scopes).addHandle scope

/-- Looks a name up and goes on with its value, which is held. -/
def withName (s : Session) (scope : ScopeId) (name : String)
    (next : Value → Session → Answer × Session) : Answer × Session :=
  match s.world.scopes.lookup scope name with
  | (.ok value, scopes) => next value (s.change fun _ => scopes)
  | (.error fault, scopes) => (.scopeFault fault, s.change fun _ => scopes)

/-- Stores a stated value by an operation that takes over the hold on it. -/
def store (s : Session) (value : Value)
    (operation : Value → Store → Except ScopeFault Unit × Store) : Answer × Session :=
  match operation value (Scopes.holdValue value s.world.scopes) with
  | (.ok _, scopes) => (.done, s.change fun _ => scopes)
  | (.error fault, scopes) => (.scopeFault fault, s.change fun _ => scopes)

/-- Evaluates statements of a program one by one. Results are shown and let
go at once; `results` holds those so far, the last one first. -/
def evalStatements (program : Nat) (scope : ScopeId) (demanding : Bool)
    (results : List (Option Printed)) :
    List Node → World Store → List (Option Printed) × Option Error × World Store
  | [], w => (results.reverse, none, w)
  | statement :: rest, w =>
      let step : Eval Store (Option Value) :=
        if demanding then some <$> evalValue program scope statement
        else eval program scope statement
      match step w with
      | .ok result w =>
          let scopes := Scopes.dropValues result.toList w.scopes
          evalStatements program scope demanding (result.map Value.printed :: results) rest
            { w with scopes }
      | .error e w => (results.reverse, some e, w)

/-- Carries out a command on scopes that are known to exist. -/
def perform? (s : Session) : Command → Option (Answer × Session)
  | .root => some (s.create none)
  | .child handle => do
      return s.create (some (← s.scope? handle))
  | .duplicate handle => do
      let scope ← s.scope? handle
      return (s.change (Store.hold scope)).addHandle scope
  | .drop handle => do
      let scope ← s.scope? handle
      let s := { s with handles := s.handles.setIfInBounds handle none }
      return (.done, s.change (Store.drop scope))
  | .sameScope handle other => do
      return (.truth ((← s.scope? handle) == (← s.scope? other)), s)
  | .declare handle name given => do
      let scope ← s.scope? handle
      return s.store (← s.value? given) fun value => Store.declare scope name value
  | .assign handle name given => do
      let scope ← s.scope? handle
      return s.store (← s.value? given) fun value => Store.assign scope name value
  | .lookup handle name => do
      let scope ← s.scope? handle
      return s.withName scope name fun value s => (.value value, s.change (Store.dropValue value))
  | .closure handle name => do
      let scope ← s.scope? handle
      return s.withName scope name fun value s =>
        match value.scope? with
        | some closed => s.addHandle closed
        | none => (.notAFunction value.kind, s)
  | .inspect given => do
      return (.value (← s.value? given), s)
  | .equal a b => do
      return (.truth ((← s.value? a).equal (← s.value? b)), s)
  | .equalName handle a name => do
      let scope ← s.scope? handle
      let a ← s.value? a
      return s.withName scope name fun value s =>
        (.truth (a.equal value), s.change (Store.dropValue value))
  | .eval handle statements demanding => do
      let scope ← s.scope? handle
      let (results, error, world) :=
        evalStatements s.nextProgram scope demanding [] statements { s.world with printed := #[] }
      let s := { s with world, nextProgram := s.nextProgram + 1 }
      return (.evaluated results world.printed.toList error, s)

/-- Carries out a command. -/
def perform (s : Session) (command : Command) : Answer × Session :=
  (s.perform? command).getD (.unknownNumber, s)

end Session

end ScopedScript
