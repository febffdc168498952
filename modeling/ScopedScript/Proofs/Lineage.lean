/-
The stores of a session, one after the other.

A host asks for one thing after the other, and in between programs run,
come to an end or fail. All the stores there ever were form a line, in
which each one evolves from those before it. So a scope has the parent it
was made with at every moment that it is there, and never fewer names than
before; and since every store on the line is reachable, parents are older
than their children at every moment and every look-up ends.

# All of the moments

What a command does to the scopes is one operation, except where it
evaluates. There the moments are those of a watched run (`watchStatements`),
so a store that only some call in the middle of an evaluation gets to see
is on the line like any other. An evaluation that fails has moments up to
where it failed.
-/
import ScopedScript.Proofs.Ownership
import ScopedScript.Proofs.Termination

namespace ScopedScript

-- =================================================================== lines

namespace Store

variable {s s' : Store} {past : List Store}

/-- Stores that follow one another, the latest first. -/
structure Lineage (stores : List Store) : Prop where
  reachable : ∀ s ∈ stores, s.Reachable
  evolves : stores.Pairwise fun later earlier => earlier.Evolves later

/-- The latest store may be replaced by a later one. -/
theorem Lineage.next (h : Lineage (s :: past)) (hreachable : s'.Reachable)
    (hevolves : s.Evolves s') : Lineage (s' :: past) := by
  obtain ⟨hlatest, hpast⟩ := List.pairwise_cons.1 h.evolves
  refine ⟨List.forall_mem_cons.2 ⟨hreachable, fun t ht => ?_⟩,
    List.pairwise_cons.2 ⟨fun t ht => ?_, hpast⟩⟩
  · exact h.reachable t (List.mem_cons_of_mem _ ht)
  · exact (hlatest t ht).trans hevolves

/-- The latest store may be put on record once more. -/
theorem Lineage.again (h : Lineage (s :: past)) : Lineage (s :: s :: past) := by
  obtain ⟨hlatest, -⟩ := List.pairwise_cons.1 h.evolves
  constructor
  · exact List.forall_mem_cons.2 ⟨h.reachable s (List.mem_cons_self ..), h.reachable⟩
  · exact List.pairwise_cons.2 ⟨List.forall_mem_cons.2 ⟨.refl s, hlatest⟩, h.evolves⟩

theorem Reachable.holdValue (h : s.Reachable) (value : Value) :
    (Scopes.holdValue value s).Reachable := by
  unfold Scopes.holdValue
  cases value.scope? with
  | none => exact h
  | some closed => exact h.hold

theorem Reachable.dropValue (h : s.Reachable) (value : Value) : (s.dropValue value).Reachable := by
  unfold Store.dropValue
  cases value.scope? with
  | none =>
      rw [Option.toList_none, dropAll]
      exact h
  | some closed => exact h.drop

end Store

namespace Watched

variable {w : Watched} {past : List Store}

/-- What is on record follows on what was before. -/
def Since (past : List Store) (w : Watched) : Prop :=
  Store.Lineage (w.store :: (w.history.map (·.store) ++ past))

theorem Since.note (h : w.Since past) (event : Event) : (w.note event).Since past :=
  Store.Lineage.again h

/-- An operation puts the store after it on record, which is a later one. -/
theorem Since.become (h : w.Since past) {s : Store} (hreachable : s.Reachable)
    (hevolves : w.store.Evolves s) : (w.become s).Since past := by
  have hnext : ({ w with store := s } : Watched).Since past :=
    Store.Lineage.next h hreachable hevolves
  exact hnext.note .changed

/-- The record of a watched store, as a discipline. -/
def lineal (past : List Store) : Discipline Watched Nat where
  Grows := Store.reachable.Grows
  Holds n w := Store.reachable.Holds n w.store ∧ w.Since past
  Fits := Store.reachable.Fits
  Placed := Store.reachable.Placed
  Allows := Store.reachable.Allows
  Framed := Store.reachable.Framed
  refl := Store.reachable.refl
  trans := Store.reachable.trans
  fits_grows := Store.reachable.fits_grows
  placed_grows := Store.reachable.placed_grows
  allows_grows := Store.reachable.allows_grows
  framed_grows := Store.reachable.framed_grows
  hold scope h := by
    have hheld := Store.reachable.hold scope h.1
    exact ⟨hheld, h.2.become hheld.2 (Store.hold_evolves ..)⟩
  drop scope h := by
    have hdropped := Store.reachable.drop scope h.1
    exact ⟨hdropped, h.2.become hdropped.2 (Store.drop_evolves ..)⟩
  declare h hallows hfits := by
    have hdeclared := Store.reachable.declare h.1 hallows hfits
    exact ⟨hdeclared, h.2.become hdeclared.2 (Store.declare_evolves ..)⟩
  assign scope name h hfits := by
    have hassigned := Store.reachable.assign scope name h.1 hfits
    exact ⟨hassigned, h.2.become hassigned.2 (Store.assign_evolves ..)⟩
  lookup scope name h := by
    obtain ⟨hlooked, hvalue⟩ := Store.reachable.lookup scope name h.1
    exact ⟨⟨hlooked, h.2.become hlooked.2 (Store.lookup_evolves ..)⟩, hvalue⟩
  fits_plain := Store.reachable.fits_plain
  child := Store.reachable.child
  declaration := Store.reachable.declaration
  function := Store.reachable.function
  body := Store.reachable.body
  parameter := Store.reachable.parameter

/-- Evaluation on record adds later stores only. -/
theorem keeps_watchTask_lineal (past : List Store) (t : Task) {n : Nat} (ht : t.scope < n) :
    Eval.Keeps (lineal past) n (Eval.watchTask t) (Eval.Yielded (lineal past)) := by
  refine .watchTask (E := lineal past) (fun _ hholds => ⟨hholds.1, hholds.2.note _⟩) ?_ t ht
  intro i closure hkind hfits j w hgrows hholds
  obtain ⟨k, hk, hmade, hframed⟩ :=
    Store.reachable_creates hholds.1 hkind (Store.reachable.fits_grows hgrows hfits)
  have hsince := hholds.2.become hmade.2 (Store.create_evolves w.scopes.store (some closure.scope))
  exact ⟨k, hk, ⟨hmade, hsince.note _⟩, hframed⟩

end Watched

namespace Session

open Eval

-- ================================================================ evaluation

section Statements

variable (program : Nat) (scope : ScopeId) (demanding : Bool)

/-- A statement on record; with `demanding`, it has to have a value. -/
noncomputable def watchStatement (statement : Node) : Eval Watched (Option Value) :=
  if demanding then some <$> (watchTask ⟨0, program, scope, [], statement⟩ >>= demand statement)
  else watchTask ⟨0, program, scope, [], statement⟩

/-- Evaluates statements one by one, on record. -/
noncomputable def watchStatements : List Node → World Watched → World Watched
  | [], w => w
  | statement :: rest, w =>
      match watchStatement program scope demanding statement w with
      | .ok result w =>
          watchStatements rest { w with scopes := Scopes.dropValues result.toList w.scopes }
      | .error _ w => w

/-- A statement on record is evaluated as it is. -/
theorem simulates_watchStatement (statement : Node) :
    Simulates (forgetting Watched) (watchStatement program scope demanding statement)
      (if demanding then some <$> evalValue program scope statement
        else eval program scope statement) := by
  have hstep : Simulates (forgetting Watched) (watchTask ⟨0, program, scope, [], statement⟩)
      (eval program scope statement) := simulates_watchTask _
  unfold watchStatement
  cases demanding with
  | false => exact hstep
  | true =>
      rw [if_pos rfl, if_pos rfl, map_eq_pure_bind, map_eq_pure_bind]
      refine .bind (.bind hstep fun result => .demand statement result) fun value => ?_
      exact .pure (some value)

/-- Statements on record are evaluated as they are. -/
theorem store_watchStatements (results : List (Option Printed)) (statements : List Node)
    {w : World Watched} {v : World Store} (alike : Alike (forgetting Watched) w v) :
    (watchStatements program scope demanding statements w).scopes.store
      = (evalStatements program scope demanding results statements v).2.2.scopes := by
  induction statements generalizing w v results with
  | nil => exact alike.scopes
  | cons statement rest ih =>
      have hfollows := (simulates_watchStatement program scope demanding statement).follows
        w v alike
      unfold watchStatements evalStatements
      dsimp only
      generalize (if demanding = true then some <$> evalValue program scope statement
        else eval program scope statement) v = r at hfollows
      generalize watchStatement program scope demanding statement w = r' at hfollows
      cases hfollows with
      | ok result alike =>
          exact ih _ ⟨alike.printed, Simulates.dropValues (S := forgetting Watched) alike.scopes⟩
      | error e alike => exact alike.scopes
      | escape escapes =>
          obtain ⟨fault, -, hescapes⟩ := escapes
          exact hescapes.elim

/-- A statement on record adds later stores only. -/
theorem keeps_watchStatement (past : List Store) {n : Nat} (hscope : scope < n)
    (statement : Node) :
    Keeps (Watched.lineal past) n (watchStatement program scope demanding statement)
      (Yielded (Watched.lineal past)) := by
  have hstep := Watched.keeps_watchTask_lineal past ⟨0, program, scope, [], statement⟩ hscope
  unfold watchStatement
  cases demanding with
  | false => exact hstep
  | true =>
      rw [if_pos rfl, map_eq_pure_bind]
      refine .bind (.bind hstep fun j result _ => .demand statement) fun j value _ hvalue => ?_
      exact .pure fun k hk => .some ((Watched.lineal past).fits_grows hk hvalue)

/-- So do all statements of a command, whether or not one of them fails. -/
theorem watchStatements_since (past : List Store) {n : Nat} (hscope : scope < n)
    (statements : List Node) {w : World Watched} (h : (Watched.lineal past).Holds n w.scopes) :
    (watchStatements program scope demanding statements w).scopes.Since past := by
  induction statements generalizing n w with
  | nil => exact h.2
  | cons statement rest ih =>
      have hkeeps := keeps_watchStatement program scope demanding past hscope statement
      have hends := hkeeps n w (Nat.le_refl n) h
      unfold watchStatements
      generalize watchStatement program scope demanding statement w = r at hends
      cases r with
      | ok result w' =>
          obtain ⟨j, hj, hholds, -⟩ := hends
          exact ih (Nat.lt_of_lt_of_le hscope hj) (Keeps.dropValues result.toList j _ hholds)
      | error e w' =>
          obtain ⟨j, -, hholds⟩ := hends
          exact hholds.2

end Statements

-- ================================================================== commands

variable {s s' : Session} {past trace : List Store}

/-- The stores in the middle of a command, the latest first. -/
noncomputable def moments (s : Session) : Command → List Store
  | .eval handle statements demanding =>
      match s.scope? handle with
      | none => []
      | some scope =>
          (watchStatements s.nextProgram scope demanding statements
            ⟨{ store := s.world.scopes }, #[]⟩).scopes.history.map (·.store)
  | _ => []

/-- Scopes that are held from outside have been made. -/
theorem Balanced.lt_size (h : s.Balanced) {scope : ScopeId} (hscope : scope ∈ s.held) :
    scope < s.world.scopes.cells.size := by
  obtain ⟨c, hc⟩ := Store.Balanced.cell?_of_mem h (.inl hscope)
  exact Store.lt_size_of_cell? hc

/-- So have the scopes that given values close over. -/
theorem Balanced.among_of_value? (h : s.Balanced) {given : Given} {value : Value}
    (hhas : given.Has s) (hvalue : s.value? given = some value) :
    value.Among s.world.scopes.cells.size :=
  fun closed hclosed => h.lt_size (mem_held_of_value? hhas hvalue closed hclosed)

/-- Storing a value from outside is one operation between holding it and
letting go of it. -/
theorem reachable_store (h : s.world.scopes.Reachable) {value : Value}
    {operation : Value → Store → Except ScopeFault Unit × Store}
    (hvalue : value.Among s.world.scopes.cells.size)
    (hoperation : ∀ t : Store, t.Reachable → value.Among t.cells.size →
      (operation value t).2.Reachable) :
    (s.store value operation).2.world.scopes.Reachable := by
  have hsize : (Scopes.holdValue value s.world.scopes).cells.size = s.world.scopes.cells.size := by
    unfold Scopes.holdValue
    cases value.scope? with
    | none => rfl
    | some closed => exact Store.size_hold ..
  have hstored := hoperation _ (h.holdValue value) (hsize ▸ hvalue)
  unfold Session.store
  generalize operation value (Scopes.holdValue value s.world.scopes) = r at hstored
  obtain ⟨answer, scopes⟩ := r
  cases answer with
  | ok _ => exact hstored
  | error fault => exact hstored

/-- The value that a name stands for is looked up before it is used, and what
is looked up is let go of. -/
theorem reachable_withName (h : s.world.scopes.Reachable) (scope : ScopeId) (name : String)
    {next : Value → Session → Answer × Session}
    (hnext : ∀ (value : Value) (t : Session), t.world.scopes.Reachable →
      (next value t).2.world.scopes.Reachable) :
    (s.withName scope name next).2.world.scopes.Reachable := by
  have hlooked := @Store.Reachable.lookup _ scope name h
  unfold Session.withName
  generalize s.world.scopes.lookup scope name = r at hlooked
  obtain ⟨answer, scopes⟩ := r
  cases answer with
  | error fault => exact hlooked
  | ok value => exact hnext value _ hlooked

/-- What is there after a command and in the middle of it follows on what
was before. -/
theorem Balanced.lineage_perform? (h : s.Balanced)
    (hlineage : Store.Lineage (s.world.scopes :: past)) {command : Command} (hhas : command.Has s)
    {r : Answer × Session} (hperform : s.perform? command = some r) :
    Store.Lineage (r.2.world.scopes :: (s.moments command ++ past)) := by
  have hreachable := hlineage.reachable _ (List.mem_cons_self ..)
  -- one operation, and nothing in the middle
  have hnext (hdone : r.2.world.scopes.Reachable) : Store.Lineage (r.2.world.scopes :: past) :=
    hlineage.next hdone (h.perform? hhas hperform).evolves
  cases command with
  | root =>
      cases hperform
      exact hnext (hreachable.create fun outer houter => by cases houter)
  | child handle =>
      obtain ⟨scope, hscope, hdone⟩ := Option.bind_eq_some_iff.1 hperform
      cases hdone
      refine hnext (hreachable.create fun outer houter => ?_)
      cases houter
      exact h.lt_size (mem_held_iff.2 ⟨handle, hscope⟩)
  | duplicate handle =>
      obtain ⟨scope, -, hdone⟩ := Option.bind_eq_some_iff.1 hperform
      cases hdone
      exact hnext hreachable.hold
  | drop handle =>
      obtain ⟨scope, -, hdone⟩ := Option.bind_eq_some_iff.1 hperform
      cases hdone
      exact hnext hreachable.drop
  | sameScope handle other =>
      obtain ⟨scope, -, hdone⟩ := Option.bind_eq_some_iff.1 hperform
      obtain ⟨scope', -, hdone⟩ := Option.bind_eq_some_iff.1 hdone
      cases hdone
      exact hlineage
  | declare handle name given =>
      obtain ⟨scope, -, hdone⟩ := Option.bind_eq_some_iff.1 hperform
      obtain ⟨value, hvalue, hdone⟩ := Option.bind_eq_some_iff.1 hdone
      cases hdone
      have hamong := h.among_of_value? hhas hvalue
      exact hnext (reachable_store hreachable hamong fun t ht hvalue => ht.declare hvalue)
  | assign handle name given =>
      obtain ⟨scope, -, hdone⟩ := Option.bind_eq_some_iff.1 hperform
      obtain ⟨value, hvalue, hdone⟩ := Option.bind_eq_some_iff.1 hdone
      cases hdone
      have hamong := h.among_of_value? hhas hvalue
      exact hnext (reachable_store hreachable hamong fun t ht hvalue => ht.assign hvalue)
  | lookup handle name =>
      obtain ⟨scope, -, hdone⟩ := Option.bind_eq_some_iff.1 hperform
      cases hdone
      exact hnext (reachable_withName hreachable scope name fun value t ht => ht.dropValue value)
  | closure handle name =>
      obtain ⟨scope, -, hdone⟩ := Option.bind_eq_some_iff.1 hperform
      cases hdone
      refine hnext (reachable_withName hreachable scope name fun value t ht => ?_)
      cases value.scope? with
      | none => exact ht
      | some closed => exact ht
  | inspect given =>
      obtain ⟨value, -, hdone⟩ := Option.bind_eq_some_iff.1 hperform
      cases hdone
      exact hlineage
  | equal a b =>
      obtain ⟨value, -, hdone⟩ := Option.bind_eq_some_iff.1 hperform
      obtain ⟨value', -, hdone⟩ := Option.bind_eq_some_iff.1 hdone
      cases hdone
      exact hlineage
  | equalName handle a name =>
      obtain ⟨scope, -, hdone⟩ := Option.bind_eq_some_iff.1 hperform
      obtain ⟨value, -, hdone⟩ := Option.bind_eq_some_iff.1 hdone
      cases hdone
      exact hnext (reachable_withName hreachable scope name fun value t ht => ht.dropValue value)
  | eval handle statements demanding =>
      obtain ⟨scope, hscope, hdone⟩ := Option.bind_eq_some_iff.1 hperform
      have hsince := watchStatements_since s.nextProgram scope demanding past
        (h.lt_size (mem_held_iff.2 ⟨handle, hscope⟩)) statements
        (w := ⟨{ store := s.world.scopes }, #[]⟩) ⟨⟨rfl, hreachable⟩, hlineage⟩
      have hstore := store_watchStatements s.nextProgram scope demanding [] statements
        (w := ⟨{ store := s.world.scopes }, #[]⟩) (v := { s.world with printed := #[] }) ⟨rfl, rfl⟩
      cases hdone
      unfold Watched.Since at hsince
      rw [hstore] at hsince
      simp only [moments, hscope]
      exact hsince

/-- A command that the session cannot carry out has no middle. -/
theorem moments_eq_nil {command : Command} (h : s.perform? command = none) :
    s.moments command = [] := by
  cases command with
  | eval handle statements demanding =>
      cases hscope : s.scope? handle with
      | none => simp only [moments, hscope]
      | some scope =>
          rw [perform?, hscope] at h
          cases h
  | _ => rfl

/-- A command that is not accepted changes nothing, so the line goes on with
the same store. -/
theorem Balanced.lineage_perform (h : s.Balanced)
    (hlineage : Store.Lineage (s.world.scopes :: past)) {command : Command}
    (hhas : command.Has s) :
    Store.Lineage ((s.perform command).2.world.scopes :: (s.moments command ++ past)) := by
  unfold Session.perform
  cases hperform : s.perform? command with
  | none =>
      rw [moments_eq_nil hperform]
      exact hlineage
  | some r => exact h.lineage_perform? hlineage hhas hperform

-- ====================================================================== runs

/-- The sessions that come about by commands, with all the stores there were
on the way, the latest first. -/
inductive Runs (s : Session) : List Store → Session → Prop
  | start : Runs s [s.world.scopes] s
  | step {trace : List Store} {s' : Session} (command : Command) (h : Runs s trace s')
      (hhas : command.Has s') :
      Runs s ((s'.perform command).2.world.scopes :: (s'.moments command ++ trace))
        (s'.perform command).2

/-- A run that is traced is a run. -/
theorem Runs.reaches (h : s.Runs trace s') : s.Reaches s' := by
  induction h with
  | start => exact .refl
  | step command _ hhas ih => exact ih.step command hhas

/-- All stores of a run are in one line. The induction is on the commands,
each of which adds its moments and the store it ends with. -/
theorem Runs.lineage (hbalanced : s.Balanced) (hreachable : s.world.scopes.Reachable)
    (h : s.Runs trace s') : Store.Lineage (s'.world.scopes :: trace) := by
  induction h with
  | start =>
      have hone : Store.Lineage [s.world.scopes] :=
        ⟨List.forall_mem_singleton.2 hreachable, List.pairwise_singleton ..⟩
      exact hone.again
  | step command h hhas ih =>
      exact ((h.reaches.turns hbalanced).balanced.lineage_perform ih hhas).again

/-- At every moment of a run the parent of a scope is one that was made
before it, so every look-up ends. From one moment to a later one, a scope
that is still there has the parent and all the names it had. -/
theorem parents_form_a_forest {programs : List (List Node)} (h : (start programs).Runs trace s) :
    (∀ store ∈ trace,
      (∀ scope c outer, store.cell? scope = some c → c.parent = some outer → outer < scope) ∧
      ∀ name scope, Returns (store.climb name) scope (store.resolve name scope)) ∧
    trace.Pairwise fun later earlier => earlier.cells.size ≤ later.cells.size ∧
      ∀ scope c', later.cell? scope = some c' → scope < earlier.cells.size →
        ∃ c, earlier.cell? scope = some c ∧ c'.parent = c.parent ∧
          ∀ name, c.has name = true → c'.has name = true := by
  have hlineage := h.lineage (start_balanced programs) Store.reachable_createGlobal
  refine ⟨fun store hstore => ?_, ?_⟩
  · have hreachable := hlineage.reachable store (List.mem_cons_of_mem _ hstore)
    refine ⟨fun scope c outer hc hparent => ?_, hreachable.returns_resolve⟩
    exact hreachable.ordered.parent hc outer hparent
  · refine (List.pairwise_cons.1 hlineage.evolves).2.imp fun hevolves => ⟨hevolves.size, ?_⟩
    exact fun scope c' hc' hscope => hevolves.cell hc' hscope

/-- The global scope is the parent of its child, also while an evaluation in
the child declares `x` and fails at `y`, and `x` stays. -/
theorem parents_form_a_forest_failed_evaluation :
    ∃ trace s, (start []).Runs trace s ∧ ((s.world.scopes.cell? 1).map (·.has "x")) = some true ∧
      ∀ store ∈ trace, ∀ c outer, store.cell? 1 = some c → c.parent = some outer → outer = 0 := by
  have hruns := ((Runs.start (s := start [])).step (.child 0) trivial).step
    (.eval 1 [.declaration ⟨0, 5⟩ "x", .reference ⟨6, 7⟩ "y"] false) trivial
  refine ⟨_, _, hruns, by decide +kernel, fun store hstore c outer hc hparent => ?_⟩
  have holder := ((parents_form_a_forest hruns).1 store hstore).1 1 c outer hc hparent
  exact Nat.lt_one_iff.1 holder

end Session

end ScopedScript
