/-
Evaluation, watched.

A statement about every moment of a run needs the moments. They are put on
record in two places: a `Watched` store notes the scopes after each of its
operations, and `watchTask` notes every task before it is evaluated and
every scope that is made for a call. Nothing else changes the scopes, so
between two moments on record nothing happens to them.

# Why this is the same run

A watched store is a recording, so it answers as the store inside, and what
`watchTask` notes stays on the record. `forget_watchTask` says that a
watched run without its record is the run.

# What is on record

`Discipline.watched` lifts a discipline of the store to the record: at
every moment the scopes are as the discipline says, every task that was
entered may come up where it did, and every scope that was made for a call
belongs to it.
-/
import ScopedScript.Proofs.Discipline
import ScopedScript.Proofs.Recording
import ScopedScript.Proofs.StoreCells

namespace ScopedScript

-- ================================================================= moments

/-- What has just happened. -/
inductive Event where
  /-- An operation on the scopes was carried out. -/
  | changed
  /-- A task is about to be evaluated. -/
  | entered (task : Task)
  /-- A scope was made for a call of a closure. -/
  | called (closure : Closure) (frame : ScopeId)

/-- An event and the scopes right after it. -/
structure Moment where
  event : Event
  store : Store

/-- A store and what has happened to it, the latest moment first. -/
structure Watched where
  store : Store := {}
  history : List Moment := []

namespace Watched

/-- Puts an event on record. -/
def note (event : Event) (w : Watched) : Watched :=
  { w with history := ⟨event, w.store⟩ :: w.history }

/-- The store after an operation, on record. -/
def become (w : Watched) (s : Store) : Watched := note .changed { w with store := s }

instance : Scopes Watched where
  create parent w := ((w.store.create parent).1, w.become (w.store.create parent).2)
  hold scope w := w.become (w.store.hold scope)
  drop scope w := w.become (w.store.drop scope)
  declare scope name value w :=
    ((w.store.declare scope name value).1, w.become (w.store.declare scope name value).2)
  assign scope name value w :=
    ((w.store.assign scope name value).1, w.become (w.store.assign scope name value).2)
  lookup scope name w :=
    ((w.store.lookup scope name).1, w.become (w.store.lookup scope name).2)

instance : Recording Watched where
  inside := store
  create _ _ := rfl
  hold _ _ := rfl
  drop _ _ := rfl
  declare _ _ _ _ := rfl
  assign _ _ _ _ := rfl
  lookup _ _ _ := rfl

end Watched

namespace Eval

variable {α : Type}

/-- Makes a scope for a call, on record. -/
def enterWatched (closure : Closure) : Eval Watched ScopeId := do
  let frame ← newScope (some closure.scope)
  change (Watched.note (.called closure frame))
  return frame

open Classical in
/-- Evaluation on record. A level asks for nothing but tasks inside, so the
test is always passed (`watchTask_eq`). -/
noncomputable def watchTask : Task → Eval Watched (Option Value) :=
  Task.inside_wf.fix fun t watch => do
    change (Watched.note (.entered t))
    level ⟨fun u => if h : u.Inside t then watch u h else return none, enterWatched⟩ t

/-- What a level leaves open in a watched run. -/
noncomputable def watcher : Handler Watched := ⟨watchTask, enterWatched⟩

open Classical in
theorem watchTask_eq (t : Task) :
    watchTask t = (do change (Watched.note (.entered t)); level watcher t) := by
  have hlevel : level ⟨fun u => if h : u.Inside t then watchTask u else return none,
      enterWatched⟩ t = level watcher t := by
    refine level_congr ?_ fun _ => rfl
    intro u hu
    exact if_pos hu
  rw [← hlevel]
  exact Task.inside_wf.fix_eq _ t

-- =============================================================== forgetting

theorem simulates_watchTask (t : Task) :
    Simulates (forgetting Watched) (watchTask t) (evalTask t) := by
  induction t using Task.induction with
  | ih t ih =>
      rw [watchTask_eq, evalTask_eq_level, ← pure_bind () fun _ => level evaluator t]
      refine .bind (simulates_note fun _ => rfl) fun _ => ?_
      refine Simulates.level ih fun closure => ?_
      show Simulates (forgetting Watched) (enterWatched closure) (newScope (some closure.scope))
      rw [← bind_pure (newScope (some closure.scope))]
      refine .bind (.newScope _) fun frame => ?_
      rw [← pure_bind () fun _ => (Pure.pure frame : Eval Store ScopeId)]
      exact .bind (simulates_note fun _ => rfl) fun _ => .pure frame

/-- A watched run without its record is the run. -/
theorem forget_watchTask (t : Task) (w : Watched) (printed : Array (List Printed)) :
    forget (watchTask t ⟨w, printed⟩) = evalTask t ⟨w.store, printed⟩ :=
  forget_eq ((simulates_watchTask t).follows _ _ ⟨rfl, rfl⟩)

/-- A watched run of a program. -/
noncomputable def watchProgram (root : Node) : Outcome Watched (Option Value) :=
  watchTask ⟨0, 0, (Scopes.createGlobal ({} : Watched)).1, [], root⟩
    { scopes := (Scopes.createGlobal ({} : Watched)).2 }

/-- The moments of a run, the latest first. -/
noncomputable def history (root : Node) : List Moment := (after (watchProgram root)).scopes.history

theorem forget_watchProgram (root : Node) :
    forget (watchProgram root) = runProgram root { scopes := ({} : Store) } :=
  forget_watchTask _ (Scopes.createGlobal ({} : Watched)).2 #[]

end Eval

-- =============================================================== the record

namespace Discipline

variable {ι : Type}

/-- A scope can be made for every call. -/
def Creates {σ : Type} [Scopes σ] (D : Discipline σ ι) : Prop :=
  ∀ {i s closure}, D.Holds i s → closure.definition.kind = .function →
    D.Fits i (.function closure) → ∃ j, D.Grows i j
      ∧ D.Holds j (Scopes.create (some closure.scope) s).2
      ∧ D.Framed j closure (Scopes.create (some closure.scope) s).1

variable (D : Discipline Store ι)

/-- The moment is as the discipline says. The scopes of an earlier moment
are as they were to be with what was known then. -/
structure Shows (i : ι) (m : Moment) : Prop where
  store : ∃ j, D.Grows j i ∧ D.Holds j m.store
  entered : ∀ {task}, m.event = .entered task → D.Placed i task
  called : ∀ {closure frame}, m.event = .called closure frame → D.Framed i closure frame

/-- The store and its record are as the discipline says, and every scope
made since there were `start` of them was made for a call on record. -/
structure OnRecord (start : Nat) (i : ι) (w : Watched) : Prop where
  store : D.Holds i w.store
  moments : ∀ m ∈ w.history, D.Shows i m
  calls : ∀ scope, start ≤ scope → scope < w.store.cells.size →
    ∃ m ∈ w.history, ∃ closure, m.event = .called closure scope

variable {D} {start : Nat} {i j : ι} {w : Watched}

theorem Shows.of_grows {m : Moment} (hgrows : D.Grows i j) (h : D.Shows i m) :
    D.Shows j m := by
  obtain ⟨k, hk, hholds⟩ := h.store
  refine ⟨⟨k, D.trans hk hgrows, hholds⟩, fun hm => ?_, fun hm => ?_⟩
  · exact D.placed_grows hgrows (h.entered hm)
  · exact D.framed_grows hgrows (h.called hm)

theorem Shows.changed {s : Store} (h : D.Holds i s) : D.Shows i ⟨.changed, s⟩ := by
  refine ⟨⟨i, D.refl i, h⟩, fun hm => ?_, fun hm => ?_⟩
  · cases hm
  · cases hm

namespace OnRecord

theorem note (h : D.OnRecord start i w) {event : Event} (hshows : D.Shows i ⟨event, w.store⟩) :
    D.OnRecord start i (w.note event) := by
  refine ⟨h.store, List.forall_mem_cons.2 ⟨hshows, h.moments⟩, fun scope hstart hsize => ?_⟩
  obtain ⟨m, hm, hcall⟩ := h.calls scope hstart hsize
  exact ⟨m, List.mem_cons_of_mem _ hm, hcall⟩

theorem enter (h : D.OnRecord start i w) (task : Task) (ht : D.Placed i task) :
    D.OnRecord start i (w.note (.entered task)) := by
  refine h.note ⟨⟨i, D.refl i, h.store⟩, fun hm => ?_, fun hm => ?_⟩
  · cases hm
    exact ht
  · cases hm

/-- Operations that make no scope keep the record in order. -/
theorem become (h : D.OnRecord start i w) {s : Store} (hs : D.Holds i s)
    (hsize : s.cells.size = w.store.cells.size) : D.OnRecord start i (w.become s) := by
  have hstore : D.OnRecord start i { w with store := s } := by
    refine ⟨hs, h.moments, fun scope hstart hlt => ?_⟩
    rw [hsize] at hlt
    exact h.calls scope hstart hlt
  exact hstore.note (.changed hs)

/-- The scope that is made for a call is put on record at once. -/
theorem call (h : D.OnRecord start i w) {closure : Closure} (hcreates : D.Creates)
    (hkind : closure.definition.kind = .function) (hfits : D.Fits i (.function closure)) :
    ∃ j, D.Grows i j ∧ D.Framed j closure (w.store.create (some closure.scope)).1 ∧
      D.OnRecord start j ((w.become (w.store.create (some closure.scope)).2).note
        (.called closure (w.store.create (some closure.scope)).1)) := by
  obtain ⟨j, hj, hholds, hframed⟩ := hcreates h.store hkind hfits
  refine ⟨j, hj, hframed, hholds, ?_, ?_⟩
  · -- two moments are new: the scope is there, and it is known what for
    refine List.forall_mem_cons.2 ⟨⟨⟨j, D.refl j, hholds⟩, fun hm => ?_, fun hm => ?_⟩, ?_⟩
    · cases hm
    · cases hm
      exact hframed
    · refine List.forall_mem_cons.2 ⟨.changed hholds, fun m hm => ?_⟩
      exact (h.moments m hm).of_grows hj
  · intro scope hstart hsize
    by_cases hscope : scope = w.store.cells.size
    · subst hscope
      exact ⟨_, List.mem_cons_self .., closure, rfl⟩
    · have hlt : scope < w.store.cells.size := by
        have hsize' : scope < (w.store.create (some closure.scope)).2.cells.size := hsize
        rw [Store.size_create] at hsize'
        omega
      obtain ⟨m, hm, hcall⟩ := h.calls scope hstart hlt
      exact ⟨m, List.mem_cons_of_mem _ (List.mem_cons_of_mem _ hm), hcall⟩

end OnRecord

/-- A discipline of the store, as one of the watched store. -/
def watched (D : Discipline Store ι) (start : Nat) : Discipline Watched ι where
  Grows := D.Grows
  Holds := D.OnRecord start
  Fits := D.Fits
  Placed := D.Placed
  Allows := D.Allows
  Framed := D.Framed
  refl := D.refl
  trans := D.trans
  fits_grows := D.fits_grows
  placed_grows := D.placed_grows
  allows_grows := D.allows_grows
  framed_grows := D.framed_grows
  hold scope h := h.become (D.hold scope h.store) (Store.size_hold ..)
  drop scope h := h.become (D.drop scope h.store) (Store.size_drop ..)
  declare h hallows hfits := h.become (D.declare h.store hallows hfits) (Store.size_declare ..)
  assign scope name h hfits := h.become (D.assign scope name h.store hfits) (Store.size_assign ..)
  lookup scope name h :=
    ⟨h.become (D.lookup scope name h.store).1 (Store.size_lookup ..),
      (D.lookup scope name h.store).2⟩
  fits_plain := D.fits_plain
  child := D.child
  declaration := D.declaration
  function := D.function
  body := D.body
  parameter := D.parameter

end Discipline

namespace Eval

variable {ι : Type} {D : Discipline Store ι}

theorem keeps_enterWatched (hcreates : D.Creates) (start : Nat) {i : ι} {closure : Closure}
    (hkind : closure.definition.kind = .function) (hfits : D.Fits i (.function closure)) :
    Keeps (D.watched start) i (enterWatched closure) fun k frame => D.Framed k closure frame := by
  intro j w hgrows hholds
  obtain ⟨k, hk, hframed, hrecord⟩ :=
    hholds.call hcreates hkind (D.fits_grows hgrows hfits)
  exact ⟨k, hk, hrecord, hframed⟩

/-- Watched evaluation keeps a discipline of the watched store if the notes
of tasks and calls do. -/
theorem Keeps.watchTask {E : Discipline Watched ι}
    (hnote : ∀ {i t w}, E.Placed i t → E.Holds i w → E.Holds i (w.note (.entered t)))
    (henter : ∀ {i closure}, closure.definition.kind = .function → E.Fits i (.function closure) →
      Keeps E i (enterWatched closure) fun k frame => E.Framed k closure frame)
    (t : Task) {i : ι} (ht : E.Placed i t) : Keeps E i (watchTask t) (Yielded E) := by
  induction t using Task.induction generalizing i with
  | ih t ih =>
      rw [watchTask_eq]
      refine .bind (Q := fun _ _ => True) ?_ fun j _ hj _ => ?_
      · intro j w hgrows hholds
        exact ⟨j, E.refl j, hnote (E.placed_grows hgrows ht) hholds, trivial⟩
      · refine Keeps.level (fun k u hu => ih u hu) ?_ (E.placed_grows hj ht)
        intro k closure hkind hfits
        exact henter hkind hfits

/-- Watched evaluation keeps the record in order. -/
theorem keeps_watchTask (hcreates : D.Creates) (start : Nat) (t : Task) {i : ι}
    (ht : D.Placed i t) :
    Keeps (D.watched start) i (watchTask t) (Yielded (D.watched start)) := by
  refine .watchTask (fun {i t w} ht hholds => ?_) (keeps_enterWatched hcreates start) t ht
  exact Discipline.OnRecord.enter hholds t ht

/-- What is on record after a watched run that starts where the discipline
holds. -/
theorem onRecord_watchTask (hcreates : D.Creates) {start : Nat} {i : ι} {t : Task}
    {w : World Watched} (hw : D.OnRecord start i w.scopes) (ht : D.Placed i t) :
    ∃ j, D.Grows i j ∧ D.OnRecord start j (after (watchTask t w)).scopes := by
  have hends := keeps_watchTask hcreates start t ht i w (D.refl i) hw
  generalize watchTask t w = r at hends
  cases r with
  | ok a w' =>
      obtain ⟨j, hj, hrecord, -⟩ := hends
      exact ⟨j, hj, hrecord⟩
  | error e w' =>
      obtain ⟨j, hj, hrecord⟩ := hends
      exact ⟨j, hj, hrecord⟩

end Eval

end ScopedScript
