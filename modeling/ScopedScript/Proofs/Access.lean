/-
What is there when a name is accessed.

Scopes do not hold their parents, so a look-up may find that the scope it
should go on in is gone. It never happens at once. Whatever the program,
whenever a name is looked up or assigned, the scope at hand is there, and
so are its parent and the global scope: a call holds the scope it runs in,
whoever makes the call holds the callee and with it the scope that the
callee closes over, and the global scope is held by the run itself.

# Accesses

A `Journal` is a recording that notes every access, with the scopes as they
are at that moment. A run over a journal, without its notes, is the run over
the store.

# What follows for programs

If functions are nested in at most one other, every chain of parents ends
at the global scope after two steps at most. All of the chain is there, so
no look-up gets lost.
-/
import ScopedScript.Proofs.Balance
import ScopedScript.Proofs.Custody
import ScopedScript.Proofs.Nesting
import ScopedScript.Proofs.Reporting

namespace ScopedScript

-- ================================================================ journals

/-- A name is looked up or assigned from a scope; `store` has the scopes at
that moment. -/
structure Access where
  store : Store
  scope : ScopeId
  name : String

/-- A store and the accesses to it, the latest first. -/
structure Journal where
  store : Store := {}
  accesses : List Access := []

namespace Journal

/-- The store after an access, which is noted. -/
def note (j : Journal) (scope : ScopeId) (name : String) (s : Store) : Journal :=
  ⟨s, ⟨j.store, scope, name⟩ :: j.accesses⟩

instance : Scopes Journal where
  create parent j := ((j.store.create parent).1, { j with store := (j.store.create parent).2 })
  hold scope j := { j with store := j.store.hold scope }
  drop scope j := { j with store := j.store.drop scope }
  declare scope name value j :=
    ((j.store.declare scope name value).1,
      { j with store := (j.store.declare scope name value).2 })
  assign scope name value j :=
    ((j.store.assign scope name value).1,
      j.note scope name (j.store.assign scope name value).2)
  lookup scope name j :=
    ((j.store.lookup scope name).1, j.note scope name (j.store.lookup scope name).2)

instance : Recording Journal where
  inside := store
  create _ _ := rfl
  hold _ _ := rfl
  drop _ _ := rfl
  declare _ _ _ _ := rfl
  assign _ _ _ _ := rfl
  lookup _ _ _ := rfl

/-- A run that notes its accesses. -/
def runNoting (root : Node) : Eval.Outcome Journal (Option Value) :=
  runProgram root { scopes := {} }

/-- A run without its notes is the run. -/
theorem forget_runNoting (root : Node) :
    Eval.forget (runNoting root) = runProgram root { scopes := {} } :=
  Eval.forget_runProgram root ({} : Journal)

end Journal

/-- The accesses of a run, the latest first. -/
def accessesOf (root : Node) : List Access :=
  (Eval.after (Journal.runNoting root)).scopes.accesses

-- ================================================================= custody

/-- The scope of the access is there, and so are its parent, if it has one,
and the global scope. -/
structure Access.Kept (a : Access) : Prop where
  scope : a.store.isLive a.scope = true
  parent : ∀ {c : Cell} {outer : ScopeId}, a.store.cell? a.scope = some c →
    c.parent = some outer → a.store.isLive outer = true ∧ outer < a.scope
  global : a.store.isLive 0 = true

/-- Enough is held for accesses from the scope. -/
structure Store.Stands (s : Store) (l : List ScopeId) (scope : ScopeId) : Prop where
  held : scope ∈ l
  global : 0 ∈ l
  made : scope < s.cells.size
  parent : ∀ {c : Cell} {outer : ScopeId}, s.cell? scope = some c → c.parent = some outer →
    outer ∈ l ∧ outer < scope

namespace Store

variable {s s' : Store} {l l' : List ScopeId} {scope outer : ScopeId}

theorem Stands.later (h : s.Stands l scope) (hevolves : s.Evolves s') (hsubset : l ⊆ l') :
    s'.Stands l' scope := by
  refine ⟨hsubset h.held, hsubset h.global, Nat.lt_of_lt_of_le h.made hevolves.size, ?_⟩
  intro c' outer hc' hparent
  obtain ⟨c, hc, hsame, -⟩ := hevolves.cell hc' h.made
  obtain ⟨houter, hlt⟩ := h.parent hc (hsame.symm.trans hparent)
  exact ⟨hsubset houter, hlt⟩

theorem Balanced.isLive_of_mem (h : s.Balanced l) (hmem : scope ∈ l) : s.isLive scope = true :=
  h.isLive_iff.2 (.inl hmem)

theorem Stands.kept (h : s.Stands l scope) (hsubset : l ⊆ l') (hbalanced : s.Balanced l')
    (name : String) : Access.Kept ⟨s, scope, name⟩ := by
  refine ⟨hbalanced.isLive_of_mem (hsubset h.held), fun {c outer} hc hparent => ?_,
    hbalanced.isLive_of_mem (hsubset h.global)⟩
  obtain ⟨houter, hlt⟩ := h.parent hc hparent
  exact ⟨hbalanced.isLive_of_mem (hsubset houter), hlt⟩

/-- The scope of a call stands, since the scope that the callee closes over
is held. -/
theorem Stands.create (h : s.Stands l scope) (hsubset : l ⊆ l') (hbalanced : s.Balanced l')
    (houter : outer ∈ l) :
    (s.create (some outer)).2.Stands (s.cells.size :: l) s.cells.size := by
  refine ⟨List.mem_cons_self .., List.mem_cons_of_mem _ h.global, ?_, fun {c o} hc hparent => ?_⟩
  · rw [size_create]
    exact Nat.lt_succ_self _
  · rw [cell?_create, if_pos rfl] at hc
    cases hc
    cases hparent
    obtain ⟨d, hd⟩ := hbalanced.cell?_of_mem (.inl (hsubset houter))
    exact ⟨List.mem_cons_of_mem _ houter, lt_size_of_cell? hd⟩

/-- An assignment fails where the look-up of its name does. -/
theorem resolve_of_assign_error {name : String} {value : Value} {fault : ScopeFault}
    (h : (s.assign scope name value).1 = .error fault) : s.resolve name scope = .error fault := by
  rcases s.assign_cases scope name value with ⟨f, hresolve, hanswer, -⟩ | ⟨_, _, _, _, hanswer, -⟩
  · rw [hanswer] at h
    cases h
    exact hresolve
  · rw [hanswer] at h
    cases h

theorem resolve_of_lookup_error {name : String} {fault : ScopeFault}
    (h : (s.lookup scope name).1 = .error fault) : s.resolve name scope = .error fault := by
  rcases s.lookup_cases scope name with ⟨f, hresolve, hanswer, -⟩ | ⟨_, _, _, _, _, _, hanswer, -⟩
  · rw [hanswer] at h
    cases h
    exact hresolve
  · rw [hanswer] at h
    cases h

theorem declare_ne_missingClosure {c : Cell} (hc : s.cell? scope = some c) {name missing : String}
    {value : Value} : (s.declare scope name value).1 ≠ .error (.missingClosure missing) := by
  rcases s.declare_cases scope name value with
    ⟨hgone, -, -⟩ | ⟨d, -, ⟨-, hanswer, -⟩ | ⟨-, hanswer, -⟩⟩
  · rw [hc] at hgone
    cases hgone
  · rw [hanswer]
    simp
  · rw [hanswer]
    simp

end Store

namespace Journal

/-- The books of the store are in order, and every access so far found its
scope, the parent and the global scope. -/
structure InOrder (l : List ScopeId) (j : Journal) : Prop where
  balanced : j.store.Balanced l
  kept : ∀ a ∈ j.accesses, a.Kept

/-- A missing closure is to be seen in an access. -/
def Explains (j : Journal) (fault : ScopeFault) : Prop :=
  ∀ name, fault = .missingClosure name →
    ∃ a ∈ j.accesses, a.store.resolve a.name a.scope = .error (.missingClosure name)

variable {j : Journal} {l : List ScopeId} {scope : ScopeId} {name : String}

theorem InOrder.note (h : j.InOrder l) (hkept : Access.Kept ⟨j.store, scope, name⟩) {s : Store}
    {l' : List ScopeId} (hbalanced : s.Balanced l') : (j.note scope name s).InOrder l' :=
  ⟨hbalanced, List.forall_mem_cons.2 ⟨hkept, h.kept⟩⟩

theorem explains_note {fault : ScopeFault} (hfault : j.store.resolve name scope = .error fault)
    (s : Store) : (j.note scope name s).Explains fault := by
  intro missing hmissing
  refine ⟨_, List.mem_cons_self .., ?_⟩
  rw [← hmissing]
  exact hfault

/-- Evaluation keeps a journal in order. -/
def custody : Custody Journal where
  Held l j := j.InOrder l
  Evolves j j' := j.store.Evolves j'.store
  Standing j := j.store.Stands
  Blames := Explains
  refl _ := .refl _
  trans := .trans
  perm h hperm := ⟨h.balanced.perm hperm, h.kept⟩
  standing_mem h := h.held
  standing_later hevolves hsubset h := h.later hevolves hsubset
  create h hsubset hstands houter :=
    ⟨⟨h.balanced.create _, h.kept⟩, Store.create_evolves _ _,
      hstands.create hsubset h.balanced houter⟩
  hold h hscope := by
    obtain ⟨c, hc⟩ := h.balanced.cell?_of_mem (.inl hscope)
    exact ⟨⟨h.balanced.hold hc, h.kept⟩, Store.hold_evolves _ _⟩
  drop h := ⟨⟨h.balanced.drop, h.kept⟩, Store.drop_evolves _ _, fun _ hfault => hfault⟩
  declare {j l scope value} name h hstands := by
    refine ⟨⟨h.balanced.declare _ name, h.kept⟩, Store.declare_evolves _ _ _ _, ?_⟩
    intro fault hfault missing hmissing
    -- the scope is there, so a name can only be declared twice
    obtain ⟨c, hc⟩ := h.balanced.cell?_of_mem (.inl (List.mem_append_right _ hstands.held))
    rw [hmissing] at hfault
    exact absurd hfault (Store.declare_ne_missingClosure hc)
  assign {j l scope value} name h hstands := by
    have hkept := hstands.kept (List.subset_append_right ..) h.balanced name
    refine ⟨h.note hkept (h.balanced.assign scope name), Store.assign_evolves _ _ _ _, ?_⟩
    exact fun fault hfault => explains_note (Store.resolve_of_assign_error hfault) _
  lookup {j l scope} name h hstands := by
    have hlookup := h.balanced.lookup scope name
    have hkept := hstands.kept (List.Subset.refl _) h.balanced name
    refine ⟨Store.lookup_evolves _ _ _, fun value hvalue => ?_, fun fault hfault => ⟨?_, ?_⟩⟩
    · have hvalue' : (j.store.lookup scope name).1 = .ok value := hvalue
      rw [hvalue'] at hlookup
      exact h.note hkept hlookup
    · have hfault' : (j.store.lookup scope name).1 = .error fault := hfault
      rw [hfault'] at hlookup
      exact h.note hkept hlookup
    · exact explains_note (Store.resolve_of_lookup_error hfault) _

theorem inOrder_createGlobal : (Scopes.createGlobal ({} : Journal)).2.InOrder [0] := by
  refine ⟨?_, fun a ha => by cases ha⟩
  exact Store.Balanced.declare (Store.Balanced.create Store.balanced_empty none) 0 "print"

theorem stands_createGlobal : (Scopes.createGlobal ({} : Journal)).2.store.Stands [0] 0 := by
  refine ⟨List.mem_cons_self .., List.mem_cons_self .., by decide, fun {c outer} hc hparent => ?_⟩
  cases hc
  cases hparent

/-- What a run comes to: all accesses found what they were to find, and a
closure that is missing was missed by one of them. -/
theorem settled_runNoting (root : Node) :
    Eval.Settled custody (Scopes.createGlobal ({} : Journal)).2 [0] Eval.yields
      (runNoting root) :=
  Eval.settles_evalTask ⟨0, 0, 0, [], root⟩ { scopes := (Scopes.createGlobal ({} : Journal)).2 }
    [0] stands_createGlobal (List.nil_subset _) inOrder_createGlobal

end Journal

-- ============================================================ disciplines

namespace Discipline

variable {ι : Type} (D : Discipline Store ι)

/-- The scopes are as the discipline says, now and at every access so
far. -/
structure Noted (i : ι) (j : Journal) : Prop where
  store : D.Holds i j.store
  accesses : ∀ a ∈ j.accesses, ∃ k, D.Grows k i ∧ D.Holds k a.store

variable {D} {i : ι} {j : Journal}

theorem Noted.become (h : D.Noted i j) {s : Store} (hs : D.Holds i s) :
    D.Noted i { j with store := s } :=
  ⟨hs, h.accesses⟩

theorem Noted.note (h : D.Noted i j) (scope : ScopeId) (name : String) {s : Store}
    (hs : D.Holds i s) : D.Noted i (j.note scope name s) :=
  ⟨hs, List.forall_mem_cons.2 ⟨⟨i, D.refl i, h.store⟩, h.accesses⟩⟩

theorem Noted.of_grows {k : ι} (h : D.Noted i j) (hgrows : D.Grows i k) {s : Store}
    (hs : D.Holds k s) : D.Noted k { j with store := s } := by
  refine ⟨hs, fun a ha => ?_⟩
  obtain ⟨l, hl, hholds⟩ := h.accesses a ha
  exact ⟨l, D.trans hl hgrows, hholds⟩

/-- A discipline of the store, as one of the journal. -/
def journaled (D : Discipline Store ι) : Discipline Journal ι where
  Grows := D.Grows
  Holds := D.Noted
  Fits := D.Fits
  Placed := D.Placed
  Allows := D.Allows
  Framed := D.Framed
  refl := D.refl
  trans := D.trans
  fits_grows := D.fits_grows
  placed_grows := D.placed_grows
  allows_grows := D.allows_grows
  framed_grows := D.framed_grows
  hold scope h := h.become (D.hold scope h.store)
  drop scope h := h.become (D.drop scope h.store)
  declare h hallows hfits := h.become (D.declare h.store hallows hfits)
  assign scope name h hfits := h.note scope name (D.assign scope name h.store hfits)
  lookup scope name h :=
    ⟨h.note scope name (D.lookup scope name h.store).1, (D.lookup scope name h.store).2⟩
  fits_plain := D.fits_plain
  child := D.child
  declaration := D.declaration
  function := D.function
  body := D.body
  parameter := D.parameter

theorem Creates.journaled (h : D.Creates) : D.journaled.Creates := by
  intro i j closure hholds hkind hfits
  have hnoted : D.Noted i j := hholds
  obtain ⟨k, hk, hcreated, hframed⟩ := h hnoted.store hkind hfits
  exact ⟨k, hk, hnoted.of_grows hk hcreated, hframed⟩

end Discipline

namespace Eval

variable {σ ι : Type} [Scopes σ] {D : Discipline σ ι}

/-- Evaluation keeps a discipline in which scopes can be made for calls. -/
theorem keeps_evalTask (hcreates : D.Creates) (t : Task) {i : ι} (ht : D.Placed i t) :
    Keeps D i (evalTask t) (Yielded D) := by
  induction t using Task.induction generalizing i with
  | ih t ih =>
      rw [evalTask_eq_level]
      refine Keeps.level (fun k u hu => ih u hu) ?_ ht
      intro k closure hkind hfits l w hgrows hholds
      obtain ⟨m, hm, hcreated, hframed⟩ := hcreates hholds hkind (D.fits_grows hgrows hfits)
      exact ⟨m, hm, hcreated, hframed⟩

end Eval

/-- What is known of the scopes at every access: how deep they lie. -/
theorem leveled_of_mem_accessesOf {root : Node} {a : Access} (ha : a ∈ accessesOf root) :
    ∃ levels, Leveled root.nesting levels a.store := by
  have hstart : (leveled root.nesting).Noted [0] (Scopes.createGlobal ({} : Journal)).2 :=
    ⟨leveled_createGlobal root.nesting, fun a ha => by cases ha⟩
  have hplaced : Shallow root.nesting [0] 0 root := ⟨0, rfl, Nat.le_of_eq (Nat.zero_add _)⟩
  have hends : Eval.Ends (leveled root.nesting).journaled [0] _ (Journal.runNoting root) :=
    Eval.keeps_evalTask (Discipline.Creates.journaled (leveled_creates root.nesting))
      ⟨0, 0, 0, [], root⟩ hplaced [0] { scopes := (Scopes.createGlobal ({} : Journal)).2 }
      List.prefix_rfl hstart
  have hnoted : ∃ levels, (leveled root.nesting).Noted levels
      (Eval.after (Journal.runNoting root)).scopes := by
    generalize Journal.runNoting root = r at hends
    cases r with
    | ok result w =>
        obtain ⟨levels, -, hnoted, -⟩ := hends
        exact ⟨levels, hnoted⟩
    | error e w =>
        obtain ⟨levels, -, hnoted⟩ := hends
        exact ⟨levels, hnoted⟩
  obtain ⟨levels, hnoted⟩ := hnoted
  obtain ⟨levels', -, hleveled⟩ := hnoted.accesses a ha
  exact ⟨levels', hleveled⟩

-- =============================================================== look-ups

/-- A look-up that does not find the name goes on from a scope to its
parent. -/
theorem Store.resolve_ne_of_parent {s : Store} {scope : ScopeId} {c : Cell}
    (hc : s.cell? scope = some c) {name missing : String}
    (hparent : ∀ outer, c.parent = some outer → outer < scope ∧
      s.resolve name outer ≠ .error (.missingClosure missing)) :
    s.resolve name scope ≠ .error (.missingClosure missing) := by
  rw [Store.resolve, hc]
  dsimp only
  split
  · simp
  · cases houter : c.parent with
    | none => simp
    | some outer =>
        obtain ⟨hlt, hresolve⟩ := hparent outer houter
        dsimp only
        rw [if_pos hlt]
        exact hresolve

/-- Two steps up from any scope is the global scope, and all on the way is
there. -/
theorem Access.Kept.resolve_ne {limit : Nat} {levels : List Nat} {a : Access} (hkept : a.Kept)
    (h : Leveled limit levels a.store) (hlimit : limit ≤ 2) (missing : String) :
    a.store.resolve a.name a.scope ≠ .error (.missingClosure missing) := by
  obtain ⟨c, hc⟩ := Option.isSome_iff_exists.1 hkept.scope
  refine Store.resolve_ne_of_parent hc fun outer hparent => ?_
  obtain ⟨hlive, hlt⟩ := hkept.parent hc hparent
  refine ⟨hlt, ?_⟩
  obtain ⟨d, hd⟩ := Option.isSome_iff_exists.1 hlive
  refine Store.resolve_ne_of_parent hd fun outermost hparent' => ?_
  -- the levels are at most two, one and zero
  have hbelow := h.contains.parent hc
  have hbelow' := h.contains.parent hd
  rw [hparent] at hbelow
  rw [hparent'] at hbelow'
  obtain ⟨level, houter, -, hle⟩ := hbelow
  obtain ⟨level', houtermost, hlevel, -⟩ := hbelow'
  rw [houter, Option.some.injEq] at hlevel
  have hzero : level' = 0 := by omega
  rw [hzero, h.global] at houtermost
  subst houtermost
  refine ⟨?_, ?_⟩
  · have hne : outer ≠ 0 := by
      intro houter0
      rw [(h.global outer).2 houter0, Option.some.injEq] at houter
      omega
    exact Nat.pos_of_ne_zero hne
  · obtain ⟨g, hg⟩ := Option.isSome_iff_exists.1 hkept.global
    refine Store.resolve_ne_of_parent hg fun outer' hparent'' => ?_
    have hbelow'' := h.contains.parent hg
    rw [hparent''] at hbelow''
    obtain ⟨level'', -, hglobal, -⟩ := hbelow''
    rw [(h.global 0).2 rfl] at hglobal
    cases hglobal

-- ================================================================ programs

theorem kept_of_mem_accessesOf {root : Node} {a : Access} (ha : a ∈ accessesOf root) :
    a.Kept := by
  have hsettled := Journal.settled_runNoting root
  unfold accessesOf at ha
  generalize Journal.runNoting root = r at hsettled ha
  cases r with
  | ok result w => exact hsettled.2.kept a ha
  | error e w => exact hsettled.2.1.kept a ha

/-- A program of functions that are nested in at most one other misses no
closure. -/
theorem fault_ne_missingClosure {root : Node} (hnesting : root.nesting ≤ 2) {e : Error}
    (h : (evaluate root).1 = .error e) (missing : String) :
    e.fault.scope? ≠ some (.missingClosure missing) := by
  intro hfault
  have hsettled := Journal.settled_runNoting root
  have hkept := @kept_of_mem_accessesOf root
  have hleveled := @leveled_of_mem_accessesOf root
  have hforget := Journal.forget_runNoting root
  unfold evaluate at h
  rw [← hforget] at h
  unfold accessesOf at hkept hleveled
  generalize Journal.runNoting root = r at hsettled hkept hleveled h
  cases r with
  | ok result w => cases h
  | error e' w =>
      cases h
      obtain ⟨a, ha, hmissing⟩ := hsettled.2.2 _ hfault missing rfl
      obtain ⟨levels, hlevels⟩ := hleveled ha
      exact (hkept ha).resolve_ne hlevels hnesting missing hmissing

/-- At every access the scope at hand, its parent and the global scope are
there. So programs of functions that are nested in at most one other miss
no closure. -/
theorem one_level_closures_are_kept (root : Node) :
    Eval.forget (Journal.runNoting root) = runProgram root { scopes := {} }
      ∧ (∀ a ∈ accessesOf root, a.Kept)
      ∧ (root.nesting ≤ 2 → ∀ missing,
          (∀ e, (evaluate root).1 = .error e →
            e.fault.scope? ≠ some (.missingClosure missing))
          ∧ ∀ source options e, parse source = .ok root →
              (run source options).error = some e →
                e.fault.scope? ≠ some (.missingClosure missing)) := by
  refine ⟨Journal.forget_runNoting root, fun a => kept_of_mem_accessesOf, ?_⟩
  intro hnesting missing
  refine ⟨fun e he => fault_ne_missingClosure hnesting he missing, ?_⟩
  intro source options e hparse he
  rw [(run_of_parse hparse options).2] at he
  cases hevaluate : (evaluate root).1 with
  | ok _ =>
      rw [hevaluate] at he
      cases he
  | error e' =>
      rw [hevaluate] at he
      cases he
      exact fault_ne_missingClosure hnesting hevaluate missing

/-- A counter: a function that returns a function over its own scope. -/
def counter : Node :=
  .root ⟨0, 70⟩
    [.function ⟨0, 60⟩ "make" [⟨"n", ⟨14, 15⟩⟩]
      (.block ⟨17, 60⟩
        [.function ⟨19, 45⟩ "next" []
          (.block ⟨35, 45⟩ [.ret ⟨37, 43⟩ (some (.assignment ⟨38, 43⟩ (.reference ⟨38, 39⟩ "n")
            (.reference ⟨42, 43⟩ "n")))]),
          .ret ⟨46, 57⟩ (some (.reference ⟨53, 57⟩ "next"))]),
      .call ⟨61, 70⟩ (.call ⟨61, 68⟩ (.reference ⟨61, 65⟩ "make") [.string ⟨66, 67⟩ "a"]) []]

/-- The frame of `make` is gone from the stack when `next` is called, but it
is not missed. -/
theorem one_level_closures_are_kept_counter :
    counter.nesting ≤ 2
      ∧ (∀ e, (evaluate counter).1 = .error e →
          e.fault.scope? ≠ some (.missingClosure "n")) := by
  have hnesting : counter.nesting ≤ 2 := by decide
  exact ⟨hnesting, ((one_level_closures_are_kept counter).2.2 hnesting "n").1⟩

end ScopedScript
