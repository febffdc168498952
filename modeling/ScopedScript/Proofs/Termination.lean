/-
Every program terminates.

Functions are values and may call themselves, and the body that a call
evaluates comes out of the store, so no part of the tree that is running
gets smaller by a call. What gets smaller is the number of calls that are
still allowed.

# What it means to return

A recursion is given by one level of it, `step`, in which the results of
the levels below are left open. It returns a value if some number of
levels is enough to have it, whatever stands in place of the levels below
(`Returns`). A loop that does not end never returns in this sense: with
any number of levels, what it gives is what was put in at the bottom.

# The argument

A level asks finitely many questions, each with less to use up than the
level itself (`Task.Inside`): the level of an evaluation is a finite list
of steps, and each of them evaluates a child of the node or the body of a
function with one call more under way. A recursion that asks finitely many
questions, all of them below in a well-founded order, returns.

Names are looked up by another recursion, along the parents of scopes. It
asks for the parent, which is older.
-/
import ScopedScript.Run
import ScopedScript.Proofs.Reachable

namespace ScopedScript

-- ============================================================== recursions

section Recursion

variable {α β : Type}

/-- The first `n` levels of a recursion, with `seed` in place of the levels
below. -/
def cutOff (step : (α → β) → α → β) (seed : α → β) : Nat → α → β
  | 0 => seed
  | n + 1 => step (cutOff step seed n)

/-- The recursion returns `b` from `a`: some number of levels is enough, and
so is every greater one, whatever stands below. -/
def Returns (step : (α → β) → α → β) (a : α) (b : β) : Prop :=
  ∃ n, ∀ m, n ≤ m → ∀ seed, cutOff step seed m a = b

/-- A level of the recursion gives what `f` gives as soon as finitely many
questions, all below, are answered by `f`. -/
def AsksBelow (Below : α → α → Prop) (step : (α → β) → α → β) (f : α → β) (a : α) : Prop :=
  ∃ questions : List α, (∀ q ∈ questions, Below q a)
    ∧ ∀ e, (∀ q ∈ questions, e q = f q) → step e a = f a

/-- Finitely many recursions that return do so with one number of levels. -/
theorem exists_levels {step : (α → β) → α → β} {f : α → β} {questions : List α}
    (h : ∀ q ∈ questions, Returns step q (f q)) :
    ∃ n, ∀ q ∈ questions, ∀ m, n ≤ m → ∀ seed, cutOff step seed m q = f q := by
  induction questions with
  | nil =>
      refine ⟨0, fun q hq => ?_⟩
      cases hq
  | cons question rest ih =>
      obtain ⟨hquestion, hrest⟩ := List.forall_mem_cons.1 h
      obtain ⟨n, hn⟩ := hquestion
      obtain ⟨n', hn'⟩ := ih hrest
      refine ⟨max n n', List.forall_mem_cons.2 ⟨fun m hm seed => ?_, fun q hq m hm seed => ?_⟩⟩
      · exact hn m (Nat.le_trans (Nat.le_max_left ..) hm) seed
      · exact hn' q hq m (Nat.le_trans (Nat.le_max_right ..) hm) seed

theorem returns_of_asksBelow {Below : α → α → Prop} (hwf : WellFounded Below)
    {step : (α → β) → α → β} {f : α → β} (h : ∀ a, AsksBelow Below step f a) (a : α) :
    Returns step a (f a) := by
  induction a using hwf.induction with
  | h a ih =>
      obtain ⟨questions, hbelow, hanswer⟩ := h a
      obtain ⟨n, hn⟩ := exists_levels fun q hq => ih q (hbelow q hq)
      refine ⟨n + 1, fun m hm seed => ?_⟩
      cases m with
      | zero => exact absurd hm (Nat.not_succ_le_zero n)
      | succ m =>
          refine hanswer _ fun q hq => ?_
          exact hn q hq m (Nat.le_of_succ_le_succ hm) seed

end Recursion

-- ================================================================ questions

namespace Eval

variable {σ α β : Type} [Scopes σ]

/-- A task and the world in which it is to be evaluated. -/
abbrev Question (σ : Type) := Task × World σ

/-- Answers to questions, as the evaluation of the tasks inside. -/
def answering (e : Question σ → Outcome σ (Option Value)) : Handler σ :=
  ⟨fun t w => e (t, w), fun closure => newScope (some closure.scope)⟩

/-- One level of evaluation. -/
def evalStep (e : Question σ → Outcome σ (Option Value)) (q : Question σ) :
    Outcome σ (Option Value) :=
  level (answering e) q.1 q.2

/-- The answers of the evaluator. -/
def evaluated (q : Question σ) : Outcome σ (Option Value) := evalTask q.1 q.2

theorem evalStep_evaluated (q : Question σ) : evalStep evaluated q = evaluated q := by
  unfold evaluated
  rw [evalTask_eq_level]
  rfl

/-- A step of the level of a task: in every world it asks finitely many
questions, all about tasks inside. -/
def Asks (t : Task) (m : (Question σ → Outcome σ (Option Value)) → Eval σ α) : Prop :=
  ∀ w, ∃ questions : List (Question σ), (∀ q ∈ questions, q.1.Inside t)
    ∧ ∀ e, (∀ q ∈ questions, e q = evaluated q) → m e w = m evaluated w

namespace Asks

variable {t : Task} {m : (Question σ → Outcome σ (Option Value)) → Eval σ α}

theorem nothing (m : Eval σ α) : Asks t fun _ => m := by
  intro w
  refine ⟨[], fun q hq => ?_, fun e _ => rfl⟩
  cases hq

theorem inside {u : Task} (hu : u.Inside t) :
    Asks (σ := σ) t fun e => (answering e).eval u := by
  intro w
  refine ⟨[(u, w)], fun q hq => ?_, fun e he => ?_⟩
  · cases List.mem_singleton.1 hq
    exact hu
  · exact he (u, w) (List.mem_singleton.2 rfl)

theorem bind {f : (Question σ → Outcome σ (Option Value)) → α → Eval σ β}
    (hm : Asks t m) (hf : ∀ a, Asks t fun e => f e a) : Asks t fun e => m e >>= f e := by
  intro w
  obtain ⟨first, hfirst, hm⟩ := hm w
  show ∃ questions : List (Question σ), _ ∧ ∀ e, _ →
    EStateM.bind (m e) (f e) w = EStateM.bind (m evaluated) (f evaluated) w
  unfold EStateM.bind
  cases hresult : m evaluated w with
  | ok a w' =>
      -- which questions come second depends on what came of the first ones
      obtain ⟨second, hsecond, hf⟩ := hf a w'
      refine ⟨first ++ second, fun q hq => ?_, fun e he => ?_⟩
      · rcases List.mem_append.1 hq with hq | hq
        · exact hfirst q hq
        · exact hsecond q hq
      · obtain ⟨he, he'⟩ := List.forall_mem_append.1 he
        rw [hm e he, hresult]
        exact hf e he'
  | error error w' =>
      refine ⟨first, hfirst, fun e he => ?_⟩
      rw [hm e he, hresult]

theorem finish (f : Outcome σ α → Outcome σ α) (hm : Asks t m) :
    Asks t fun e => Eval.finish f (m e) := by
  intro w
  obtain ⟨questions, hinside, hm⟩ := hm w
  refine ⟨questions, hinside, fun e he => ?_⟩
  exact congrArg f (hm e he)

theorem ensuring (cleanup : σ → σ) (hm : Asks t m) :
    Asks t fun e => Eval.ensuring cleanup (m e) := by
  simp only [ensuring_eq_finish]
  exact finish _ hm

theorem keeping (values : List Value) (hm : Asks t m) :
    Asks t fun e => Eval.keeping values (m e) := by
  simp only [keeping_eq_finish]
  exact finish _ hm

theorem within (context : Context) (hm : Asks t m) :
    Asks t fun e => Eval.within context (m e) := by
  simp only [within_eq_finish]
  exact finish _ hm

-- ================================================================== levels

theorem child {node : Node} (n : Nat) (h : node ∈ t.node.children) :
    Asks (σ := σ) t fun e => (answering e).eval (t.child n node) :=
  inside (Task.child_inside h)

theorem levelAll (n : Nat) {body : List Node} (hbody : body ⊆ t.node.children) :
    Asks (σ := σ) t fun e => Eval.levelAll (answering e) t n body := by
  induction body generalizing n with
  | nil => exact nothing _
  | cons statement rest ih =>
      obtain ⟨hstatement, hrest⟩ := List.cons_subset.1 hbody
      refine bind (child n hstatement) fun result => ?_
      exact bind (nothing _) fun _ => ih (n + 1) hrest

theorem levelBlock (n : Nat) {body : List Node} (hbody : body ⊆ t.node.children) :
    Asks (σ := σ) t fun e => Eval.levelBlock (answering e) t n body := by
  induction body generalizing n with
  | nil => exact nothing _
  | cons statement rest ih =>
      obtain ⟨hstatement, hrest⟩ := List.cons_subset.1 hbody
      unfold Eval.levelBlock
      by_cases hreturn : isReturn statement = true
      · simp only [if_pos hreturn]
        exact child n hstatement
      · simp only [if_neg hreturn]
        refine bind (child n hstatement) fun result => ?_
        exact bind (nothing _) fun _ => ih (n + 1) hrest

theorem levelArguments (n : Nat) (done : List Value) {arguments : List Node}
    (harguments : arguments ⊆ t.node.children) :
    Asks (σ := σ) t fun e => Eval.levelArguments (answering e) t n done arguments := by
  induction arguments generalizing n done with
  | nil => exact nothing _
  | cons argument rest ih =>
      obtain ⟨hargument, hrest⟩ := List.cons_subset.1 harguments
      refine bind (keeping done ?_) fun value => ih (n + 1) (value :: done) hrest
      exact bind (child n hargument) fun result => nothing _

/-- A call asks for the body, with one call more under way. -/
theorem levelCall (closure : Closure) (values : List Value) (span : Span) :
    Asks (σ := σ) t fun e => Eval.levelCall (answering e) t closure values span := by
  obtain ⟨program, definition, scope⟩ := closure
  cases definition with
  | function _ name parameters body =>
      simp only [Eval.levelCall]
      by_cases hdepth : maxCallDepth ≤ t.depth
      · simp only [if_pos hdepth]
        exact nothing _
      · simp only [if_neg hdepth]
        refine bind (nothing _) fun frame => ensuring _ ?_
        refine bind (nothing _) fun surplus => ensuring _ (within _ ?_)
        exact inside (Task.body_inside (Nat.lt_of_not_le hdepth))
  | _ => exact nothing _

theorem callValue (span calleeSpan : Span) (target : Option Value) (values : List Value) :
    Asks (σ := σ) t fun e =>
      Eval.callValue (Eval.levelCall (answering e) t) span calleeSpan target values := by
  cases target with
  | none => exact nothing _
  | some value =>
      cases value with
      | function closure => exact ensuring _ (levelCall closure values span)
      | _ => exact nothing _

theorem level (t : Task) : Asks (σ := σ) t fun e => Eval.level (answering e) t := by
  unfold Eval.level
  cases hnode : t.node with
  | root _ body =>
      refine levelAll 0 ?_
      rw [hnode]
      exact List.Subset.refl _
  | block _ body =>
      refine levelBlock 0 ?_
      rw [hnode]
      exact List.Subset.refl _
  | assignment _ target value =>
      refine bind (child 1 ?_) fun result => nothing _
      simp [hnode, Node.children]
  | binary span operator left right =>
      refine bind (child 0 ?_) fun result => bind (nothing _) fun first => ?_
      · simp [hnode, Node.children]
      · refine bind (keeping [first] (bind (child 1 ?_) fun _ => nothing _)) fun _ => nothing _
        simp [hnode, Node.children]
  | parenthesized _ inner =>
      refine child 0 ?_
      simp [hnode, Node.children]
  | readProperty span object property =>
      refine bind (child 0 ?_) fun result => nothing _
      simp [hnode, Node.children]
  | call span callee arguments =>
      refine bind (child 0 ?_) fun target => ?_
      · simp [hnode, Node.children]
      · refine bind (keeping _ (levelArguments 1 [] ?_)) fun values => ?_
        · rw [hnode]
          exact List.subset_cons_self ..
        · exact callValue span callee.span target values
  | ret _ value =>
      cases value with
      | none => exact nothing _
      | some value =>
          refine child 0 ?_
          simp [hnode, Node.children]
  | _ => exact nothing _

end Asks

/-- A question about a task inside. -/
def Smaller (p q : Question σ) : Prop := p.1.Inside q.1

theorem asksBelow_evalStep (q : Question σ) : AsksBelow Smaller evalStep evaluated q := by
  obtain ⟨questions, hinside, hanswer⟩ := Asks.level q.1 q.2
  refine ⟨questions, hinside, fun e he => ?_⟩
  rw [← evalStep_evaluated]
  exact hanswer e he

/-- Evaluation returns, from every task in every world. -/
theorem returns_evaluated (q : Question σ) : Returns evalStep q (evaluated q) :=
  returns_of_asksBelow (InvImage.wf Prod.fst Task.inside_wf) asksBelow_evalStep q

end Eval

-- ================================================================== look-ups

namespace Store

/-- One turn of a look-up: the scope has the name, or the look-up goes on in
its parent. -/
def climb (s : Store) (name : String) (goOn : ScopeId → Except ScopeFault ScopeId)
    (scope : ScopeId) : Except ScopeFault ScopeId :=
  match s.cell? scope with
  | none => .error (.missingClosure name)
  | some c =>
      if c.has name then .ok scope
      else match c.parent with
        | none => .error (.notDeclared name)
        | some parent => goOn parent

theorem Reachable.asksBelow_climb {s : Store} (h : s.Reachable) (name : String)
    (scope : ScopeId) :
    AsksBelow (α := ScopeId) (· < ·) (s.climb name) (s.resolve name) scope := by
  have hnothing {b : Except ScopeFault ScopeId} (hclimb : ∀ e, s.climb name e scope = b)
      (hresolve : s.resolve name scope = b) :
      AsksBelow (α := ScopeId) (· < ·) (s.climb name) (s.resolve name) scope := by
    refine ⟨[], fun q hq => ?_, fun e _ => ?_⟩
    · cases hq
    · rw [hclimb, hresolve]
  cases hc : s.cell? scope with
  | none =>
      refine hnothing (b := .error (.missingClosure name)) (fun e => ?_) ?_
      · rw [climb, hc]
      · rw [resolve, hc]
  | some c =>
      by_cases hname : c.has name = true
      · refine hnothing (b := .ok scope) (fun e => ?_) ?_
        · simp only [climb, hc, if_pos hname]
        · rw [resolve, hc]
          exact if_pos hname
      · cases hparent : c.parent with
        | none =>
            refine hnothing (b := .error (.notDeclared name)) (fun e => ?_) ?_
            · simp only [climb, hc, if_neg hname, hparent]
            · rw [resolve, hc]
              simp only [if_neg hname, hparent]
        | some outer =>
            -- the parent is older, so the guard of `resolve` lets it pass
            have holder : outer < scope := h.ordered.parent hc outer (by rw [hparent]; rfl)
            refine ⟨[outer], fun q hq => ?_, fun e he => ?_⟩
            · cases List.mem_singleton.1 hq
              exact holder
            · rw [resolve, hc]
              simp only [climb, hc, if_neg hname, hparent, if_pos holder]
              exact he outer (List.mem_singleton.2 rfl)

/-- Every look-up in a reachable store returns. -/
theorem Reachable.returns_resolve {s : Store} (h : s.Reachable) (name : String)
    (scope : ScopeId) : Returns (s.climb name) scope (s.resolve name scope) :=
  returns_of_asksBelow Nat.lt_wfRel.wf (h.asksBelow_climb name) scope

theorem reachable_createGlobal : (Scopes.createGlobal ({} : Store)).2.Reachable := by
  have hmade : (Store.create none {}).2.Reachable := by
    refine .create .empty fun outer houter => ?_
    cases houter
  refine Reachable.declare hmade fun scope hscope => ?_
  cases hscope

end Store

-- ================================================================== programs

open Eval

/-- The question that the run of a tree starts with. -/
def startOf (root : Node) : Question Store :=
  (⟨0, 0, (Scopes.createGlobal ({} : Store)).1, [], root⟩,
    { scopes := (Scopes.createGlobal ({} : Store)).2 })

/-- The error of an outcome. -/
def failure? : Outcome Store (Option Value) → Option Error
  | .ok .. => none
  | .error e _ => some e

/-- The report of a run whose evaluation had an outcome. -/
structure Report.Tells (r : Report) (outcome : Outcome Store (Option Value)) : Prop where
  printed : r.printed = (after outcome).printed
  error : r.error = (failure? outcome).map (·.within .executing)

/-- A run ends with an error of scanning or building, or it reports what the
evaluation of its tree came to. -/
theorem run_cases (source : String) (options : Options) :
    (∃ e context, parse source = .error e
      ∧ (run source options).error = some (e.within context))
    ∨ ∃ root, parse source = .ok root
      ∧ (run source options).Tells (evaluated (startOf root)) := by
  cases hscan : scan source with
  | error e =>
      refine .inl ⟨e, .scanning, ?_, ?_⟩
      · rw [parse, hscan]
        rfl
      · simp only [run, hscan]
  | ok tokens =>
      have hparse : parse source = build tokens := by
        rw [parse, hscan]
        rfl
      rw [hparse]
      cases hbuild : build tokens with
      | error e =>
          refine .inl ⟨e, .building, rfl, ?_⟩
          simp only [run, hscan, hbuild]
      | ok root =>
          refine .inr ⟨root, rfl, ?_⟩
          have hevaluate : evaluate root = match evaluated (startOf root) with
              | .ok _ w => (.ok (), w.printed)
              | .error e w => (.error e, w.printed) := rfl
          simp only [run, hscan, hbuild, hevaluate]
          cases evaluated (startOf root) with
          | ok result w => exact ⟨rfl, rfl⟩
          | error e w => exact ⟨rfl, rfl⟩

/-- Every evaluation returns, from every node, in every scope of every
reachable store and with any number of calls under way: each level asks for
finitely many evaluations that have less to use up. At every moment of it
every look-up returns. So every program text has its report. -/
theorem evaluation_terminates {s : Store} (hs : s.Reachable) {t : Task}
    (ht : t.scope < s.cells.size) (printed : Array (List Printed)) :
    AsksBelow Smaller evalStep evaluated (t, ⟨s, printed⟩)
    ∧ Returns evalStep (t, ⟨s, printed⟩) (evalTask t ⟨s, printed⟩)
    ∧ (∀ m ∈ (after (watchTask t ⟨{ store := s }, printed⟩)).scopes.history, ∀ name scope,
        Returns (m.store.climb name) scope (m.store.resolve name scope))
    ∧ ∀ source options,
        (∃ e context, parse source = .error e
          ∧ (run source options).error = some (e.within context))
        ∨ ∃ root outcome, parse source = .ok root ∧ Returns evalStep (startOf root) outcome
          ∧ (run source options).Tells outcome := by
  refine ⟨asksBelow_evalStep _, returns_evaluated _, fun m hm name scope => ?_,
    fun source options => ?_⟩
  · exact (reachable_of_mem_history hs ht printed hm).returns_resolve name scope
  · rcases run_cases source options with hfailed | ⟨root, hroot, htells⟩
    · exact .inl hfailed
    · exact .inr ⟨root, _, hroot, returns_evaluated _, htells⟩

/-- A function that calls itself without end, and a call of it. -/
def endless : Node :=
  .root ⟨0, 30⟩
    [.function ⟨0, 26⟩ "f" []
      (.block ⟨13, 26⟩ [.ret ⟨15, 24⟩ (some (.call ⟨22, 25⟩ (.reference ⟨22, 23⟩ "f") []))]),
      .call ⟨27, 30⟩ (.reference ⟨27, 28⟩ "f") []]

/-- The run of a program without an end of its own returns. -/
theorem evaluation_terminates_endless :
    (Scopes.createGlobal ({} : Store)).2.Reachable
      ∧ Returns evalStep (startOf endless) (evaluated (startOf endless)) := by
  have hscope : 0 < (Scopes.createGlobal ({} : Store)).2.cells.size := by decide
  refine ⟨Store.reachable_createGlobal, ?_⟩
  exact (evaluation_terminates (t := (startOf endless).1) Store.reachable_createGlobal
    hscope #[]).2.1

end ScopedScript
