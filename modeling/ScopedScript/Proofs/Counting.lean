/-
The depth of calls as a counter.

The evaluator hands the number of calls that are still allowed down to
every call, so it cannot forget to give one back. A machine that keeps the
depth in a register has to see to that itself: one more when a body is
entered, one less when it is left, on all ways out. This file runs the
evaluator on such a machine and shows that it gets the register right.

# The machine

A `Counted` store is a store with a counter beside it, which the operations
on scopes leave alone. `countedCall` is a call that reads the counter, and
counts the body of the function. It evaluates the body by whatever it is
given for that, so one turn of the machine (`countedStep`) is the evaluator
with calls of this kind, and the machine is the recursion that has this
turn (`Returns`).

# Why the counter comes back

With the counter at `d`, a turn of the machine does what the evaluator does
with `d` calls under way, and leaves the counter at `d`, provided that the
bodies it evaluates with the counter at `d + 1` do alike. This is a
simulation (`counter d`), one for each depth, and the induction is on the
calls that are still allowed.

# How many contexts an error has

An error gets a context from each body it leaves, and there is no other
way to get one but to be raised with it by a parameter. So an error that
comes out of a task has at most as many as there were calls allowed, and
the one error that comes up only where no call is allowed any more has
exactly as many.
-/
import ScopedScript.Proofs.Stages
import ScopedScript.Proofs.Termination

namespace ScopedScript

-- ================================================================= counters

/-- A store and the number of calls that are under way. -/
structure Counted (σ : Type) where
  scopes : σ
  depth : Nat

namespace Counted

variable {σ : Type} [Scopes σ]

/-- The counter, beside other scopes. -/
def become (s : Counted σ) (scopes : σ) : Counted σ := { s with scopes }

instance : Scopes (Counted σ) where
  create parent s :=
    ((Scopes.create parent s.scopes).1, s.become (Scopes.create parent s.scopes).2)
  hold scope s := s.become (Scopes.hold scope s.scopes)
  drop scope s := s.become (Scopes.drop scope s.scopes)
  declare scope name value s :=
    ((Scopes.declare scope name value s.scopes).1,
      s.become (Scopes.declare scope name value s.scopes).2)
  assign scope name value s :=
    ((Scopes.assign scope name value s.scopes).1,
      s.become (Scopes.assign scope name value s.scopes).2)
  lookup scope name s :=
    ((Scopes.lookup scope name s.scopes).1, s.become (Scopes.lookup scope name s.scopes).2)

/-- One call more under way. -/
def up (s : Counted σ) : Counted σ := { s with depth := s.depth + 1 }

/-- One call less under way. -/
def down (s : Counted σ) : Counted σ := { s with depth := s.depth - 1 }

end Counted

namespace Eval

variable {σ τ α : Type} [Scopes σ]

/-- How to evaluate the body of a function: given the program, the scope and
the node. -/
abbrev Bodies (σ : Type) := Nat → ScopeId → Node → Eval σ (Option Value)

/-- Reads the counter. -/
def countedDepth : Eval (Counted σ) Nat := fun w => .ok w.scopes.depth w

/-- The step, counted while it lasts. -/
def counted (step : Eval (Counted σ) α) : Eval (Counted σ) α := do
  change Counted.up
  ensuring Counted.down step

/-- A call that counts itself, and fails if the counter is at its limit. -/
def countedCall (evalBody : Bodies (Counted σ)) : Caller (Counted σ) :=
  fun closure values span =>
    match closure.definition with
    | .function _ name parameters body => do
        if maxCallDepth ≤ (← countedDepth) then keeping values (fail .tooDeep span)
        else do
          let frame ← newScope (some closure.scope)
          ensuring (Scopes.drop frame) do
            let surplus ← bindParameters name frame parameters values
            ensuring (Scopes.dropValues surplus)
              (within (.callOf name) (counted (evalBody closure.program frame body)))
    | _ => keeping values (fail .notADefinition span)

/-- A node to evaluate, without the depth: that is for the counter to
know. -/
structure Job where
  program : Nat
  scope : ScopeId
  node : Node

/-- The task of a job with so many calls under way. -/
def Job.at (job : Job) (depth : Nat) : Task := ⟨depth, job.program, job.scope, [], job.node⟩

/-- One turn of the machine: a job is evaluated, and the bodies of the
functions that it calls are jobs again. -/
def countedStep (e : Job × World (Counted σ) → Outcome (Counted σ) (Option Value))
    (q : Job × World (Counted σ)) : Outcome (Counted σ) (Option Value) :=
  evalNode (countedCall fun program scope node w => e (⟨program, scope, node⟩, w))
    q.1.program q.1.scope q.1.node q.2

-- ================================================================== callers

namespace Simulates

variable [Scopes τ] {S : Simulation σ τ} {call : Caller σ} {call' : Caller τ} {program : Nat}
  {scope : ScopeId}

section Lists

variable {nodes : List Node}
  (hnodes : ∀ node ∈ nodes, Simulates S (Eval.evalNode call program scope node)
    (Eval.evalNode call' program scope node))

include hnodes

theorem evalAll : Simulates S (Eval.evalAll call program scope nodes)
    (Eval.evalAll call' program scope nodes) := by
  induction nodes with
  | nil => simpa only [Eval.evalAll] using pure none
  | cons node rest ih =>
      obtain ⟨hnode, hrest⟩ := List.forall_mem_cons.1 hnodes
      simp only [Eval.evalAll]
      exact bind hnode fun result => bind (discard result) fun _ => ih hrest

theorem evalBlock : Simulates S (Eval.evalBlock call program scope nodes)
    (Eval.evalBlock call' program scope nodes) := by
  induction nodes with
  | nil => simpa only [Eval.evalBlock] using pure none
  | cons node rest ih =>
      obtain ⟨hnode, hrest⟩ := List.forall_mem_cons.1 hnodes
      simp only [Eval.evalBlock]
      by_cases hreturn : isReturn node = true
      · rw [if_pos hreturn, if_pos hreturn]
        exact hnode
      · rw [if_neg hreturn, if_neg hreturn]
        exact bind hnode fun result => bind (discard result) fun _ => ih hrest

theorem evalArguments (done : List Value) :
    Simulates S (Eval.evalArguments call program scope done nodes)
      (Eval.evalArguments call' program scope done nodes) := by
  induction nodes generalizing done with
  | nil => simpa only [Eval.evalArguments] using pure done.reverse
  | cons node rest ih =>
      obtain ⟨hnode, hrest⟩ := List.forall_mem_cons.1 hnodes
      simp only [Eval.evalArguments]
      refine bind (keeping done ?_) fun value => ih hrest (value :: done)
      exact bind hnode fun result => demand node result

end Lists

/-- Evaluation asks for nothing but calls, so it follows as far as calls
do. -/
theorem evalNode
    (hcall : ∀ closure values span,
      Simulates S (call closure values span) (call' closure values span)) (node : Node) :
    Simulates S (Eval.evalNode call program scope node)
      (Eval.evalNode call' program scope node) := by
  have hchild (child : Node) (h : child ∈ node.children) :
      Simulates S (Eval.evalNode call program scope child)
        (Eval.evalNode call' program scope child) := evalNode hcall child
  cases node with
  | root span body =>
      simp only [Eval.evalNode]
      exact evalAll hchild
  | block span body =>
      simp only [Eval.evalNode]
      exact evalBlock hchild
  | declaration span name =>
      simp only [Eval.evalNode]
      exact bind (onScopes span (S.declare scope name .unknown)) fun _ => pure none
  | assignment span target value =>
      simp only [Eval.evalNode]
      refine bind (hchild value (by simp [Node.children])) fun result => ?_
      exact bind (demand value result) fun value => assignTo scope target value
  | reference span name =>
      simp only [Eval.evalNode]
      exact bind (onScopes span (S.lookup scope name)) fun value => pure (some value)
  | number span value => simpa only [Eval.evalNode] using pure _
  | string span value => simpa only [Eval.evalNode] using pure _
  | boolean span value => simpa only [Eval.evalNode] using pure _
  | binary span operator left right =>
      simp only [Eval.evalNode]
      refine bind (hchild left (by simp [Node.children])) fun result => ?_
      refine bind (demand left result) fun first => ?_
      refine bind (keeping [first] ?_) fun second => operate span operator first second
      exact bind (hchild right (by simp [Node.children])) fun result => demand right result
  | parenthesized span inner =>
      simp only [Eval.evalNode]
      exact hchild inner (by simp [Node.children])
  | readProperty span object property =>
      simp only [Eval.evalNode]
      refine bind (hchild object (by simp [Node.children])) fun result => ?_
      exact bind (demand object result) fun value => keeping [value] (fail ..)
  | call span callee arguments =>
      simp only [Eval.evalNode]
      refine bind (hchild callee (by simp [Node.children])) fun target => ?_
      refine bind (keeping _ (evalArguments (fun node h => ?_) [])) fun values => ?_
      · exact hchild node (List.mem_cons_of_mem _ h)
      · exact callValue hcall span callee.span target values
  | function span name parameters body =>
      simp only [Eval.evalNode]
      exact defineAs ..
  | ret span value =>
      cases value with
      | none => simpa only [Eval.evalNode] using pure none
      | some value =>
          simp only [Eval.evalNode]
          exact hchild value (by simp [Node.children])
termination_by sizeOf node
decreasing_by exact Node.sizeOf_lt_of_mem_children h

end Simulates

-- ============================================================== the counter

/-- A counted store answers as the store inside, and the counter stays
where it is. -/
def counter (σ : Type) [Scopes σ] (d : Nat) : Simulation (Counted σ) σ where
  Related s s' := s.scopes = s' ∧ s.depth = d
  Escapes _ := False
  create parent h := by rw [← h.1]; exact ⟨rfl, rfl, h.2⟩
  hold scope h := by rw [← h.1]; exact ⟨rfl, h.2⟩
  drop scope h := by rw [← h.1]; exact ⟨rfl, h.2⟩
  declare scope name value h := by rw [← h.1]; exact .inl ⟨rfl, rfl, h.2⟩
  assign scope name value h := by rw [← h.1]; exact .inl ⟨rfl, rfl, h.2⟩
  lookup scope name h := by rw [← h.1]; exact .inl ⟨rfl, rfl, h.2⟩

/-- The counter is read where it is known. -/
theorem simulates_countedDepth {d : Nat} {f : Nat → Eval (Counted σ) α} {n : Eval σ α}
    (h : Simulates (counter σ d) (f d) n) :
    Simulates (counter σ d) (countedDepth >>= f) n := by
  refine ⟨h.grows, fun w v alike => ?_⟩
  show Follows (counter σ d) (f w.scopes.depth w) (n v)
  rw [show w.scopes.depth = d from alike.scopes.2]
  exact h.follows w v alike

/-- A counted step leaves the counter where it was if the step does with
the counter one higher. -/
theorem simulates_counted {d : Nat} {m : Eval (Counted σ) α} {n : Eval σ α}
    (h : Simulates (counter σ (d + 1)) m n) : Simulates (counter σ d) (counted m) n := by
  refine ⟨fun hescape => hescape.elim fun _ hfalse => hfalse.elim, fun w v alike => ?_⟩
  have hup : Alike (counter σ (d + 1)) { w with scopes := w.scopes.up } v :=
    ⟨alike.printed, alike.scopes.1, congrArg (· + 1) alike.scopes.2⟩
  have hfollows := h.follows _ v hup
  show Follows (counter σ d) (ensuring Counted.down m { w with scopes := w.scopes.up }) (n v)
  rw [ensuring_eq_finish]
  unfold finish
  generalize m { w with scopes := w.scopes.up } = r, n v = r' at hfollows
  have hdown {s : Counted σ} {s' : σ} (h : (counter σ (d + 1)).Related s s') :
      (counter σ d).Related s.down s' := ⟨h.1, congrArg (· - 1) h.2⟩
  cases hfollows with
  | ok a alike => exact .ok a ⟨alike.printed, hdown alike.scopes⟩
  | error e alike => exact .error e ⟨alike.printed, hdown alike.scopes⟩
  | escape escapes =>
      obtain ⟨fault, -, hescapes⟩ := escapes
      exact hescapes.elim

/-- A call that counts itself follows the call that is handed the depth. -/
theorem simulates_countedCall {d : Nat} {evalBody : Bodies (Counted σ)}
    (hbody : d < maxCallDepth → ∀ program scope node,
      Simulates (counter σ (d + 1)) (evalBody program scope node)
        (evalNode (callAt (maxCallDepth - (d + 1))) program scope node))
    (closure : Closure) (values : List Value) (span : Span) :
    Simulates (counter σ d) (countedCall evalBody closure values span)
      (callAt (maxCallDepth - d) closure values span) := by
  obtain ⟨program, definition, scope⟩ := closure
  cases definition with
  | function _ name parameters body =>
      simp only [countedCall]
      refine simulates_countedDepth ?_
      by_cases hdepth : maxCallDepth ≤ d
      · rw [if_pos hdepth, Nat.sub_eq_zero_of_le hdepth, callAt]
        exact .keeping values (.fail ..)
      · have hless : maxCallDepth - d = maxCallDepth - (d + 1) + 1 := by omega
        rw [if_neg hdepth, hless, callAt]
        simp only [stacked_eq]
        refine .bind (.newScope _) fun frame => .ensuring ((counter σ d).drop frame) ?_
        refine .bind (.bindParameters name frame parameters values) fun surplus => ?_
        refine .ensuring Simulates.dropValues (.within _ (simulates_counted ?_))
        exact hbody (Nat.lt_of_not_le hdepth) program frame body
  | _ =>
      rw [callAt]
      exact .keeping values (.fail ..)

/-- As many turns as there are calls allowed, and one for the job itself,
are enough, whatever stands below. -/
theorem simulates_countedStep {d : Nat}
    (seed : Job × World (Counted σ) → Outcome (Counted σ) (Option Value)) (m : Nat)
    (hm : maxCallDepth - d < m) (job : Job) :
    Simulates (counter σ d) (fun w => cutOff countedStep seed m (job, w))
      (evalTask (job.at d)) := by
  induction m generalizing d job with
  | zero => exact absurd hm (Nat.not_lt_zero _)
  | succ m ih =>
      have hbody (hd : d < maxCallDepth) (program : Nat) (scope : ScopeId) (node : Node) :
          Simulates (counter σ (d + 1))
            (fun w => cutOff countedStep seed m (⟨program, scope, node⟩, w))
            (evalNode (callAt (maxCallDepth - (d + 1))) program scope node) :=
        ih (by omega) ⟨program, scope, node⟩
      have hturn : Simulates (counter σ d)
          (evalNode (countedCall fun program scope node w =>
            cutOff countedStep seed m (⟨program, scope, node⟩, w)) job.program job.scope job.node)
          (evalNode (callAt (maxCallDepth - d)) job.program job.scope job.node) :=
        Simulates.evalNode (simulates_countedCall hbody) job.node
      exact hturn

/-- The world, with the counter at a depth. -/
def counting (d : Nat) (w : World σ) : World (Counted σ) := ⟨⟨w.scopes, d⟩, w.printed⟩

/-- The world without the counter. -/
def uncounted (w : World (Counted σ)) : World σ := ⟨w.scopes.scopes, w.printed⟩

/-- The outcome, with the counter at a depth. -/
def countedAt (d : Nat) : Outcome σ α → Outcome (Counted σ) α
  | .ok a w => .ok a (counting d w)
  | .error e w => .error e (counting d w)

/-- Only one outcome follows another with the counter at a depth. -/
theorem eq_countedAt {d : Nat} {r : Outcome (Counted σ) α} {r' : Outcome σ α}
    (h : Follows (counter σ d) r r') : r = countedAt d r' := by
  have hworld {w : World (Counted σ)} {v : World σ} (alike : Alike (counter σ d) w v) :
      w = counting d v := by
    obtain ⟨⟨scopes, depth⟩, printed⟩ := w
    obtain ⟨hprinted, hscopes, hdepth⟩ := alike
    cases hprinted
    cases hscopes
    cases hdepth
    rfl
  cases h with
  | ok a alike => rw [hworld alike]; rfl
  | error e alike => rw [hworld alike]; rfl
  | escape escapes =>
      obtain ⟨fault, -, hescapes⟩ := escapes
      exact hescapes.elim

/-- The machine returns what the evaluator returns, with the counter where
it was. -/
theorem returns_countedStep (job : Job) (d : Nat) (w : World σ) :
    Returns countedStep (job, counting d w) (countedAt d (evalTask (job.at d) w)) := by
  refine ⟨maxCallDepth - d + 1, fun m hm seed => eq_countedAt ?_⟩
  exact (simulates_countedStep seed m hm job).follows _ _ ⟨rfl, rfl, rfl⟩

-- ================================================================= contexts

/-- Nothing is asked of scopes and values. -/
def lawless (σ : Type) [Scopes σ] : Discipline σ Unit where
  Grows _ _ := True
  Holds _ _ := True
  Fits _ _ := True
  Placed _ _ := True
  Allows _ _ _ := True
  Framed _ _ _ := True
  refl _ := trivial
  trans _ _ := trivial
  fits_grows _ _ := trivial
  placed_grows _ _ := trivial
  allows_grows _ _ := trivial
  framed_grows _ _ := trivial
  hold _ _ := trivial
  drop _ _ := trivial
  declare _ _ _ := trivial
  assign _ _ _ _ := trivial
  lookup _ _ _ := ⟨trivial, fun _ => trivial⟩
  fits_plain _ _ := trivial
  child _ _ _ := trivial
  declaration _ _ := trivial
  function _ _ := ⟨trivial, trivial⟩
  body _ _ _ := trivial
  parameter _ _ _ := trivial

/-- The error has come out of so many calls at most. If there was no call
left to make it has come out of all of them. -/
def OutOfCalls (n : Nat) (e : Error) : Prop :=
  ∃ (fault : RuntimeFault) (names : List String), e.fault = .runtime fault
    ∧ e.contexts = names.map .callOf ∧ names.length ≤ n ∧ (fault = .tooDeep → names.length = n)

/-- An error that has just come up has come out of no call. -/
theorem outOfCalls_errorAt {fault : RuntimeFault} (h : fault ≠ .tooDeep) (n : Nat) (span : Span) :
    OutOfCalls n (errorAt fault span) :=
  ⟨fault, [], rfl, rfl, Nat.zero_le n, fun hfault => absurd hfault h⟩

/-- Errors of a task have come out of the calls that are allowed there. -/
def outOfCalls (σ : Type) [Scopes σ] : Blame (lawless σ) where
  Expects t e := OutOfCalls (maxCallDepth - t.depth) e
  raised {_ t _} _ h := by
    cases h with
    | tooDeep _ hdepth =>
        have hnone : maxCallDepth - t.depth = 0 := Nat.sub_eq_zero_of_le hdepth
        exact ⟨.tooDeep, [], rfl, rfl, Nat.zero_le _, fun _ => hnone.symm⟩
    | @unbound _ _ name _ _ _ _ _ _ _ _ hdepth _ hfails =>
        have hsome : 1 ≤ maxCallDepth - t.depth := Nat.sub_pos_of_lt hdepth
        refine (Only.bindParameters (E := OutOfCalls (maxCallDepth - t.depth)) _ _ ?_ ?_).of_eq_error
          hfails
        · exact fun p _ _ fault _ => ⟨.scope fault, [name], rfl, rfl, hsome, nofun⟩
        · exact fun p _ _ _ fault _ _ => outOfCalls_errorAt (by simp) _ p.span
    | operated _ hfault =>
        refine outOfCalls_errorAt ?_ _ _
        rcases Value.fault_of_combine hfault with ⟨kind, rfl⟩ | rfl <;> exact nofun
    | _ =>
        refine outOfCalls_errorAt ?_ _ _
        exact nofun
  child _ _ h := h
  body {_ t _ _ _ name _} _ hdepth h := by
    obtain ⟨fault, names, hfault, hcontexts, hlength, hdeep⟩ := h
    have hless : maxCallDepth - t.depth = maxCallDepth - (t.depth + 1) + 1 := by omega
    refine ⟨fault, name :: names, hfault, congrArg (_ :: ·) hcontexts, ?_, fun h => ?_⟩
    · rw [hless]
      exact Nat.succ_le_succ hlength
    · rw [hless]
      exact congrArg (· + 1) (hdeep h)

theorem outOfCalls_of_evalTask {t : Task} {w w' : World σ} {e : Error}
    (h : evalTask t w = .error e w') : OutOfCalls (maxCallDepth - t.depth) e := by
  have hcreates : (lawless σ).Creates := fun _ _ _ => ⟨(), trivial, trivial, trivial⟩
  have hfaults := fails_evalTask (outOfCalls σ) hcreates t (i := ()) trivial () w trivial trivial
  rw [h] at hfaults
  exact hfaults

end Eval

/-- No other fault of a running program is reported in the words for too
many calls. -/
theorem RuntimeFault.eq_tooDeep_of_message {fault : RuntimeFault}
    (h : fault.message = RuntimeFault.tooDeep.message) : fault = .tooDeep := by
  by_contra hne
  refine message_ne ?_ h
  cases fault with
  | tooDeep => exact absurd rfl hne
  | scope fault | parameterLost fault => cases fault <;> simp only [lead] <;> decide +kernel
  | _ =>
      simp only [lead]
      decide +kernel

-- ================================================================== results

open Eval

/-- The messages of an error that has come out of calls. -/
theorem chain_of_outOfCalls {n : Nat} {e : Error} (h : OutOfCalls n e) :
    ∃ (names : List String) (innermost : String),
      e.chain = names.map (fun name => "in call to " ++ ticked name) ++ [innermost]
      ∧ names.length ≤ n ∧ (innermost = RuntimeFault.tooDeep.message → names.length = n) := by
  obtain ⟨fault, names, hfault, hcontexts, hlength, hdeep⟩ := h
  refine ⟨names, fault.message, ?_, hlength, fun h => ?_⟩
  · rw [Error.chain_eq, hfault, hcontexts, List.map_map]
    rfl
  · exact hdeep (RuntimeFault.eq_tooDeep_of_message h)

/-- Whatever the counter is at, every job is done as with so many calls
under way and the counter comes back, also if the job fails. An error has
then come out of no more calls than were allowed, out of exactly that many
if there was none left to make; and the machine does every other job in the
scopes that the error left behind with as many calls allowed as before. -/
theorem call_depth_is_restored {σ : Type} [Scopes σ] (d : Nat) (job : Job) (w : World σ) :
    ∃ outcome, Returns countedStep (job, counting d w) outcome
      ∧ outcome = countedAt d (evalTask (job.at d) w)
      ∧ (after outcome).scopes.depth = d
      ∧ ∀ e w', outcome = .error e w' →
          (∃ (names : List String) (innermost : String),
            e.chain = names.map (fun name => "in call to " ++ ticked name) ++ [innermost]
            ∧ names.length ≤ maxCallDepth - d
            ∧ (innermost = RuntimeFault.tooDeep.message → names.length = maxCallDepth - d))
          ∧ ∀ next : Job,
              Returns countedStep (next, w')
                (countedAt d (evalTask (next.at d) (uncounted w'))) := by
  refine ⟨_, returns_countedStep job d w, rfl, ?_, fun e w' houtcome => ?_⟩
  · cases evalTask (job.at d) w <;> rfl
  · cases htask : evalTask (job.at d) w with
    | ok a v =>
        rw [htask] at houtcome
        cases houtcome
    | error e' v =>
        rw [htask] at houtcome
        cases houtcome
        refine ⟨chain_of_outOfCalls (outOfCalls_of_evalTask htask), fun next => ?_⟩
        exact returns_countedStep next d v

/-- Without an end of its own, a program that has two calls left comes out
of both. -/
example :
    let job : Job := ⟨0, 0, endless⟩
    ((failure? (evalTask (job.at 9998) (startOf endless).2)).map Error.chain)
      = some ["in call to `f`", "in call to `f`", "maximum call depth of 10000 exceeded"] := by
  decide +kernel

end ScopedScript
