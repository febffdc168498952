/-
Two stores, one evaluator.

The evaluator knows a store only by its operations, so what it does over
one store it does over every other store whose operations answer alike. A
`Simulation` says what "alike" means: a relation between the states of the
two stores that every operation keeps, and the faults that the first store
may report on its own. This file carries a simulation of the operations up
to a simulation of whole evaluations, level by level.

# What a simulation promises

Related runs print the same, yield the same and fail with the same error,
until the first store reports a fault of its own (`Follows`). From then on
the two have nothing to do with each other; all that is left to say is
that the first has printed no more than the second ends up with. For that
the second run must never take back what it printed, so `Simulates` says
that too.
-/
import ScopedScript.Proofs.Recursion

namespace ScopedScript

variable {σ τ : Type} {α β : Type}

-- ============================================================ simulations

/-- What an operation answers over one store, given what it answers over
the other: the same, or a fault that escapes. -/
def Answered (Related : σ → τ → Prop) (Escapes : ScopeFault → Prop)
    (r : Except ScopeFault α × σ) (r' : Except ScopeFault α × τ) : Prop :=
  r.1 = r'.1 ∧ Related r.2 r'.2 ∨ ∃ fault, r.1 = .error fault ∧ Escapes fault

/-- A relation between two stores that all operations keep, up to faults
that only the first one reports. -/
structure Simulation (σ τ : Type) [Scopes σ] [Scopes τ] where
  Related : σ → τ → Prop
  Escapes : ScopeFault → Prop
  create : ∀ {s : σ} {s' : τ} (parent : Option ScopeId), Related s s' →
    (Scopes.create parent s).1 = (Scopes.create parent s').1 ∧
      Related (Scopes.create parent s).2 (Scopes.create parent s').2
  hold : ∀ {s : σ} {s' : τ} (scope : ScopeId), Related s s' →
    Related (Scopes.hold scope s) (Scopes.hold scope s')
  drop : ∀ {s : σ} {s' : τ} (scope : ScopeId), Related s s' →
    Related (Scopes.drop scope s) (Scopes.drop scope s')
  declare : ∀ {s : σ} {s' : τ} (scope : ScopeId) (name : String) (value : Value),
    Related s s' → Answered Related Escapes (Scopes.declare scope name value s)
      (Scopes.declare scope name value s')
  assign : ∀ {s : σ} {s' : τ} (scope : ScopeId) (name : String) (value : Value),
    Related s s' → Answered Related Escapes (Scopes.assign scope name value s)
      (Scopes.assign scope name value s')
  lookup : ∀ {s : σ} {s' : τ} (scope : ScopeId) (name : String),
    Related s s' → Answered Related Escapes (Scopes.lookup scope name s)
      (Scopes.lookup scope name s')

namespace Eval

/-- The world that a step leaves behind. -/
def after : Outcome σ α → World σ
  | .ok _ w => w
  | .error _ w => w

variable [Scopes σ] [Scopes τ] (S : Simulation σ τ)

/-- Worlds that have printed the same over related stores. -/
structure Alike (w : World σ) (v : World τ) : Prop where
  printed : w.printed = v.printed
  scopes : S.Related w.scopes v.scopes

/-- An error whose fault only the first store reports. -/
def EscapesWith (e : Error) : Prop :=
  ∃ fault, e.fault.scope? = some fault ∧ S.Escapes fault

/-- What came of a step over the first store, given what came of it over
the second. -/
inductive Follows : Outcome σ α → Outcome τ α → Prop
  | ok {w v} (a : α) (alike : Alike S w v) : Follows (.ok a w) (.ok a v)
  | error {w v} (e : Error) (alike : Alike S w v) : Follows (.error e w) (.error e v)
  | escape {w r} {e : Error} (escapes : EscapesWith S e)
      (printed : w.printed.toList <+: (after r).printed.toList) :
      Follows (.error e w) r

/-- The step over the first store follows the step over the second. If there
is a fault to escape with, the second takes nothing back. -/
structure Simulates (m : Eval σ α) (n : Eval τ α) : Prop where
  grows : (∃ fault, S.Escapes fault) → ∀ v, v.printed.toList <+: (after (n v)).printed.toList
  follows : ∀ w v, Alike S w v → Follows S (m w) (n v)

-- ================================================================= steps

namespace Simulates

variable {S}

theorem pure (a : α) : Simulates S (Pure.pure a) (Pure.pure a) where
  grows _ _ := List.prefix_rfl
  follows _ _ alike := .ok a alike

theorem fail (fault : RuntimeFault) (span : Span) :
    Simulates S (Eval.fail (α := α) fault span) (Eval.fail fault span) where
  grows _ _ := List.prefix_rfl
  follows _ _ alike := .error _ alike

/-- If the first store fails on its own in the first step, all that counts is
that the second run takes nothing back afterwards. -/
theorem bind {m : Eval σ α} {n : Eval τ α} {f : α → Eval σ β} {g : α → Eval τ β}
    (hm : Simulates S m n) (hf : ∀ a, Simulates S (f a) (g a)) :
    Simulates S (m >>= f) (n >>= g) := by
  have hstep (hescape : ∃ fault, S.Escapes fault) (v : World τ) :
      (after (n v)).printed.toList <+: (after ((n >>= g) v)).printed.toList := by
    show _ <+: (after (EStateM.bind n g v)).printed.toList
    unfold EStateM.bind
    cases n v with
    | ok a v' => exact (hf a).grows hescape v'
    | error e v' => exact List.prefix_rfl
  refine ⟨fun hescape v => (hm.grows hescape v).trans (hstep hescape v), fun w v alike => ?_⟩
  have hfollows := hm.follows w v alike
  have hprinted (hescape : ∃ fault, S.Escapes fault) := hstep hescape v
  revert hfollows hprinted
  show Follows S (m w) (n v) → (_ → _ <+: (after (EStateM.bind n g v)).printed.toList) →
    Follows S (EStateM.bind m f w) (EStateM.bind n g v)
  unfold EStateM.bind
  generalize m w = r, n v = r'
  intro hfollows hprinted
  cases hfollows with
  | ok a alike => exact (hf a).follows _ _ alike
  | error e alike => exact .error e alike
  | escape escapes printed =>
      obtain ⟨fault, -, hescapes⟩ := id escapes
      exact .escape escapes (printed.trans (hprinted ⟨fault, hescapes⟩))

/-- What is done to the outcome of a step may change the scopes and the
error, but not what was printed. -/
theorem finish {m : Eval σ α} {n : Eval τ α} {f : Outcome σ α → Outcome σ α}
    {g : Outcome τ α → Outcome τ α} (hm : Simulates S m n)
    (hprinted : ∀ r, (after (g r)).printed = (after r).printed)
    (hfollows : ∀ {r r'}, Follows S r r' → Follows S (f r) (g r')) :
    Simulates S (Eval.finish f m) (Eval.finish g n) := by
  refine ⟨fun hescape v => ?_, fun w v alike => hfollows (hm.follows w v alike)⟩
  show _ <+: (after (g (n v))).printed.toList
  rw [hprinted]
  exact hm.grows hescape v

theorem change {f : σ → σ} {g : τ → τ}
    (h : ∀ {s s'}, S.Related s s' → S.Related (f s) (g s')) :
    Simulates S (Eval.change f) (Eval.change g) where
  grows _ _ := List.prefix_rfl
  follows _ _ alike := .ok () ⟨alike.printed, h alike.scopes⟩

/-- An operation that answers alike. A fault of the first store alone escapes,
and the second store has printed nothing by then that the first has not. -/
theorem onScopes (span : Span) {f : σ → Except ScopeFault α × σ}
    {g : τ → Except ScopeFault α × τ} {report : ScopeFault → RuntimeFault} [Reports report]
    (h : ∀ {s s'}, S.Related s s' → Answered S.Related S.Escapes (f s) (g s')) :
    Simulates S (Eval.onScopesAs report span f) (Eval.onScopesAs report span g) := by
  have hgrows (v : World τ) :
      v.printed.toList <+: (after (Eval.onScopesAs report span g v)).printed.toList := by
    obtain ⟨scopes, printed⟩ := v
    simp only [Eval.onScopesAs]
    obtain ⟨answer | fault, scopes'⟩ := g scopes <;> exact List.prefix_rfl
  refine ⟨fun _ v => hgrows v, fun w v alike => ?_⟩
  have hprinted := hgrows v
  obtain ⟨scopes, printed⟩ := w
  obtain ⟨scopes', printed'⟩ := v
  obtain ⟨rfl, hrelated⟩ := alike
  revert hprinted
  simp only [Eval.onScopesAs]
  rcases h hrelated with ⟨hanswer, hnext⟩ | ⟨fault, hfault, hescapes⟩
  · -- both stores answer the same
    revert hanswer hnext
    generalize f scopes = r, g scopes' = r'
    obtain ⟨answer, s⟩ := r
    obtain ⟨answer', s'⟩ := r'
    intro hanswer hnext _
    subst hanswer
    cases answer with
    | ok a => exact .ok a ⟨rfl, hnext⟩
    | error fault => exact .error _ ⟨rfl, hnext⟩
  · -- the first store fails on its own
    revert hfault
    generalize f scopes = r
    obtain ⟨answer, s⟩ := r
    intro hfault hprinted
    subst hfault
    exact .escape ⟨fault, Reports.scope?_eq fault, hescapes⟩ hprinted

/-- What is done to the scopes at the end keeps them related, after failures
as well. -/
theorem ensuring {m : Eval σ α} {n : Eval τ α} {f : σ → σ} {g : τ → τ}
    (h : ∀ {s s'}, S.Related s s' → S.Related (f s) (g s')) (hm : Simulates S m n) :
    Simulates S (Eval.ensuring f m) (Eval.ensuring g n) := by
  have hprinted (r : Outcome τ α) : (after (ensured g r)).printed = (after r).printed := by
    cases r <;> rfl
  rw [ensuring_eq_finish, ensuring_eq_finish]
  refine finish hm hprinted fun {r r'} hfollows => ?_
  cases hfollows with
  | ok a alike => exact .ok a ⟨alike.printed, h alike.scopes⟩
  | error e alike => exact .error e ⟨alike.printed, h alike.scopes⟩
  | escape escapes printed => exact .escape escapes (by rw [hprinted]; exact printed)

theorem dropValues {values : List Value} {s : σ} {s' : τ} (h : S.Related s s') :
    S.Related (Scopes.dropValues values s) (Scopes.dropValues values s') := by
  unfold Scopes.dropValues
  induction values generalizing s s' with
  | nil => exact h
  | cons value values ih =>
      refine ih ?_
      show S.Related (Scopes.dropValue value s) (Scopes.dropValue value s')
      unfold Scopes.dropValue
      cases value.scope? with
      | none => exact h
      | some scope => exact S.drop scope h

theorem holdValue {value : Value} {s : σ} {s' : τ} (h : S.Related s s') :
    S.Related (Scopes.holdValue value s) (Scopes.holdValue value s') := by
  unfold Scopes.holdValue
  cases value.scope? with
  | none => exact h
  | some scope => exact S.hold scope h

/-- Values are kept on both sides, and are let go of on both sides if the step
fails. -/
theorem keeping {m : Eval σ α} {n : Eval τ α} (values : List Value)
    (hm : Simulates S m n) :
    Simulates S (Eval.keeping values m) (Eval.keeping values n) := by
  have hprinted (r : Outcome τ α) : (after (kept values r)).printed = (after r).printed := by
    cases r <;> rfl
  rw [keeping_eq_finish, keeping_eq_finish]
  refine finish hm hprinted fun {r r'} hfollows => ?_
  cases hfollows with
  | ok a alike => exact .ok a alike
  | error e alike => exact .error e ⟨alike.printed, dropValues alike.scopes⟩
  | escape escapes printed => exact .escape escapes (by rw [hprinted]; exact printed)

/-- Contexts leave the fault alone, so what escapes goes on escaping. -/
theorem within {m : Eval σ α} {n : Eval τ α} (context : Context)
    (hm : Simulates S m n) :
    Simulates S (Eval.within context m) (Eval.within context n) := by
  have hprinted (r : Outcome τ α) : (after (inContext context r)).printed = (after r).printed := by
    cases r <;> rfl
  rw [within_eq_finish, within_eq_finish]
  refine finish hm hprinted fun {r r'} hfollows => ?_
  cases hfollows with
  | ok a alike => exact .ok a alike
  | error e alike => exact .error _ alike
  | escape escapes printed => exact .escape escapes (by rw [hprinted]; exact printed)

theorem newScope (parent : Option ScopeId) :
    Simulates S (Eval.newScope parent) (Eval.newScope parent) := by
  refine ⟨fun _ v => List.prefix_rfl, fun w v alike => ?_⟩
  obtain ⟨hscope, hrelated⟩ := S.create parent alike.scopes
  show Follows S (.ok (Scopes.create parent w.scopes).1 _)
    (.ok (Scopes.create parent v.scopes).1 _)
  rw [hscope]
  exact .ok _ ⟨alike.printed, hrelated⟩

-- ============================================================= constructs

theorem discard (result : Option Value) :
    Simulates S (Eval.discard result) (Eval.discard result) :=
  change dropValues

theorem demand (node : Node) (result : Option Value) :
    Simulates S (Eval.demand node result) (Eval.demand node result) := by
  cases result with
  | none => exact fail ..
  | some value => exact pure value

theorem assignTo (scope : ScopeId) (target : Node) (value : Value) :
    Simulates S (Eval.assignTo scope target value) (Eval.assignTo scope target value) := by
  cases target with
  | reference span name =>
      refine bind (change holdValue) fun _ => ?_
      exact bind (keeping _ (onScopes span (S.assign scope name value))) fun _ => pure _
  | _ => exact keeping _ (fail ..)

theorem operate (span : Span) (operator : Operator) (left right : Value) :
    Simulates S (Eval.operate span operator left right)
      (Eval.operate span operator left right) := by
  refine bind (change dropValues) fun _ => ?_
  cases left.combine operator right with
  | ok value => exact pure _
  | error fault => exact fail ..

theorem defineAs (program : Nat) (scope : ScopeId) (span : Span) (name : String)
    (definition : Node) :
    Simulates S (Eval.defineAs program scope span name definition)
      (Eval.defineAs program scope span name definition) := by
  refine bind (change holdValue) fun _ => ?_
  refine bind (keeping _ ?_) fun _ => pure _
  refine bind (onScopes span (S.declare scope name .unknown)) fun _ => ?_
  exact bind (change holdValue) fun _ => onScopes span (S.assign scope name _)

/-- Printing adds the same to what was printed. -/
theorem callNative (span : Span) (name : String) (values : List Value) :
    Simulates S (Eval.callNative span name values) (Eval.callNative span name values) := by
  rw [callNative_eq, callNative_eq]
  by_cases hname : name = "print"
  · rw [if_pos hname, if_pos hname]
    refine ⟨fun _ v => ?_, fun w v alike => ?_⟩
    · show _ <+: (v.printed.push _).toList
      rw [Array.toList_push]
      exact List.prefix_append ..
    · refine .ok none ⟨?_, alike.scopes⟩
      show w.printed.push _ = v.printed.push _
      rw [alike.printed]
  · rw [if_neg hname, if_neg hname]
    exact fail ..

theorem callValue {call : Caller σ} {call' : Caller τ}
    (hcall : ∀ closure values span,
      Simulates S (call closure values span) (call' closure values span))
    (span calleeSpan : Span) (target : Option Value) (values : List Value) :
    Simulates S (Eval.callValue call span calleeSpan target values)
      (Eval.callValue call' span calleeSpan target values) := by
  cases target with
  | none => exact keeping _ (fail ..)
  | some value =>
      cases value with
      | native name => exact ensuring dropValues (callNative span name values)
      | function closure => exact ensuring (S.drop closure.scope) (hcall closure values span)
      | _ => exact keeping _ (fail ..)

theorem bindParameters (function : String) (frame : ScopeId)
    (parameters : List Parameter) (values : List Value) :
    Simulates S (Eval.bindParameters function frame parameters values)
      (Eval.bindParameters function frame parameters values) := by
  induction parameters generalizing values with
  | nil => exact pure values
  | cons parameter rest ih =>
      unfold Eval.bindParameters
      refine bind (within _ (keeping _ (onScopes _ (S.declare frame _ _)))) fun _ => ?_
      cases values with
      | nil => exact ih []
      | cons value values =>
          exact bind (keeping _ (onScopes _ (S.assign frame _ value))) fun _ => ih values

-- ================================================================= levels

variable {h : Handler σ} {h' : Handler τ} {t : Task}

section Level

variable
  (heval : ∀ u, u.Inside t → Simulates S (h.eval u) (h'.eval u))
  (henter : ∀ closure, Simulates S (h.enter closure) (h'.enter closure))

include heval

/-- Statements one after the other. -/
theorem levelAll (i : Nat) {body : List Node} (hbody : body ⊆ t.node.children) :
    Simulates S (Eval.levelAll h t i body) (Eval.levelAll h' t i body) := by
  induction body generalizing i with
  | nil => exact pure none
  | cons statement rest ih =>
      obtain ⟨hstatement, hrest⟩ := List.cons_subset.1 hbody
      refine bind (heval _ (Task.child_inside hstatement)) fun result => ?_
      exact bind (discard result) fun _ => ih (i + 1) hrest

theorem levelBlock (i : Nat) {body : List Node} (hbody : body ⊆ t.node.children) :
    Simulates S (Eval.levelBlock h t i body) (Eval.levelBlock h' t i body) := by
  induction body generalizing i with
  | nil => exact pure none
  | cons statement rest ih =>
      obtain ⟨hstatement, hrest⟩ := List.cons_subset.1 hbody
      have hfirst := heval _ (Task.child_inside (i := i) hstatement)
      unfold Eval.levelBlock
      by_cases hreturn : isReturn statement = true
      · rw [if_pos hreturn, if_pos hreturn]
        exact hfirst
      · rw [if_neg hreturn, if_neg hreturn]
        refine bind hfirst fun result => ?_
        exact bind (discard result) fun _ => ih (i + 1) hrest

theorem levelArguments (i : Nat) (done : List Value) {arguments : List Node}
    (harguments : arguments ⊆ t.node.children) :
    Simulates S (Eval.levelArguments h t i done arguments)
      (Eval.levelArguments h' t i done arguments) := by
  induction arguments generalizing i done with
  | nil => exact pure _
  | cons argument rest ih =>
      obtain ⟨hargument, hrest⟩ := List.cons_subset.1 harguments
      refine bind (keeping done ?_) fun value => ih (i + 1) (value :: done) hrest
      exact bind (heval _ (Task.child_inside hargument)) fun result => demand argument result

include henter

/-- A call runs its body one call further down, which is a task inside. -/
theorem levelCall (closure : Closure) (values : List Value) (span : Span) :
    Simulates S (Eval.levelCall h t closure values span)
      (Eval.levelCall h' t closure values span) := by
  obtain ⟨program, definition, scope⟩ := closure
  cases definition with
  | function _ name parameters body =>
      simp only [Eval.levelCall]
      by_cases hdepth : maxCallDepth ≤ t.depth
      · rw [if_pos hdepth, if_pos hdepth]
        exact keeping values (fail ..)
      · rw [if_neg hdepth, if_neg hdepth]
        refine bind (henter _) fun frame => ?_
        refine ensuring (S.drop frame) ?_
        refine bind (bindParameters name frame parameters values) fun surplus => ?_
        refine ensuring dropValues (within _ ?_)
        exact heval _ (Task.body_inside (by omega))
  | _ => exact keeping values (fail ..)

/-- A level follows a level if the tasks inside do. -/
theorem level : Simulates S (Eval.level h t) (Eval.level h' t) := by
  obtain ⟨depth, program, scope, path, node⟩ := t
  unfold Eval.level
  cases node with
  | root _ body => exact levelAll heval 0 (List.Subset.refl _)
  | block _ body => exact levelBlock heval 0 (List.Subset.refl _)
  | declaration span name =>
      exact bind (onScopes span (S.declare scope name .unknown)) fun _ => pure none
  | assignment _ target value =>
      refine bind (heval _ (Task.child_inside (by simp [Node.children]))) fun result => ?_
      exact bind (demand value result) fun result => assignTo scope target result
  | reference span name =>
      exact bind (onScopes span (S.lookup scope name)) fun value => pure (some value)
  | number _ value => exact pure _
  | string _ value => exact pure _
  | boolean _ value => exact pure _
  | binary span operator left right =>
      refine bind (heval _ (Task.child_inside (by simp [Node.children]))) fun result => ?_
      refine bind (demand left result) fun first => ?_
      refine bind (keeping [first] ?_) fun second => operate span operator first second
      refine bind (heval _ (Task.child_inside (by simp [Node.children]))) fun result => ?_
      exact demand right result
  | parenthesized _ inner => exact heval _ (Task.child_inside (by simp [Node.children]))
  | readProperty span object property =>
      refine bind (heval _ (Task.child_inside (by simp [Node.children]))) fun result => ?_
      exact bind (demand object result) fun value => keeping [value] (fail ..)
  | call span callee arguments =>
      refine bind (heval _ (Task.child_inside (by simp [Node.children]))) fun target => ?_
      refine bind (keeping _ (levelArguments heval 1 [] ?_)) fun values => ?_
      · exact List.subset_cons_self ..
      · exact callValue (levelCall heval henter) span callee.span target values
  | function span name parameters body => exact defineAs ..
  | ret _ value =>
      cases value with
      | none => exact pure none
      | some value => exact heval _ (Task.child_inside (by simp [Node.children]))

end Level

/-- Evaluation over one store follows evaluation over the other. -/
theorem evalTask (S : Simulation σ τ) (t : Task) :
    Simulates S (Eval.evalTask t) (Eval.evalTask t) := by
  induction t using Task.induction with
  | ih t ih =>
      rw [evalTask_eq_level, evalTask_eq_level]
      exact level ih fun closure => newScope (some closure.scope)

end Simulates

-- ================================================================ sameness

/-- A store follows itself. -/
def itself (σ : Type) [Scopes σ] : Simulation σ σ where
  Related := Eq
  Escapes _ := False
  create parent h := by rw [h]; exact ⟨rfl, rfl⟩
  hold scope h := by rw [h]
  drop scope h := by rw [h]
  declare scope name value h := by rw [h]; exact .inl ⟨rfl, rfl⟩
  assign scope name value h := by rw [h]; exact .inl ⟨rfl, rfl⟩
  lookup scope name h := by rw [h]; exact .inl ⟨rfl, rfl⟩

theorem Alike.eq {w v : World σ} (h : Alike (itself σ) w v) : w = v := by
  obtain ⟨scopes, printed⟩ := w
  obtain ⟨hprinted, hscopes⟩ := h
  cases hprinted
  cases hscopes
  rfl

/-- To follow a step over the same store is to be that step. -/
theorem simulates_itself_iff {m n : Eval σ α} : Simulates (itself σ) m n ↔ m = n := by
  constructor
  · intro h
    funext w
    have hfollows := h.follows w w ⟨rfl, rfl⟩
    generalize m w = r, n w = r' at hfollows
    cases hfollows with
    | ok a alike => rw [alike.eq]
    | error e alike => rw [alike.eq]
    | escape escapes printed =>
        obtain ⟨fault, -, hescapes⟩ := escapes
        exact hescapes.elim
  · intro h
    subst h
    refine ⟨fun hescape => ?_, fun w v alike => ?_⟩
    · obtain ⟨fault, hescapes⟩ := hescape
      exact hescapes.elim
    · rw [alike.eq]
      cases m v with
      | ok a w => exact .ok a ⟨rfl, rfl⟩
      | error e w => exact .error e ⟨rfl, rfl⟩

/-- A level asks for nothing but tasks inside. -/
theorem level_congr {h h' : Handler σ} {t : Task}
    (heval : ∀ u, u.Inside t → h.eval u = h'.eval u)
    (henter : ∀ closure, h.enter closure = h'.enter closure) : level h t = level h' t := by
  refine simulates_itself_iff.1 (Simulates.level ?_ ?_)
  · intro u hu
    exact simulates_itself_iff.2 (heval u hu)
  · intro closure
    exact simulates_itself_iff.2 (henter closure)

-- ================================================================ printing

/-- A store that follows itself and could fail at any time. -/
def faulty (σ : Type) [Scopes σ] : Simulation σ σ where
  Related := Eq
  Escapes _ := True
  create parent h := by rw [h]; exact ⟨rfl, rfl⟩
  hold scope h := by rw [h]
  drop scope h := by rw [h]
  declare scope name value h := by rw [h]; exact .inl ⟨rfl, rfl⟩
  assign scope name value h := by rw [h]; exact .inl ⟨rfl, rfl⟩
  lookup scope name h := by rw [h]; exact .inl ⟨rfl, rfl⟩

/-- Evaluation takes back nothing that has been printed. -/
theorem printed_prefix_evalTask (t : Task) (w : World σ) :
    w.printed.toList <+: (after (evalTask t w)).printed.toList := by
  have hescapes : ∃ fault, (faulty σ).Escapes fault := ⟨.missingClosure "", trivial⟩
  exact (Simulates.evalTask (faulty σ) t).grows hescapes w

-- ================================================================ programs

/-- Programs that start in alike global scopes run alike. -/
theorem Follows.runProgram {s : σ} {s' : τ} (root : Node)
    (hscope : (Scopes.createGlobal s).1 = (Scopes.createGlobal s').1)
    (hrelated : S.Related (Scopes.createGlobal s).2 (Scopes.createGlobal s').2) :
    Follows S (ScopedScript.runProgram root { scopes := s })
      (ScopedScript.runProgram root { scopes := s' }) := by
  show Follows S
    (Eval.evalTask ⟨0, 0, (Scopes.createGlobal s).1, [], root⟩
      { scopes := (Scopes.createGlobal s).2 })
    (Eval.evalTask ⟨0, 0, (Scopes.createGlobal s').1, [], root⟩
      { scopes := (Scopes.createGlobal s').2 })
  rw [hscope]
  exact (Simulates.evalTask S _).follows _ _ ⟨rfl, hrelated⟩

end Eval

end ScopedScript
