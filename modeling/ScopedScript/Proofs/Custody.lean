/-
What the evaluator holds, and that it lets go of it.

The evaluator holds scopes: the scope of every call under way, and the
scopes that the values at hand close over. It says so to the store by
holding and dropping, at places scattered over all constructs, and each
failure has to let go of whatever was at hand when it came up. This file
shows that the accounts are settled on every way out.

# Settling

`Settles` is about a step that is handed some scopes to take care of. What
it was handed it uses up; if it yields something, what that closes over is
held, and if it fails, nothing is. All the while other scopes are held
outside of the step, by the calls around it and by values set aside, and
these it leaves alone: a step settles whatever else is held.

# Custody

What it takes for a store to be in order while some scopes are held from
outside is up to the store. A `Custody` says it, and that the operations
keep it. It may ask for more than that the scope at hand is held
(`Standing`), as long as calls can provide it: the scope of a call is made
while the scope that the callee closes over is held, and it stays held
until the call is over.
-/
import ScopedScript.Proofs.Discipline

namespace ScopedScript

/-- The scopes that values close over, each as often as values do. -/
def closed (values : List Value) : List ScopeId := values.flatMap (·.scope?.toList)

@[simp] theorem closed_nil : closed [] = [] := rfl

@[simp] theorem closed_cons (value : Value) (values : List Value) :
    closed (value :: values) = value.scope?.toList ++ closed values :=
  List.flatMap_cons

/-- When a store is in order, given the scopes that are held from outside,
and that the operations keep it so. -/
structure Custody (σ : Type) [Scopes σ] where
  /-- The store is in order while these scopes are held from outside. -/
  Held : List ScopeId → σ → Prop
  /-- The one store comes before the other. -/
  Evolves : σ → σ → Prop
  /-- Enough is held to evaluate in the scope. -/
  Standing : σ → List ScopeId → ScopeId → Prop
  /-- The store can tell how the fault came about. -/
  Blames : σ → ScopeFault → Prop
  refl : ∀ s, Evolves s s
  trans : ∀ {s s' s''}, Evolves s s' → Evolves s' s'' → Evolves s s''
  perm : ∀ {l l' s}, Held l s → l.Perm l' → Held l' s
  standing_mem : ∀ {s l scope}, Standing s l scope → scope ∈ l
  standing_later : ∀ {s s' l l' scope}, Evolves s s' → l ⊆ l' → Standing s l scope →
    Standing s' l' scope
  -- operations
  create : ∀ {s l outside scope outer}, Held l s → outside ⊆ l → Standing s outside scope →
    outer ∈ outside →
    Held ((Scopes.create (some outer) s).1 :: l) (Scopes.create (some outer) s).2
      ∧ Evolves s (Scopes.create (some outer) s).2
      ∧ Standing (Scopes.create (some outer) s).2 ((Scopes.create (some outer) s).1 :: outside)
          (Scopes.create (some outer) s).1
  hold : ∀ {s l scope}, Held l s → scope ∈ l →
    Held (scope :: l) (Scopes.hold scope s) ∧ Evolves s (Scopes.hold scope s)
  drop : ∀ {s l scope}, Held (scope :: l) s →
    Held l (Scopes.drop scope s) ∧ Evolves s (Scopes.drop scope s)
      ∧ ∀ fault, Blames s fault → Blames (Scopes.drop scope s) fault
  declare : ∀ {s l scope value} (name : String), Held (value.scope?.toList ++ l) s →
    Standing s l scope →
    Held l (Scopes.declare scope name value s).2
      ∧ Evolves s (Scopes.declare scope name value s).2
      ∧ ∀ fault, (Scopes.declare scope name value s).1 = .error fault →
          Blames (Scopes.declare scope name value s).2 fault
  assign : ∀ {s l scope value} (name : String), Held (value.scope?.toList ++ l) s →
    Standing s l scope →
    Held l (Scopes.assign scope name value s).2
      ∧ Evolves s (Scopes.assign scope name value s).2
      ∧ ∀ fault, (Scopes.assign scope name value s).1 = .error fault →
          Blames (Scopes.assign scope name value s).2 fault
  lookup : ∀ {s l scope} (name : String), Held l s → Standing s l scope →
    Evolves s (Scopes.lookup scope name s).2
      ∧ (∀ value, (Scopes.lookup scope name s).1 = .ok value →
          Held (value.scope?.toList ++ l) (Scopes.lookup scope name s).2)
      ∧ ∀ fault, (Scopes.lookup scope name s).1 = .error fault →
          Held l (Scopes.lookup scope name s).2 ∧ Blames (Scopes.lookup scope name s).2 fault

namespace Eval

variable {σ α β : Type} [Scopes σ] (C : Custody σ)

/-- What a step that began with store `s` has come to: it holds what its
result stands for, besides what is held outside of it, and a failed step
holds nothing. -/
def Settled (s : σ) (outside : List ScopeId) (Q : α → List ScopeId) : Outcome σ α → Prop
  | .ok a w => C.Evolves s w.scopes ∧ C.Held (Q a ++ outside) w.scopes
  | .error e w => C.Evolves s w.scopes ∧ C.Held outside w.scopes
      ∧ ∀ fault, e.fault.scope? = some fault → C.Blames w.scopes fault

/-- The step, evaluated in a scope and handed `P`, settles, whatever is
held outside of it. It may count on `A` being held there. -/
def Settles (A : List ScopeId) (scope : ScopeId) (P : List ScopeId) (m : Eval σ α)
    (Q : α → List ScopeId) : Prop :=
  ∀ w outside, C.Standing w.scopes outside scope → A ⊆ outside →
    C.Held (P ++ outside) w.scopes → Settled C w.scopes outside Q (m w)

/-- The change to the store lets go of these scopes. -/
def Releases (l : List ScopeId) (f : σ → σ) : Prop :=
  ∀ s outside, C.Held (l ++ outside) s → C.Held outside (f s) ∧ C.Evolves s (f s)
    ∧ ∀ fault, C.Blames s fault → C.Blames (f s) fault

/-- What a node holds that has been evaluated. -/
def yields (result : Option Value) : List ScopeId := closed result.toList

variable {C}

-- ================================================================ releases

theorem releases_drop (scope : ScopeId) : Releases C [scope] (Scopes.drop scope) :=
  fun _ _ h => C.drop h

theorem releases_dropValue (value : Value) :
    Releases C value.scope?.toList (Scopes.dropValue value) := by
  unfold Scopes.dropValue
  cases value.scope? with
  | none => exact fun s outside h => ⟨h, C.refl s, fun _ hfault => hfault⟩
  | some scope => exact releases_drop scope

theorem releases_dropValues (values : List Value) :
    Releases C (closed values) (Scopes.dropValues values) := by
  unfold Scopes.dropValues
  induction values with
  | nil => exact fun s outside h => ⟨h, C.refl s, fun _ hfault => hfault⟩
  | cons value values ih =>
      intro s outside h
      rw [closed_cons, List.append_assoc] at h
      obtain ⟨hfirst, hevolves, hblames⟩ := releases_dropValue value s _ h
      obtain ⟨hrest, hevolves', hblames'⟩ := ih _ outside hfirst
      refine ⟨hrest, C.trans hevolves hevolves', fun fault hfault => ?_⟩
      exact hblames' fault (hblames fault hfault)

-- ================================================================ outcomes

namespace Settled

variable {s s' : σ} {outside l : List ScopeId} {Q : α → List ScopeId} {r : Outcome σ α}

theorem of_evolves (hevolves : C.Evolves s s') (h : Settled C s' outside Q r) :
    Settled C s outside Q r := by
  cases r with
  | ok a w => exact ⟨C.trans hevolves h.1, h.2⟩
  | error e w => exact ⟨C.trans hevolves h.1, h.2⟩

/-- Faults other than those of the scopes need no blame. -/
theorem failed {w : World σ} {fault : RuntimeFault} (hfault : fault.scope? = none) (span : Span)
    (hheld : C.Held outside w.scopes) :
    Settled C w.scopes outside Q (Eval.fail fault span w) := by
  refine ⟨C.refl w.scopes, hheld, fun f hf => ?_⟩
  rw [show Fault.scope? (.runtime fault) = none from hfault] at hf
  cases hf

/-- What was set aside for the step is let go of when it is over. -/
theorem ensured {f : σ → σ} (hf : Releases C l f) (h : Settled C s (l ++ outside) Q r) :
    Settled C s outside Q (Eval.ensured f r) := by
  cases r with
  | ok a w =>
      obtain ⟨hevolves, hheld⟩ := h
      have hperm : (Q a ++ (l ++ outside)).Perm (l ++ (Q a ++ outside)) := by
        rw [← List.append_assoc, ← List.append_assoc]
        exact List.perm_append_comm.append_right outside
      obtain ⟨hleft, hevolves', -⟩ := hf _ _ (C.perm hheld hperm)
      exact ⟨C.trans hevolves hevolves', hleft⟩
  | error e w =>
      obtain ⟨hevolves, hheld, hblames⟩ := h
      obtain ⟨hleft, hevolves', hblames'⟩ := hf _ _ hheld
      refine ⟨C.trans hevolves hevolves', hleft, fun fault hfault => ?_⟩
      exact hblames' fault (hblames fault hfault)

/-- Values that were kept are let go of if the step failed. -/
theorem kept {values : List Value} (h : Settled C s (closed values ++ outside) Q r) :
    Settled C s outside (fun a => Q a ++ closed values) (Eval.kept values r) := by
  cases r with
  | ok a w =>
      refine ⟨h.1, ?_⟩
      rw [List.append_assoc]
      exact h.2
  | error e w => exact ensured (releases_dropValues values) h

end Settled

-- ================================================================== steps

namespace Settles

variable {A P l : List ScopeId} {scope : ScopeId} {m : Eval σ α}
  {Q : α → List ScopeId} {R : β → List ScopeId}

theorem pure (a : α) : Settles C A scope (Q a) (Pure.pure a) Q :=
  fun w _ _ _ hheld => ⟨C.refl w.scopes, hheld⟩

theorem fail {fault : RuntimeFault} (hfault : fault.scope? = none) (span : Span) :
    Settles C A scope [] (Eval.fail fault span) Q :=
  fun _ _ _ _ hheld => Settled.failed hfault span hheld

theorem bind {n : Eval σ β} {f : β → Eval σ α} (hn : Settles C A scope P n R)
    (hf : ∀ b, Settles C A scope (R b) (f b) Q) :
    Settles C A scope P (n >>= f) Q := by
  intro w outside hstanding haside hheld
  have hfirst := hn w outside hstanding haside hheld
  show Settled C w.scopes outside Q (EStateM.bind n f w)
  unfold EStateM.bind
  generalize n w = r at hfirst
  cases r with
  | ok b w' =>
      obtain ⟨hevolves, hheld'⟩ := hfirst
      have hstanding' := C.standing_later hevolves (List.Subset.refl _) hstanding
      exact (hf b w' outside hstanding' haside hheld').of_evolves hevolves
  | error e w' => exact hfirst

/-- Holds can be written down in any order. -/
theorem perm {P' : List ScopeId} {Q' : α → List ScopeId}
    (hm : Settles C A scope P m Q) (hpre : P'.Perm P)
    (hpost : ∀ a, (Q a).Perm (Q' a)) : Settles C A scope P' m Q' := by
  intro w outside hstanding haside hheld
  have hsettled := hm w outside hstanding haside (C.perm hheld (hpre.append_right outside))
  generalize m w = r at hsettled
  cases r with
  | ok a w' => exact ⟨hsettled.1, C.perm hsettled.2 ((hpost a).append_right outside)⟩
  | error e w' => exact hsettled

theorem change {f : σ → σ} (hf : Releases C l f) :
    Settles C A scope l (Eval.change f) fun _ => [] := by
  intro w outside _ _ hheld
  obtain ⟨hleft, hevolves, -⟩ := hf _ _ hheld
  exact ⟨hevolves, hleft⟩

/-- A value at hand can be held once more. -/
theorem holdValue (value : Value) :
    Settles C A scope value.scope?.toList (Eval.change (Scopes.holdValue value))
      fun _ => value.scope?.toList ++ value.scope?.toList := by
  intro w outside _ _ hheld
  show C.Evolves w.scopes (Scopes.holdValue value w.scopes) ∧ C.Held _ _
  unfold Scopes.holdValue
  cases hscope : value.scope? with
  | none =>
      rw [hscope] at hheld
      exact ⟨C.refl w.scopes, hheld⟩
  | some held =>
      rw [hscope] at hheld
      obtain ⟨hagain, hevolves⟩ := C.hold hheld (List.mem_cons_self ..)
      exact ⟨hevolves, hagain⟩

theorem ensuring {f : σ → σ} (hf : Releases C l f) (hm : Settles C (l ++ A) scope P m Q) :
    Settles C A scope (P ++ l) (Eval.ensuring f m) Q := by
  intro w outside hstanding haside hheld
  rw [ensuring_eq_finish]
  rw [List.append_assoc] at hheld
  refine Settled.ensured hf (hm w (l ++ outside) ?_ ?_ hheld)
  · exact C.standing_later (C.refl _) (List.subset_append_right ..) hstanding
  · exact List.append_subset.2
      ⟨List.subset_append_left .., List.Subset.trans haside (List.subset_append_right ..)⟩

theorem keeping (values : List Value) (hm : Settles C A scope P m Q) :
    Settles C A scope (P ++ closed values) (Eval.keeping values m)
      fun a => Q a ++ closed values := by
  intro w outside hstanding haside hheld
  rw [keeping_eq_finish]
  rw [List.append_assoc] at hheld
  refine Settled.kept (hm w (closed values ++ outside) ?_ ?_ hheld)
  · exact C.standing_later (C.refl _) (List.subset_append_right ..) hstanding
  · exact List.Subset.trans haside (List.subset_append_right ..)

theorem within (context : Context) (hm : Settles C A scope P m Q) :
    Settles C A scope P (Eval.within context m) Q := by
  intro w outside hstanding haside hheld
  have hsettled := hm w outside hstanding haside hheld
  rw [within_eq_finish]
  show Settled C w.scopes outside Q (inContext context (m w))
  generalize m w = r at hsettled
  cases r with
  | ok a w' => exact hsettled
  | error e w' => exact hsettled

-- ============================================================= operations

/-- An operation that takes a value over. -/
theorem onScopes (span : Span) {f : σ → Except ScopeFault Unit × σ}
    {report : ScopeFault → RuntimeFault} [Reports report]
    (hf : ∀ s outside, C.Standing s outside scope → C.Held (P ++ outside) s →
      C.Held outside (f s).2 ∧ C.Evolves s (f s).2
        ∧ ∀ fault, (f s).1 = .error fault → C.Blames (f s).2 fault) :
    Settles C A scope P (Eval.onScopesAs report span f) fun _ => [] := by
  intro w outside hstanding _ hheld
  have hstep := hf w.scopes outside hstanding hheld
  obtain ⟨scopes, printed⟩ := w
  unfold Eval.onScopesAs
  dsimp only at hstep ⊢
  generalize f scopes = r at hstep
  obtain ⟨answer, scopes'⟩ := r
  obtain ⟨hleft, hevolves, hblames⟩ := hstep
  cases answer with
  | ok a => exact ⟨hevolves, hleft⟩
  | error fault =>
      refine ⟨hevolves, hleft, fun f hf => ?_⟩
      rw [Reports.scope?_eq] at hf
      cases hf
      exact hblames _ rfl

theorem declare (span : Span) (name : String) (value : Value) :
    Settles C A scope value.scope?.toList
      (Eval.onScopes span (Scopes.declare scope name value)) fun _ => [] :=
  onScopes span fun _ _ hstanding hheld => C.declare name hheld hstanding

theorem assign (span : Span) (name : String) (value : Value)
    {report : ScopeFault → RuntimeFault} [Reports report] :
    Settles C A scope value.scope?.toList
      (Eval.onScopesAs report span (Scopes.assign scope name value)) fun _ => [] :=
  onScopes span fun _ _ hstanding hheld => C.assign name hheld hstanding

theorem lookup (span : Span) (name : String) :
    Settles C A scope [] (Eval.onScopes span (Scopes.lookup scope name))
      fun value => value.scope?.toList := by
  intro w outside hstanding _ hheld
  have hstep := C.lookup name hheld hstanding
  obtain ⟨scopes, printed⟩ := w
  unfold Eval.onScopes Eval.onScopesAs
  dsimp only at hstep ⊢
  generalize Scopes.lookup scope name scopes = r at hstep
  obtain ⟨answer, scopes'⟩ := r
  obtain ⟨hevolves, hok, herror⟩ := hstep
  cases answer with
  | ok value => exact ⟨hevolves, hok value rfl⟩
  | error fault =>
      obtain ⟨hleft, hblames⟩ := herror fault rfl
      refine ⟨hevolves, hleft, fun f hf => ?_⟩
      cases hf
      exact hblames

-- ============================================================= constructs

theorem discard (result : Option Value) :
    Settles C A scope (yields result) (Eval.discard result) fun _ => [] :=
  change (releases_dropValues _)

theorem demand (node : Node) (result : Option Value) :
    Settles C A scope (yields result) (Eval.demand node result)
      fun value => value.scope?.toList := by
  cases result with
  | none => exact fail rfl _
  | some value =>
      refine (pure value).perm ?_ fun _ => .refl _
      simp [yields]

/-- A failure lets go of the values at hand. -/
theorem keeping_fail (values : List Value) {fault : RuntimeFault} (hfault : fault.scope? = none)
    (span : Span) :
    Settles C A scope (closed values) (Eval.keeping values (Eval.fail fault span)) Q := by
  intro w outside _ _ hheld
  exact (Settled.failed (w := w) hfault span hheld).ensured (releases_dropValues values)

/-- One hold goes with the slot, and the value that is yielded keeps the
other. -/
theorem assignTo (target : Node) (value : Value) :
    Settles C A scope value.scope?.toList (Eval.assignTo scope target value) yields := by
  cases target with
  | reference span name =>
      refine bind (holdValue value) fun _ => ?_
      have hkept : Settles C A scope (value.scope?.toList ++ closed [value])
          (Eval.keeping [value] (Eval.onScopes span (Scopes.assign scope name value))) _ :=
        keeping [value] (assign span name value)
      rw [closed_cons, closed_nil, List.append_nil] at hkept
      refine bind hkept fun _ => ?_
      refine (pure (some value)).perm ?_ fun _ => .refl _
      simp [yields]
  | _ =>
      refine (keeping_fail [value] rfl _).perm ?_ fun _ => .refl _
      simp

/-- Operators do not look at scopes. -/
theorem scope?_of_combine {operator : Operator} {left right : Value} {fault : RuntimeFault}
    (h : left.combine operator right = .error fault) : fault.scope? = none := by
  rcases Value.fault_of_combine h with ⟨kind, rfl⟩ | rfl <;> rfl

theorem operate (span : Span) (operator : Operator) (left right : Value) :
    Settles C A scope (closed [left, right]) (Eval.operate span operator left right)
      yields := by
  refine bind (change (releases_dropValues _)) fun _ => ?_
  cases hvalue : left.combine operator right with
  | error fault => exact fail (scope?_of_combine hvalue) _
  | ok value =>
      refine (pure (some value)).perm ?_ fun _ => .refl _
      simp [yields, Keeps.scope?_combine hvalue]

/-- The scope at hand can be held for a function over it. -/
theorem holdScope (program : Nat) (definition : Node) :
    Settles C A scope []
      (Eval.change (Scopes.holdValue (.function ⟨program, definition, scope⟩)))
      fun _ => [scope] := by
  intro w outside hstanding _ hheld
  obtain ⟨hagain, hevolves⟩ := C.hold hheld (C.standing_mem hstanding)
  exact ⟨hevolves, hagain⟩

/-- A definition is held twice: once for the slot, and once for the value
that it yields. -/
theorem defineAs (program : Nat) (span : Span) (name : String) (definition : Node) :
    Settles C A scope [] (Eval.defineAs program scope span name definition) yields := by
  refine bind (holdScope program definition) fun _ => ?_
  refine bind (R := fun _ => [scope]) ?_ fun _ =>
    pure (Q := yields) (some (Value.function ⟨program, definition, scope⟩))
  refine keeping (P := []) (Q := fun _ => []) [Value.function ⟨program, definition, scope⟩] ?_
  refine bind (declare span name .unknown) fun _ => ?_
  refine bind (holdScope program definition) fun _ => ?_
  exact assign span name (.function ⟨program, definition, scope⟩)

theorem callNative (span : Span) (name : String) (values : List Value) :
    Settles C A scope [] (Eval.callNative span name values) yields := by
  rw [callNative_eq]
  by_cases hname : name = "print"
  · rw [if_pos hname]
    exact fun w _ _ _ hheld => ⟨C.refl w.scopes, hheld⟩
  · rw [if_neg hname]
    exact fail rfl _

/-- The callee is held until the call is over, so that the call can count on
the scope that it closes over. -/
theorem callValue {call : Caller σ} (span calleeSpan : Span) (target : Option Value)
    (values : List Value)
    (hcall : ∀ closure, target = some (.function closure) →
      Settles C (closure.scope :: A) scope (closed values) (call closure values span) yields) :
    Settles C A scope (closed values ++ yields target)
      (Eval.callValue call span calleeSpan target values) yields := by
  cases target with
  | none =>
      refine (keeping_fail values rfl _).perm ?_ fun _ => .refl _
      simp [yields]
  | some value =>
      cases value with
      | native name =>
          refine (ensuring (releases_dropValues values) (callNative span name values)).perm ?_
            fun _ => .refl _
          simp [yields, Value.scope?]
      | function closure =>
          exact ensuring (releases_dropValue (.function closure)) (hcall closure rfl)
      | _ =>
          refine (keeping_fail values rfl _).perm ?_ fun _ => .refl _
          simp [yields, Value.scope?]

/-- Arguments pass into the slots of the frame; those left over stay at
hand. -/
theorem bindParameters (function : String) (parameters : List Parameter) (values : List Value) :
    Settles C A scope (closed values)
      (Eval.bindParameters function scope parameters values) closed := by
  induction parameters generalizing values with
  | nil => exact pure values
  | cons parameter rest ih =>
      unfold Eval.bindParameters
      refine bind (within _ (keeping values (declare parameter.span parameter.name .unknown)))
        fun _ => ?_
      cases values with
      | nil => exact ih []
      | cons value values =>
          rw [closed_cons]
          exact bind (keeping values (assign parameter.span parameter.name value))
            fun _ => ih values

-- ================================================================= levels

theorem closed_reverse (values : List Value) : (closed values.reverse).Perm (closed values) :=
  List.Perm.flatMap_right _ (List.reverse_perm values)

/-- What settles without anything set aside settles in any case. -/
theorem anyhow (hm : Settles C [] scope P m Q) : Settles C A scope P m Q :=
  fun w outside hstanding _ hheld => hm w outside hstanding (List.nil_subset _) hheld

section Level

variable {h : Handler σ} {t : Task}
  (heval : ∀ u, u.Inside t → Settles C [] u.scope [] (h.eval u) yields)
  (henter : ∀ closure, h.enter closure = newScope (some closure.scope))

include heval

theorem child {node : Node} (n : Nat) (hnode : node ∈ t.node.children) :
    Settles C A t.scope [] (h.eval (t.child n node)) yields :=
  (heval _ (Task.child_inside hnode)).anyhow

theorem levelAll (n : Nat) {body : List Node} (hbody : body ⊆ t.node.children) :
    Settles C A t.scope [] (Eval.levelAll h t n body) yields := by
  induction body generalizing n with
  | nil => exact pure (Q := yields) none
  | cons statement rest ih =>
      obtain ⟨hstatement, hrest⟩ := List.cons_subset.1 hbody
      refine bind (child heval n hstatement) fun result => ?_
      exact bind (discard result) fun _ => ih (n + 1) hrest

theorem levelBlock (n : Nat) {body : List Node} (hbody : body ⊆ t.node.children) :
    Settles C A t.scope [] (Eval.levelBlock h t n body) yields := by
  induction body generalizing n with
  | nil => exact pure (Q := yields) none
  | cons statement rest ih =>
      obtain ⟨hstatement, hrest⟩ := List.cons_subset.1 hbody
      unfold Eval.levelBlock
      by_cases hreturn : isReturn statement = true
      · rw [if_pos hreturn]
        exact child heval n hstatement
      · rw [if_neg hreturn]
        refine bind (child heval n hstatement) fun result => ?_
        exact bind (discard result) fun _ => ih (n + 1) hrest

theorem levelArguments (n : Nat) (done : List Value) {arguments : List Node}
    (harguments : arguments ⊆ t.node.children) :
    Settles C A t.scope (closed done) (Eval.levelArguments h t n done arguments) closed := by
  induction arguments generalizing n done with
  | nil => exact (pure (Q := closed) done.reverse).perm (closed_reverse done).symm fun _ => .refl _
  | cons argument rest ih =>
      obtain ⟨hargument, hrest⟩ := List.cons_subset.1 harguments
      have hvalue := bind (child (A := A) heval n hargument) (demand argument)
      exact bind (keeping done hvalue) fun value => ih (n + 1) (value :: done) hrest

include henter in
/-- The scope of a call is made over the scope that the callee closes over,
and is held until the call is over. -/
theorem levelCall (closure : Closure) (values : List Value) (span : Span) :
    Settles C (closure.scope :: A) scope (closed values)
      (Eval.levelCall h t closure values span) yields := by
  cases hdefinition : closure.definition with
  | function fspan name parameters body =>
      simp only [Eval.levelCall, hdefinition]
      by_cases hdepth : maxCallDepth ≤ t.depth
      · rw [if_pos hdepth]
        exact keeping_fail values rfl _
      · rw [if_neg hdepth, henter]
        intro w outside hstanding haside hheld
        obtain ⟨hmade, hevolves, hframe⟩ := C.create hheld (List.subset_append_right ..) hstanding
          (haside (List.mem_cons_self ..))
        generalize hstart : Scopes.create (some closure.scope) w.scopes = made
          at hmade hevolves hframe
        obtain ⟨frame, scopes⟩ := made
        have hbody (surplus : List Value) : Settles C [] frame (closed surplus)
            (Eval.ensuring (Scopes.dropValues surplus) (Eval.within (.callOf name)
              (h.eval (t.body closure.program frame body)))) yields := by
          refine ensuring (P := []) (releases_dropValues surplus) (within _ ?_)
          exact (heval _ (Task.body_inside (Nat.lt_of_not_le hdepth))).anyhow
        have hcall := bind (bindParameters name parameters values) hbody ⟨scopes, w.printed⟩
          (frame :: outside) hframe (List.nil_subset _) (C.perm hmade List.perm_middle.symm)
        have hnew : newScope (some closure.scope) w = .ok frame ⟨scopes, w.printed⟩ := by
          simp only [newScope, hstart]
        show Settled C w.scopes outside yields (EStateM.bind (newScope _) _ w)
        unfold EStateM.bind
        rw [hnew]
        dsimp only
        rw [ensuring_eq_finish]
        exact (hcall.ensured (releases_drop frame)).of_evolves hevolves
  | _ =>
      simp only [Eval.levelCall, hdefinition]
      exact keeping_fail values rfl _

include henter in
/-- A level settles if the tasks inside do. -/
theorem level : Settles C [] t.scope [] (Eval.level h t) yields := by
  unfold Eval.level
  cases hnode : t.node with
  | root _ body => exact levelAll heval 0 (by rw [hnode]; exact List.Subset.refl body)
  | block _ body => exact levelBlock heval 0 (by rw [hnode]; exact List.Subset.refl body)
  | declaration span name =>
      exact bind (declare span name .unknown) fun _ => pure (Q := yields) none
  | assignment _ target value =>
      refine bind (child heval 1 (by rw [hnode]; simp [Node.children])) fun result => ?_
      exact bind (demand value result) (assignTo target)
  | reference span name =>
      refine bind (lookup span name) fun value => ?_
      refine (pure (Q := yields) (some value)).perm ?_ fun _ => .refl _
      simp [yields]
  | number _ value => exact pure (Q := yields) (some (.number value))
  | string _ value => exact pure (Q := yields) (some (.string value))
  | boolean _ value => exact pure (Q := yields) (some (.boolean value))
  | binary span operator left right =>
      refine bind (child heval 0 (by rw [hnode]; simp [Node.children])) fun result => ?_
      refine bind (demand left result) fun first => ?_
      have hmem : right ∈ t.node.children := by rw [hnode]; simp [Node.children]
      have hright : Settles C [] t.scope [] _ _ := bind (child heval 1 hmem) (demand right)
      refine (bind (keeping [first] hright) fun second => ?_).perm ?_ fun _ => .refl _
      · refine (operate span operator first second).perm ?_ fun _ => .refl _
        simpa using List.perm_append_comm
      · simp
  | parenthesized _ inner => exact child heval 0 (by rw [hnode]; simp [Node.children])
  | readProperty span object property =>
      refine bind (child heval 0 (by rw [hnode]; simp [Node.children])) fun result => ?_
      refine bind (demand object result) fun value => ?_
      refine (keeping_fail [value] rfl _).perm ?_ fun _ => .refl _
      simp
  | call span callee arguments =>
      refine bind (child heval 0 (by rw [hnode]; simp [Node.children])) fun target => ?_
      refine bind (keeping target.toList (levelArguments heval 1 [] ?_)) fun values => ?_
      · rw [hnode]
        exact List.subset_cons_self callee arguments
      · exact callValue span callee.span target values fun closure _ =>
          levelCall heval henter closure values span
  | function span name parameters body => exact defineAs t.program span name _
  | ret _ value =>
      cases value with
      | none => exact pure (Q := yields) none
      | some value => exact child heval 0 (by rw [hnode]; simp [Node.children])

end Level

end Settles

/-- Evaluation settles. -/
theorem settles_evalTask (t : Task) : Settles C [] t.scope [] (evalTask t) yields := by
  induction t using Task.induction with
  | ih t ih =>
      rw [evalTask_eq_level]
      exact Settles.level ih fun _ => rfl

end Eval

end ScopedScript
