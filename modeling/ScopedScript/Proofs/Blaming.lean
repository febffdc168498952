/-
Where the errors of a running program come from.

An error comes up in one task and leaves all tasks around it, which clean
up after themselves and may put the error in a context, but raise nothing
of their own. So to know what errors a run can end with it is enough to
know what a task can raise by itself. `Raised` lists it, with all that is
known of the values at that place.

# Errors under a discipline

Which values are at hand where an error comes up is a matter of a
discipline, and evaluation keeps it (`Keeps`). `Fails` only adds which
errors a step can end with; wherever the rest of a step depends on what
came before, the discipline says what that may have been. A `Blame` names
the errors that are to be expected of each task, and `fails_evalTask` shows
that there are no others.
-/
import ScopedScript.Proofs.Access
import ScopedScript.Proofs.Lexical

namespace ScopedScript.Eval

variable {σ ι α β : Type}

/-- The error of a fault that has just come up. -/
def errorAt (fault : RuntimeFault) (span : Span) : Error := ⟨.runtime fault, span, []⟩

-- ================================================================ outcomes

/-- If the outcome is an error it is one of these. -/
def Faults (E : Error → Prop) : Outcome σ α → Prop
  | .ok _ _ => True
  | .error e _ => E e

/-- The step fails with no other errors than these, whatever the scopes. -/
def Only (m : Eval σ α) (E : Error → Prop) : Prop := ∀ w, Faults E (m w)

section Outcomes

variable {E E' : Error → Prop} {r : Outcome σ α}

theorem Faults.mono (h : ∀ e, E e → E' e) (hr : Faults E r) : Faults E' r := by
  cases r with
  | ok a w => trivial
  | error e w => exact h e hr

theorem Faults.ensured (cleanup : σ → σ) (hr : Faults E r) : Faults E (Eval.ensured cleanup r) := by
  cases r with
  | ok a w => trivial
  | error e w => exact hr

/-- What is known of errors with a context more is known of errors before they
get it. -/
theorem Faults.inContext (context : Context) (hr : Faults (fun e => E (e.within context)) r) :
    Faults E (Eval.inContext context r) := by
  cases r with
  | ok a w => trivial
  | error e w => exact hr

/-- What comes next matters only if there is an outcome so far. -/
theorem Faults.bind {m : Eval σ α} {f : α → Eval σ β} {w : World σ} (hm : Faults E (m w))
    (hf : ∀ a w', m w = .ok a w' → Faults E (f a w')) : Faults E ((m >>= f) w) := by
  show Faults E (EStateM.bind m f w)
  unfold EStateM.bind
  cases hr : m w with
  | ok a w' => exact hf a w' hr
  | error e w' =>
      rw [hr] at hm
      exact hm

end Outcomes

-- ============================================================= single steps

/-- An operation on the scopes that goes through is the operation. -/
theorem onScopes_ok {span : Span} {f : σ → Except ScopeFault α × σ}
    {report : ScopeFault → RuntimeFault} {w w' : World σ} {a : α}
    (h : onScopesAs report span f w = .ok a w') :
    (f w.scopes).1 = .ok a ∧ w'.scopes = (f w.scopes).2 := by
  obtain ⟨scopes, printed⟩ := w
  simp only [onScopesAs] at h
  split at h
  · next hf =>
    cases h
    rw [hf]
    exact ⟨rfl, rfl⟩
  · cases h

/-- An operation on the scopes fails with the fault of the operation. -/
theorem onScopes_faults (span : Span) (f : σ → Except ScopeFault α × σ)
    (report : ScopeFault → RuntimeFault) (w : World σ) :
    Faults (fun e => ∃ fault, (f w.scopes).1 = .error fault ∧ e = errorAt (report fault) span)
      (onScopesAs report span f w) := by
  obtain ⟨scopes, printed⟩ := w
  simp only [onScopesAs]
  split
  · trivial
  · next fault _ hf => exact ⟨fault, by rw [hf], rfl⟩

theorem within_ok {context : Context} {m : Eval σ α} {w w' : World σ} {a : α}
    (h : within context m w = .ok a w') : m w = .ok a w' := by
  unfold within at h
  split at h
  · next hm =>
    cases h
    exact hm
  · cases h

namespace Only

variable {m : Eval σ α} {E : Error → Prop}

/-- It is enough to look at the failures of a step. -/
theorem of_error (h : ∀ {w e w'}, m w = .error e w' → E e) : Only m E := by
  intro w
  cases hr : m w with
  | ok a w' => trivial
  | error e w' => exact h hr

theorem of_eq_error (h : Only m E) {w w' : World σ} {e : Error} (hm : m w = .error e w') :
    E e := by
  have hfaults := h w
  rw [hm] at hfaults
  exact hfaults

theorem pure (a : α) : Only (σ := σ) (Pure.pure a) E := fun _ => trivial

/-- A step that fails at once has one error. -/
theorem fail {fault : RuntimeFault} {span : Span} (h : E (errorAt fault span)) :
    Only (Eval.fail (σ := σ) (α := α) fault span) E := fun _ => h

theorem bind {f : α → Eval σ β} (hm : Only m E) (hf : ∀ a, Only (f a) E) : Only (m >>= f) E :=
  fun w => (hm w).bind fun a w' _ => hf a w'

theorem change (f : σ → σ) : Only (Eval.change f) E := fun _ => trivial

theorem onScopes {span : Span} (f : σ → Except ScopeFault α × σ)
    (h : ∀ fault, E (errorAt (.scope fault) span)) : Only (Eval.onScopes span f) E := by
  intro w
  refine (onScopes_faults span f .scope w).mono fun e hfault => ?_
  obtain ⟨fault, -, rfl⟩ := hfault
  exact h fault

theorem within (context : Context) (hm : Only m fun e => E (e.within context)) :
    Only (Eval.within context m) E := by
  rw [within_eq_finish]
  exact fun w => (hm w).inContext context

/-- A value that is missing is reported at the node that should have had it. -/
theorem demand {node : Node} (result : Option Value)
    (h : E (errorAt (.noValue node.kind) node.span)) :
    Only (Eval.demand (σ := σ) node result) E := by
  cases result with
  | none => exact fail h
  | some value => exact pure value

theorem callNative {span : Span} {name : String} (values : List Value)
    (h : name ≠ "print" → E (errorAt (.unknownNative name) span)) :
    Only (Eval.callNative (σ := σ) span name values) E := by
  rw [callNative_eq]
  by_cases hname : name = "print"
  · rw [if_pos hname]
    exact fun _ => trivial
  · rw [if_neg hname]
    exact fail (h hname)

end Only

variable [Scopes σ]

theorem Faults.kept {E : Error → Prop} {r : Outcome σ α} (values : List Value)
    (hr : Faults E r) : Faults E (Eval.kept values r) := by
  cases r with
  | ok a w => trivial
  | error e w => exact hr

/-- A step that keeps values succeeds as the step does. -/
theorem keeping_ok {values : List Value} {m : Eval σ α} {w w' : World σ} {a : α}
    (h : keeping values m w = .ok a w') : m w = .ok a w' := by
  unfold keeping at h
  split at h
  · next hm =>
    cases h
    exact hm
  · cases h

namespace Only

variable {m : Eval σ α} {E : Error → Prop}

theorem keeping (values : List Value) (hm : Only m E) : Only (Eval.keeping values m) E := by
  rw [keeping_eq_finish]
  exact fun w => (hm w).kept values

/-- An assignment fails in the scopes or because of its target. -/
theorem assignTo (scope : ScopeId) {target : Node} (value : Value)
    (hassigned : ∀ place name fault, target = .reference place name →
      E (errorAt (.scope fault) place))
    (hnot : target.kind ≠ .reference → E (errorAt (.notAssignable target.kind) target.span)) :
    Only (Eval.assignTo (σ := σ) scope target value) E := by
  cases target with
  | reference span name =>
      refine bind (change _) fun _ => bind (keeping _ (onScopes _ ?_)) fun _ => pure _
      exact fun fault => hassigned span name fault rfl
  | _ => exact keeping _ (fail (hnot (by simp [Node.kind])))

/-- An operation fails because of its operands. -/
theorem operate {span : Span} {operator : Operator} {left right : Value}
    (h : ∀ fault, left.combine operator right = .error fault → E (errorAt fault span)) :
    Only (Eval.operate (σ := σ) span operator left right) E := by
  refine bind (change _) fun _ => ?_
  cases hvalue : left.combine operator right with
  | ok value => exact pure _
  | error fault => exact fail (h fault hvalue)

theorem defineAs (program : Nat) (scope : ScopeId) {span : Span} (name : String) (definition : Node)
    (h : ∀ fault, E (errorAt (.scope fault) span)) :
    Only (Eval.defineAs (σ := σ) program scope span name definition) E := by
  refine bind (change _) fun _ => bind (keeping _ ?_) fun _ => pure _
  exact bind (onScopes _ h) fun _ => bind (change _) fun _ => onScopes _ h

/-- Whatever is no definition of a function is refused as such. -/
theorem define (program : Nat) (scope : ScopeId) {node : Node}
    (h : ∀ fault, E (errorAt (.scope fault) node.span))
    (hnot : node.kind ≠ .function → E (errorAt .functionExpected node.span)) :
    Only (Eval.define (σ := σ) program scope node) E := by
  cases node with
  | function span name parameters body => exact defineAs program scope name _ h
  | _ => exact fail (hnot (by simp [Node.kind]))

/-- Binding parameters fails where one of them cannot be declared, or where
one that has just been declared cannot be assigned to. -/
theorem bindParameters {function : String} (frame : ScopeId) {parameters : List Parameter}
    (values : List Value)
    (hdeclared : ∀ p ∈ parameters, ∀ (s : σ) (fault : ScopeFault),
      (Scopes.declare frame p.name .unknown s).1 = .error fault →
        E ((errorAt (.scope fault) p.span).within (.callOf function)))
    (hassigned : ∀ p ∈ parameters, ∀ (s : σ) (value : Value) (fault : ScopeFault),
      (Scopes.declare frame p.name .unknown s).1 = .ok () →
        (Scopes.assign frame p.name value (Scopes.declare frame p.name .unknown s).2).1
          = .error fault →
        E (errorAt (.parameterLost fault) p.span)) :
    Only (Eval.bindParameters (σ := σ) function frame parameters values) E := by
  induction parameters generalizing values with
  | nil => exact pure _
  | cons p rest ih =>
      obtain ⟨hdeclare, hdeclared⟩ := List.forall_mem_cons.1 hdeclared
      obtain ⟨hassign, hassigned⟩ := List.forall_mem_cons.1 hassigned
      unfold Eval.bindParameters
      intro w
      refine Faults.bind ?_ fun _ w' hbound => ?_
      · rw [within_eq_finish, keeping_eq_finish]
        refine Faults.inContext _ (Faults.kept values ?_)
        refine (onScopes_faults p.span _ .scope w).mono fun e hfault => ?_
        obtain ⟨fault, hfault, rfl⟩ := hfault
        exact hdeclare w.scopes fault hfault
      · obtain ⟨hok, hscopes⟩ := onScopes_ok (keeping_ok (within_ok hbound))
        cases values with
        | nil => exact ih [] hdeclared hassigned w'
        | cons value values =>
            refine Faults.bind ?_ fun _ w'' _ => ih values hdeclared hassigned w''
            rw [keeping_eq_finish]
            refine Faults.kept values ((onScopes_faults p.span _ _ w').mono fun e hfault => ?_)
            obtain ⟨fault, hfault, rfl⟩ := hfault
            rw [hscopes] at hfault
            exact hassign w.scopes value fault hok hfault

end Only

-- =================================================================== tasks

/-- What a task can raise by itself. -/
inductive Raised (D : Discipline σ ι) (i : ι) (t : Task) : Error → Prop
  | noValue {n : Nat} {child : Node} (hchild : t.node.children[n]? = some child) :
      Raised D i t (errorAt (.noValue child.kind) child.span)
  | declaration {span name fault} (hnode : t.node = .declaration span name) :
      Raised D i t (errorAt (.scope fault) span)
  | reference {span name fault} (hnode : t.node = .reference span name) :
      Raised D i t (errorAt (.scope fault) span)
  | definition {span name parameters body fault}
      (hnode : t.node = .function span name parameters body) :
      Raised D i t (errorAt (.scope fault) span)
  | assigned {span place name value fault}
      (hnode : t.node = .assignment span (.reference place name) value) :
      Raised D i t (errorAt (.scope fault) place)
  | notAssignable {span value} {target : Node} (hnode : t.node = .assignment span target value)
      (htarget : target.kind ≠ .reference) :
      Raised D i t (errorAt (.notAssignable target.kind) target.span)
  | operated {span operator left right fault} {a b : Value}
      (hnode : t.node = .binary span operator left right)
      (hfault : a.combine operator b = .error fault) :
      Raised D i t (errorAt fault span)
  | noProperty {span object property} {value : Value}
      (hnode : t.node = .readProperty span object property) :
      Raised D i t (errorAt (.noProperty property value.kind) span)
  -- calls
  | nothingToCall {span arguments} {callee : Node} (hnode : t.node = .call span callee arguments) :
      Raised D i t (errorAt .nothingToCall callee.span)
  | notCallable {span arguments} {callee : Node} {value : Value}
      (hnode : t.node = .call span callee arguments) (hvalue : D.Fits i value)
      (hkind : value.kind ≠ .function ∧ value.kind ≠ .native) :
      Raised D i t (errorAt (.notCallable value.kind) callee.span)
  | unknownNative {span callee arguments name} (hnode : t.node = .call span callee arguments)
      (hvalue : D.Fits i (.native name)) (hname : name ≠ "print") :
      Raised D i t (errorAt (.unknownNative name) span)
  | notADefinition {span callee arguments closure} (hnode : t.node = .call span callee arguments)
      (hclosure : D.Fits i (.function closure)) (hkind : closure.definition.kind ≠ .function) :
      Raised D i t (errorAt .notADefinition span)
  | tooDeep {span callee arguments} (hnode : t.node = .call span callee arguments)
      (hdepth : maxCallDepth ≤ t.depth) :
      Raised D i t (errorAt .tooDeep span)
  | unbound {closure span name parameters body frame values e} {w w' : World σ}
      (hclosure : D.Fits i (.function closure)) (hdepth : t.depth < maxCallDepth)
      (hdefinition : closure.definition = .function span name parameters body)
      (hfails : Eval.bindParameters name frame parameters values w = .error e w') :
      Raised D i t e

/-- The errors that are to be expected of each task: those it raises by
itself, those of the tasks for its children, and those of calls. -/
structure Blame (D : Discipline σ ι) where
  Expects : Task → Error → Prop
  raised : ∀ {i t e}, D.Placed i t → Raised D i t e → Expects t e
  child : ∀ {i t node e} {n : Nat}, D.Placed i t → t.node.children[n]? = some node →
    Expects (t.child n node) e → Expects t e
  body : ∀ {i t program frame node name e}, D.Placed i t → t.depth < maxCallDepth →
    Expects (t.body program frame node) e → Expects t (e.within (.callOf name))

/-- Where at least `i` is known and the discipline holds, the step fails with
no other errors than these. -/
def Fails (D : Discipline σ ι) (i : ι) (m : Eval σ α) (E : Error → Prop) : Prop :=
  ∀ j w, D.Grows i j → D.Holds j w.scopes → Faults E (m w)

namespace Fails

variable {D : Discipline σ ι} {i : ι} {m : Eval σ α} {E : Error → Prop}

theorem of_only (h : Only m E) : Fails D i m E := fun _ w _ _ => h w

theorem mono {E' : Error → Prop} (h : ∀ e, E e → E' e) (hm : Fails D i m E) : Fails D i m E' :=
  fun j w hgrows hholds => (hm j w hgrows hholds).mono h

theorem bind {f : α → Eval σ β} {Q : ι → α → Prop} (hm : Fails D i m E) (hkeeps : Keeps D i m Q)
    (hf : ∀ j a, D.Grows i j → Q j a → Fails D j (f a) E) : Fails D i (m >>= f) E := by
  intro j w hgrows hholds
  refine (hm j w hgrows hholds).bind fun a w' hr => ?_
  have hends := hkeeps j w hgrows hholds
  rw [hr] at hends
  obtain ⟨k, hk, hholds', hQ⟩ := hends
  exact hf k a (D.trans hgrows hk) hQ k w' (D.refl k) hholds'

/-- What comes after does not depend on what was known before. -/
theorem bind_only {f : α → Eval σ β} (hm : Fails D i m E) (hf : ∀ a, Only (f a) E) :
    Fails D i (m >>= f) E :=
  fun j w hgrows hholds => (hm j w hgrows hholds).bind fun a w' _ => hf a w'

theorem ensuring (cleanup : σ → σ) (hm : Fails D i m E) :
    Fails D i (Eval.ensuring cleanup m) E := by
  rw [ensuring_eq_finish]
  exact fun j w hgrows hholds => (hm j w hgrows hholds).ensured cleanup

theorem keeping (values : List Value) (hm : Fails D i m E) :
    Fails D i (Eval.keeping values m) E := by
  rw [keeping_eq_finish]
  exact fun j w hgrows hholds => (hm j w hgrows hholds).kept values

theorem within (context : Context) (hm : Fails D i m fun e => E (e.within context)) :
    Fails D i (Eval.within context m) E := by
  rw [within_eq_finish]
  exact fun j w hgrows hholds => (hm j w hgrows hholds).inContext context

section Level

variable (B : Blame D) {h : Handler σ} {t : Task}
  (heval : ∀ j u, u.Inside t → D.Placed j u → Keeps D j (h.eval u) (Yielded D))
  (hfails : ∀ j u, u.Inside t → D.Placed j u → Fails D j (h.eval u) (B.Expects u))
  (henter : ∀ j closure, closure.definition.kind = .function → D.Fits j (.function closure) →
    Keeps D j (h.enter closure) fun k frame => D.Framed k closure frame)
  (hmakes : ∀ closure E, Only (h.enter closure) E)
  (ht : D.Placed i t)

include hfails ht

theorem child {n : Nat} {node : Node} (hkind : t.node.kind ≠ .function)
    (hnode : t.node.children[n]? = some node) :
    Fails D i (h.eval (t.child n node)) (B.Expects t) := by
  have hinside : (t.child n node).Inside t := Task.child_inside (List.mem_of_getElem? hnode)
  exact (hfails i _ hinside (D.child ht hkind hnode)).mono fun e => B.child ht hnode

omit hfails in
/-- The value of a child that has to have one. -/
theorem demandChild {n : Nat} {node : Node} (hnode : t.node.children[n]? = some node)
    (result : Option Value) : Only (Eval.demand (σ := σ) node result) (B.Expects t) :=
  .demand result (B.raised ht (.noValue hnode))

include heval

theorem levelAll (n : Nat) {body : List Node} (hkind : t.node.kind ≠ .function)
    (hbody : t.node.children.drop n = body) :
    Fails D i (Eval.levelAll h t n body) (B.Expects t) := by
  induction body generalizing i n with
  | nil => exact of_only (.pure _)
  | cons statement rest ih =>
      have hstatement := Keeps.getElem?_of_drop hbody
      refine bind (child B hfails ht hkind hstatement) (Keeps.child heval ht hkind hstatement)
        fun j result hj _ => ?_
      refine bind (of_only (.change _)) (Keeps.discard result) fun k _ hk _ => ?_
      exact ih (D.placed_grows (D.trans hj hk) ht) (n + 1) (Keeps.drop_succ_of_drop hbody)

theorem levelBlock (n : Nat) {body : List Node} (hkind : t.node.kind ≠ .function)
    (hbody : t.node.children.drop n = body) :
    Fails D i (Eval.levelBlock h t n body) (B.Expects t) := by
  induction body generalizing i n with
  | nil => exact of_only (.pure _)
  | cons statement rest ih =>
      have hstatement := Keeps.getElem?_of_drop hbody
      have hfirst := child B hfails ht hkind hstatement
      unfold Eval.levelBlock
      by_cases hreturn : isReturn statement = true
      · rw [if_pos hreturn]
        exact hfirst
      · rw [if_neg hreturn]
        refine bind hfirst (Keeps.child heval ht hkind hstatement) fun j result hj _ => ?_
        refine bind (of_only (.change _)) (Keeps.discard result) fun k _ hk _ => ?_
        exact ih (D.placed_grows (D.trans hj hk) ht) (n + 1) (Keeps.drop_succ_of_drop hbody)

theorem levelArguments (n : Nat) {done : List Value} {arguments : List Node}
    (hkind : t.node.kind ≠ .function) (harguments : t.node.children.drop n = arguments) :
    Fails D i (Eval.levelArguments h t n done arguments) (B.Expects t) := by
  induction arguments generalizing i n done with
  | nil => exact of_only (.pure _)
  | cons argument rest ih =>
      have hargument := Keeps.getElem?_of_drop harguments
      refine bind
        (keeping done (bind_only (child B hfails ht hkind hargument) (demandChild B ht hargument)))
        (Keeps.keeping done (Keeps.bind (Keeps.child heval ht hkind hargument)
          fun j _ _ => Keeps.demand argument))
        fun j value hj _ => ?_
      exact ih (D.placed_grows hj ht) (n + 1) (Keeps.drop_succ_of_drop harguments)

include henter hmakes

omit heval in
theorem levelCall {closure : Closure} {values : List Value} {span : Span} {callee : Node}
    {arguments : List Node} (hnode : t.node = .call span callee arguments)
    (hclosure : D.Fits i (.function closure)) (hvalues : AllFit D i values) :
    Fails D i (Eval.levelCall h t closure values span) (B.Expects t) := by
  cases hdefinition : closure.definition with
  | function fspan name parameters body =>
      simp only [Eval.levelCall, hdefinition]
      by_cases hdepth : maxCallDepth ≤ t.depth
      · rw [if_pos hdepth]
        exact keeping values (of_only (.fail (B.raised ht (.tooDeep hnode hdepth))))
      · rw [if_neg hdepth]
        have hlt : t.depth < maxCallDepth := Nat.lt_of_not_le hdepth
        refine bind (of_only (hmakes closure _))
          (henter i closure (by rw [hdefinition]; rfl) hclosure) fun j frame hj hframe => ?_
        refine ensuring _ (bind (of_only (.of_error fun hfails => ?_))
          (Keeps.bindParameters name frame ?_ (hvalues.of_grows hj)) fun k surplus hk _ => ?_)
        · exact B.raised ht (.unbound hclosure hlt hdefinition hfails)
        · intro p hp
          exact D.parameter hframe hdefinition hp
        · have hbody := D.body (t.depth + 1) (D.framed_grows hk hframe) hdefinition
          refine ensuring _ (within _ ?_)
          exact (hfails k _ (Task.body_inside hlt) hbody).mono fun e => B.body ht hlt
  | _ =>
      simp only [Eval.levelCall, hdefinition]
      refine keeping values (of_only (.fail (B.raised ht (.notADefinition hnode hclosure ?_))))
      rw [hdefinition]
      simp [Node.kind]

omit heval in
theorem callValue {span : Span} {callee : Node} {arguments : List Node}
    (hnode : t.node = .call span callee arguments) {target : Option Value} {values : List Value}
    (htarget : Yielded D i target) (hvalues : AllFit D i values) :
    Fails D i (Eval.callValue (Eval.levelCall h t) span callee.span target values)
      (B.Expects t) := by
  cases target with
  | none => exact keeping _ (of_only (.fail (B.raised ht (.nothingToCall hnode))))
  | some value =>
      have hvalue : D.Fits i value := htarget value rfl
      cases value with
      | native name =>
          refine ensuring _ (of_only (.callNative _ fun hname => ?_))
          exact B.raised ht (.unknownNative hnode hvalue hname)
      | function closure =>
          exact ensuring _ (levelCall B hfails henter hmakes ht hnode hvalue hvalues)
      | _ =>
          refine keeping _ (of_only (.fail (B.raised ht (.notCallable hnode hvalue ?_))))
          simp [Value.kind]

/-- A level fails as is to be expected if the tasks inside do. -/
theorem level : Fails D i (Eval.level h t) (B.Expects t) := by
  unfold Eval.level
  cases hnode : t.node with
  | root _ body =>
      exact levelAll B heval hfails ht 0 (by rw [hnode]; simp [Node.kind]) (by rw [hnode]; rfl)
  | block _ body =>
      exact levelBlock B heval hfails ht 0 (by rw [hnode]; simp [Node.kind]) (by rw [hnode]; rfl)
  | declaration span name =>
      refine of_only (.bind (.onScopes _ fun fault => ?_) fun _ => .pure _)
      exact B.raised ht (.declaration hnode)
  | assignment span target value =>
      have hkind : t.node.kind ≠ .function := by rw [hnode]; simp [Node.kind]
      have hvalue : t.node.children[1]? = some value := by rw [hnode]; rfl
      refine bind_only (child B hfails ht hkind hvalue) fun result => ?_
      refine .bind (demandChild B ht hvalue result) fun result => .assignTo _ _ ?_ ?_
      · rintro place name fault rfl
        exact B.raised ht (.assigned hnode)
      · exact fun htarget => B.raised ht (.notAssignable hnode htarget)
  | reference span name =>
      refine of_only (.bind (.onScopes _ fun fault => ?_) fun _ => .pure _)
      exact B.raised ht (.reference hnode)
  | number _ value => exact of_only (.pure _)
  | string _ value => exact of_only (.pure _)
  | boolean _ value => exact of_only (.pure _)
  | binary span operator left right =>
      have hkind : t.node.kind ≠ .function := by rw [hnode]; simp [Node.kind]
      have hleft : t.node.children[0]? = some left := by rw [hnode]; rfl
      have hright : t.node.children[1]? = some right := by rw [hnode]; rfl
      refine bind (child B hfails ht hkind hleft) (Keeps.child heval ht hkind hleft)
        fun j result hj hresult => ?_
      refine bind (of_only (demandChild B ht hleft result)) (Keeps.demand left hresult)
        fun k first hk _ => ?_
      have htk := D.placed_grows (D.trans hj hk) ht
      refine bind_only (keeping [first] ?_) fun second => .operate fun fault hfault => ?_
      · exact bind_only (child B hfails htk hkind hright) (demandChild B ht hright)
      · exact B.raised ht (.operated hnode hfault)
  | parenthesized span inner =>
      exact child B hfails ht (by rw [hnode]; simp [Node.kind]) (by rw [hnode]; rfl)
  | readProperty span object property =>
      have hkind : t.node.kind ≠ .function := by rw [hnode]; simp [Node.kind]
      have hobject : t.node.children[0]? = some object := by rw [hnode]; rfl
      refine bind_only (child B hfails ht hkind hobject) fun result => ?_
      refine .bind (demandChild B ht hobject result) fun value => .keeping [value] (.fail ?_)
      exact B.raised ht (.noProperty hnode)
  | call span callee arguments =>
      have hkind : t.node.kind ≠ .function := by rw [hnode]; simp [Node.kind]
      have hcallee : t.node.children[0]? = some callee := by rw [hnode]; rfl
      have hdrop : t.node.children.drop 1 = arguments := by rw [hnode]; rfl
      refine bind (child B hfails ht hkind hcallee) (Keeps.child heval ht hkind hcallee)
        fun j target hj htarget => ?_
      have htj := D.placed_grows hj ht
      refine bind (keeping _ (levelArguments B heval hfails htj 1 hkind hdrop))
        (Keeps.keeping _ (Keeps.levelArguments heval htj 1 hkind (List.forall_mem_nil _) hdrop))
        fun k values hk hvalues => ?_
      have htk := D.placed_grows hk htj
      have htarget' : Yielded D k target := fun v hv => D.fits_grows hk (htarget v hv)
      exact callValue B hfails henter hmakes htk hnode htarget' hvalues
  | function span name parameters body =>
      refine of_only (.define _ _ (fun fault => B.raised ht (.definition hnode)) fun hnot => ?_)
      exact absurd rfl hnot
  | ret span value =>
      cases value with
      | none => exact of_only (.pure _)
      | some value => exact child B hfails ht (by rw [hnode]; simp [Node.kind]) (by rw [hnode]; rfl)

end Level

end Fails

/-- Evaluation fails as is to be expected. -/
theorem fails_evalTask {D : Discipline σ ι} (B : Blame D) (hcreates : D.Creates) (t : Task) {i : ι}
    (ht : D.Placed i t) : Fails D i (evalTask t) (B.Expects t) := by
  induction t using Task.induction generalizing i with
  | ih t ih =>
      rw [evalTask_eq_level]
      refine Fails.level B (fun k u _ => keeps_evalTask hcreates u) (fun k u hu => ih u hu) ?_
        (fun _ _ _ => trivial) ht
      intro k closure hkind hfits l w hgrows hholds
      obtain ⟨j, hj, hcreated, hframed⟩ := hcreates hholds hkind (D.fits_grows hgrows hfits)
      exact ⟨j, hj, hcreated, hframed⟩

end ScopedScript.Eval

namespace ScopedScript

-- =================================================================== places

/-- The parameters that a node declares. -/
def Node.parameters : Node → List Parameter
  | .function _ _ parameters _ => parameters
  | _ => []

/-- The span is that of a node of the tree or of one of its parameters. -/
def Node.Site (root : Node) (span : Span) : Prop :=
  ∃ path node, root.at? path = some node
    ∧ (span = node.span ∨ ∃ p ∈ node.parameters, span = p.span)

theorem InPlace.site {root : Node} {frames : List Path} {t : Task} (h : InPlace root frames t) :
    root.Site t.node.span := by
  obtain ⟨owner, -, hplace, -⟩ := h
  exact ⟨_, _, hplace, .inl rfl⟩

theorem InPlace.site_child {root : Node} {frames : List Path} {t : Task}
    (h : InPlace root frames t) {n : Nat} {child : Node} (hchild : t.node.children[n]? = some child) :
    root.Site child.span := by
  obtain ⟨owner, -, hplace, -⟩ := h
  exact ⟨_, _, Node.at?_concat hplace hchild, .inl rfl⟩

theorem ClosesOver.site {root : Node} {frames : List Path} {closure : Closure}
    (h : ClosesOver root frames (.function closure)) {span : Span} {name : String}
    {parameters : List Parameter} {body : Node}
    (hdefinition : closure.definition = .function span name parameters body) {p : Parameter}
    (hp : p ∈ parameters) : root.Site p.span := by
  obtain ⟨path, hpath, -⟩ := h closure rfl
  refine ⟨path, _, hpath, .inr ⟨p, ?_, rfl⟩⟩
  rw [hdefinition]
  exact hp

open Eval in
/-- Errors blame places of the tree. -/
def places (root : Node) : Blame (lexical root) where
  Expects _ e := root.Site e.span
  raised {i t e} ht h := by
    have hplace : InPlace root i t := ht
    have hsite := hplace.site
    cases h with
    | noValue hchild => exact hplace.site_child hchild
    | declaration hnode | reference hnode | definition hnode | operated hnode | noProperty hnode
    | unknownNative hnode | notADefinition hnode | tooDeep hnode =>
        rw [hnode] at hsite
        exact hsite
    | @assigned span place name value fault hnode =>
        have htarget : t.node.children[0]? = some (.reference place name) := by rw [hnode]; rfl
        exact hplace.site_child htarget
    | @notAssignable span value target hnode =>
        have htarget : t.node.children[0]? = some target := by rw [hnode]; rfl
        exact hplace.site_child htarget
    | @nothingToCall span arguments callee hnode | @notCallable span arguments callee _ hnode =>
        have hcallee : t.node.children[0]? = some callee := by rw [hnode]; rfl
        exact hplace.site_child hcallee
    | unbound hclosure _ hdefinition hfails =>
        refine (Only.bindParameters (E := fun e => root.Site e.span) _ _ ?_ ?_).of_eq_error hfails
        · exact fun p hp _ _ _ => ClosesOver.site hclosure hdefinition hp
        · exact fun p hp _ _ _ _ _ => ClosesOver.site hclosure hdefinition hp
  child _ _ h := h
  body _ _ h := h

/-- A program that fails while it runs fails as is to be expected of its
tree. -/
theorem Eval.Blame.of_evaluate {ι : Type} {D : Discipline Store ι} (B : Blame D)
    (hcreates : D.Creates) {i : ι} {root : Node}
    (hholds : D.Holds i (Scopes.createGlobal ({} : Store)).2)
    (hplaced : D.Placed i ⟨0, 0, 0, [], root⟩) {e : Error} (h : (evaluate root).1 = .error e) :
    B.Expects ⟨0, 0, 0, [], root⟩ e := by
  have hrun : runProgram root { scopes := ({} : Store) }
      = evalTask ⟨0, 0, 0, [], root⟩ { scopes := (Scopes.createGlobal ({} : Store)).2 } := rfl
  have hfaults := fails_evalTask B hcreates ⟨0, 0, 0, [], root⟩ hplaced i
    { scopes := (Scopes.createGlobal ({} : Store)).2 } (D.refl i) hholds
  rw [evaluate, hrun] at h
  generalize evalTask (σ := Store) _ _ = r at h hfaults
  cases r with
  | ok a w => cases h
  | error e' w =>
      cases h
      exact hfaults

/-- A program that fails while it runs fails at a place of its tree. -/
theorem site_of_evaluate {root : Node} {e : Error} (h : (evaluate root).1 = .error e) :
    root.Site e.span := by
  have hplaced : InPlace root [] ⟨0, 0, 0, [], root⟩ := ⟨none, rfl, rfl, rfl⟩
  exact (places root).of_evaluate (lexical_creates root) (onRecord_createGlobal root).store
    hplaced h

end ScopedScript
