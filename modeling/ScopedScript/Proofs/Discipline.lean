/-
Facts that every evaluation keeps.

An invariant of the evaluator is more than an invariant of its store: what
a call may do depends on the closure that is called, and closures are
handed around as values between operations. A `Discipline` therefore says
three things at once: what holds of the store, which values may be at
hand, and which tasks may come up where. This file shows that evaluation
keeps a discipline as soon as the operations of the store do.

# Knowledge

What is known of the scopes of a store grows while a program runs, since
scopes are made. The knowledge is the index `ι` of all parts of a
discipline, and whatever holds of a value or a task goes on holding when
more is known. `Keeps` carries the index through a step: the step starts
out with some knowledge and ends with more, also where it fails.
-/
import ScopedScript.Proofs.Recursion

namespace ScopedScript

/-- What is to hold of the scopes of a store, of the values at hand and of
the tasks that come up, and that the operations of the store keep it. -/
structure Discipline (σ ι : Type) [Scopes σ] where
  Grows : ι → ι → Prop
  Holds : ι → σ → Prop
  /-- The value may be at hand. -/
  Fits : ι → Value → Prop
  /-- The task may come up. -/
  Placed : ι → Task → Prop
  /-- The name may be declared in the scope. -/
  Allows : ι → ScopeId → String → Prop
  /-- The scope may be the one that was made for a call of the closure. -/
  Framed : ι → Closure → ScopeId → Prop
  -- knowledge grows
  refl : ∀ i, Grows i i
  trans : ∀ {i j k}, Grows i j → Grows j k → Grows i k
  fits_grows : ∀ {i j value}, Grows i j → Fits i value → Fits j value
  placed_grows : ∀ {i j task}, Grows i j → Placed i task → Placed j task
  allows_grows : ∀ {i j scope name}, Grows i j → Allows i scope name → Allows j scope name
  framed_grows : ∀ {i j closure frame}, Grows i j → Framed i closure frame →
    Framed j closure frame
  -- operations
  hold : ∀ {i s} (scope : ScopeId), Holds i s → Holds i (Scopes.hold scope s)
  drop : ∀ {i s} (scope : ScopeId), Holds i s → Holds i (Scopes.drop scope s)
  declare : ∀ {i s scope name value}, Holds i s → Allows i scope name → Fits i value →
    Holds i (Scopes.declare scope name value s).2
  assign : ∀ {i s value} (scope : ScopeId) (name : String), Holds i s → Fits i value →
    Holds i (Scopes.assign scope name value s).2
  lookup : ∀ {i s} (scope : ScopeId) (name : String), Holds i s →
    Holds i (Scopes.lookup scope name s).2 ∧
      ∀ {value}, (Scopes.lookup scope name s).1 = .ok value → Fits i value
  -- values and tasks
  fits_plain : ∀ {i} {value : Value}, value.scope? = none → value.kind ≠ .native → Fits i value
  child : ∀ {i t n node}, Placed i t → t.node.kind ≠ .function →
    t.node.children[n]? = some node → Placed i (t.child n node)
  declaration : ∀ {i t span name}, Placed i t → t.node = .declaration span name →
    Allows i t.scope name
  function : ∀ {i t span name parameters body}, Placed i t →
    t.node = .function span name parameters body →
    Allows i t.scope name ∧ Fits i (.function ⟨t.program, t.node, t.scope⟩)
  body : ∀ {i closure frame span name parameters body} (depth : Nat),
    Framed i closure frame → closure.definition = .function span name parameters body →
    Placed i ⟨depth, closure.program, frame, [], body⟩
  parameter : ∀ {i closure frame span name parameters body p},
    Framed i closure frame → closure.definition = .function span name parameters body →
    p ∈ parameters → Allows i frame p.name

namespace Eval

variable {σ ι α β : Type} [Scopes σ] (D : Discipline σ ι)

/-- What a step that started with knowledge `i` may come to. -/
def Ends (i : ι) (Q : ι → α → Prop) : Outcome σ α → Prop
  | .ok a w => ∃ j, D.Grows i j ∧ D.Holds j w.scopes ∧ Q j a
  | .error _ w => ∃ j, D.Grows i j ∧ D.Holds j w.scopes

/-- The step keeps the discipline wherever at least `i` is known, and what
it yields is as `Q` says. -/
def Keeps (i : ι) (m : Eval σ α) (Q : ι → α → Prop) : Prop :=
  ∀ j w, D.Grows i j → D.Holds j w.scopes → Ends D j Q (m w)

/-- The value that a node yields, if there is one, may be at hand. -/
def Yielded (i : ι) (result : Option Value) : Prop := ∀ value ∈ result, D.Fits i value

/-- All of the values may be at hand. -/
def AllFit (i : ι) (values : List Value) : Prop := ∀ value ∈ values, D.Fits i value

variable {D}

/-- What a step comes to from later knowledge, it also comes to from what was
known before. -/
theorem Ends.of_grows {i j : ι} {Q : ι → α → Prop} {r : Outcome σ α}
    (hgrows : D.Grows i j) (h : Ends D j Q r) : Ends D i Q r := by
  cases r with
  | ok a w =>
      obtain ⟨k, hk, hholds, hQ⟩ := h
      exact ⟨k, D.trans hgrows hk, hholds, hQ⟩
  | error e w =>
      obtain ⟨k, hk, hholds⟩ := h
      exact ⟨k, D.trans hgrows hk, hholds⟩

/-- Values that may be at hand still may when more is known. -/
theorem AllFit.of_grows {i j : ι} {values : List Value} (hgrows : D.Grows i j)
    (h : AllFit D i values) : AllFit D j values := by
  intro value hvalue
  exact D.fits_grows hgrows (h value hvalue)

theorem Yielded.some {i : ι} {value : Value} (h : D.Fits i value) :
    Yielded D i (some value) := by
  intro v hv
  cases hv
  exact h

theorem Yielded.none (i : ι) : Yielded D i none := by
  intro v hv
  cases hv

-- ================================================================== steps

namespace Keeps

variable {i : ι} {m : Eval σ α} {Q : ι → α → Prop} {R : ι → β → Prop}
  {report : ScopeFault → RuntimeFault}

theorem pure {a : α} (h : ∀ j, D.Grows i j → Q j a) : Keeps D i (Pure.pure a) Q := by
  intro j w hgrows hholds
  exact ⟨j, D.refl j, hholds, h j hgrows⟩

/-- A step that fails at once leaves the scopes as they are. -/
theorem fail (fault : RuntimeFault) (span : Span) :
    Keeps D i (Eval.fail fault span) Q := by
  intro j w _ hholds
  exact ⟨j, D.refl j, hholds⟩

/-- The second step starts with what is known after the first one. If the
first one fails there is no second. -/
theorem bind {f : α → Eval σ β} (hm : Keeps D i m Q)
    (hf : ∀ j a, D.Grows i j → Q j a → Keeps D j (f a) R) : Keeps D i (m >>= f) R := by
  intro j w hgrows hholds
  have hends := hm j w hgrows hholds
  show Ends D j R (EStateM.bind m f w)
  unfold EStateM.bind
  generalize m w = r at hends
  cases r with
  | ok a w' =>
      obtain ⟨k, hk, hholds, hQ⟩ := hends
      exact (hf k a (D.trans hgrows hk) hQ k w' (D.refl k) hholds).of_grows hk
  | error e w' => exact hends

/-- A change of the scopes that keeps what holds of them learns nothing. -/
theorem change {f : σ → σ} (h : ∀ j s, D.Holds j s → D.Holds j (f s)) :
    Keeps D i (Eval.change f) fun _ _ => True := by
  intro j w _ hholds
  exact ⟨j, D.refl j, h j _ hholds, trivial⟩

/-- An operation on the scopes, which leaves them in order whether it succeeds
or fails; what it answers is as said only if it succeeds. -/
theorem onScopes (span : Span) {f : σ → Except ScopeFault α × σ}
    (h : ∀ j s, D.Grows i j → D.Holds j s →
      D.Holds j (f s).2 ∧ ∀ a, (f s).1 = .ok a → Q j a) :
    Keeps D i (Eval.onScopesAs report span f) Q := by
  intro j w hgrows hholds
  have hstep := h j w.scopes hgrows hholds
  obtain ⟨scopes, printed⟩ := w
  unfold Eval.onScopesAs
  dsimp only
  generalize f scopes = r at hstep
  obtain ⟨answer, scopes'⟩ := r
  cases answer with
  | ok a => exact ⟨j, D.refl j, hstep.1, hstep.2 a rfl⟩
  | error fault => exact ⟨j, D.refl j, hstep.1⟩

/-- Whatever is done to the outcome of a step has to respect all that the step
may come to. -/
theorem finish {f : Outcome σ α → Outcome σ α} (hm : Keeps D i m Q)
    (h : ∀ j r, Ends D j Q r → Ends D j Q (f r)) : Keeps D i (Eval.finish f m) Q := by
  intro j w hgrows hholds
  exact h j _ (hm j w hgrows hholds)

/-- What is done to the scopes at the end is done after failures as well. -/
theorem ensuring {f : σ → σ} (h : ∀ j s, D.Holds j s → D.Holds j (f s))
    (hm : Keeps D i m Q) : Keeps D i (Eval.ensuring f m) Q := by
  rw [ensuring_eq_finish]
  refine finish hm fun j r hends => ?_
  cases r with
  | ok a w =>
      obtain ⟨k, hk, hholds, hQ⟩ := hends
      exact ⟨k, hk, h k _ hholds, hQ⟩
  | error e w =>
      obtain ⟨k, hk, hholds⟩ := hends
      exact ⟨k, hk, h k _ hholds⟩

/-- Letting go of a value is dropping the scope it closes over, if it closes
over one. -/
theorem dropValue {s : σ} (value : Value) (h : D.Holds i s) :
    D.Holds i (Scopes.dropValue value s) := by
  unfold Scopes.dropValue
  cases value.scope? with
  | none => exact h
  | some scope => exact D.drop scope h

theorem dropValues (values : List Value) (j : ι) (s : σ) (h : D.Holds j s) :
    D.Holds j (Scopes.dropValues values s) := by
  unfold Scopes.dropValues
  induction values generalizing s with
  | nil => exact h
  | cons value values ih => exact ih _ (dropValue value h)

theorem holdValue (value : Value) (j : ι) (s : σ) (h : D.Holds j s) :
    D.Holds j (Scopes.holdValue value s) := by
  unfold Scopes.holdValue
  cases value.scope? with
  | none => exact h
  | some scope => exact D.hold scope h

/-- If the step fails, the values that were kept for it are let go of. -/
theorem keeping (values : List Value) (hm : Keeps D i m Q) :
    Keeps D i (Eval.keeping values m) Q := by
  rw [keeping_eq_finish]
  refine finish hm fun j r hends => ?_
  cases r with
  | ok a w => exact hends
  | error e w =>
      obtain ⟨k, hk, hholds⟩ := hends
      exact ⟨k, hk, dropValues values k _ hholds⟩

/-- A context is put on the error and does not touch the scopes. -/
theorem within (context : Context) (hm : Keeps D i m Q) :
    Keeps D i (Eval.within context m) Q := by
  rw [within_eq_finish]
  refine finish hm fun j r hends => ?_
  cases r with
  | ok a w => exact hends
  | error e w => exact hends

-- ============================================================= constructs

/-- A name may be declared where the discipline allows it, now or later. -/
theorem declare (span : Span) {scope : ScopeId} {name : String} {value : Value}
    (hallows : D.Allows i scope name) (hvalue : D.Fits i value) :
    Keeps D i (Eval.onScopes span (Scopes.declare scope name value)) fun _ _ => True := by
  refine onScopes span fun j s hgrows hholds => ⟨?_, fun _ _ => trivial⟩
  exact D.declare hholds (D.allows_grows hgrows hallows) (D.fits_grows hgrows hvalue)

theorem assign (span : Span) (scope : ScopeId) (name : String) {value : Value}
    (hvalue : D.Fits i value) :
    Keeps D i (Eval.onScopesAs report span (Scopes.assign scope name value)) fun _ _ => True := by
  refine onScopes span fun j s hgrows hholds => ⟨?_, fun _ _ => trivial⟩
  exact D.assign scope name hholds (D.fits_grows hgrows hvalue)

/-- Whatever a look-up finds may be at hand. -/
theorem lookup (span : Span) (scope : ScopeId) (name : String) :
    Keeps D i (Eval.onScopes span (Scopes.lookup scope name)) D.Fits := by
  refine onScopes span fun j s _ hholds => ?_
  obtain ⟨hstore, hvalue⟩ := D.lookup scope name hholds
  exact ⟨hstore, fun value => hvalue⟩

theorem discard (result : Option Value) :
    Keeps D i (Eval.discard result) fun _ _ => True := by
  exact change (dropValues result.toList)

/-- A value that is demanded may be at hand if the result may. -/
theorem demand (node : Node) {result : Option Value} (h : Yielded D i result) :
    Keeps D i (Eval.demand node result) D.Fits := by
  cases result with
  | none => exact fail _ _
  | some value => exact pure fun j hgrows => D.fits_grows hgrows (h value rfl)

/-- An assignment yields the value that it stores. If the target is no name,
nothing is stored. -/
theorem assignTo (scope : ScopeId) (target : Node) {value : Value} (h : D.Fits i value) :
    Keeps D i (Eval.assignTo scope target value) (Yielded D) := by
  cases target with
  | reference span name =>
      refine bind (change (holdValue value)) fun j _ hj _ => ?_
      refine bind (keeping _ (assign span scope name (D.fits_grows hj h))) fun k _ hk _ => ?_
      exact pure fun l hl => .some (D.fits_grows (D.trans (D.trans hj hk) hl) h)
  | _ => exact keeping _ (fail _ _)

/-- Operators yield numbers and texts. -/
theorem kind_combine {operator : Operator} {left right value : Value}
    (h : left.combine operator right = .ok value) :
    value.kind = .number ∨ value.kind = .string := by
  unfold Value.combine at h
  split at h
  · cases h
    exact .inl rfl
  · split at h
    · cases hleft : left.text with
      | error fault =>
          rw [hleft] at h
          cases h
      | ok a =>
          cases hright : right.text with
          | error fault =>
              rw [hleft, hright] at h
              cases h
          | ok b =>
              rw [hleft, hright] at h
              cases h
              exact .inr rfl
    · cases h

/-- Operators yield nothing that closes over a scope. -/
theorem scope?_combine {operator : Operator} {left right value : Value}
    (h : left.combine operator right = .ok value) : value.scope? = none := by
  cases value with
  | function closure => rcases kind_combine h with hkind | hkind <;> cases hkind
  | _ => rfl

/-- The operands are let go of first; what is made of them closes over
nothing. -/
theorem operate (span : Span) (operator : Operator) (left right : Value) :
    Keeps D i (Eval.operate span operator left right) (Yielded D) := by
  refine bind (change (dropValues _)) fun j _ _ _ => ?_
  cases hvalue : left.combine operator right with
  | ok value =>
      have hkind : value.kind ≠ .native := by
        rcases kind_combine hvalue with hkind | hkind <;> simp [hkind]
      exact pure fun k _ => .some (D.fits_plain (scope?_combine hvalue) hkind)
  | error fault => exact fail _ _

/-- A definition declares its name and assigns the function to it, which
closes over the scope it is defined in. -/
theorem defineAs (program : Nat) (scope : ScopeId) (span : Span) (name : String)
    (definition : Node) (hallows : D.Allows i scope name)
    (hvalue : D.Fits i (.function ⟨program, definition, scope⟩)) :
    Keeps D i (Eval.defineAs program scope span name definition) (Yielded D) := by
  refine bind (change (holdValue _)) fun j _ hj _ => ?_
  refine bind (Q := fun _ _ => True) (keeping _ ?_) fun k _ hk _ => ?_
  · refine bind (declare span (D.allows_grows hj hallows) (D.fits_plain rfl nofun))
      fun k _ hk _ => ?_
    refine bind (change (holdValue _)) fun l _ hl _ => ?_
    exact assign span scope name (D.fits_grows (D.trans (D.trans hj hk) hl) hvalue)
  · exact pure fun l hl => .some (D.fits_grows (D.trans (D.trans hj hk) hl) hvalue)

/-- Predeclared functions yield nothing, and print without touching the
scopes. -/
theorem callNative (span : Span) (name : String) (values : List Value) :
    Keeps D i (Eval.callNative span name values) (Yielded D) := by
  rw [callNative_eq]
  by_cases hname : name = "print"
  · rw [if_pos hname]
    intro j w _ hholds
    exact ⟨j, D.refl j, hholds, .none j⟩
  · rw [if_neg hname]
    exact fail _ _

/-- Calling keeps the discipline if calls of closures at hand do. Other values
are no functions, and the call fails. -/
theorem callValue {call : Caller σ} (span calleeSpan : Span) {target : Option Value}
    {values : List Value} (htarget : Yielded D i target)
    (hcall : ∀ closure, D.Fits i (.function closure) →
      Keeps D i (call closure values span) (Yielded D)) :
    Keeps D i (Eval.callValue call span calleeSpan target values) (Yielded D) := by
  cases target with
  | none => exact keeping _ (fail _ _)
  | some value =>
      cases value with
      | native name => exact ensuring (dropValues _) (callNative span name values)
      | function closure =>
          refine ensuring (fun j s => D.drop closure.scope) ?_
          exact hcall closure (htarget _ rfl)
      | _ => exact keeping _ (fail _ _)

/-- Binding declares a parameter and assigns its value before it goes on to
the next one, so that more is known with each of them. Parameters without a
value are declared only. -/
theorem bindParameters (function : String) (frame : ScopeId) {parameters : List Parameter}
    {values : List Value} (hallows : ∀ p ∈ parameters, D.Allows i frame p.name)
    (hvalues : AllFit D i values) :
    Keeps D i (Eval.bindParameters function frame parameters values) fun _ _ => True := by
  induction parameters generalizing i values with
  | nil => exact pure fun _ _ => trivial
  | cons parameter rest ih =>
      obtain ⟨hparameter, hrest⟩ := List.forall_mem_cons.1 hallows
      unfold Eval.bindParameters
      refine bind (within _ (keeping _ (declare _ hparameter (D.fits_plain rfl nofun))))
        fun j _ hj _ => ?_
      have hrest' : ∀ p ∈ rest, D.Allows j frame p.name := by
        intro p hp
        exact D.allows_grows hj (hrest p hp)
      cases values with
      | nil => exact ih hrest' (hvalues.of_grows hj)
      | cons value values =>
          obtain ⟨hvalue, hvalues'⟩ := List.forall_mem_cons.1 (hvalues.of_grows hj)
          refine bind (keeping _ (assign _ frame _ hvalue)) fun k _ hk _ => ?_
          refine ih ?_ (AllFit.of_grows hk hvalues')
          intro p hp
          exact D.allows_grows hk (hrest' p hp)

-- ================================================================= levels

theorem getElem?_of_drop {nodes rest : List Node} {n : Nat} {node : Node}
    (h : nodes.drop n = node :: rest) : nodes[n]? = some node := by
  rw [← List.head?_drop, h]
  rfl

theorem drop_succ_of_drop {nodes rest : List Node} {n : Nat} {node : Node}
    (h : nodes.drop n = node :: rest) : nodes.drop (n + 1) = rest := by
  rw [← List.tail_drop, h]
  rfl

section Level

variable {h : Handler σ} {t : Task}
  (heval : ∀ j u, u.Inside t → D.Placed j u → Keeps D j (h.eval u) (Yielded D))
  (henter : ∀ j closure, closure.definition.kind = .function → D.Fits j (.function closure) →
    Keeps D j (h.enter closure) fun k frame => D.Framed k closure frame)
  (ht : D.Placed i t)

include heval ht

/-- The evaluation of a child. Only the body of a function is out of
reach. -/
theorem child {n : Nat} {node : Node} (hkind : t.node.kind ≠ .function)
    (hnode : t.node.children[n]? = some node) :
    Keeps D i (h.eval (t.child n node)) (Yielded D) := by
  have hinside : (t.child n node).Inside t := Task.child_inside (List.mem_of_getElem? hnode)
  exact heval i _ hinside (D.child ht hkind hnode)

/-- Statements one after the other, from the `n`-th child on. -/
theorem levelAll (n : Nat) {body : List Node} (hkind : t.node.kind ≠ .function)
    (hbody : t.node.children.drop n = body) :
    Keeps D i (Eval.levelAll h t n body) (Yielded D) := by
  induction body generalizing i n with
  | nil => exact pure fun j _ => .none j
  | cons statement rest ih =>
      have hstatement := getElem?_of_drop hbody
      refine bind (child heval ht hkind hstatement) fun j result hj _ => ?_
      refine bind (discard result) fun k _ hk _ => ?_
      exact ih (D.placed_grows (D.trans hj hk) ht) (n + 1) (drop_succ_of_drop hbody)

/-- The statements of a block, up to the first that returns. -/
theorem levelBlock (n : Nat) {body : List Node} (hkind : t.node.kind ≠ .function)
    (hbody : t.node.children.drop n = body) :
    Keeps D i (Eval.levelBlock h t n body) (Yielded D) := by
  induction body generalizing i n with
  | nil => exact pure fun j _ => .none j
  | cons statement rest ih =>
      have hstatement := child heval ht hkind (getElem?_of_drop hbody)
      unfold Eval.levelBlock
      by_cases hreturn : isReturn statement = true
      · rw [if_pos hreturn]
        exact hstatement
      · rw [if_neg hreturn]
        refine bind hstatement fun j result hj _ => ?_
        refine bind (discard result) fun k _ hk _ => ?_
        exact ih (D.placed_grows (D.trans hj hk) ht) (n + 1) (drop_succ_of_drop hbody)

/-- Arguments from left to right. The values of those before, which are kept
meanwhile, may still be at hand at the end. -/
theorem levelArguments (n : Nat) {done : List Value} {arguments : List Node}
    (hkind : t.node.kind ≠ .function) (hdone : AllFit D i done)
    (harguments : t.node.children.drop n = arguments) :
    Keeps D i (Eval.levelArguments h t n done arguments) (AllFit D) := by
  induction arguments generalizing i n done with
  | nil =>
      refine pure fun j hj value hvalue => ?_
      exact D.fits_grows hj (hdone value (List.mem_reverse.1 hvalue))
  | cons argument rest ih =>
      have hargument := child heval ht hkind (getElem?_of_drop harguments)
      refine bind (keeping done (bind hargument fun j _ _ => demand argument))
        fun j value hj hvalue => ?_
      refine ih (D.placed_grows hj ht) (n + 1) ?_ (drop_succ_of_drop harguments)
      exact List.forall_mem_cons.2 ⟨hvalue, hdone.of_grows hj⟩

omit ht in
include henter in
/-- A call makes a frame, binds the parameters in it and evaluates the body
one call further down. At the limit of calls it fails before there is a frame. -/
theorem levelCall {closure : Closure} {values : List Value} (span : Span)
    (hclosure : D.Fits i (.function closure)) (hvalues : AllFit D i values) :
    Keeps D i (Eval.levelCall h t closure values span) (Yielded D) := by
  cases hdefinition : closure.definition with
  | function fspan name parameters body =>
      simp only [Eval.levelCall, hdefinition]
      by_cases hdepth : maxCallDepth ≤ t.depth
      · rw [if_pos hdepth]
        exact keeping values (fail _ _)
      · rw [if_neg hdepth]
        refine bind (henter i closure (by rw [hdefinition]; rfl) hclosure)
          fun j frame hj hframe => ?_
        refine ensuring (fun k s => D.drop frame) ?_
        refine bind (bindParameters name frame ?_ (hvalues.of_grows hj))
          fun k surplus hk _ => ?_
        · intro p hp
          exact D.parameter hframe hdefinition hp
        · refine ensuring (dropValues surplus) (within _ ?_)
          have hbody := D.body (t.depth + 1) (D.framed_grows hk hframe) hdefinition
          exact heval k _ (Task.body_inside (Nat.lt_of_not_le hdepth)) hbody
  | _ =>
      simp only [Eval.levelCall, hdefinition]
      exact keeping values (fail _ _)

include henter in
/-- A level keeps the discipline if the tasks inside do. -/
theorem level : Keeps D i (Eval.level h t) (Yielded D) := by
  have hchild {j : ι} {n : Nat} {node : Node} (hj : D.Grows i j)
      (hkind : t.node.kind ≠ .function) (hn : t.node.children[n]? = some node) :
      Keeps D j (h.eval (t.child n node)) (Yielded D) :=
    child heval (D.placed_grows hj ht) hkind hn
  unfold Eval.level
  cases hnode : t.node with
  | root _ body =>
      exact levelAll heval ht 0 (by rw [hnode]; simp [Node.kind]) (by rw [hnode]; rfl)
  | block _ body =>
      exact levelBlock heval ht 0 (by rw [hnode]; simp [Node.kind]) (by rw [hnode]; rfl)
  | declaration span name =>
      refine bind (declare span (D.declaration ht hnode) (D.fits_plain rfl nofun)) fun j _ _ _ => ?_
      exact pure fun k _ => .none k
  | assignment _ target value =>
      rw [hnode] at hchild
      refine bind (hchild (D.refl i) (by simp [Node.kind]) rfl) fun j result _ hresult => ?_
      exact bind (demand value hresult) fun k result _ => assignTo t.scope target
  | reference span name =>
      exact bind (lookup span t.scope name) fun j value _ hvalue =>
        pure fun k hk => .some (D.fits_grows hk hvalue)
  | number _ value => exact pure fun j _ => .some (D.fits_plain rfl nofun)
  | string _ value => exact pure fun j _ => .some (D.fits_plain rfl nofun)
  | boolean _ value => exact pure fun j _ => .some (D.fits_plain rfl nofun)
  | binary span operator left right =>
      rw [hnode] at hchild
      refine bind (hchild (D.refl i) (by simp [Node.kind]) rfl) fun j result hj hresult => ?_
      refine bind (demand left hresult) fun k first hk hfirst => ?_
      refine bind (Q := D.Fits) (keeping [first] ?_) fun l second _ _ =>
        operate span operator first second
      refine bind (hchild (D.trans hj hk) (by simp [Node.kind]) rfl) fun l result _ hresult => ?_
      exact demand right hresult
  | parenthesized _ inner =>
      rw [hnode] at hchild
      exact hchild (D.refl i) (by simp [Node.kind]) rfl
  | readProperty span object property =>
      rw [hnode] at hchild
      refine bind (hchild (D.refl i) (by simp [Node.kind]) rfl) fun j result _ hresult => ?_
      exact bind (demand object hresult) fun k value _ _ => keeping [value] (fail _ _)
  | call span callee arguments =>
      have hkind : t.node.kind ≠ .function := by rw [hnode]; simp [Node.kind]
      have hcallee : t.node.children[0]? = some callee := by rw [hnode]; rfl
      refine bind (child heval ht hkind hcallee) fun j target hj htarget => ?_
      refine bind (keeping _ (levelArguments heval (D.placed_grows hj ht) 1 hkind ?_ ?_))
        fun k values hk hvalues => ?_
      · intro value hvalue
        cases hvalue
      · rw [hnode]
        rfl
      · refine callValue span callee.span (fun v hv => D.fits_grows hk (htarget v hv)) ?_
        intro closure hclosure
        exact levelCall heval henter span hclosure hvalues
  | function span name parameters body =>
      obtain ⟨hallows, hfits⟩ := D.function ht hnode
      rw [hnode] at hfits
      exact defineAs t.program t.scope span name _ hallows hfits
  | ret _ value =>
      cases value with
      | none => exact pure fun j _ => .none j
      | some value =>
          rw [hnode] at hchild
          exact hchild (D.refl i) (by simp [Node.kind]) rfl

end Level

end Keeps

end Eval

end ScopedScript
