/-
Renaming a parameter changes nothing.

A program and the same program with a parameter renamed are run side by
side. The two runs go through the same steps: whatever the one does to its
scopes the other does to its own, they print the same, and if one fails
the other fails at the same place. What this says of the evaluator is that
scoping is lexical: the names of a function are nobody's affair but its
own, neither its caller's nor those of the functions it calls.

# Steps in lockstep

`Lockstep` relates two steps that are taken at the same time. They may be
taken over any two stores that are abreast, with at least the knowledge
that is given, and they leave stores that are abreast with more knowledge,
unless they fail. After that nothing is asked of the stores: no construct
of the language goes on after a failure.

The combinators of the evaluator keep `Lockstep`, and so do its
constructs on twins, and so by induction on tasks does evaluation. The
one step at which the sides change is a call of the function with the
renamed parameter: its scope is in the making while the parameters are
declared, and it is settled before the body is evaluated.
-/
import ScopedScript.Run
import ScopedScript.Proofs.Abreast
import ScopedScript.Proofs.Recursion

namespace ScopedScript

namespace Eval

variable {α β γ δ : Type}

section Relations

variable (x y : String)

/-- What came of two steps that started with some knowledge: both failed, at
the same place, or neither did. -/
inductive Together (sides : List Side) (Q : List Side → α → β → Prop) :
    Outcome Store α → Outcome Store β → Prop
  | ok {later : List Side} {a : α} {b : β} {w v : World Store} (hgrows : Grows sides later)
      (hstores : Store.Abreast x y later w.scopes v.scopes) (hprinted : v.printed = w.printed)
      (hyield : Q later a b) : Together sides Q (.ok a w) (.ok b v)
  | error {e e' : Error} {w v : World Store} (hspan : e'.span = e.span)
      (hprinted : v.printed = w.printed) : Together sides Q (.error e w) (.error e' v)

/-- The two steps go together wherever this is known, and what they yield is
as `Q` says. -/
def Lockstep (sides : List Side) (m : Eval Store α) (n : Eval Store β)
    (Q : List Side → α → β → Prop) : Prop :=
  ∀ later w v, Grows sides later → Store.Abreast x y later w.scopes v.scopes →
    v.printed = w.printed → Together x y later Q (m w) (n v)

/-- Values that are twins one by one. -/
def TwinValues (sides : List Side) (values values' : List Value) : Prop :=
  List.Forall₂ (Value.Twin x y sides) values values'

/-- Nodes that yield no value, or twins. -/
def TwinResults (sides : List Side) (result result' : Option Value) : Prop :=
  Option.Rel (Value.Twin x y sides) result result'

end Relations

variable {x y : String} {sides later : List Side} {side : Side}

theorem Together.of_grows {Q : List Side → α → β → Prop} {r : Outcome Store α}
    {r' : Outcome Store β} (hgrows : Grows sides later) (h : Together x y later Q r r') :
    Together x y sides Q r r' := by
  cases h with
  | ok hlater hstores hprinted hyield => exact .ok (hgrows.trans hlater) hstores hprinted hyield
  | error hspan hprinted => exact .error hspan hprinted

theorem TwinValues.of_grows {values values' : List Value} (hgrows : Grows sides later)
    (h : TwinValues x y sides values values') : TwinValues x y later values values' :=
  List.Forall₂.imp (fun _ _ hvalue => hvalue.of_grows hgrows) h

theorem TwinResults.of_grows {result result' : Option Value} (hgrows : Grows sides later)
    (h : TwinResults x y sides result result') : TwinResults x y later result result' := by
  cases h with
  | none => exact .none
  | some hvalue => exact .some (hvalue.of_grows hgrows)

theorem TwinResults.toList {result result' : Option Value}
    (h : TwinResults x y sides result result') :
    TwinValues x y sides result.toList result'.toList := by
  cases h with
  | none => exact .nil
  | some hvalue => exact .cons hvalue .nil

-- ============================================================ store changes

section Changes

variable {s s' : Store} {value value' : Value} {values values' : List Value}

theorem abreast_dropValue (h : Store.Abreast x y sides s s')
    (hvalue : Value.Twin x y sides value value') :
    Store.Abreast x y sides (Scopes.dropValue value s) (Scopes.dropValue value' s') := by
  unfold Scopes.dropValue
  rw [hvalue.scope?_eq]
  cases value.scope? with
  | none => exact h
  | some scope => exact h.drop scope

theorem abreast_dropValues (h : Store.Abreast x y sides s s')
    (hvalues : TwinValues x y sides values values') :
    Store.Abreast x y sides (Scopes.dropValues values s) (Scopes.dropValues values' s') := by
  unfold Scopes.dropValues
  induction hvalues generalizing s s' with
  | nil => exact h
  | cons hvalue _ ih => exact ih (abreast_dropValue h hvalue)

theorem abreast_holdValue (h : Store.Abreast x y sides s s')
    (hvalue : Value.Twin x y sides value value') :
    Store.Abreast x y sides (Scopes.holdValue value s) (Scopes.holdValue value' s') := by
  unfold Scopes.holdValue
  rw [hvalue.scope?_eq]
  cases value.scope? with
  | none => exact h
  | some scope => exact h.hold scope

end Changes

-- ================================================================== steps

namespace Lockstep

variable {m : Eval Store α} {n : Eval Store β} {Q : List Side → α → β → Prop}
  {R : List Side → γ → δ → Prop}

theorem pure {a : α} {b : β} (h : ∀ later, Grows sides later → Q later a b) :
    Lockstep x y sides (Pure.pure a) (Pure.pure b) Q := by
  intro later w v hgrows hstores hprinted
  exact .ok (.refl later) hstores hprinted (h later hgrows)

theorem fail (fault fault' : RuntimeFault) {span span' : Span} (hspan : span' = span) :
    Lockstep x y sides (Eval.fail fault span) (Eval.fail fault' span') Q := by
  intro later w v _ _ hprinted
  exact .error hspan hprinted

theorem imp {P : List Side → α → β → Prop} (hm : Lockstep x y sides m n P)
    (h : ∀ later a b, Grows sides later → P later a b → Q later a b) :
    Lockstep x y sides m n Q := by
  intro later w v hgrows hstores hprinted
  have htogether := hm later w v hgrows hstores hprinted
  generalize m w = r, n v = r' at htogether
  cases htogether with
  | error hspan hprinted => exact .error hspan hprinted
  | ok hnext hstores hprinted hyield =>
      exact .ok hnext hstores hprinted (h _ _ _ (hgrows.trans hnext) hyield)

theorem bind {f : α → Eval Store γ} {g : β → Eval Store δ} (hm : Lockstep x y sides m n Q)
    (hf : ∀ later a b, Grows sides later → Q later a b → Lockstep x y later (f a) (g b) R) :
    Lockstep x y sides (m >>= f) (n >>= g) R := by
  intro later w v hgrows hstores hprinted
  have htogether := hm later w v hgrows hstores hprinted
  show Together x y later R (EStateM.bind m f w) (EStateM.bind n g v)
  unfold EStateM.bind
  generalize m w = r, n v = r' at htogether
  cases htogether with
  | error hspan hprinted => exact .error hspan hprinted
  | @ok next a b w v hnext hstores hprinted hyield =>
      have hrest := hf next a b (hgrows.trans hnext) hyield next w v (.refl next) hstores hprinted
      exact hrest.of_grows hnext

theorem change {f g : Store → Store}
    (h : ∀ {later s s'}, Grows sides later → Store.Abreast x y later s s' →
      Store.Abreast x y later (f s) (g s')) :
    Lockstep x y sides (Eval.change f) (Eval.change g) fun _ _ _ => True := by
  intro later w v hgrows hstores hprinted
  exact .ok (.refl later) (h hgrows hstores) hprinted trivial

theorem onScopes (span : Span) {f : Store → Except ScopeFault α × Store}
    {g : Store → Except ScopeFault β × Store} {report : ScopeFault → RuntimeFault}
    (h : ∀ {later s s'}, Grows sides later → Store.Abreast x y later s s' →
      ∃ next, Grows later next ∧ Answers x y next (Q next) (f s) (g s')) :
    Lockstep x y sides (Eval.onScopesAs report span f) (Eval.onScopesAs report span g) Q := by
  intro later w v hgrows hstores hprinted
  obtain ⟨next, hnext, hanswers⟩ := h hgrows hstores
  obtain ⟨scopes, printed⟩ := w
  obtain ⟨scopes', printed'⟩ := v
  unfold Eval.onScopesAs
  dsimp only at hanswers hprinted ⊢
  generalize f scopes = r, g scopes' = r' at hanswers
  cases hanswers with
  | ok hstores hanswer => exact .ok hnext hstores hprinted hanswer
  | error => exact .error rfl hprinted

theorem finish {f : Outcome Store α → Outcome Store α} {g : Outcome Store β → Outcome Store β}
    (hm : Lockstep x y sides m n Q)
    (h : ∀ {later r r'}, Grows sides later → Together x y later Q r r' →
      Together x y later Q (f r) (g r')) :
    Lockstep x y sides (Eval.finish f m) (Eval.finish g n) Q := by
  intro later w v hgrows hstores hprinted
  exact h hgrows (hm later w v hgrows hstores hprinted)

theorem ensuring {f g : Store → Store}
    (h : ∀ {later s s'}, Grows sides later → Store.Abreast x y later s s' →
      Store.Abreast x y later (f s) (g s')) (hm : Lockstep x y sides m n Q) :
    Lockstep x y sides (Eval.ensuring f m) (Eval.ensuring g n) Q := by
  rw [ensuring_eq_finish, ensuring_eq_finish]
  refine finish hm fun hgrows htogether => ?_
  cases htogether with
  | error hspan hprinted => exact .error hspan hprinted
  | ok hnext hstores hprinted hyield =>
      exact .ok hnext (h (hgrows.trans hnext) hstores) hprinted hyield

/-- What is let go of after a failure makes no difference any more. -/
theorem keeping (values values' : List Value) (hm : Lockstep x y sides m n Q) :
    Lockstep x y sides (Eval.keeping values m) (Eval.keeping values' n) Q := by
  rw [keeping_eq_finish, keeping_eq_finish]
  refine finish hm fun _ htogether => ?_
  cases htogether with
  | error hspan hprinted => exact .error hspan hprinted
  | ok hnext hstores hprinted hyield => exact .ok hnext hstores hprinted hyield

theorem within (context : Context) (hm : Lockstep x y sides m n Q) :
    Lockstep x y sides (Eval.within context m) (Eval.within context n) Q := by
  rw [within_eq_finish, within_eq_finish]
  refine finish hm fun _ htogether => ?_
  cases htogether with
  | error hspan hprinted => exact .error hspan hprinted
  | ok hnext hstores hprinted hyield => exact .ok hnext hstores hprinted hyield

/-- A scope is made under the same number, on a side that its parent
allows. -/
theorem newScope {parent : ScopeId}
    (hlinked : Cell.Linked x sides side { parent := some parent }) :
    Lockstep x y sides (Eval.newScope (some parent)) (Eval.newScope (some parent))
      fun later frame frame' => frame' = frame ∧ later[frame]? = some side := by
  intro later w v hgrows hstores hprinted
  have hcreated := hstores.create (hlinked.of_grows hgrows)
  refine .ok (.append later side) hcreated hprinted ⟨?_, ?_⟩
  · exact hstores.size'.trans hstores.size.symm
  · show (later ++ [side])[w.scopes.cells.size]? = some side
    rw [hstores.size]
    exact List.getElem?_concat_length

-- ============================================================= operations

section Operations

variable {scope : ScopeId} {name name' : String} {value value' : Value}

theorem declare (span : Span) (hside : sides[scope]? = some side)
    (hname : Called x y side name name') (hvalue : Value.Twin x y sides value value') :
    Lockstep x y sides (Eval.onScopes span (Scopes.declare scope name value))
      (Eval.onScopes span (Scopes.declare scope name' value'))
      fun later _ _ => Knows later scope name := by
  refine onScopes span fun {later s s'} hgrows hstores => ?_
  obtain ⟨side', hside', hbecomes⟩ := hgrows scope side hside
  obtain ⟨next, hnext, hknows, hanswers⟩ :=
    hstores.declare hside' (hbecomes.called hname) (hvalue.of_grows hgrows)
  refine ⟨next, hnext, ?_⟩
  show Answers x y next _ (s.declare scope name value) (s'.declare scope name' value')
  generalize s.declare scope name value = r, s'.declare scope name' value' = r' at hanswers
  cases hanswers with
  | ok hstores _ => exact .ok hstores hknows
  | error => exact .error

theorem assign (span : Span) (hside : sides[scope]? = some side)
    (hname : Called x y side name name') (hknows : Knows sides scope name)
    (hvalue : Value.Twin x y sides value value') {report : ScopeFault → RuntimeFault} :
    Lockstep x y sides (Eval.onScopesAs report span (Scopes.assign scope name value))
      (Eval.onScopesAs report span (Scopes.assign scope name' value')) fun _ _ _ => True := by
  refine onScopes span fun {later s s'} hgrows hstores => ⟨later, .refl later, ?_⟩
  obtain ⟨side', hside', hbecomes⟩ := hgrows scope side hside
  exact hstores.assign hside' (hbecomes.called hname) (hknows.of_grows hgrows hside)
    (hvalue.of_grows hgrows)

theorem lookup (span : Span) (hside : sides[scope]? = some side) (hsettled : side.isSettled = true)
    (hname : Called x y side name name') :
    Lockstep x y sides (Eval.onScopes span (Scopes.lookup scope name))
      (Eval.onScopes span (Scopes.lookup scope name')) (Value.Twin x y) := by
  refine onScopes span fun {later s s'} hgrows hstores => ⟨later, .refl later, ?_⟩
  have hside' := hgrows.settled hside hsettled
  exact hstores.lookup hside' hname (.of_isSettled hside' hsettled name)

end Operations

-- ============================================================= constructs

section Constructs

variable {scope : ScopeId} {result result' target target' : Option Value}
  {value value' : Value} {values values' : List Value}

theorem discard (hresult : TwinResults x y sides result result') :
    Lockstep x y sides (Eval.discard result) (Eval.discard result') fun _ _ _ => True :=
  change fun hgrows hstores => abreast_dropValues hstores (hresult.of_grows hgrows).toList

theorem demand {node node' : Node} (hspan : node'.span = node.span)
    (hresult : TwinResults x y sides result result') :
    Lockstep x y sides (Eval.demand node result) (Eval.demand node' result')
      (Value.Twin x y) := by
  cases hresult with
  | none => exact fail _ _ hspan
  | some hvalue => exact pure fun later hgrows => hvalue.of_grows hgrows

theorem assignTo {node node' : Node} (hside : sides[scope]? = some side)
    (hsettled : side.isSettled = true) (htarget : Twin x y side node node')
    (hvalue : Value.Twin x y sides value value') :
    Lockstep x y sides (Eval.assignTo scope node value) (Eval.assignTo scope node' value')
      (TwinResults x y) := by
  cases htarget with
  | reference hname =>
      refine bind (change fun hgrows hstores =>
        abreast_holdValue hstores (hvalue.of_grows hgrows)) fun later _ _ hgrows _ => ?_
      have hside' := hgrows.settled hside hsettled
      refine bind (keeping _ _ (assign _ hside' hname (.of_isSettled hside' hsettled _)
        (hvalue.of_grows hgrows))) fun next _ _ hnext _ => ?_
      exact pure fun last hlast =>
        .some (hvalue.of_grows ((hgrows.trans hnext).trans hlast))
  | _ => exact keeping _ _ (fail _ _ rfl)

theorem operate {left left' right right' : Value} (span : Span) (operator : Operator)
    (hleft : Value.Twin x y sides left left') (hright : Value.Twin x y sides right right') :
    Lockstep x y sides (Eval.operate span operator left right)
      (Eval.operate span operator left' right') (TwinResults x y) := by
  have hvalues : TwinValues x y sides [left, right] [left', right'] :=
    .cons hleft (.cons hright .nil)
  refine bind (change fun hgrows hstores =>
    abreast_dropValues hstores (hvalues.of_grows hgrows)) fun later _ _ _ _ => ?_
  rw [Value.Twin.combine_eq operator hleft hright]
  cases hcombined : left.combine operator right with
  | ok value =>
      have hplain := Keeps.scope?_combine hcombined
      exact pure fun next _ => .some (.plain hplain)
  | error fault => exact fail _ _ rfl

theorem defineAs {definition definition' : Node} (program : Nat) (span : Span) {name : String}
    (hside : sides[scope]? = some side) (hsettled : side.isSettled = true)
    (hname : Called x y side name name) (hdefinition : Twin x y side definition definition') :
    Lockstep x y sides (Eval.defineAs program scope span name definition)
      (Eval.defineAs program scope span name definition') (TwinResults x y) := by
  have hvalue : Value.Twin x y sides (.function ⟨program, definition, scope⟩)
      (.function ⟨program, definition', scope⟩) := .function hside hsettled hdefinition
  have hheld {later : List Side} (hgrows : Grows sides later) :
      Lockstep x y later (Eval.change (Scopes.holdValue (.function ⟨program, definition, scope⟩)))
        (Eval.change (Scopes.holdValue (.function ⟨program, definition', scope⟩)))
        fun _ _ _ => True :=
    change fun hnext hstores => abreast_holdValue hstores (hvalue.of_grows (hgrows.trans hnext))
  refine bind (hheld (.refl sides)) fun later _ _ hgrows _ => ?_
  refine bind (Q := fun _ _ _ => True) (keeping _ _ ?_) fun next _ _ hnext _ => ?_
  · refine bind (declare span (hgrows.settled hside hsettled) hname (.plain rfl))
      fun next _ _ hnext _ => ?_
    refine bind (hheld (hgrows.trans hnext)) fun last _ _ hlast _ => ?_
    have hlater := (hgrows.trans hnext).trans hlast
    have hside' := hlater.settled hside hsettled
    exact assign span hside' hname (.of_isSettled hside' hsettled name) (hvalue.of_grows hlater)
  · exact pure fun last hlast => .some (hvalue.of_grows ((hgrows.trans hnext).trans hlast))

theorem callNative (span : Span) (name : String) (hvalues : TwinValues x y sides values values') :
    Lockstep x y sides (Eval.callNative span name values) (Eval.callNative span name values')
      (TwinResults x y) := by
  have hprints : values'.map Value.printed = values.map Value.printed := by
    induction hvalues with
    | nil => rfl
    | cons hvalue _ ih => rw [List.map_cons, List.map_cons, hvalue.printed_eq, ih]
  rw [callNative_eq, callNative_eq]
  by_cases hname : name = "print"
  · rw [if_pos hname, if_pos hname]
    intro later w v hgrows hstores hprinted
    refine .ok (.refl later) hstores ?_ .none
    show v.printed.push _ = w.printed.push _
    rw [hprinted, hprints]
  · rw [if_neg hname, if_neg hname]
    exact fail _ _ rfl

theorem callValue {call call' : Caller Store} (span : Span) {calleeSpan calleeSpan' : Span}
    (hspan : calleeSpan' = calleeSpan) (htarget : TwinResults x y sides target target')
    (hvalues : TwinValues x y sides values values')
    (hcall : ∀ {closure closure'}, Value.Twin x y sides (.function closure) (.function closure') →
      Lockstep x y sides (call closure values span) (call' closure' values' span)
        (TwinResults x y)) :
    Lockstep x y sides (Eval.callValue call span calleeSpan target values)
      (Eval.callValue call' span calleeSpan' target' values') (TwinResults x y) := by
  subst hspan
  cases htarget with
  | none => exact keeping _ _ (fail _ _ rfl)
  | @some value value' hvalue =>
      have htwin := hvalue
      cases hvalue with
      | plain hplain =>
          cases value with
          | native name =>
              exact ensuring (fun hgrows hstores =>
                abreast_dropValues hstores (hvalues.of_grows hgrows)) (callNative span name hvalues)
          | function closure => cases hplain
          | _ => exact keeping _ _ (fail _ _ rfl)
      | function hside hsettled hdefinition =>
          exact ensuring (fun hgrows hstores =>
            abreast_dropValue hstores (htwin.of_grows hgrows)) (hcall htwin)

/-- Parameters are bound together, and it is known after that that the
scope has them. More comes to be known of the scope on the way. -/
theorem bindParameters (function : String) {frame : ScopeId} {first : Side}
    (hside : sides[frame]? = some side) (hbecomes : first.Becomes side)
    {parameters parameters' : List Parameter}
    (hparameters : List.Forall₂ (Parameter.Twin x y first) parameters parameters')
    (hvalues : TwinValues x y sides values values') :
    Lockstep x y sides (Eval.bindParameters function frame parameters values)
      (Eval.bindParameters function frame parameters' values')
      fun later surplus surplus' => TwinValues x y later surplus surplus'
        ∧ ∀ p ∈ parameters, Knows later frame p.name := by
  induction hparameters generalizing sides side values values' with
  | nil => exact pure fun later hgrows => ⟨hvalues.of_grows hgrows, by simp⟩
  | @cons parameter parameter' rest rest' hparameter hrest ih =>
      obtain ⟨hspan, hname⟩ := hparameter
      have hname' := hbecomes.called hname
      unfold Eval.bindParameters
      rw [hspan]
      refine bind (within _ (keeping _ _ (declare _ hside hname' (.plain rfl))))
        fun later _ _ hgrows hknows => ?_
      obtain ⟨side', hside', hbecomes'⟩ := hgrows frame side hside
      -- the parameters after this one, once this one has its value
      have hafter {next : List Side} {more more' : List Value} (hnext : Grows later next)
          (hmore : TwinValues x y next more more') :
          Lockstep x y next (Eval.bindParameters function frame rest more)
            (Eval.bindParameters function frame rest' more')
            fun last surplus surplus' => TwinValues x y last surplus surplus'
              ∧ ∀ p ∈ parameter :: rest, Knows last frame p.name := by
        obtain ⟨side'', hside'', hbecomes''⟩ := hnext frame side' hside'
        refine (ih hside'' ((hbecomes.trans hbecomes').trans hbecomes'') hmore).imp
          fun last surplus surplus' hlast hpost => ⟨hpost.1, List.forall_mem_cons.2 ⟨?_, hpost.2⟩⟩
        exact hknows.of_grows (hnext.trans hlast) hside'
      cases hvalues with
      | nil => exact hafter (.refl later) .nil
      | cons hvalue hvalues =>
          refine bind (keeping _ _ (assign _ hside' (hbecomes'.called hname') hknows
            (hvalue.of_grows hgrows))) fun next _ _ hnext _ => ?_
          exact hafter hnext (TwinValues.of_grows (hgrows.trans hnext) hvalues)

/-- The parameters of the function with the renamed parameter: when they
have been bound, its scope is settled. -/
theorem bindRenamed (function : String) {frame : ScopeId}
    (hside : sides[frame]? = some (.entering [])) {parameters parameters' : List Parameter}
    (hx : x ∈ parameters.map (·.name))
    (hparameters : List.Forall₂ (Parameter.Twin x y .inside) parameters parameters')
    (hvalues : TwinValues x y sides values values') :
    Lockstep x y sides (Eval.bindParameters function frame parameters values)
      (Eval.bindParameters function frame parameters' values')
      fun later surplus surplus' => TwinValues x y later surplus surplus'
        ∧ later[frame]? = some .inside := by
  have hentering : List.Forall₂ (Parameter.Twin x y (.entering [])) parameters parameters' :=
    hparameters
  obtain ⟨p, hp, hpx⟩ := List.mem_map.1 hx
  have hbound := bindParameters function hside .same hentering hvalues
  intro later w v hgrows hstores hprinted
  have htogether := hbound later w v hgrows hstores hprinted
  generalize Eval.bindParameters function frame parameters values w = r,
    Eval.bindParameters function frame parameters' values' v = r' at htogether
  cases htogether with
  | error hspan hprinted => exact .error hspan hprinted
  | @ok next surplus surplus' _ _ hnext hstores hprinted hyield =>
      obtain ⟨hsurplus, hknows⟩ := hyield
      obtain ⟨side, hframe, hbecomes⟩ := (hgrows.trans hnext) frame _ hside
      cases side with
      | outside => cases hbecomes
      | inside => exact .ok hnext hstores hprinted ⟨hsurplus, hframe⟩
      | entering names =>
          have hgrows' := Grows.set hframe .settled
          have hmember : x ∈ names := by
            rw [← hpx]
            exact hknows p hp names hframe
          refine .ok (hnext.trans hgrows') (hstores.settle hframe hmember) hprinted ⟨?_, ?_⟩
          · exact hsurplus.of_grows hgrows'
          · exact List.getElem?_set_self (List.getElem?_eq_some_iff.1 hframe).1

end Constructs

-- ================================================================= levels

section Level

variable {t : Task} {node' : Node}
  (heval : ∀ {later side} (u : Task) {node'}, u.Inside t → later[u.scope]? = some side →
    side.isSettled = true → Twin x y side u.node node' →
    Lockstep x y later (evalTask u) (evalTask { u with node := node' }) (TwinResults x y))

include heval

section Settled

variable (hside : sides[t.scope]? = some side) (hsettled : side.isSettled = true)

include hside hsettled

/-- The evaluation of a child. -/
theorem child {child child' : Node} (i : Nat) (hchild : child ∈ t.node.children)
    (htwin : Twin x y side child child') (hgrows : Grows sides later) :
    Lockstep x y later (evalTask (t.child i child))
      (evalTask { t.child i child with node := child' }) (TwinResults x y) :=
  heval (t.child i child) (Task.child_inside hchild) (hgrows.settled hside hsettled) hsettled htwin

theorem levelAll (i : Nat) {body body' : List Node} (hbody : body ⊆ t.node.children)
    (htwins : Twins x y side body body') :
    Lockstep x y sides (Eval.levelAll evaluator t i body)
      (Eval.levelAll evaluator { t with node := node' } i body') (TwinResults x y) := by
  induction body generalizing sides i body' with
  | nil =>
      cases htwins
      exact pure fun later _ => .none
  | cons statement rest ih =>
      obtain ⟨hstatement, hrest⟩ := List.cons_subset.1 hbody
      cases htwins with
      | cons htwin htwins =>
          refine bind (child heval hside hsettled i hstatement htwin (.refl sides))
            fun later result result' hgrows hresult => ?_
          refine bind (discard hresult) fun next _ _ hnext _ => ?_
          exact ih ((hgrows.trans hnext).settled hside hsettled) (i + 1) hrest htwins

theorem levelBlock (i : Nat) {body body' : List Node} (hbody : body ⊆ t.node.children)
    (htwins : Twins x y side body body') :
    Lockstep x y sides (Eval.levelBlock evaluator t i body)
      (Eval.levelBlock evaluator { t with node := node' } i body') (TwinResults x y) := by
  induction body generalizing sides i body' with
  | nil =>
      cases htwins
      exact pure fun later _ => .none
  | cons statement rest ih =>
      obtain ⟨hstatement, hrest⟩ := List.cons_subset.1 hbody
      cases htwins with
      | @cons _ _ statement' _ rest' htwin htwins =>
          have hreturn : isReturn statement' = isReturn statement := by cases htwin <;> rfl
          have hfirst := child heval hside hsettled i hstatement htwin (.refl sides)
          unfold Eval.levelBlock
          rw [hreturn]
          by_cases hlast : isReturn statement = true
          · rw [if_pos hlast, if_pos hlast]
            exact hfirst
          · rw [if_neg hlast, if_neg hlast]
            refine bind hfirst fun later result result' hgrows hresult => ?_
            refine bind (discard hresult) fun next _ _ hnext _ => ?_
            exact ih ((hgrows.trans hnext).settled hside hsettled) (i + 1) hrest htwins

theorem levelArguments (i : Nat) {done done' : List Value} {arguments arguments' : List Node}
    (harguments : arguments ⊆ t.node.children) (htwins : Twins x y side arguments arguments')
    (hdone : TwinValues x y sides done done') :
    Lockstep x y sides (Eval.levelArguments evaluator t i done arguments)
      (Eval.levelArguments evaluator { t with node := node' } i done' arguments')
      (TwinValues x y) := by
  induction arguments generalizing sides i done done' arguments' with
  | nil =>
      cases htwins
      exact pure fun later hgrows => List.forall₂_reverse_iff.2 (hdone.of_grows hgrows)
  | cons argument rest ih =>
      obtain ⟨hargument, hrest⟩ := List.cons_subset.1 harguments
      cases htwins with
      | cons htwin htwins =>
          refine bind (Q := Value.Twin x y) (keeping done done' ?_)
            fun later value value' hgrows hvalue => ?_
          · refine bind (child heval hside hsettled i hargument htwin (.refl sides))
              fun later result result' _ hresult => ?_
            exact demand htwin.span hresult
          · exact ih (hgrows.settled hside hsettled) (i + 1) hrest htwins
              (.cons hvalue (hdone.of_grows hgrows))

end Settled

/-- A call, given the side on which its scope is made, the side on which it
is when the parameters have been bound, and that they are bound together. -/
theorem call {closed : ScopeId} {name : String} {parameters parameters' : List Parameter}
    {body body' : Node} {values values' : List Value} {made settled : Side} (program : Nat)
    (hdepth : t.depth < maxCallDepth) (hlinked : Cell.Linked x sides made { parent := some closed })
    (hbind : ∀ {later frame}, Grows sides later → later[frame]? = some made →
      Lockstep x y later (Eval.bindParameters name frame parameters values)
        (Eval.bindParameters name frame parameters' values')
        fun last surplus surplus' => TwinValues x y last surplus surplus'
          ∧ last[frame]? = some settled)
    (hsettled : settled.isSettled = true) (hbody : Twin x y settled body body') :
    Lockstep x y sides
      (do
        let frame ← Eval.newScope (some closed)
        Eval.ensuring (Scopes.drop frame) do
          let surplus ← Eval.bindParameters name frame parameters values
          Eval.ensuring (Scopes.dropValues surplus)
            (Eval.within (.callOf name) (evalTask (t.body program frame body))))
      (do
        let frame ← Eval.newScope (some closed)
        Eval.ensuring (Scopes.drop frame) do
          let surplus ← Eval.bindParameters name frame parameters' values'
          Eval.ensuring (Scopes.dropValues surplus)
            (Eval.within (.callOf name)
              (evalTask (({ t with node := node' } : Task).body program frame body'))))
      (TwinResults x y) := by
  refine bind (newScope hlinked) fun later frame frame' hgrows hframe => ?_
  obtain ⟨rfl, hmade⟩ := hframe
  refine ensuring (fun _ hstores => hstores.drop _) ?_
  refine bind (hbind hgrows hmade) fun last surplus surplus' _ hbound => ?_
  refine ensuring (fun hnext hstores =>
    abreast_dropValues hstores (hbound.1.of_grows hnext)) (within _ ?_)
  exact heval (t.body program _ body) (Task.body_inside hdepth) hbound.2 hsettled hbody

theorem levelCall {closure closure' : Closure} {values values' : List Value} (span : Span)
    (hclosure : Value.Twin x y sides (.function closure) (.function closure'))
    (hvalues : TwinValues x y sides values values') :
    Lockstep x y sides (Eval.levelCall evaluator t closure values span)
      (Eval.levelCall evaluator { t with node := node' } closure' values' span)
      (TwinResults x y) := by
  cases hclosure with
  | plain hplain => cases hplain
  | @function program definition definition' closed side hside hsettled hdefinition =>
      cases hdefinition with
      | @function _ fspan name parameters parameters' body body' hname hparameters hbody =>
          simp only [Eval.levelCall]
          by_cases hdepth : maxCallDepth ≤ t.depth
          · rw [if_pos hdepth, if_pos hdepth]
            exact keeping _ _ (fail _ _ rfl)
          · rw [if_neg hdepth, if_neg hdepth]
            -- the scope is on the side of the scope that the function closes over
            have hlinked : Cell.Linked x sides side { parent := some closed } := by
              cases side with
              | outside =>
                  intro parent hparent
                  cases hparent
                  exact hside
              | entering names => cases hsettled
              | inside =>
                  intro parent hparent
                  cases hparent
                  exact .inl hside
            refine call heval program (Nat.lt_of_not_le hdepth) hlinked
              (fun {later frame} hgrows hmade => ?_) hsettled hbody
            refine (bindParameters name hmade .same hparameters (hvalues.of_grows hgrows)).imp
              fun last surplus surplus' hlast hbound => ⟨hbound.1, hlast.settled hmade hsettled⟩
      | @renamed fspan name parameters parameters' body body' hx hparameters hbody =>
          simp only [Eval.levelCall]
          by_cases hdepth : maxCallDepth ≤ t.depth
          · rw [if_pos hdepth, if_pos hdepth]
            exact keeping _ _ (fail _ _ rfl)
          · rw [if_neg hdepth, if_neg hdepth]
            have hlinked : Cell.Linked x sides (.entering []) { parent := some closed } := by
              refine ⟨fun parent hparent => ?_, by simp⟩
              cases hparent
              exact hside
            refine call heval program (Nat.lt_of_not_le hdepth) hlinked
              (fun {later frame} hgrows hmade => ?_) rfl hbody
            exact bindRenamed name hmade hx hparameters (hvalues.of_grows hgrows)
      | _ => exact keeping _ _ (fail _ _ rfl)

/-- A level goes together with the level of a twin if the tasks inside
do. -/
theorem level (hside : sides[t.scope]? = some side) (hsettled : side.isSettled = true)
    (htwin : Twin x y side t.node node') :
    Lockstep x y sides (Eval.level evaluator t) (Eval.level evaluator { t with node := node' })
      (TwinResults x y) := by
  have hchild {inner inner' : Node} {later : List Side} (i : Nat)
      (hmember : inner ∈ t.node.children) (htwin : Twin x y side inner inner')
      (hgrows : Grows sides later) :
      Lockstep x y later (evalTask (t.child i inner))
        (evalTask { t.child i inner with node := inner' }) (TwinResults x y) :=
    child heval hside hsettled i hmember htwin hgrows
  obtain ⟨depth, program, scope, path, node⟩ := t
  unfold Eval.level
  cases htwin with
  | root hbody => exact levelAll heval hside hsettled 0 (List.Subset.refl _) hbody
  | block hbody => exact levelBlock heval hside hsettled 0 (List.Subset.refl _) hbody
  | declaration hname =>
      refine bind (declare _ hside hname (.plain rfl)) fun later _ _ _ _ => ?_
      exact pure fun next _ => .none
  | assignment htarget hvalue =>
      refine bind (hchild 1 (by simp [Node.children]) hvalue (.refl sides))
        fun later result result' hgrows hresult => ?_
      refine bind (demand hvalue.span hresult) fun next value value' hnext hvalue => ?_
      exact assignTo ((hgrows.trans hnext).settled hside hsettled) hsettled htarget hvalue
  | reference hname =>
      refine bind (lookup _ hside hsettled hname) fun later value value' _ hvalue => ?_
      exact pure fun next hnext => .some (hvalue.of_grows hnext)
  | number => exact pure fun later _ => .some (.plain rfl)
  | string => exact pure fun later _ => .some (.plain rfl)
  | boolean => exact pure fun later _ => .some (.plain rfl)
  | binary hleft hright =>
      refine bind (hchild 0 (by simp [Node.children]) hleft (.refl sides))
        fun later result result' hgrows hresult => ?_
      refine bind (demand hleft.span hresult) fun next first first' hnext hfirst => ?_
      refine bind (Q := Value.Twin x y) (keeping _ _ ?_) fun last second second' hlast hsecond => ?_
      · refine bind (hchild 1 (by simp [Node.children]) hright (hgrows.trans hnext))
          fun last result result' _ hresult => ?_
        exact demand hright.span hresult
      · exact operate _ _ (hfirst.of_grows hlast) hsecond
  | parenthesized hinner => exact hchild 0 (by simp [Node.children]) hinner (.refl sides)
  | readProperty hobject =>
      refine bind (hchild 0 (by simp [Node.children]) hobject (.refl sides))
        fun later result result' hgrows hresult => ?_
      refine bind (demand hobject.span hresult) fun next value value' _ _ => ?_
      exact keeping _ _ (fail _ _ rfl)
  | call hcallee harguments =>
      refine bind (hchild 0 (by simp [Node.children]) hcallee (.refl sides))
        fun later target target' hgrows htarget => ?_
      refine bind (keeping _ _ (levelArguments heval (hgrows.settled hside hsettled) hsettled 1
        (List.subset_cons_self ..) harguments .nil)) fun next values values' hnext hvalues => ?_
      refine callValue _ hcallee.span (htarget.of_grows hnext) hvalues fun hclosure => ?_
      exact levelCall heval _ hclosure hvalues
  | function hname hparameters hbody =>
      exact defineAs _ _ hside hsettled hname (.function hname hparameters hbody)
  | renamed hx hparameters hbody =>
      exact defineAs _ _ hside hsettled rfl (.renamed hx hparameters hbody)
  | bareReturn => exact pure fun later _ => .none
  | returnValue hvalue => exact hchild 0 (by simp [Node.children]) hvalue (.refl sides)

end Level

/-- The evaluation of a tree goes together with that of a twin. -/
theorem evalTask (t : Task) {node' : Node} (hside : sides[t.scope]? = some side)
    (hsettled : side.isSettled = true) (htwin : Twin x y side t.node node') :
    Lockstep x y sides (Eval.evalTask t) (Eval.evalTask { t with node := node' })
      (TwinResults x y) := by
  induction t using Task.induction generalizing sides side node' with
  | ih t ih =>
      rw [evalTask_eq_level, evalTask_eq_level]
      refine level (fun {later side} u {node'} hinside hside hsettled htwin => ?_) hside hsettled
        htwin
      exact ih u hinside hside hsettled htwin

end Lockstep

end Eval

-- =============================================================== programs

/-- The global scopes of two runs. -/
theorem abreast_createGlobal {x y : String} :
    Store.Abreast x y [.outside] (Scopes.createGlobal ({} : Store)).2
      (Scopes.createGlobal ({} : Store)).2 := by
  refine ⟨rfl, rfl, fun {i side} hside => ?_⟩
  cases i with
  | succ i => cases hside
  | zero =>
      cases hside
      refine .some ⟨.cons ⟨rfl, .plain rfl, rfl⟩ .nil, rfl, rfl, fun parent hparent => ?_⟩
      cases hparent

/-- Programs that are twins do the same, and fail at the same place. -/
theorem Twin.evaluate {x y : String} {root root' : Node} (h : Twin x y .outside root root') :
    (evaluate root').2 = (evaluate root).2
      ∧ (evaluate root').1.mapError Error.span = (evaluate root).1.mapError Error.span := by
  have htogether : Eval.Together x y [.outside] (Eval.TwinResults x y)
      (runProgram root { scopes := ({} : Store) }) (runProgram root' { scopes := ({} : Store) }) :=
    Eval.Lockstep.evalTask ⟨0, 0, 0, [], root⟩ rfl rfl h [.outside]
      { scopes := (Scopes.createGlobal ({} : Store)).2 }
      { scopes := (Scopes.createGlobal ({} : Store)).2 } (.refl _) abreast_createGlobal rfl
  unfold ScopedScript.evaluate
  generalize runProgram root { scopes := ({} : Store) } = r,
    runProgram root' { scopes := ({} : Store) } = r' at htogether
  cases htogether with
  | ok _ _ hprinted _ => exact ⟨hprinted, rfl⟩
  | error hspan hprinted => exact ⟨hprinted, congrArg Except.error hspan⟩

/-- A parameter of a function may be called by any name that the function
does not use, unless a function inside it is called like the parameter:
the program prints the same, and it ends well or fails at the same place
as before. -/
theorem renaming_a_parameter_changes_nothing {root : Node} {p : Path} {span : Span} {name : String}
    {parameters : List Parameter} {body : Node}
    (hf : root.at? p = some (.function span name parameters body)) {x y : String}
    (hx : x ∈ parameters.map (·.name)) (hbody : x ∉ body.functionNames)
    (hy : y ∉ (Node.function span name parameters body).names) :
    (evaluate (root.modifyAt (·.rename x y) p)).2 = (evaluate root).2
      ∧ (evaluate (root.modifyAt (·.rename x y) p)).1.mapError Error.span
        = (evaluate root).1.mapError Error.span := by
  have hchild : body ∈ (Node.function span name parameters body).children :=
    List.mem_singleton_self _
  have hparameters (q : Parameter) (hq : q ∈ parameters) : q.name ≠ y := by
    intro hname
    refine hy (Node.mem_collect_self (List.mem_cons_of_mem _ ?_))
    rw [← hname]
    exact List.mem_map_of_mem hq
  have htwin : Twin x y .outside (.function span name parameters body)
      ((Node.function span name parameters body).rename x y) := by
    refine .renamed hx (forall₂_rename hparameters) ?_
    exact Twin.rename body (fun hname => hy (Node.mem_collect_of_child hchild hname)) hbody
  exact (Twin.modifyAt hf htwin).evaluate

/-- A function whose parameter is used by a function inside it. -/
def greeter : Node :=
  .root ⟨0, 78⟩
    [.function ⟨0, 56⟩ "greet" [⟨"a", ⟨15, 16⟩⟩]
      (.block ⟨18, 56⟩
        [.function ⟨20, 42⟩ "whom" [⟨"b", ⟨34, 35⟩⟩]
          (.block ⟨37, 42⟩ [.ret ⟨39, 40⟩ (some (.binary ⟨39, 40⟩ .add
            (.reference ⟨39, 40⟩ "a") (.reference ⟨39, 40⟩ "b")))]),
          .ret ⟨43, 54⟩ (some (.reference ⟨50, 54⟩ "whom"))]),
      .call ⟨57, 78⟩ (.reference ⟨57, 62⟩ "print")
        [.call ⟨63, 77⟩ (.call ⟨63, 72⟩ (.reference ⟨63, 68⟩ "greet") [.string ⟨69, 71⟩ "hi "])
          [.string ⟨73, 76⟩ "you"]]]

/-- The parameter that the inner function looks up is found under its new
name. -/
theorem renaming_a_parameter_changes_nothing_greeter :
    "a" ∈ [Parameter.mk "a" ⟨15, 16⟩].map (·.name)
      ∧ (evaluate greeter).2 = #[[.string "hi you"]]
      ∧ (evaluate (greeter.modifyAt (·.rename "a" "c") [0])).2 = (evaluate greeter).2 := by
  have hx : "a" ∈ [Parameter.mk "a" ⟨15, 16⟩].map (·.name) := by decide
  have hprinted : (evaluate greeter).2 = #[[.string "hi you"]] := by decide +kernel
  have hsame := @renaming_a_parameter_changes_nothing greeter [0] _ _ _ _ rfl "a" "c" hx
    (by decide) (by decide)
  exact ⟨hx, hprinted, hsame.1⟩

end ScopedScript
