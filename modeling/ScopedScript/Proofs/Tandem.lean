/-
Two evaluations side by side.

The same node is evaluated in two stores, in scopes that stand for each
other. What the one evaluation does to its store the other one does to its
own, on the scopes that stand for those of the first. This file carries
such a likeness through the evaluator: given that the operations answer
alike and leave stores that are in step, evaluation yields results that are
alike, prints the same and leaves stores that are in step.

# The correspondence

`Pairs` says which scopes stand for each other. It does not change while
the two evaluations run: scopes that have yet to be made are paired
beforehand, by the order in which they will be made. Values are alike if
they are the same but for the scopes they close over (`Value.Alike`).

# One of the two keeps the books

Whether letting go of a scope frees it can be told alike only as long as
the scope is let go of by someone who held it. So the stores are in step
under a custody of the first one, and `Paced` follows what its evaluation
has at hand just as `Settles` does. The second evaluation needs no books of
its own: it does the same.
-/
import Mathlib.Data.List.Forall2
import ScopedScript.Proofs.Custody

namespace ScopedScript

/-- Values that are the same but for the scopes they close over. -/
inductive Value.Alike (Pairs : ScopeId → ScopeId → Prop) : Value → Value → Prop
  | plain {value : Value} (hplain : value.scope? = none) : Value.Alike Pairs value value
  | function {program : Nat} {definition : Node} {scope scope' : ScopeId}
      (hscope : Pairs scope scope') :
      Value.Alike Pairs (.function ⟨program, definition, scope⟩)
        (.function ⟨program, definition, scope'⟩)

namespace Value.Alike

variable {Pairs : ScopeId → ScopeId → Prop} {value value' : Value}

theorem scope? (h : Value.Alike Pairs value value') :
    Option.Rel Pairs value.scope? value'.scope? := by
  cases h with
  | plain hplain =>
      rw [hplain]
      exact .none
  | function hscope => exact .some hscope

theorem kind_eq (h : Value.Alike Pairs value value') : value'.kind = value.kind := by
  cases h <;> rfl

theorem printed_eq (h : Value.Alike Pairs value value') : value'.printed = value.printed := by
  cases h <;> rfl

/-- Operators do not look at scopes. -/
theorem combine_eq {left left' right right' : Value} (operator : Operator)
    (hleft : Value.Alike Pairs left left') (hright : Value.Alike Pairs right right') :
    left'.combine operator right' = left.combine operator right := by
  cases hleft with
  | plain hplain =>
      cases hright with
      | plain hplain' => rfl
      | function hscope => cases left <;> rfl
  | function hscope =>
      cases hright with
      | plain hplain' => rfl
      | function hscope' => rfl

/-- Holding values that are alike keeps a relation that holding scopes
keeps. -/
theorem holdValue {σ : Type} [Scopes σ] {R : σ → σ → Prop} {s s' : σ}
    (h : Value.Alike Pairs value value') (hrelated : R s s')
    (hhold : ∀ {scope scope'}, Pairs scope scope' →
      R (Scopes.hold scope s) (Scopes.hold scope' s')) :
    R (Scopes.holdValue value s) (Scopes.holdValue value' s') := by
  have hscope := h.scope?
  unfold Scopes.holdValue
  generalize value.scope? = closed, value'.scope? = closed' at hscope
  cases hscope with
  | none => exact hrelated
  | some hpair => exact hhold hpair

end Value.Alike

/-- The same fault, or answers that are alike. -/
inductive AnswersAlike {α : Type} (V : α → α → Prop) :
    Except ScopeFault α → Except ScopeFault α → Prop
  | ok {a a' : α} (hanswer : V a a') : AnswersAlike V (.ok a) (.ok a')
  | error {fault : ScopeFault} : AnswersAlike V (.error fault) (.error fault)

theorem AnswersAlike.cases {α : Type} {V : α → α → Prop} {answer answer' : Except ScopeFault α}
    (h : AnswersAlike V answer answer') :
    (∃ fault, answer = .error fault ∧ answer' = .error fault)
      ∨ ∃ a a', answer = .ok a ∧ answer' = .ok a' ∧ V a a' := by
  cases h with
  | ok hanswer => exact .inr ⟨_, _, rfl, rfl, hanswer⟩
  | error => exact .inl ⟨_, rfl, rfl⟩

/-- When two stores are in step, and that the operations keep them so. -/
structure Tandem (σ : Type) [Scopes σ] where
  /-- The books of the first store. -/
  custody : Custody σ
  /-- The scope of the first store and that of the second stand for each
  other. -/
  Pairs : ScopeId → ScopeId → Prop
  InStep : σ → σ → Prop
  -- operations
  create : ∀ {s s' l scope outer outer'}, custody.Held l s → custody.Standing s l scope →
    outer ∈ l → Pairs outer outer' → InStep s s' →
    Pairs (Scopes.create (some outer) s).1 (Scopes.create (some outer') s').1
      ∧ InStep (Scopes.create (some outer) s).2 (Scopes.create (some outer') s').2
  hold : ∀ {s s' scope scope'}, Pairs scope scope' → InStep s s' →
    InStep (Scopes.hold scope s) (Scopes.hold scope' s')
  drop : ∀ {s s' l scope dropped dropped'}, custody.Held (dropped :: l) s →
    custody.Standing s l scope → Pairs dropped dropped' → InStep s s' →
    InStep (Scopes.drop dropped s) (Scopes.drop dropped' s')
  declare : ∀ {s s' scope scope'} (name : String), Pairs scope scope' → InStep s s' →
    AnswersAlike (fun _ _ => True) (Scopes.declare scope name .unknown s).1
        (Scopes.declare scope' name .unknown s').1
      ∧ InStep (Scopes.declare scope name .unknown s).2 (Scopes.declare scope' name .unknown s').2
  assign : ∀ {s s' l scope scope' value value'} (name : String),
    custody.Held (value.scope?.toList ++ l) s → custody.Standing s l scope →
    Pairs scope scope' → Value.Alike Pairs value value' → InStep s s' →
    AnswersAlike (fun _ _ => True) (Scopes.assign scope name value s).1
        (Scopes.assign scope' name value' s').1
      ∧ InStep (Scopes.assign scope name value s).2 (Scopes.assign scope' name value' s').2
  lookup : ∀ {s s' l scope scope'} (name : String), custody.Held l s →
    custody.Standing s l scope → Pairs scope scope' → InStep s s' →
    AnswersAlike (Value.Alike Pairs) (Scopes.lookup scope name s).1
        (Scopes.lookup scope' name s').1
      ∧ InStep (Scopes.lookup scope name s).2 (Scopes.lookup scope' name s').2

namespace Tandem

variable {σ α β : Type} [Scopes σ] (T : Tandem σ)

/-- Values that come up at the same time. -/
abbrev AlikeValues : List Value → List Value → Prop := List.Forall₂ (Value.Alike T.Pairs)

/-- Results that come up at the same time. -/
abbrev AlikeResults : Option Value → Option Value → Prop := Option.Rel (Value.Alike T.Pairs)

open Eval (Outcome Reports Settled Settles Releases yields)

/-- Outcomes that are alike: both steps yield something, or both fail with
the same error. -/
inductive Matched (V : α → α → Prop) : Outcome σ α → Outcome σ α → Prop
  | ok {a a' : α} {w w' : World σ} (hvalue : V a a') (hstep : T.InStep w.scopes w'.scopes)
      (hprinted : w'.printed = w.printed) : Matched V (.ok a w) (.ok a' w')
  | error {e : Error} {w w' : World σ} (hstep : T.InStep w.scopes w'.scopes)
      (hprinted : w'.printed = w.printed) : Matched V (.error e w) (.error e w')

/-- The first step settles, and the second one does the same. -/
def Paced (A : List ScopeId) (scope : ScopeId) (P : List ScopeId) (m m' : Eval σ α)
    (V : α → α → Prop) (Q : α → List ScopeId) : Prop :=
  ∀ w w' outside, T.custody.Standing w.scopes outside scope → A ⊆ outside →
    T.custody.Held (P ++ outside) w.scopes → T.InStep w.scopes w'.scopes →
    w'.printed = w.printed →
    Settled T.custody w.scopes outside Q (m w) ∧ T.Matched V (m w) (m' w')

/-- The changes to the stores let go of the same; the first one of these
scopes. -/
structure ReleasesBoth (l : List ScopeId) (f f' : σ → σ) : Prop where
  releases : Releases T.custody l f
  inStep : ∀ s s' outside scope, T.custody.Standing s outside scope →
    T.custody.Held (l ++ outside) s → T.InStep s s' → T.InStep (f s) (f' s')

variable {T}

-- ================================================================ releases

theorem releasesBoth_drop {scope scope' : ScopeId} (hscope : T.Pairs scope scope') :
    T.ReleasesBoth [scope] (Scopes.drop scope) (Scopes.drop scope') :=
  ⟨Eval.releases_drop scope, fun _ _ _ _ hstanding hheld => T.drop hheld hstanding hscope⟩

theorem releasesBoth_dropValue {value value' : Value} (hvalue : Value.Alike T.Pairs value value') :
    T.ReleasesBoth value.scope?.toList (Scopes.dropValue value) (Scopes.dropValue value') := by
  refine ⟨Eval.releases_dropValue value, ?_⟩
  have hscope := hvalue.scope?
  unfold Scopes.dropValue
  generalize value.scope? = scope, value'.scope? = scope' at hscope
  cases hscope with
  | none => exact fun _ _ _ _ _ _ hstep => hstep
  | some hpair => exact (releasesBoth_drop hpair).inStep

theorem releasesBoth_dropValues {values values' : List Value}
    (hvalues : T.AlikeValues values values') :
    T.ReleasesBoth (closed values) (Scopes.dropValues values) (Scopes.dropValues values') := by
  refine ⟨Eval.releases_dropValues values, ?_⟩
  unfold Scopes.dropValues
  induction hvalues with
  | nil => exact fun _ _ _ _ _ _ hstep => hstep
  | @cons value value' values values' hvalue hvalues ih =>
      intro s s' outside scope hstanding hheld hstep
      rw [closed_cons, List.append_assoc] at hheld
      obtain ⟨hrest, hevolves, -⟩ := Eval.releases_dropValue value s _ hheld
      have hwider := T.custody.standing_later (T.custody.refl s)
        (List.subset_append_right (closed values) outside) hstanding
      refine ih _ _ outside scope ?_ hrest ?_
      · exact T.custody.standing_later hevolves (List.Subset.refl _) hstanding
      · exact (releasesBoth_dropValue hvalue).inStep s s' _ scope hwider hheld hstep

-- ================================================================ outcomes

namespace Matched

variable {s : σ} {outside l : List ScopeId} {scope : ScopeId} {V : α → α → Prop}
  {Q : α → List ScopeId} {r r' : Outcome σ α}

/-- What was set aside for two steps is let go of when they are over. -/
theorem ensured {f f' : σ → σ} (h : T.Matched V r r') (hf : T.ReleasesBoth l f f')
    (hstanding : T.custody.Standing s outside scope)
    (hsettled : Settled T.custody s (l ++ outside) Q r) :
    T.Matched V (Eval.ensured f r) (Eval.ensured f' r') := by
  cases h with
  | @ok a a' w w' hvalue hstep hprinted =>
      obtain ⟨hevolves, hheld⟩ := hsettled
      have hperm : (Q a ++ (l ++ outside)).Perm (l ++ (Q a ++ outside)) := by
        rw [← List.append_assoc, ← List.append_assoc]
        exact List.perm_append_comm.append_right outside
      have hstanding := T.custody.standing_later hevolves
        (List.subset_append_right (Q a) outside) hstanding
      refine .ok hvalue ?_ hprinted
      exact hf.inStep _ _ _ _ hstanding (T.custody.perm hheld hperm) hstep
  | error hstep hprinted =>
      obtain ⟨hevolves, hheld, -⟩ := hsettled
      have hstanding := T.custody.standing_later hevolves (List.Subset.refl _) hstanding
      exact .error (hf.inStep _ _ _ _ hstanding hheld hstep) hprinted

/-- Values that were kept are let go of if the steps failed. -/
theorem kept {values values' : List Value} (h : T.Matched V r r')
    (hvalues : T.AlikeValues values values') (hstanding : T.custody.Standing s outside scope)
    (hsettled : Settled T.custody s (closed values ++ outside) Q r) :
    T.Matched V (Eval.kept values r) (Eval.kept values' r') := by
  cases h with
  | ok hvalue hstep hprinted => exact .ok hvalue hstep hprinted
  | error hstep hprinted =>
      exact (Matched.error hstep hprinted).ensured (releasesBoth_dropValues hvalues) hstanding
        hsettled

end Matched

-- =================================================================== steps

namespace Paced

variable {A P l : List ScopeId} {scope scope' : ScopeId} {m m' : Eval σ α}
  {V : α → α → Prop} {U : β → β → Prop} {Q : α → List ScopeId} {R : β → List ScopeId}

theorem pure {a a' : α} (hvalue : V a a') :
    T.Paced A scope (Q a) (Pure.pure a) (Pure.pure a') V Q :=
  fun w _ outside hstanding haside hheld hstep hprinted =>
    ⟨Settles.pure a w outside hstanding haside hheld, .ok hvalue hstep hprinted⟩

theorem fail {fault : RuntimeFault} (hfault : fault.scope? = none) (span : Span) :
    T.Paced A scope [] (Eval.fail fault span) (Eval.fail fault span) V Q :=
  fun _ _ _ _ _ hheld hstep hprinted =>
    ⟨Settled.failed hfault span hheld, .error hstep hprinted⟩

theorem bind {n n' : Eval σ β} {f f' : β → Eval σ α} (hn : T.Paced A scope P n n' U R)
    (hf : ∀ b b', U b b' → T.Paced A scope (R b) (f b) (f' b') V Q) :
    T.Paced A scope P (n >>= f) (n' >>= f') V Q := by
  intro w w' outside hstanding haside hheld hstep hprinted
  obtain ⟨hsettled, hmatched⟩ := hn w w' outside hstanding haside hheld hstep hprinted
  show Settled T.custody w.scopes outside Q (EStateM.bind n f w)
    ∧ T.Matched V (EStateM.bind n f w) (EStateM.bind n' f' w')
  unfold EStateM.bind
  generalize n w = r, n' w' = r' at hsettled hmatched
  cases hmatched with
  | @ok b b' w₁ w₁' hvalue hstep hprinted =>
      obtain ⟨hevolves, hheld⟩ := hsettled
      have hstanding := T.custody.standing_later hevolves (List.Subset.refl _) hstanding
      obtain ⟨hrest, hmatched⟩ :=
        hf b b' hvalue w₁ w₁' outside hstanding haside hheld hstep hprinted
      exact ⟨hrest.of_evolves hevolves, hmatched⟩
  | error hstep hprinted => exact ⟨hsettled, .error hstep hprinted⟩

/-- Holds can be written down in any order. -/
theorem perm {P' : List ScopeId} {Q' : α → List ScopeId} (hm : T.Paced A scope P m m' V Q)
    (hpre : P'.Perm P) (hpost : ∀ a, (Q a).Perm (Q' a)) : T.Paced A scope P' m m' V Q' := by
  intro w w' outside hstanding haside hheld hstep hprinted
  obtain ⟨hsettled, hmatched⟩ := hm w w' outside hstanding haside
    (T.custody.perm hheld (hpre.append_right outside)) hstep hprinted
  refine ⟨?_, hmatched⟩
  generalize m w = r at hsettled
  cases r with
  | ok a w₁ => exact ⟨hsettled.1, T.custody.perm hsettled.2 ((hpost a).append_right outside)⟩
  | error e w₁ => exact hsettled

/-- What is at hand on the way in can be written down in another order. -/
theorem perm_left {P' : List ScopeId} (hm : T.Paced A scope P m m' V Q) (hpre : P'.Perm P) :
    T.Paced A scope P' m m' V Q :=
  hm.perm hpre fun _ => .refl _

theorem change {f f' : σ → σ} (hf : T.ReleasesBoth l f f') :
    T.Paced A scope l (Eval.change f) (Eval.change f') (fun _ _ => True) fun _ => [] :=
  fun w _ outside hstanding haside hheld hstep hprinted =>
    ⟨Settles.change hf.releases w outside hstanding haside hheld,
      .ok trivial (hf.inStep _ _ _ _ hstanding hheld hstep) hprinted⟩

theorem holdValue {value value' : Value} (hvalue : Value.Alike T.Pairs value value') :
    T.Paced A scope value.scope?.toList (Eval.change (Scopes.holdValue value))
      (Eval.change (Scopes.holdValue value')) (fun _ _ => True)
      fun _ => value.scope?.toList ++ value.scope?.toList :=
  fun w _ outside hstanding haside hheld hstep hprinted =>
    ⟨Settles.holdValue value w outside hstanding haside hheld,
      .ok trivial (hvalue.holdValue hstep fun hpair => T.hold hpair hstep) hprinted⟩

theorem holdScope (hscope : T.Pairs scope scope') (program : Nat) (definition : Node) :
    T.Paced A scope []
      (Eval.change (Scopes.holdValue (.function ⟨program, definition, scope⟩)))
      (Eval.change (Scopes.holdValue (.function ⟨program, definition, scope'⟩)))
      (fun _ _ => True) fun _ => [scope] :=
  fun w _ outside hstanding haside hheld hstep hprinted =>
    ⟨Settles.holdScope program definition w outside hstanding haside hheld,
      .ok trivial (T.hold hscope hstep) hprinted⟩

theorem ensuring {f f' : σ → σ} (hf : T.ReleasesBoth l f f')
    (hm : T.Paced (l ++ A) scope P m m' V Q) :
    T.Paced A scope (P ++ l) (Eval.ensuring f m) (Eval.ensuring f' m') V Q := by
  intro w w' outside hstanding haside hheld hstep hprinted
  rw [List.append_assoc] at hheld
  have hwider := T.custody.standing_later (T.custody.refl w.scopes)
    (List.subset_append_right l outside) hstanding
  have haside : l ++ A ⊆ l ++ outside := List.append_subset.2
    ⟨List.subset_append_left .., List.Subset.trans haside (List.subset_append_right ..)⟩
  obtain ⟨hsettled, hmatched⟩ := hm w w' (l ++ outside) hwider haside hheld hstep hprinted
  rw [Eval.ensuring_eq_finish, Eval.ensuring_eq_finish]
  exact ⟨hsettled.ensured hf.releases, hmatched.ensured hf hstanding hsettled⟩

theorem keeping {values values' : List Value} (hvalues : T.AlikeValues values values')
    (hm : T.Paced A scope P m m' V Q) :
    T.Paced A scope (P ++ closed values) (Eval.keeping values m) (Eval.keeping values' m') V
      fun a => Q a ++ closed values := by
  intro w w' outside hstanding haside hheld hstep hprinted
  rw [List.append_assoc] at hheld
  have hwider := T.custody.standing_later (T.custody.refl w.scopes)
    (List.subset_append_right (closed values) outside) hstanding
  obtain ⟨hsettled, hmatched⟩ := hm w w' (closed values ++ outside) hwider
    (List.Subset.trans haside (List.subset_append_right ..)) hheld hstep hprinted
  rw [Eval.keeping_eq_finish, Eval.keeping_eq_finish]
  exact ⟨hsettled.kept, hmatched.kept hvalues hstanding hsettled⟩

theorem within (context : Context) (hm : T.Paced A scope P m m' V Q) :
    T.Paced A scope P (Eval.within context m) (Eval.within context m') V Q := by
  intro w w' outside hstanding haside hheld hstep hprinted
  obtain ⟨hsettled, hmatched⟩ := hm w w' outside hstanding haside hheld hstep hprinted
  rw [Eval.within_eq_finish, Eval.within_eq_finish]
  show Settled T.custody w.scopes outside Q (Eval.inContext context (m w))
    ∧ T.Matched V (Eval.inContext context (m w)) (Eval.inContext context (m' w'))
  generalize m w = r, m' w' = r' at hsettled hmatched
  cases hmatched with
  | ok hvalue hstep hprinted => exact ⟨hsettled, .ok hvalue hstep hprinted⟩
  | error hstep hprinted => exact ⟨hsettled, .error hstep hprinted⟩

/-- The scopes of two calls stand for each other, since they are made next in
stores that are in step. They are held until the calls are over. -/
theorem inNewScope {outer outer' : ScopeId} (houter : T.Pairs outer outer')
    {f f' : ScopeId → Eval σ α}
    (hf : ∀ frame frame', T.Pairs frame frame' → T.Paced [] frame P (f frame) (f' frame') V Q) :
    T.Paced (outer :: A) scope P
      (Eval.newScope (some outer) >>= fun frame => Eval.ensuring (Scopes.drop frame) (f frame))
      (Eval.newScope (some outer') >>= fun frame => Eval.ensuring (Scopes.drop frame) (f' frame))
      V Q := by
  intro w w' outside hstanding haside hheld hstep hprinted
  have houtside : outer ∈ outside := haside (List.mem_cons_self ..)
  have hwider := T.custody.standing_later (T.custody.refl w.scopes)
    (List.subset_append_right P outside) hstanding
  obtain ⟨hmade, hevolves, hframe⟩ := T.custody.create hheld (List.subset_append_right ..)
    hstanding houtside
  obtain ⟨hpair, hstep⟩ := T.create hheld hwider (List.mem_append_right _ houtside) houter hstep
  show Settled T.custody w.scopes outside Q (Eval.ensuring (Scopes.drop _) _ ⟨_, w.printed⟩)
    ∧ T.Matched V (Eval.ensuring (Scopes.drop _) _ ⟨_, w.printed⟩)
      (Eval.ensuring (Scopes.drop _) _ ⟨_, w'.printed⟩)
  rw [Eval.ensuring_eq_finish, Eval.ensuring_eq_finish]
  obtain ⟨hsettled, hmatched⟩ := hf _ _ hpair ⟨_, w.printed⟩ ⟨_, w'.printed⟩ (_ :: outside) hframe
    (List.nil_subset _) (T.custody.perm hmade List.perm_middle.symm) hstep hprinted
  have hdrop := releasesBoth_drop hpair
  have hstanding := T.custody.standing_later hevolves (List.Subset.refl _) hstanding
  exact ⟨(hsettled.ensured hdrop.releases).of_evolves hevolves,
    hmatched.ensured hdrop hstanding hsettled⟩

-- ============================================================== operations

/-- Operations that answer alike, of which the first one settles. -/
theorem onScopes (span : Span) {f f' : σ → Except ScopeFault α × σ}
    {report : ScopeFault → RuntimeFault}
    (hsettles : Settles T.custody A scope P (Eval.onScopesAs report span f) Q)
    (hf : ∀ s s' outside, T.custody.Standing s outside scope → T.custody.Held (P ++ outside) s →
      T.InStep s s' → AnswersAlike V (f s).1 (f' s').1 ∧ T.InStep (f s).2 (f' s').2) :
    T.Paced A scope P (Eval.onScopesAs report span f) (Eval.onScopesAs report span f') V Q := by
  intro w w' outside hstanding haside hheld hstep hprinted
  refine ⟨hsettles w outside hstanding haside hheld, ?_⟩
  have hboth := hf w.scopes w'.scopes outside hstanding hheld hstep
  obtain ⟨scopes, printed⟩ := w
  obtain ⟨scopes', printed'⟩ := w'
  unfold Eval.onScopesAs
  dsimp only at hboth hprinted ⊢
  generalize f scopes = r, f' scopes' = r' at hboth
  obtain ⟨answer, scopes₁⟩ := r
  obtain ⟨answer', scopes₁'⟩ := r'
  obtain ⟨hanswers, hstep⟩ := hboth
  dsimp only at hanswers hstep
  cases hanswers with
  | ok hanswer => exact .ok hanswer hstep hprinted
  | error => exact .error hstep hprinted

theorem declare (span : Span) (name : String) (hscope : T.Pairs scope scope') :
    T.Paced A scope [] (Eval.onScopes span (Scopes.declare scope name .unknown))
      (Eval.onScopes span (Scopes.declare scope' name .unknown)) (fun _ _ => True) fun _ => [] :=
  onScopes span (Settles.declare span name .unknown)
    fun _ _ _ _ _ hstep => T.declare name hscope hstep

theorem assign (span : Span) (name : String) (hscope : T.Pairs scope scope')
    {value value' : Value} (hvalue : Value.Alike T.Pairs value value')
    {report : ScopeFault → RuntimeFault} [Reports report] :
    T.Paced A scope value.scope?.toList
      (Eval.onScopesAs report span (Scopes.assign scope name value))
      (Eval.onScopesAs report span (Scopes.assign scope' name value')) (fun _ _ => True)
      fun _ => [] :=
  onScopes span (Settles.assign span name value)
    fun _ _ _ hstanding hheld hstep => T.assign name hheld hstanding hscope hvalue hstep

theorem lookup (span : Span) (name : String) (hscope : T.Pairs scope scope') :
    T.Paced A scope [] (Eval.onScopes span (Scopes.lookup scope name))
      (Eval.onScopes span (Scopes.lookup scope' name)) (Value.Alike T.Pairs)
      fun value => value.scope?.toList :=
  onScopes span (Settles.lookup span name)
    fun _ _ _ hstanding hheld hstep => T.lookup name hheld hstanding hscope hstep

-- ============================================================== constructs

theorem alikeValues_of_result {result result' : Option Value}
    (hresult : T.AlikeResults result result') :
    T.AlikeValues result.toList result'.toList := by
  cases hresult with
  | none => exact .nil
  | some hvalue => exact .cons hvalue .nil

theorem discard {result result' : Option Value} (hresult : T.AlikeResults result result') :
    T.Paced A scope (yields result) (Eval.discard result) (Eval.discard result')
      (fun _ _ => True) fun _ => [] :=
  change (releasesBoth_dropValues (alikeValues_of_result hresult))

theorem demand (node : Node) {result result' : Option Value}
    (hresult : T.AlikeResults result result') :
    T.Paced A scope (yields result) (Eval.demand node result) (Eval.demand node result')
      (Value.Alike T.Pairs) fun value => value.scope?.toList := by
  cases hresult with
  | none => exact fail rfl _
  | some hvalue =>
      refine (pure hvalue).perm_left ?_
      simp [yields]

/-- A failure lets go of the values at hand. -/
theorem keeping_fail {values values' : List Value} (hvalues : T.AlikeValues values values')
    {fault : RuntimeFault} (hfault : fault.scope? = none) (span : Span) :
    T.Paced A scope (closed values) (Eval.keeping values (Eval.fail fault span))
      (Eval.keeping values' (Eval.fail fault span)) V Q := by
  intro w w' outside hstanding haside hheld hstep hprinted
  refine ⟨Settles.keeping_fail values hfault span w outside hstanding haside hheld, ?_⟩
  refine .error ?_ hprinted
  exact (releasesBoth_dropValues hvalues).inStep _ _ _ _ hstanding hheld hstep

theorem assignTo (hscope : T.Pairs scope scope') (target : Node) {value value' : Value}
    (hvalue : Value.Alike T.Pairs value value') :
    T.Paced A scope value.scope?.toList (Eval.assignTo scope target value)
      (Eval.assignTo scope' target value') T.AlikeResults yields := by
  cases target with
  | reference span name =>
      refine bind (holdValue hvalue) fun _ _ _ => ?_
      have hkept : T.Paced A scope (value.scope?.toList ++ closed [value])
          (Eval.keeping [value] (Eval.onScopes span (Scopes.assign scope name value))) _ _ _ :=
        keeping (.cons hvalue .nil) (assign span name hscope hvalue)
      rw [closed_cons, closed_nil, List.append_nil] at hkept
      refine bind hkept fun _ _ _ => ?_
      refine (pure (Q := yields) (a := some value) (.some hvalue)).perm_left ?_
      simp [yields]
  | _ =>
      refine (keeping_fail (.cons hvalue .nil) rfl _).perm_left ?_
      simp

theorem operate (span : Span) (operator : Operator) {left left' right right' : Value}
    (hleft : Value.Alike T.Pairs left left') (hright : Value.Alike T.Pairs right right') :
    T.Paced A scope (closed [left, right]) (Eval.operate span operator left right)
      (Eval.operate span operator left' right') T.AlikeResults yields := by
  refine bind (change (releasesBoth_dropValues (.cons hleft (.cons hright .nil)))) fun _ _ _ => ?_
  rw [hleft.combine_eq operator hright]
  cases hvalue : left.combine operator right with
  | error fault => exact fail (Settles.scope?_of_combine hvalue) _
  | ok value =>
      have hplain := Eval.Keeps.scope?_combine hvalue
      refine (pure (Q := yields) (a := some value) (.some (.plain hplain))).perm_left ?_
      simp [yields, hplain]

theorem defineAs (program : Nat) (hscope : T.Pairs scope scope') (span : Span) (name : String)
    (definition : Node) :
    T.Paced A scope [] (Eval.defineAs program scope span name definition)
      (Eval.defineAs program scope' span name definition) T.AlikeResults yields := by
  have hvalue : Value.Alike T.Pairs (.function ⟨program, definition, scope⟩)
      (.function ⟨program, definition, scope'⟩) := .function hscope
  refine bind (holdScope hscope program definition) fun _ _ _ => ?_
  refine bind (U := fun _ _ => True) (R := fun _ => [scope]) ?_ fun _ _ _ =>
    pure (Q := yields) (a := some (Value.function ⟨program, definition, scope⟩)) (.some hvalue)
  refine keeping (P := []) (Q := fun _ => []) (.cons hvalue .nil) ?_
  refine bind (declare span name hscope) fun _ _ _ => ?_
  refine bind (holdScope hscope program definition) fun _ _ _ => ?_
  exact assign span name hscope hvalue

theorem callNative (span : Span) (name : String) {values values' : List Value}
    (hvalues : T.AlikeValues values values') :
    T.Paced A scope [] (Eval.callNative span name values) (Eval.callNative span name values')
      T.AlikeResults yields := by
  rw [Eval.callNative_eq, Eval.callNative_eq]
  by_cases hname : name = "print"
  · rw [if_pos hname, if_pos hname]
    have hcall : values'.map Value.printed = values.map Value.printed := by
      induction hvalues with
      | nil => rfl
      | cons hvalue _ ih => rw [List.map_cons, List.map_cons, hvalue.printed_eq, ih]
    intro w w' outside hstanding haside hheld hstep hprinted
    refine ⟨⟨T.custody.refl w.scopes, hheld⟩, .ok .none hstep ?_⟩
    show w'.printed.push _ = w.printed.push _
    rw [hprinted, hcall]
  · rw [if_neg hname, if_neg hname]
    exact fail rfl _

theorem callValue {call call' : Eval.Caller σ} (span calleeSpan : Span)
    {target target' : Option Value} (htarget : T.AlikeResults target target')
    {values values' : List Value} (hvalues : T.AlikeValues values values')
    (hcall : ∀ closure closure', Value.Alike T.Pairs (.function closure) (.function closure') →
      T.Paced (closure.scope :: A) scope (closed values) (call closure values span)
        (call' closure' values' span) T.AlikeResults yields) :
    T.Paced A scope (closed values ++ yields target)
      (Eval.callValue call span calleeSpan target values)
      (Eval.callValue call' span calleeSpan target' values') T.AlikeResults yields := by
  cases htarget with
  | none =>
      refine (keeping_fail hvalues rfl _).perm_left ?_
      simp [yields]
  | @some value value' hvalue =>
      cases hvalue with
      | function hscope =>
          exact ensuring (releasesBoth_dropValue (.function hscope)) (hcall _ _ (.function hscope))
      | plain hplain =>
          cases value with
          | native name =>
              refine (ensuring (releasesBoth_dropValues hvalues)
                (callNative span name hvalues)).perm_left ?_
              simp [yields, Value.scope?]
          | function closure => cases hplain
          | _ =>
              refine (keeping_fail hvalues rfl _).perm_left ?_
              simp [yields, Value.scope?]

theorem bindParameters (function : String) (hscope : T.Pairs scope scope')
    (parameters : List Parameter) {values values' : List Value}
    (hvalues : T.AlikeValues values values') :
    T.Paced A scope (closed values) (Eval.bindParameters function scope parameters values)
      (Eval.bindParameters function scope' parameters values') T.AlikeValues closed := by
  induction parameters generalizing values values' with
  | nil => exact pure hvalues
  | cons parameter rest ih =>
      unfold Eval.bindParameters
      refine bind (within _ (keeping hvalues (declare parameter.span parameter.name hscope)))
        fun _ _ _ => ?_
      cases hvalues with
      | nil => exact ih .nil
      | cons hvalue hvalues =>
          rw [closed_cons]
          exact bind (keeping hvalues (assign parameter.span parameter.name hscope hvalue))
            fun _ _ _ => ih hvalues

-- ================================================================== levels

/-- What goes without anything set aside goes in any case. -/
theorem anyhow (hm : T.Paced [] scope P m m' V Q) : T.Paced A scope P m m' V Q :=
  fun w w' outside hstanding _ hheld hstep hprinted =>
    hm w w' outside hstanding (List.nil_subset _) hheld hstep hprinted

section Level

variable {t : Task}
  (heval : ∀ u, u.Inside t → ∀ {scope' : ScopeId}, T.Pairs u.scope scope' →
    T.Paced [] u.scope [] (Eval.evalTask u) (Eval.evalTask { u with scope := scope' })
      T.AlikeResults yields)

include heval

section Children

variable (hscope : T.Pairs t.scope scope')

include hscope

theorem child {node : Node} (n : Nat) (hnode : node ∈ t.node.children) :
    T.Paced A t.scope [] (Eval.evalTask (t.child n node))
      (Eval.evalTask (({ t with scope := scope' } : Task).child n node)) T.AlikeResults yields :=
  (heval _ (Task.child_inside hnode) hscope).anyhow

theorem levelAll (n : Nat) {body : List Node} (hbody : body ⊆ t.node.children) :
    T.Paced A t.scope [] (Eval.levelAll Eval.evaluator t n body)
      (Eval.levelAll Eval.evaluator { t with scope := scope' } n body) T.AlikeResults yields := by
  induction body generalizing n with
  | nil => exact pure (Q := yields) (a := none) .none
  | cons statement rest ih =>
      obtain ⟨hstatement, hrest⟩ := List.cons_subset.1 hbody
      refine bind (child heval hscope n hstatement) fun result result' hresult => ?_
      exact bind (discard hresult) fun _ _ _ => ih (n + 1) hrest

theorem levelBlock (n : Nat) {body : List Node} (hbody : body ⊆ t.node.children) :
    T.Paced A t.scope [] (Eval.levelBlock Eval.evaluator t n body)
      (Eval.levelBlock Eval.evaluator { t with scope := scope' } n body) T.AlikeResults yields := by
  induction body generalizing n with
  | nil => exact pure (Q := yields) (a := none) .none
  | cons statement rest ih =>
      obtain ⟨hstatement, hrest⟩ := List.cons_subset.1 hbody
      unfold Eval.levelBlock
      by_cases hreturn : Eval.isReturn statement = true
      · rw [if_pos hreturn, if_pos hreturn]
        exact child heval hscope n hstatement
      · rw [if_neg hreturn, if_neg hreturn]
        refine bind (child heval hscope n hstatement) fun result result' hresult => ?_
        exact bind (discard hresult) fun _ _ _ => ih (n + 1) hrest

theorem levelArguments (n : Nat) {done done' : List Value} (hdone : T.AlikeValues done done')
    {arguments : List Node} (harguments : arguments ⊆ t.node.children) :
    T.Paced A t.scope (closed done) (Eval.levelArguments Eval.evaluator t n done arguments)
      (Eval.levelArguments Eval.evaluator { t with scope := scope' } n done' arguments)
      T.AlikeValues closed := by
  induction arguments generalizing n done done' with
  | nil =>
      refine (pure (Q := closed) (List.forall₂_reverse_iff.2 hdone)).perm_left ?_
      exact (Settles.closed_reverse done).symm
  | cons argument rest ih =>
      obtain ⟨hargument, hrest⟩ := List.cons_subset.1 harguments
      have hvalue := bind (child (A := A) heval hscope n hargument)
        fun result result' hresult => demand argument hresult
      exact bind (keeping hdone hvalue) fun value value' hvalue =>
        ih (n + 1) (.cons hvalue hdone) hrest

end Children

theorem levelCall {closure closure' : Closure} (scope' : ScopeId)
    (hclosure : Value.Alike T.Pairs (.function closure) (.function closure'))
    {values values' : List Value} (hvalues : T.AlikeValues values values') (span : Span) :
    T.Paced (closure.scope :: A) scope (closed values)
      (Eval.levelCall Eval.evaluator t closure values span)
      (Eval.levelCall Eval.evaluator { t with scope := scope' } closure' values' span)
      T.AlikeResults yields := by
  cases hclosure with
  | plain hplain => cases hplain
  | @function program definition closed closed' hclosed =>
      cases definition with
      | function fspan name parameters body =>
          simp only [Eval.levelCall]
          by_cases hdepth : maxCallDepth ≤ t.depth
          · rw [if_pos hdepth, if_pos hdepth]
            exact keeping_fail hvalues rfl _
          · rw [if_neg hdepth, if_neg hdepth]
            refine inNewScope hclosed fun frame frame' hframe => ?_
            refine bind (bindParameters name hframe parameters hvalues)
              fun surplus surplus' hsurplus => ?_
            refine ensuring (P := []) (releasesBoth_dropValues hsurplus) (within _ ?_)
            exact (heval _ (Task.body_inside (Nat.lt_of_not_le hdepth)) hframe).anyhow
      | _ => exact keeping_fail hvalues rfl _

/-- A level goes like the one in the other scope if the tasks inside do. -/
theorem level (hscope : T.Pairs t.scope scope') :
    T.Paced [] t.scope [] (Eval.level Eval.evaluator t)
      (Eval.level Eval.evaluator { t with scope := scope' }) T.AlikeResults yields := by
  obtain ⟨depth, program, scope, path, node⟩ := t
  unfold Eval.level
  cases node with
  | root _ body => exact levelAll heval hscope 0 (List.Subset.refl body)
  | block _ body => exact levelBlock heval hscope 0 (List.Subset.refl body)
  | declaration span name =>
      exact bind (declare span name hscope) fun _ _ _ => pure (Q := yields) (a := none) .none
  | assignment _ target value =>
      refine bind (child heval hscope 1 (by simp [Node.children]))
        fun result result' hresult => ?_
      exact bind (demand value hresult) fun first first' hfirst => assignTo hscope target hfirst
  | reference span name =>
      refine bind (lookup span name hscope) fun value value' hvalue => ?_
      refine (pure (Q := yields) (a := some value) (.some hvalue)).perm_left ?_
      simp [yields]
  | number _ value => exact pure (Q := yields) (a := some (.number value)) (.some (.plain rfl))
  | string _ value => exact pure (Q := yields) (a := some (.string value)) (.some (.plain rfl))
  | boolean _ value => exact pure (Q := yields) (a := some (.boolean value)) (.some (.plain rfl))
  | binary span operator left right =>
      refine bind (child heval hscope 0 (by simp [Node.children]))
        fun result result' hresult => ?_
      refine bind (demand left hresult) fun first first' hfirst => ?_
      have hmem : right ∈ (Node.binary span operator left right).children := by
        simp [Node.children]
      have hright := bind (child (A := []) heval hscope 1 hmem)
        fun result result' hresult => demand right hresult
      refine (bind (keeping (.cons hfirst .nil) hright)
        fun second second' hsecond => ?_).perm_left ?_
      · refine (operate span operator hfirst hsecond).perm_left ?_
        simpa using List.perm_append_comm
      · simp
  | parenthesized _ inner => exact child heval hscope 0 (by simp [Node.children])
  | readProperty span object property =>
      refine bind (child heval hscope 0 (by simp [Node.children]))
        fun result result' hresult => ?_
      refine bind (demand object hresult) fun value value' hvalue => ?_
      rw [hvalue.kind_eq]
      refine (keeping_fail (.cons hvalue .nil) rfl _).perm_left ?_
      simp
  | call span callee arguments =>
      refine bind (child heval hscope 0 (by simp [Node.children]))
        fun target target' htarget => ?_
      refine bind (keeping (alikeValues_of_result htarget)
        (levelArguments heval hscope 1 .nil (List.subset_cons_self callee arguments)))
        fun values values' hvalues => ?_
      exact callValue span callee.span htarget hvalues fun closure closure' hclosure =>
        levelCall heval scope' hclosure hvalues span
  | function span name parameters body => exact defineAs program hscope span name _
  | ret _ value =>
      cases value with
      | none => exact pure (Q := yields) (a := none) .none
      | some value => exact child heval hscope 0 (by simp [Node.children])

end Level

end Paced

/-- Evaluation goes alike in scopes that stand for each other. -/
theorem paced_evalTask (t : Task) {scope' : ScopeId} (hscope : T.Pairs t.scope scope') :
    T.Paced [] t.scope [] (Eval.evalTask t) (Eval.evalTask { t with scope := scope' })
      T.AlikeResults yields := by
  induction t using Task.induction generalizing scope' with
  | ih t ih =>
      rw [Eval.evalTask_eq_level, Eval.evalTask_eq_level]
      exact Paced.level (fun u hu {_} hscope => ih u hu hscope) hscope

end Tandem

end ScopedScript
