/-
Runs of a program that is written in another way.

A function value carries its definition, so two programs that do the same
have different values at hand while they run, and different stores. This
file follows a program and what a function on trees makes of it through
both runs. At every moment the second store is the first one with every
definition in it put through the function (`recast`), and so are the values
at hand, so that nothing but the two trees need be compared.

# Which functions on trees

A `Faithful` function leaves every node what it is, and changes no more
than the children of it, except in lists of statements. What it makes of
such a list has to be evaluated like the list of what it makes of the
statements. That is a condition on one node, for any way to call functions;
that a whole run does not notice the function follows.

# Why the runs go together

The operations of the store do not look at definitions (`declare_recast` and
so on). So one step follows another if it does in the recast world what the
other one does, recast (`Recasts`), which combining steps respects. What is
left is an induction on the calls that are still allowed and, in a call, on
the tree.
-/
import ScopedScript.Proofs.Discipline
import ScopedScript.Proofs.Renaming
import ScopedScript.Proofs.StoreSteps
import ScopedScript.Run

namespace ScopedScript

variable (f : Node → Node)

-- ============================================================ the same data

/-- The closure with its definition put through a function. -/
def Closure.recast (closure : Closure) : Closure :=
  { closure with definition := f closure.definition }

/-- The value with its definition, if it has one, put through a function. -/
def Value.recast : Value → Value
  | .function closure => .function (closure.recast f)
  | value => value

/-- The slot with its definition, if it has one, put through a function. -/
def Slot.recast : Slot → Slot
  | .plain value => .plain (value.recast f)
  | .own program definition => .own program (f definition)

/-- The scope with all definitions put through a function. -/
def Cell.recast (c : Cell) : Cell :=
  { c with slots := c.slots.map fun entry => (entry.1, entry.2.recast f) }

/-- The store with all definitions put through a function. -/
def Store.recast (s : Store) : Store := ⟨s.cells.map (Option.map (Cell.recast f))⟩

namespace Value

@[simp] theorem scope?_recast (value : Value) : (value.recast f).scope? = value.scope? := by
  cases value <;> rfl

@[simp] theorem kind_recast (value : Value) : (value.recast f).kind = value.kind := by
  cases value <;> rfl

/-- A value that closes over nothing stays as it is. -/
theorem recast_of_scope?_eq_none {value : Value} (h : value.scope? = none) :
    value.recast f = value := by
  cases value with
  | function closure => cases h
  | _ => rfl

/-- Operators do not look at definitions. -/
theorem combine_recast (operator : Operator) (left right : Value) :
    (left.recast f).combine operator (right.recast f) = left.combine operator right := by
  cases left with
  | number a => cases right <;> rfl
  | _ => cases right <;> rfl

end Value

namespace Slot

/-- A slot holds the scope that it held. -/
@[simp] theorem held?_recast (slot : Slot) : (slot.recast f).held? = slot.held? := by
  cases slot with
  | plain value => exact value.scope?_recast f
  | own program definition => rfl

/-- A recast slot is read as the recast value. -/
theorem toValue_recast (scope : ScopeId) (slot : Slot) :
    (slot.recast f).toValue scope = (slot.toValue scope).recast f := by
  cases slot <;> rfl

/-- A recast value is stored as the recast slot. -/
theorem ofValue_recast (scope : ScopeId) (value : Value) :
    ofValue scope (value.recast f) = (ofValue scope value).recast f := by
  cases value with
  | function closure =>
      by_cases hown : closure.scope = scope
      · simp only [Value.recast, ofValue, Closure.recast, if_pos hown, recast]
      · simp only [Value.recast, ofValue, Closure.recast, if_neg hown, recast]
  | _ => rfl

end Slot

namespace Cell

/-- A name has the slot that it had, recast. -/
theorem get?_recast (c : Cell) (name : String) :
    (c.recast f).get? name = (c.get? name).map (Slot.recast f) := by
  unfold get? recast
  induction c.slots with
  | nil => rfl
  | cons entry slots ih =>
      rw [List.map_cons, List.lookup_cons, List.lookup_cons, ih]
      cases name == entry.1 <;> rfl

@[simp] theorem has_recast (c : Cell) (name : String) : (c.recast f).has name = c.has name := by
  rw [has, get?_recast, Option.isSome_map, has]

/-- A scope holds the scopes that it held. -/
@[simp] theorem held_recast (c : Cell) : (c.recast f).held = c.held := by
  unfold held recast
  rw [List.filterMap_map]
  exact List.filterMap_congr fun entry _ => entry.2.held?_recast f

theorem add_recast (c : Cell) (name : String) (slot : Slot) :
    (c.recast f).add name (slot.recast f) = (c.add name slot).recast f := rfl

theorem replace_recast (c : Cell) (name : String) (slot : Slot) :
    (c.recast f).replace name (slot.recast f) = (c.replace name slot).recast f := by
  unfold replace recast
  simp only [List.map_map]
  congr 1
  refine List.map_congr_left fun entry _ => ?_
  by_cases hname : entry.1 = name
  · simp [hname]
  · simp [hname]

end Cell

-- ====================================================== the same operations

namespace Store

/-- The same scopes are there. -/
theorem cell?_recast (s : Store) (scope : ScopeId) :
    (s.recast f).cell? scope = (s.cell? scope).map (Cell.recast f) := by
  unfold cell? recast
  rw [Array.getElem?_map]
  cases s.cells[scope]? <;> rfl

/-- A scope is replaced in the same place. -/
theorem put_recast (s : Store) (scope : ScopeId) (cell : Option Cell) :
    (s.recast f).put scope (cell.map (Cell.recast f)) = (s.put scope cell).recast f := by
  unfold put recast
  rw [Array.map_setIfInBounds]

/-- What is left of a scope when it is let go of once does not depend on
definitions. -/
theorem released_recast (cell : Option Cell) :
    released (cell.map (Cell.recast f)) = (released cell).map (Cell.recast f) := by
  cases cell with
  | none => rfl
  | some c =>
      by_cases hheld : 1 < c.holders
      · simp [released, Cell.recast, hheld]
      · simp [released, Cell.recast, hheld]

/-- A scope that is freed lets go of the same scopes. -/
theorem freed_recast (cell : Option Cell) : freed (cell.map (Cell.recast f)) = freed cell := by
  cases cell with
  | none => rfl
  | some c =>
      show (if 1 < c.holders then [] else (c.recast f).held) = _
      rw [Cell.held_recast]
      rfl

/-- So the same scopes are freed, in the same order. -/
theorem dropAll_recast (s : Store) (pending : List ScopeId) :
    (s.recast f).dropAll pending = (s.dropAll pending).recast f := by
  induction s, pending using dropAll_induction with
  | nil s => rw [dropAll, dropAll]
  | step s scope rest ih =>
      rw [dropAll_cons, dropAll_cons, cell?_recast, released_recast, freed_recast, put_recast, ih]

theorem hold_recast (scope : ScopeId) (s : Store) :
    (s.recast f).hold scope = (s.hold scope).recast f := by
  unfold hold
  rw [cell?_recast]
  cases s.cell? scope with
  | none => rfl
  | some c => exact put_recast f s scope (some { c with holders := c.holders + 1 })

theorem create_recast (parent : Option ScopeId) (s : Store) :
    (s.recast f).create parent = ((s.create parent).1, (s.create parent).2.recast f) := by
  unfold create recast
  simp only [Array.size_map, Array.map_push]
  rfl

/-- A name is found in the same scope, or is missed in the same way. -/
theorem resolve_recast (s : Store) (name : String) (scope : ScopeId) :
    (s.recast f).resolve name scope = s.resolve name scope := by
  induction scope using Nat.strongRecOn with
  | ind scope ih =>
      cases hc : s.cell? scope with
      | none =>
          have hc' : (s.recast f).cell? scope = none := by rw [cell?_recast, hc]; rfl
          rw [resolve_of_none hc, resolve_of_none hc']
      | some c =>
          have hc' : (s.recast f).cell? scope = some (c.recast f) := by rw [cell?_recast, hc]; rfl
          by_cases hhas : c.has name = true
          · rw [resolve_of_has hc hhas, resolve_of_has hc' (by rwa [Cell.has_recast])]
          · have hhas' : ¬(c.recast f).has name = true := by rwa [Cell.has_recast]
            cases hparent : c.parent with
            | none =>
                rw [resolve_of_parent_none hc hhas hparent, resolve_of_parent_none hc' hhas' hparent]
            | some outer =>
                rw [resolve_of_parent_some hc hhas hparent, resolve_of_parent_some hc' hhas' hparent]
                by_cases houter : outer < scope
                · rw [if_pos houter, if_pos houter, ih outer houter]
                · rw [if_neg houter, if_neg houter]

variable {f} {s : Store} {scope : ScopeId} {name : String} {value : Value}

/-- Declaring answers the same, and does to the recast store what it does to
the store. -/
theorem declare_recast : (s.recast f).declare scope name (value.recast f)
    = ((s.declare scope name value).1, (s.declare scope name value).2.recast f) := by
  cases hc : s.cell? scope with
  | none =>
      have hc' : (s.recast f).cell? scope = none := by rw [cell?_recast, hc]; rfl
      rw [declare_of_none hc, declare_of_none hc', Value.scope?_recast, dropAll_recast]
  | some c =>
      have hc' : (s.recast f).cell? scope = some (c.recast f) := by rw [cell?_recast, hc]; rfl
      by_cases hhas : c.has name = true
      · rw [declare_of_has hc hhas, declare_of_has hc' (by rwa [Cell.has_recast]),
          Value.scope?_recast, dropAll_recast]
      · rw [declare_of_fresh hc hhas, declare_of_fresh hc' (by rwa [Cell.has_recast]),
          Slot.ofValue_recast, Cell.add_recast, spare, Value.scope?_recast, ← spare,
          ← Option.map_some, put_recast, dropAll_recast]

/-- Assigning answers the same, and lets go of the same scope. -/
theorem assign_recast : (s.recast f).assign scope name (value.recast f)
    = ((s.assign scope name value).1, (s.assign scope name value).2.recast f) := by
  have hresolve' := resolve_recast f s name scope
  cases hresolve : s.resolve name scope with
  | error fault =>
      rw [hresolve] at hresolve'
      rw [assign_of_error hresolve, assign_of_error hresolve', Value.scope?_recast, dropAll_recast]
  | ok owner =>
      rw [hresolve] at hresolve'
      cases hc : s.cell? owner with
      | none =>
          unfold assign
          simp only [hresolve, hresolve', cell?_recast, hc, Option.map_none, dropValue,
            Value.scope?_recast, dropAll_recast]
      | some c =>
          have hc' : (s.recast f).cell? owner = some (c.recast f) := by rw [cell?_recast, hc]; rfl
          have hbefore : ((c.get? name).map (Slot.recast f)).bind Slot.held?
              = (c.get? name).bind Slot.held? := by
            cases c.get? name with
            | none => rfl
            | some slot => exact slot.held?_recast f
          rw [assign_of_ok hresolve hc, assign_of_ok hresolve' hc', Slot.ofValue_recast,
            Cell.replace_recast, spare, Value.scope?_recast, ← spare, Cell.get?_recast, hbefore,
            ← Option.map_some, put_recast, dropAll_recast]

theorem holdValue_recast : Scopes.holdValue (value.recast f) (s.recast f)
    = (Scopes.holdValue value s).recast f := by
  unfold Scopes.holdValue
  rw [Value.scope?_recast]
  cases value.scope? with
  | none => rfl
  | some scope => exact hold_recast f scope s

theorem dropValues_recast (values : List Value) :
    Scopes.dropValues (values.map (Value.recast f)) (s.recast f)
      = (Scopes.dropValues values s).recast f := by
  unfold Scopes.dropValues
  rw [List.foldl_map]
  induction values generalizing s with
  | nil => rfl
  | cons value rest ih =>
      have hvalue : Scopes.dropValue (value.recast f) (s.recast f)
          = (Scopes.dropValue value s).recast f := by
        unfold Scopes.dropValue
        rw [Value.scope?_recast]
        cases value.scope? with
        | none => rfl
        | some scope => exact dropAll_recast f s [scope]
      rw [List.foldl_cons, List.foldl_cons, hvalue, ih]

/-- A look-up answers with the value recast. -/
theorem lookup_recast : (s.recast f).lookup scope name
    = ((s.lookup scope name).1.map (Value.recast f), (s.lookup scope name).2.recast f) := by
  have hresolve' := resolve_recast f s name scope
  cases hresolve : s.resolve name scope with
  | error fault =>
      rw [hresolve] at hresolve'
      rw [lookup_of_error hresolve, lookup_of_error hresolve']
      rfl
  | ok owner =>
      rw [hresolve] at hresolve'
      cases hslot : (s.cell? owner).bind (·.get? name) with
      | none =>
          have hslot' : ((s.recast f).cell? owner).bind (·.get? name) = none := by
            rw [cell?_recast, Option.bind_map]
            cases hc : s.cell? owner with
            | none => rfl
            | some c =>
                rw [hc] at hslot
                show (c.recast f).get? name = none
                rw [Cell.get?_recast, show c.get? name = none from hslot]
                rfl
          unfold lookup
          simp only [hresolve, hresolve', hslot, hslot']
          rfl
      | some slot =>
          obtain ⟨c, hc, hget⟩ := Option.bind_eq_some_iff.1 hslot
          have hc' : (s.recast f).cell? owner = some (c.recast f) := by rw [cell?_recast, hc]; rfl
          have hget' : (c.recast f).get? name = some (slot.recast f) := by
            rw [Cell.get?_recast, hget]
            rfl
          rw [lookup_of_ok hresolve hc hget, lookup_of_ok hresolve' hc' hget', Slot.toValue_recast,
            holdValue_recast]
          rfl

/-- There are no definitions yet in a global scope. -/
theorem createGlobal_recast :
    (Scopes.createGlobal ({} : Store)).2.recast f = (Scopes.createGlobal ({} : Store)).2 := by
  have hmade : Store.recast f (Store.create none {}).2 = (Store.create none {}).2 := by
    have hcreated := congrArg Prod.snd (create_recast f none {})
    rw [show Store.recast f {} = {} from congrArg Store.mk Array.map_empty] at hcreated
    exact hcreated.symm
  have hdeclared := congrArg Prod.snd
    (@declare_recast f (Store.create none {}).2 0 "print" (.native "print"))
  rw [hmade] at hdeclared
  exact hdeclared.symm

end Store

-- ================================================================ steps

/-- A function on trees that a run does not notice: it makes of a node one
of the same kind in the same place, and has to do with nothing but the
children unless the node is a list of statements. In any case the node
is evaluated as with the function applied to its children only. -/
structure Faithful (f : Node → Node) : Prop where
  span : ∀ node, (f node).span = node.span
  kind : ∀ node, (f node).kind = node.kind
  inner : ∀ {node}, node.kind ≠ .root → node.kind ≠ .block → f node = node.mapChildren fun _ => f
  eval : ∀ (call : Eval.Caller Store) (program : Nat) (scope : ScopeId) (node : Node),
    Eval.evalNode call program scope (f node)
      = Eval.evalNode call program scope (node.mapChildren fun _ => f)

namespace Faithful

variable {f} (hf : Faithful f)

include hf

/-- What a faithful function makes of a definition has the same name and
parameters, and what it makes of the body for a body. -/
theorem function {span : Span} {name : String} {parameters : List Parameter} {body : Node} :
    f (.function span name parameters body) = .function span name parameters (f body) :=
  hf.inner nofun nofun

/-- Names are left as they are. -/
theorem reference {span : Span} {name : String} : f (.reference span name) = .reference span name :=
  hf.inner nofun nofun

end Faithful

/-- A function keeps the name of a definition. -/
theorem Closure.name_recast {f : Node → Node} (hf : Faithful f) (closure : Closure) :
    (closure.recast f).name = closure.name := by
  have hnameless {c : Closure} (h : c.definition.kind ≠ .function) : c.name = "<anonymous>" := by
    obtain ⟨program, definition, scope⟩ := c
    cases definition with
    | function span name parameters body => exact absurd rfl h
    | _ => rfl
  by_cases hkind : closure.definition.kind = .function
  · obtain ⟨program, definition, scope⟩ := closure
    cases definition with
    | function span name parameters body =>
        show Closure.name ⟨program, f (.function span name parameters body), scope⟩ = name
        rw [hf.function]
        rfl
    | _ => cases hkind
  · rw [hnameless hkind, hnameless]
    rwa [recast, hf.kind]

/-- Values look the same when they are printed. -/
theorem Value.printed_recast {f : Node → Node} (hf : Faithful f) (value : Value) :
    (value.recast f).printed = value.printed := by
  cases value with
  | function closure => exact congrArg Printed.function (closure.name_recast hf)
  | _ => rfl

namespace Eval

/-- Assigning to anything but a name fails with the value let go of. -/
theorem assignTo_of_kind_ne {σ : Type} [Scopes σ] {scope : ScopeId} {target : Node} {value : Value}
    (h : target.kind ≠ .reference) :
    assignTo (σ := σ) scope target value
      = keeping [value] (fail (.notAssignable target.kind) target.span) := by
  cases target with
  | reference span name => exact absurd rfl h
  | _ => rfl

/-- A closure of anything but a definition cannot be called. -/
theorem callAt_of_kind_ne {σ : Type} [Scopes σ] {depth : Nat} {closure : Closure}
    {values : List Value} {span : Span} (h : closure.definition.kind ≠ .function) :
    callAt (σ := σ) depth closure values span = keeping values (fail .notADefinition span) := by
  obtain ⟨program, definition, scope⟩ := closure
  cases definition with
  | function span name parameters body => exact absurd rfl h
  | _ => rw [callAt]

/-- Whether a statement returns is a matter of its kind. -/
theorem isReturn_of_kind_eq {node node' : Node} (h : node'.kind = node.kind) :
    isReturn node' = isReturn node := by
  have hreturn (node : Node) : isReturn node = decide (node.kind = .ret) := by cases node <;> rfl
  rw [hreturn, hreturn, h]

theorem mapIdx_eq_map (nodes : List Node) : (nodes.mapIdx fun _ => f) = nodes.map f := by
  refine List.ext_getElem? fun i => ?_
  rw [List.getElem?_mapIdx, List.getElem?_map]

variable {f} {α β γ δ : Type}

/-- The world with all definitions put through a function. -/
def recastWorld (f : Node → Node) (w : World Store) : World Store :=
  { w with scopes := w.scopes.recast f }

/-- The outcome with all definitions put through a function, in the scopes and in
what the step yields. -/
def recastOutcome (f : Node → Node) (g : α → β) : Outcome Store α → Outcome Store β
  | .ok a w => .ok (g a) (recastWorld f w)
  | .error e w => .error e (recastWorld f w)

/-- The second step does in the recast world what the first one does,
recast; `g` says what this makes of what it yields. -/
def Recasts (f : Node → Node) (g : α → β) (m : Eval Store α) (n : Eval Store β) : Prop :=
  ∀ w, n (recastWorld f w) = recastOutcome f g (m w)

/-- What becomes of a result. -/
abbrev recastResult (f : Node → Node) : Option Value → Option Value := Option.map (Value.recast f)

/-- What becomes of several values. -/
abbrev recastValues (f : Node → Node) : List Value → List Value := List.map (Value.recast f)

namespace Recasts

variable {g : α → β} {h : γ → δ} {m : Eval Store α} {n : Eval Store β}

theorem pure (a : α) : Recasts f g (Pure.pure a) (Pure.pure (g a)) := fun _ => rfl

theorem fail (fault : RuntimeFault) (span : Span) :
    Recasts f g (Eval.fail fault span) (Eval.fail fault span) := fun _ => rfl

/-- Steps follow one another in the recast world as they do in the other. -/
theorem bind {k : α → Eval Store γ} {k' : β → Eval Store δ} (hm : Recasts f g m n)
    (hk : ∀ a, Recasts f h (k a) (k' (g a))) : Recasts f h (m >>= k) (n >>= k') := by
  intro w
  show EStateM.bind n k' (recastWorld f w) = recastOutcome f h (EStateM.bind m k w)
  unfold EStateM.bind
  rw [hm w]
  cases m w with
  | ok a w' => exact hk a w'
  | error e w' => rfl

theorem change {c c' : Store → Store} (hc : ∀ s, c' (s.recast f) = (c s).recast f) :
    Recasts f id (Eval.change c) (Eval.change c') := by
  intro w
  show EStateM.Result.ok () (World.mk (c' (w.scopes.recast f)) w.printed) = _
  rw [hc]
  rfl

/-- An operation that answers the same over the recast store, recast. -/
theorem onScopes (span : Span) {o : Store → Except ScopeFault α × Store}
    {o' : Store → Except ScopeFault β × Store} {report : ScopeFault → RuntimeFault}
    (ho : ∀ s, o' (s.recast f) = ((o s).1.map g, (o s).2.recast f)) :
    Recasts f g (Eval.onScopesAs report span o) (Eval.onScopesAs report span o') := by
  intro w
  unfold Eval.onScopesAs
  simp only [recastWorld, ho]
  obtain ⟨answer, s⟩ := o w.scopes
  cases answer <;> rfl

/-- What is done to outcomes has to go together with recasting. -/
theorem finish {k : Outcome Store α → Outcome Store α} {k' : Outcome Store β → Outcome Store β}
    (hk : ∀ r, k' (recastOutcome f g r) = recastOutcome f g (k r)) (hm : Recasts f g m n) :
    Recasts f g (Eval.finish k m) (Eval.finish k' n) := by
  intro w
  show k' (n (recastWorld f w)) = recastOutcome f g (k (m w))
  rw [hm w, hk]

theorem ensuring {c c' : Store → Store} (hc : ∀ s, c' (s.recast f) = (c s).recast f)
    (hm : Recasts f g m n) : Recasts f g (Eval.ensuring c m) (Eval.ensuring c' n) := by
  rw [ensuring_eq_finish, ensuring_eq_finish]
  refine finish (fun r => ?_) hm
  cases r <;> simp only [recastOutcome, ensured, recastWorld, hc]

/-- The values that are kept are recast with the rest, and hold the same
scopes. -/
theorem keeping (values : List Value) (hm : Recasts f g m n) :
    Recasts f g (Eval.keeping values m) (Eval.keeping (recastValues f values) n) := by
  rw [keeping_eq_finish, keeping_eq_finish]
  refine finish (fun r => ?_) hm
  cases r <;> simp only [recastOutcome, kept, recastWorld, Store.dropValues_recast]

theorem within (context : Context) (hm : Recasts f g m n) :
    Recasts f g (Eval.within context m) (Eval.within context n) := by
  rw [within_eq_finish, within_eq_finish]
  refine finish (fun r => ?_) hm
  cases r <;> rfl

theorem newScope (parent : Option ScopeId) :
    Recasts f id (Eval.newScope parent) (Eval.newScope parent) := by
  intro w
  have hcreate := Store.create_recast f parent w.scopes
  show EStateM.Result.ok ((w.scopes.recast f).create parent).1
    (World.mk ((w.scopes.recast f).create parent).2 w.printed) = _
  rw [hcreate]
  rfl

theorem holdValue (value : Value) :
    Recasts f id (Eval.change (Scopes.holdValue value))
      (Eval.change (Scopes.holdValue (value.recast f))) :=
  change fun _ => Store.holdValue_recast

theorem declare (span : Span) (scope : ScopeId) (name : String) (value : Value) :
    Recasts f id (Eval.onScopes span (Scopes.declare scope name value))
      (Eval.onScopes span (Scopes.declare scope name (value.recast f))) := by
  refine onScopes span fun s => ?_
  rw [Except.map_id]
  exact Store.declare_recast

theorem assign (span : Span) (scope : ScopeId) (name : String) (value : Value)
    {report : ScopeFault → RuntimeFault} :
    Recasts f id (Eval.onScopesAs report span (Scopes.assign scope name value))
      (Eval.onScopesAs report span (Scopes.assign scope name (value.recast f))) := by
  refine onScopes span fun s => ?_
  rw [Except.map_id]
  exact Store.assign_recast

-- ============================================================= constructs

theorem discard (result : Option Value) :
    Recasts f id (Eval.discard result) (Eval.discard (recastResult f result)) := by
  refine change fun s => ?_
  rw [← Store.dropValues_recast]
  cases result <;> rfl

/-- Operators do not look into functions: what cannot be written as text is
refused without its definition. -/
theorem operate (span : Span) (operator : Operator) (left right : Value) :
    Recasts f (recastResult f) (Eval.operate span operator left right)
      (Eval.operate span operator (left.recast f) (right.recast f)) := by
  refine bind (change fun s => Store.dropValues_recast [left, right]) fun _ => ?_
  rw [Value.combine_recast]
  cases hcombined : left.combine operator right with
  | error fault => exact fail fault span
  | ok value =>
      have hplain := Keeps.scope?_combine hcombined
      have hsame := pure (f := f) (g := recastResult f) (some value)
      rwa [recastResult, Option.map_some, Value.recast_of_scope?_eq_none f hplain] at hsame

/-- A definition stores the recast function under the same name. -/
theorem defineAs (program : Nat) (scope : ScopeId) (span : Span) (name : String)
    (definition : Node) :
    Recasts f (recastResult f) (Eval.defineAs program scope span name definition)
      (Eval.defineAs program scope span name (f definition)) := by
  have hvalue := holdValue (f := f) (.function ⟨program, definition, scope⟩)
  refine bind hvalue fun _ => bind (g := id) (keeping [_] ?_) fun _ => pure (some _)
  refine bind (declare span scope name .unknown) fun _ => bind hvalue fun _ => ?_
  exact assign span scope name (.function ⟨program, definition, scope⟩)

/-- The surplus that binding leaves is that of the recast values. -/
theorem bindParameters (function : String) (frame : ScopeId) (parameters : List Parameter)
    (values : List Value) :
    Recasts f (recastValues f) (Eval.bindParameters function frame parameters values)
      (Eval.bindParameters function frame parameters (recastValues f values)) := by
  induction parameters generalizing values with
  | nil => exact pure values
  | cons parameter rest ih =>
      unfold Eval.bindParameters
      refine bind (within _ (keeping values (declare _ frame parameter.name .unknown)))
        fun _ => ?_
      cases values with
      | nil => exact ih []
      | cons value values =>
          exact bind (keeping values (assign _ frame parameter.name value)) fun _ => ih values

section Faithful

variable (hf : Faithful f)

include hf

theorem demand (node : Node) (result : Option Value) :
    Recasts f (Value.recast f) (Eval.demand node result)
      (Eval.demand (f node) (recastResult f result)) := by
  cases result with
  | none =>
      show Recasts f _ _ (Eval.fail (.noValue (f node).kind) (f node).span)
      rw [hf.kind, hf.span]
      exact fail (.noValue node.kind) node.span
  | some value => exact pure value

/-- The target is recast too and is still a name, or still none. -/
theorem assignTo (scope : ScopeId) (target : Node) (value : Value) :
    Recasts f (recastResult f) (Eval.assignTo scope target value)
      (Eval.assignTo scope (f target) (value.recast f)) := by
  by_cases hkind : target.kind = .reference
  · cases target with
    | reference span name =>
        rw [hf.reference]
        refine bind (holdValue value) fun _ => ?_
        exact bind (keeping [value] (assign span scope name value)) fun _ => pure (some value)
    | _ => cases hkind
  · rw [assignTo_of_kind_ne hkind, assignTo_of_kind_ne (by rwa [hf.kind]), hf.kind, hf.span]
    exact keeping [value] (fail _ _)

/-- What is printed of a function is its name, which stays. -/
theorem callNative (span : Span) (name : String) (values : List Value) :
    Recasts f (recastResult f) (Eval.callNative span name values)
      (Eval.callNative span name (recastValues f values)) := by
  rw [callNative_eq, callNative_eq]
  by_cases hname : name = "print"
  · rw [if_pos hname, if_pos hname]
    have hprinted : (recastValues f values).map Value.printed = values.map Value.printed := by
      rw [List.map_map]
      exact List.map_congr_left fun value _ => value.printed_recast hf
    intro w
    show EStateM.Result.ok none (World.mk _ (w.printed.push _)) = _
    rw [hprinted]
    rfl
  · rw [if_neg hname, if_neg hname]
    exact fail _ _

/-- A value is called as before if closures are. -/
theorem callValue {call call' : Caller Store} {span : Span} (calleeSpan : Span)
    (target : Option Value) {values : List Value}
    (hcall : ∀ closure, Recasts f (recastResult f) (call closure values span)
      (call' (closure.recast f) (recastValues f values) span)) :
    Recasts f (recastResult f) (Eval.callValue call span calleeSpan target values)
      (Eval.callValue call' span calleeSpan (recastResult f target) (recastValues f values)) := by
  cases target with
  | none => exact keeping values (fail _ _)
  | some value =>
      cases value with
      | native name =>
          exact ensuring (fun s => Store.dropValues_recast values) (callNative hf span name values)
      | function closure =>
          refine ensuring (fun s => ?_) (hcall closure)
          exact Store.dropValues_recast [.function closure]
      | _ => exact keeping values (fail _ _)

-- ============================================================= evaluation

section Children

variable {call call' : Caller Store} {program : Nat} {scope : ScopeId} {nodes : List Node}
  (hnodes : ∀ node ∈ nodes, Recasts f (recastResult f) (Eval.evalNode call program scope node)
    (Eval.evalNode call' program scope (f node)))

include hnodes

omit hf in
/-- Statements one after the other. -/
theorem evalAll : Recasts f (recastResult f) (Eval.evalAll call program scope nodes)
    (Eval.evalAll call' program scope (nodes.map f)) := by
  induction nodes with
  | nil =>
      simp only [List.map_nil, Eval.evalAll]
      exact pure none
  | cons node rest ih =>
      obtain ⟨hnode, hrest⟩ := List.forall_mem_cons.1 hnodes
      simp only [List.map_cons, Eval.evalAll]
      exact bind hnode fun result => bind (discard result) fun _ => ih hrest

/-- The block ends at the same statement. -/
theorem evalBlock : Recasts f (recastResult f) (Eval.evalBlock call program scope nodes)
    (Eval.evalBlock call' program scope (nodes.map f)) := by
  induction nodes with
  | nil =>
      simp only [List.map_nil, Eval.evalBlock]
      exact pure none
  | cons node rest ih =>
      obtain ⟨hnode, hrest⟩ := List.forall_mem_cons.1 hnodes
      simp only [List.map_cons, Eval.evalBlock, isReturn_of_kind_eq (hf.kind node)]
      by_cases hreturn : isReturn node = true
      · rw [if_pos hreturn, if_pos hreturn]
        exact hnode
      · rw [if_neg hreturn, if_neg hreturn]
        exact bind hnode fun result => bind (discard result) fun _ => ih hrest

/-- Arguments from left to right. -/
theorem evalArguments (done : List Value) :
    Recasts f (recastValues f) (Eval.evalArguments call program scope done nodes)
      (Eval.evalArguments call' program scope (recastValues f done) (nodes.map f)) := by
  induction nodes generalizing done with
  | nil =>
      simp only [List.map_nil, Eval.evalArguments, ← List.map_reverse]
      exact pure done.reverse
  | cons node rest ih =>
      obtain ⟨hnode, hrest⟩ := List.forall_mem_cons.1 hnodes
      simp only [List.map_cons, Eval.evalArguments]
      refine bind (keeping done ?_) fun value => ih hrest (value :: done)
      exact bind hnode fun result => demand hf node result

end Children

/-- Evaluation follows as far as calls do. -/
theorem evalNode {call call' : Caller Store}
    (hcall : ∀ closure values span, Recasts f (recastResult f) (call closure values span)
      (call' (closure.recast f) (recastValues f values) span))
    (program : Nat) (scope : ScopeId) (node : Node) :
    Recasts f (recastResult f) (Eval.evalNode call program scope node)
      (Eval.evalNode call' program scope (f node)) := by
  have hchild (child : Node) (h : child ∈ node.children) :
      Recasts f (recastResult f) (Eval.evalNode call program scope child)
        (Eval.evalNode call' program scope (f child)) := evalNode hcall program scope child
  rw [hf.eval]
  cases node with
  | root span body =>
      simp only [Node.mapChildren, mapIdx_eq_map, Eval.evalNode]
      exact evalAll hchild
  | block span body =>
      simp only [Node.mapChildren, mapIdx_eq_map, Eval.evalNode]
      exact evalBlock hf hchild
  | declaration span name =>
      simp only [Node.mapChildren, Eval.evalNode]
      exact bind (declare span scope name .unknown) fun _ => pure none
  | assignment span target value =>
      simp only [Node.mapChildren, Eval.evalNode]
      refine bind (hchild value (by simp [Node.children])) fun result => ?_
      exact bind (demand hf value result) fun value => assignTo hf scope target value
  | reference span name =>
      simp only [Node.mapChildren, Eval.evalNode]
      refine bind (onScopes span fun s => Store.lookup_recast) fun value => ?_
      exact pure (some value)
  | number span value =>
      simp only [Node.mapChildren, Eval.evalNode]
      exact pure (some (Value.number value))
  | string span value =>
      simp only [Node.mapChildren, Eval.evalNode]
      exact pure (some (Value.string value))
  | boolean span value =>
      simp only [Node.mapChildren, Eval.evalNode]
      exact pure (some (Value.boolean value))
  | binary span operator left right =>
      simp only [Node.mapChildren, Eval.evalNode]
      refine bind (hchild left (by simp [Node.children])) fun result => ?_
      refine bind (demand hf left result) fun first => ?_
      refine bind (keeping [first] ?_) fun second => operate span operator first second
      exact bind (hchild right (by simp [Node.children])) fun result => demand hf right result
  | parenthesized span inner =>
      simp only [Node.mapChildren, Eval.evalNode]
      exact hchild inner (by simp [Node.children])
  | readProperty span object property =>
      simp only [Node.mapChildren, Eval.evalNode]
      refine bind (hchild object (by simp [Node.children])) fun result => ?_
      refine bind (demand hf object result) fun value => ?_
      rw [Value.kind_recast]
      exact keeping [value] (fail _ _)
  | call span callee arguments =>
      simp only [Node.mapChildren, mapIdx_eq_map, Eval.evalNode]
      refine bind (hchild callee (by simp [Node.children])) fun target => ?_
      have harguments := evalArguments hf
        (fun argument (h : argument ∈ arguments) => hchild argument (List.mem_cons_of_mem _ h)) []
      have hkept := keeping target.toList harguments
      rw [show recastValues f target.toList = (recastResult f target).toList by
        cases target <;> rfl] at hkept
      refine bind hkept fun values => ?_
      rw [hf.span]
      exact callValue hf callee.span target fun closure => hcall closure values span
  | function span name parameters body =>
      simp only [Node.mapChildren, Eval.evalNode]
      have hdefined := defineAs (f := f) program scope span name
        (.function span name parameters body)
      rw [hf.function] at hdefined
      exact hdefined
  | ret span value =>
      cases value with
      | none =>
          simp only [Node.mapChildren, Option.map_none, Eval.evalNode]
          exact pure none
      | some value =>
          simp only [Node.mapChildren, Option.map_some, Eval.evalNode]
          exact hchild value (by simp [Node.children])
termination_by sizeOf node
decreasing_by exact Node.sizeOf_lt_of_mem_children h

/-- Calls of recast closures are recast calls. The induction is on the calls
still allowed; the body is where it is used. -/
theorem callAt (depth : Nat) (closure : Closure) (values : List Value) (span : Span) :
    Recasts f (recastResult f) (Eval.callAt depth closure values span)
      (Eval.callAt depth (closure.recast f) (recastValues f values) span) := by
  by_cases hkind : closure.definition.kind = .function
  · obtain ⟨program, definition, scope⟩ := closure
    cases definition with
    | function place name parameters body =>
        show Recasts f _ _ (Eval.callAt depth
          ⟨program, f (.function place name parameters body), scope⟩ (recastValues f values) span)
        rw [hf.function]
        cases depth with
        | zero =>
            rw [Eval.callAt, Eval.callAt]
            exact keeping values (fail _ _)
        | succ depth =>
            rw [Eval.callAt, Eval.callAt]
            simp only [stacked_eq]
            refine bind (newScope (some scope)) fun frame => ?_
            refine ensuring (fun s => Store.dropAll_recast f s [frame]) ?_
            refine bind (bindParameters name frame parameters values) fun surplus => ?_
            refine ensuring (fun s => Store.dropValues_recast surplus) (within _ ?_)
            exact evalNode hf (callAt depth) program frame body
    | _ => cases hkind
  · rw [callAt_of_kind_ne hkind, callAt_of_kind_ne (by rwa [Closure.recast, hf.kind])]
    exact keeping values (fail _ _)

end Faithful

end Recasts

end Eval

/-- A program and what a faithful function makes of it do the same. -/
theorem Faithful.evaluate {f : Node → Node} (hf : Faithful f) (root : Node) :
    ScopedScript.evaluate (f root) = ScopedScript.evaluate root := by
  have hruns : runProgram (f root) { scopes := ({} : Store) }
      = Eval.recastOutcome f (Eval.recastResult f)
          (runProgram root { scopes := ({} : Store) }) := by
    have heval := Eval.Recasts.evalNode hf (Eval.Recasts.callAt hf maxCallDepth) 0 0 root
      { scopes := (Scopes.createGlobal ({} : Store)).2 }
    rw [Eval.recastWorld, Store.createGlobal_recast] at heval
    exact heval
  unfold ScopedScript.evaluate
  rw [hruns]
  cases runProgram root { scopes := ({} : Store) } <;> rfl

end ScopedScript
