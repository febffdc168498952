/-
What a call makes of its arguments.

A call makes a scope and goes through the parameters of the function in
order: each one is declared, and then assigned the argument at its place if
there is one. The body is evaluated in that scope. What the scope has by
then, and what becomes of a call that does not get so far, is all that this
file is about.

# The scope of a call

While parameters are bound nothing happens to the store but in the scope of
the call, which is the last one of the store. Nobody knows of it yet, so no
argument closes over it, and a parameter that has just been declared has
nothing to let go. One step of the loop is then one more name in one cell
(`Cell.bound`), and the loop comes to as many steps (`bindParameters_push`).

# Names that occur twice

The only step that can fail is a declaration, and it fails where a name
comes up again. Then the scope of the call goes, with the arguments that it
has, and the others go as well. Letting go does not depend on the order, so
this is the same as never to have bound anything and to let go of all
arguments (`drop_push_bound`).
-/
import Mathlib.Data.List.Induction
import ScopedScript.Proofs.Bindings

namespace ScopedScript

-- ================================================================== one cell

namespace Cell

/-- The scope with parameters as further names, each with the value at its
place; parameters without one are unknown. -/
def bound (c : Cell) : List Parameter → List Value → Cell
  | [], _ => c
  | parameter :: rest, values =>
      (c.add parameter.name (.plain (values.head?.getD .unknown))).bound rest values.tail

variable {c : Cell} {name : String}

/-- A name that has just been added is replaced where it was added. -/
theorem replace_add (hname : ¬c.has name = true) (slot slot' : Slot) :
    (c.add name slot).replace name slot' = c.add name slot' := by
  have hothers : c.slots.map (fun entry => if entry.1 = name then (name, slot') else entry)
      = c.slots := by
    refine (List.map_congr_left fun entry hentry => if_neg ?_).trans (List.map_id' _)
    rintro rfl
    exact hname (has_eq_true_iff.2 (List.mem_map_of_mem hentry))
  unfold add replace
  rw [List.map_cons, if_pos rfl, hothers]

theorem has_add_iff (added : String) (slot : Slot) :
    (c.add added slot).has name = true ↔ name = added ∨ c.has name = true := by
  rw [has_eq_true_iff, has_eq_true_iff]
  exact List.mem_cons

theorem has_bound_iff (parameters : List Parameter) (values : List Value) :
    (c.bound parameters values).has name = true
      ↔ name ∈ parameters.map (·.name) ∨ c.has name = true := by
  induction parameters generalizing c values with
  | nil => simp [bound]
  | cons p rest ih =>
      rw [bound, ih, has_add_iff, List.map_cons, List.mem_cons]
      tauto

theorem bound_parent (parameters : List Parameter) (values : List Value) :
    (c.bound parameters values).parent = c.parent := by
  induction parameters generalizing c values with
  | nil => rfl
  | cons p rest ih => exact ih _

theorem bound_holders (parameters : List Parameter) (values : List Value) :
    (c.bound parameters values).holders = c.holders := by
  induction parameters generalizing c values with
  | nil => rfl
  | cons p rest ih => exact ih _

/-- Names that are not among the parameters stay as they are. -/
theorem get?_bound_of_notMem {parameters : List Parameter}
    (hname : name ∉ parameters.map (·.name)) (values : List Value) :
    (c.bound parameters values).get? name = c.get? name := by
  induction parameters generalizing c values with
  | nil => rfl
  | cons p rest ih =>
      rw [List.map_cons, List.mem_cons, not_or] at hname
      rw [bound, ih hname.2, get?_add, if_neg hname.1]

/-- Each parameter has the value at its place. -/
theorem get?_bound {parameters : List Parameter} (hnames : (parameters.map (·.name)).Nodup)
    (values : List Value) {i : Nat} {p : Parameter} (hp : parameters[i]? = some p) :
    (c.bound parameters values).get? p.name = some (.plain (values[i]?.getD .unknown)) := by
  induction parameters generalizing c values i with
  | nil => cases hp
  | cons first rest ih =>
      rw [List.map_cons, List.nodup_cons] at hnames
      cases i with
      | zero =>
          cases hp
          rw [bound, get?_bound_of_notMem hnames.1, get?_add, if_pos rfl, List.head?_eq_getElem?]
      | succ i =>
          rw [bound, ih hnames.2 values.tail hp, List.getElem?_tail]

/-- The scope holds what the values close over that it has, besides what it
held. -/
theorem held_bound (parameters : List Parameter) (values : List Value) :
    (c.bound parameters values).held.Perm (closed (values.take parameters.length) ++ c.held) := by
  induction parameters generalizing c values with
  | nil => rfl
  | cons p rest ih =>
      rw [bound]
      refine (ih values.tail).trans ?_
      rw [held_add, List.length_cons]
      cases values with
      | nil =>
          rw [List.tail_nil, List.take_nil, List.take_nil]
          rfl
      | cons value values =>
          rw [List.tail_cons, List.take_succ_cons, closed_cons, List.append_assoc]
          exact List.perm_append_comm_assoc ..

end Cell

-- ============================================================= the last scope

namespace Store

variable {s : Store} {c : Cell} {name : String} {value : Value}

/-- The store with one scope more, which may be gone already. -/
def push (s : Store) (cell : Option Cell) : Store := ⟨s.cells.push cell⟩

theorem cell?_push (s : Store) (cell : Option Cell) (i : ScopeId) :
    (s.push cell).cell? i = if i = s.cells.size then cell else s.cell? i := by
  rw [cell?, push, Array.getElem?_push]
  by_cases hi : i = s.cells.size
  · rw [if_pos hi, if_pos hi]
    rfl
  · rw [if_neg hi, if_neg hi]
    rfl

theorem cell?_push_self (s : Store) (cell : Option Cell) :
    (s.push cell).cell? s.cells.size = cell := by
  rw [cell?_push, if_pos rfl]

theorem put_push (s : Store) (cell cell' : Option Cell) :
    (s.push cell).put s.cells.size cell' = s.push cell' := by
  have hlast : s.cells.size < (s.cells.push cell).size := by
    rw [Array.size_push]
    exact Nat.lt_succ_self _
  unfold put push
  rw [Array.setIfInBounds, dif_pos hlast, Array.set_push, dif_neg (Nat.lt_irrefl _)]

/-- A scope that is gone from the start cannot be told from one that was
never made. -/
theorem cell?_push_none (s : Store) (i : ScopeId) : (s.push none).cell? i = s.cell? i := by
  rw [cell?_push]
  by_cases hi : i = s.cells.size
  · rw [if_pos hi, hi, cell?, Array.getElem?_size]
    rfl
  · rw [if_neg hi]

section Frame

variable (s)

theorem declare_push (hname : ¬c.has name = true) :
    (s.push (some c)).declare s.cells.size name .unknown
      = (.ok (), s.push (some (c.add name (.plain .unknown)))) := by
  rw [declare_of_fresh (cell?_push_self s (some c)) hname, put_push]
  exact congrArg (Prod.mk _) (dropAll.eq_1 _)

theorem declare_push_of_has (hname : c.has name = true) :
    (s.push (some c)).declare s.cells.size name .unknown
      = (.error (.alreadyDeclared name), s.push (some c)) := by
  rw [declare_of_has (cell?_push_self s (some c)) hname]
  exact congrArg (Prod.mk _) (dropAll.eq_1 _)

/-- A parameter that has just been declared lets go of nothing when it gets
its argument, and the argument does not close over the scope of the call. -/
theorem assign_push (hname : ¬c.has name = true) (hvalue : value.Among s.cells.size) :
    (s.push (some (c.add name (.plain .unknown)))).assign s.cells.size name value
      = (.ok (), s.push (some (c.add name (.plain value)))) := by
  have hc := cell?_push_self s (some (c.add name (.plain .unknown)))
  have hhas : (c.add name (.plain .unknown)).has name = true :=
    (Cell.has_add_iff ..).2 (.inl rfl)
  have hapart : value.scope? ≠ some s.cells.size := fun hscope =>
    Nat.lt_irrefl _ (hvalue _ hscope)
  have hslot : Slot.ofValue s.cells.size value = .plain value := by
    cases value with
    | function closure => exact if_neg fun hown => hapart (congrArg some hown)
    | _ => rfl
  have hbefore : (c.add name (.plain .unknown)).get? name = some (.plain .unknown) := by
    rw [Cell.get?_add, if_pos rfl]
  rw [assign_of_ok (resolve_of_has hc hhas) hc, put_push, hslot, Cell.replace_add hname, spare,
    if_neg hapart, hbefore]
  exact congrArg (Prod.mk _) (dropAll.eq_1 _)

end Frame

theorem dropValues_eq (s : Store) (values : List Value) :
    Scopes.dropValues values s = s.dropAll (closed values) := by
  induction values generalizing s with
  | nil => exact (dropAll.eq_1 s).symm
  | cons value rest ih =>
      have hvalue : Scopes.dropValue value s = s.dropAll value.scope?.toList := by
        unfold Scopes.dropValue
        cases value.scope? with
        | none => exact (dropAll.eq_1 s).symm
        | some scope => rfl
      rw [closed_cons, dropAll_append, ← hvalue]
      exact ih _

/-- If the scope of a call goes, with the arguments that it has, and the
others go as well, all that is left of the call is a number that has been
used up. -/
theorem drop_push_bound (s : Store) (outer : ScopeId) (parameters : List Parameter)
    (values : List Value) :
    ((s.push (some (Cell.bound { parent := some outer } parameters values))).dropAll
        (closed (values.drop parameters.length))).drop s.cells.size
      = (s.push none).dropAll (closed values) := by
  have hheld := Cell.held_bound (c := { parent := some outer }) parameters values
  have hholders : ¬1 < (Cell.bound { parent := some outer } parameters values).holders := by
    rw [Cell.bound_holders]
    exact Nat.lt_irrefl 1
  have hall : closed values
      = closed (values.take parameters.length) ++ closed (values.drop parameters.length) := by
    unfold closed
    rw [← List.flatMap_append, List.take_append_drop]
  rw [Store.drop, ← dropAll_append, dropAll_perm List.perm_append_comm, List.singleton_append,
    dropAll_of_some (cell?_push_self ..), if_neg hholders, put_push, hall]
  refine dropAll_perm (List.Perm.append_right _ (hheld.trans ?_)) _
  exact .of_eq (List.append_nil _)

end Store

-- ============================================================== the parameters

namespace Eval

section Steps

variable {σ α β : Type} {scopes scopes' : σ} {w w' : World σ} {m : Eval σ α} {a : α} {e : Error}

theorem bind_of_ok (h : m w = .ok a w') (f : α → Eval σ β) : (m >>= f) w = f a w' :=
  (EStateM.bind.eq_1 m f w).trans (by rw [h])

theorem bind_of_error (h : m w = .error e w') (f : α → Eval σ β) : (m >>= f) w = .error e w' :=
  (EStateM.bind.eq_1 m f w).trans (by rw [h])

theorem within_of_ok (h : m w = .ok a w') (context : Context) : within context m w = .ok a w' := by
  rw [within, h]

theorem within_of_error (h : m w = .error e w') (context : Context) :
    within context m w = .error (e.within context) w' := by
  rw [within, h]

section Operations

variable {f : σ → Except ScopeFault α × σ} (report : ScopeFault → RuntimeFault) (span : Span)
  (printed : Array (List Printed))

theorem onScopes_of_ok (h : f scopes = (.ok a, scopes')) :
    onScopesAs report span f ⟨scopes, printed⟩ = .ok a ⟨scopes', printed⟩ := by
  simp only [onScopesAs, h]

theorem onScopes_of_error {fault : ScopeFault} (h : f scopes = (.error fault, scopes')) :
    onScopesAs report span f ⟨scopes, printed⟩
      = .error ⟨.runtime (report fault), span, []⟩ ⟨scopes', printed⟩ := by
  simp only [onScopesAs, h]

end Operations

variable [Scopes σ]

theorem keeping_of_ok (h : m w = .ok a w') (values : List Value) :
    keeping values m w = .ok a w' := by
  rw [keeping, h]

theorem keeping_of_error (h : m w = .error e w') (values : List Value) :
    keeping values m w = .error e { w' with scopes := Scopes.dropValues values w'.scopes } := by
  rw [keeping, h]

/-- One step of binding: declares a parameter and gives it the first of the
values, if there is one. Returns the others. -/
def bindParameter (function : String) (frame : ScopeId) (parameter : Parameter)
    (values : List Value) : Eval σ (List Value) := do
  within (.callOf function)
    (keeping values (onScopes parameter.span (Scopes.declare frame parameter.name .unknown)))
  match values with
  | [] => return []
  | value :: values =>
      keeping values
        (onScopesAs .parameterLost parameter.span (Scopes.assign frame parameter.name value))
      return values

theorem bindParameters_cons (function : String) (frame : ScopeId) (p : Parameter)
    (rest : List Parameter) (values : List Value) :
    bindParameters (σ := σ) function frame (p :: rest) values
      = bindParameter function frame p values >>= bindParameters function frame rest := by
  unfold bindParameter
  rw [bindParameters.eq_def, bind_assoc]
  refine bind_congr fun _ => ?_
  cases values with
  | nil => rfl
  | cons value values =>
      rw [bind_assoc]
      rfl

/-- Parameters are bound one after the other, with the values that are
left. -/
theorem bindParameters_append (function : String) (frame : ScopeId)
    (first second : List Parameter) (values : List Value) :
    bindParameters (σ := σ) function frame (first ++ second) values
      = bindParameters function frame first values >>= bindParameters function frame second := by
  induction first generalizing values with
  | nil => rfl
  | cons p rest ih =>
      rw [List.cons_append, bindParameters_cons, bindParameters_cons, bind_assoc]
      exact bind_congr ih

end Steps

variable {s : Store} {c : Cell} {values : List Value} {p : Parameter}

/-- A step adds the parameter to the scope of the call. -/
theorem bindParameter_push (function : String) (hp : ¬c.has p.name = true)
    (hvalues : ∀ value ∈ values, value.Among s.cells.size) (printed : Array (List Printed)) :
    bindParameter function s.cells.size p values ⟨s.push (some c), printed⟩
      = .ok values.tail
          ⟨s.push (some (c.add p.name (.plain (values.head?.getD .unknown)))), printed⟩ := by
  have hdeclare := onScopes_of_ok (f := Scopes.declare (σ := Store) s.cells.size p.name .unknown)
    .scope p.span printed (s.declare_push hp)
  unfold bindParameter
  rw [bind_of_ok (within_of_ok (keeping_of_ok hdeclare values) _)]
  cases values with
  | nil => rfl
  | cons value values =>
      have hassign := onScopes_of_ok (f := Scopes.assign (σ := Store) s.cells.size p.name value)
        .parameterLost p.span printed (s.assign_push hp (hvalues value List.mem_cons_self))
      exact bind_of_ok (keeping_of_ok hassign values) _

/-- A step fails if the scope of the call has the name already. -/
theorem bindParameter_push_of_has (function : String) (hp : c.has p.name = true)
    (values : List Value) (printed : Array (List Printed)) :
    bindParameter function s.cells.size p values ⟨s.push (some c), printed⟩
      = .error
          (Error.within ⟨.runtime (.scope (.alreadyDeclared p.name)), p.span, []⟩ (.callOf function))
          ⟨(s.push (some c)).dropAll (closed values), printed⟩ := by
  have hdeclare := onScopes_of_error (f := Scopes.declare (σ := Store) s.cells.size p.name .unknown)
    .scope p.span printed (s.declare_push_of_has hp)
  unfold bindParameter
  rw [bind_of_error (within_of_error (keeping_of_error hdeclare values) _), Store.dropValues_eq]

/-- Binding parameters with different names gives them to the scope of the
call, and leaves the values that are too many. -/
theorem bindParameters_push (function : String) {parameters : List Parameter}
    (hnames : (parameters.map (·.name)).Nodup)
    (hfresh : ∀ p ∈ parameters, ¬c.has p.name = true)
    (hvalues : ∀ value ∈ values, value.Among s.cells.size) (printed : Array (List Printed)) :
    bindParameters function s.cells.size parameters values ⟨s.push (some c), printed⟩
      = .ok (values.drop parameters.length)
          ⟨s.push (some (c.bound parameters values)), printed⟩ := by
  induction parameters generalizing c values with
  | nil => rfl
  | cons p rest ih =>
      obtain ⟨hp, hrest⟩ := List.forall_mem_cons.1 hfresh
      rw [List.map_cons, List.nodup_cons] at hnames
      have hnext (slot : Slot) : ∀ q ∈ rest, ¬(c.add p.name slot).has q.name = true := by
        intro q hq hhas
        rcases (Cell.has_add_iff ..).1 hhas with hsame | hhas
        · exact hnames.1 (hsame ▸ List.mem_map_of_mem hq)
        · exact hrest q hq hhas
      have hleft : ∀ value ∈ values.tail, value.Among s.cells.size :=
        fun value hvalue => hvalues value (List.mem_of_mem_tail hvalue)
      rw [bindParameters_cons, bind_of_ok (bindParameter_push function hp hvalues printed),
        ih hnames.2 (hnext _) hleft, List.drop_tail, Cell.bound, List.length_cons]

/-- Binding stops at a parameter with the name of an earlier one, and lets go
of the values that are left. -/
theorem bindParameters_push_of_mem (function : String) {before : List Parameter}
    (hnames : (before.map (·.name)).Nodup) (hfresh : ∀ p ∈ before, ¬c.has p.name = true)
    (hmem : p.name ∈ before.map (·.name)) (after : List Parameter)
    (hvalues : ∀ value ∈ values, value.Among s.cells.size) (printed : Array (List Printed)) :
    bindParameters function s.cells.size (before ++ p :: after) values ⟨s.push (some c), printed⟩
      = .error
          (Error.within ⟨.runtime (.scope (.alreadyDeclared p.name)), p.span, []⟩ (.callOf function))
          ⟨(s.push (some (c.bound before values))).dropAll (closed (values.drop before.length)),
            printed⟩ := by
  have hhas : (c.bound before values).has p.name = true := (Cell.has_bound_iff ..).2 (.inl hmem)
  rw [bindParameters_append,
    bind_of_ok (bindParameters_push function hnames hfresh hvalues printed), bindParameters_cons,
    bind_of_error (bindParameter_push_of_has function hhas _ printed)]

-- ==================================================================== the call

/-- A call makes a scope, binds the parameters there and evaluates the body;
the scope is let go in any case. -/
theorem callAt_push {closure : Closure} {definition : Span} {name : String}
    {parameters : List Parameter} {body : Node}
    (hdefinition : closure.definition = .function definition name parameters body) (depth : Nat)
    (span : Span) (printed : Array (List Printed)) :
    callAt (depth + 1) closure values span ⟨s, printed⟩
      = ensuring (Scopes.drop s.cells.size)
          (bindParameters name s.cells.size parameters values >>= fun surplus =>
            ensuring (Scopes.dropValues surplus)
              (within (.callOf name) (evalNode (callAt depth) closure.program s.cells.size body)))
          ⟨s.push (some { parent := some closure.scope }), printed⟩ := by
  rw [callAt]
  simp only [hdefinition, stacked_eq]
  rfl

end Eval

namespace Store

variable {s : Store} {l : List ScopeId}

theorem binding?_push_none (s : Store) : (s.push none).binding? = s.binding? := by
  funext i name
  rw [binding?, cell?_push_none, ← binding?]

theorem parent?_push_none (s : Store) (i : ScopeId) : (s.push none).parent? i = s.parent? i := by
  rw [parent?, cell?_push_none, ← parent?]

theorem Balanced.push_none (h : s.Balanced l) : (s.push none).Balanced l := by
  have hslots : (s.push none).slotHolds = s.slotHolds := by
    unfold slotHolds push
    rw [Array.toList_push, List.flatMap_append]
    exact List.append_nil _
  refine ⟨fun i => ?_, fun {i c} hc => h.sound ((s.cell?_push_none i).symm.trans hc)⟩
  rw [cell?_push_none, hslots]
  exact h.count i

/-- What becomes of a store if values are let go and the number of a scope is
used up. -/
theorem Balanced.becomes_refused {values : List Value} (h : s.Balanced (closed values ++ l)) :
    s.Becomes ((s.push none).dropAll (closed values)) l (closed values) s.binding? := by
  rw [← s.binding?_push_none]
  refine h.push_none.becomes s.parent?_push_none fun hgoes => ?_
  refine hgoes.imp .start fun {i j} howns _ => .inl ?_
  obtain ⟨c, name, closure, hc, hslot⟩ := howns
  exact ⟨c, name, closure, (s.cell?_push_none i).symm.trans hc, hslot⟩

/-- A store in which a call can begin: it has one scope more than before,
with a number that no scope has had. The parent of that scope is the scope
that the function closes over. It has the parameters and no other names,
each with the argument at its place; parameters without one are unknown. -/
structure Prepared (s : Store) (outer : ScopeId) (parameters : List Parameter)
    (values : List Value) (frame : ScopeId) (t : Store) : Prop where
  fresh : s.cells.size ≤ frame
  others : ∀ i, i ≠ frame → t.cell? i = s.cell? i
  parent : t.parent? frame = some (some outer)
  names : ∀ name, (t.binding? frame name).isSome = true ↔ name ∈ parameters.map (·.name)
  bound : ∀ (i : Nat) (p : Parameter), parameters[i]? = some p →
    t.binding? frame p.name = some (values[i]?.getD .unknown)

theorem prepared_push (s : Store) (outer : ScopeId) {parameters : List Parameter}
    (hnames : (parameters.map (·.name)).Nodup) (values : List Value) :
    s.Prepared outer parameters values s.cells.size
      (s.push (some (Cell.bound { parent := some outer } parameters values))) := by
  have hc := s.cell?_push_self (some (Cell.bound { parent := some outer } parameters values))
  refine ⟨Nat.le_refl _, fun i hi => ?_, ?_, fun name => ?_, fun i p hp => ?_⟩
  · rw [cell?_push, if_neg hi]
  · rw [parent?_of_cell? hc, Cell.bound_parent]
  · rw [← has_of_cell? hc, Cell.has_bound_iff]
    exact or_iff_left nofun
  · rw [binding?_of_cell? hc, Cell.get?_bound hnames values hp]
    rfl

end Store

/-- The parameter is the first one in the list that has the name of an
earlier one. -/
def FirstRepeat (parameters : List Parameter) (p : Parameter) : Prop :=
  ∃ before after, parameters = before ++ p :: after ∧ (before.map (·.name)).Nodup
    ∧ p.name ∈ before.map (·.name)

theorem exists_firstRepeat {parameters : List Parameter}
    (h : ¬(parameters.map (·.name)).Nodup) : ∃ p, FirstRepeat parameters p := by
  induction parameters using List.reverseRecOn with
  | nil => exact absurd List.nodup_nil h
  | append_singleton before p ih =>
      by_cases hbefore : (before.map (·.name)).Nodup
      · refine ⟨p, before, [], rfl, hbefore, ?_⟩
        by_contra hnew
        refine h ?_
        rw [List.map_append, List.map_singleton, List.nodup_append]
        refine ⟨hbefore, by simp, fun name hname other hother hsame => ?_⟩
        rw [hsame, List.mem_singleton.1 hother] at hname
        exact hnew hname
      · obtain ⟨q, first, after, rfl, hfirst⟩ := ih hbefore
        exact ⟨q, first, after ++ [p], by simp, hfirst⟩

open Eval Store

section Call

variable {s : Store} {closure : Closure} {values : List Value} {definition : Span} {name : String}
  {parameters : List Parameter} {body : Node}
  (hdefinition : closure.definition = .function definition name parameters body)
  (hvalues : ∀ value ∈ values, value.Among s.cells.size) (depth : Nat) (span : Span)
  (printed : Array (List Printed))

include hdefinition hvalues

/-- If the parameters have different names, the body is evaluated once they
are bound. -/
theorem callAt_of_nodup (hnames : (parameters.map (·.name)).Nodup) :
    callAt (depth + 1) closure values span ⟨s, printed⟩
      = ensuring (Scopes.drop s.cells.size)
          (ensuring (Scopes.dropValues (values.drop parameters.length))
            (within (.callOf name) (evalNode (callAt depth) closure.program s.cells.size body)))
          ⟨s.push (some (Cell.bound { parent := some closure.scope } parameters values)),
            printed⟩ := by
  have hbound := bindParameters_push (c := { parent := some closure.scope }) name hnames
    (fun _ _ => nofun) hvalues printed
  rw [callAt_push hdefinition, ensuring_eq_finish, finish, bind_of_ok hbound, ensuring_eq_finish _
    (ensuring _ _), finish]

/-- A parameter that repeats an earlier one is the end of the call: the
number of its scope is used up, and the arguments are let go. -/
theorem callAt_of_firstRepeat {p : Parameter} (hp : FirstRepeat parameters p) :
    callAt (depth + 1) closure values span ⟨s, printed⟩
      = .error
          (Error.within ⟨.runtime (.scope (.alreadyDeclared p.name)), p.span, []⟩ (.callOf name))
          ⟨(s.push none).dropAll (closed values), printed⟩ := by
  obtain ⟨before, after, rfl, hnames, hmem⟩ := hp
  have hfails := bindParameters_push_of_mem (c := { parent := some closure.scope }) name hnames
    (fun _ _ => nofun) hmem after hvalues printed
  rw [callAt_push hdefinition, ensuring_eq_finish, finish, bind_of_error hfails,
    ← s.drop_push_bound closure.scope before values]
  rfl

end Call

/-- A call evaluates the body of the function in a new scope, whose parent is
the scope that the function closes over, and which has the parameters and
nothing else: each with the argument at its place or unknown, however many
arguments there are. A name that occurs twice among the parameters ends the
call before that. It fails at the parameter that repeats the name, in the
context of the call, and changes no scope; gone are those that only the
arguments kept. -/
theorem call_binds_parameters {s : Store} {closure : Closure} {values : List Value}
    {l : List ScopeId} (h : s.Arises (closed values ++ closure.scope :: l))
    {definition : Span} {name : String} {parameters : List Parameter} {body : Node}
    (hdefinition : closure.definition = .function definition name parameters body) {depth : Nat}
    (hdepth : depth < maxCallDepth) (span : Span) (printed : Array (List Printed)) :
    ((parameters.map (·.name)).Nodup →
      ∃ frame t, s.Prepared closure.scope parameters values frame t
        ∧ callAt (maxCallDepth - depth) closure values span ⟨s, printed⟩
          = ensuring (Scopes.drop frame)
              (ensuring (Scopes.dropValues (values.drop parameters.length))
                (within (.callOf name)
                  (evalNode (callAt (maxCallDepth - (depth + 1))) closure.program frame body)))
              ⟨t, printed⟩)
    ∧ (¬(parameters.map (·.name)).Nodup →
      (∃ p, FirstRepeat parameters p)
      ∧ ∀ p, FirstRepeat parameters p → ∃ e s',
        callAt (maxCallDepth - depth) closure values span ⟨s, printed⟩ = .error e ⟨s', printed⟩
        ∧ e.stage = .runtime ∧ e.span = p.span
        ∧ e.chain = ["in call to " ++ ticked name, "variable already declared: " ++ ticked p.name]
        ∧ s' = (s.push none).dropAll (closed values)
        ∧ s.Becomes s' (closure.scope :: l) (closed values) s.binding?) := by
  have hleft : maxCallDepth - depth = maxCallDepth - (depth + 1) + 1 := by omega
  have hvalues : ∀ value ∈ values, value.Among s.cells.size := by
    intro value hvalue scope hscope
    refine h.lt_size (List.mem_append_left _ (List.mem_flatMap.2 ⟨value, hvalue, ?_⟩))
    exact Option.mem_toList.2 hscope
  rw [hleft]
  refine ⟨fun hnames => ?_, fun hrepeats => ⟨exists_firstRepeat hrepeats, fun p hp => ?_⟩⟩
  · exact ⟨_, _, s.prepared_push closure.scope hnames values,
      callAt_of_nodup hdefinition hvalues _ span printed hnames⟩
  · exact ⟨_, _, callAt_of_firstRepeat hdefinition hvalues _ span printed hp, rfl, rfl, rfl, rfl,
      h.balanced.becomes_refused⟩

/-- A function over the outermost of three scopes, with these parameters. -/
def outermost (parameters : List Parameter) : Closure :=
  ⟨0, .function ⟨0, 22⟩ "f" parameters (.block ⟨20, 22⟩ []), 0⟩

/-- One argument, a function over the innermost scope, for two parameters and
for three, the last of which repeats the first. -/
theorem call_binds_parameters_innermost :
    let value := Value.function ⟨0, idle, 2⟩
    let different : List Parameter := [⟨"a", ⟨11, 12⟩⟩, ⟨"b", ⟨14, 15⟩⟩]
    bridged.Arises (closed [value] ++ [0])
      ∧ (∃ frame t, bridged.Prepared 0 different [value] frame t
        ∧ t.binding? frame "a" = some value ∧ t.binding? frame "b" = some .unknown)
      ∧ ∃ e s', callAt (maxCallDepth - 7) (outermost (different ++ [⟨"a", ⟨17, 18⟩⟩])) [value]
          ⟨30, 34⟩ ⟨bridged, #[]⟩ = .error e ⟨s', #[]⟩
        ∧ e.span = ⟨17, 18⟩ ∧ e.chain = ["in call to `f`", "variable already declared: `a`"] := by
  intro value different
  have harises : bridged.Arises (closed [value] ++ [0]) := bridged_arises
  have hdepth : 7 < maxCallDepth := by decide
  have hdifferent : (different.map (·.name)).Nodup := by decide
  obtain ⟨frame, t, hprepared, -⟩ :=
    (@call_binds_parameters bridged (outermost different) [value] []
      harises _ _ _ _ rfl _ hdepth ⟨30, 34⟩ #[]).1 hdifferent
  have hrepeat : FirstRepeat (different ++ [⟨"a", ⟨17, 18⟩⟩]) ⟨"a", ⟨17, 18⟩⟩ :=
    ⟨different, [], rfl, hdifferent, by decide⟩
  obtain ⟨e, s', hcall, -, hspan, hchain, -⟩ :=
    ((@call_binds_parameters bridged (outermost (different ++ [⟨"a", ⟨17, 18⟩⟩])) [value] []
      harises _ _ _ _ rfl _ hdepth ⟨30, 34⟩ #[]).2 (by decide)).2 _ hrepeat
  refine ⟨harises, ⟨frame, t, hprepared, ?_, ?_⟩, e, s', hcall, hspan, hchain⟩
  · exact hprepared.bound 0 _ rfl
  · exact hprepared.bound 1 _ rfl

end ScopedScript
