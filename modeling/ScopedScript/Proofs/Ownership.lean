/-
What keeps a scope alive.

Between two operations nothing is at hand but the handles of the host, so
the books of the store read: a scope is held once for every handle on it
and once for every slot that owns it. A scope is then live exactly if a
handle is on it or another scope owns it, and this is true after whatever
the host asked for, a whole program included.

The host is trusted in one point only. A function value that it states is
a value it has, and who has such a value has the scope it closes over: the
host can state no closure over a scope on which it has no handle.
-/
import ScopedScript.Session
import ScopedScript.Proofs.Balance
import ScopedScript.Proofs.Custody

namespace ScopedScript

namespace Store

/-- A slot of the one scope has a function that closes over the other, and
so holds it. -/
def Owns (s : Store) (scope closed : ScopeId) : Prop :=
  ∃ c name closure, s.cell? scope = some c ∧
    c.get? name = some (.plain (.function closure)) ∧ closure.scope = closed

/-- The evaluator keeps the books of the store: on the list is what it holds
at the moment, and the scope that it evaluates in is on it. -/
def custody : Custody Store where
  Held l s := s.Balanced l
  Evolves := Evolves
  Standing _ l scope := scope ∈ l
  Blames _ _ := True
  refl := Evolves.refl
  trans := Evolves.trans
  perm := Balanced.perm
  standing_mem := id
  standing_later _ hsubset hscope := hsubset hscope
  create hheld _ _ _ :=
    ⟨hheld.create _, create_evolves _ _, List.mem_cons_self ..⟩
  hold hheld hscope := by
    obtain ⟨c, hc⟩ := hheld.cell?_of_mem (.inl hscope)
    exact ⟨hheld.hold hc, hold_evolves _ _⟩
  drop hheld := ⟨hheld.drop, drop_evolves _ _, fun _ _ => trivial⟩
  declare name hheld _ :=
    ⟨hheld.declare _ name, declare_evolves _ _ _ _, fun _ _ => trivial⟩
  assign name hheld _ :=
    ⟨hheld.assign _ name, assign_evolves _ _ _ _, fun _ _ => trivial⟩
  lookup {s l scope} name hheld _ := by
    have hlookup := hheld.lookup scope name
    refine ⟨lookup_evolves _ _ _, fun value hvalue => ?_, fun fault hfault => ⟨?_, trivial⟩⟩
    · have hvalue' : (s.lookup scope name).1 = .ok value := hvalue
      rw [hvalue'] at hlookup
      exact hlookup
    · have hfault' : (s.lookup scope name).1 = .error fault := hfault
      rw [hfault'] at hlookup
      exact hlookup

variable {s : Store} {outside : List ScopeId} {scope : ScopeId}

theorem Balanced.holdValue {value : Value} (h : s.Balanced outside)
    (hvalue : ∀ scope ∈ value.scope?, scope ∈ outside) :
    (Scopes.holdValue value s).Balanced (value.scope?.toList ++ outside) := by
  unfold Scopes.holdValue
  cases hscope : value.scope? with
  | none => exact h
  | some closed =>
      obtain ⟨c, hc⟩ := h.cell?_of_mem (.inl (hvalue closed hscope))
      exact h.hold hc

/-- A scope owns what its slots hold. -/
theorem Balanced.owns_iff (h : s.Balanced outside) {closed : ScopeId} :
    s.Owns scope closed ↔ ∃ c, s.cell? scope = some c ∧ closed ∈ c.held := by
  constructor
  · rintro ⟨c, name, closure, hc, hget, hclosed⟩
    refine ⟨c, hc, List.mem_filterMap.2 ⟨_, Cell.mem_slots_of_get? hget, ?_⟩⟩
    exact congrArg some hclosed
  · rintro ⟨c, hc, hmem⟩
    obtain ⟨⟨name, slot⟩, hslot, hheld⟩ := List.mem_filterMap.1 hmem
    have hget := Cell.get?_of_mem_slots (h.sound hc).names hslot
    cases slot with
    | own program definition => cases hheld
    | plain value =>
        cases value with
        | function closure => exact ⟨c, name, closure, hc, hget, Option.some.inj hheld⟩
        | _ => cases hheld

/-- What slots hold is what scopes own. -/
theorem Balanced.mem_slotHolds_iff_owns (h : s.Balanced outside) :
    scope ∈ s.slotHolds ↔ ∃ other, s.Owns other scope := by
  rw [mem_slotHolds_iff]
  exact exists_congr fun other => h.owns_iff.symm

theorem Balanced.not_owns_self (h : s.Balanced outside) : ¬ s.Owns scope scope := by
  rw [h.owns_iff]
  rintro ⟨c, hc, hmem⟩
  exact (h.sound hc).apart hmem

end Store

namespace Session

-- ================================================================ handles

/-- The scopes that handles are on, each as often as handles are. -/
def held (s : Session) : List ScopeId := s.handles.toList.filterMap id

variable {s s' : Session} {handle : Nat} {scope : ScopeId}

theorem scope?_eq_some_iff :
    s.scope? handle = some scope ↔ s.handles.toList[handle]? = some (some scope) := by
  rw [scope?, Option.join_eq_some_iff, Array.getElem?_toList]

theorem mem_held_iff : scope ∈ s.held ↔ ∃ handle, s.scope? handle = some scope := by
  unfold held
  rw [List.mem_filterMap]
  constructor
  · rintro ⟨entry, hentry, hscope⟩
    obtain ⟨handle, hhandle⟩ := List.mem_iff_getElem?.1 hentry
    rw [show entry = some scope from hscope] at hhandle
    exact ⟨handle, scope?_eq_some_iff.2 hhandle⟩
  · rintro ⟨handle, hhandle⟩
    exact ⟨some scope, List.mem_of_getElem? (scope?_eq_some_iff.1 hhandle), rfl⟩

theorem held_addHandle (s : Session) (scope : ScopeId) :
    (s.addHandle scope).2.held.Perm (scope :: s.held) := by
  simp only [addHandle, held, Array.toList_push, List.filterMap_append, List.filterMap_cons,
    List.filterMap_nil, id]
  exact List.perm_append_comm

/-- A handle that is given up was on its scope once. -/
theorem held_setIfInBounds (hscope : s.scope? handle = some scope) :
    s.held.Perm (scope :: (s.handles.setIfInBounds handle none).toList.filterMap id) := by
  obtain ⟨hlt, hget⟩ := List.getElem?_eq_some_iff.1 (scope?_eq_some_iff.1 hscope)
  obtain ⟨front, back, hhandles, -, hset⟩ := @List.exists_of_set _ handle none _ hlt
  rw [hget] at hhandles
  unfold held
  rw [Array.toList_setIfInBounds, hset, hhandles]
  simp

-- ================================================================== steps

/-- The books of the session: nothing is held but by handles and slots. -/
def Balanced (s : Session) : Prop := s.world.scopes.Balanced s.held

/-- The other session comes after this one, with its books in order. -/
structure Turns (s s' : Session) : Prop where
  balanced : s'.Balanced
  evolves : s.world.scopes.Evolves s'.world.scopes

/-- A stated value closes over a scope that a handle is on, if over any. -/
def Given.Has (s : Session) : Given → Prop
  | .value v => ∀ scope ∈ v.scope?, ∃ handle, s.scope? handle = some scope
  | .function .. => True

/-- The host has the values that it stores. -/
def Command.Has (s : Session) : Command → Prop
  | .declare _ _ given => given.Has s
  | .assign _ _ given => given.Has s
  | _ => True

theorem mem_held_of_value? {given : Given} {value : Value} (hhas : given.Has s)
    (hvalue : s.value? given = some value) : ∀ scope ∈ value.scope?, scope ∈ s.held := by
  intro scope hscope
  rw [mem_held_iff]
  cases given with
  | value v =>
      cases hvalue
      exact hhas scope hscope
  | function program handle =>
      simp only [value?, Option.bind_eq_bind, Option.bind_eq_some_iff, Option.pure_def,
        Option.some.injEq] at hvalue
      obtain ⟨statements, -, definition, -, closed, hclosed, rfl⟩ := hvalue
      cases hscope
      exact ⟨handle, hclosed⟩

theorem Balanced.create (h : s.Balanced) (parent : Option ScopeId) :
    s.Turns (s.create parent).2 := by
  refine ⟨?_, Store.create_evolves _ _⟩
  exact (Store.Balanced.create h parent).perm (held_addHandle _ _).symm

theorem Balanced.duplicate (h : s.Balanced) (hscope : s.scope? handle = some scope) :
    s.Turns ((s.change (Store.hold scope)).addHandle scope).2 := by
  obtain ⟨c, hc⟩ := Store.Balanced.cell?_of_mem h (.inl (mem_held_iff.2 ⟨handle, hscope⟩))
  refine ⟨?_, Store.hold_evolves _ _⟩
  exact (Store.Balanced.hold h hc).perm (held_addHandle _ _).symm

theorem Balanced.drop (h : s.Balanced) (hscope : s.scope? handle = some scope) :
    s.Turns (({ s with handles := s.handles.setIfInBounds handle none } : Session).change
      (Store.drop scope)) := by
  refine ⟨?_, Store.drop_evolves _ _⟩
  exact Store.Balanced.drop (Store.Balanced.perm h (held_setIfInBounds hscope))

theorem Balanced.store (h : s.Balanced) {given : Given} {value : Value} (hhas : given.Has s)
    (hvalue : s.value? given = some value)
    {operation : Value → Store → Except ScopeFault Unit × Store}
    (hoperation : ∀ t : Store, t.Balanced (value.scope?.toList ++ s.held) →
      (operation value t).2.Balanced s.held)
    (hevolves : ∀ t : Store, t.Evolves (operation value t).2) :
    s.Turns (s.store value operation).2 := by
  have hheld := Store.Balanced.holdValue h (mem_held_of_value? hhas hvalue)
  have hstored := hoperation _ hheld
  have hlater := hevolves (Scopes.holdValue value s.world.scopes)
  have hfirst : s.world.scopes.Evolves (Scopes.holdValue value s.world.scopes) := by
    unfold Scopes.holdValue
    cases value.scope? with
    | none => exact .refl _
    | some closed => exact Store.hold_evolves _ _
  unfold Session.store
  generalize operation value (Scopes.holdValue value s.world.scopes) = r at hstored hlater
  obtain ⟨answer, scopes⟩ := r
  cases answer with
  | ok _ => exact ⟨hstored, hfirst.trans hlater⟩
  | error fault => exact ⟨hstored, hfirst.trans hlater⟩

/-- After a look-up the value is held besides what handles are on. -/
theorem Balanced.withName (h : s.Balanced) (scope : ScopeId) (name : String)
    {next : Value → Session → Answer × Session}
    (hnext : ∀ (value : Value) (t : Session), t.held = s.held →
      t.world.scopes.Balanced (value.scope?.toList ++ s.held) → t.Turns (next value t).2) :
    s.Turns (s.withName scope name next).2 := by
  have hlookup := Store.Balanced.lookup h scope name
  have hevolves := Store.lookup_evolves s.world.scopes scope name
  unfold Session.withName
  generalize s.world.scopes.lookup scope name = r at hlookup hevolves
  obtain ⟨answer, scopes⟩ := r
  cases answer with
  | error fault => exact ⟨hlookup, hevolves⟩
  | ok value =>
      have hturns := hnext value (s.change fun _ => scopes) rfl hlookup
      exact ⟨hturns.balanced, hevolves.trans hturns.evolves⟩

/-- Whatever the host does with a value that it looked up, it lets go of
it. -/
theorem Turns.dropValue {t : Session} {value : Value} {l : List ScopeId} (ht : t.held = l)
    (h : t.world.scopes.Balanced (value.scope?.toList ++ l)) :
    t.Turns (t.change (Store.dropValue value)) := by
  subst ht
  exact ⟨h.dropValue, (Store.dropValue_leftOf value _).evolves⟩

-- ============================================================= evaluation

/-- A statement, also one that has to have a value, yields what it holds. -/
theorem settles_statement (program : Nat) (scope : ScopeId) (demanding : Bool)
    (statement : Node) :
    Eval.Settles Store.custody [] scope []
      (if demanding then some <$> evalValue program scope statement
        else eval program scope statement) Eval.yields := by
  have heval : Eval.Settles Store.custody [] scope [] (eval program scope statement) Eval.yields :=
    Eval.settles_evalTask ⟨0, program, scope, [], statement⟩
  cases demanding with
  | false => exact heval
  | true =>
      rw [if_pos rfl, map_eq_pure_bind]
      refine Eval.Settles.bind (Eval.Settles.bind heval (Eval.Settles.demand statement)) ?_
      intro value
      refine (Eval.Settles.pure (some value)).perm ?_ fun _ => .refl _
      simp [Eval.yields]

/-- Evaluating statements one by one leaves nothing held. -/
theorem evalStatements_balanced {outside : List ScopeId} (program : Nat) (hscope : scope ∈ outside)
    (demanding : Bool) (results : List (Option Printed)) (statements : List Node)
    {w : World Store} (h : w.scopes.Balanced outside) :
    (evalStatements program scope demanding results statements w).2.2.scopes.Balanced outside ∧
      w.scopes.Evolves
        (evalStatements program scope demanding results statements w).2.2.scopes := by
  induction statements generalizing w results with
  | nil => exact ⟨h, .refl _⟩
  | cons statement rest ih =>
      have hsettled := settles_statement program scope demanding statement w outside hscope
        (List.nil_subset _) h
      unfold evalStatements
      dsimp only
      generalize (if demanding = true then some <$> evalValue program scope statement
        else eval program scope statement) w = r at hsettled
      cases r with
      | error e w' => exact ⟨hsettled.2.1, hsettled.1⟩
      | ok result w' =>
          obtain ⟨hevolves, hheld⟩ := hsettled
          obtain ⟨hleft, hevolves', -⟩ :=
            Eval.releases_dropValues (C := Store.custody) result.toList w'.scopes outside hheld
          obtain ⟨hrest, hlater⟩ := ih (result.map Value.printed :: results)
            (w := { w' with scopes := Scopes.dropValues result.toList w'.scopes }) hleft
          exact ⟨hrest, hevolves.trans (hevolves'.trans hlater)⟩

/-- Every command leaves the books in order. -/
theorem Balanced.perform? (h : s.Balanced) {command : Command} (hhas : command.Has s)
    {r : Answer × Session} (hperform : s.perform? command = some r) : s.Turns r.2 := by
  cases command with
  | root =>
      cases hperform
      exact h.create none
  | child handle =>
      obtain ⟨scope, -, hdone⟩ := Option.bind_eq_some_iff.1 hperform
      cases hdone
      exact h.create (some scope)
  | duplicate handle =>
      obtain ⟨scope, hscope, hdone⟩ := Option.bind_eq_some_iff.1 hperform
      cases hdone
      exact h.duplicate hscope
  | drop handle =>
      obtain ⟨scope, hscope, hdone⟩ := Option.bind_eq_some_iff.1 hperform
      cases hdone
      exact h.drop hscope
  | sameScope handle other =>
      obtain ⟨scope, -, hdone⟩ := Option.bind_eq_some_iff.1 hperform
      obtain ⟨scope', -, hdone⟩ := Option.bind_eq_some_iff.1 hdone
      cases hdone
      exact ⟨h, .refl _⟩
  | declare handle name given =>
      obtain ⟨scope, -, hdone⟩ := Option.bind_eq_some_iff.1 hperform
      obtain ⟨value, hvalue, hdone⟩ := Option.bind_eq_some_iff.1 hdone
      cases hdone
      exact h.store hhas hvalue (fun t ht => ht.declare scope name)
        fun t => Store.declare_evolves t scope name value
  | assign handle name given =>
      obtain ⟨scope, -, hdone⟩ := Option.bind_eq_some_iff.1 hperform
      obtain ⟨value, hvalue, hdone⟩ := Option.bind_eq_some_iff.1 hdone
      cases hdone
      exact h.store hhas hvalue (fun t ht => ht.assign scope name)
        fun t => Store.assign_evolves t scope name value
  | lookup handle name =>
      obtain ⟨scope, -, hdone⟩ := Option.bind_eq_some_iff.1 hperform
      cases hdone
      exact h.withName scope name fun value t ht hheld => Turns.dropValue ht hheld
  | closure handle name =>
      obtain ⟨scope, -, hdone⟩ := Option.bind_eq_some_iff.1 hperform
      cases hdone
      refine h.withName scope name fun value t ht hheld => ?_
      cases hclosed : value.scope? with
      | none =>
          rw [hclosed, ← ht] at hheld
          exact ⟨hheld, .refl _⟩
      | some closed =>
          -- the hold on the value becomes that of the new handle
          rw [hclosed, ← ht] at hheld
          exact ⟨hheld.perm (held_addHandle t closed).symm, .refl _⟩
  | inspect given =>
      obtain ⟨value, -, hdone⟩ := Option.bind_eq_some_iff.1 hperform
      cases hdone
      exact ⟨h, .refl _⟩
  | equal a b =>
      obtain ⟨value, -, hdone⟩ := Option.bind_eq_some_iff.1 hperform
      obtain ⟨value', -, hdone⟩ := Option.bind_eq_some_iff.1 hdone
      cases hdone
      exact ⟨h, .refl _⟩
  | equalName handle a name =>
      obtain ⟨scope, -, hdone⟩ := Option.bind_eq_some_iff.1 hperform
      obtain ⟨value, -, hdone⟩ := Option.bind_eq_some_iff.1 hdone
      cases hdone
      exact h.withName scope name fun value t ht hheld => Turns.dropValue ht hheld
  | eval handle statements demanding =>
      obtain ⟨scope, hscope, hdone⟩ := Option.bind_eq_some_iff.1 hperform
      obtain ⟨hbalanced, hevolves⟩ := evalStatements_balanced s.nextProgram
        (mem_held_iff.2 ⟨handle, hscope⟩) demanding [] statements
        (w := { s.world with printed := #[] }) h
      cases hdone
      exact ⟨hbalanced, hevolves⟩

/-- Every command leaves the books in order, also one that the session
cannot carry out. -/
theorem Balanced.perform (h : s.Balanced) {command : Command} (hhas : command.Has s) :
    s.Turns (s.perform command).2 := by
  unfold Session.perform
  cases hperform : s.perform? command with
  | none => exact ⟨h, .refl _⟩
  | some r => exact h.perform? hhas hperform

-- =================================================================== runs

/-- The sessions that come about by commands. -/
inductive Reaches (s : Session) : Session → Prop
  | refl : Reaches s s
  | step {s' : Session} (command : Command) (h : Reaches s s') (hhas : command.Has s') :
      Reaches s (s'.perform command).2

theorem Reaches.turns (h : s.Balanced) (hreaches : s.Reaches s') : s.Turns s' := by
  induction hreaches with
  | refl => exact ⟨h, .refl _⟩
  | step _ _ hhas ih =>
      have hnext := ih.balanced.perform hhas
      exact ⟨hnext.balanced, ih.evolves.trans hnext.evolves⟩

theorem start_balanced (programs : List (List Node)) : (start programs).Balanced := by
  have hglobal :
      ((({} : Store).create none).2.declare 0 "print" (.native "print")).2.Balanced [0] :=
    Store.Balanced.declare (Store.Balanced.create Store.balanced_empty none) 0 "print"
  exact hglobal

/-- A scope is live exactly if a handle is on it or another scope owns it;
no scope owns itself; and a scope that is gone stays gone. -/
theorem liveness_is_ownership {programs : List (List Node)} (h : (start programs).Reaches s) :
    (∀ scope, s.world.scopes.isLive scope = true ↔
      (∃ handle, s.scope? handle = some scope) ∨
        ∃ other, other ≠ scope ∧ s.world.scopes.Owns other scope) ∧
    (∀ scope, ¬ s.world.scopes.Owns scope scope) ∧
    ∀ s', s.Reaches s' → ∀ scope, scope < s.world.scopes.cells.size →
      s.world.scopes.isLive scope = false → s'.world.scopes.isLive scope = false := by
  have hbalanced : s.Balanced := (h.turns (start_balanced programs)).balanced
  have hself (scope : ScopeId) : ¬ s.world.scopes.Owns scope scope :=
    Store.Balanced.not_owns_self hbalanced
  refine ⟨fun scope => ?_, hself, fun s' hs' scope hscope hgone => ?_⟩
  · rw [Store.Balanced.isLive_iff hbalanced, mem_held_iff,
      Store.Balanced.mem_slotHolds_iff_owns hbalanced]
    refine or_congr_right ⟨fun ⟨other, howns⟩ => ?_, fun ⟨other, _, howns⟩ => ⟨other, howns⟩⟩
    refine ⟨other, fun hother => ?_, howns⟩
    subst hother
    exact hself other howns
  · exact (hs'.turns hbalanced).evolves.isLive_eq_false hscope hgone

/-- The global scope outlives the handle on it if a child has a function over
it. -/
theorem liveness_is_ownership_outlived_handle :
    ∃ s : Session, (start [[.function ⟨0, 15⟩ "f" [] (.block ⟨13, 15⟩ [])]]).Reaches s ∧
      (¬ ∃ handle, s.scope? handle = some 0) ∧
        ∃ other, other ≠ 0 ∧ s.world.scopes.Owns other 0 := by
  have hreaches :=
    (((Reaches.refl (s := start [[.function ⟨0, 15⟩ "f" [] (.block ⟨13, 15⟩ [])]])).step
      (.child 0) trivial).step (.declare 1 "f" (.function 0 0)) trivial).step (.drop 0) trivial
  have hlive := ((liveness_is_ownership hreaches).1 0).1 (by decide +kernel)
  refine ⟨_, hreaches, ?free, hlive.resolve_left ?free⟩
  rw [← mem_held_iff]
  decide +kernel

end Session

end ScopedScript
