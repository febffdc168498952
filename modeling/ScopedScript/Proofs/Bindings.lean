/-
What names stand for in the scopes of a store.

Of a store a program sees what names stand for, scope by scope, and which
scope is the parent of which. How slots represent values, how often scopes
are held and which numbers are taken does not show. This file says what
declaring, assigning and looking up do to this view (`binding?`, `parent?`),
and to what every look-up finds.

# Looking names up

A look-up goes from a scope to its parents until one has the name
(`Visits`). It reads nothing else, so two stores that agree on the scopes it
comes to give the same answer. `Nearest` is the scope where it ends.

# What goes

Storing a value may let go of two others: the value that was there before,
and, if a function is stored in the very scope it closes over, that scope.
With the last hold on a scope the scope goes, and with it what its slots
own (`GoesWith`). A parent is not owned by its children. So a scope can go
from between two others, and then the look-ups that would come through it
fail, those of the name that has just been assigned not excepted
(`bridged`).
-/
import ScopedScript.Proofs.Confinement
import ScopedScript.Proofs.Mirroring
import ScopedScript.Proofs.Ownership

namespace ScopedScript

namespace Store

-- ================================================================= the view

/-- What a name stands for in a scope itself. -/
def binding? (s : Store) (i : ScopeId) (name : String) : Option Value :=
  (s.cell? i).bind fun c => (c.get? name).map (·.toValue i)

/-- The parent of a scope, which there may be none of, if the scope is
there. -/
def parent? (s : Store) (i : ScopeId) : Option (Option ScopeId) := (s.cell? i).map (·.parent)

/-- What names stand for after one of them has been given a value. -/
def rebound (s : Store) (owner : ScopeId) (name : String) (value : Value) (i : ScopeId)
    (other : String) : Option Value :=
  if i = owner ∧ other = name then some value else s.binding? i other

/-- The scopes on the way outwards from a scope. -/
inductive OnChain (s : Store) : ScopeId → ScopeId → Prop
  | start {scope : ScopeId} : OnChain s scope scope
  | outer {scope parent i : ScopeId} (hparent : s.parent? scope = some (some parent))
      (h : OnChain s parent i) : OnChain s scope i

/-- The scopes that the look-up of a name comes to from a scope. -/
inductive Visits (s : Store) (name : String) : ScopeId → ScopeId → Prop
  | start {scope : ScopeId} : Visits s name scope scope
  | outer {scope parent i : ScopeId} (hlacks : s.binding? scope name = none)
      (hparent : s.parent? scope = some (some parent)) (h : Visits s name parent i) :
      Visits s name scope i

/-- The nearest scope that has a name. -/
def Nearest (s : Store) (name : String) (scope owner : ScopeId) : Prop :=
  s.Visits name scope owner ∧ (s.binding? owner name).isSome = true

variable {s s' t : Store} {l letGo pending : List ScopeId} {scope owner i j : ScopeId} {c : Cell}
  {name : String} {value : Value}

theorem isLive_eq (s : Store) (i : ScopeId) : s.isLive i = (s.parent? i).isSome :=
  Option.isSome_map.symm

theorem isLive_of_parent? {parent : Option ScopeId} (h : s.parent? i = some parent) :
    s.isLive i = true := by
  rw [isLive_eq, h]
  rfl

theorem binding?_of_cell? (h : s.cell? i = some c) (name : String) :
    s.binding? i name = (c.get? name).map (·.toValue i) := by
  rw [binding?, h, Option.bind_some]

theorem parent?_of_cell? (h : s.cell? i = some c) : s.parent? i = some c.parent := by
  rw [parent?, h, Option.map_some]

theorem has_of_cell? (h : s.cell? i = some c) (name : String) :
    c.has name = (s.binding? i name).isSome := by
  rw [binding?_of_cell? h, Option.isSome_map, Cell.has]

-- ========================================================== looking names up

/-- The scopes of a chain one of which has the name have a nearest one. -/
theorem exists_nearest_iff :
    (∃ owner, s.Nearest name scope owner)
      ↔ ∃ i, s.OnChain scope i ∧ (s.binding? i name).isSome = true := by
  constructor
  · rintro ⟨owner, hvisits, hhas⟩
    refine ⟨owner, ?_, hhas⟩
    induction hvisits with
    | start => exact .start
    | outer _ hparent _ ih => exact .outer hparent (ih hhas)
  · rintro ⟨i, hchain, hhas⟩
    induction hchain with
    | @start scope => exact ⟨scope, .start, hhas⟩
    | @outer scope parent i hparent _ ih =>
        cases hbinding : s.binding? scope name with
        | some value => exact ⟨scope, .start, by rw [hbinding]; rfl⟩
        | none =>
            obtain ⟨owner, hvisits, howner⟩ := ih hhas
            exact ⟨owner, .outer hbinding hparent hvisits, howner⟩

/-- A name resolves to the nearest scope that has it. -/
theorem resolve_eq_ok_iff (hordered : s.Ordered) :
    s.resolve name scope = .ok owner ↔ s.Nearest name scope owner := by
  constructor
  · intro h
    induction scope using Nat.strongRecOn with
    | ind scope ih =>
        cases hc : s.cell? scope with
        | none =>
            rw [resolve_of_none hc] at h
            cases h
        | some c =>
            by_cases hhas : c.has name = true
            · rw [resolve_of_has hc hhas] at h
              cases h
              exact ⟨.start, by rwa [← has_of_cell? hc]⟩
            · have hlacks : s.binding? scope name = none := by
                rwa [has_of_cell? hc, Option.isSome_iff_ne_none, not_not] at hhas
              cases houter : c.parent with
              | none =>
                  rw [resolve_of_parent_none hc hhas houter] at h
                  cases h
              | some parent =>
                  have hless : parent < scope := hordered.parent hc parent (by rw [houter]; rfl)
                  rw [resolve_of_parent_some hc hhas houter, if_pos hless] at h
                  obtain ⟨hvisits, howner⟩ := ih parent hless h
                  exact ⟨.outer hlacks (by rw [parent?_of_cell? hc, houter]) hvisits, howner⟩
  · rintro ⟨hvisits, hhas⟩
    induction hvisits with
    | @start scope =>
        obtain ⟨c, hc⟩ : ∃ c, s.cell? scope = some c := by
          cases hc : s.cell? scope with
          | some c => exact ⟨c, rfl⟩
          | none =>
              rw [binding?, hc] at hhas
              cases hhas
        exact resolve_of_has hc (by rwa [has_of_cell? hc])
    | @outer scope parent i hlacks hparent _ ih =>
        obtain ⟨c, hc, houter⟩ := Option.map_eq_some_iff.1 hparent
        have hless : parent < scope := hordered.parent hc parent (by rw [houter]; rfl)
        rw [resolve_of_parent_some hc (by rw [has_of_cell? hc, hlacks]; exact nofun) houter,
          if_pos hless]
        exact ih hhas

section Answers

/-- A scope that is gone answers no look-up. -/
theorem lookup_of_gone (h : s.parent? scope = none) (name : String) :
    (s.lookup scope name).1 = .error (.missingClosure name) := by
  have hc : s.cell? scope = none := Option.map_eq_none_iff.1 h
  rw [lookup_of_error (resolve_of_none hc name)]

theorem lookup_of_binding (h : s.binding? scope name = some value) :
    (s.lookup scope name).1 = .ok value := by
  obtain ⟨c, hc, hget⟩ := Option.bind_eq_some_iff.1 h
  obtain ⟨slot, hslot, rfl⟩ := Option.map_eq_some_iff.1 hget
  have hhas : c.has name = true := by rw [Cell.has, hslot]; rfl
  rw [lookup_of_ok (resolve_of_has hc hhas) hc hslot]

theorem lookup_of_last (hlacks : s.binding? scope name = none)
    (hparent : s.parent? scope = some none) :
    (s.lookup scope name).1 = .error (.notDeclared name) := by
  obtain ⟨c, hc, hlast⟩ := Option.map_eq_some_iff.1 hparent
  have hhas : ¬c.has name = true := by rw [has_of_cell? hc, hlacks]; exact nofun
  rw [lookup_of_error (resolve_of_parent_none hc hhas hlast)]

/-- A scope that does not have the name answers like its parent. -/
theorem lookup_of_outer (hordered : s.Ordered) (hlacks : s.binding? scope name = none)
    {parent : ScopeId} (hparent : s.parent? scope = some (some parent)) :
    (s.lookup scope name).1 = (s.lookup parent name).1 := by
  obtain ⟨c, hc, houter⟩ := Option.map_eq_some_iff.1 hparent
  have hless : parent < scope := hordered.parent hc parent (by rw [houter]; rfl)
  have hhas : ¬c.has name = true := by rw [has_of_cell? hc, hlacks]; exact nofun
  have hresolve := resolve_of_parent_some hc hhas houter
  rw [if_pos hless] at hresolve
  unfold lookup
  rw [hresolve]

end Answers

-- ================================================================= what goes

/-- The scope is gone with those that were let go: it is one of them, or a
scope that is gone with them owned it. -/
inductive GoesWith (s s' : Store) (letGo : List ScopeId) : ScopeId → Prop
  | start {i : ScopeId} (h : i ∈ letGo) (hgone : s'.isLive i = false) : GoesWith s s' letGo i
  | owned {i j : ScopeId} (h : GoesWith s s' letGo i) (howns : s.Owns i j)
      (hgone : s'.isLive j = false) : GoesWith s s' letGo j

/-- What becomes of a store, for those who hold these scopes from outside:
the names of a scope that is still there stand for what `became` says, its
parent is its parent, and a scope that is gone is one that nothing holds or
owns, and has gone with those that were let go. -/
structure Becomes (s s' : Store) (l letGo : List ScopeId)
    (became : ScopeId → String → Option Value) : Prop where
  binding : ∀ {i}, s'.isLive i = true → ∀ name, s'.binding? i name = became i name
  parent : ∀ {i}, s'.isLive i = true → s'.parent? i = s.parent? i
  gone : ∀ {i}, s.isLive i = true → s'.isLive i = false →
    i ∉ l ∧ (∀ owner, ¬s'.Owns owner i) ∧ GoesWith s s' letGo i

theorem GoesWith.exists_start (h : GoesWith s s' letGo i) :
    ∃ start ∈ letGo, s'.isLive start = false := by
  induction h with
  | start h hgone => exact ⟨_, h, hgone⟩
  | owned _ _ _ ih => exact ih

/-- What goes with scopes of one store goes with scopes of another one if
the scopes where it starts do, and those that are owned there only. -/
theorem GoesWith.imp (h : GoesWith t s' pending i)
    (hstart : ∀ {j}, j ∈ pending → s'.isLive j = false → GoesWith s s' letGo j)
    (howned : ∀ {i j}, t.Owns i j → s'.isLive j = false → s.Owns i j ∨ GoesWith s s' letGo j) :
    GoesWith s s' letGo i := by
  induction h with
  | start h hgone => exact hstart h hgone
  | owned _ howns hgone ih =>
      rcases howned howns hgone with howns | hgoes
      · exact .owned ih howns hgone
      · exact hgoes

theorem LeftOf.binding? (h : LeftOf s' s) (hlive : s'.isLive i = true) (name : String) :
    s'.binding? i name = s.binding? i name := by
  obtain ⟨c', hc'⟩ := Option.isSome_iff_exists.1 hlive
  obtain ⟨c, hc, hslots, -⟩ := h.cell hc'
  rw [binding?_of_cell? hc', binding?_of_cell? hc, Cell.get?, hslots, ← Cell.get?]

theorem LeftOf.parent? (h : LeftOf s' s) (hlive : s'.isLive i = true) :
    s'.parent? i = s.parent? i := by
  obtain ⟨c', hc'⟩ := Option.isSome_iff_exists.1 hlive
  obtain ⟨c, hc, -, hparent⟩ := h.cell hc'
  rw [parent?_of_cell? hc', parent?_of_cell? hc, hparent]

theorem LeftOf.isLive_eq_false (h : LeftOf s' s) (hgone : s.isLive i = false) :
    s'.isLive i = false := by
  refine eq_false_of_ne_true fun hlive => ?_
  rw [isLive_eq, ← h.parent? hlive, ← isLive_eq, hlive] at hgone
  cases hgone

theorem LeftOf.owns (h : LeftOf s' s) (howns : s'.Owns i j) : s.Owns i j := by
  obtain ⟨c', name, closure, hc', hget, hclosed⟩ := howns
  obtain ⟨c, hc, hslots, -⟩ := h.cell hc'
  rw [Cell.get?, hslots, ← Cell.get?] at hget
  exact ⟨c, name, closure, hc, hget, hclosed⟩

theorem put_released_leftOf (s : Store) (scope : ScopeId) :
    LeftOf (s.put scope (released (s.cell? scope))) s := by
  cases hc : s.cell? scope with
  | none => exact put_none_leftOf s scope
  | some c =>
      unfold released
      by_cases hheld : 1 < c.holders
      · simp only [if_pos hheld]
        exact put_holders_leftOf hc _
      · simp only [if_neg hheld]
        exact put_none_leftOf s scope

/-- What is gone after letting go has gone with what was let go. -/
theorem Balanced.goesWith (h : s.Balanced (pending ++ l)) (hlive : s.isLive i = true)
    (hgone : (s.dropAll pending).isLive i = false) : GoesWith s (s.dropAll pending) pending i := by
  -- the invariant of the cascade is the balance: by it a freed scope owned what its slots held
  induction s, pending using dropAll_induction with
  | nil s =>
      rw [Store.dropAll, hlive] at hgone
      cases hgone
  | step s scope rest ih =>
      have hleft := put_released_leftOf s scope
      have hrest := dropAll_leftOf (s.put scope (released (s.cell? scope)))
        (freed (s.cell? scope) ++ rest)
      rw [dropAll_cons] at hgone ⊢
      by_cases hnext : (s.put scope (released (s.cell? scope))).isLive i = true
      · have hgoes := ih (by rw [List.append_assoc]; exact h.release) hnext hgone
        refine hgoes.imp (fun {j} hj hgone => ?_) fun howns _ => .inl (hleft.owns howns)
        rcases List.mem_append.1 hj with hfreed | hj
        · obtain ⟨c, hc⟩ := h.cell?_of_mem (.inl (List.mem_cons_self ..))
          by_cases hheld : 1 < c.holders
          · simp [hc, freed, hheld] at hfreed
          · have hscope : (s.put scope (released (s.cell? scope))).isLive scope = false := by
              rw [isLive, cell?_put_self (lt_size_of_cell? hc), hc]
              simp [released, hheld]
            simp only [hc, freed, if_neg hheld] at hfreed
            refine .owned (.start (List.mem_cons_self ..) (hrest.isLive_eq_false hscope)) ?_ hgone
            exact h.owns_iff.2 ⟨c, hc, hfreed⟩
        · exact .start (List.mem_cons_of_mem _ hj) hgone
      · have hi : scope = i := by
          by_contra hne
          rw [isLive, cell?_put_ne _ hne] at hnext
          exact hnext hlive
        subst hi
        exact .start (List.mem_cons_self ..) hgone

/-- What becomes of a store if a cell is put, which does not show but in
`t`, and then scopes are let go. -/
theorem Balanced.becomes (h : t.Balanced (pending ++ l))
    (hparent : ∀ i, t.parent? i = s.parent? i)
    (hgoes : ∀ {i}, GoesWith t (t.dropAll pending) pending i →
      GoesWith s (t.dropAll pending) letGo i) :
    s.Becomes (t.dropAll pending) l letGo t.binding? := by
  have hleft := dropAll_leftOf t pending
  have hafter := h.dropAll
  refine ⟨hleft.binding?, fun hlive => (hleft.parent? hlive).trans (hparent _),
    fun {i} hlive hgone => ?_⟩
  have hnot : ¬(i ∈ l ∨ i ∈ (t.dropAll pending).slotHolds) := by
    rw [← hafter.isLive_iff, hgone]
    exact nofun
  rw [not_or, hafter.mem_slotHolds_iff_owns] at hnot
  refine ⟨hnot.1, fun owner howns => hnot.2 ⟨owner, howns⟩, hgoes (h.goesWith ?_ hgone)⟩
  rw [isLive_eq, hparent, ← isLive_eq]
  exact hlive

-- ============================================================ storing values

section Put

variable {d : Cell} (hc : s.cell? owner = some c)

include hc

theorem cell?_put_of_cell? (i : ScopeId) :
    (s.put owner (some d)).cell? i = if i = owner then some d else s.cell? i := by
  by_cases hi : i = owner
  · rw [if_pos hi, hi, cell?_put_self (lt_size_of_cell? hc)]
  · rw [if_neg hi, cell?_put_ne _ (Ne.symm hi)]

theorem parent?_put (hparent : d.parent = c.parent) (i : ScopeId) :
    (s.put owner (some d)).parent? i = s.parent? i := by
  rw [parent?, cell?_put_of_cell? hc, parent?]
  by_cases hi : i = owner
  · rw [if_pos hi, hi, hc, Option.map_some, Option.map_some, hparent]
  · rw [if_neg hi]

variable (hget : ∀ other, d.get? other
  = if other = name then some (.ofValue owner value) else c.get? other)

include hget

/-- A cell with another slot under a name gives the name another value. -/
theorem binding?_put : (s.put owner (some d)).binding? = s.rebound owner name value := by
  funext i other
  rw [binding?, cell?_put_of_cell? hc, rebound]
  by_cases hi : i = owner
  · subst hi
    rw [if_pos rfl, Option.bind_some, hget]
    by_cases hother : other = name
    · rw [if_pos hother, if_pos ⟨rfl, hother⟩, Option.map_some, Slot.toValue_ofValue]
    · rw [if_neg hother, if_neg fun h => hother h.2, binding?_of_cell? hc]
  · rw [if_neg hi, if_neg fun h => hi h.1, ← binding?]

/-- It owns what it owned, and what the value closes over. -/
theorem owns_of_put (howns : (s.put owner (some d)).Owns i j) :
    s.Owns i j ∨ value.scope? = some j := by
  obtain ⟨e, other, closure, he, hslot, rfl⟩ := howns
  rw [cell?_put_of_cell? hc] at he
  by_cases hi : i = owner
  · subst hi
    rw [if_pos rfl] at he
    cases he
    rw [hget] at hslot
    by_cases hother : other = name
    · rw [if_pos hother] at hslot
      have hvalue := congrArg (Slot.toValue i) (Option.some.inj hslot)
      rw [Slot.toValue_ofValue] at hvalue
      rw [hvalue]
      exact .inr rfl
    · rw [if_neg hother] at hslot
      exact .inl ⟨c, other, closure, hc, hslot, rfl⟩
  · rw [if_neg hi] at he
    exact .inl ⟨e, other, closure, he, hslot, rfl⟩

end Put

theorem mem_spare (h : i ∈ spare scope value) : i = scope ∧ value.scope? = some scope := by
  unfold spare at h
  by_cases hown : value.scope? = some scope
  · rw [if_pos hown] at h
    exact ⟨List.mem_singleton.1 h, hown⟩
  · rw [if_neg hown] at h
    cases h

section Storing

variable (h : s.Balanced (value.scope?.toList ++ l))

include h

/-- Nothing but the value is let go of where it is not stored. -/
theorem Balanced.becomes_dropAll :
    s.Becomes (s.dropAll value.scope?.toList) l value.scope?.toList s.binding? :=
  h.becomes (fun _ => rfl) id

/-- A name that is declared is all that is new, and no scope goes: the scope
that gets the name is held from outside. -/
theorem Balanced.becomes_declare (hscope : scope ∈ l) (hc : s.cell? scope = some c)
    (hhas : ¬c.has name = true) :
    s.Becomes (s.declare scope name value).2 l [] (s.rebound scope name value) := by
  have hput := h.add hc hhas
  rw [declare_of_fresh hc hhas, ← binding?_put hc fun other => Cell.get?_add c name other _]
  refine hput.becomes (parent?_put hc rfl) fun hgoes => ?_
  obtain ⟨start, hstart, hgone⟩ := hgoes.exists_start
  rw [(mem_spare hstart).1, hput.dropAll.isLive_iff.2 (.inl hscope)] at hgone
  cases hgone

/-- A name that is assigned to stands for another value in the scope that
has it. -/
theorem Balanced.becomes_assign {overwritten : Value} (hresolve : s.resolve name scope = .ok owner)
    (hover : s.binding? owner name = some overwritten) :
    s.Becomes (s.assign scope name value).2 l
      (overwritten.scope?.toList ++ value.scope?.toList) (s.rebound owner name value) := by
  obtain ⟨c, hc, hhas⟩ := resolve_ok hresolve
  obtain ⟨slot, hslot⟩ := Option.isSome_iff_exists.1 hhas
  have hget (other : String) : (c.replace name (.ofValue owner value)).get? other
      = if other = name then some (.ofValue owner value) else c.get? other := by
    rw [Cell.get?_replace]
    by_cases hother : other = name
    · rw [if_pos hother, if_pos hother, hother, hslot, Option.map_some]
    · rw [if_neg hother, if_neg hother]
  have hvalue : slot.toValue owner = overwritten := by
    rw [binding?_of_cell? hc, hslot, Option.map_some] at hover
    exact Option.some.inj hover
  rw [assign_of_ok hresolve hc, ← binding?_put hc hget]
  refine (h.replace hc hhas).becomes (parent?_put hc rfl) fun hgoes => ?_
  refine hgoes.imp (fun {j} hj hgone => .start (List.mem_append.2 ?_) hgone) fun howns hgone => ?_
  · rcases List.mem_append.1 hj with hj | hj
    · obtain ⟨rfl, hown⟩ := mem_spare hj
      exact .inr (Option.mem_toList.2 hown)
    · left
      rw [hslot, Option.bind_some] at hj
      rw [← hvalue]
      cases slot with
      | plain value => exact hj
      | own program definition => cases hj
  · refine (owns_of_put hc hget howns).imp_right fun hvalue => .start ?_ hgone
    exact List.mem_append_right _ (Option.mem_toList.2 hvalue)

end Storing

-- ======================================================== look-ups after that

/-- After an operation the look-up of a name from a scope answers so, unless
a scope that it came to before is gone; then that is the answer. -/
def Finds (s s' : Store) (scope : ScopeId) (name : String)
    (answer : Except ScopeFault Value) : Prop :=
  (s'.lookup scope name).1 = answer
    ∨ (s'.lookup scope name).1 = .error (.missingClosure name)
      ∧ ∃ i, s.Visits name scope i ∧ s.isLive i = true ∧ s'.isLive i = false

theorem Finds.outer {answer : Except ScopeFault Value} {parent : ScopeId} (hordered : s'.Ordered)
    (hlacks : s.binding? scope name = none) (hparent : s.parent? scope = some (some parent))
    (hlacks' : s'.binding? scope name = none) (hparent' : s'.parent? scope = some (some parent))
    (h : s.Finds s' parent name answer) : s.Finds s' scope name answer := by
  unfold Finds
  rw [lookup_of_outer hordered hlacks' hparent']
  refine h.imp_right fun ⟨hmissing, i, hvisits, hgone⟩ => ⟨hmissing, i, ?_, hgone⟩
  exact .outer hlacks hparent hvisits

/-- A scope that is gone is what a look-up from there finds. -/
theorem Finds.gone {answer : Except ScopeFault Value} (hlive : s.isLive scope = true)
    (hgone : s'.isLive scope = false) : s.Finds s' scope name answer := by
  refine .inr ⟨lookup_of_gone ?_ name, scope, .start, hlive, hgone⟩
  rw [isLive_eq] at hgone
  exact Option.isSome_eq_false_iff.1 hgone |> Option.isNone_iff_eq_none.1

section After

variable (h : s.Becomes s' l letGo (s.rebound owner name value)) (hordered' : s'.Ordered)

include h hordered'

/-- The name that has been given a value is found to have it. -/
theorem Becomes.finds_value (hnearest : s.Nearest name scope owner) :
    s.Finds s' scope name (.ok value) := by
  obtain ⟨hvisits, hhas⟩ := hnearest
  have hlive {i : ScopeId} (h : (s.binding? i name).isSome = true) : s.isLive i = true := by
    obtain ⟨found, hfound⟩ := Option.isSome_iff_exists.1 h
    obtain ⟨c, hc, -⟩ := Option.bind_eq_some_iff.1 hfound
    rw [isLive, hc]
    rfl
  induction hvisits with
  | @start i =>
      cases hafter : s'.isLive i with
      | false => exact .gone (hlive hhas) hafter
      | true =>
          refine .inl (lookup_of_binding ?_)
          rw [h.binding hafter, rebound, if_pos ⟨rfl, rfl⟩]
  | @outer i parent owner hlacks hparent _ ih =>
      cases hafter : s'.isLive i with
      | false => exact .gone (isLive_of_parent? hparent) hafter
      | true =>
          have hne : ¬(i = owner ∧ name = name) := by
            rintro ⟨rfl, -⟩
            rw [hlacks] at hhas
            cases hhas
          refine .outer hordered' hlacks hparent ?_ ?_ (ih h hhas)
          · rw [h.binding hafter, rebound, if_neg hne, hlacks]
          · rw [h.parent hafter, hparent]

/-- Every other look-up finds what it found before. -/
theorem Becomes.finds_other (hordered : s.Ordered) {other : String}
    (hother : other = name → ¬s'.Nearest name j owner) :
    s.Finds s' j other (s.lookup j other).1 := by
  induction j using Nat.strongRecOn with
  | ind j ih =>
      cases hafter : s'.isLive j with
      | false =>
          cases hbefore : s.isLive j with
          | true => exact .gone hbefore hafter
          | false =>
              left
              rw [isLive_eq, Option.isSome_eq_false_iff, Option.isNone_iff_eq_none] at hafter hbefore
              rw [lookup_of_gone hafter, lookup_of_gone hbefore]
      | true =>
          have hne : ¬(j = owner ∧ other = name) := by
            rintro ⟨rfl, rfl⟩
            refine hother rfl ⟨.start, ?_⟩
            rw [h.binding hafter, rebound, if_pos ⟨rfl, rfl⟩]
            rfl
          have hbinding : s'.binding? j other = s.binding? j other := by
            rw [h.binding hafter, rebound, if_neg hne]
          have hparent := h.parent hafter
          cases hfound : s.binding? j other with
          | some found =>
              left
              rw [lookup_of_binding hfound, lookup_of_binding (hbinding.trans hfound)]
          | none =>
              rw [hfound] at hbinding
              obtain ⟨parent, houter⟩ := Option.isSome_iff_exists.1 (s'.isLive_eq j ▸ hafter)
              rw [houter] at hparent
              cases parent with
              | none =>
                  left
                  rw [lookup_of_last hfound hparent.symm, lookup_of_last hbinding houter]
              | some parent =>
                  obtain ⟨c, hc, hcparent⟩ := Option.map_eq_some_iff.1 hparent.symm
                  have hless : parent < j := hordered.parent hc parent (by rw [hcparent]; rfl)
                  rw [lookup_of_outer hordered hfound hparent.symm]
                  refine .outer hordered' hfound hparent.symm hbinding houter (ih parent hless ?_)
                  rintro rfl ⟨hvisits, hhas⟩
                  exact hother rfl ⟨.outer hbinding houter hvisits, hhas⟩

end After

-- ================================================================== the laws

/-- The laws of declaring a name with a value in a scope, for those who hold
these scopes from outside. -/
structure Declares (s : Store) (l : List ScopeId) (scope : ScopeId) (name : String) (value : Value)
    (r : Except ScopeFault Unit × Store) : Prop where
  /-- It succeeds if and only if the scope itself does not have the name. -/
  succeeds_iff : r.1 = .ok () ↔ s.binding? scope name = none
  /-- The scope has one name more. Nothing else is new, and no scope is
  gone. -/
  adds : r.1 = .ok () → s.Becomes r.2 l [] (s.rebound scope name value)
  finds_value : r.1 = .ok () → (r.2.lookup scope name).1 = .ok value
  /-- Only a look-up of the name that ends in the scope finds something
  else than before. -/
  finds_other : r.1 = .ok () → ∀ j other, (other = name → ¬r.2.Nearest name j scope) →
    (r.2.lookup j other).1 = (s.lookup j other).1
  /-- If it fails every scope is as it was, but for those that only the
  value kept. -/
  refuses : ∀ fault, r.1 = .error fault → s.Becomes r.2 l value.scope?.toList s.binding?

/-- The laws of assigning a value to a name from a scope, for those who hold
these scopes from outside. -/
structure Assigns (s : Store) (l : List ScopeId) (scope : ScopeId) (name : String) (value : Value)
    (r : Except ScopeFault Unit × Store) : Prop where
  /-- It succeeds if and only if a scope on the way outwards has the
  name. -/
  succeeds_iff : r.1 = .ok () ↔ ∃ i, s.OnChain scope i ∧ (s.binding? i name).isSome = true
  /-- The nearest such scope has the value under the name. Nothing else is
  new. Gone are scopes that only the value before kept, or the value
  itself. -/
  replaces : r.1 = .ok () → ∃ owner overwritten, s.Nearest name scope owner
    ∧ s.binding? owner name = some overwritten
    ∧ s.Becomes r.2 l (overwritten.scope?.toList ++ value.scope?.toList)
        (s.rebound owner name value)
    ∧ s.Finds r.2 scope name (.ok value)
    ∧ ∀ j other, (other = name → ¬r.2.Nearest name j owner) →
        s.Finds r.2 j other (s.lookup j other).1
  /-- No scope gets a name that it did not have. -/
  adds_none : r.1 = .ok () → ∀ i other, (r.2.binding? i other).isSome = true →
    (s.binding? i other).isSome = true
  /-- If it fails every scope is as it was, but for those that only the
  value kept. -/
  refuses : ∀ fault, r.1 = .error fault → s.Becomes r.2 l value.scope?.toList s.binding?

variable (h : s.Arises (value.scope?.toList ++ l)) (hscope : scope ∈ l) (name)

include h

include hscope in
theorem Arises.declares : s.Declares l scope name value (s.declare scope name value) := by
  obtain ⟨c, hc⟩ := h.balanced.cell?_of_mem (.inl (List.mem_append_right _ hscope))
  by_cases hhas : c.has name = true
  · have hbound : s.binding? scope name ≠ none := by
      rwa [← Option.isSome_iff_ne_none, ← has_of_cell? hc]
    rw [declare_of_has hc hhas]
    exact ⟨⟨nofun, fun hnone => absurd hnone hbound⟩, nofun, nofun, nofun,
      fun _ _ => h.balanced.becomes_dropAll⟩
  · have hunbound : s.binding? scope name = none := by
      rwa [has_of_cell? hc, Option.isSome_iff_ne_none, not_not] at hhas
    have hok : (s.declare scope name value).1 = .ok () := by rw [declare_of_fresh hc hhas]
    have hbecomes := h.balanced.becomes_declare hscope hc hhas
    have harises : (s.declare scope name value).2.Arises l := .declare h
    have hlive := harises.balanced.isLive_iff.2 (.inl hscope)
    refine ⟨⟨fun _ => hunbound, fun _ => hok⟩, fun _ => hbecomes, fun _ => lookup_of_binding ?_,
      fun _ j other hother => ?_, fun fault hfault => ?_⟩
    · rw [hbecomes.binding hlive, rebound, if_pos ⟨rfl, rfl⟩]
    · rcases hbecomes.finds_other harises.reachable.ordered h.reachable.ordered hother with
        hsame | ⟨-, i, -, hbefore, hgone⟩
      · exact hsame
      · obtain ⟨start, hstart, -⟩ := (hbecomes.gone hbefore hgone).2.2.exists_start
        cases hstart
    · rw [hok] at hfault
      cases hfault

theorem Arises.assigns : s.Assigns l scope name value (s.assign scope name value) := by
  have hordered := h.reachable.ordered
  cases hresolve : s.resolve name scope with
  | error fault =>
      rw [assign_of_error hresolve]
      refine ⟨⟨nofun, fun hchain => ?_⟩, nofun, nofun, fun _ _ => h.balanced.becomes_dropAll⟩
      obtain ⟨owner, hnearest⟩ := exists_nearest_iff.2 hchain
      rw [(resolve_eq_ok_iff hordered).2 hnearest] at hresolve
      cases hresolve
  | ok owner =>
      have hnearest := (resolve_eq_ok_iff hordered).1 hresolve
      obtain ⟨overwritten, hover⟩ := Option.isSome_iff_exists.1 hnearest.2
      have hok : (s.assign scope name value).1 = .ok () := by
        obtain ⟨c, hc, -⟩ := resolve_ok hresolve
        rw [assign_of_ok hresolve hc]
      have hbecomes := h.balanced.becomes_assign hresolve hover
      have harises : (s.assign scope name value).2.Arises l := .assign h
      have hordered' := harises.reachable.ordered
      refine ⟨⟨fun _ => exists_nearest_iff.1 ⟨owner, hnearest⟩, fun _ => hok⟩,
        fun _ => ⟨owner, overwritten, hnearest, hover, hbecomes,
          hbecomes.finds_value hordered' hnearest,
          fun j other hother => hbecomes.finds_other hordered' hordered hother⟩,
        fun _ i other hbound => ?_, fun fault hfault => ?_⟩
      · obtain ⟨found, hfound⟩ := Option.isSome_iff_exists.1 hbound
        obtain ⟨c, hc, -⟩ := Option.bind_eq_some_iff.1 hfound
        rw [hbecomes.binding (isLive_of_parent? (parent?_of_cell? hc)), rebound] at hbound
        by_cases hhere : i = owner ∧ other = name
        · rw [hhere.1, hhere.2]
          exact hnearest.2
        · rwa [if_neg hhere] at hbound
      · rw [hok] at hfault
        cases hfault

end Store

open Store

/-- Whoever holds a scope can declare a name in it unless the scope itself
has the name, can assign to a name that a scope on the way outwards has,
and finds under it what was stored last. Look-ups that do not end in the
changed slot find what they found before. What an assignment lets go of may
have been the last hold on scopes; a look-up that came to one of these says
so. What fails changes nothing. -/
theorem scope_store_laws {s : Store} {l : List ScopeId} {scope : ScopeId}
    {value : Value} (h : s.Arises (value.scope?.toList ++ l)) (hscope : scope ∈ l)
    (name : String) :
    s.Declares l scope name value (s.declare scope name value)
      ∧ s.Assigns l scope name value (s.assign scope name value)
      ∧ ∀ fault, (s.lookup scope name).1 = .error fault → (s.lookup scope name).2 = s := by
  refine ⟨h.declares name hscope, h.assigns name, fun fault hfault => ?_⟩
  cases hresolve : s.resolve name scope with
  | error fault => rw [lookup_of_error hresolve]
  | ok owner =>
      obtain ⟨c, hc, hhas⟩ := resolve_ok hresolve
      obtain ⟨slot, hslot⟩ := Option.isSome_iff_exists.1 hhas
      rw [lookup_of_ok hresolve hc hslot] at hfault
      cases hfault

/-- A function that does nothing. -/
def idle : Node := .function ⟨0, 16⟩ "f" [] (.block ⟨13, 16⟩ [])

/-- Three scopes, each the parent of the next one. The one in the middle is
kept by a function that the outermost has under `n`. -/
def bridged : Store :=
  ⟨#[some { slots := [("n", .plain (.function ⟨0, idle, 1⟩))], parent := none },
    some { parent := some 0 },
    some { parent := some 1 }]⟩

theorem bridged_arises : bridged.Arises [2, 0] := by
  have hfirst : Store.Arises [0] _ := @Store.Arises.create _ _ none .empty (by simp)
  have hsecond : Store.Arises [1, 0] _ := @Store.Arises.create _ _ (some 0) hfirst (by simp)
  have hthird : Store.Arises [2, 1, 0] _ := @Store.Arises.create _ _ (some 1) hsecond (by simp)
  exact @Store.Arises.declare _ _ 0 "n" (.function ⟨0, idle, 1⟩) (hthird.perm (.swap ..))

/-- In the innermost scope the name can be declared though another scope has
it, and is then found there. -/
theorem scope_store_laws_bridged :
    bridged.Arises [2, 0] ∧ 2 ∈ [2, 0]
      ∧ ((bridged.declare 2 "n" (.number 5)).2.lookup 2 "n").1 = .ok (.number 5) := by
  have hscope : 2 ∈ [2, 0] := List.mem_cons_self ..
  have hlaws := (@scope_store_laws bridged [2, 0] 2 (.number 5) bridged_arises hscope "n").1
  exact ⟨bridged_arises, hscope, hlaws.finds_value (hlaws.succeeds_iff.2 rfl)⟩

/-- An assignment that succeeds is not always seen from where it was made:
the function that it replaces was all that kept the scope in between. -/
theorem assigned_value_out_of_reach :
    bridged.Arises [2, 0] ∧ 2 ∈ [2, 0] ∧ bridged.OnChain 2 0
      ∧ (∀ i, bridged.OnChain 2 i → bridged.isLive i = true)
      ∧ (bridged.assign 2 "n" (.number 5)).1 = .ok ()
      ∧ ((bridged.assign 2 "n" (.number 5)).2.lookup 2 "n").1 = .error (.missingClosure "n")
      ∧ ((bridged.assign 2 "n" (.number 5)).2.lookup 2 "n").1 ≠ .ok (.number 5) := by
  have hassign : (bridged.assign 2 "n" (.number 5)).1 = .ok () := by decide +kernel
  have hresolve : (bridged.assign 2 "n" (.number 5)).2.resolve "n" 2
      = .error (.missingClosure "n") := by decide +kernel
  have hlookup := congrArg Prod.fst (lookup_of_error hresolve)
  refine ⟨bridged_arises, List.mem_cons_self .., .outer rfl (.outer rfl .start), fun i hi => ?_,
    hassign, hlookup, ?_⟩
  · -- the chain is 2, 1, 0
    have hlast {i : ScopeId} (h : bridged.OnChain 0 i) : i = 0 := by
      cases h with
      | start => rfl
      | outer hparent _ => cases hparent
    have hmiddle {i : ScopeId} (h : bridged.OnChain 1 i) : i = 1 ∨ i = 0 := by
      cases h with
      | start => exact .inl rfl
      | outer hparent h =>
          cases hparent
          exact .inr (hlast h)
    cases hi with
    | start => rfl
    | outer hparent h =>
        cases hparent
        rcases hmiddle h with rfl | rfl <;> rfl
  · rw [hlookup]
    exact nofun

end ScopedScript
