/-
Evaluation stays where it can see.

An evaluation starts in a scope. From there it sees the parents of scopes
that are still there, and the scopes that functions in slots close over
(`Sees`). What it can get at later are these scopes and those that are made
in the meantime; this is its region. This file shows that it never leaves
it: all values at hand close over scopes of the region, no slot of the
region leads out of it, and every other scope is as it was.

# Stores that come about

`evaluation_is_local` speaks of stores that can come about (`Arises`).
Whoever works on a store has handles: on the scopes it made, on those it
asked for, on those that values it was given close over. It can only give up
what it has. So stores come about together with a list of what is held from
outside, and their books balance. Evaluation is no exception
(`Arises.eval`).

# One handle is lent

The handle on the scope in which an evaluation starts belongs to the host,
which keeps it until the evaluation is over. It is on the list of what the
evaluator may count on, but is not its to give up: what there is besides
this handle is confined (`confinement`).
-/
import ScopedScript.Proofs.Balance
import ScopedScript.Proofs.Custody
import ScopedScript.Proofs.Reachable

namespace ScopedScript

namespace Store

-- ================================================================== seeing

/-- What is seen from a scope: the scope itself, parents that are still
there, and what functions in slots close over. -/
inductive Sees (s : Store) (scope : ScopeId) : ScopeId → Prop
  | refl : Sees s scope scope
  | parent {i outer : ScopeId} {c : Cell} (h : Sees s scope i) (hc : s.cell? i = some c)
      (hparent : c.parent = some outer) (hlive : s.isLive outer = true) : Sees s scope outer
  | closure {i closed : ScopeId} {c : Cell} {entry : String × Value} (h : Sees s scope i)
      (hc : s.cell? i = some c) (hentry : entry ∈ c.values i)
      (hclosed : entry.2.scope? = some closed) : Sees s scope closed

-- ================================================================= arising

/-- The stores that come about by operations of those who hold these scopes
from outside. -/
inductive Arises : List ScopeId → Store → Prop
  | empty : Arises [] {}
  | create {l s parent} (h : Arises l s) (hparent : ∀ outer ∈ parent, outer ∈ l) :
      Arises (s.cells.size :: l) (s.create parent).2
  | hold {l s scope} (h : Arises l s) (hlive : s.isLive scope = true) :
      Arises (scope :: l) (s.hold scope)
  | drop {l s scope} (h : Arises (scope :: l) s) : Arises l (s.drop scope)
  | declare {l s scope name value} (h : Arises (value.scope?.toList ++ l) s) :
      Arises l (s.declare scope name value).2
  | assign {l s scope name value} (h : Arises (value.scope?.toList ++ l) s) :
      Arises l (s.assign scope name value).2
  | lookup {l s scope name value} (h : Arises l s) (hvalue : (s.lookup scope name).1 = .ok value) :
      Arises (value.scope?.toList ++ l) (s.lookup scope name).2
  | perm {l l' s} (h : Arises l s) (hperm : l.Perm l') : Arises l' s

variable {s : Store} {l l' : List ScopeId} {scope : ScopeId}

namespace Arises

theorem balanced (h : s.Arises l) : s.Balanced l := by
  induction h with
  | empty => exact balanced_empty
  | create _ _ ih => exact ih.create _
  | hold _ hlive ih =>
      obtain ⟨c, hc⟩ := Option.isSome_iff_exists.1 hlive
      exact ih.hold hc
  | drop _ ih => exact ih.drop
  | declare _ ih => exact ih.declare _ _
  | assign _ ih => exact ih.assign _ _
  | @lookup l s scope name value _ hvalue ih =>
      have hlookup := ih.lookup scope name
      rw [hvalue] at hlookup
      exact hlookup
  | perm _ hperm ih => exact ih.perm hperm

theorem lt_size (h : s.Arises l) (hscope : scope ∈ l) : scope < s.cells.size := by
  obtain ⟨c, hc⟩ := h.balanced.cell?_of_mem (.inl hscope)
  exact lt_size_of_cell? hc

theorem among {value : Value} (h : s.Arises (value.scope?.toList ++ l)) :
    value.Among s.cells.size := by
  intro scope hscope
  exact h.lt_size (List.mem_append_left _ (Option.mem_toList.2 hscope))

theorem reachable (h : s.Arises l) : s.Reachable := by
  induction h with
  | empty => exact .empty
  | create h hparent ih => exact ih.create fun outer houter => h.lt_size (hparent outer houter)
  | hold _ _ ih => exact ih.hold
  | drop _ ih => exact ih.drop
  | declare h ih => exact ih.declare h.among
  | assign h ih => exact ih.assign h.among
  | lookup _ _ ih => exact ih.lookup
  | perm _ _ ih => exact ih

end Arises

/-- What comes about, as a custody. -/
def arising : Custody Store where
  Held l s := s.Arises l
  Evolves _ _ := True
  Standing _ l scope := [scope] ⊆ l
  Blames _ _ := True
  refl _ := trivial
  trans _ _ := trivial
  perm := .perm
  standing_mem hscope := hscope (List.mem_cons_self ..)
  standing_later _ hsubset hscope := List.Subset.trans hscope hsubset
  create hheld hsubset _ houter := by
    refine ⟨hheld.create fun outer hparent => ?_, trivial,
      List.cons_subset_cons _ (List.nil_subset _)⟩
    cases hparent
    exact hsubset houter
  hold hheld hscope := by
    obtain ⟨c, hc⟩ := hheld.balanced.cell?_of_mem (.inl hscope)
    exact ⟨hheld.hold (Option.isSome_iff_exists.2 ⟨c, hc⟩), trivial⟩
  drop hheld := ⟨hheld.drop, trivial, fun _ _ => trivial⟩
  declare name hheld _ := ⟨hheld.declare, trivial, fun _ _ => trivial⟩
  assign name hheld _ := ⟨hheld.assign, trivial, fun _ _ => trivial⟩
  lookup {s l scope} name hheld _ := by
    refine ⟨trivial, fun value hvalue => hheld.lookup hvalue, fun fault hfault => ⟨?_, trivial⟩⟩
    rcases s.lookup_cases scope name with ⟨_, hresolve, -, -⟩ | ⟨_, _, _, -, -, -, hok, -⟩
    · show (s.lookup scope name).2.Arises l
      rw [lookup_of_error hresolve]
      exact hheld
    · have hfault' : (s.lookup scope name).1 = .error fault := hfault
      rw [hok] at hfault'
      cases hfault'

/-- What an evaluation leaves behind has come about as well, with its result
at hand. -/
theorem Arises.eval (h : s.Arises l) (hscope : scope ∈ l) (program : Nat) (node : Node)
    (printed : Array (List Printed)) :
    match ScopedScript.eval program scope node ⟨s, printed⟩ with
    | .ok result w => w.scopes.Arises (closed result.toList ++ l)
    | .error _ w => w.scopes.Arises l := by
  have hsettled := Eval.settles_evalTask (C := arising) ⟨0, program, scope, [], node⟩
    ⟨s, printed⟩ l (List.cons_subset.2 ⟨hscope, List.nil_subset l⟩) (List.nil_subset _) h
  change Eval.Settled arising s l Eval.yields (ScopedScript.eval program scope node ⟨s, printed⟩)
    at hsettled
  generalize ScopedScript.eval program scope node ⟨s, printed⟩ = r at hsettled
  cases r with
  | ok result w => exact hsettled.2
  | error e w => exact hsettled.2.1

-- ================================================================== region

section Region

variable (origin : Store) (held : List ScopeId) (start : ScopeId)

/-- What an evaluation can get at: what it sees from where it starts, and
what is made later. -/
def Region (i : ScopeId) : Prop := origin.Sees start i ∨ origin.cells.size ≤ i

/-- A scope that was made and is gone. -/
def Gone (i : ScopeId) : Prop := i < origin.cells.size ∧ origin.cell? i = none

/-- While an evaluation holds some scopes, besides those that were held from
outside to begin with, it is confined to its region. -/
structure Confined (l : List ScopeId) (s : Store) : Prop where
  balanced : s.Balanced (l ++ held)
  size : origin.cells.size ≤ s.cells.size
  apart : ∀ {i}, ¬ Region origin start i → s.cell? i = origin.cell? i
  gone : ∀ {i}, origin.Gone i → s.cell? i = none
  parent : ∀ {i c outer}, Region origin start i → s.cell? i = some c → c.parent = some outer →
    Region origin start outer ∨ origin.Gone outer
  closure : ∀ {i c}, Region origin start i → s.cell? i = some c →
    ∀ entry ∈ c.values i, ∀ closed ∈ entry.2.scope?, Region origin start closed
  within : ∀ i ∈ l, Region origin start i

end Region

variable {origin : Store} {held : List ScopeId} {start i : ScopeId} {c : Cell} {name : String}
  {value : Value}

/-- What is seen is there. -/
theorem Balanced.cell?_of_sees (h : s.Balanced l) (hscope : scope ∈ l) (hsees : s.Sees scope i) :
    ∃ c, s.cell? i = some c := by
  cases hsees with
  | refl => exact h.cell?_of_mem (.inl hscope)
  | parent _ _ _ hlive => exact Option.isSome_iff_exists.1 hlive
  | closure _ hc hentry hclosed => exact h.cell?_of_value hc hentry hclosed

/-- An evaluation starts out confined. -/
theorem Arises.confined (h : origin.Arises held) (scope : ScopeId) :
    Confined origin held scope [] origin := by
  have hordered := h.reachable.ordered
  refine ⟨h.balanced, Nat.le_refl _, fun _ => rfl, And.right, fun {i c outer} hi hc hparent => ?_,
    fun {i c} hi hc entry hentry closed hclosed => ?_, fun i hi => by cases hi⟩
  · have hsees : origin.Sees scope i :=
      hi.resolve_right (Nat.not_le.2 (lt_size_of_cell? hc))
    cases hlive : origin.isLive outer with
    | true => exact .inl (.inl (hsees.parent hc hparent hlive))
    | false =>
        have holder : outer < i := hordered.parent hc outer hparent
        exact .inr ⟨Nat.lt_trans holder (lt_size_of_cell? hc), Option.not_isSome_iff_eq_none.1
          (Bool.eq_false_iff.1 hlive)⟩
  · have hsees : origin.Sees scope i :=
      hi.resolve_right (Nat.not_le.2 (lt_size_of_cell? hc))
    exact .inl (hsees.closure hc hentry hclosed)

namespace Confined

variable (h : Confined origin held start l s)

include h

theorem perm (hperm : l.Perm l') : Confined origin held start l' s := by
  refine { h with balanced := h.balanced.perm (hperm.append_right held), within := ?_ }
  exact fun i hi => h.within i (hperm.mem_iff.2 hi)

/-- A cell of the region may be changed, as long as its slots do not lead out
of the region. -/
theorem put (hi : Region origin start i) (hc : s.cell? i = some c) {new : Option Cell}
    (hbalanced : (s.put i new).Balanced (l' ++ held)) (hparent : ∀ d ∈ new, d.parent = c.parent)
    (hclosure : ∀ d ∈ new, ∀ entry ∈ d.values i, ∀ closed ∈ entry.2.scope?,
      Region origin start closed)
    (hwithin : ∀ j ∈ l', Region origin start j) : Confined origin held start l' (s.put i new) := by
  have hcell {j : ScopeId} {d : Cell} (hd : (s.put i new).cell? j = some d) :
      (j = i ∧ new = some d) ∨ s.cell? j = some d := by
    by_cases hj : i = j
    · subst hj
      rw [cell?_put_self (lt_size_of_cell? hc)] at hd
      exact .inl ⟨rfl, hd⟩
    · rw [cell?_put_ne _ hj] at hd
      exact .inr hd
  refine ⟨hbalanced, ?_, fun {j} hj => ?_, fun {j} hj => ?_, fun {j d outer} hj hd houter => ?_,
    fun {j d} hj hd => ?_, hwithin⟩
  · rw [size_put]
    exact h.size
  · have hne : i ≠ j := by
      rintro rfl
      exact hj hi
    rw [cell?_put_ne _ hne]
    exact h.apart hj
  · have hgone := h.gone hj
    have hne : i ≠ j := by
      rintro rfl
      rw [hc] at hgone
      cases hgone
    rw [cell?_put_ne _ hne]
    exact hgone
  · rcases hcell hd with ⟨rfl, hnew⟩ | hd
    · rw [hparent d hnew] at houter
      exact h.parent hj hc houter
    · exact h.parent hj hd houter
  · rcases hcell hd with ⟨rfl, hnew⟩ | hd
    · exact hclosure d hnew
    · exact h.closure hj hd

theorem cell?_of_held (hi : i ∈ l) : ∃ c, s.cell? i = some c :=
  h.balanced.cell?_of_mem (.inl (List.mem_append_left _ hi))

/-- What slots of the region hold is in the region. -/
theorem region_of_held (hi : Region origin start i) (hc : s.cell? i = some c) :
    ∀ j ∈ c.held, Region origin start j := by
  intro j hj
  obtain ⟨⟨name, slot⟩, hslot, hheld⟩ := List.mem_filterMap.1 hj
  cases slot with
  | own program definition => cases hheld
  | plain value => exact h.closure hi hc _ (List.mem_map_of_mem hslot) j hheld

/-- A look-up that starts in the region ends there. -/
theorem region_of_resolve {owner : ScopeId} (hi : Region origin start i)
    (hresolve : s.resolve name i = .ok owner) : Region origin start owner := by
  fun_induction resolve s name i with
  | case1 i hgone => cases hresolve
  | case2 i c hc hhas =>
      cases hresolve
      exact hi
  | case3 i c hc hhas hparent => cases hresolve
  | case4 i c hc hhas outer hparent holder ih =>
      rcases h.parent hi hc hparent with houter | hgone
      · exact ih houter hresolve
      · rw [resolve_of_none (h.gone hgone)] at hresolve
        cases hresolve
  | case5 i c hc hhas outer hparent holder => cases hresolve

omit h in
/-- One step of letting go stays in the region. -/
theorem release (h : Confined origin held start (i :: l) s) :
    Confined origin held start (freed (s.cell? i) ++ l)
      (s.put i (released (s.cell? i))) := by
  have hi := h.within i (List.mem_cons_self ..)
  obtain ⟨c, hc⟩ := h.cell?_of_held (List.mem_cons_self ..)
  have hbalanced := h.balanced.release
  have hfreed : ∀ j ∈ freed (some c), j ∈ c.held := by
    intro j hj
    unfold freed at hj
    by_cases hheld : 1 < c.holders
    · simp only [if_pos hheld] at hj
      cases hj
    · simp only [if_neg hheld] at hj
      exact hj
  have hkept : ∀ d ∈ released (some c), d.slots = c.slots ∧ d.parent = c.parent := by
    intro d hd
    unfold released at hd
    by_cases hheld : 1 < c.holders
    · simp only [if_pos hheld] at hd
      cases hd
      exact ⟨rfl, rfl⟩
    · simp only [if_neg hheld] at hd
      cases hd
  rw [hc] at hbalanced ⊢
  refine h.put hi hc ?_ (fun d hd => (hkept d hd).2) (fun d hd entry hentry => ?_) fun j hj => ?_
  · rw [List.append_assoc]
    exact hbalanced
  · rw [Cell.values, (hkept d hd).1] at hentry
    exact h.closure hi hc entry hentry
  · rcases List.mem_append.1 hj with hj | hj
    · exact h.region_of_held hi hc j (hfreed j hj)
    · exact h.within j (List.mem_cons_of_mem _ hj)

omit h in
theorem dropAll {pending : List ScopeId} (h : Confined origin held start (pending ++ l) s) :
    Confined origin held start l (s.dropAll pending) := by
  induction s, pending using dropAll_induction with
  | nil s =>
      rw [Store.dropAll]
      exact h
  | step s scope rest ih =>
      rw [dropAll_cons]
      apply ih
      rw [List.append_assoc]
      exact h.release

theorem hold (hi : Region origin start i) (hc : s.cell? i = some c) :
    Confined origin held start (i :: l) (s.hold i) := by
  have hbalanced := h.balanced.hold hc
  unfold Store.hold at hbalanced ⊢
  rw [hc] at hbalanced ⊢
  refine h.put hi hc hbalanced ?_ ?_ fun j hj => ?_
  · rintro d ⟨rfl⟩
    rfl
  · rintro d ⟨rfl⟩ entry hentry
    exact h.closure hi hc entry hentry
  · rcases List.mem_cons.1 hj with rfl | hj
    · exact hi
    · exact h.within j hj

theorem create {outer : ScopeId} (houter : Region origin start outer) :
    Confined origin held start (s.cells.size :: l) (s.create (some outer)).2 := by
  have hmade : Region origin start s.cells.size := .inr h.size
  have hcell {j : ScopeId} {d : Cell} (hd : (s.create (some outer)).2.cell? j = some d) :
      d = { parent := some outer } ∨ s.cell? j = some d := by
    rw [cell?_create] at hd
    by_cases hj : j = s.cells.size
    · rw [if_pos hj] at hd
      cases hd
      exact .inl rfl
    · rw [if_neg hj] at hd
      exact .inr hd
  refine ⟨h.balanced.create _, ?_, fun {j} hj => ?_, fun {j} hj => ?_,
    fun {j d outer'} hj hd hparent => ?_, fun {j d} hj hd entry hentry => ?_, fun j hj => ?_⟩
  · rw [size_create]
    exact Nat.le_succ_of_le h.size
  · have hne : j ≠ s.cells.size := by
      rintro rfl
      exact hj hmade
    rw [cell?_create, if_neg hne]
    exact h.apart hj
  · have hne : j ≠ s.cells.size := Nat.ne_of_lt (Nat.lt_of_lt_of_le hj.1 h.size)
    rw [cell?_create, if_neg hne]
    exact h.gone hj
  · rcases hcell hd with rfl | hd
    · cases hparent
      exact .inl houter
    · exact h.parent hj hd hparent
  · rcases hcell hd with rfl | hd
    · cases hentry
    · exact h.closure hj hd entry hentry
  · rcases List.mem_cons.1 hj with rfl | hj
    · exact hmade
    · exact h.within j hj

/-- The values of a slot that is about to be changed. -/
theorem region_of_before (hi : Region origin start i) (hc : s.cell? i = some c) :
    ∀ j ∈ ((c.get? name).bind Slot.held?).toList, Region origin start j := by
  intro j hj
  obtain ⟨slot, hslot, hheld⟩ := Option.bind_eq_some_iff.1 (Option.mem_toList.1 hj)
  refine h.region_of_held hi hc j ?_
  exact List.mem_filterMap.2 ⟨_, Cell.mem_slots_of_get? hslot, hheld⟩

omit h in
theorem region_of_spare (hi : Region origin start i) :
    ∀ j ∈ spare i value, Region origin start j := by
  intro j hj
  unfold spare at hj
  split at hj
  · rw [List.mem_singleton.1 hj]
    exact hi
  · cases hj

end Confined

namespace Confined

variable (h : Confined origin held start (value.scope?.toList ++ l) s)

include h

theorem region_of_value : ∀ j ∈ value.scope?, Region origin start j :=
  fun j hj => h.within j (List.mem_append_left _ (Option.mem_toList.2 hj))

theorem region_of_rest : ∀ j ∈ l, Region origin start j :=
  fun j hj => h.within j (List.mem_append_right _ hj)

theorem add (hi : Region origin start i) (hc : s.cell? i = some c) (hhas : ¬c.has name = true) :
    Confined origin held start (spare i value ++ l)
      (s.put i (some (c.add name (.ofValue i value)))) := by
  have hbalanced := h.balanced
  rw [List.append_assoc] at hbalanced
  refine h.put hi hc ?_ ?_ ?_ fun j hj => ?_
  · rw [List.append_assoc]
    exact hbalanced.add hc hhas
  · rintro d ⟨rfl⟩
    rfl
  · rintro d ⟨rfl⟩ entry hentry
    rw [Cell.values_add] at hentry
    rcases List.mem_cons.1 hentry with rfl | hentry
    · exact h.region_of_value
    · exact h.closure hi hc entry hentry
  · rcases List.mem_append.1 hj with hj | hj
    · exact region_of_spare hi j hj
    · exact h.region_of_rest j hj

theorem replace (hi : Region origin start i) (hc : s.cell? i = some c) (hhas : c.has name = true) :
    Confined origin held start (spare i value ++ ((c.get? name).bind Slot.held?).toList ++ l)
      (s.put i (some (c.replace name (.ofValue i value)))) := by
  have hbalanced := h.balanced
  rw [List.append_assoc] at hbalanced
  refine h.put hi hc ?_ ?_ ?_ fun j hj => ?_
  · rw [List.append_assoc]
    exact hbalanced.replace hc hhas
  · rintro d ⟨rfl⟩
    rfl
  · rintro d ⟨rfl⟩ entry hentry
    rw [Cell.values_replace] at hentry
    obtain ⟨old, hold, rfl⟩ := List.mem_map.1 hentry
    by_cases hname : old.1 = name
    · rw [if_pos hname]
      exact h.region_of_value
    · rw [if_neg hname]
      exact h.closure hi hc old hold
  · rcases List.mem_append.1 hj with hj | hj
    · rcases List.mem_append.1 hj with hj | hj
      · exact region_of_spare hi j hj
      · exact h.region_of_before hi hc j hj
    · exact h.region_of_rest j hj

theorem declare (hi : Region origin start i) (name : String) :
    Confined origin held start l (s.declare i name value).2 := by
  cases hc : s.cell? i with
  | none =>
      rw [declare_of_none hc]
      exact h.dropAll
  | some c =>
      by_cases hhas : c.has name = true
      · rw [declare_of_has hc hhas]
        exact h.dropAll
      · rw [declare_of_fresh hc hhas]
        exact (h.add hi hc hhas).dropAll

theorem assign (hi : Region origin start i) (name : String) :
    Confined origin held start l (s.assign i name value).2 := by
  cases hresolve : s.resolve name i with
  | error fault =>
      rw [assign_of_error hresolve]
      exact h.dropAll
  | ok owner =>
      obtain ⟨c, hc, hhas⟩ := resolve_ok hresolve
      rw [assign_of_ok hresolve hc]
      exact (h.replace (h.region_of_resolve hi hresolve) hc hhas).dropAll

end Confined

/-- A value that is found closes over a scope of the region. -/
theorem Confined.lookup (h : Confined origin held start l s) (hi : Region origin start i)
    (name : String) :
    match (s.lookup i name).1 with
    | .ok value => Confined origin held start (value.scope?.toList ++ l) (s.lookup i name).2
    | .error _ => Confined origin held start l (s.lookup i name).2 := by
  cases hresolve : s.resolve name i with
  | error fault =>
      rw [lookup_of_error hresolve]
      exact h
  | ok owner =>
      obtain ⟨c, hc, hhas⟩ := resolve_ok hresolve
      obtain ⟨slot, hslot⟩ := Option.isSome_iff_exists.1 hhas
      have howner := h.region_of_resolve hi hresolve
      rw [lookup_of_ok hresolve hc hslot]
      dsimp only
      unfold Scopes.holdValue
      cases hclosed : (slot.toValue owner).scope? with
      | none => exact h
      | some closed =>
          have hmem := Cell.mem_values_of_get? owner hslot
          obtain ⟨d, hd⟩ := h.balanced.cell?_of_value hc hmem hclosed
          exact h.hold (h.closure howner hc _ hmem closed hclosed) hd

-- ================================================================= custody

/-- What is held besides the handle on the scope in which the evaluation
started is confined. -/
def Lent (origin : Store) (held : List ScopeId) (start : ScopeId) (l : List ScopeId)
    (s : Store) : Prop :=
  ∀ k, l.Perm (start :: k) → Confined origin held start k s

theorem region_start : Region origin start start := .inl .refl

theorem Confined.region_of_mem {x k : List ScopeId} (h : Confined origin held start (x ++ k) s)
    (hperm : l.Perm (start :: k)) (hi : i ∈ l) : Region origin start i := by
  rcases List.mem_cons.1 (hperm.mem_iff.1 hi) with rfl | hi
  · exact region_start
  · exact h.within i (List.mem_append_right _ hi)

/-- What the evaluator may count on is there. -/
theorem Confined.cell?_of_mem {k : List ScopeId} (h : Confined origin held start k s)
    (hstart : start ∈ held) (hperm : l.Perm (start :: k)) (hi : i ∈ l) :
    ∃ c, s.cell? i = some c := by
  rcases List.mem_cons.1 (hperm.mem_iff.1 hi) with rfl | hi
  · exact h.balanced.cell?_of_mem (.inl (List.mem_append_right _ hstart))
  · exact h.cell?_of_held hi

theorem Lent.confined {x k : List ScopeId} (h : Lent origin held start (x ++ l) s)
    (hperm : l.Perm (start :: k)) : Confined origin held start (x ++ k) s :=
  h (x ++ k) ((hperm.append_left x).trans List.perm_middle)

/-- More may be held if the handle is not part of it. -/
theorem lent_append {x : List ScopeId} (hstart : start ∈ l)
    (h : ∀ k, l.Perm (start :: k) → Confined origin held start (x ++ k) s) :
    Lent origin held start (x ++ l) s := by
  intro k' hk'
  have hperm := List.perm_cons_erase hstart
  refine (h _ hperm).perm (List.Perm.cons_inv (a := start) ?_)
  exact ((hperm.append_left x).trans List.perm_middle).symm.trans hk'

/-- Evaluation is confined to its region. -/
def confinement (origin : Store) {held : List ScopeId} {start : ScopeId} (hstart : start ∈ held) :
    Custody Store where
  Held := Lent origin held start
  Evolves _ _ := True
  Standing _ l scope := start ∈ l ∧ scope ∈ l
  Blames _ _ := True
  refl _ := trivial
  trans _ _ := trivial
  perm hheld hperm k hk := hheld k (hperm.trans hk)
  standing_mem := And.right
  standing_later _ hsubset hscope := ⟨hsubset hscope.1, hsubset hscope.2⟩
  create {s l outside scope outer} hheld hsubset hstanding houter := by
    have hmade : Lent origin held start ([s.cells.size] ++ l) (s.create (some outer)).2 := by
      refine lent_append (hsubset hstanding.1) fun k hk => ?_
      have hconfined := hheld k hk
      exact hconfined.create (hconfined.region_of_mem (x := []) hk (hsubset houter))
    exact ⟨hmade, trivial, List.mem_cons_of_mem _ hstanding.1, List.mem_cons_self ..⟩
  hold {s l scope} hheld hscope := by
    refine ⟨fun k' hk' => ?_, trivial⟩
    -- the handle is on the list already, also if it is the one that is duplicated
    have hlent : start ∈ l := by
      rcases List.mem_cons.1 (hk'.mem_iff.2 (List.mem_cons_self ..)) with rfl | hlent
      · exact hscope
      · exact hlent
    have hagain : Lent origin held start ([scope] ++ l) (s.hold scope) := by
      refine lent_append hlent fun k hk => ?_
      have hconfined := hheld k hk
      obtain ⟨c, hc⟩ := hconfined.cell?_of_mem hstart hk hscope
      exact hconfined.hold (hconfined.region_of_mem (x := []) hk hscope) hc
    exact hagain k' hk'
  drop {s l scope} hheld :=
    ⟨fun k hk => Confined.dropAll (Lent.confined (x := [scope]) hheld hk), trivial,
      fun _ _ => trivial⟩
  declare {s l scope value} name hheld hstanding := by
    refine ⟨fun k hk => ?_, trivial, fun _ _ => trivial⟩
    have hconfined := Lent.confined hheld hk
    exact hconfined.declare (hconfined.region_of_mem hk hstanding.2) name
  assign {s l scope value} name hheld hstanding := by
    refine ⟨fun k hk => ?_, trivial, fun _ _ => trivial⟩
    have hconfined := Lent.confined hheld hk
    exact hconfined.assign (hconfined.region_of_mem hk hstanding.2) name
  lookup {s l scope} name hheld hstanding := by
    have hlookup (k : List ScopeId) (hk : l.Perm (start :: k)) := (hheld k hk).lookup
      ((hheld k hk).region_of_mem (x := []) hk hstanding.2) name
    refine ⟨trivial, fun value hvalue => lent_append hstanding.1 fun k hk => ?_,
      fun fault hfault => ⟨fun k hk => ?_, trivial⟩⟩
    · have hvalue' : (s.lookup scope name).1 = .ok value := hvalue
      have hfound := hlookup k hk
      rw [hvalue'] at hfound
      exact hfound
    · have hfault' : (s.lookup scope name).1 = .error fault := hfault
      have hmissed := hlookup k hk
      rw [hfault'] at hmissed
      exact hmissed

/-- To begin with nothing is held but by the host. -/
theorem Arises.lent (h : origin.Arises held) (scope : ScopeId) :
    Lent origin held scope [scope] origin := by
  intro k hk
  rw [← (List.Perm.cons_inv hk).nil_eq]
  exact h.confined scope

/-- An evaluation, whether it succeeds or fails, leaves every scope alone
that was there and that it did not see. -/
theorem Arises.cell?_after_eval (h : origin.Arises held) (hscope : scope ∈ held) (program : Nat)
    (node : Node) (printed : Array (List Printed)) (hi : i < origin.cells.size)
    (hsees : ¬ origin.Sees scope i) :
    (Eval.after (ScopedScript.eval program scope node ⟨origin, printed⟩)).scopes.cell? i
      = origin.cell? i := by
  have hsettled := Eval.settles_evalTask (C := confinement origin hscope)
    ⟨0, program, scope, [], node⟩ ⟨origin, printed⟩ [scope]
    ⟨List.mem_cons_self .., List.mem_cons_self ..⟩ (List.nil_subset _) (h.lent scope)
  change Eval.Settled (confinement origin hscope) origin [scope] Eval.yields
    (ScopedScript.eval program scope node ⟨origin, printed⟩) at hsettled
  have hregion : ¬ Region origin scope i := not_or.2 ⟨hsees, Nat.not_le.2 hi⟩
  generalize ScopedScript.eval program scope node ⟨origin, printed⟩ = r at hsettled
  cases r with
  | ok result w => exact (hsettled.2 _ List.perm_append_comm).apart hregion
  | error e w => exact (hsettled.2.1 [] (.refl _)).apart hregion

end Store

end ScopedScript
