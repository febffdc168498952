/-
Two stores that differ in the name of a parameter.

Two runs of a program, one of them with a parameter renamed, make the same
scopes at the same time, hold them equally often and free them together.
What differs is names, and the definitions in function values. This file
ties the stores of two such runs together and takes the operations one by
one: done to both stores, with names that stand for each other and values
that are twins, an operation answers alike and leaves stores that are tied
together as before.

# What is known of scopes

The names of a scope depend on its side, that is, on the function it was
made for. Sides are listed in the order in which scopes are made, and the
list is the index of all relations here. It grows when scopes are made,
and when more is known of a scope in the making: each name that is
declared there is noted, and the scope is settled `inside` when it has the
renamed parameter (`Grows`).

# Why look-ups agree

A look-up that starts inside either stays inside or goes on from the scope
of a call of the function itself to the scopes outside. There the renamed
parameter cannot be what it is looking for, since the scope that was just
left has it (`Linked`), and every other name is called alike on both
sides.
-/
import ScopedScript.Proofs.Evolution
import ScopedScript.Proofs.Renaming
import ScopedScript.Proofs.StoreSteps

namespace ScopedScript

-- ============================================================== knowledge

/-- How a scope can come to be on another side: by getting names, and by
having all of them. -/
inductive Side.Becomes : Side → Side → Prop
  | same {side : Side} : Becomes side side
  | named {names more : List String} (hmore : names ⊆ more) :
      Becomes (.entering names) (.entering more)
  | settled {names : List String} : Becomes (.entering names) .inside

namespace Side.Becomes

variable {side side' side'' : Side}

theorem trans (h : Becomes side side') (h' : Becomes side' side'') : Becomes side side'' := by
  cases h with
  | same => exact h'
  | named hmore =>
      cases h' with
      | same => exact .named hmore
      | named hmore' => exact .named (List.Subset.trans hmore hmore')
      | settled => exact .settled
  | settled =>
      cases h'
      exact .settled

theorem eq_of_isSettled (h : Becomes side side') (hsettled : side.isSettled = true) :
    side' = side := by
  cases h with
  | same => rfl
  | named | settled => cases hsettled

theorem called (h : Becomes side side') {x y name name' : String}
    (hcalled : Called x y side name name') : Called x y side' name name' := by
  cases h <;> exact hcalled

end Side.Becomes

/-- More is known of the scopes: there may be more of them, and more may be
known of those in the making. -/
def Grows (sides sides' : List Side) : Prop :=
  ∀ (i : ScopeId) (side : Side), sides[i]? = some side →
    ∃ side', sides'[i]? = some side' ∧ side.Becomes side'

namespace Grows

variable {sides sides' sides'' : List Side}

theorem refl (sides : List Side) : Grows sides sides := fun _ side h => ⟨side, h, .same⟩

theorem trans (h : Grows sides sides') (h' : Grows sides' sides'') : Grows sides sides'' := by
  intro i side hside
  obtain ⟨side', hside', hbecomes⟩ := h i side hside
  obtain ⟨side'', hside'', hbecomes'⟩ := h' i side' hside'
  exact ⟨side'', hside'', hbecomes.trans hbecomes'⟩

/-- What is settled stays so. -/
theorem settled (h : Grows sides sides') {i : ScopeId} {side : Side} (hside : sides[i]? = some side)
    (hsettled : side.isSettled = true) : sides'[i]? = some side := by
  obtain ⟨side', hside', hbecomes⟩ := h i side hside
  rw [← hbecomes.eq_of_isSettled hsettled]
  exact hside'

theorem append (sides : List Side) (side : Side) : Grows sides (sides ++ [side]) := by
  intro i other hi
  obtain ⟨hlt, -⟩ := List.getElem?_eq_some_iff.1 hi
  rw [List.getElem?_append_left hlt]
  exact ⟨other, hi, .same⟩

theorem set {i : ScopeId} {side side' : Side} (h : sides[i]? = some side)
    (hbecomes : side.Becomes side') : Grows sides (sides.set i side') := by
  intro j other hj
  by_cases hi : i = j
  · subst hi
    rw [h] at hj
    cases hj
    exact ⟨side', List.getElem?_set_self (List.getElem?_eq_some_iff.1 h).1, hbecomes⟩
  · rw [List.getElem?_set_ne hi]
    exact ⟨other, hj, .same⟩

end Grows

/-- A scope that is in the making is known to have the name. -/
def Knows (sides : List Side) (scope : ScopeId) (name : String) : Prop :=
  ∀ names, sides[scope]? = some (.entering names) → name ∈ names

theorem Knows.of_isSettled {sides : List Side} {scope : ScopeId} {side : Side}
    (hside : sides[scope]? = some side) (hsettled : side.isSettled = true) (name : String) :
    Knows sides scope name := by
  intro names hnames
  rw [hside] at hnames
  cases hnames
  cases hsettled

theorem Knows.of_grows {sides sides' : List Side} {scope : ScopeId} {side : Side} {name : String}
    (hgrows : Grows sides sides') (hside : sides[scope]? = some side) (h : Knows sides scope name) :
    Knows sides' scope name := by
  intro more hmore
  obtain ⟨side', hside', hbecomes⟩ := hgrows scope side hside
  rw [hmore] at hside'
  cases hside'
  cases hbecomes with
  | same => exact h more hside
  | named hsubset => exact hsubset (h _ hside)

-- ============================================================== relations

section Relations

variable (x y : String) (sides : List Side)

/-- Values that come up at the same time: they are the same, or functions
over the same scope that are twins on its side. -/
inductive Value.Twin : Value → Value → Prop
  | plain {value : Value} (hplain : value.scope? = none) : Value.Twin value value
  | function {program : Nat} {definition definition' : Node} {scope : ScopeId} {side : Side}
      (hside : sides[scope]? = some side) (hsettled : side.isSettled = true)
      (hdefinition : ScopedScript.Twin x y side definition definition') :
      Value.Twin (.function ⟨program, definition, scope⟩) (.function ⟨program, definition', scope⟩)

/-- Slots of a scope that stand for twins and hold the same. -/
structure Slot.Twin (scope : ScopeId) (slot slot' : Slot) : Prop where
  value : Value.Twin x y sides (slot.toValue scope) (slot'.toValue scope)
  held : slot'.held? = slot.held?

/-- What is known of a scope on a side. From inside, the only way out is by
a scope that has the parameter. -/
def Cell.Linked (side : Side) (c : Cell) : Prop :=
  match side with
  | .outside => ∀ parent, c.parent = some parent → sides[parent]? = some .outside
  | .entering names => (∀ parent, c.parent = some parent → sides[parent]? = some .outside)
      ∧ ∀ name ∈ names, c.has name = true
  | .inside => ∀ parent, c.parent = some parent → sides[parent]? = some .inside
      ∨ sides[parent]? = some .outside ∧ c.has x = true

/-- Scopes with the same number. -/
structure Cell.Abreast (scope : ScopeId) (side : Side) (c c' : Cell) : Prop where
  slots : List.Forall₂
    (fun entry entry' => Called x y side entry.1 entry'.1
      ∧ Slot.Twin x y sides scope entry.2 entry'.2) c.slots c'.slots
  parent : c'.parent = c.parent
  holders : c'.holders = c.holders
  linked : c.Linked x sides side

/-- Stores that have made the same scopes and freed the same scopes. -/
structure Store.Abreast (s s' : Store) : Prop where
  size : s.cells.size = sides.length
  size' : s'.cells.size = sides.length
  cell : ∀ {i : ScopeId} {side : Side}, sides[i]? = some side →
    Option.Rel (Cell.Abreast x y sides i side) (s.cell? i) (s'.cell? i)

/-- What an operation answers in two stores: it fails in both, or in
neither. -/
inductive Answers {α β : Type} (Q : α → β → Prop) :
    Except ScopeFault α × Store → Except ScopeFault β × Store → Prop
  | ok {a b s s'} (hstores : Store.Abreast x y sides s s') (hanswer : Q a b) :
      Answers Q (.ok a, s) (.ok b, s')
  | error {fault fault' s s'} : Answers Q (.error fault, s) (.error fault', s')

end Relations

variable {x y : String} {sides sides' : List Side} {side : Side}

-- ================================================================= values

namespace Value.Twin

variable {value value' : Value}

theorem of_grows (h : Grows sides sides') (htwin : Value.Twin x y sides value value') :
    Value.Twin x y sides' value value' := by
  cases htwin with
  | plain hplain => exact .plain hplain
  | function hside hsettled hdefinition =>
      exact .function (h.settled hside hsettled) hsettled hdefinition

theorem scope?_eq (h : Value.Twin x y sides value value') : value'.scope? = value.scope? := by
  cases h <;> rfl

/-- Twins look the same when they are printed: functions keep their
names. -/
theorem printed_eq (h : Value.Twin x y sides value value') : value'.printed = value.printed := by
  cases h with
  | plain hplain => rfl
  | function hside hsettled hdefinition => cases hdefinition <;> rfl

/-- Operators do not tell twins apart. -/
theorem combine_eq {left left' right right' : Value} (operator : Operator)
    (hleft : Value.Twin x y sides left left') (hright : Value.Twin x y sides right right') :
    left'.combine operator right' = left.combine operator right := by
  cases hleft with
  | plain hplain =>
      cases hright with
      | plain hplain' => rfl
      | function hside hsettled hdefinition => cases left <;> rfl
  | function hside hsettled hdefinition =>
      cases hright with
      | plain hplain' => rfl
      | function hside' hsettled' hdefinition' => rfl

end Value.Twin

theorem Slot.Twin.of_grows {scope : ScopeId} {slot slot' : Slot} (h : Grows sides sides')
    (htwin : Slot.Twin x y sides scope slot slot') : Slot.Twin x y sides' scope slot slot' :=
  ⟨htwin.value.of_grows h, htwin.held⟩

/-- The slots of a scope for twins. -/
theorem Slot.Twin.ofValue {scope : ScopeId} {value value' : Value}
    (h : Value.Twin x y sides value value') :
    Slot.Twin x y sides scope (.ofValue scope value) (.ofValue scope value') := by
  refine ⟨by rwa [toValue_ofValue, toValue_ofValue], ?_⟩
  cases h with
  | plain hplain => rfl
  | @function program definition definition' closed side hside hsettled hdefinition =>
      unfold Slot.ofValue
      by_cases hclosed : closed = scope
      · simp [hclosed, Slot.held?]
      · simp [hclosed, Slot.held?, Value.scope?]

-- ================================================================== cells

theorem Cell.Linked.of_grows {c : Cell} (h : Grows sides sides') (hlinked : c.Linked x sides side) :
    c.Linked x sides' side := by
  have houtside {parent : ScopeId} (hparent : sides[parent]? = some .outside) :
      sides'[parent]? = some .outside := h.settled hparent rfl
  cases side with
  | outside => exact fun parent hparent => houtside (hlinked parent hparent)
  | entering names =>
      exact ⟨fun parent hparent => houtside (hlinked.1 parent hparent), hlinked.2⟩
  | inside =>
      intro parent hparent
      rcases hlinked parent hparent with hinside | ⟨hout, hx⟩
      · exact .inl (h.settled hinside rfl)
      · exact .inr ⟨houtside hout, hx⟩

namespace Cell.Abreast

variable {scope : ScopeId} {c c' : Cell} {name name' : String}

theorem of_grows (h : Grows sides sides') (hcells : Cell.Abreast x y sides scope side c c') :
    Cell.Abreast x y sides' scope side c c' := by
  refine ⟨?_, hcells.parent, hcells.holders, hcells.linked.of_grows h⟩
  exact hcells.slots.imp fun entry entry' hentry => ⟨hentry.1, hentry.2.of_grows h⟩

theorem get? (h : Cell.Abreast x y sides scope side c c') (hname : Called x y side name name') :
    Option.Rel (Slot.Twin x y sides scope) (c.get? name) (c'.get? name') := by
  have hslots := h.slots
  unfold Cell.get?
  generalize c.slots = slots, c'.slots = slots' at hslots
  induction hslots with
  | nil => exact .none
  | @cons entry entry' slots slots' hentry hrest ih =>
      have hsame := hname.eq_iff hentry.1
      rw [List.lookup_cons, List.lookup_cons]
      by_cases hfound : name = entry.1
      · rw [beq_iff_eq.2 hfound, beq_iff_eq.2 (hsame.2 hfound)]
        exact .some hentry.2
      · rw [beq_eq_false_iff_ne.2 hfound, beq_eq_false_iff_ne.2 fun h => hfound (hsame.1 h)]
        exact ih

theorem has (h : Cell.Abreast x y sides scope side c c') (hname : Called x y side name name') :
    c'.has name' = c.has name := by
  have hslot := h.get? hname
  unfold Cell.has
  generalize c.get? name = slot, c'.get? name' = slot' at hslot
  cases hslot <;> rfl

theorem held (h : Cell.Abreast x y sides scope side c c') : c'.held = c.held := by
  have hslots := h.slots
  unfold Cell.held
  generalize c.slots = slots, c'.slots = slots' at hslots
  induction hslots with
  | nil => rfl
  | cons hentry hrest ih => rw [List.filterMap_cons, List.filterMap_cons, hentry.2.held, ih]

theorem withHolders (h : Cell.Abreast x y sides scope side c c') (holders : Nat) :
    Cell.Abreast x y sides scope side { c with holders } { c' with holders } :=
  ⟨h.slots, h.parent, rfl, h.linked⟩

/-- A scope with more names, or other values, is linked as before. -/
theorem linked_of_has {d : Cell} (h : Cell.Abreast x y sides scope side c c')
    (hparent : d.parent = c.parent) (hhas : ∀ name, c.has name = true → d.has name = true) :
    d.Linked x sides side := by
  have hlinked := h.linked
  unfold Cell.Linked
  rw [hparent]
  cases side with
  | outside => exact hlinked
  | entering names => exact ⟨hlinked.1, fun name hname => hhas name (hlinked.2 name hname)⟩
  | inside =>
      intro parent hd
      exact (hlinked parent hd).imp_right fun hout => ⟨hout.1, hhas x hout.2⟩

theorem add (h : Cell.Abreast x y sides scope side c c') (hname : Called x y side name name')
    {slot slot' : Slot} (hslot : Slot.Twin x y sides scope slot slot') :
    Cell.Abreast x y sides scope side (c.add name slot) (c'.add name' slot') := by
  refine ⟨.cons ⟨hname, hslot⟩ h.slots, h.parent, h.holders, ?_⟩
  exact h.linked_of_has rfl fun _ => Cell.has_add name slot

theorem replace (h : Cell.Abreast x y sides scope side c c') (hname : Called x y side name name')
    {slot slot' : Slot} (hslot : Slot.Twin x y sides scope slot slot') :
    Cell.Abreast x y sides scope side (c.replace name slot) (c'.replace name' slot') := by
  refine ⟨?_, h.parent, h.holders, h.linked_of_has rfl fun _ => Cell.has_replace name slot⟩
  unfold Cell.replace
  rw [List.forall₂_map_left_iff, List.forall₂_map_right_iff]
  refine h.slots.imp fun entry entry' hentry => ?_
  have hsame := hentry.1.eq_iff hname
  by_cases hfound : entry.1 = name
  · rw [if_pos hfound, if_pos (hsame.2 hfound)]
    exact ⟨hname, hslot⟩
  · rw [if_neg hfound, if_neg fun h => hfound (hsame.1 h)]
    exact hentry

end Cell.Abreast

-- ================================================================= stores

namespace Store

/-- A name that was declared is there. -/
theorem has_of_declare (s : Store) (scope : ScopeId) (name : String) (value : Value)
    (hok : (s.declare scope name value).1 = .ok ()) (c : Cell)
    (hc : (s.declare scope name value).2.cell? scope = some c) : c.has name = true := by
  rcases s.declare_cases scope name value with
    ⟨-, hanswer, -⟩ | ⟨d, hd, ⟨-, hanswer, -⟩ | ⟨-, -, hleft⟩⟩
  · rw [hok] at hanswer
    cases hanswer
  · rw [hok] at hanswer
    cases hanswer
  · obtain ⟨e, he, hslots, -⟩ := hleft.cell hc
    rw [cell?_put_self (lt_size_of_cell? hd), Option.some.injEq] at he
    subst he
    rw [Cell.has_eq_true_iff, hslots]
    exact List.mem_cons_self

end Store

namespace Store.Abreast

variable {s s' : Store} {scope : ScopeId} {name name' : String} {value value' : Value}

/-- A scope that is not known is in neither store. -/
theorem cell?_eq_none (h : Store.Abreast x y sides s s') (hscope : sides[scope]? = none) :
    s.cell? scope = none ∧ s'.cell? scope = none := by
  have hle := List.getElem?_eq_none_iff.1 hscope
  constructor
  · cases hc : s.cell? scope with
    | none => rfl
    | some c =>
        have hlt := Store.lt_size_of_cell? hc
        rw [h.size] at hlt
        exact absurd hlt (Nat.not_lt.2 hle)
  · cases hc : s'.cell? scope with
    | none => rfl
    | some c =>
        have hlt := Store.lt_size_of_cell? hc
        rw [h.size'] at hlt
        exact absurd hlt (Nat.not_lt.2 hle)

/-- What there is to say of a scope: it is in neither store, or in both. -/
theorem cases (h : Store.Abreast x y sides s s') (scope : ScopeId) :
    (s.cell? scope = none ∧ s'.cell? scope = none)
      ∨ ∃ c c' side, s.cell? scope = some c ∧ s'.cell? scope = some c'
        ∧ sides[scope]? = some side ∧ Cell.Abreast x y sides scope side c c' := by
  cases hside : sides[scope]? with
  | none => exact .inl (h.cell?_eq_none hside)
  | some side =>
      have hcells := h.cell hside
      generalize s.cell? scope = cell, s'.cell? scope = cell' at hcells
      cases hcells with
      | none => exact .inl ⟨rfl, rfl⟩
      | @some c c' hcells => exact .inr ⟨c, c', side, rfl, rfl, rfl, hcells⟩

/-- A scope of which nothing more is known. -/
theorem cell_of_grows (h : Store.Abreast x y sides s s') (hgrows : Grows sides sides')
    (hside : sides[scope]? = some side) :
    Option.Rel (Cell.Abreast x y sides' scope side) (s.cell? scope) (s'.cell? scope) := by
  have hcells := h.cell hside
  generalize s.cell? scope = cell, s'.cell? scope = cell' at hcells
  cases hcells with
  | none => exact .none
  | some hcells => exact .some (hcells.of_grows hgrows)

/-- The scope beside a scope that is there. -/
theorem twin (h : Store.Abreast x y sides s s') {c : Cell} (hside : sides[scope]? = some side)
    (hc : s.cell? scope = some c) :
    ∃ c', s'.cell? scope = some c' ∧ Cell.Abreast x y sides scope side c c' := by
  rcases h.cases scope with ⟨hgone, -⟩ | ⟨d, c', side', hd, hc', hside', hcells⟩
  · rw [hc] at hgone
    cases hgone
  · rw [hc] at hd
    rw [hside] at hside'
    cases hd
    cases hside'
    exact ⟨c', hc', hcells⟩

theorem put (h : Store.Abreast x y sides s s') {cell cell' : Option Cell}
    (hcells : ∀ side, sides[scope]? = some side →
      Option.Rel (Cell.Abreast x y sides scope side) cell cell') :
    Store.Abreast x y sides (s.put scope cell) (s'.put scope cell') := by
  refine ⟨by rw [size_put, h.size], by rw [size_put, h.size'], fun {i side} hside => ?_⟩
  by_cases hi : scope = i
  · subst hi
    obtain ⟨hlt, -⟩ := List.getElem?_eq_some_iff.1 hside
    rw [cell?_put_self (by rw [h.size]; exact hlt), cell?_put_self (by rw [h.size']; exact hlt)]
    exact hcells side hside
  · rw [cell?_put_ne _ hi, cell?_put_ne _ hi]
    exact h.cell hside

theorem putCell (h : Store.Abreast x y sides s s') {c c' : Cell} (hside : sides[scope]? = some side)
    (hcells : Cell.Abreast x y sides scope side c c') :
    Store.Abreast x y sides (s.put scope (some c)) (s'.put scope (some c')) := by
  refine h.put fun side' hside' => ?_
  rw [hside] at hside'
  cases hside'
  exact .some hcells

-- ============================================================= letting go

/-- What is let go of in both stores is freed in both. -/
theorem dropAll (h : Store.Abreast x y sides s s') (pending : List ScopeId) :
    Store.Abreast x y sides (s.dropAll pending) (s'.dropAll pending) := by
  fun_induction Store.dropAll s pending generalizing s' with
  | case1 s =>
      rw [Store.dropAll]
      exact h
  | case2 s scope rest hgone ih =>
      rcases h.cases scope with ⟨-, hgone'⟩ | ⟨c, c', side, hc, -⟩
      · rw [dropAll_of_none hgone']
        exact ih h
      · rw [hgone] at hc
        cases hc
  | case3 s scope rest c hc hheld ih =>
      rcases h.cases scope with ⟨hgone, -⟩ | ⟨d, c', side, hd, hc', hside, hcells⟩
      · rw [hc] at hgone
        cases hgone
      · rw [hc] at hd
        cases hd
        rw [dropAll_of_some hc', hcells.holders, if_pos hheld]
        exact ih (h.putCell hside (hcells.withHolders _))
  | case4 s scope rest c hc hheld ih =>
      rcases h.cases scope with ⟨hgone, -⟩ | ⟨d, c', side, hd, hc', hside, hcells⟩
      · rw [hc] at hgone
        cases hgone
      · rw [hc] at hd
        cases hd
        rw [dropAll_of_some hc', hcells.holders, if_neg hheld, hcells.held]
        exact ih (h.put fun _ _ => .none)

theorem drop (h : Store.Abreast x y sides s s') (scope : ScopeId) :
    Store.Abreast x y sides (s.drop scope) (s'.drop scope) :=
  h.dropAll [scope]

theorem hold (h : Store.Abreast x y sides s s') (scope : ScopeId) :
    Store.Abreast x y sides (s.hold scope) (s'.hold scope) := by
  unfold Store.hold
  rcases h.cases scope with ⟨hgone, hgone'⟩ | ⟨c, c', side, hc, hc', hside, hcells⟩
  · rw [hgone, hgone']
    exact h
  · rw [hc, hc']
    dsimp only
    rw [hcells.holders]
    exact h.putCell hside (hcells.withHolders _)

theorem dropValue (h : Store.Abreast x y sides s s') (hvalue : Value.Twin x y sides value value') :
    Store.Abreast x y sides (s.dropValue value) (s'.dropValue value') := by
  unfold Store.dropValue
  rw [hvalue.scope?_eq]
  exact h.dropAll _

-- ============================================================== operations

/-- A scope is made on a side that its parent allows. -/
theorem create (h : Store.Abreast x y sides s s') {parent : Option ScopeId}
    (hlinked : Cell.Linked x sides side { parent }) :
    Store.Abreast x y (sides ++ [side]) (s.create parent).2 (s'.create parent).2 := by
  have hgrows := Grows.append sides side
  refine ⟨?_, ?_, fun {i other} hother => ?_⟩
  · rw [size_create, h.size, List.length_append]
    rfl
  · rw [size_create, h.size', List.length_append]
    rfl
  · rw [cell?_create, cell?_create, h.size, h.size']
    by_cases hi : i = sides.length
    · rw [if_pos hi, if_pos hi]
      rw [hi, List.getElem?_concat_length] at hother
      cases hother
      have hnew : Cell.Abreast x y sides i side { parent } { parent } :=
        ⟨.nil, rfl, rfl, hlinked⟩
      exact .some (hnew.of_grows hgrows)
    · have hlt : i < sides.length := by
        obtain ⟨hlt, -⟩ := List.getElem?_eq_some_iff.1 hother
        rw [List.length_append, List.length_singleton] at hlt
        exact Nat.lt_of_le_of_ne (Nat.le_of_lt_succ hlt) hi
      rw [List.getElem?_append_left hlt] at hother
      rw [if_neg hi, if_neg hi]
      exact h.cell_of_grows hgrows hother

/-- What names resolve to in two stores: to the same scope, on whose side
they are called alike, or to nothing. -/
inductive Resolved (x y : String) (sides : List Side) (name name' : String) :
    Except ScopeFault ScopeId → Except ScopeFault ScopeId → Prop
  | ok {owner : ScopeId} {side : Side} (hside : sides[owner]? = some side)
      (hname : Called x y side name name') : Resolved x y sides name name' (.ok owner) (.ok owner)
  | error {fault fault' : ScopeFault} :
      Resolved x y sides name name' (.error fault) (.error fault')

/-- Names that are called alike resolve alike. A scope in the making is
only asked for names it has. -/
theorem resolve (h : Store.Abreast x y sides s s') (hside : sides[scope]? = some side)
    (hname : Called x y side name name') (hknows : Knows sides scope name) :
    Resolved x y sides name name' (s.resolve name scope) (s'.resolve name' scope) := by
  fun_induction Store.resolve s name scope generalizing side with
  | case1 scope hgone =>
      rcases h.cases scope with ⟨-, hgone'⟩ | ⟨c, c', side, hc, -⟩
      · rw [resolve_of_none hgone']
        exact .error
      · rw [hgone] at hc
        cases hc
  | case2 scope c hc hhas =>
      obtain ⟨c', hc', hcells⟩ := h.twin hside hc
      rw [resolve_of_has hc' (by rw [hcells.has hname, hhas])]
      exact .ok hside hname
  | case3 scope c hc hhas hparent =>
      obtain ⟨c', hc', hcells⟩ := h.twin hside hc
      rw [resolve_of_parent_none hc' (by rwa [hcells.has hname]) (hcells.parent.trans hparent)]
      exact .error
  | case4 scope c hc hhas parent hparent hlt ih =>
      obtain ⟨c', hc', hcells⟩ := h.twin hside hc
      rw [resolve_of_parent_some hc' (by rwa [hcells.has hname]) (hcells.parent.trans hparent),
        if_pos hlt]
      have hlinked := hcells.linked
      cases side with
      | entering names => exact absurd (hlinked.2 name (hknows names hside)) hhas
      | outside =>
          have houtside := hlinked parent hparent
          exact ih houtside hname (.of_isSettled houtside rfl name)
      | inside =>
          rcases hlinked parent hparent with hinside | ⟨houtside, hx⟩
          · exact ih hinside hname (.of_isSettled hinside rfl name)
          · -- the scope that is left has the parameter, so that is not the name
            have hne : name ≠ x := by
              intro hname
              subst hname
              exact hhas hx
            exact ih houtside (hname.outside_of_ne hne) (.of_isSettled houtside rfl name)
  | case5 scope c hc hhas parent hparent hlt =>
      obtain ⟨c', hc', hcells⟩ := h.twin hside hc
      rw [resolve_of_parent_some hc' (by rwa [hcells.has hname]) (hcells.parent.trans hparent),
        if_neg hlt]
      exact .error

/-- Twins are put into the same scope. -/
theorem store (h : Store.Abreast x y sides s s') (hside : sides[scope]? = some side)
    (hvalue : Value.Twin x y sides value value') {put put' : Slot → Cell}
    (hput : ∀ {slot slot'}, Slot.Twin x y sides scope slot slot' →
      Cell.Abreast x y sides scope side (put slot) (put' slot')) :
    Store.Abreast x y sides (s.store scope value put) (s'.store scope value' put') := by
  have hstores := h.putCell hside (hput (Slot.Twin.ofValue hvalue))
  have hdropped := hstores.dropValue hvalue
  unfold Store.store
  cases hvalue with
  | @plain value hplain => cases value <;> first | exact hstores | cases hplain
  | @function program definition definition' closed side hside hsettled hdefinition =>
      unfold Slot.ofValue at hstores hdropped ⊢
      by_cases hclosed : closed = scope
      · simp only [hclosed, if_true] at hdropped ⊢
        exact hdropped
      · simp only [hclosed, if_false] at hstores ⊢
        exact hstores

/-- More is known of a scope. -/
theorem become (h : Store.Abreast x y sides s s') (hside : sides[scope]? = some side) {side' : Side}
    (hbecomes : side.Becomes side')
    (hlinked : ∀ c, s.cell? scope = some c → c.Linked x sides side → c.Linked x sides side') :
    Store.Abreast x y (sides.set scope side') s s' := by
  have hgrows := Grows.set hside hbecomes
  refine ⟨by rw [List.length_set, h.size], by rw [List.length_set, h.size'],
    fun {i other} hi => ?_⟩
  by_cases hscope : scope = i
  · subst hscope
    rw [List.getElem?_set_self (List.getElem?_eq_some_iff.1 hside).1] at hi
    cases hi
    have hcells := h.cell hside
    generalize hc : s.cell? scope = cell, s'.cell? scope = cell' at hcells
    cases hcells with
    | none => exact .none
    | @some c c' hcells =>
        have hdone : Cell.Abreast x y sides scope side' c c' := by
          refine ⟨?_, hcells.parent, hcells.holders, hlinked c hc hcells.linked⟩
          exact hcells.slots.imp fun _ _ hentry => ⟨hbecomes.called hentry.1, hentry.2⟩
        exact .some (hdone.of_grows hgrows)
  · rw [List.getElem?_set_ne hscope] at hi
    exact h.cell_of_grows hgrows hi

/-- A name is declared in both stores or in neither, and it is known from
then on that the scope has it. -/
theorem declare (h : Store.Abreast x y sides s s') (hside : sides[scope]? = some side)
    (hname : Called x y side name name') (hvalue : Value.Twin x y sides value value') :
    ∃ sides', Grows sides sides' ∧ Knows sides' scope name
      ∧ Answers x y sides' (fun _ _ => True) (s.declare scope name value)
        (s'.declare scope name' value') := by
  have hanswers : Answers x y sides (fun _ _ => True) (s.declare scope name value)
      (s'.declare scope name' value') := by
    unfold Store.declare
    rcases h.cases scope with ⟨hgone, hgone'⟩ | ⟨c, c', side', hc, hc', hside', hcells⟩
    · rw [hgone, hgone']
      exact .error
    · rw [hside] at hside'
      cases hside'
      rw [hc, hc']
      dsimp only
      rw [hcells.has hname]
      by_cases hhas : c.has name = true
      · rw [if_pos hhas, if_pos hhas]
        exact .error
      · rw [if_neg hhas, if_neg hhas]
        exact .ok (h.store hside hvalue fun hslot => hcells.add hname hslot) trivial
  cases side with
  | outside | inside => exact ⟨sides, .refl sides, .of_isSettled hside rfl name, hanswers⟩
  | entering names =>
      have hbecomes : Side.Becomes (.entering names) (.entering (name :: names)) :=
        .named (List.subset_cons_self ..)
      refine ⟨_, .set hside hbecomes, fun more hmore => ?_, ?_⟩
      · rw [List.getElem?_set_self (List.getElem?_eq_some_iff.1 hside).1] at hmore
        cases hmore
        exact List.mem_cons_self
      · have hhas := s.has_of_declare scope name value
        generalize s.declare scope name value = r, s'.declare scope name' value' = r' at *
        cases hanswers with
        | error => exact .error
        | ok hstores =>
            refine .ok (hstores.become hside hbecomes fun c hc hlinked => ?_) trivial
            exact ⟨hlinked.1, List.forall_mem_cons.2 ⟨hhas rfl c hc, hlinked.2⟩⟩

theorem assign (h : Store.Abreast x y sides s s') (hside : sides[scope]? = some side)
    (hname : Called x y side name name') (hknows : Knows sides scope name)
    (hvalue : Value.Twin x y sides value value') :
    Answers x y sides (fun _ _ => True) (s.assign scope name value)
      (s'.assign scope name' value') := by
  have hresolved := h.resolve hside hname hknows
  unfold Store.assign
  generalize s.resolve name scope = r, s'.resolve name' scope = r' at hresolved
  cases hresolved with
  | error => exact .error
  | @ok owner side hside hname =>
      rcases h.cases owner with ⟨hgone, hgone'⟩ | ⟨c, c', side', hc, hc', hside', hcells⟩
      · dsimp only
        rw [hgone, hgone']
        exact .error
      · rw [hside] at hside'
        cases hside'
        have hheld : (c'.get? name').bind Slot.held? = (c.get? name).bind Slot.held? := by
          have hslot := hcells.get? hname
          generalize c.get? name = slot, c'.get? name' = slot' at hslot
          cases hslot with
          | none => rfl
          | some hslot => exact hslot.held
        dsimp only
        rw [hc, hc']
        dsimp only
        rw [hheld]
        have hstored := h.store hside hvalue fun hslot => hcells.replace hname hslot
        exact .ok (hstored.dropAll _) trivial

theorem lookup (h : Store.Abreast x y sides s s') (hside : sides[scope]? = some side)
    (hname : Called x y side name name') (hknows : Knows sides scope name) :
    Answers x y sides (Value.Twin x y sides) (s.lookup scope name) (s'.lookup scope name') := by
  have hresolved := h.resolve hside hname hknows
  unfold Store.lookup
  generalize s.resolve name scope = r, s'.resolve name' scope = r' at hresolved
  cases hresolved with
  | error => exact .error
  | @ok owner side hside hname =>
      dsimp only
      rcases h.cases owner with ⟨hgone, hgone'⟩ | ⟨c, c', side', hc, hc', hside', hcells⟩
      · rw [hgone, hgone']
        exact .error
      · rw [hside] at hside'
        cases hside'
        rw [hc, hc', Option.bind_some, Option.bind_some]
        have hslot := hcells.get? hname
        generalize c.get? name = slot, c'.get? name' = slot' at hslot
        cases hslot with
        | none => exact .error
        | @some slot slot' hslot =>
            dsimp only
            rw [hslot.value.scope?_eq]
            cases (slot.toValue owner).scope? with
            | none => exact .ok h hslot.value
            | some closed => exact .ok (h.hold closed) hslot.value

/-- A scope in the making is done when it has the parameter. -/
theorem settle (h : Store.Abreast x y sides s s') {names : List String}
    (hside : sides[scope]? = some (.entering names)) (hx : x ∈ names) :
    Store.Abreast x y (sides.set scope .inside) s s' := by
  refine h.become hside .settled fun c _ hlinked parent hparent => ?_
  exact .inr ⟨hlinked.1 parent hparent, hlinked.2 x hx⟩

end Store.Abreast

end ScopedScript
