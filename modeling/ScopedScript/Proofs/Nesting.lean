/-
How deep scopes lie.

The chain of parents of a scope is as long as functions are nested where
its code stands: the scope of a call lies one deeper than the scope that
the callee closes over, and that is the scope in which the definition of
the callee was evaluated. What is written in a definition is nested in it,
so the deeper a scope lies, the less there is still nested in the code
that is evaluated there.

`leveled` says this as a discipline. The levels of the scopes are what is
known; a node that may be evaluated in a scope and the level of that scope
together stay below a limit, which for a program is the nesting of its
tree.
-/
import ScopedScript.Proofs.Watching

namespace ScopedScript

-- ================================================================= nesting

mutual

/-- How deep functions are nested in a node. Without a function it is zero;
functions that are nested in no other make it one. -/
def Node.nesting : Node → Nat
  | .root _ body => Node.nestingAll body
  | .block _ body => Node.nestingAll body
  | .declaration .. => 0
  | .assignment _ target value => max target.nesting value.nesting
  | .reference .. => 0
  | .number .. => 0
  | .string .. => 0
  | .boolean .. => 0
  | .binary _ _ left right => max left.nesting right.nesting
  | .parenthesized _ inner => inner.nesting
  | .readProperty _ object _ => object.nesting
  | .call _ callee arguments => max callee.nesting (Node.nestingAll arguments)
  | .function _ _ _ body => body.nesting + 1
  | .ret _ none => 0
  | .ret _ (some value) => value.nesting

/-- How deep functions are nested in any of the nodes. -/
def Node.nestingAll : List Node → Nat
  | [] => 0
  | node :: rest => max node.nesting (Node.nestingAll rest)

end

namespace Node

/-- Nodes are nested as deep as the deepest of them. -/
theorem nesting_le_nestingAll {node : Node} {nodes : List Node} (h : node ∈ nodes) :
    node.nesting ≤ nestingAll nodes := by
  induction nodes with
  | nil => cases h
  | cons first rest ih =>
      rw [nestingAll]
      rcases List.mem_cons.1 h with rfl | h
      · exact Nat.le_max_left ..
      · exact Nat.le_trans (ih h) (Nat.le_max_right ..)

/-- Children are nested no deeper than their node. -/
theorem nesting_child {node child : Node} (h : child ∈ node.children) :
    child.nesting ≤ node.nesting := by
  cases node with
  | root _ body => exact nesting_le_nestingAll h
  | block _ body => exact nesting_le_nestingAll h
  | assignment _ target value =>
      simp only [children, List.mem_cons, List.not_mem_nil, or_false] at h
      rw [nesting]
      rcases h with rfl | rfl <;> omega
  | binary _ operator left right =>
      simp only [children, List.mem_cons, List.not_mem_nil, or_false] at h
      rw [nesting]
      rcases h with rfl | rfl <;> omega
  | call _ callee arguments =>
      rw [nesting]
      rcases List.mem_cons.1 h with rfl | h
      · exact Nat.le_max_left ..
      · exact Nat.le_trans (nesting_le_nestingAll h) (Nat.le_max_right ..)
  | ret _ value =>
      cases value with
      | none => cases h
      | some value => simp_all [children, nesting]
  | _ => simp_all [children, nesting]

end Node

-- ================================================================== levels

section Levels

variable (limit : Nat) (levels : List Nat)

/-- The node may be evaluated in the scope: what is nested in it goes no
deeper than the limit. -/
def Shallow (scope : ScopeId) (node : Node) : Prop :=
  ∃ level, levels[scope]? = some level ∧ level + node.nesting ≤ limit

/-- A scope lies one deeper than its parent, and not below the limit. -/
def Below (scope : ScopeId) : Option ScopeId → Prop
  | none => levels[scope]? = some 0
  | some outer => ∃ level, levels[outer]? = some level ∧ levels[scope]? = some (level + 1)
      ∧ level + 1 ≤ limit

/-- A function may be called: its definition may be evaluated in the scope
that it closes over. -/
def Callable (value : Value) : Prop :=
  ∀ closure, value = .function closure → Shallow limit levels closure.scope closure.definition

/-- The scopes of a store lie as deep as is known, only the first one at the
top. -/
structure Leveled (s : Store) : Prop where
  size : s.cells.size = levels.length
  global : ∀ scope, levels[scope]? = some 0 ↔ scope = 0
  contains : s.Contains (Below limit levels) (fun _ _ => True) (Callable limit levels)

variable {limit levels} {levels' : List Nat}

/-- The level of a scope is settled when it is made. -/
theorem level_of_grows (h : levels <+: levels') {scope : ScopeId} {level : Nat}
    (hlevel : levels[scope]? = some level) : levels'[scope]? = some level := by
  obtain ⟨more, rfl⟩ := h
  have hlt : scope < levels.length := (List.getElem?_eq_some_iff.1 hlevel).1
  rw [List.getElem?_append_left hlt]
  exact hlevel

theorem Shallow.of_grows (h : levels <+: levels') {scope : ScopeId} {node : Node}
    (hshallow : Shallow limit levels scope node) : Shallow limit levels' scope node := by
  obtain ⟨level, hlevel, hle⟩ := hshallow
  exact ⟨level, level_of_grows h hlevel, hle⟩

theorem Below.of_grows (h : levels <+: levels') {scope : ScopeId} {parent : Option ScopeId}
    (hbelow : Below limit levels scope parent) : Below limit levels' scope parent := by
  cases parent with
  | none => exact level_of_grows h hbelow
  | some outer =>
      obtain ⟨level, houter, hscope, hle⟩ := hbelow
      exact ⟨level, level_of_grows h houter, level_of_grows h hscope, hle⟩

theorem Callable.of_grows (h : levels <+: levels') {value : Value}
    (hcallable : Callable limit levels value) : Callable limit levels' value :=
  fun closure hclosure => (hcallable closure hclosure).of_grows h

end Levels

/-- The levels of scopes, as a discipline. -/
def leveled (limit : Nat) : Discipline Store (List Nat) where
  Grows levels levels' := levels <+: levels'
  Holds := Leveled limit
  Fits := Callable limit
  Placed levels t := Shallow limit levels t.scope t.node
  Allows _ _ _ := True
  Framed levels closure frame := Shallow (limit + 1) levels frame closure.definition
  refl _ := List.prefix_rfl
  trans h h' := h.trans h'
  fits_grows h hcallable := hcallable.of_grows h
  placed_grows h hshallow := hshallow.of_grows h
  allows_grows _ _ := trivial
  framed_grows h hshallow := hshallow.of_grows h
  hold scope h :=
    ⟨(Store.size_hold ..).trans h.size, h.global, h.contains.leftOf (Store.hold_leftOf ..)⟩
  drop scope h :=
    ⟨(Store.size_drop ..).trans h.size, h.global, h.contains.leftOf (Store.drop_leftOf ..)⟩
  declare h _ hfits :=
    ⟨(Store.size_declare ..).trans h.size, h.global, h.contains.declare trivial hfits⟩
  assign scope name h hfits :=
    ⟨(Store.size_assign ..).trans h.size, h.global, h.contains.assign scope name hfits⟩
  lookup scope name h :=
    ⟨⟨(Store.size_lookup ..).trans h.size, h.global, (h.contains.lookup scope name).1⟩,
      (h.contains.lookup scope name).2⟩
  fits_plain hplain _ := by
    intro closure hclosure
    rw [hclosure] at hplain
    cases hplain
  child h _ hnode := by
    obtain ⟨level, hlevel, hle⟩ := h
    have hchild := Node.nesting_child (List.mem_of_getElem? hnode)
    exact ⟨level, hlevel, Nat.le_trans (Nat.add_le_add_left hchild level) hle⟩
  declaration _ _ := trivial
  function h _ := by
    refine ⟨trivial, fun closure hclosure => ?_⟩
    cases hclosure
    exact h
  body _ h hdefinition := by
    obtain ⟨level, hlevel, hle⟩ := h
    rw [hdefinition, Node.nesting] at hle
    exact ⟨level, hlevel, Nat.le_of_succ_le_succ hle⟩
  parameter _ _ _ := trivial

/-- A call goes one deeper, and its body is nested once less. -/
theorem leveled_creates (limit : Nat) : (leveled limit).Creates := by
  intro levels s closure hholds hkind hfits
  have hleveled : Leveled limit levels s := hholds
  obtain ⟨level, houter, hle⟩ := hfits closure rfl
  have hpos : 0 < closure.definition.nesting := by
    cases hdefinition : closure.definition with
    | function span name parameters body =>
        rw [Node.nesting]
        exact Nat.succ_pos _
    | _ =>
        rw [hdefinition] at hkind
        cases hkind
  have hgrows : levels <+: levels ++ [level + 1] := List.prefix_append ..
  have hframe : (levels ++ [level + 1])[s.cells.size]? = some (level + 1) := by
    rw [hleveled.size, List.getElem?_concat_length]
  refine ⟨levels ++ [level + 1], hgrows, ⟨?_, fun scope => ?_, ?_⟩, level + 1, hframe, by omega⟩
  · show (s.create (some closure.scope)).2.cells.size = (levels ++ [level + 1]).length
    rw [Store.size_create, hleveled.size, List.length_append, List.length_singleton]
  · rw [← hleveled.global scope, List.getElem?_append]
    by_cases hlt : scope < levels.length
    · rw [if_pos hlt]
    · rw [if_neg hlt, List.getElem?_eq_none (Nat.le_of_not_lt hlt)]
      cases scope - levels.length <;> simp
  · refine Store.Contains.create ?_ ⟨level, level_of_grows hgrows houter, hframe, by omega⟩
    exact hleveled.contains.weaken (.of_grows hgrows) id (.of_grows hgrows)

/-- The global scope lies at the top. -/
theorem leveled_createGlobal (limit : Nat) :
    Leveled limit [0] (Scopes.createGlobal ({} : Store)).2 := by
  have hempty : Store.Contains (Below limit [0]) (fun _ _ => True) (Callable limit [0]) {} := by
    refine ⟨fun hc => ?_, fun hc => ?_⟩
    · cases hc
    · cases hc
  have hmade : Leveled limit [0] (Store.create none {}).2 := by
    refine ⟨rfl, fun scope => ?_, hempty.create rfl⟩
    cases scope with
    | zero => simp
    | succ scope => simp
  exact (leveled limit).declare hmade trivial nofun

end ScopedScript
