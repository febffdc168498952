/-
Trees that differ in the name of a parameter.

A parameter of a function can be given another name, in the list of the
parameters and everywhere in the body. This file says what that does to a
tree, as a function (`Node.rename`, applied at a place by `modifyAt`) and
as a relation between two trees that can be taken apart node by node
(`Twin`), and that the function gives related trees.

# Sides

A tree with a renamed parameter has two sides. Outside of the function
nothing changes. Inside of it every name is called by what it becomes:
`x` by `y`, every other name by itself. The new name must not have been in
use inside, and functions keep their names, so that no function inside may
be called like the parameter.
-/
import Mathlib.Data.List.Forall2
import ScopedScript.Proofs.Lexical

namespace ScopedScript

-- ============================================================== renaming

/-- What a name becomes when `x` is renamed to `y`. -/
def renamed (x y name : String) : String := if name = x then y else name

/-- The parameter after `x` has been renamed to `y`. -/
def Parameter.rename (x y : String) (p : Parameter) : Parameter :=
  { p with name := renamed x y p.name }

namespace Node

mutual

/-- The tree after the variable `x` has been renamed to `y` wherever it is
referred to, declared, or a parameter. Functions keep their names. -/
def rename (x y : String) : Node → Node
  | .root span body => .root span (renameAll x y body)
  | .block span body => .block span (renameAll x y body)
  | .declaration span name => .declaration span (renamed x y name)
  | .assignment span target value => .assignment span (target.rename x y) (value.rename x y)
  | .reference span name => .reference span (renamed x y name)
  | .number span value => .number span value
  | .string span value => .string span value
  | .boolean span value => .boolean span value
  | .binary span operator left right =>
      .binary span operator (left.rename x y) (right.rename x y)
  | .parenthesized span inner => .parenthesized span (inner.rename x y)
  | .readProperty span object property => .readProperty span (object.rename x y) property
  | .call span callee arguments => .call span (callee.rename x y) (renameAll x y arguments)
  | .function span name parameters body =>
      .function span name (parameters.map (·.rename x y)) (body.rename x y)
  | .ret span none => .ret span none
  | .ret span (some value) => .ret span (some (value.rename x y))

/-- The trees after the variable `x` has been renamed to `y`. -/
def renameAll (x y : String) : List Node → List Node
  | [] => []
  | node :: rest => node.rename x y :: renameAll x y rest

end

/-- The node with its children changed; the change knows their numbers. -/
def mapChildren (f : Nat → Node → Node) : Node → Node
  | .root span body => .root span (body.mapIdx f)
  | .block span body => .block span (body.mapIdx f)
  | .assignment span target value => .assignment span (f 0 target) (f 1 value)
  | .binary span operator left right => .binary span operator (f 0 left) (f 1 right)
  | .parenthesized span inner => .parenthesized span (f 0 inner)
  | .readProperty span object property => .readProperty span (f 0 object) property
  | .call span callee arguments =>
      .call span (f 0 callee) (arguments.mapIdx fun i => f (i + 1))
  | .function span name parameters body => .function span name parameters (f 0 body)
  | .ret span value => .ret span (value.map (f 0))
  | node => node

/-- The tree with the node that a path leads to changed. -/
def modifyAt (f : Node → Node) : Path → Node → Node
  | [], node => f node
  | i :: rest, node =>
      node.mapChildren fun j child => if j = i then child.modifyAt f rest else child

-- ================================================================== names

variable {α : Type}

mutual

/-- What there is in the nodes of a tree, given what there is in each of
them. -/
def collect (f : Node → List α) : Node → List α
  | .root span body => f (.root span body) ++ collectAll f body
  | .block span body => f (.block span body) ++ collectAll f body
  | .declaration span name => f (.declaration span name)
  | .assignment span target value =>
      f (.assignment span target value) ++ (target.collect f ++ value.collect f)
  | .reference span name => f (.reference span name)
  | .number span value => f (.number span value)
  | .string span value => f (.string span value)
  | .boolean span value => f (.boolean span value)
  | .binary span operator left right =>
      f (.binary span operator left right) ++ (left.collect f ++ right.collect f)
  | .parenthesized span inner => f (.parenthesized span inner) ++ inner.collect f
  | .readProperty span object property =>
      f (.readProperty span object property) ++ object.collect f
  | .call span callee arguments =>
      f (.call span callee arguments) ++ (callee.collect f ++ collectAll f arguments)
  | .function span name parameters body =>
      f (.function span name parameters body) ++ body.collect f
  | .ret span none => f (.ret span none)
  | .ret span (some value) => f (.ret span (some value)) ++ value.collect f

/-- What there is in the nodes of several trees. -/
def collectAll (f : Node → List α) : List Node → List α
  | [] => []
  | node :: rest => node.collect f ++ collectAll f rest

end

theorem collectAll_eq_flatMap (f : Node → List α) (nodes : List Node) :
    collectAll f nodes = nodes.flatMap (collect f) := by
  induction nodes with
  | nil => rfl
  | cons node rest ih => rw [collectAll, ih, List.flatMap_cons]

/-- A tree has what its topmost node has and what its children have. -/
theorem collect_eq (f : Node → List α) (node : Node) :
    node.collect f = f node ++ node.children.flatMap (collect f) := by
  cases node with
  | ret span value => cases value <;> simp [collect, children]
  | _ => simp [collect, children, collectAll_eq_flatMap]

theorem mem_collect_self {f : Node → List α} {node : Node} {a : α} (h : a ∈ f node) :
    a ∈ node.collect f := by
  rw [collect_eq]
  exact List.mem_append_left _ h

theorem mem_collect_of_child {f : Node → List α} {node child : Node} {a : α}
    (hchild : child ∈ node.children) (h : a ∈ child.collect f) : a ∈ node.collect f := by
  rw [collect_eq]
  exact List.mem_append_right _ (List.mem_flatMap.2 ⟨child, hchild, h⟩)

/-- The names that stand in the node itself. -/
def ownNames : Node → List String
  | .reference _ name => [name]
  | .declaration _ name => [name]
  | .function _ name parameters _ => name :: parameters.map (·.name)
  | _ => []

/-- The names that stand anywhere in a tree. -/
def names (node : Node) : List String := node.collect ownNames

/-- The names of the functions in a tree. -/
def functionNames (node : Node) : List String :=
  node.collect fun
    | .function _ name _ _ => [name]
    | _ => []

end Node

-- ================================================================== sides

/-- Where something stands in relation to the function with the renamed
parameter. A scope that was made for a call of that function is `entering`
while its parameters are declared; the names it has got so far are
listed. -/
inductive Side where
  | outside
  | entering (names : List String)
  | inside

/-- Whether no more is to come. -/
def Side.isSettled : Side → Bool
  | .entering _ => false
  | _ => true

section Twins

variable (x y : String)

/-- What a name is called on a side. Inside, the new name is not to be in
use. -/
def Called : Side → String → String → Prop
  | .outside, name, name' => name' = name
  | .entering _, name, name' => name ≠ y ∧ name' = renamed x y name
  | .inside, name, name' => name ≠ y ∧ name' = renamed x y name

/-- What a parameter is on a side. -/
def Parameter.Twin (side : Side) (p p' : Parameter) : Prop :=
  p'.span = p.span ∧ Called x y side p.name p'.name

mutual

/-- Trees on a side of which the second is the first after the renaming. -/
inductive Twin : Side → Node → Node → Prop
  | root {side span body body'} (hbody : Twins side body body') :
      Twin side (.root span body) (.root span body')
  | block {side span body body'} (hbody : Twins side body body') :
      Twin side (.block span body) (.block span body')
  | declaration {side span name name'} (hname : Called x y side name name') :
      Twin side (.declaration span name) (.declaration span name')
  | assignment {side span target target' value value'} (htarget : Twin side target target')
      (hvalue : Twin side value value') :
      Twin side (.assignment span target value) (.assignment span target' value')
  | reference {side span name name'} (hname : Called x y side name name') :
      Twin side (.reference span name) (.reference span name')
  | number {side span value} : Twin side (.number span value) (.number span value)
  | string {side span value} : Twin side (.string span value) (.string span value)
  | boolean {side span value} : Twin side (.boolean span value) (.boolean span value)
  | binary {side span operator left left' right right'} (hleft : Twin side left left')
      (hright : Twin side right right') :
      Twin side (.binary span operator left right) (.binary span operator left' right')
  | parenthesized {side span inner inner'} (hinner : Twin side inner inner') :
      Twin side (.parenthesized span inner) (.parenthesized span inner')
  | readProperty {side span object object' property} (hobject : Twin side object object') :
      Twin side (.readProperty span object property) (.readProperty span object' property)
  | call {side span callee callee' arguments arguments'} (hcallee : Twin side callee callee')
      (harguments : Twins side arguments arguments') :
      Twin side (.call span callee arguments) (.call span callee' arguments')
  | function {side span name parameters parameters' body body'}
      (hname : Called x y side name name)
      (hparameters : List.Forall₂ (Parameter.Twin x y side) parameters parameters')
      (hbody : Twin side body body') :
      Twin side (.function span name parameters body) (.function span name parameters' body')
  /-- The function with the renamed parameter: the way inside. -/
  | renamed {span name parameters parameters' body body'} (hx : x ∈ parameters.map (·.name))
      (hparameters : List.Forall₂ (Parameter.Twin x y .inside) parameters parameters')
      (hbody : Twin .inside body body') :
      Twin .outside (.function span name parameters body)
        (.function span name parameters' body')
  | bareReturn {side span} : Twin side (.ret span none) (.ret span none)
  | returnValue {side span value value'} (hvalue : Twin side value value') :
      Twin side (.ret span (some value)) (.ret span (some value'))

/-- Trees that are twins one by one. -/
inductive Twins : Side → List Node → List Node → Prop
  | nil {side} : Twins side [] []
  | cons {side node node' rest rest'} (hnode : Twin side node node')
      (hrest : Twins side rest rest') : Twins side (node :: rest) (node' :: rest')

end

end Twins

variable {x y : String} {side : Side}

-- ============================================================ names as twins

/-- Names are told apart by what they are called. -/
theorem Called.eq_iff {a a' b b' : String} (ha : Called x y side a a') (hb : Called x y side b b') :
    a' = b' ↔ a = b := by
  cases side with
  | outside =>
      cases ha
      cases hb
      rfl
  | entering | inside =>
      obtain ⟨hay, rfl⟩ := ha
      obtain ⟨hby, rfl⟩ := hb
      unfold renamed
      grind

theorem called_renamed {name : String} (h : name ≠ y) :
    Called x y .inside name (renamed x y name) := ⟨h, rfl⟩

/-- Inside, only the parameter is called by another name. -/
theorem Called.outside_of_ne {name name' : String} (h : Called x y .inside name name')
    (hx : name ≠ x) : Called x y .outside name name' := by
  obtain ⟨-, rfl⟩ := h
  exact if_neg hx

-- ============================================================ trees as twins

theorem Twin.span {node node' : Node} (h : Twin x y side node node') : node'.span = node.span := by
  cases h <;> rfl

theorem Twins.renameAll {nodes : List Node}
    (h : ∀ node ∈ nodes, Twin x y side node (node.rename x y)) :
    Twins x y side nodes (Node.renameAll x y nodes) := by
  induction nodes with
  | nil => exact .nil
  | cons node rest ih =>
      obtain ⟨hnode, hrest⟩ := List.forall_mem_cons.1 h
      exact .cons hnode (ih hrest)

theorem Twins.mapIdx {nodes : List Node} {f : Nat → Node → Node}
    (h : ∀ i child, nodes[i]? = some child → Twin x y side child (f i child)) :
    Twins x y side nodes (nodes.mapIdx f) := by
  induction nodes generalizing f with
  | nil => exact .nil
  | cons node rest ih =>
      rw [List.mapIdx_cons]
      refine .cons (h 0 node rfl) (ih fun i child hchild => ?_)
      exact h (i + 1) child hchild

/-- Parameters that do not use the new name may be renamed. -/
theorem forall₂_rename {parameters : List Parameter} (h : ∀ p ∈ parameters, p.name ≠ y) :
    List.Forall₂ (Parameter.Twin x y .inside) parameters (parameters.map (·.rename x y)) := by
  rw [List.forall₂_map_right_iff, List.forall₂_same]
  intro p hp
  exact ⟨rfl, called_renamed (h p hp)⟩

/-- Renaming gives a twin inside if the new name is not in use and no
function has the old one. -/
theorem Twin.rename (node : Node) (hy : y ∉ node.names) (hx : x ∉ node.functionNames) :
    Twin x y .inside node (node.rename x y) := by
  have hchild (child : Node) (h : child ∈ node.children) :
      Twin x y .inside child (child.rename x y) :=
    Twin.rename child (fun hname => hy (Node.mem_collect_of_child h hname))
      fun hname => hx (Node.mem_collect_of_child h hname)
  have hown (name : String) (h : name ∈ node.ownNames) : name ≠ y := by
    intro hname
    subst hname
    exact hy (Node.mem_collect_self h)
  cases node with
  | root span body => exact .root (.renameAll hchild)
  | block span body => exact .block (.renameAll hchild)
  | declaration span name =>
      exact .declaration (called_renamed (hown name (by simp [Node.ownNames])))
  | assignment span target value =>
      exact .assignment (hchild target (by simp [Node.children]))
        (hchild value (by simp [Node.children]))
  | reference span name => exact .reference (called_renamed (hown name (by simp [Node.ownNames])))
  | number span value => exact .number
  | string span value => exact .string
  | boolean span value => exact .boolean
  | binary span operator left right =>
      exact .binary (hchild left (by simp [Node.children])) (hchild right (by simp [Node.children]))
  | parenthesized span inner => exact .parenthesized (hchild inner (by simp [Node.children]))
  | readProperty span object property =>
      exact .readProperty (hchild object (by simp [Node.children]))
  | call span callee arguments =>
      refine .call (hchild callee (by simp [Node.children])) (.renameAll fun argument h => ?_)
      exact hchild argument (List.mem_cons_of_mem _ h)
  | function span name parameters body =>
      have hname : name ≠ x := by
        intro hname
        subst hname
        exact hx (Node.mem_collect_self (List.mem_singleton_self _))
      refine .function ⟨hown name (by simp [Node.ownNames]), (if_neg hname).symm⟩
        (forall₂_rename fun p hp => hown p.name ?_) (hchild body (by simp [Node.children]))
      exact List.mem_cons_of_mem _ (List.mem_map_of_mem hp)
  | ret span value =>
      cases value with
      | none => exact .bareReturn
      | some value => exact .returnValue (hchild value (by simp [Node.children]))
termination_by sizeOf node
decreasing_by exact Node.sizeOf_lt_of_mem_children h

/-- Outside, a node may have twins for its children. -/
theorem Twin.mapChildren {node : Node} {f : Nat → Node → Node}
    (h : ∀ i child, node.children[i]? = some child → Twin x y .outside child (f i child)) :
    Twin x y .outside node (node.mapChildren f) := by
  cases node with
  | root span body => exact .root (.mapIdx h)
  | block span body => exact .block (.mapIdx h)
  | declaration span name => exact .declaration rfl
  | assignment span target value => exact .assignment (h 0 target rfl) (h 1 value rfl)
  | reference span name => exact .reference rfl
  | number span value => exact .number
  | string span value => exact .string
  | boolean span value => exact .boolean
  | binary span operator left right => exact .binary (h 0 left rfl) (h 1 right rfl)
  | parenthesized span inner => exact .parenthesized (h 0 inner rfl)
  | readProperty span object property => exact .readProperty (h 0 object rfl)
  | call span callee arguments =>
      refine .call (h 0 callee rfl) (.mapIdx fun i argument hargument => ?_)
      exact h (i + 1) argument hargument
  | function span name parameters body =>
      refine .function rfl ?_ (h 0 body rfl)
      exact List.forall₂_same.2 fun p _ => ⟨rfl, rfl⟩
  | ret span value =>
      cases value with
      | none => exact .bareReturn
      | some value => exact .returnValue (h 0 value rfl)

theorem Node.mapChildren_self (node : Node) : node.mapChildren (fun _ child => child) = node := by
  have hsame (nodes : List Node) : nodes.mapIdx (fun _ child => child) = nodes := by
    refine List.ext_getElem? fun i => ?_
    simp
  cases node <;> simp [Node.mapChildren, hsame]

namespace Node

variable (node : Node) (g : Nat → Node → Node)

theorem kind_mapChildren : (node.mapChildren g).kind = node.kind := by cases node <;> rfl

theorem span_mapChildren : (node.mapChildren g).span = node.span := by cases node <;> rfl

theorem children_mapChildren : (node.mapChildren g).children = node.children.mapIdx g := by
  cases node with
  | call span callee arguments => exact List.mapIdx_cons.symm
  | ret span value => cases value <;> rfl
  | _ => rfl

theorem mapChildren_mapChildren (g' : Nat → Node → Node) :
    (node.mapChildren g).mapChildren g' = node.mapChildren fun i child => g' i (g i child) := by
  cases node <;> simp [mapChildren, Function.comp_def]

variable {node g}

/-- A change matters only where there is a child. -/
theorem mapChildren_congr {g' : Nat → Node → Node}
    (h : ∀ i child, node.children[i]? = some child → g i child = g' i child) :
    node.mapChildren g = node.mapChildren g' := by
  have hlist {nodes : List Node} {g g' : Nat → Node → Node}
      (h : ∀ i child, nodes[i]? = some child → g i child = g' i child) :
      nodes.mapIdx g = nodes.mapIdx g' := by
    refine List.ext_getElem? fun i => ?_
    rw [List.getElem?_mapIdx, List.getElem?_mapIdx]
    cases hi : nodes[i]? with
    | none => rfl
    | some child => exact congrArg some (h i child hi)
  cases node with
  | root span body => exact congrArg (root span) (hlist h)
  | block span body => exact congrArg (block span) (hlist h)
  | assignment span target value => rw [mapChildren, h 0 target rfl, h 1 value rfl, mapChildren]
  | binary span operator left right => rw [mapChildren, h 0 left rfl, h 1 right rfl, mapChildren]
  | parenthesized span inner => rw [mapChildren, h 0 inner rfl, mapChildren]
  | readProperty span object property => rw [mapChildren, h 0 object rfl, mapChildren]
  | call span callee arguments =>
      have harguments : (arguments.mapIdx fun i => g (i + 1))
          = arguments.mapIdx fun i => g' (i + 1) :=
        hlist fun i argument hi => h (i + 1) argument hi
      rw [mapChildren, h 0 callee rfl, harguments, mapChildren]
  | function span name parameters body => rw [mapChildren, h 0 body rfl, mapChildren]
  | ret span value =>
      cases value with
      | none => rfl
      | some value => exact congrArg (fun value => ret span (some value)) (h 0 value rfl)
  | _ => rfl

end Node

/-- Outside, every tree is its own twin. -/
theorem Twin.refl (node : Node) : Twin x y .outside node node := by
  have hchildren (i : Nat) (child : Node) (h : node.children[i]? = some child) :
      Twin x y .outside child child := Twin.refl child
  have htwin := Twin.mapChildren hchildren
  rwa [Node.mapChildren_self] at htwin
termination_by sizeOf node
decreasing_by exact Node.sizeOf_lt_of_mem_children (List.mem_of_getElem? h)

/-- A tree in which a function has been given a twin is a twin. -/
theorem Twin.modifyAt {root f : Node} {p : Path} (hf : root.at? p = some f) {g : Node → Node}
    (htwin : Twin x y .outside f (g f)) : Twin x y .outside root (root.modifyAt g p) := by
  induction p generalizing root with
  | nil =>
      cases hf
      exact htwin
  | cons i rest ih =>
      obtain ⟨child, hchild, hrest⟩ := Option.bind_eq_some_iff.1 hf
      refine Twin.mapChildren fun j other hother => ?_
      by_cases hj : j = i
      · subst hj
        rw [hchild] at hother
        cases hother
        rw [if_pos rfl]
        exact ih hrest
      · rw [if_neg hj]
        exact Twin.refl other

end ScopedScript
