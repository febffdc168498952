/-
Blocks in normal form.

A block makes no scope, and a `return` ends the block it stands in and
nothing else. So what stands behind the first `return` of a block can be
deleted, and a block without one, if it is a statement, can be replaced by
its own statements. This file shows that rewriting a tree in these two ways
comes to an end, always to the same, and that no program notices it.

# The normal form

`normalForm` does all of it at once, from the leaves up. It is a faithful
function on trees, since a list of statements is evaluated as with its
blocks spliced and what follows a `return` left out. So a program and its
normal form do the same, though the functions they define are different
values.

# The order of rewrites

One rewrite does not change the normal form of a tree, and a tree that
allows no rewrite is its own normal form. Every rewrite leaves fewer nodes.
Therefore whatever is rewritten, the normal form can still be reached, and
nothing else can be reached that allows no rewrite.
-/
import Mathlib.Logic.Relation
import ScopedScript.Proofs.Concatenation
import ScopedScript.Proofs.Recasting

namespace ScopedScript

open Eval

-- ================================================================= rewrites

/-- One rewrite somewhere in a tree. -/
inductive Rewrites : Node → Node → Prop
  /-- What stands behind the first `return` of a block is deleted. -/
  | delete {span : Span} {before after : List Node} {last : Node}
      (hbefore : before.any isReturn = false) (hlast : isReturn last = true) (hafter : after ≠ []) :
      Rewrites (.block span (before ++ last :: after)) (.block span (before ++ [last]))
  /-- A block without a `return` among the statements of a program. -/
  | spliceRoot {span place : Span} {before body after : List Node}
      (hbody : body.any isReturn = false) :
      Rewrites (.root span (before ++ .block place body :: after))
        (.root span (before ++ (body ++ after)))
  /-- A block without a `return` among the statements of a block. -/
  | spliceBlock {span place : Span} {before body after : List Node}
      (hbody : body.any isReturn = false) :
      Rewrites (.block span (before ++ .block place body :: after))
        (.block span (before ++ (body ++ after)))
  /-- A rewrite in a child. -/
  | child {node child child' : Node} {i : Nat} (hchild : node.children[i]? = some child)
      (hrewrites : Rewrites child child') :
      Rewrites node (node.mapChildren fun j other => if j = i then child' else other)

namespace Node

/-- What a statement is replaced by in a list of statements. -/
def spliced : Node → List Node
  | .block span body => if body.any isReturn then [.block span body] else body
  | node => [node]

/-- The statements up to the first `return`. -/
def untilReturn : List Node → List Node
  | [] => []
  | node :: rest => if isReturn node then [node] else node :: untilReturn rest

mutual

/-- The tree after all rewrites. -/
def normalForm : Node → Node
  | .root span body => .root span ((normalForms body).flatMap spliced)
  | .block span body => .block span (untilReturn ((normalForms body).flatMap spliced))
  | .declaration span name => .declaration span name
  | .assignment span target value => .assignment span target.normalForm value.normalForm
  | .reference span name => .reference span name
  | .number span value => .number span value
  | .string span value => .string span value
  | .boolean span value => .boolean span value
  | .binary span operator left right => .binary span operator left.normalForm right.normalForm
  | .parenthesized span inner => .parenthesized span inner.normalForm
  | .readProperty span object property => .readProperty span object.normalForm property
  | .call span callee arguments => .call span callee.normalForm (normalForms arguments)
  | .function span name parameters body => .function span name parameters body.normalForm
  | .ret span none => .ret span none
  | .ret span (some value) => .ret span (some value.normalForm)

/-- The trees after all rewrites. -/
def normalForms : List Node → List Node
  | [] => []
  | node :: rest => node.normalForm :: normalForms rest

end

/-- The node with its own list of statements, if it has one, rewritten. -/
def tidy : Node → Node
  | .root span body => .root span (body.flatMap spliced)
  | .block span body => .block span (untilReturn (body.flatMap spliced))
  | node => node

theorem normalForms_eq_map (nodes : List Node) : normalForms nodes = nodes.map normalForm := by
  induction nodes with
  | nil => rfl
  | cons node rest ih => rw [normalForms, ih, List.map_cons]

/-- In a normal form the children are in normal form, and their list. -/
theorem normalForm_eq (node : Node) :
    node.normalForm = (node.mapChildren fun _ => normalForm).tidy := by
  cases node with
  | root | block | call =>
      simp only [normalForm, normalForms_eq_map, mapChildren, mapIdx_eq_map, tidy]
  | ret span value => cases value <;> rfl
  | _ => rfl

theorem kind_tidy (node : Node) : node.tidy.kind = node.kind := by cases node <;> rfl

theorem span_tidy (node : Node) : node.tidy.span = node.span := by cases node <;> rfl

theorem tidy_of_kind_ne {node : Node} (hroot : node.kind ≠ .root) (hblock : node.kind ≠ .block) :
    node.tidy = node := by
  cases node with
  | root span body => exact absurd rfl hroot
  | block span body => exact absurd rfl hblock
  | _ => rfl

theorem kind_normalForm (node : Node) : node.normalForm.kind = node.kind := by
  rw [normalForm_eq, kind_tidy, kind_mapChildren]

-- ============================================================ the statements

@[simp] theorem isReturn_normalForm (node : Node) : isReturn node.normalForm = isReturn node :=
  isReturn_of_kind_eq node.kind_normalForm

/-- A list of statements has a `return` if and only if it has one after
splicing. -/
@[simp] theorem any_spliced (node : Node) : node.spliced.any isReturn = isReturn node := by
  cases node with
  | block span body =>
      by_cases hreturn : body.any isReturn = true
      · simp only [spliced, if_pos hreturn]
        rfl
      · simp only [spliced, if_neg hreturn]
        exact eq_false_of_ne_true hreturn
  | _ => exact Bool.or_false _

theorem spliced_of_isReturn {node : Node} (h : isReturn node = true) : node.spliced = [node] := by
  cases node with
  | ret span value => rfl
  | _ => cases h

theorem spliced_block {span : Span} {body : List Node} (h : body.any isReturn = false) :
    (block span body).spliced = body := by
  rw [spliced, h]
  rfl

/-- What becomes of a list of statements, apart from what stands behind a
`return`. -/
def tidied (nodes : List Node) : List Node := (nodes.map normalForm).flatMap spliced

theorem normalForm_root (span : Span) (body : List Node) :
    (root span body).normalForm = .root span (tidied body) := by
  rw [normalForm, normalForms_eq_map, tidied]

theorem normalForm_block (span : Span) (body : List Node) :
    (block span body).normalForm = .block span (untilReturn (tidied body)) := by
  rw [normalForm, normalForms_eq_map, tidied]

theorem tidied_append (first second : List Node) :
    tidied (first ++ second) = tidied first ++ tidied second := by
  rw [tidied, List.map_append, List.flatMap_append, tidied, tidied]

theorem tidied_cons (node : Node) (rest : List Node) :
    tidied (node :: rest) = node.normalForm.spliced ++ tidied rest := by
  rw [tidied, List.map_cons, List.flatMap_cons, tidied]

theorem any_tidied (nodes : List Node) : (tidied nodes).any isReturn = nodes.any isReturn := by
  induction nodes with
  | nil => rfl
  | cons node rest ih =>
      rw [tidied_cons, List.any_append, any_spliced, isReturn_normalForm, ih, List.any_cons]

theorem tidied_cons_of_isReturn {node : Node} (h : isReturn node = true) (rest : List Node) :
    tidied (node :: rest) = node.normalForm :: tidied rest := by
  rw [tidied_cons, spliced_of_isReturn (by rwa [isReturn_normalForm]), List.singleton_append]

theorem untilReturn_of_any {nodes : List Node} (h : nodes.any isReturn = false) :
    untilReturn nodes = nodes := by
  induction nodes with
  | nil => rfl
  | cons node rest ih =>
      rw [List.any_cons, Bool.or_eq_false_iff] at h
      rw [untilReturn, h.1, ih h.2]
      rfl

/-- What stands behind a `return` is not looked at. -/
theorem untilReturn_append {last : Node} (h : isReturn last = true) (before after : List Node) :
    untilReturn (before ++ last :: after) = untilReturn (before ++ [last]) := by
  induction before with
  | nil => simp only [List.nil_append, untilReturn, if_pos h]
  | cons node rest ih => rw [List.cons_append, List.cons_append, untilReturn, untilReturn, ih]

/-- Where nothing is left out there is no statement behind the first
`return`. -/
theorem untilReturn_eq_or (nodes : List Node) :
    untilReturn nodes = nodes ∨ ∃ before last after, nodes = before ++ last :: after
      ∧ before.any isReturn = false ∧ isReturn last = true ∧ after ≠ [] := by
  induction nodes with
  | nil => exact .inl rfl
  | cons node rest ih =>
      by_cases hreturn : isReturn node = true
      · by_cases hrest : rest = []
        · left
          rw [untilReturn, if_pos hreturn, hrest]
        · exact .inr ⟨[], node, rest, rfl, rfl, hreturn, hrest⟩
      · rcases ih with hsame | ⟨before, last, after, rfl, hbefore, hlast, hafter⟩
        · left
          rw [untilReturn, if_neg hreturn, hsame]
        · refine .inr ⟨node :: before, last, after, rfl, ?_, hlast, hafter⟩
          rw [List.any_cons, hbefore, eq_false_of_ne_true hreturn]
          rfl

end Node

-- ================================================================ evaluation

namespace Eval

variable {σ : Type} [Scopes σ] (call : Caller σ) (program : Nat) (scope : ScopeId)

theorem discard_none : discard (σ := σ) none = pure () := rfl

/-- The statements of a program yield no value. -/
theorem evalAll_bind {α : Type} (nodes : List Node) (k : Option Value → Eval σ α) :
    evalAll call program scope nodes >>= k
      = evalAll call program scope nodes >>= fun _ => k none := by
  induction nodes with
  | nil =>
      rw [evalAll]
      rfl
  | cons node rest ih => simp only [evalAll, bind_assoc, ih]

theorem evalBlock_append {nodes : List Node} (h : nodes.any isReturn = false) (rest : List Node) :
    evalBlock call program scope (nodes ++ rest)
      = evalAll call program scope nodes >>= fun _ => evalBlock call program scope rest := by
  induction nodes with
  | nil =>
      rw [List.nil_append, evalAll]
      rfl
  | cons node nodes ih =>
      rw [List.any_cons, Bool.or_eq_false_iff] at h
      simp only [List.cons_append, evalBlock, evalAll, h.1, ih h.2, bind_assoc]
      rfl

theorem evalBlock_of_any {nodes : List Node} (h : nodes.any isReturn = false) :
    evalBlock call program scope nodes = evalAll call program scope nodes := by
  have happend := evalBlock_append call program scope h []
  have hnone := evalAll_bind call program scope nodes pure
  rw [bind_pure] at hnone
  rw [List.append_nil, evalBlock] at happend
  exact happend.trans hnone.symm

/-- A statement may be replaced by those that splicing gives. -/
theorem evalAll_spliced {α : Type} (node : Node) (k : Eval σ α) :
    (evalAll call program scope node.spliced >>= fun _ => k)
      = evalNode call program scope node >>= fun result => discard result >>= fun _ => k := by
  have hitself : (evalAll call program scope [node] >>= fun _ => k)
      = evalNode call program scope node >>= fun result => discard result >>= fun _ => k := by
    simp only [evalAll, bind_assoc, pure_bind]
  cases node with
  | block span body =>
      by_cases hreturn : body.any isReturn = true
      · rw [Node.spliced, if_pos hreturn]
        exact hitself
      · have hany := eq_false_of_ne_true hreturn
        rw [Node.spliced_block hany, evalNode, evalBlock_of_any call program scope hany,
          evalAll_bind _ _ _ _ fun result => discard result >>= fun _ => k, discard_none, pure_bind]
  | _ => exact hitself

theorem evalAll_flatMap_spliced (nodes : List Node) :
    evalAll call program scope (nodes.flatMap Node.spliced)
      = evalAll call program scope nodes := by
  induction nodes with
  | nil => rfl
  | cons node rest ih =>
      rw [List.flatMap_cons, evalAll_append, evalAll_spliced, ih, evalAll]

theorem evalBlock_flatMap_spliced (nodes : List Node) :
    evalBlock call program scope (nodes.flatMap Node.spliced)
      = evalBlock call program scope nodes := by
  induction nodes with
  | nil => rfl
  | cons node rest ih =>
      rw [List.flatMap_cons, evalBlock]
      by_cases hreturn : isReturn node = true
      · rw [Node.spliced_of_isReturn hreturn, List.singleton_append, evalBlock, if_pos hreturn,
          if_pos hreturn]
      · have hany : node.spliced.any isReturn = false := by
          rw [Node.any_spliced]
          exact eq_false_of_ne_true hreturn
        rw [evalBlock_append call program scope hany, evalAll_spliced, ih, if_neg hreturn]

theorem evalBlock_untilReturn (nodes : List Node) :
    evalBlock call program scope (Node.untilReturn nodes) = evalBlock call program scope nodes := by
  induction nodes with
  | nil => rfl
  | cons node rest ih =>
      rw [Node.untilReturn]
      by_cases hreturn : isReturn node = true
      · simp only [if_pos hreturn, evalBlock]
      · rw [if_neg hreturn, evalBlock, evalBlock, ih]

end Eval

/-- No run notices the normal form. -/
theorem faithful_normalForm : Faithful Node.normalForm where
  span node := by rw [Node.normalForm_eq, Node.span_tidy, Node.span_mapChildren]
  kind := Node.kind_normalForm
  inner {node} hroot hblock := by
    rw [Node.normalForm_eq, Node.tidy_of_kind_ne]
    · rwa [Node.kind_mapChildren]
    · rwa [Node.kind_mapChildren]
  eval call program scope node := by
    rw [Node.normalForm_eq]
    generalize (node.mapChildren fun _ => Node.normalForm) = node
    cases node with
    | root span body => rw [Node.tidy, evalNode, evalNode, evalAll_flatMap_spliced]
    | block span body =>
        rw [Node.tidy, evalNode, evalNode, evalBlock_untilReturn, evalBlock_flatMap_spliced]
    | _ => rfl

-- ====================================================== the order of rewrites

namespace Node

/-- A block without a `return` contributes to the list around it what its
statements do. -/
theorem tidied_cons_block {place : Span} {body : List Node} (h : body.any isReturn = false)
    (rest : List Node) : tidied (.block place body :: rest) = tidied (body ++ rest) := by
  have hany : (tidied body).any isReturn = false := by rw [any_tidied, h]
  rw [tidied_cons, normalForm_block, untilReturn_of_any hany, spliced_block hany, tidied_append]

/-- Of the children it is only the normal forms that matter. -/
theorem normalForm_mapChildren {node : Node} {g : Nat → Node → Node}
    (h : ∀ i child, node.children[i]? = some child → (g i child).normalForm = child.normalForm) :
    (node.mapChildren g).normalForm = node.normalForm := by
  rw [normalForm_eq, mapChildren_mapChildren, mapChildren_congr h, ← normalForm_eq]

/-- One for each node of a tree. -/
abbrev tally (node : Node) : List Unit := node.collect fun _ => [()]

/-- How many nodes a tree has. -/
def size (node : Node) : Nat := node.tally.length

theorem size_eq (node : Node) : node.size = (node.children.flatMap tally).length + 1 := by
  rw [size, tally, collect_eq, List.length_append, Nat.add_comm]
  rfl

end Node

namespace Rewrites

variable {tree tree' : Node}

/-- A rewrite does not change the normal form. -/
theorem normalForm_eq (h : Rewrites tree tree') : tree'.normalForm = tree.normalForm := by
  induction h with
  | @delete span before after last hbefore hlast hafter =>
      rw [Node.normalForm_block, Node.normalForm_block, Node.tidied_append, Node.tidied_append,
        Node.tidied_cons_of_isReturn hlast, Node.tidied_cons_of_isReturn hlast,
        Node.untilReturn_append (by rwa [Node.isReturn_normalForm]) _ (Node.tidied after)]
      rfl
  | spliceRoot hbody =>
      rw [Node.normalForm_root, Node.normalForm_root, Node.tidied_append,
        ← Node.tidied_cons_block hbody, ← Node.tidied_append]
  | spliceBlock hbody =>
      rw [Node.normalForm_block, Node.normalForm_block, Node.tidied_append,
        ← Node.tidied_cons_block hbody, ← Node.tidied_append]
  | @child node child child' i hchild _ ih =>
      refine Node.normalForm_mapChildren fun j other hother => ?_
      by_cases hj : j = i
      · subst hj
        rw [hchild] at hother
        cases hother
        rw [if_pos rfl, ih]
      · rw [if_neg hj]

/-- A rewrite leaves fewer nodes. -/
theorem size_lt (h : Rewrites tree tree') : tree'.size < tree.size := by
  induction h with
  | @delete span before after last hbefore hlast hafter =>
      obtain ⟨next, rest, rfl⟩ := List.exists_cons_of_ne_nil hafter
      have hnext : next.tally.length = _ := next.size_eq
      simp only [Node.size_eq, Node.children, List.flatMap_append, List.flatMap_cons,
        List.flatMap_nil, List.length_append, List.length_nil]
      omega
  | @spliceRoot span place before body after hbody =>
      have hblock : (Node.block place body).tally.length = _ := Node.size_eq _
      simp only [Node.size_eq, Node.children, List.flatMap_append, List.flatMap_cons,
        List.length_append] at hblock ⊢
      omega
  | @spliceBlock span place before body after hbody =>
      have hblock : (Node.block place body).tally.length = _ := Node.size_eq _
      simp only [Node.size_eq, Node.children, List.flatMap_append, List.flatMap_cons,
        List.length_append] at hblock ⊢
      omega
  | @child node child child' i hchild _ ih =>
      obtain ⟨hlt, rfl⟩ := List.getElem?_eq_some_iff.1 hchild
      have hset : (node.children.mapIdx fun j other => if j = i then child' else other)
          = node.children.set i child' := by
        refine List.ext_getElem? fun j => ?_
        rw [List.getElem?_mapIdx, List.getElem?_set]
        by_cases hj : j = i
        · subst hj
          simp [hlt]
        · simp [hj, Ne.symm hj]
      have htally (other : Node) : ((node.children.set i other).flatMap Node.tally).length
          = ((node.children.take i).flatMap Node.tally).length + other.size
            + ((node.children.drop (i + 1)).flatMap Node.tally).length := by
        rw [List.set_eq_take_append_cons_drop, if_pos hlt, List.flatMap_append, List.flatMap_cons,
          List.length_append, List.length_append, Node.size, Nat.add_assoc]
      have hself := htally node.children[i]
      rw [List.set_getElem_self hlt] at hself
      rw [Node.size_eq, Node.children_mapChildren, hset, htally, node.size_eq, hself]
      omega

/-- A tree that allows no rewrite is its own normal form. -/
theorem normalForm_eq_self {node : Node} (h : ∀ next, ¬Rewrites node next) :
    node.normalForm = node := by
  have hchild (i : Nat) (child : Node) (hi : node.children[i]? = some child) :
      child.normalForm = child :=
    normalForm_eq_self fun next hnext => h _ (.child hi hnext)
  rw [Node.normalForm_eq, Node.mapChildren_congr hchild, Node.mapChildren_self]
  -- a statement that splicing replaces is a block without a `return`
  have hspliced {body : List Node}
      (hbody : ∀ before place inner after, inner.any isReturn = false →
        body ≠ before ++ .block place inner :: after) : body.flatMap Node.spliced = body := by
    have hsingle (statement : Node) (hstatement : statement ∈ body) :
        statement.spliced = [statement] := by
      obtain ⟨before, after, hsplit⟩ := List.append_of_mem hstatement
      cases statement with
      | block place inner =>
          by_cases hreturn : inner.any isReturn = true
          · rw [Node.spliced, if_pos hreturn]
          · exact absurd hsplit (hbody before place inner after (eq_false_of_ne_true hreturn))
      | _ => rfl
    rw [List.flatMap_congr hsingle, List.flatMap_singleton']
  cases node with
  | root span body =>
      rw [Node.tidy, hspliced]
      rintro before place inner after hinner rfl
      exact h _ (.spliceRoot hinner)
  | block span body =>
      rw [Node.tidy, hspliced]
      · rcases Node.untilReturn_eq_or body with
          hall | ⟨before, last, after, rfl, hbefore, hlast, hafter⟩
        · rw [hall]
        · exact absurd (.delete hbefore hlast hafter) (h _)
      · rintro before place inner after hinner rfl
        exact h _ (.spliceBlock hinner)
  | _ => rfl
termination_by sizeOf node
decreasing_by exact Node.sizeOf_lt_of_mem_children (List.mem_of_getElem? hi)

/-- Rewrites lead to the normal form, and end there. -/
theorem reaches_normalForm (tree : Node) :
    Relation.ReflTransGen Rewrites tree tree.normalForm
      ∧ ∀ next, ¬Rewrites tree.normalForm next := by
  induction hn : tree.size using Nat.strongRecOn generalizing tree with
  | ind n ih =>
      by_cases hnext : ∃ next, Rewrites tree next
      · obtain ⟨next, hrewrites⟩ := hnext
        obtain ⟨hreaches, hends⟩ := ih next.size (hn ▸ hrewrites.size_lt) next rfl
        rw [hrewrites.normalForm_eq] at hreaches hends
        exact ⟨.head hrewrites hreaches, hends⟩
      · have hends (next : Node) (hrewrites : Rewrites tree next) : False :=
          hnext ⟨next, hrewrites⟩
        rw [normalForm_eq_self hends]
        exact ⟨.refl, hends⟩

/-- All trees on the way have the same normal form. -/
theorem normalForm_eq_of_reaches (h : Relation.ReflTransGen Rewrites tree tree') :
    tree'.normalForm = tree.normalForm := by
  induction h with
  | refl => rfl
  | tail _ hrewrites ih => rw [hrewrites.normalForm_eq, ih]

end Rewrites

/-- However blocks are rewritten, it comes to an end, there is one tree in
which it ends, and the programs on the way, that one included, print the
same and end alike. -/
theorem block_rewriting_preserves_meaning (root : Node) :
    (∃! normal, Relation.ReflTransGen Rewrites root normal ∧ ∀ next, ¬Rewrites normal next)
      ∧ Acc (fun next tree => Rewrites tree next) root
      ∧ ∀ root', Relation.ReflTransGen Rewrites root root' → evaluate root' = evaluate root := by
  refine ⟨⟨root.normalForm, Rewrites.reaches_normalForm root, fun normal hnormal => ?_⟩, ?_,
    fun root' hroot' => ?_⟩
  · rw [← Rewrites.normalForm_eq_of_reaches hnormal.1, Rewrites.normalForm_eq_self hnormal.2]
  · have hwf : WellFounded fun next tree : Node => Rewrites tree next :=
      Subrelation.wf (fun h => h.size_lt) (measure Node.size).wf
    exact hwf.apply root
  · calc evaluate root'
        = evaluate root'.normalForm := (faithful_normalForm.evaluate root').symm
      _ = evaluate root.normalForm := by rw [Rewrites.normalForm_eq_of_reaches hroot']
      _ = evaluate root := faithful_normalForm.evaluate root

/-- A block without a `return` is gone, and so is what follows one. -/
example :
    Node.normalForm (.root ⟨0, 9⟩ [.block ⟨0, 3⟩ [.declaration ⟨1, 2⟩ "a"],
        .block ⟨4, 9⟩ [.ret ⟨5, 6⟩ none, .declaration ⟨7, 8⟩ "a"]])
      = .root ⟨0, 9⟩ [.declaration ⟨1, 2⟩ "a", .block ⟨4, 9⟩ [.ret ⟨5, 6⟩ none]] := rfl

end ScopedScript
