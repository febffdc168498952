/-
The shape of the trees that are built.

A node may have any nodes for its parts, but most places of a built tree
hold only some constructs: what stands to the left of an operator, an `=`,
a call or a dot is never itself an operation, an assignment or a statement,
and the body of a function is a block.

# Where left operands come from

The grammar goes from left to right and never takes a node back, so a node
is a left operand only if a tail has been read after it. Tails come after
names, numbers, texts and parentheses, and after what a call or a property
read makes of a left operand; operations and assignments end the
expression that they are in. That the node before a tail is one of these
constructs is therefore carried along the tail (`Shapes`), for one phrase
at a time. That it holds of all nodes at any depth is no matter of this
file: every node of a tree is a statement of its own (`Derives.holdsAll`).
-/
import ScopedScript.Proofs.Phrases

namespace ScopedScript

namespace Node

/-- The constructs that an expression can go on after. -/
def Kind.isOperand : Kind → Bool
  | .reference | .number | .string | .call | .parenthesized | .readProperty => true
  | .root | .declaration | .assignment | .boolean | .binary | .function | .block | .ret => false

/-- The parts of a node are such as its construct has. Operands on the right,
arguments and statements can be anything. -/
def WellShaped : Node → Prop
  | .binary _ _ left _ => left.kind.isOperand = true
  | .assignment _ target _ => target.kind.isOperand = true
  | .call _ callee _ => callee.kind.isOperand = true
  | .readProperty _ object _ => object.kind.isOperand = true
  | .function _ _ _ body => body.kind = .block
  | .root .. | .declaration .. | .reference .. | .number .. | .string .. | .boolean ..
  | .parenthesized .. | .block .. | .ret .. => True

end Node

namespace Grammar

open Node

/-- The node of a statement: well shaped, and not a program. -/
def Fits (n : Node) : Prop := n.kind ≠ .root ∧ n.WellShaped

theorem Fits.of_block {n : Node} (h : n.kind = .block) : Fits n := by
  cases n with
  | block => exact ⟨nofun, trivial⟩
  | _ => cases h

theorem Fits.of_operand {n : Node} (h : n.kind.isOperand = true) (hshape : n.WellShaped) :
    Fits n := by
  refine ⟨fun hroot => ?_, hshape⟩
  rw [hroot] at h
  cases h

/-- What the nodes of a phrase are like; of a tail, provided that it comes
after a left operand. -/
def Shapes (nodes : List Node) : Phrase → Prop
  | .statement => ∀ n ∈ nodes, Fits n
  | .block => ∀ n ∈ nodes, n.kind = .block
  | .tail left => left.kind.isOperand = true → left.WellShaped → ∀ n ∈ nodes, Fits n
  | .body | .arguments => True

theorem Derives.shapes {phrase : Phrase} {ts next : List Token} {nodes : List Node}
    (h : Derives phrase ts next nodes) : Shapes nodes phrase := by
  have one {n : Node} (hn : Fits n) : ∀ m ∈ [n], Fits m := List.forall_mem_singleton.2 hn
  induction h with
  | noStatement | nextStatement | noArgument | lastArgument | nextArgument => trivial
  | block => exact List.forall_mem_singleton.2 rfl
  -- the constructs that a tail comes after
  | reference _ _ ih => exact ih rfl trivial
  | number _ _ _ ih => exact ih rfl trivial
  | string _ _ ih => exact ih rfl trivial
  | parenthesized _ _ _ _ _ _ _ ih => exact ih rfl trivial
  | call _ _ _ _ _ ih => exact fun hleft _ => ih rfl hleft
  | property _ _ _ ih => exact fun hleft _ => ih rfl hleft
  -- the constructs that nothing comes after
  | stop => exact fun hleft hshape => one (.of_operand hleft hshape)
  | assignment => exact fun hleft _ => one ⟨nofun, hleft⟩
  | binary => exact fun hleft _ => one ⟨nofun, hleft⟩
  | boolean | bareReturn | returnValue | declaration => exact one ⟨nofun, trivial⟩
  | blockStatement _ ih => exact fun n hn => .of_block (ih n hn)
  | function _ _ _ _ ih => exact one ⟨nofun, ih _ List.mem_cons_self⟩
  | initializedDeclaration =>
      exact List.forall_mem_cons.2 ⟨⟨nofun, trivial⟩, one ⟨nofun, rfl⟩⟩

theorem Holds.fits {ts : List Token} {n : Node} (h : Holds ts n) : Fits n := by
  obtain ⟨us, -, hderives⟩ := h
  exact hderives.shapes n List.mem_cons_self

end Grammar

open Grammar

/-- A tree that has been built has a program at the top and nowhere else, and
all of its nodes are well shaped. -/
theorem built_trees_are_well_shaped {tokens : List Token} {tree : Node}
    (h : build tokens = .ok tree) :
    tree.kind = .root ∧ ∀ path node, tree.at? path = some node →
      (node.kind = .root → path = []) ∧ node.WellShaped := by
  obtain ⟨body, hbody, rfl⟩ := isTreeOf_of_build h
  refine ⟨rfl, fun path node hnode => ?_⟩
  cases path with
  | nil =>
      cases hnode
      exact ⟨fun _ => rfl, trivial⟩
  | cons i path =>
      have hfits := (hbody.holds_of_at? hnode).fits
      exact ⟨fun hroot => absurd hroot hfits.1, hfits.2⟩

/-- Tokens with spans that make no sense: `f().x = true`, where the target is
a property of a call. -/
theorem built_trees_are_well_shaped_target :
    let token (kind : Token.Kind) (text : String) : Token := ⟨kind, text, ⟨7, 3⟩, []⟩
    let tokens := [token .identifier "f", token .openParen "(", token .closeParen ")",
      token .dot ".", token .identifier "x", token .assign "=", token .boolean "true"]
    ∃ tree, build tokens = .ok tree ∧ tree.kind = .root
      ∧ ∃ node, tree.at? [0] = some node ∧ node.kind = .assignment ∧ node.WellShaped := by
  intro token tokens
  have hfound : ((build tokens).toOption.bind (·.at? [0])).map (·.kind) = some .assignment := by
    decide +kernel
  obtain ⟨tree, node, hbuild, hnode, hkind⟩ := Node.exists_of_seen hfound
  obtain ⟨hroot, hshape⟩ := built_trees_are_well_shaped hbuild
  exact ⟨tree, hbuild, hroot, node, hnode, hkind, (hshape _ node hnode).2⟩

end ScopedScript
