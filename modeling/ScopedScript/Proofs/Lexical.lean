/-
Scoping is lexical.

Which scope a node is evaluated in, and where look-ups go on from there,
is decided by where the node stands in the tree. Callers have no say in
it, and neither has the way a function took before it was called: through
names, arguments and results of other functions.

# Owners

A scope is made for a call of a function, and that function owns it; the
first scope of a run belongs to the program itself. Functions are given by
their places in the tree, since two functions may have the same text.

# The invariant

A function value closes over a scope of the function around its definition
(`ClosesOver`). This is what a call relies on when it makes a child of
that scope, and what a definition establishes, since a definition is
evaluated in a scope of the function around it. Values are copied by
everything else, and none of it looks at them.
-/
import ScopedScript.Proofs.Watching

namespace ScopedScript

-- ========================================================= places in a tree

namespace Node

/-- The node that a path leads to. -/
def at? (node : Node) : Path → Option Node
  | [] => some node
  | i :: rest => node.children[i]?.bind (·.at? rest)

/-- Whether a path leads to a function. -/
def isFunctionAt (root : Node) (p : Path) : Bool := (root.at? p).any (·.kind == .function)

/-- The innermost function that a path leads through on its way. -/
def enclosing (root : Node) (p : Path) : Option Path :=
  ((List.range p.length).reverse.map p.take).find? root.isFunctionAt

/-- The name that a node declares. -/
def declared? : Node → Option String
  | .declaration _ name => some name
  | .function _ name _ _ => some name
  | _ => none

/-- The names of the parameters of a function. -/
def parameterNames : Node → List String
  | .function _ _ parameters _ => parameters.map (·.name)
  | _ => []

theorem at?_append (root : Node) (p q : Path) :
    root.at? (p ++ q) = (root.at? p).bind (·.at? q) := by
  induction p generalizing root with
  | nil => rfl
  | cons i rest ih =>
      rw [List.cons_append, at?, at?, Option.bind_assoc]
      cases root.children[i]? with
      | none => rfl
      | some child => exact ih child

theorem at?_concat {root node child : Node} {p : Path} {i : Nat} (h : root.at? p = some node)
    (hchild : node.children[i]? = some child) : root.at? (p ++ [i]) = some child := by
  rw [at?_append, h, Option.bind_some, at?, hchild]
  rfl

/-- One step further down, the innermost function is the node that was left
or what it was before. -/
theorem enclosing_concat (root : Node) (p : Path) (i : Nat) :
    root.enclosing (p ++ [i]) = if root.isFunctionAt p then some p else root.enclosing p := by
  have hinits : (List.range p.length).reverse.map (p ++ [i]).take
      = (List.range p.length).reverse.map p.take := by
    refine List.map_congr_left fun n hn => ?_
    have hlt : n < p.length := List.mem_range.1 (List.mem_reverse.1 hn)
    exact List.take_append_of_le_length (Nat.le_of_lt hlt)
  unfold enclosing
  rw [List.length_append, List.length_singleton, List.range_succ, List.reverse_append,
    List.reverse_singleton, List.singleton_append, List.map_cons, hinits, List.find?_cons,
    List.take_left]
  cases root.isFunctionAt p <;> rfl

theorem isFunctionAt_eq {root node : Node} {p : Path} (h : root.at? p = some node) :
    root.isFunctionAt p = (node.kind == .function) := by
  rw [isFunctionAt, h]
  rfl

theorem enclosing_child {root node : Node} {p : Path} (h : root.at? p = some node)
    (hkind : node.kind ≠ .function) (i : Nat) :
    root.enclosing (p ++ [i]) = root.enclosing p := by
  rw [enclosing_concat, isFunctionAt_eq h, if_neg]
  simpa using hkind

theorem enclosing_body {root node : Node} {p : Path} (h : root.at? p = some node)
    (hkind : node.kind = .function) (i : Nat) : root.enclosing (p ++ [i]) = some p := by
  rw [enclosing_concat, isFunctionAt_eq h, if_pos]
  simpa using hkind

end Node

-- ================================================================== owners

/-- The owner of a scope: `none` for the program, which owns the first
scope. The functions that own the others are listed in `frames`. -/
def ownerOf (frames : List Path) : ScopeId → Option (Option Path)
  | 0 => some none
  | scope + 1 => frames[scope]?.map some

theorem ownerOf_of_grows {frames frames' : List Path} {scope : ScopeId} {owner : Option Path}
    (h : frames <+: frames') (howner : ownerOf frames scope = some owner) :
    ownerOf frames' scope = some owner := by
  cases scope with
  | zero => exact howner
  | succ scope =>
      obtain ⟨p, hp, rfl⟩ := Option.map_eq_some_iff.1 howner
      obtain ⟨more, rfl⟩ := h
      have hlt : scope < frames.length := (List.getElem?_eq_some_iff.1 hp).1
      rw [ownerOf, List.getElem?_append_left hlt, hp]
      rfl

theorem ownerOf_concat (frames : List Path) (p : Path) :
    ownerOf (frames ++ [p]) (frames.length + 1) = some (some p) := by
  rw [ownerOf, List.getElem?_concat_length]
  rfl

/-- The place of a node that is evaluated in a scope of an owner: the path
of a task starts from the program or from the body of the function. -/
def position : Option Path → Path → Path
  | none, path => path
  | some p, path => p ++ [0] ++ path

theorem position_concat (owner : Option Path) (path : Path) (i : Nat) :
    position owner (path ++ [i]) = position owner path ++ [i] := by
  cases owner with
  | none => rfl
  | some p => exact (List.append_assoc ..).symm

/-- The names that a scope may hold: those declared in the body of its
owner, though not inside a function there, and the parameters of its owner
or, for the program, the predeclared functions. -/
def Named (root : Node) (owner : Option Path) (name : String) : Prop :=
  (∃ p node, root.at? p = some node ∧ root.enclosing p = owner ∧ node.declared? = some name)
    ∨ match owner with
      | none => name ∈ Scopes.nativeNames
      | some p => ∃ f, root.at? p = some f ∧ name ∈ f.parameterNames

-- ============================================================ the invariant

section Invariant

variable (root : Node) (frames : List Path)

/-- The parent of a scope: none for the first one, and for every other one a
scope of the innermost function around its owner. -/
def Linked (scope : ScopeId) (parent : Option ScopeId) : Prop :=
  (scope = 0 ∧ parent = none)
    ∨ ∃ p outer, ownerOf frames scope = some (some p) ∧ parent = some outer
      ∧ ownerOf frames outer = some (root.enclosing p)

def Allowed (scope : ScopeId) (name : String) : Prop :=
  ∃ owner, ownerOf frames scope = some owner ∧ Named root owner name

/-- A function closes over a scope of the innermost function around its
definition. -/
def ClosesOver (value : Value) : Prop :=
  ∀ closure, value = .function closure → ∃ p, root.at? p = some closure.definition
    ∧ ownerOf frames closure.scope = some (root.enclosing p)

/-- A task is evaluated in a scope of the innermost function around its
node. -/
def InPlace (t : Task) : Prop :=
  ∃ owner, ownerOf frames t.scope = some owner
    ∧ root.at? (position owner t.path) = some t.node
    ∧ root.enclosing (position owner t.path) = owner

/-- A scope was made for a call of the function that owns it. -/
def OwnedBy (closure : Closure) (frame : ScopeId) : Prop :=
  ∃ p, ownerOf frames frame = some (some p) ∧ root.at? p = some closure.definition
    ∧ closure.definition.kind = .function

/-- The scopes of a store are where they are to be. -/
structure Scoped (s : Store) : Prop where
  size : s.cells.size = frames.length + 1
  contains : s.Contains (Linked root frames) (Allowed root frames) (ClosesOver root frames)

variable {root frames} {frames' : List Path}

theorem Linked.of_grows (h : frames <+: frames') {scope : ScopeId} {parent : Option ScopeId}
    (hlinked : Linked root frames scope parent) : Linked root frames' scope parent := by
  rcases hlinked with hfirst | ⟨p, outer, howner, hparent, houter⟩
  · exact .inl hfirst
  · exact .inr ⟨p, outer, ownerOf_of_grows h howner, hparent, ownerOf_of_grows h houter⟩

theorem Allowed.of_grows (h : frames <+: frames') {scope : ScopeId} {name : String}
    (hallowed : Allowed root frames scope name) : Allowed root frames' scope name := by
  obtain ⟨owner, howner, hnamed⟩ := hallowed
  exact ⟨owner, ownerOf_of_grows h howner, hnamed⟩

theorem ClosesOver.of_grows (h : frames <+: frames') {value : Value}
    (hcloses : ClosesOver root frames value) : ClosesOver root frames' value := by
  intro closure hclosure
  obtain ⟨p, hp, howner⟩ := hcloses closure hclosure
  exact ⟨p, hp, ownerOf_of_grows h howner⟩

theorem InPlace.of_grows (h : frames <+: frames') {t : Task}
    (hplace : InPlace root frames t) : InPlace root frames' t := by
  obtain ⟨owner, howner, hnode, henclosing⟩ := hplace
  exact ⟨owner, ownerOf_of_grows h howner, hnode, henclosing⟩

theorem OwnedBy.of_grows (h : frames <+: frames') {closure : Closure} {frame : ScopeId}
    (howned : OwnedBy root frames closure frame) : OwnedBy root frames' closure frame := by
  obtain ⟨p, howner, hp, hkind⟩ := howned
  exact ⟨p, ownerOf_of_grows h howner, hp, hkind⟩

/-- The scopes of a store, seen with more that is known. -/
theorem Scoped.contains_of_grows {s : Store} (h : Scoped root frames s)
    (hgrows : frames <+: frames') :
    s.Contains (Linked root frames') (Allowed root frames') (ClosesOver root frames') :=
  h.contains.weaken (.of_grows hgrows) (.of_grows hgrows) (.of_grows hgrows)

/-- Going down the tree stays in the scope. -/
theorem InPlace.child {t : Task} {n : Nat} {node : Node} (h : InPlace root frames t)
    (hkind : t.node.kind ≠ .function) (hnode : t.node.children[n]? = some node) :
    InPlace root frames (t.child n node) := by
  obtain ⟨owner, howner, hplace, henclosing⟩ := h
  refine ⟨owner, howner, ?_, ?_⟩
  · show root.at? (position owner (t.path ++ [n])) = some node
    rw [position_concat]
    exact Node.at?_concat hplace hnode
  · show root.enclosing (position owner (t.path ++ [n])) = owner
    rw [position_concat, Node.enclosing_child hplace hkind, henclosing]

/-- A node declares its name in the scope that it is evaluated in. -/
theorem InPlace.declares {t : Task} {name : String} (h : InPlace root frames t)
    (hname : t.node.declared? = some name) : Allowed root frames t.scope name := by
  obtain ⟨owner, howner, hplace, henclosing⟩ := h
  exact ⟨owner, howner, .inl ⟨_, _, hplace, henclosing, hname⟩⟩

/-- A definition closes over the scope that it is evaluated in. -/
theorem InPlace.closes {t : Task} (h : InPlace root frames t) :
    ClosesOver root frames (.function ⟨t.program, t.node, t.scope⟩) := by
  obtain ⟨owner, howner, hplace, henclosing⟩ := h
  intro closure hclosure
  cases hclosure
  exact ⟨_, hplace, by rw [henclosing]; exact howner⟩

/-- The body of a function is evaluated in the scope made for the call. -/
theorem OwnedBy.body {closure : Closure} {frame : ScopeId} {span : Span} {name : String}
    {parameters : List Parameter} {body : Node} (h : OwnedBy root frames closure frame)
    (hdefinition : closure.definition = .function span name parameters body) (depth : Nat) :
    InPlace root frames ⟨depth, closure.program, frame, [], body⟩ := by
  obtain ⟨p, howner, hp, hkind⟩ := h
  have hbody : closure.definition.children[0]? = some body := by
    rw [hdefinition]
    rfl
  refine ⟨some p, howner, ?_, ?_⟩
  · show root.at? (p ++ [0] ++ []) = some body
    rw [List.append_nil]
    exact Node.at?_concat hp hbody
  · show root.enclosing (p ++ [0] ++ []) = some p
    rw [List.append_nil]
    exact Node.enclosing_body hp hkind 0

theorem OwnedBy.parameter {closure : Closure} {frame : ScopeId} {span : Span} {name : String}
    {parameters : List Parameter} {body : Node} (h : OwnedBy root frames closure frame)
    (hdefinition : closure.definition = .function span name parameters body) {q : Parameter}
    (hq : q ∈ parameters) : Allowed root frames frame q.name := by
  obtain ⟨p, howner, hp, -⟩ := h
  refine ⟨some p, howner, .inr ⟨closure.definition, hp, ?_⟩⟩
  rw [hdefinition]
  exact List.mem_map_of_mem hq

end Invariant

/-- Lexical scoping, as a discipline: what is known of the scopes is the
functions that own them. -/
def lexical (root : Node) : Discipline Store (List Path) where
  Grows frames frames' := frames <+: frames'
  Holds := Scoped root
  Fits := ClosesOver root
  Placed := InPlace root
  Allows := Allowed root
  Framed := OwnedBy root
  refl _ := List.prefix_rfl
  trans h h' := h.trans h'
  fits_grows h hcloses := hcloses.of_grows h
  placed_grows h hplace := hplace.of_grows h
  allows_grows h hallowed := hallowed.of_grows h
  framed_grows h howned := howned.of_grows h
  hold scope h := ⟨(Store.size_hold ..).trans h.size, h.contains.leftOf (Store.hold_leftOf ..)⟩
  drop scope h := ⟨(Store.size_drop ..).trans h.size, h.contains.leftOf (Store.drop_leftOf ..)⟩
  declare h hallows hfits :=
    ⟨(Store.size_declare ..).trans h.size, h.contains.declare hallows hfits⟩
  assign scope name h hfits :=
    ⟨(Store.size_assign ..).trans h.size, h.contains.assign scope name hfits⟩
  lookup scope name h :=
    ⟨⟨(Store.size_lookup ..).trans h.size, (h.contains.lookup scope name).1⟩,
      (h.contains.lookup scope name).2⟩
  fits_plain hplain _ := by
    intro closure hclosure
    rw [hclosure] at hplain
    cases hplain
  child h hkind hnode := h.child hkind hnode
  declaration h hnode := h.declares (by rw [hnode]; rfl)
  function h hnode := ⟨h.declares (by rw [hnode]; rfl), h.closes⟩
  body depth h hdefinition := h.body hdefinition depth
  parameter h hdefinition hp := h.parameter hdefinition hp

/-- The scope of a call is a child of the scope that the function closes
over, so its parent is where it is to be. -/
theorem lexical_creates (root : Node) : (lexical root).Creates := by
  intro frames s closure hholds hkind hfits
  have hscoped : Scoped root frames s := hholds
  obtain ⟨p, hp, houter⟩ := hfits closure rfl
  have hgrows : frames <+: frames ++ [p] := List.prefix_append ..
  have howner : ownerOf (frames ++ [p]) s.cells.size = some (some p) := by
    rw [hscoped.size]
    exact ownerOf_concat frames p
  have hcreated : Scoped root (frames ++ [p]) (s.create (some closure.scope)).2 := by
    refine ⟨?_, (hscoped.contains_of_grows hgrows).create ?_⟩
    · rw [Store.size_create, hscoped.size, List.length_append, List.length_singleton]
    · exact .inr ⟨p, closure.scope, howner, rfl, ownerOf_of_grows hgrows houter⟩
  exact ⟨frames ++ [p], hgrows, hcreated, p, howner, hp, hkind⟩

-- ================================================================ programs

/-- What lexical scoping comes to at a moment of a run: where the scopes
stand, and the task that is entered, if one is. Scopes are told apart by
their owners, and `frames` lists the owners of all scopes that the run
makes. -/
structure Moment.Lexical (root : Node) (frames : List Path) (history : List Moment)
    (m : Moment) : Prop where
  /-- Every scope but the first was made for a call of a function of the
  tree, and its parent belongs to the innermost function around that one. -/
  frame : ∀ {scope : ScopeId} {c : Cell}, m.store.cell? scope = some c → scope ≠ 0 →
    ∃ p closure outer, ownerOf frames scope = some (some p)
      ∧ (∃ m' ∈ history, m'.event = .called closure scope)
      ∧ root.at? p = some closure.definition ∧ closure.definition.kind = .function
      ∧ c.parent = some outer ∧ ownerOf frames outer = some (root.enclosing p)
  /-- The first scope has no parent. -/
  global : ∀ {c : Cell}, m.store.cell? 0 = some c → c.parent = none
  /-- Every name in a scope belongs to its owner. -/
  name : ∀ {scope : ScopeId} {c : Cell} {name : String}, m.store.cell? scope = some c →
    c.has name = true → ∃ owner, ownerOf frames scope = some owner ∧ Named root owner name
  /-- Every node is evaluated in a scope of the innermost function around
  it. -/
  entered : ∀ {t : Task}, m.event = .entered t → ∃ owner, ownerOf frames t.scope = some owner
    ∧ root.at? (position owner t.path) = some t.node
    ∧ root.enclosing (position owner t.path) = owner

theorem Moment.lexical_of_onRecord {root : Node} {frames : List Path} {w : Watched}
    (h : (lexical root).OnRecord 1 frames w) {m : Moment} (hm : m ∈ w.history) :
    m.Lexical root frames w.history := by
  have hshows := h.moments m hm
  obtain ⟨frames', hgrows, hholds⟩ := hshows.store
  have hscoped : Scoped root frames' m.store := hholds
  have hcontains := hscoped.contains_of_grows hgrows
  refine ⟨fun {scope c} hc hscope => ?_, fun hc => ?_, fun {scope c name} hc hname => ?_, ?_⟩
  · rcases hcontains.parent hc with ⟨rfl, -⟩ | ⟨p, outer, howner, hparent, houter⟩
    · exact absurd rfl hscope
    · -- the scope was made in this run, so the call is on record
      have hmade : scope < w.store.cells.size := by
        have hlt := Store.lt_size_of_cell? hc
        rw [hscoped.size] at hlt
        have hlen : frames'.length ≤ frames.length := List.IsPrefix.length_le hgrows
        rw [Scoped.size h.store]
        exact Nat.lt_of_lt_of_le hlt (Nat.succ_le_succ hlen)
      obtain ⟨m', hm', closure, hcalled⟩ := h.calls scope (Nat.pos_of_ne_zero hscope) hmade
      obtain ⟨p', howner', hp', hkind⟩ := (h.moments m' hm').called hcalled
      rw [howner, Option.some.injEq, Option.some.injEq] at howner'
      subst howner'
      exact ⟨p, closure, outer, howner, ⟨m', hm', hcalled⟩, hp', hkind, hparent, houter⟩
  · rcases hcontains.parent hc with ⟨-, hparent⟩ | ⟨p, outer, howner, -, -⟩
    · exact hparent
    · cases howner
  · obtain ⟨slot, hslot⟩ := Option.isSome_iff_exists.1 hname
    exact (hcontains.slot hc _ (Cell.mem_values_of_get? scope hslot)).1
  · intro t ht
    exact hshows.entered ht

/-- The first scope, with the predeclared functions in it, is on record. -/
theorem onRecord_createGlobal (root : Node) :
    (lexical root).OnRecord 1 [] (Scopes.createGlobal ({} : Watched)).2 := by
  have hempty : Store.Contains (Linked root []) (Allowed root []) (ClosesOver root []) {} := by
    refine ⟨fun hc => ?_, fun hc => ?_⟩
    · cases hc
    · cases hc
  have hmade : Scoped root [] (Store.create none {}).2 :=
    ⟨rfl, hempty.create (.inl ⟨rfl, rfl⟩)⟩
  have hdeclared : Scoped root []
      (Store.declare 0 "print" (.native "print") (Store.create none {}).2).2 := by
    refine (lexical root).declare hmade ?_ nofun
    exact ⟨none, rfl, .inr (List.mem_singleton.2 rfl)⟩
  refine ⟨hdeclared, fun m hm => ?_, fun scope hstart hlt => ?_⟩
  · rcases List.mem_cons.1 hm with rfl | hm
    · exact .changed hdeclared
    · rcases List.mem_singleton.1 hm with rfl
      exact .changed hmade
  · exact absurd (Nat.lt_of_lt_of_le hlt hstart) (Nat.lt_irrefl _)

/-- Scoping is lexical at every moment of the run of every tree. -/
theorem scoping_is_lexical (root : Node) :
    Eval.forget (Eval.watchProgram root) = runProgram root { scopes := {} }
      ∧ ∃ frames, ∀ m ∈ Eval.history root, m.Lexical root frames (Eval.history root) := by
  refine ⟨Eval.forget_watchProgram root, ?_⟩
  have hplaced : InPlace root [] ⟨0, 0, 0, [], root⟩ := ⟨none, rfl, rfl, rfl⟩
  obtain ⟨frames, -, hrecord⟩ := Eval.onRecord_watchTask (w := { scopes := _ })
    (lexical_creates root) (onRecord_createGlobal root) hplaced
  exact ⟨frames, fun m hm => Moment.lexical_of_onRecord hrecord hm⟩

end ScopedScript
