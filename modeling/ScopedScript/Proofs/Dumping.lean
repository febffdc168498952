/-
A dump determines its tree.

Two trees have the same dump only if they agree in everything but the spans
of parameters, which dumps leave out (`dump_determines_the_tree`). Numbers
agree if they are the same double; the two zeros differ, and there is only
one double that is not a number.

# From the text to the tree

Three things have to be found again. Where a line ends: no line break stands
inside of one, since quoted text has none. What a line says: the name of the
kind ends at the first space, a quoted text at its closing quote and a number
at the next space, so each field is known from the text that starts with it.
And which lines belong together: below a node stand the lines that are
further in than its own, up to the first that is not. The dump as a list of
rows, each with its depth, is the step in between (`rows`).
-/
import ScopedScript.Node.Dump
import ScopedScript.Proofs.Quoting
import ScopedScript.Proofs.Shortest

namespace ScopedScript

-- ================================================================== fields

/-- A text is known from one in which it ends at the first of some
character. -/
theorem append_cons_inj {α : Type} {a : α} {xs ys rest rest' : List α} (hx : a ∉ xs) (hy : a ∉ ys)
    (h : xs ++ a :: rest = ys ++ a :: rest') : xs = ys ∧ rest = rest' := by
  induction xs generalizing ys with
  | nil =>
      cases ys with
      | nil => exact ⟨rfl, (List.cons.inj h).2⟩
      | cons y ys =>
          cases (List.cons.inj h).1
          exact absurd (List.mem_cons_self ..) hy
  | cons x xs ih =>
      cases ys with
      | nil =>
          cases (List.cons.inj h).1
          exact absurd (List.mem_cons_self ..) hx
      | cons y ys =>
          obtain ⟨rfl, htail⟩ := List.cons.inj h
          obtain ⟨rfl, hrest⟩ :=
            ih (fun hmem => hx (.tail _ hmem)) (fun hmem => hy (.tail _ hmem)) htail
          exact ⟨rfl, hrest⟩

theorem Span.toList_render (s : Span) :
    s.render.toList = Nat.toDigits 10 s.start ++ '.' :: '.' :: Nat.toDigits 10 s.stop := by
  simp [Span.render]

theorem Span.mem_render {s : Span} {c : Char} (h : c ∈ s.render.toList) :
    c.isDigit = true ∨ c = '.' := by
  rw [toList_render] at h
  have hdigit {n : ℕ} (h : c ∈ Nat.toDigits 10 n) : c.isDigit = true :=
    Number.isDigit_of_mem_digits h
  simp only [List.mem_append, List.mem_cons] at h
  rcases h with h | rfl | rfl | h
  · exact .inl (hdigit h)
  · exact .inr rfl
  · exact .inr rfl
  · exact .inl (hdigit h)

/-- The text of a span determines the span. -/
theorem Span.render_inj {s t : Span} (h : s.render.toList = t.render.toList) : s = t := by
  have hpoint (n : ℕ) : '.' ∉ Nat.toDigits 10 n := fun hmem =>
    absurd (Number.isDigit_of_mem_digits hmem) (by decide)
  have hdigits {m n : ℕ} (h : Nat.toDigits 10 m = Nat.toDigits 10 n) : m = n := by
    rw [← Number.ofDigits_digits m, Number.digits, h]
    exact Number.ofDigits_digits n
  rw [toList_render, toList_render] at h
  obtain ⟨hstart, hrest⟩ := append_cons_inj (hpoint _) (hpoint _) h
  have hstart : s.start = t.start := hdigits hstart
  have hstop : s.stop = t.stop := hdigits (List.cons.inj hrest).2
  cases s
  cases t
  cases hstart
  cases hstop
  rfl

namespace Node

theorem toList_dumpField (name text : String) :
    (dumpField name text).toList = ' ' :: (name.toList ++ '=' :: text.toList) := by
  simp [dumpField]

/-- A quoted field is known from the text that starts with it. -/
theorem quoted_field_inj {name a b : String} {rest rest' : List Char}
    (h : (dumpField name (Text.quote a)).toList ++ rest
      = (dumpField name (Text.quote b)).toList ++ rest') : a = b ∧ rest = rest' := by
  simp only [toList_dumpField, List.cons_append, List.append_assoc, List.cons.injEq, true_and,
    List.append_cancel_left_eq] at h
  exact Text.quote_append_inj h

/-- A field without spaces is known from the text that starts with it and
goes on with a space. -/
theorem plain_field_inj {name a b : String} {rest rest' : List Char} (ha : ' ' ∉ a.toList)
    (hb : ' ' ∉ b.toList)
    (h : (dumpField name a).toList ++ ' ' :: rest = (dumpField name b).toList ++ ' ' :: rest') :
    a = b ∧ rest = rest' := by
  simp only [toList_dumpField, List.cons_append, List.append_assoc, List.cons.injEq, true_and,
    List.append_cancel_left_eq] at h
  obtain ⟨htext, hrest⟩ := append_cons_inj ha hb h
  exact ⟨String.toList_inj.1 htext, hrest⟩

/-- What is written of the parameters of a function. -/
def parameterFields (parameters : List Parameter) : List Char :=
  parameters.flatMap fun p => (dumpField "parameter" (Text.quote p.name)).toList

theorem toList_dumpFields_function (span : Span) (name : String) (parameters : List Parameter)
    (body : Node) :
    (Node.function span name parameters body).dumpFields.toList
      = (dumpField "name" (Text.quote name)).toList ++ parameterFields parameters := by
  simp [dumpFields, parameterFields, List.flatMap_map]

/-- The fields of parameters are known up to the span at the end of the
line. -/
theorem parameterFields_inj {ps qs : List Parameter} {rest rest' : List Char}
    (h : parameterFields ps ++ ' ' :: '@' :: rest = parameterFields qs ++ ' ' :: '@' :: rest') :
    ps.map (·.name) = qs.map (·.name) ∧ rest = rest' := by
  -- a field of a parameter cannot be taken for the span
  have hne (rest : List Char) (p : Parameter) (more : List Char) :
      (dumpField "parameter" (Text.quote p.name)).toList ++ more ≠ ' ' :: '@' :: rest := by
    simp [toList_dumpField]
  rw [parameterFields, parameterFields] at h
  obtain ⟨hnames, hspan⟩ := flatMap_append_inj (g := Parameter.name)
    (fun h => quoted_field_inj h) (hne rest) (hne rest') h
  exact ⟨hnames, (List.cons.inj (List.cons.inj hspan).2).2⟩

-- =================================================================== lines

/-- What a line says, without the spaces in front and the break at the
end. -/
def lineText (node : Node) : List Char :=
  node.kind.name.toList ++ (node.dumpFields.toList ++ ' ' :: '@' :: node.span.render.toList)

theorem toList_dumpLine (depth : ℕ) (node : Node) :
    (dumpLine depth node).toList
      = List.replicate (2 * depth) ' ' ++ (node.lineText ++ ['\n']) := by
  simp [dumpLine, indent, lineText]

theorem space_not_mem_name (kind : Kind) : ' ' ∉ kind.name.toList := by
  cases kind <;> decide

theorem Kind.name_inj {k l : Kind} (h : k.name = l.name) : k = l := by
  revert h
  cases k <;> cases l <;> decide

/-- The name of the kind is followed by a space. -/
theorem exists_fields (node : Node) :
    ∃ rest, node.dumpFields.toList ++ ' ' :: '@' :: node.span.render.toList = ' ' :: rest := by
  cases node <;> exact ⟨_, by simp [dumpFields, dumpField]; rfl⟩

/-- The line of a node says which kind it is. -/
theorem kind_of_lineText {m n : Node} (h : m.lineText = n.lineText) :
    m.kind = n.kind
      ∧ m.dumpFields.toList ++ ' ' :: '@' :: m.span.render.toList
        = n.dumpFields.toList ++ ' ' :: '@' :: n.span.render.toList := by
  obtain ⟨rest, hrest⟩ := m.exists_fields
  obtain ⟨rest', hrest'⟩ := n.exists_fields
  rw [lineText, lineText, hrest, hrest'] at h
  obtain ⟨hname, htail⟩ := append_cons_inj (space_not_mem_name _) (space_not_mem_name _) h
  rw [hrest, hrest', htail]
  exact ⟨Kind.name_inj (String.toList_inj.1 hname), rfl⟩

theorem break_not_mem_field {name text : String} (hname : '\n' ∉ name.toList)
    (htext : '\n' ∉ text.toList) : '\n' ∉ (dumpField name text).toList := by
  simp [toList_dumpField, hname, htext]

theorem break_not_mem_fields (node : Node) : '\n' ∉ node.dumpFields.toList := by
  have hquoted (name text : String) (hname : '\n' ∉ name.toList) :
      '\n' ∉ (dumpField name (Text.quote text)).toList :=
    break_not_mem_field hname (Text.break_not_mem_quote text)
  cases node with
  | root | assignment | parenthesized | call | block | ret => exact nofun
  | declaration span name => exact hquoted "name" name (by decide)
  | reference span name => exact hquoted "name" name (by decide)
  | string span value => exact hquoted "value" value (by decide)
  | readProperty span object property => exact hquoted "property" property (by decide)
  | number span value =>
      exact break_not_mem_field (by decide) fun hmem => absurd (Number.mem_dump hmem) (by decide)
  | boolean span value => exact break_not_mem_field (by decide) (by cases value <;> decide)
  | binary span operator left right =>
      exact break_not_mem_field (by decide) (by cases operator <;> decide)
  | function span name parameters body =>
      rw [toList_dumpFields_function, List.mem_append, not_or]
      refine ⟨hquoted "name" name (by decide), fun hmem => ?_⟩
      obtain ⟨p, -, hp⟩ := List.mem_flatMap.1 hmem
      exact hquoted "parameter" p.name (by decide) hp

/-- There is no line break in the line of a node. -/
theorem break_not_mem_lineText (node : Node) : '\n' ∉ node.lineText := by
  have hname : '\n' ∉ node.kind.name.toList := by
    cases node.kind <;> decide
  have hspan : '\n' ∉ node.span.render.toList := fun hmem =>
    absurd (Span.mem_render hmem) (by decide)
  simp [lineText, hname, hspan, break_not_mem_fields]

/-- The line of a node does not start with a space. -/
theorem head?_lineText (node : Node) : node.lineText.head? ≠ some ' ' := by
  have hname : node.kind.name.toList ≠ [] := by
    cases node.kind <;> decide
  rw [lineText, List.head?_append_of_ne_nil _ hname]
  exact fun hhead => space_not_mem_name _ (List.mem_of_head? hhead)

-- ==================================================================== rows

/-- A line and how far in it stands. -/
structure Row where
  depth : ℕ
  text : List Char
  unbroken : '\n' ∉ text
  flush : text.head? ≠ some ' '

/-- The characters of a row. -/
def Row.chars (r : Row) : List Char := List.replicate (2 * r.depth) ' ' ++ (r.text ++ ['\n'])

/-- How far in a line stands is known from it. -/
theorem spaces_append_inj {i j : ℕ} {xs ys : List Char} (hx : xs.head? ≠ some ' ')
    (hy : ys.head? ≠ some ' ')
    (h : List.replicate i ' ' ++ xs = List.replicate j ' ' ++ ys) : i = j ∧ xs = ys := by
  induction i generalizing j with
  | zero =>
      cases j with
      | zero => exact ⟨rfl, h⟩
      | succ j =>
          rw [List.replicate_zero, List.nil_append] at h
          exact absurd (by rw [h]; rfl) hx
  | succ i ih =>
      cases j with
      | zero =>
          rw [List.replicate_zero, List.nil_append] at h
          exact absurd (by rw [← h]; rfl) hy
      | succ j =>
          obtain ⟨rfl, hrest⟩ := ih (List.cons.inj h).2
          exact ⟨rfl, hrest⟩

theorem Row.chars_append_inj {r s : Row} {rest rest' : List Char}
    (h : r.chars ++ rest = s.chars ++ rest') : r = s ∧ rest = rest' := by
  have hunbroken (r : Row) : '\n' ∉ List.replicate (2 * r.depth) ' ' ++ r.text := by
    intro hmem
    rcases List.mem_append.1 hmem with hmem | hmem
    · exact absurd (List.eq_of_mem_replicate hmem) (by decide)
    · exact r.unbroken hmem
  have hchars (r : Row) (rest : List Char) :
      r.chars ++ rest = (List.replicate (2 * r.depth) ' ' ++ r.text) ++ '\n' :: rest := by
    simp [chars]
  rw [hchars, hchars] at h
  obtain ⟨hline, hrest⟩ := append_cons_inj (hunbroken r) (hunbroken s) h
  obtain ⟨hdepth, htext⟩ := spaces_append_inj r.flush s.flush hline
  have hdepth : r.depth = s.depth := by omega
  cases r
  cases s
  cases hdepth
  cases htext
  exact ⟨rfl, hrest⟩

/-- The rows of a text are known from it. -/
theorem rows_of_chars {rs ss : List Row} (h : rs.flatMap Row.chars = ss.flatMap Row.chars) :
    rs = ss := by
  have hne (r : Row) (more : List Char) : r.chars ++ more ≠ [] := by simp [Row.chars]
  rw [← List.append_nil (rs.flatMap _), ← List.append_nil (ss.flatMap _)] at h
  simpa using (flatMap_append_inj (g := id) Row.chars_append_inj hne hne h).1

/-- The row of a node. -/
def row (depth : ℕ) (node : Node) : Row :=
  ⟨depth, node.lineText, node.break_not_mem_lineText, node.head?_lineText⟩

/-- The rows of a tree: that of its node, and then those of its children. -/
def rows (depth : ℕ) (node : Node) : List Row :=
  node.row depth :: node.children.attach.flatMap fun child => child.1.rows (depth + 1)
termination_by sizeOf node
decreasing_by exact sizeOf_lt_of_mem_children child.2

/-- What holds of a node if it holds of its children holds of every node. -/
theorem children_induction {motive : Node → Prop}
    (step : ∀ node, (∀ child ∈ node.children, motive child) → motive node) (node : Node) :
    motive node :=
  step node fun child _ => children_induction step child
termination_by sizeOf node
decreasing_by exact sizeOf_lt_of_mem_children ‹_›

theorem rows_eq (depth : ℕ) (node : Node) :
    node.rows depth = node.row depth :: node.children.flatMap (rows (depth + 1)) := by
  rw [rows]
  simp [List.flatMap_def]

theorem dumpAt_eq (depth : ℕ) (node : Node) :
    node.dumpAt depth
      = dumpLine depth node ++ String.join (node.children.map (dumpAt (depth + 1))) := by
  rw [dumpAt]
  simp

/-- A dump is the text of its rows. -/
theorem toList_dumpAt (depth : ℕ) (node : Node) :
    (node.dumpAt depth).toList = (node.rows depth).flatMap Row.chars := by
  induction node using children_induction generalizing depth with
  | step node ih =>
      rw [dumpAt_eq, rows_eq, List.flatMap_cons, String.toList_append, toList_dumpLine]
      have hchildren : (String.join (node.children.map (dumpAt (depth + 1)))).toList
          = (node.children.flatMap (rows (depth + 1))).flatMap Row.chars := by
        rw [String.toList_join, List.flatMap_map, List.flatMap_assoc]
        exact List.flatMap_congr fun child hchild => ih child hchild (depth + 1)
      rw [hchildren]
      rfl

-- ==================================================================== trees

/-- The rows of a tree stand as far in as the tree, or further. -/
theorem le_depth_of_mem_rows {depth : ℕ} {node : Node} {r : Row} (h : r ∈ node.rows depth) :
    depth ≤ r.depth := by
  induction node using children_induction generalizing depth with
  | step node ih =>
      rw [rows_eq] at h
      rcases List.mem_cons.1 h with rfl | h
      · exact le_refl _
      · obtain ⟨child, hchild, hr⟩ := List.mem_flatMap.1 h
        exact (Nat.le_succ depth).trans (ih child hchild hr)

/-- The rows below a node end where a row does not stand further in. -/
theorem takeWhile_deeper {depth : ℕ} (node : Node) {rest : List Row}
    (hrest : ∀ r ∈ rest.head?, r.depth ≤ depth) :
    (node.children.flatMap (rows (depth + 1)) ++ rest).takeWhile (depth < ·.depth)
      = node.children.flatMap (rows (depth + 1)) := by
  have hdeeper : ∀ r ∈ node.children.flatMap (rows (depth + 1)),
      decide (depth < r.depth) = true := by
    intro r hr
    obtain ⟨child, -, hr⟩ := List.mem_flatMap.1 hr
    exact decide_eq_true (le_depth_of_mem_rows hr)
  rw [List.takeWhile_append_of_pos hdeeper]
  cases rest with
  | nil => simp
  | cons r rest =>
      have hr := hrest r rfl
      simp [Nat.not_lt.2 hr]

/-- The rows of a tree are known from rows that start with them. -/
theorem rows_append_inj {depth : ℕ} {m n : Node} {rest rest' : List Row}
    (hrest : ∀ r ∈ rest.head?, r.depth ≤ depth) (hrest' : ∀ r ∈ rest'.head?, r.depth ≤ depth)
    (h : m.rows depth ++ rest = n.rows depth ++ rest') :
    m.rows depth = n.rows depth ∧ rest = rest' := by
  have hrows : m.rows depth = n.rows depth := by
    rw [rows_eq, rows_eq, List.cons_append, List.cons_append, List.cons.injEq] at h
    rw [rows_eq, rows_eq, h.1, ← takeWhile_deeper m hrest, h.2, takeWhile_deeper n hrest']
  rw [hrows] at h
  exact ⟨hrows, List.append_cancel_left h⟩

/-- The rows of several trees at one depth are known from all of them. -/
theorem map_rows_of_flatMap {depth : ℕ} {ms ns : List Node}
    (h : ms.flatMap (rows depth) = ns.flatMap (rows depth)) :
    ms.map (rows depth) = ns.map (rows depth) := by
  have hhead (ns : List Node) : ∀ r ∈ (ns.flatMap (rows depth)).head?, r.depth ≤ depth := by
    cases ns with
    | nil => exact nofun
    | cons n ns =>
        rw [List.flatMap_cons, rows_eq]
        rintro r ⟨⟩
        exact le_refl _
  have hne (n : Node) (more : List Row) : n.rows depth ++ more ≠ [] := by simp [rows_eq]
  rw [← List.append_nil (ms.flatMap _), ← List.append_nil (ns.flatMap _)] at h
  refine (flatMap_append_inj (fun {m n ms ns} h => ?_) hne hne h).1
  simp only [List.append_nil] at h ⊢
  exact rows_append_inj (hhead ms) (hhead ns) h

end Node

-- ====================================================== spans of parameters

/-- The parameter without its span. -/
def Parameter.withoutSpan (p : Parameter) : Parameter := { p with span := ⟨0, 0⟩ }

theorem Parameter.map_withoutSpan {ps qs : List Parameter} (h : ps.map (·.name) = qs.map (·.name)) :
    ps.map withoutSpan = qs.map withoutSpan := by
  have hname : withoutSpan = (fun name => ⟨name, ⟨0, 0⟩⟩) ∘ Parameter.name := rfl
  rw [hname, ← List.map_map, ← List.map_map]
  exact congrArg _ h

namespace Node

mutual

/-- The tree without the spans of its parameters. -/
def withoutParameterSpans : Node → Node
  | .root span body => .root span (allWithoutParameterSpans body)
  | .block span body => .block span (allWithoutParameterSpans body)
  | .declaration span name => .declaration span name
  | .assignment span target value =>
      .assignment span target.withoutParameterSpans value.withoutParameterSpans
  | .reference span name => .reference span name
  | .number span value => .number span value
  | .string span value => .string span value
  | .boolean span value => .boolean span value
  | .binary span operator left right =>
      .binary span operator left.withoutParameterSpans right.withoutParameterSpans
  | .parenthesized span inner => .parenthesized span inner.withoutParameterSpans
  | .readProperty span object property => .readProperty span object.withoutParameterSpans property
  | .call span callee arguments =>
      .call span callee.withoutParameterSpans (allWithoutParameterSpans arguments)
  | .function span name parameters body =>
      .function span name (parameters.map Parameter.withoutSpan) body.withoutParameterSpans
  | .ret span none => .ret span none
  | .ret span (some value) => .ret span (some value.withoutParameterSpans)

/-- The trees without the spans of their parameters. -/
def allWithoutParameterSpans : List Node → List Node
  | [] => []
  | node :: rest => node.withoutParameterSpans :: allWithoutParameterSpans rest

end

theorem allWithoutParameterSpans_eq (nodes : List Node) :
    allWithoutParameterSpans nodes = nodes.map withoutParameterSpans := by
  induction nodes with
  | nil => rfl
  | cons node rest ih => rw [allWithoutParameterSpans, ih, List.map_cons]

theorem children_withoutParameterSpans (node : Node) :
    node.withoutParameterSpans.children = node.children.map withoutParameterSpans := by
  cases node with
  | root | block | call =>
      simp [withoutParameterSpans, children, allWithoutParameterSpans_eq]
  | ret span value => cases value <;> rfl
  | _ => rfl

/-- The spans of parameters do not stand in the line of a function. -/
theorem dumpLine_withoutParameterSpans (depth : ℕ) (node : Node) :
    dumpLine depth node.withoutParameterSpans = dumpLine depth node := by
  cases node with
  | function span name parameters body =>
      simp [withoutParameterSpans, dumpLine, dumpFields, kind, Node.span, Parameter.withoutSpan,
        Function.comp_def]
  | ret span value => cases value <;> rfl
  | _ => rfl

theorem dumpAt_withoutParameterSpans (depth : ℕ) (node : Node) :
    node.withoutParameterSpans.dumpAt depth = node.dumpAt depth := by
  induction node using children_induction generalizing depth with
  | step node ih =>
      rw [dumpAt_eq, dumpAt_eq, dumpLine_withoutParameterSpans, children_withoutParameterSpans,
        List.map_map]
      congr 2
      exact List.map_congr_left fun child hchild => ih child hchild (depth + 1)

/-- The span is what is left of a line after its fields. -/
theorem span_of_fields {s t : Span} {fields : List Char}
    (h : fields ++ ' ' :: '@' :: s.render.toList = fields ++ ' ' :: '@' :: t.render.toList) :
    s = t := by
  have hspan := List.append_cancel_left h
  exact Span.render_inj (List.cons.inj (List.cons.inj hspan).2).2

/-- A quoted field and the span after it. -/
theorem quoted_of_fields {s t : Span} {name a b : String}
    (h : (dumpField name (Text.quote a)).toList ++ ' ' :: '@' :: s.render.toList
      = (dumpField name (Text.quote b)).toList ++ ' ' :: '@' :: t.render.toList) :
    a = b ∧ s = t := by
  obtain ⟨rfl, -⟩ := quoted_field_inj h
  exact ⟨rfl, span_of_fields h⟩

/-- A field without spaces and the span after it. -/
theorem plain_of_fields {s t : Span} {name a b : String} (ha : ' ' ∉ a.toList)
    (hb : ' ' ∉ b.toList)
    (h : (dumpField name a).toList ++ ' ' :: '@' :: s.render.toList
      = (dumpField name b).toList ++ ' ' :: '@' :: t.render.toList) :
    a = b ∧ s = t := by
  obtain ⟨rfl, -⟩ := plain_field_inj ha hb h
  exact ⟨rfl, span_of_fields h⟩

/-- Nodes with the same line whose children are the same are the same. -/
theorem eq_of_lineText {m n : Node} (h : m.lineText = n.lineText)
    (hchildren : m.children.map withoutParameterSpans = n.children.map withoutParameterSpans) :
    m.withoutParameterSpans = n.withoutParameterSpans := by
  obtain ⟨hkind, hfields⟩ := kind_of_lineText h
  cases m with
  | root span body =>
      cases n with
      | root span' body' =>
          obtain rfl : span = span' := span_of_fields hfields
          rw [withoutParameterSpans, withoutParameterSpans, allWithoutParameterSpans_eq,
            allWithoutParameterSpans_eq]
          exact congrArg _ hchildren
      | _ => cases hkind
  | block span body =>
      cases n with
      | block span' body' =>
          obtain rfl : span = span' := span_of_fields hfields
          rw [withoutParameterSpans, withoutParameterSpans, allWithoutParameterSpans_eq,
            allWithoutParameterSpans_eq]
          exact congrArg _ hchildren
      | _ => cases hkind
  | declaration span name =>
      cases n with
      | declaration span' name' =>
          obtain ⟨rfl, rfl⟩ : name = name' ∧ span = span' := quoted_of_fields hfields
          rfl
      | _ => cases hkind
  | assignment span target value =>
      cases n with
      | assignment span' target' value' =>
          obtain rfl : span = span' := span_of_fields hfields
          obtain ⟨htarget, hrest⟩ := List.cons.inj hchildren
          obtain ⟨hvalue, -⟩ := List.cons.inj hrest
          rw [withoutParameterSpans, withoutParameterSpans, htarget, hvalue]
      | _ => cases hkind
  | reference span name =>
      cases n with
      | reference span' name' =>
          obtain ⟨rfl, rfl⟩ : name = name' ∧ span = span' := quoted_of_fields hfields
          rfl
      | _ => cases hkind
  | number span value =>
      cases n with
      | number span' value' =>
          have hspace (x : Float) : ' ' ∉ (Number.dump x).toList := fun hmem =>
            absurd (Number.mem_dump hmem) (by decide)
          obtain ⟨hvalue, rfl⟩ : Number.dump value = Number.dump value' ∧ span = span' :=
            plain_of_fields (hspace value) (hspace value') hfields
          rw [Number.dump_injective hvalue]
      | _ => cases hkind
  | string span value =>
      cases n with
      | string span' value' =>
          obtain ⟨rfl, rfl⟩ : value = value' ∧ span = span' := quoted_of_fields hfields
          rfl
      | _ => cases hkind
  | boolean span value =>
      cases n with
      | boolean span' value' =>
          have hspace (b : Bool) : ' ' ∉ (if b then "true" else "false" : String).toList := by
            cases b <;> decide
          obtain ⟨hvalue, rfl⟩ : _ ∧ span = span' :=
            plain_of_fields (hspace value) (hspace value') hfields
          obtain rfl : value = value' := by
            revert hvalue
            cases value <;> cases value' <;> decide
          rfl
      | _ => cases hkind
  | binary span operator left right =>
      cases n with
      | binary span' operator' left' right' =>
          have hspace (op : Operator) : ' ' ∉ op.symbol.toList := by
            cases op <;> decide
          obtain ⟨hsymbol, rfl⟩ : operator.symbol = operator'.symbol ∧ span = span' :=
            plain_of_fields (hspace operator) (hspace operator') hfields
          have hoperator : some operator = some operator' := by
            rw [← Operator.ofSymbol?_symbol, hsymbol, Operator.ofSymbol?_symbol]
          cases hoperator
          obtain ⟨hleft, hrest⟩ := List.cons.inj hchildren
          obtain ⟨hright, -⟩ := List.cons.inj hrest
          rw [withoutParameterSpans, withoutParameterSpans, hleft, hright]
      | _ => cases hkind
  | parenthesized span inner =>
      cases n with
      | parenthesized span' inner' =>
          obtain rfl : span = span' := span_of_fields hfields
          obtain ⟨hinner, -⟩ := List.cons.inj hchildren
          rw [withoutParameterSpans, withoutParameterSpans, hinner]
      | _ => cases hkind
  | readProperty span object property =>
      cases n with
      | readProperty span' object' property' =>
          obtain ⟨rfl, rfl⟩ : property = property' ∧ span = span' := quoted_of_fields hfields
          obtain ⟨hobject, -⟩ := List.cons.inj hchildren
          rw [withoutParameterSpans, withoutParameterSpans, hobject]
      | _ => cases hkind
  | call span callee arguments =>
      cases n with
      | call span' callee' arguments' =>
          obtain rfl : span = span' := span_of_fields hfields
          obtain ⟨hcallee, harguments⟩ := List.cons.inj hchildren
          rw [withoutParameterSpans, withoutParameterSpans, allWithoutParameterSpans_eq,
            allWithoutParameterSpans_eq, hcallee]
          exact congrArg _ harguments
      | _ => cases hkind
  | function span name parameters body =>
      cases n with
      | function span' name' parameters' body' =>
          rw [toList_dumpFields_function, toList_dumpFields_function, List.append_assoc,
            List.append_assoc] at hfields
          obtain ⟨rfl, hrest⟩ := quoted_field_inj hfields
          obtain ⟨hnames, hspan⟩ := parameterFields_inj hrest
          obtain rfl : span = span' := Span.render_inj hspan
          obtain ⟨hbody, -⟩ := List.cons.inj hchildren
          rw [withoutParameterSpans, withoutParameterSpans, hbody, Parameter.map_withoutSpan hnames]
      | _ => cases hkind
  | ret span value =>
      cases n with
      | ret span' value' =>
          obtain rfl : span = span' := span_of_fields hfields
          cases value with
          | none =>
              cases value' with
              | none => rfl
              | some value' => cases hchildren
          | some value =>
              cases value' with
              | none => cases hchildren
              | some value' =>
                  obtain ⟨hvalue, -⟩ := List.cons.inj hchildren
                  rw [withoutParameterSpans, withoutParameterSpans, hvalue]
      | _ => cases hkind

/-- What the rows of each node determine is determined by the rows of all. -/
theorem map_eq_of_rows {depth : ℕ} {ms ns : List Node} {f : Node → Node}
    (hf : ∀ m ∈ ms, ∀ n, m.rows depth = n.rows depth → f m = f n)
    (h : ms.map (rows depth) = ns.map (rows depth)) : ms.map f = ns.map f := by
  induction ms generalizing ns with
  | nil => rw [List.map_eq_nil_iff.1 h.symm]
  | cons m ms ih =>
      obtain ⟨n, ns, rfl, hn, hrest⟩ := List.map_eq_cons_iff.1 h.symm
      rw [List.map_cons, List.map_cons, hf m (.head _) n hn.symm,
        ih (fun m hm => hf m (.tail _ hm)) hrest.symm]

/-- The rows of a tree determine the tree. -/
theorem eq_of_rows {depth : ℕ} {m n : Node} (h : m.rows depth = n.rows depth) :
    m.withoutParameterSpans = n.withoutParameterSpans := by
  induction m using children_induction generalizing depth n with
  | step m ih =>
      rw [rows_eq, rows_eq, List.cons.injEq] at h
      have hline : m.lineText = n.lineText := congrArg Row.text h.1
      refine eq_of_lineText hline (map_eq_of_rows ?_ (map_rows_of_flatMap h.2))
      exact fun child hchild child' hrows => ih child hchild hrows

/-- The dump of a tree determines the tree: two trees have the same dump just
if they agree in their kinds, names, operators, values, spans and children,
and in all but the spans of their parameters. -/
theorem dump_determines_the_tree (m n : Node) :
    m.dump = n.dump ↔ m.withoutParameterSpans = n.withoutParameterSpans := by
  constructor
  · intro h
    have hchars := congrArg String.toList h
    rw [dump, dump, toList_dumpAt, toList_dumpAt] at hchars
    exact eq_of_rows (rows_of_chars hchars)
  · intro h
    rw [dump, dump, ← dumpAt_withoutParameterSpans, h, dumpAt_withoutParameterSpans]

end Node

end ScopedScript
