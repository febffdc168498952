/-
Reading goes forward and comes to an end.

Whatever is read at a cursor, a statement or a construct that was asked
for, the cursor is moved forward or stays where it is. If something has
been read then it has moved, and what has been read is one node, or the
two nodes of a declaration with a value.

# Where the cursor is

A reply says how many tokens are left, at most, but not which. Each reader
takes tokens off the front and hands the others on, so what is left is an
end of what there was (`process_suffix`), and that is a position of the
cursor. This has to be shown of errors as well, which leave the cursor
where they came up; the grammar says nothing of those, so the readers are
gone through one by one.

# Returning

A construct reads its parts by reading again, and a part has fewer tokens
than the whole. So there are at most as many readings inside of each other
as there are tokens: `levels` cuts the recursion off, and what is put in at
the bottom makes no difference (`levels_eq_process`). The loop over the
statements of a program goes round at most once for each token
(`cutOff_round`).
-/
import ScopedScript.Cursor
import ScopedScript.Proofs.Placing
import ScopedScript.Proofs.Termination

namespace ScopedScript

namespace Grammar

/-- A statement that does not begin with `var` makes one node. -/
theorem Derives.single_of_statement {t : Token} {us next : List Token} {nodes : List Node}
    (h : Derives .statement (t :: us) next nodes) (ht : t.kind ≠ .variableDeclaration) :
    ∃ node, nodes = [node] := by
  cases h with
  | reference _ htail => exact htail.single_of_tail
  | number _ _ htail => exact htail.single_of_tail
  | string _ htail => exact htail.single_of_tail
  | parenthesized _ _ _ _ _ htail => exact htail.single_of_tail
  | blockStatement hblock =>
      cases hblock
      exact ⟨_, rfl⟩
  | declaration hvar => exact absurd hvar ht
  | initializedDeclaration hvar => exact absurd hvar ht
  | boolean | function | bareReturn | returnValue => exact ⟨_, rfl⟩

end Grammar

namespace Build

open Grammar Reply

-- ============================================================ what is left

namespace Reply

variable {m n : Nat} {α β : Type}

@[simp] theorem rest_widen (h : m ≤ n) (r : Reply m α) : (r.widen h).rest = r.rest := by
  cases r <;> rfl

@[simp] theorem rest_within (context : Context) (r : Reply n α) :
    (r.within context).rest = r.rest := by
  cases r <;> rfl

/-- What goes on from a value stays among the tokens as long as each of the
two does. -/
theorem rest_andThen {r : Reply m α} {h : m ≤ n}
    {next : α → (rest : List Token) → rest.length < m → Reply n β} {ts : List Token}
    (hr : r.rest <:+ ts)
    (hnext : ∀ a us shorter, us <:+ ts → (next a us shorter).rest <:+ ts) :
    (r.andThen h next).rest <:+ ts := by
  cases r with
  | ok a us shorter => exact hnext a us shorter hr
  | fail error us noLonger => exact hr

/-- For a value at least one token was used up. -/
theorem length_rest_lt {r : Reply n α} {a : α} (h : r.result = .ok a) : r.rest.length < n := by
  cases r with
  | ok a us shorter => exact shorter
  | fail error us noLonger => cases h

end Reply

/-- What the reader leaves are the last ones of its tokens. -/
def Nested.Advances {n : Nat} (nested : Nested n) : Prop :=
  ∀ (ts : List Token) (h : ts.length < n) (left : Option Node), (nested ts h left).rest <:+ ts

/-- Reading with a smaller bound reads the same. -/
theorem Nested.Advances.limit {m n : Nat} {nested : Nested n} (hnested : nested.Advances)
    (h : m ≤ n) : (nested.limit h).Advances :=
  fun ts hlt left => hnested ts (Nat.lt_of_lt_of_le hlt h) left

theorem skipNewLines_suffix (ts : List Token) : skipNewLines ts <:+ ts := List.dropWhile_suffix _

theorem skipSeparators_suffix (ts : List Token) : skipSeparators ts <:+ ts :=
  List.dropWhile_suffix _

section Parts

variable {n : Nat} {ts : List Token}

/-- A required token is used up if it is there, and otherwise nothing is. -/
theorem require_suffix (required : Required) (stop : Nat) (ts : List Token) :
    (require required stop ts).rest <:+ ts := by
  cases ts with
  | nil => exact List.suffix_rfl
  | cons t rest =>
      show Reply.rest (if t.kind = required.kind then _ else _) <:+ t :: rest
      by_cases hkind : t.kind = required.kind
      · rw [if_pos hkind]
        exact List.suffix_cons t rest
      · rw [if_neg hkind]
        exact List.suffix_rfl

variable {nested : Nested n} (hnested : nested.Advances)

include hnested

/-- An operand that is refused is used up nevertheless. -/
theorem operand_suffix (place : Operand) (h : ts.length < n) :
    (operand nested place ts h).rest <:+ ts := by
  refine rest_andThen (hnested ts h none) fun nodes rest shorter hrest => ?_
  cases single place nodes with
  | ok node => exact hrest
  | error error => exact hrest

/-- What goes on uses up more, what does not uses up nothing. -/
theorem chain_suffix (node : Node) (h : ts.length < n) : (chain nested node ts h).rest <:+ ts := by
  unfold chain
  by_cases hcontinues : continues ts = true
  · rw [if_pos hcontinues, rest_widen]
    exact hnested ts h (some node)
  · rw [if_neg hcontinues]
    exact List.suffix_rfl

/-- Arguments use up tokens from the front. The induction is on the tokens
left. -/
theorem arguments_suffix (opening : Span) (done : List Node) (h : ts.length < n) :
    (arguments nested opening done ts h).rest <:+ ts := by
  induction hn : ts.length using Nat.strongRecOn generalizing ts done with
  | ind m ih =>
      have hskip := skipNewLines_suffix ts
      rw [arguments]
      split
      · exact List.nil_suffix
      · next t rest hrest =>
        rw [hrest] at hskip
        have hrest' : rest <:+ ts := (List.suffix_cons t rest).trans hskip
        by_cases hclose : t.kind = .closeParen
        · rw [if_pos hclose]
          exact hrest'
        · rw [if_neg hclose]
          refine rest_andThen ?_ fun argument after shorter hafter => ?_
          · rw [rest_within]
            exact (operand_suffix hnested .argument _).trans hskip
          · have hskip' := skipNewLines_suffix after
            dsimp only
            split
            · exact List.nil_suffix
            · next next left hnext =>
              rw [hnext] at hskip'
              have hleft : left <:+ ts := (List.suffix_cons next left).trans (hskip'.trans hafter)
              by_cases hcomma : next.kind = .comma
              · rw [if_pos hcomma]
                refine (ih left.length ?_ _ _ rfl).trans hleft
                have hlen := hskip.length_le
                have hlen' := hskip'.length_le
                simp only [List.length_cons] at hlen hlen' shorter
                omega
              · rw [if_neg hcomma]
                by_cases hend : next.kind = .closeParen
                · rw [if_pos hend]
                  exact hleft
                · rw [if_neg hend]
                  exact hskip'.trans hafter

/-- The same for statements. -/
theorem statements_suffix (opening : Span) (done : List Node) (h : ts.length < n) :
    (statements nested opening done ts h).rest <:+ ts := by
  induction hn : ts.length using Nat.strongRecOn generalizing ts done with
  | ind m ih =>
      have hskip := skipSeparators_suffix ts
      rw [statements]
      split
      · exact List.nil_suffix
      · next t rest hrest =>
        rw [hrest] at hskip
        by_cases hclose : t.kind = .closeBlock
        · rw [if_pos hclose]
          exact (List.suffix_cons t rest).trans hskip
        · rw [if_neg hclose]
          refine rest_andThen ?_ fun nodes after shorter hafter => ?_
          · rw [rest_within]
            exact (hnested _ _ none).trans hskip
          · refine (ih after.length ?_ _ _ rfl).trans hafter
            have hlen := hskip.length_le
            simp only [List.length_cons] at hlen shorter
            omega

end Parts

section Constructs

variable {n : Nat} {token : Token} {rest : List Token} {left : Option Node}

/-- What is refused since it does not stand alone has used up its first token
only. -/
theorem alone_suffix {α : Type} {h : rest.length < n} {next : Reply n α}
    (hnext : next.rest <:+ rest) : (alone left token rest h next).rest <:+ rest := by
  cases left with
  | none => exact hnext
  | some node => exact List.suffix_rfl

theorem joined_suffix {α : Type} {h : rest.length < n} {next : Node → Reply n α}
    (hnext : ∀ node, (next node).rest <:+ rest) :
    (joined left token rest h next).rest <:+ rest := by
  cases left with
  | none => exact List.suffix_rfl
  | some node => exact hnext node

variable (stop : Nat) {nested : Nested (rest.length + 1)} (hnested : nested.Advances)

include hnested

theorem number_suffix : (number token rest nested left).rest <:+ rest := by
  refine alone_suffix ?_
  cases Number.read? token.text with
  | none => exact List.suffix_rfl
  | some value => exact chain_suffix hnested _ _

theorem assignment_suffix : (assignment token rest nested left).rest <:+ rest := by
  refine joined_suffix fun target => ?_
  refine rest_andThen ?_ fun value after shorter hafter => hafter
  rw [rest_within]
  exact operand_suffix hnested .value _

theorem binary_suffix : (binary token rest nested left).rest <:+ rest := by
  refine joined_suffix fun first => ?_
  cases Operator.ofSymbol? token.text with
  | none => exact List.suffix_rfl
  | some operator =>
      refine rest_andThen ?_ fun second after shorter hafter => hafter
      rw [rest_within]
      exact operand_suffix hnested .operand _

theorem call_suffix (callee : Node) : (call token rest nested callee).rest <:+ rest := by
  refine rest_andThen ?_ fun (args, closing) after shorter hafter => ?_
  · rw [rest_within]
    exact arguments_suffix hnested _ _ _
  · exact (chain_suffix hnested _ shorter).trans hafter

theorem parenthesized_suffix : (parenthesized stop token rest nested).rest <:+ rest := by
  unfold parenthesized
  refine rest_andThen ?_ fun inner after shorter hafter => ?_
  · rw [rest_within]
    exact (operand_suffix hnested .expression _).trans (skipNewLines_suffix rest)
  · have hskip := (skipNewLines_suffix after).trans hafter
    refine rest_andThen ?_ fun closing last shorter' hlast => ?_
    · rw [rest_within]
      exact (require_suffix .closeParen stop _).trans hskip
    · exact (chain_suffix hnested _ _).trans hlast

theorem openParen_suffix : (openParen stop token rest nested left).rest <:+ rest := by
  cases left with
  | none => exact parenthesized_suffix stop hnested
  | some callee => exact call_suffix hnested callee

theorem readProperty_suffix : (readProperty stop token rest nested left).rest <:+ rest := by
  refine joined_suffix fun object => ?_
  refine rest_andThen (require_suffix .propertyName stop rest) fun name after shorter hafter => ?_
  exact (chain_suffix hnested _ _).trans hafter

theorem block_suffix : (block token rest nested left).rest <:+ rest := by
  refine alone_suffix (rest_andThen (statements_suffix hnested _ _ _) ?_)
  exact fun (body, closing) after shorter hafter => hafter

/-- The value of a declaration is read behind the name. -/
theorem variableDeclaration_suffix :
    (variableDeclaration stop token rest nested left).rest <:+ rest := by
  refine alone_suffix ?_
  refine rest_andThen (require_suffix .variableName stop rest) fun name after shorter hafter => ?_
  cases after with
  | nil => exact hafter
  | cons equals value =>
      dsimp only
      by_cases hassign : equals.kind = .assign
      · rw [if_pos hassign]
        refine rest_andThen ?_ fun nodes last shorter' hlast => hlast
        rw [rest_within]
        refine (assignment_suffix (hnested.limit _)).trans ?_
        exact (List.suffix_cons equals value).trans hafter
      · rw [if_neg hassign]
        exact hafter

theorem function_suffix : (function stop token rest nested left).rest <:+ rest := by
  refine alone_suffix ?_
  have hskip := skipNewLines_suffix rest
  split
  · exact List.suffix_rfl
  · dsimp only
    split
    · exact List.nil_suffix
    · next brace inner hbrace =>
      rw [hbrace] at hskip
      by_cases hopen : brace.kind = .openBlock
      · rw [if_pos hopen]
        refine rest_andThen ?_ fun nodes after shorter hafter => ?_
        · rw [rest_within]
          exact (hnested _ _ none).trans hskip
        · split
          · exact hafter
          · exact hafter
      · rw [if_neg hopen]
        exact hskip

theorem ret_suffix : (ret token rest nested left).rest <:+ rest := by
  refine alone_suffix ?_
  cases rest with
  | nil => exact List.suffix_rfl
  | cons next more =>
      show Reply.rest (if (next.kind.isSeparator || next.kind == .closeBlock) = true then _ else _)
        <:+ next :: more
      by_cases hend : (next.kind.isSeparator || next.kind == .closeBlock) = true
      · rw [if_pos hend]
        exact List.suffix_rfl
      · rw [if_neg hend]
        refine rest_andThen ?_ fun value after shorter hafter => hafter
        rw [rest_within]
        exact operand_suffix hnested .returnValue _

end Constructs

/-- A construct leaves an end of the tokens, whatever token it is read at. -/
theorem read_suffix (construct : Construct) (stop : Nat) {ts : List Token}
    {nested : Nested ts.length} (hnested : nested.Advances) (left : Option Node) :
    (read construct stop ts nested left).rest <:+ ts := by
  cases ts with
  | nil => exact List.suffix_rfl
  | cons token rest =>
      refine List.IsSuffix.trans ?_ (List.suffix_cons token rest)
      cases construct with
      | reference => exact alone_suffix (h := Nat.lt_succ_self _) (chain_suffix hnested _ _)
      | number => exact number_suffix hnested
      | string => exact alone_suffix (h := Nat.lt_succ_self _) (chain_suffix hnested _ _)
      | boolean => exact alone_suffix (h := Nat.lt_succ_self _) List.suffix_rfl
      | assignment => exact assignment_suffix hnested
      | binary => exact binary_suffix hnested
      | openParen => exact openParen_suffix stop hnested
      | readProperty => exact readProperty_suffix stop hnested
      | block => exact block_suffix hnested
      | variableDeclaration => exact variableDeclaration_suffix stop hnested
      | function => exact function_suffix stop hnested
      | ret => exact ret_suffix hnested

theorem dispatch_suffix (stop : Nat) {ts : List Token} {nested : Nested ts.length}
    (hnested : nested.Advances) (left : Option Node) :
    (dispatch stop ts nested left).rest <:+ ts := by
  cases ts with
  | nil => exact List.suffix_rfl
  | cons token rest =>
      unfold dispatch
      dsimp only
      cases Construct.ofToken? token.kind with
      | none => exact List.suffix_rfl
      | some construct => exact read_suffix construct stop hnested left

/-- Reading inside uses up tokens from the front. The induction is on the
bound. -/
theorem reader_advances (stop n : Nat) : (reader stop : Nested n).Advances := by
  induction n with
  | zero => exact fun ts h _ => absurd h (Nat.not_lt_zero _)
  | succ n ih =>
      intro ts h left
      show (process stop ts left).rest <:+ ts
      rw [process_eq_dispatch]
      exact dispatch_suffix stop (fun us hus l => ih us (by omega) l) left

/-- Reading leaves an end of the tokens. -/
theorem process_suffix (stop : Nat) (ts : List Token) (left : Option Node) :
    (process stop ts left).rest <:+ ts :=
  reader_advances stop _ ts (Nat.lt_succ_self _) left

-- ============================================================= what is read

/-- A `var` with a value is at the beginning of the tokens. -/
def Initializes (ts : List Token) (var name : Token) : Prop :=
  ∃ equals rest, ts = var :: name :: equals :: rest ∧ var.kind = .variableDeclaration
    ∧ name.kind = .identifier ∧ equals.kind = .assign

/-- What is read is one node, or two if it is a declaration with a value. -/
theorem nodes_of_yields {stop : Nat} {ts rest : List Token} {left : Option Node}
    {nodes : List Node} (h : (process stop ts left).Yields nodes rest) :
    ((∃ node, nodes = [node]) ∧ ∀ var name, ¬Initializes ts var name)
      ∨ ∃ var name value, Initializes ts var name
        ∧ nodes = [.declaration (var.span.union name.span) name.text,
          .assignment (name.span.union value.span) (.reference name.span name.text) value] := by
  obtain ⟨t, us, construct, rfl, hkind, hread⟩ := yields_process.1 h
  by_cases hvar : construct = .variableDeclaration
  · subst hvar
    obtain ⟨-, name, vs, rfl, hname, hcases⟩ := yields_variableDeclaration.1 hread
    rcases hcases with ⟨hnext, rfl, -⟩ | ⟨equals, ws, value, rfl, hequals, -, rfl⟩
    · refine .inl ⟨⟨_, rfl⟩, fun var name' hinit => ?_⟩
      obtain ⟨equals, rest', hts, -, -, hequals⟩ := hinit
      cases hts
      exact hnext equals rfl hequals
    · exact .inr ⟨t, name, value, ⟨equals, ws, rfl, hkind, hname, hequals⟩, rfl⟩
  · have ht : t.kind ≠ .variableDeclaration := by
      rw [hkind]
      cases construct with
      | variableDeclaration => exact absurd rfl hvar
      | _ => decide
    refine .inl ⟨?_, fun var name hinit => ?_⟩
    · obtain ⟨vs, hvs, hderives⟩ := sound stop _ (Nat.lt_succ_self _) h
      cases left with
      | some node => exact hderives.single_of_tail
      | none =>
          obtain ⟨u, ws, rfl⟩ := List.exists_cons_of_ne_nil hderives.tokens_ne_nil
          cases hvs
          exact hderives.single_of_statement ht
    · obtain ⟨equals, rest', hts, hkind', -, -⟩ := hinit
      cases hts
      exact ht hkind'

-- =============================================================== returning

/-- A reader of any tokens, given the left operand if there is one. -/
abbrev Reader := (ts : List Token) → Option Node → Reply ts.length (List Node)

/-- The first `n` levels of reading, with `seed` in place of the levels
below. -/
def levels (stop : Nat) (seed : Reader) : Nat → Reader
  | 0 => seed
  | n + 1 => fun ts left => dispatch stop ts (fun us _ l => levels stop seed n us l) left

/-- More levels than there are tokens are all levels. -/
theorem levels_eq_process (stop : Nat) (seed : Reader) {n : Nat} {ts : List Token}
    (h : ts.length < n) (left : Option Node) :
    levels stop seed n ts left = process stop ts left := by
  induction n generalizing ts left with
  | zero => exact absurd h (Nat.not_lt_zero _)
  | succ n ih =>
      rw [process_eq_dispatch]
      show dispatch stop ts _ left = dispatch stop ts _ left
      congr 1
      funext us hus l
      exact ih (by omega) l

end Build

open Build

-- ================================================================= cursors

namespace Cursor

/-- The cursor behind the first `i` tokens. -/
def past (tokens : List Token) (i : Nat) : Cursor := ⟨tokens.drop i, endOfTokens tokens⟩

/-- What was read at a position left the cursor at a position that is not
before it, and behind it if there are nodes. -/
def Advances (tokens : List Token) (i : Nat) (answer : Except Error (List Node) × Cursor) : Prop :=
  ∃ j, i ≤ j ∧ j ≤ tokens.length ∧ answer.2 = past tokens j
    ∧ ∀ nodes, answer.1 = .ok nodes → i < j

/-- A cursor that is set to the rest of a reply has gone on to a place in the
tokens. -/
theorem advances_after {tokens : List Token} {i : Nat} (hi : i ≤ tokens.length)
    {reply : Reply (past tokens i).rest.length (List Node)}
    (h : reply.rest <:+ (past tokens i).rest) :
    Advances tokens i ((past tokens i).after reply) := by
  have hlength : (past tokens i).rest.length = tokens.length - i := List.length_drop
  have hle := h.length_le
  refine ⟨i + ((past tokens i).rest.length - reply.rest.length), by omega, by omega, ?_,
    fun nodes hnodes => ?_⟩
  · show Cursor.mk reply.rest _ = Cursor.mk (tokens.drop _) _
    rw [← List.drop_drop]
    exact congrArg (Cursor.mk · _) (List.suffix_iff_eq_drop.1 h)
  · have hlt := reply.length_rest_lt hnodes
    omega

/-- Reads at the cursor with so many levels of reading. -/
def processTo (c : Cursor) (seed : Reader) (n : Nat) (left : Option Node) :
    Except Error (List Node) × Cursor :=
  c.after (levels c.stop seed n c.rest left)

/-- Reads a given construct at the cursor with so many levels of reading
inside of it. -/
def readTo (c : Cursor) (seed : Reader) (n : Nat) (construct : Construct) (left : Option Node) :
    Except Error (List Node) × Cursor :=
  c.after (Build.read construct c.stop c.rest (fun ts _ l => levels c.stop seed n ts l) left)

/-- With more levels than there are tokens, what is read below them does not
matter. -/
theorem processTo_eq (c : Cursor) (seed : Reader) {n : Nat} (h : c.rest.length < n)
    (left : Option Node) : c.processTo seed n left = c.process left := by
  rw [processTo, levels_eq_process c.stop seed h]
  rfl

theorem readTo_eq (c : Cursor) (seed : Reader) {n : Nat} (h : c.rest.length < n)
    (construct : Construct) (left : Option Node) :
    c.readTo seed n construct left = c.read construct left := by
  have hsame : (fun ts _ l => levels c.stop seed n ts l : Nested c.rest.length)
      = fun ts _ l => Build.process c.stop ts l := by
    funext ts hts l
    exact levels_eq_process c.stop seed (Nat.lt_trans hts h) l
  rw [readTo, hsame]
  rfl

theorem yields_of_process {c : Cursor} {left : Option Node} {nodes : List Node}
    (h : (c.process left).1 = .ok nodes) :
    (Build.process c.stop c.rest left).Yields nodes (c.process left).2.rest := by
  unfold process after at h ⊢
  cases hreply : Build.process c.stop c.rest left with
  | ok value rest shorter =>
      rw [hreply] at h
      cases h
      exact ⟨shorter, rfl⟩
  | fail error rest noLonger =>
      rw [hreply] at h
      cases h

-- ================================================================ programs

/-- One round of reading a program, with the nodes so far: separators are
passed over, and a statement is read if there is a token left. -/
def round (goOn : List Node × Cursor → Except Error (List Node)) (state : List Node × Cursor) :
    Except Error (List Node) :=
  match state.2.skipSeparators.current? with
  | none => .ok state.1
  | some _ =>
      match state.2.skipSeparators.process none with
      | (.ok nodes, c) => goOn (state.1 ++ nodes, c)
      | (.error e, _) => .error e

/-- More rounds than there are tokens are all rounds. -/
theorem cutOff_round (seed : List Node × Cursor → Except Error (List Node)) {n : Nat} {c : Cursor}
    (h : c.rest.length < n) (done : List Node) :
    cutOff round seed n (done, c) = program c.stop done.reverse c.rest := by
  induction n generalizing c done with
  | zero => exact absurd h (Nat.not_lt_zero _)
  | succ n ih =>
      have hlen := length_skipSeparators_le c.rest
      unfold cutOff round skipSeparators current?
      cases hrest : Build.skipSeparators c.rest with
      | nil =>
          rw [program_of_nil hrest, List.reverse_reverse]
          rfl
      | cons t rest =>
          rw [hrest] at hlen
          rw [program_of_cons hrest]
          simp only [List.head?_cons, process]
          cases hreply : Build.process c.stop (t :: rest) none with
          | fail error rest noLonger => rfl
          | ok nodes after shorter =>
              have hround := ih (c := ⟨after, c.stop⟩)
                (by simp only at *; omega) (done ++ nodes)
              rw [List.reverse_append] at hround
              exact hround

end Cursor

open Cursor

/-- Reading makes progress. At every position, with or without a left
operand, a construct that is asked for and the statement that is there are
read with no more levels of reading than tokens, and leave the cursor where
it was or further on, further on if they were read. A statement is one node,
or the two nodes of a declaration with a value. So the loop over the
statements of a program ends, and with it building. -/
theorem reading_makes_progress {tokens : List Token} {i : Nat} (hi : i ≤ tokens.length)
    (left : Option Node) :
    (∀ construct, Advances tokens i ((past tokens i).read construct left))
    ∧ Advances tokens i ((past tokens i).process left)
    ∧ (∀ seed n, tokens.length < n →
        (past tokens i).processTo seed n left = (past tokens i).process left
        ∧ ∀ construct, (past tokens i).readTo seed n construct left
          = (past tokens i).read construct left)
    ∧ (∀ nodes, ((past tokens i).process left).1 = .ok nodes →
        ((∃ node, nodes = [node]) ∧ ∀ var name, ¬Initializes (tokens.drop i) var name)
        ∨ ∃ var name value, Initializes (tokens.drop i) var name
          ∧ nodes = [.declaration (var.span.union name.span) name.text,
            .assignment (name.span.union value.span) (.reference name.span name.text) value])
    ∧ ∃ body, (∀ seed n, tokens.length < n → cutOff round seed n ([], ofTokens tokens) = body)
        ∧ build tokens = body.map (.root ⟨0, endOfTokens tokens⟩) := by
  have hlen : (past tokens i).rest.length ≤ tokens.length := (List.drop_suffix i tokens).length_le
  refine ⟨fun construct => ?_, ?_, fun seed n hn => ⟨?_, fun construct => ?_⟩,
    fun nodes hnodes => ?_, program (endOfTokens tokens) [] tokens, fun seed n hn => ?_,
    build_eq tokens⟩
  · exact advances_after hi (read_suffix construct _ (reader_advances _ _) left)
  · exact advances_after hi (process_suffix _ _ left)
  · exact processTo_eq _ seed (Nat.lt_of_le_of_lt hlen hn) left
  · exact readTo_eq _ seed (Nat.lt_of_le_of_lt hlen hn) construct left
  · exact nodes_of_yields (yields_of_process hnodes)
  · exact cutOff_round seed hn []

/-- `var x = true` behind a semicolon: the cursor starts behind the semicolon
and two nodes are read. -/
theorem reading_makes_progress_initialized :
    let token (kind : Token.Kind) (text : String) : Token := ⟨kind, text, ⟨7, 3⟩, []⟩
    let tokens := [token .semicolon ";", token .variableDeclaration "var", token .identifier "x",
      token .assign "=", token .boolean "true"]
    1 ≤ tokens.length ∧ Advances tokens 1 ((past tokens 1).process none)
      ∧ ∃ var name value, Initializes (tokens.drop 1) var name
        ∧ ((past tokens 1).process none).1
          = .ok [.declaration (var.span.union name.span) name.text,
            .assignment (name.span.union value.span) (.reference name.span name.text) value] := by
  intro token tokens
  have hi : 1 ≤ tokens.length := by decide
  obtain ⟨-, hadvances, -, hnodes, -⟩ := reading_makes_progress hi none
  refine ⟨hi, hadvances, ?_⟩
  have hcount : ((past tokens 1).process none).1.toOption.map List.length = some 2 := by
    decide +kernel
  cases hread : ((past tokens 1).process none).1 with
  | error e =>
      rw [hread] at hcount
      cases hcount
  | ok nodes =>
      rcases hnodes nodes hread with ⟨⟨node, rfl⟩, -⟩ | ⟨var, name, value, hinit, rfl⟩
      · rw [hread] at hcount
        cases hcount
      · exact ⟨var, name, value, hinit, rfl⟩

end ScopedScript
