/-
One program after another.

Two texts with a line break between them make one text. If the first is a
program, then the second is read as it would be read alone: scanning does
not look across the line break (`scan_append_space`), and no statement of
the first program goes on behind a separator. What is left to do is to
bring the stages together.

# Statements end at separators

A phrase looks at the next token only to see whether it can go on or has
to stop. Neither a separator nor a closing brace lets a phrase go on, so a
phrase that has been derived before some tokens is derived as well before
others that start alike or with one of these (`Derives.of_next`). In
particular the statements of a program are still statements if a separator
and more tokens come after them, and reading arrives at the separator
(`program_append`).

# Later statements do not matter

Statements are evaluated one after the other, so the statements of the
first program have been evaluated before anything of the second one is. If
they fail there is no second one, and if they do not, the second one can
only add to what they have printed.
-/
import ScopedScript.Proofs.Shifting
import ScopedScript.Proofs.Reporting
import ScopedScript.Proofs.Simulation

namespace ScopedScript

-- =============================================================== phrases

namespace Grammar

/-- Tokens that stop every phrase that the other tokens stop: they start
alike, or with a separator or a closing brace, or there are none. -/
def Stops (next next' : List Token) : Prop :=
  ∀ t' ∈ next'.head?, (t'.kind.isSeparator = true ∨ t'.kind = .closeBlock)
    ∨ ∃ t ∈ next.head?, t.kind = t'.kind

theorem Stops.cons {next next' : List Token} (t : Token) : Stops (t :: next) (t :: next') := by
  intro t' ht'
  exact .inr ⟨t', ht', rfl⟩

theorem Stops.append {next next' : List Token} (h : Stops next next') (ts : List Token) :
    Stops (ts ++ next) (ts ++ next') := by
  cases ts with
  | nil => exact h
  | cons t ts => exact .cons t

/-- What separators and closing braces satisfy and the kind of the first
token does as well holds of the first token that comes instead. -/
theorem Stops.head {next next' : List Token} (h : Stops next next') {P : Token.Kind → Prop}
    (hend : ∀ kind : Token.Kind, kind.isSeparator = true ∨ kind = .closeBlock → P kind)
    (hnext : ∀ t ∈ next.head?, P t.kind) : ∀ t ∈ next'.head?, P t.kind := by
  intro t' ht'
  rcases h t' ht' with hkind | ⟨t, ht, hkind⟩
  · exact hend _ hkind
  · rw [← hkind]
    exact hnext t ht

/-- A phrase is the same phrase before tokens that stop it as well. -/
theorem Derives.of_next {phrase : Phrase} {ts next next' : List Token} {nodes : List Node}
    (h : Derives phrase ts next nodes) (hstops : Stops next next') :
    Derives phrase ts next' nodes := by
  induction h generalizing next' with
  | noStatement hseps => exact .noStatement hseps
  | nextStatement hseps _ _ hstatement hrest =>
      exact .nextStatement hseps (hstatement (hstops.append _)) (hrest hstops)
  | block hopening _ hclosing hbody => exact .block hopening (hbody (.cons _)) hclosing
  | reference ht _ htail => exact .reference ht (htail hstops)
  | number ht hvalue _ htail => exact .number ht hvalue (htail hstops)
  | string ht _ htail => exact .string ht (htail hstops)
  | boolean ht => exact .boolean ht
  | parenthesized hopening hbefore _ hafter hclosing _ hinner htail =>
      refine .parenthesized hopening hbefore ?_ hafter hclosing (htail hstops)
      exact hinner (Stops.append (.cons _) _)
  | blockStatement _ hblock => exact .blockStatement (hblock hstops)
  | declaration hvar hname hnext =>
      refine .declaration hvar hname (hstops.head (P := (· ≠ .assign)) ?_ hnext)
      intro kind hkind
      cases kind <;> simp_all [Token.Kind.isSeparator]
  | initializedDeclaration hvar hname hequals _ hvalue =>
      exact .initializedDeclaration hvar hname hequals (hvalue hstops)
  | function hheader hname hbefore _ hbody =>
      exact .function hheader hname hbefore (hbody hstops)
  | bareReturn ht hnext =>
      refine .bareReturn ht
        (hstops.head (P := fun kind => kind.isSeparator = true ∨ kind = .closeBlock) ?_ hnext)
      exact fun kind hkind => hkind
  | returnValue ht _ hvalue => exact .returnValue ht (hvalue hstops)
  | stop hnext =>
      refine .stop (hstops.head (P := fun kind => kind.isContinuation = false) ?_ hnext)
      intro kind hkind
      cases kind <;> simp_all [Token.Kind.isSeparator, Token.Kind.isContinuation]
  | assignment hequals _ hvalue => exact .assignment hequals (hvalue hstops)
  | binary ht hoperator _ hright => exact .binary ht hoperator (hright hstops)
  | call hopening _ hclosing _ hargs htail =>
      exact .call hopening (hargs (.cons _)) hclosing (htail hstops)
  | property hdot hname _ htail => exact .property hdot hname (htail hstops)
  | noArgument hbefore => exact .noArgument hbefore
  | lastArgument hbefore _ hafter harg =>
      exact .lastArgument hbefore (harg (hstops.append _)) hafter
  | nextArgument hbefore _ hafter hcomma _ harg hrest =>
      refine .nextArgument hbefore ?_ hafter hcomma (hrest hstops)
      exact harg (Stops.append (.cons _) _)

end Grammar

namespace Build

open Grammar

-- ============================================================== programs

/-- Separators before a program do not matter. -/
theorem program_skipSeparators (stop : Nat) (done : List Node) {ts us : List Token}
    (h : skipSeparators ts = skipSeparators us) : program stop done ts = program stop done us := by
  cases hts : skipSeparators ts with
  | nil => rw [program_of_nil hts, program_of_nil (h.symm.trans hts)]
  | cons t rest => rw [program_of_cons hts, program_of_cons (h.symm.trans hts)]

/-- The nodes at hand come before the nodes of the rest. -/
theorem program_done (stop : Nat) (done : List Node) (ts : List Token) :
    program stop done ts = (program stop [] ts).map (done.reverse ++ ·) := by
  induction hn : ts.length using Nat.strongRecOn generalizing ts done with
  | ind m ih =>
      have hlen := length_skipSeparators_le ts
      cases hts : skipSeparators ts with
      | nil =>
          rw [program_of_nil hts, program_of_nil hts]
          simp [Except.map]
      | cons t rest =>
          rw [hts] at hlen
          rw [program_of_cons hts, program_of_cons hts]
          cases process stop (t :: rest) none with
          | fail error rest noLonger => rfl
          | ok nodes after shorter =>
              have hlt : after.length < m := by
                simp only [List.length_cons] at hlen shorter
                omega
              simp only [programAfter]
              rw [ih _ hlt _ after rfl, ih _ hlt (nodes.reverse ++ []) after rfl]
              cases program stop [] after <;> simp [Except.map]

/-- The statements of a program are read up to the separator that comes
after them. -/
theorem program_append (stop : Nat) {ts : List Token} {nodes : List Node}
    (h : Derives .body ts [] nodes) {separator : Token}
    (hseparator : separator.kind.isSeparator = true) (done : List Node) (more : List Token) :
    program stop done (ts ++ separator :: more)
      = program stop (nodes.reverse ++ done) (separator :: more) := by
  have hstops : Stops [] (separator :: more) := by
    intro t ht
    cases ht
    exact .inl (.inl hseparator)
  -- a body is derived from bodies and statements, so only two cases are left
  generalize hphrase : Phrase.body = phrase, hnext : ([] : List Token) = next at h
  induction h generalizing done with
  | @noStatement seps next hseps =>
      refine program_skipSeparators stop done ?_
      exact List.dropWhile_append_of_pos hseps
  | @nextStatement seps us rest next nodes after hseps hstatement hrest _ ih =>
      subst hnext
      have hread := complete stop (hstatement.of_next (hstops.append rest))
      obtain ⟨u, us', construct, rfl, hkind⟩ := cons_of_yields hread
      have hskip : skipSeparators ((seps ++ (u :: us' ++ rest)) ++ separator :: more)
          = u :: (us' ++ (rest ++ separator :: more)) := by
        rw [show (seps ++ (u :: us' ++ rest)) ++ separator :: more
          = seps ++ u :: (us' ++ (rest ++ separator :: more)) by simp]
        exact skipSeparators_append hseps (by rw [hkind]; exact construct.isSeparator_kind) _
      obtain ⟨shorter, hprocess⟩ := hread
      rw [program_of_cons hskip, ← List.cons_append, hprocess]
      simp only [programAfter]
      rw [ih (nodes.reverse ++ done) rfl rfl, List.reverse_append, List.append_assoc]
  | _ => cases hphrase

end Build

/-- The end of tokens that come after a separator: that of the tokens alone,
moved to where the separator ends. -/
theorem endOfTokens_append (ts more : List Token) (separator : Token) :
    endOfTokens (ts ++ separator :: more.map (·.shift separator.span.stop))
      = endOfTokens more + separator.span.stop := by
  unfold endOfTokens
  rw [List.getLast?_append, List.getLast?_cons, List.getLast?_map]
  cases more.getLast? with
  | none => simp
  | some t => rfl

/-- The statements of a program, and after them those of a second one, which
has been moved to the right. -/
def Node.followedBy (first : Node) (k : Nat) (second : Node) : Node :=
  .root ⟨0, second.span.stop + k⟩ (first.children ++ second.children.map (·.shift k))

/-- Tokens of a program with a separator after them do not matter for the
tokens behind the separator. -/
theorem build_append {ts : List Token} {first : Node} (h : build ts = .ok first)
    {separator : Token} (hseparator : separator.kind.isSeparator = true) (more : List Token) :
    build (ts ++ separator :: more.map (·.shift separator.span.stop))
      = moved separator.span.stop (first.followedBy separator.span.stop) (build more) := by
  obtain ⟨body, hbody, rfl⟩ := isTreeOf_of_build h
  generalize hk : separator.span.stop = k
  have hstop := endOfTokens_append ts more separator
  have hskip : Build.skipSeparators (separator :: more.map (·.shift k))
      = Build.skipSeparators (more.map (·.shift k)) := List.dropWhile_cons_of_pos hseparator
  have hshift := Build.program_shift k (endOfTokens more) [] more
  rw [List.map_nil] at hshift
  rw [hk] at hstop
  rw [build_eq, build_eq, hstop, Build.program_append _ hbody hseparator,
    Build.program_skipSeparators _ _ hskip, Build.program_done, hshift]
  cases Build.program (endOfTokens more) [] more with
  | error e => rfl
  | ok nodes =>
      simp only [moved, Except.map, List.reverse_append, List.reverse_reverse, List.reverse_nil,
        List.nil_append]
      rfl

/-- The token of a line break. -/
def Token.lineBreak (offset : Nat) : Token := ⟨.newLine, "\n", ⟨offset, offset + 1⟩, []⟩

theorem Token.isSeparator_lineBreak (offset : Nat) :
    (lineBreak offset).kind.isSeparator = true := rfl

/-- A text that goes on after a line break is scanned in two parts. -/
theorem scan_append_line {s : String} {tokens : List Token} (h : scan s = .ok tokens) (t : String) :
    scan (s ++ "\n" ++ t)
      = moved (s.utf8ByteSize + 1)
          (fun more => tokens ++ Token.lineBreak s.utf8ByteSize
            :: more.map (·.shift (s.utf8ByteSize + 1))) (scan t) := by
  have hspace : Lexeme.isSpace '\n' = true := rfl
  exact scan_append_space hspace h t

/-- A text that goes on after the line break behind a program is a program
if what comes after the line break is one. -/
theorem parse_append_line {s t : String} {first second : Node} (hs : parse s = .ok first)
    (ht : parse t = .ok second) :
    parse (s ++ "\n" ++ t) = .ok (first.followedBy (s.utf8ByteSize + 1) second) := by
  obtain ⟨tokens, hscan, hbuild⟩ := parse_eq_ok_iff.1 hs
  obtain ⟨more, hmore, hsecond⟩ := parse_eq_ok_iff.1 ht
  have hwhole := scan_append_line hscan t
  have hbuilt := build_append hbuild (Token.isSeparator_lineBreak s.utf8ByteSize) more
  rw [hmore] at hwhole
  rw [hsecond] at hbuilt
  exact parse_eq_ok_iff.2 ⟨_, hwhole, hbuilt⟩

-- ============================================================= evaluation

namespace Eval

variable {σ : Type} [Scopes σ]

theorem evalAll_append (call : Caller σ) (program : Nat) (scope : ScopeId)
    (first second : List Node) :
    evalAll call program scope (first ++ second)
      = evalAll call program scope first >>= fun _ => evalAll call program scope second := by
  induction first with
  | nil =>
      rw [List.nil_append, evalAll]
      rfl
  | cons statement rest ih =>
      rw [List.cons_append, evalAll, evalAll, ih]
      simp only [bind_assoc]

/-- A program with more statements behind it is evaluated in two parts. -/
theorem evalTask_followedBy (t : Task) (span : Span) (body : List Node) (k : Nat) (second : Node) :
    evalTask { t with node := (Node.root span body).followedBy k second }
      = evalTask (σ := σ) { t with node := .root span body } >>= fun _ =>
          evalTask { t with node := .root second.span (second.children.map (·.shift k)) } := by
  simp only [evalTask, Node.followedBy, evalNode]
  exact evalAll_append ..

end Eval

open Eval

/-- What a program does is what it does if more statements follow: all of it
if it fails, and else the beginning. -/
theorem evaluate_followedBy (span : Span) (body : List Node) (k : Nat) (second : Node) :
    (evaluate (.root span body)).2.toList
        <+: (evaluate ((Node.root span body).followedBy k second)).2.toList
      ∧ ∀ e, (evaluate (.root span body)).1 = .error e →
        evaluate ((Node.root span body).followedBy k second) = evaluate (.root span body) := by
  have hrun (root : Node) : runProgram root { scopes := ({} : Store) }
      = evalTask ⟨0, 0, 0, [], root⟩ { scopes := (Scopes.createGlobal ({} : Store)).2 } := rfl
  have hwhole := congrFun (evalTask_followedBy ⟨0, 0, 0, [], .root span body⟩ span body k second)
    { scopes := (Scopes.createGlobal ({} : Store)).2 }
  replace hwhole := hwhole.trans (EStateM.bind.eq_1 ..)
  simp only [evaluate, hrun, hwhole]
  cases evalTask (σ := Store) ⟨0, 0, 0, [], .root span body⟩
      { scopes := (Scopes.createGlobal ({} : Store)).2 } with
  | error e w => exact ⟨List.prefix_rfl, fun _ _ => rfl⟩
  | ok result w =>
      have hprinted := printed_prefix_evalTask
        ⟨0, 0, 0, [], .root second.span (second.children.map (·.shift k))⟩ w
      refine ⟨?_, fun e he => by cases he⟩
      dsimp only
      generalize evalTask (σ := Store) _ w = r at hprinted ⊢
      cases r <;> exact hprinted

-- ================================================================= running

/-- The error of a text that is no program is the error of every text that
has it after a program and a line break, but for where it is. -/
theorem run_append_line_of_error {s t : String} {first : Node} {e : Error}
    (hs : parse s = .ok first) (ht : parse t = .error e) (options : Options) :
    ∃ e', (run t options).Says #[] (some e')
      ∧ (run (s ++ "\n" ++ t) options).Says #[] (some (e'.shift (s.utf8ByteSize + 1))) := by
  obtain ⟨tokens, hscan, hbuild⟩ := parse_eq_ok_iff.1 hs
  have hwhole := scan_append_line hscan t
  cases hmore : scan t with
  | error e =>
      rw [hmore] at hwhole
      refine ⟨_, run_of_scan_error hmore options, ?_⟩
      rw [Error.shift_within]
      exact run_of_scan_error hwhole options
  | ok more =>
      rw [hmore] at hwhole
      have hsecond : build more = .error e := (parse_of_scan hmore).symm.trans ht
      have hbuilt := build_append hbuild (Token.isSeparator_lineBreak s.utf8ByteSize) more
      rw [hsecond] at hbuilt
      refine ⟨_, run_of_build_error hmore hsecond options, ?_⟩
      rw [Error.shift_within]
      exact run_of_build_error hwhole hbuilt options

/-- A program that goes on after a line break does at first what it does if
it does not go on. If it fails there, with the same error, that is all it
does; if what comes after the line break is no program it does nothing, and
fails with the error of what comes after the line break, as many bytes
further to the right as there are before it. -/
theorem longer_program_extends_run {s : String} {first : Node} (hs : parse s = .ok first)
    (t : String) (options : Options) :
    (∀ second, parse t = .ok second →
      (run s options).printed.toList <+: (run (s ++ "\n" ++ t) options).printed.toList
      ∧ ∀ e, (run s options).error = some e →
        (run (s ++ "\n" ++ t) options).error = some e
        ∧ (run (s ++ "\n" ++ t) options).printed = (run s options).printed)
    ∧ ∀ fault, parse t = .error fault →
      (run (s ++ "\n" ++ t) options).printed = #[]
      ∧ ∃ e, (run t options).error = some e
        ∧ (run (s ++ "\n" ++ t) options).error = some (e.shift (s.utf8ByteSize + 1)) := by
  refine ⟨fun second ht => ?_, fun fault ht => ?_⟩
  · obtain ⟨hprinted, herror⟩ := run_of_parse hs options
    obtain ⟨hprinted', herror'⟩ := run_of_parse (parse_append_line hs ht) options
    obtain ⟨tokens, -, hbuild⟩ := parse_eq_ok_iff.1 hs
    obtain ⟨body, -, rfl⟩ := isTreeOf_of_build hbuild
    obtain ⟨hbegins, hfails⟩ := evaluate_followedBy ⟨0, endOfTokens tokens⟩ body
      (s.utf8ByteSize + 1) second
    rw [hprinted, herror, hprinted', herror']
    refine ⟨hbegins, fun e he => ?_⟩
    cases hresult : (evaluate (.root ⟨0, endOfTokens tokens⟩ body)).1 with
    | ok _ =>
        rw [hresult] at he
        cases he
    | error fault =>
        rw [hfails fault hresult]
        exact ⟨he, rfl⟩
  · obtain ⟨e, hsays, hwhole⟩ := run_append_line_of_error hs ht options
    exact ⟨hwhole.1, e, hsays.2, hwhole.2⟩

/-- A program that prints and then fails goes no further, and it does not
start if what follows is no program. -/
theorem longer_program_extends_run_undeclared :
    (∃ first, parse "print(1)\nx" = .ok first)
      ∧ (run "print(1)\nx\nprint(2)" {}).printed = (run "print(1)\nx" {}).printed
      ∧ (run "print(1)\nx\n(" {}).printed = #[] := by
  have program (source : String) (h : (parse source).toBool = true) :
      ∃ root, parse source = .ok root := by
    cases hparse : parse source with
    | ok root => exact ⟨root, rfl⟩
    | error e =>
        rw [hparse] at h
        cases h
  obtain ⟨first, hs⟩ := program "print(1)\nx" (by decide +kernel)
  obtain ⟨second, ht⟩ := program "print(2)" (by decide +kernel)
  have hfails : (run "print(1)\nx" {}).error
      = some (Error.within ⟨.runtime (.scope (.notDeclared "x")), ⟨9, 10⟩, []⟩ .executing) := by
    decide +kernel
  have hextends := longer_program_extends_run hs "print(2)" {}
  have hbroken := longer_program_extends_run hs "(" {}
  refine ⟨⟨first, hs⟩, ((hextends.1 second ht).2 _ hfails).2, ?_⟩
  cases hparse : parse "(" with
  | ok root =>
      have hno : (parse "(").toBool = false := by decide +kernel
      rw [hparse] at hno
      cases hno
  | error fault => exact (hbroken.2 fault hparse).1

end ScopedScript
