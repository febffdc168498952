/-
Errors and the stages that find them.

A run ends with the error of the first stage that fails. Everything around
it is context: the contexts of the constructs and calls in which the fault
came up, and outermost that of the stage. Every stage raises errors of its
own kind only, and whoever wraps an error copies what it reports
(`Error.Ordinary`). So the outermost message tells the stage, and all errors
along the chain of causes are of one kind and at one place
(`errors_keep_to_their_stage`).

# Errors that never come up

Each stage also has faults that are kept for what cannot happen. For the
scanner this is that a lexeme has no characters, for the builder a matter
of the tokens it gets (`ordinary_of_build_error`), for the evaluator one of
the values at hand and of the store (`ordinary_of_evaluate`). So no run ends
with such a fault (`no_internal_errors`).
-/
import ScopedScript.Proofs.Failing
import ScopedScript.Proofs.Reporting

namespace ScopedScript

-- ================================================================= scanning

namespace Scan

/-- Characters that are there have a fault of their own. -/
theorem isReserved_unrecognised_cons (c : Char) (cs : List Char) :
    (unrecognised (c :: cs)).isReserved = false := by
  show LexicalFault.isReserved (if _ then _ else _) = false
  split <;> rfl

theorem ordinary_of_refused (l : Lexeme) : (refused l).Ordinary .lexical :=
  .raised rfl (isReserved_unrecognised_cons l.first l.tail)

/-- A lexeme that the scanner does not accept is refused for an ordinary
fault. -/
theorem ordinary_of_step {s : State} {l : Lexeme} {e : Error} (h : step s l = .error e) :
    e.Ordinary .lexical := by
  obtain ⟨tokens, header⟩ := s
  cases header with
  | none =>
      obtain ⟨kind, first, tail, span⟩ := l
      cases kind with
      | unterminated | illegal =>
          cases h
          exact ordinary_of_refused _
      | wordIntoNumber | numberIntoWord =>
          cases h
          exact .raised rfl rfl
      | _ => cases h
  | some header =>
      simp only [step, stepHeader] at h
      split at h <;> cases h
      case h_4 | h_5 => exact ordinary_of_refused l
      case h_3 => exact .raised rfl rfl
      all_goals
        obtain ⟨start, text, attributes, expects⟩ := header
        cases expects <;> exact .raised rfl rfl

end Scan

theorem ordinary_of_scan_error {source : String} {e : Error} (h : scan source = .error e) :
    e.Ordinary .lexical := by
  rcases scan_error_cases h with ⟨before, l, after, state, -, -, hstep⟩ | rfl
  · exact Scan.ordinary_of_step hstep
  · exact .raised rfl rfl

-- ============================================================ runs as a whole

/-- The context in which a run reports the errors of a stage. -/
def Stage.context : Stage → Context
  | .lexical => .scanning
  | .syntactic => .building
  | .runtime => .executing

/-- A run that fails reports an ordinary error of a stage, in the context of
that stage, and before it runs the program it prints nothing. -/
theorem stage_of_run {source : String} {options : Options} {e : Error}
    (h : (run source options).error = some e) :
    e.Ordinary e.stage ∧ e.contexts.head? = some e.stage.context
      ∧ (e.stage ≠ .runtime → (run source options).printed = #[]) := by
  cases hscan : scan source with
  | error fault =>
      obtain ⟨hprinted, herror⟩ := run_of_scan_error hscan options
      rw [herror] at h
      cases h
      have hfault := ordinary_of_scan_error hscan
      rw [Error.stage_within, hfault.found]
      exact ⟨hfault.within _, rfl, fun _ => hprinted⟩
  | ok tokens =>
      cases hbuild : build tokens with
      | error fault =>
          obtain ⟨hprinted, herror⟩ := run_of_build_error hscan hbuild options
          rw [herror] at h
          cases h
          have hfault := ordinary_of_build_error (proper_of_scan hscan) hbuild
          rw [Error.stage_within, hfault.found]
          exact ⟨hfault.within _, rfl, fun _ => hprinted⟩
      | ok root =>
          have hparse := parse_eq_ok_iff.2 ⟨tokens, hscan, hbuild⟩
          rw [(run_of_parse hparse options).2] at h
          cases hresult : (evaluate root).1 with
          | ok _ =>
              rw [hresult] at h
              cases h
          | error fault =>
              rw [hresult] at h
              cases h
              have hfault := ordinary_of_evaluate hresult
              rw [Error.stage_within, hfault.found]
              exact ⟨hfault.within _, rfl, fun hstage => absurd rfl hstage⟩

theorem message_of_contexts {e : Error} {context : Context}
    (h : e.contexts.head? = some context) : e.message = context.message := by
  obtain ⟨fault, place, wraps⟩ := e
  cases wraps with
  | nil => cases h
  | cons layer wraps =>
      cases h
      rfl

/-- Different stages report in different words. -/
theorem Stage.message_context_inj {a b : Stage} :
    a.context.message = b.context.message ↔ a = b := by
  cases a <;> cases b <;> decide

/-- If a run fails, all errors along the chain of causes are of the stage and
at the span of the innermost one, the outermost message is that of the
stage, and nothing has been printed unless the program was running. -/
theorem errors_keep_to_their_stage {source : String} {options : Options} {e : Error}
    (h : (run source options).error = some e) :
    (∀ layer ∈ e.layers, layer.stage = e.innermost.stage ∧ layer.span = e.innermost.span)
      ∧ (e.message = "while scanning the source" ↔ e.stage = .lexical)
      ∧ (e.message = "while building the syntax tree" ↔ e.stage = .syntactic)
      ∧ (e.message = "while executing the program" ↔ e.stage = .runtime)
      ∧ (e.stage = .lexical ∨ e.stage = .syntactic → (run source options).printed = #[]) := by
  obtain ⟨hordinary, hcontext, hprinted⟩ := stage_of_run h
  rw [message_of_contexts hcontext]
  refine ⟨hordinary.uniform, ?_, ?_, ?_, fun hstage => hprinted ?_⟩
  · exact Stage.message_context_inj (b := .lexical)
  · exact Stage.message_context_inj (b := .syntactic)
  · exact Stage.message_context_inj (b := .runtime)
  · rcases hstage with hstage | hstage <;> simp [hstage]

/-- A fault deep in calls: four errors along the chain, one place. -/
theorem errors_keep_to_their_stage_in_calls :
    ∃ e, (run "function f(a) { g() }\nfunction h() { f(2) }\nprint('a')\nh()" {}).error = some e
      ∧ e.layers.length = 4 ∧ (∀ layer ∈ e.layers, layer.stage = .runtime ∧ layer.span = ⟨16, 17⟩)
      ∧ e.message = "while executing the program" := by
  let missing : Error := ⟨.runtime (.scope (.notDeclared "g")), ⟨16, 17⟩, []⟩
  have hfails : (run "function f(a) { g() }\nfunction h() { f(2) }\nprint('a')\nh()" {}).error
      = some (((missing.within (.callOf "f")).within (.callOf "h")).within .executing) := by
    decide +kernel
  obtain ⟨hlayers, -, -, hruntime, -⟩ := errors_keep_to_their_stage hfails
  exact ⟨_, hfails, rfl, hlayers, hruntime.2 rfl⟩

-- ========================================================= faults without words

/-- The text does not go on as the start does. -/
def Strays (start text : String) : Prop := ¬start.toList <+: text.toList

instance (start text : String) : Decidable (Strays start text) :=
  inferInstanceAs (Decidable (¬_))

/-- What strays from a text goes on straying from it. -/
theorem Strays.append {start text : String} (h : Strays start text) (rest : String) :
    Strays (start ++ rest) text := by
  intro hstart
  rw [String.toList_append] at hstart
  exact h ((List.prefix_append _ _).trans hstart)

theorem Strays.ne {start text : String} (h : Strays start text) : start ≠ text := by
  rintro rfl
  exact h (List.prefix_refl _)

/-- What the words for a fault of a running program begin with, whatever it
is about. -/
def RuntimeFault.lead : RuntimeFault → String
  | .scope (.alreadyDeclared _) | .parameterLost (.alreadyDeclared _) =>
      "variable already declared: "
  | .scope (.notDeclared _) | .parameterLost (.notDeclared _) => "variable not declared: "
  | .scope (.missingClosure _) | .parameterLost (.missingClosure _) =>
      "missing closure reference while resolving "
  | .noValue _ => "expression yields no value: "
  | .notAssignable _ => "cannot assign to a "
  | .noProperty .. => "cannot read property "
  | .numbersRequired .. => "operator "
  | .noText _ => "cannot convert a "
  | .notCallable _ => "no reference to a function: callee is a "
  | .nothingToCall => "no reference to a function: callee yields no value"
  | .notADefinition => "function value without a function node"
  | .functionExpected => "expected a function"
  | .tooDeep => "maximum call depth of "
  | .unknownNative _ => "unknown native function "

/-- The words for a fault begin as its lead says. -/
theorem RuntimeFault.lead_prefix (fault : RuntimeFault) :
    fault.lead.toList <+: fault.message.toList := by
  have hstart (a b : String) : a.toList <+: (a ++ b).toList := by
    rw [String.toList_append]
    exact List.prefix_append ..
  have hlonger {a b : String} (c : String) (h : a.toList <+: b.toList) :
      a.toList <+: (b ++ c).toList := h.trans (hstart b c)
  cases fault with
  | scope fault | parameterLost fault => cases fault <;> exact hstart ..
  | nothingToCall => exact List.prefix_refl (RuntimeFault.message .nothingToCall).toList
  | notADefinition => exact List.prefix_refl (RuntimeFault.message .notADefinition).toList
  | functionExpected => exact List.prefix_refl (RuntimeFault.message .functionExpected).toList
  | tooDeep | noText => exact hlonger _ (hstart ..)
  | noProperty => exact hlonger _ (hlonger _ (hstart ..))
  | numbersRequired => exact hlonger _ (hlonger _ (hlonger _ (hlonger _ (hstart ..))))
  | _ => exact hstart ..

theorem RuntimeFault.message_ne {fault : RuntimeFault} {text : String}
    (h : Strays fault.lead text) : fault.message ≠ text := by
  rintro rfl
  exact h fault.lead_prefix

/-- Only the reserved fault is that there are no characters. -/
theorem LexicalFault.message_ne_end {fault : LexicalFault} (h : fault.isReserved = false) :
    fault.message ≠ "unexpected end of input" := by
  have hstrays {start : String} (h : Strays start "unexpected end of input") (rest : String) :
      start ++ rest ≠ "unexpected end of input" := (h.append rest).ne
  cases fault with
  | unexpectedEnd => cases h
  | unterminatedHeader => decide +kernel
  | _ => exact hstrays (by decide +kernel) _

/-- Only the reserved fault is that a definition of a function is something
else. -/
theorem RuntimeFault.message_ne_function {fault : RuntimeFault} (h : fault.isReserved = false) :
    fault.message ≠ "expected a function" := by
  refine message_ne ?_
  cases fault with
  | functionExpected | parameterLost => cases h
  | scope fault => cases fault <;> simp only [lead] <;> decide +kernel
  | _ =>
      simp only [lead]
      decide +kernel

/-- No run ends with a fault that is kept for what cannot happen, so no run
says that a lexeme has no characters or that what is defined is no
function. -/
theorem no_internal_errors {source : String} {options : Options} {e : Error}
    (h : (run source options).error = some e) :
    e.fault.isReserved = false
      ∧ (e.stage = .lexical → e.fault.message ≠ "unexpected end of input")
      ∧ (e.stage = .runtime → e.fault.message ≠ "expected a function") := by
  obtain ⟨hordinary, -, -⟩ := stage_of_run h
  have hreserved := hordinary.unreserved
  have hfound := hordinary.fault_stage
  refine ⟨hreserved, fun hstage => ?_, fun hstage => ?_⟩
  · rw [hstage] at hfound
    cases hfault : e.fault with
    | lexical fault => exact LexicalFault.message_ne_end (by rwa [hfault] at hreserved)
    | stated => rw [hfault] at hreserved; cases hreserved
    | syntactic | runtime => rw [hfault] at hfound; cases hfound
  · rw [hstage] at hfound
    cases hfault : e.fault with
    | runtime fault => exact RuntimeFault.message_ne_function (by rwa [hfault] at hreserved)
    | stated => rw [hfault] at hreserved; cases hreserved
    | lexical | syntactic => rw [hfault] at hfound; cases hfound

/-- A parameter that is declared twice is the fault of the program. -/
theorem no_internal_errors_parameter_twice :
    ∃ e, (run "function f(a, a) { }\nf(1, 2)" {}).error = some e
      ∧ e.fault = .runtime (.scope (.alreadyDeclared "a")) ∧ e.fault.isReserved = false := by
  let twice : Error := ⟨.runtime (.scope (.alreadyDeclared "a")), ⟨14, 15⟩, []⟩
  have hfails : (run "function f(a, a) { }\nf(1, 2)" {}).error
      = some ((twice.within (.callOf "f")).within .executing) := by decide +kernel
  exact ⟨_, hfails, rfl, (no_internal_errors hfails).1⟩

end ScopedScript
