/-
What a run reports, stage by stage.

The first stage that fails ends the run, and nothing is printed before
evaluation starts. What is shown on the way does not matter for what is
printed or for the error, so the lemmas here speak of these two only.
-/
import ScopedScript.Run

namespace ScopedScript

variable {source : String} {tokens : List Token} {root : Node} {e : Error}

theorem parse_of_scan (hscan : scan source = .ok tokens) : parse source = build tokens := by
  rw [parse, hscan]
  rfl

/-- A tree has been built from tokens that have been scanned. -/
theorem parse_eq_ok_iff :
    parse source = .ok root ↔ ∃ tokens, scan source = .ok tokens ∧ build tokens = .ok root := by
  cases hscan : scan source with
  | error e =>
      have hparse : parse source = .error e := by
        rw [parse, hscan]
        rfl
      rw [hparse]
      simp
  | ok tokens =>
      rw [parse_of_scan hscan]
      simp

/-- A run reports these prints and this error. -/
def Report.Says (r : Report) (printed : Array (List Printed)) (error : Option Error) : Prop :=
  r.printed = printed ∧ r.error = error

/-- A text that cannot be scanned prints nothing. -/
theorem run_of_scan_error (h : scan source = .error e) (options : Options) :
    (run source options).Says #[] (some (e.within .scanning)) := by
  simp only [run, h]
  exact ⟨rfl, rfl⟩

/-- Tokens that cannot be read print nothing. -/
theorem run_of_build_error (hscan : scan source = .ok tokens) (h : build tokens = .error e)
    (options : Options) : (run source options).Says #[] (some (e.within .building)) := by
  simp only [run, hscan, h]
  exact ⟨rfl, rfl⟩

/-- The error of an evaluation, as a run reports it. -/
def reported : Except Error Unit → Option Error
  | .ok _ => none
  | .error e => some (e.within .executing)

/-- A program that can be read prints what its tree prints, and fails as its
tree does. -/
theorem run_of_parse (h : parse source = .ok root) (options : Options) :
    (run source options).Says (evaluate root).2 (reported (evaluate root).1) := by
  obtain ⟨tokens, hscan, hbuild⟩ := parse_eq_ok_iff.1 h
  simp only [run, hscan, hbuild]
  cases hevaluate : evaluate root with
  | mk result printed =>
      cases result with
      | ok _ => exact ⟨rfl, rfl⟩
      | error e => exact ⟨rfl, rfl⟩

end ScopedScript
