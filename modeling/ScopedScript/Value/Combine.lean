/-
Operators on values.

Two numbers are combined arithmetically, in doubles. For any other pair only
`+` has a meaning: both operands are taken as text and joined.
-/
import ScopedScript.Error

namespace ScopedScript

/-- An operator on numbers; division by zero gives an infinity or what is not
a number. -/
def Operator.onNumbers : Operator → Float → Float → Float
  | .add, a, b => a + b
  | .sub, a, b => a - b
  | .mul, a, b => a * b
  | .div, a, b => a / b

namespace Value

/-- The text of a value, which not every value has. -/
def text (v : Value) : Except RuntimeFault String :=
  match v.text? with
  | some text => .ok text
  | none => .error (.noText v.kind)

/-- The value of an operator on two operands. -/
def combine (operator : Operator) (left right : Value) : Except RuntimeFault Value :=
  match left, right with
  | .number a, .number b => .ok (.number (operator.onNumbers a b))
  | left, right =>
      if operator = .add then do
        let a ← left.text
        let b ← right.text
        return .string (a ++ b)
      else .error (.numbersRequired operator left.kind right.kind)

/-- Operators find fault with their operands only. -/
theorem fault_of_combine {operator : Operator} {left right : Value} {fault : RuntimeFault}
    (h : left.combine operator right = .error fault) :
    (∃ kind, fault = .noText kind) ∨ fault = .numbersRequired operator left.kind right.kind := by
  have htext {value : Value} {fault : RuntimeFault} (h : value.text = .error fault) :
      ∃ kind, fault = .noText kind := by
    unfold Value.text at h
    split at h <;> cases h
    exact ⟨_, rfl⟩
  unfold Value.combine at h
  split at h
  · cases h
  · split at h
    · cases hleft : left.text with
      | error fault' =>
          rw [hleft] at h
          cases h
          exact .inl (htext hleft)
      | ok a =>
          cases hright : right.text with
          | error fault' =>
              rw [hleft, hright] at h
              cases h
              exact .inl (htext hright)
          | ok b =>
              rw [hleft, hright] at h
              cases h
    · cases h
      exact .inr rfl

end Value

end ScopedScript
