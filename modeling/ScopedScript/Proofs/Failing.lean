/-
What a running program can be blamed for.

The evaluator has faults that are kept for what cannot happen. A function
value that was not made of the definition of a function, and a function of
the host that nobody has heard of, are a matter of the values at hand:
functions are made by definitions only, and functions of the host are those
that are predeclared (`Store.genuine`). A parameter that cannot be given
its argument is a matter of the store: a name that has just been declared
in a scope is found there at once (`Store.assign_of_declare`), so parameters
can only fail to be declared (`only_declarations_of_parameters_fail`).

Together these are all there are. Whatever else a program fails with is
about something that it says (`ordinary_of_evaluate`).
-/
import ScopedScript.Proofs.Abreast
import ScopedScript.Proofs.Blaming
import ScopedScript.Proofs.Refusing

namespace ScopedScript

-- =========================================================== genuine functions

/-- A function was made of the definition of one, and a function of the host
is one that every program finds declared. -/
def Value.Genuine : Value → Prop
  | .function closure => closure.definition.kind = .function
  | .native name => name ∈ Scopes.nativeNames
  | _ => True

namespace Store

/-- Only genuine functions are ever at hand. It takes no knowledge of scopes
to tell. -/
def genuine : Discipline Store Unit where
  Grows _ _ := True
  Holds _ s := s.Contains (fun _ _ => True) (fun _ _ => True) Value.Genuine
  Fits _ value := value.Genuine
  Placed _ _ := True
  Allows _ _ _ := True
  Framed _ _ _ := True
  refl _ := trivial
  trans _ _ := trivial
  fits_grows _ h := h
  placed_grows _ h := h
  allows_grows _ h := h
  framed_grows _ h := h
  hold scope h := h.leftOf (hold_leftOf ..)
  drop scope h := h.leftOf (drop_leftOf ..)
  declare h hallows hfits := h.declare hallows hfits
  assign scope name h hfits := h.assign scope name hfits
  lookup scope name h := h.lookup scope name
  fits_plain {_ value} hscope hkind := by
    cases value with
    | function closure => cases hscope
    | native name => exact absurd rfl hkind
    | _ => trivial
  child h _ _ := h
  declaration _ _ := trivial
  function _ hnode := ⟨trivial, by rw [hnode]; rfl⟩
  body _ h _ := h
  parameter _ _ _ := trivial

theorem genuine_creates : genuine.Creates := by
  intro _ s closure hholds _ _
  have hstore : s.Contains (fun _ _ => True) (fun _ _ => True) Value.Genuine := hholds
  exact ⟨(), trivial, hstore.create trivial, trivial⟩

theorem genuine_createGlobal : genuine.Holds () (Scopes.createGlobal ({} : Store)).2 := by
  have hempty : Store.Contains (fun _ _ => True) (fun _ _ => True) Value.Genuine {} := by
    refine ⟨fun _ => trivial, fun hc => ?_⟩
    cases hc
  exact (hempty.create trivial).declare trivial (List.mem_singleton.2 rfl)

end Store

-- ================================================================ parameters

namespace Store

/-- A name that has just been declared can be assigned to. -/
theorem assign_of_declare {s : Store} {scope : ScopeId} {name : String} (value : Value)
    (h : (s.declare scope name .unknown).1 = .ok ()) :
    ((s.declare scope name .unknown).2.assign scope name value).1 = .ok () := by
  have hlive : ∃ c, (s.declare scope name .unknown).2.cell? scope = some c := by
    unfold declare at h ⊢
    cases hcell : s.cell? scope with
    | none =>
        rw [hcell] at h
        cases h
    | some c =>
        rw [hcell] at h
        dsimp only at h ⊢
        by_cases hhas : c.has name = true
        · rw [if_pos hhas] at h
          cases h
        · rw [if_neg hhas]
          exact ⟨_, cell?_put_self (lt_size_of_cell? hcell)⟩
  obtain ⟨c, hc⟩ := hlive
  have hresolve := resolve_of_has hc (has_of_declare s scope name .unknown h c hc)
  rcases assign_cases (s.declare scope name .unknown).2 scope name value with
    ⟨fault, hfault, -⟩ | ⟨owner, c', -, -, hok, -⟩
  · rw [hresolve] at hfault
    cases hfault
  · exact hok

end Store

namespace Eval

/-- The error of a parameter that could not be declared, in the context of
the call. -/
def Undeclared (function : String) (frame : ScopeId) (parameters : List Parameter)
    (e : Error) : Prop :=
  ∃ p ∈ parameters, ∃ (s : Store) (fault : ScopeFault),
    (s.declare frame p.name .unknown).1 = .error fault
      ∧ e = (errorAt (.scope fault) p.span).within (.callOf function)

/-- Binding parameters fails only where one of them is declared, whatever the
store. That a parameter that has just been declared cannot be assigned to
never happens. -/
theorem only_declarations_of_parameters_fail (function : String) (frame : ScopeId)
    (parameters : List Parameter) (values : List Value) :
    Only (bindParameters (σ := Store) function frame parameters values)
      (Undeclared function frame parameters) := by
  refine .bindParameters frame values (fun p hp s fault hfault => ?_)
    fun p hp s value fault hok hfault => ?_
  · exact ⟨p, hp, s, fault, hfault, rfl⟩
  · rw [show (Scopes.assign frame p.name value (Scopes.declare frame p.name .unknown s).2).1
      = .ok () from Store.assign_of_declare value hok] at hfault
    cases hfault

end Eval

-- =============================================================== whole programs

open Eval in
/-- Errors of a running program are ordinary. -/
def ordinary : Blame Store.genuine where
  Expects _ e := e.Ordinary .runtime
  raised _ h := by
    cases h with
    | unknownNative _ hvalue hname => exact absurd (List.mem_singleton.1 hvalue) hname
    | notADefinition _ hclosure hkind => exact absurd hclosure hkind
    | operated _ hfault =>
        rcases Value.fault_of_combine hfault with ⟨kind, rfl⟩ | rfl <;> exact .raised rfl rfl
    | unbound _ _ _ hfails =>
        obtain ⟨p, -, s, fault, -, rfl⟩ :=
          Only.of_eq_error (only_declarations_of_parameters_fail _ _ _ _) hfails
        have hraised : (errorAt (.scope fault) p.span).Ordinary .runtime := .raised rfl rfl
        exact hraised.within _
    | _ => exact .raised rfl rfl
  child _ _ h := h
  body _ _ h := h.within _

theorem ordinary_of_evaluate {root : Node} {e : Error} (h : (evaluate root).1 = .error e) :
    e.Ordinary .runtime :=
  ordinary.of_evaluate Store.genuine_creates Store.genuine_createGlobal trivial h

/-- What a program fails with that is about scopes is a failed declaration or
look-up of its own. -/
theorem fault_of_scope? {root : Node} {e : Error} {fault : ScopeFault}
    (h : (evaluate root).1 = .error e) (hfault : e.fault.scope? = some fault) :
    e.fault = .runtime (.scope fault) := by
  have hunreserved := (ordinary_of_evaluate h).unreserved
  unfold Fault.scope? RuntimeFault.scope? at hfault
  split at hfault
  · next runtime hruntime =>
    split at hfault <;> cases hfault
    · exact hruntime
    · rw [hruntime] at hunreserved
      cases hunreserved
  · cases hfault

end ScopedScript
