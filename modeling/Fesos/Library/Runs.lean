/-
Runs of a partial step function under a side condition on each call, the
induction rule for invariants of every state such a run reaches, and an
executor for concrete runs.
-/

set_option autoImplicit false

namespace Fesos.Library

universe u v w

/-- `Run step admissible start calls final`: executing `calls` from `start`, each
call admissible in the state it is made in and each returning, ends in `final`. -/
inductive Run {State : Type u} {Call : Type v} {Failure : Type w}
    (step : State → Call → Except Failure State) (admissible : State → Call → Prop) :
    State → List Call → State → Prop where
  | nil (state : State) : Run step admissible state [] state
  | cons {start middle final : State} {calls : List Call} (call : Call)
      (legal : admissible start call) (returned : step start call = .ok middle)
      (rest : Run step admissible middle calls final) :
      Run step admissible start (call :: calls) final

namespace Run

variable {State : Type u} {Call : Type v} {Failure : Type w}
  {step : State → Call → Except Failure State} {admissible : State → Call → Prop}
  {start final : State} {calls : List Call}

/-- What holds at the start and survives every admissible call holds in every
state reached. -/
theorem invariant (property : State → Prop)
    (run : Run step admissible start calls final) (initially : property start)
    (kept : ∀ state call next, property state → admissible state call →
      step state call = .ok next → property next) :
    property final := by
  induction run with
  | nil state => exact initially
  | cons call legal returned rest ih =>
    exact ih (kept _ call _ initially legal returned)

/-- Execute a list of calls, stopping at the first that is not admissible or does
not return. -/
def execute (step : State → Call → Except Failure State) (admissible : State → Call → Prop)
    [∀ state call, Decidable (admissible state call)] : State → List Call → Option State
  | state, [] => some state
  | state, call :: calls =>
    if admissible state call then
      match step state call with
      | .ok next => execute step admissible next calls
      | .error _ => none
    else none

theorem of_execute [∀ state call, Decidable (admissible state call)]
    (executed : execute step admissible start calls = some final) :
    Run step admissible start calls final := by
  induction calls generalizing start with
  | nil =>
    cases executed
    exact .nil final
  | cons call calls ih =>
    rw [execute] at executed
    split at executed
    · rename_i legal
      split at executed
      · rename_i next returned
        exact .cons call legal returned (ih executed)
      · cases executed
    · cases executed

/-- A run found by executing it, with a decidable fact about its final state. -/
theorem exists_of_execute [∀ state call, Decidable (admissible state call)]
    (property : State → Prop) [DecidablePred property]
    (executed : (execute step admissible start calls).any
      (fun final => decide (property final)) = true) :
    ∃ final, Run step admissible start calls final ∧ property final := by
  cases ran : execute step admissible start calls with
  | none =>
    rw [ran] at executed
    cases executed
  | some final =>
    rw [ran] at executed
    exact ⟨final, of_execute ran, of_decide_eq_true executed⟩

/-- The same for a run whose first state is itself computed. -/
theorem exists_started {Origin : Type u} {Cause : Type w}
    [∀ state call, Decidable (admissible state call)] {origin : Except Cause Origin}
    (enter : Origin → State) (property : State → Prop) [DecidablePred property]
    (executed : (origin.toOption.bind (fun begun =>
      execute step admissible (enter begun) calls)).any (fun final => decide (property final)) =
        true) :
    ∃ begun final, origin = .ok begun ∧ Run step admissible (enter begun) calls final ∧
      property final := by
  cases origin with
  | error cause => cases executed
  | ok begun =>
    obtain ⟨final, run, facts⟩ := exists_of_execute property executed
    exact ⟨begun, final, rfl, run, facts⟩

end Run

end Fesos.Library
