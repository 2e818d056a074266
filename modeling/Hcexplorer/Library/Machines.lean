import Hcexplorer.Library.Outcome
import Mathlib.Logic.Relation

/-!
# Machines that stop

A loop with labels is a machine: one step goes on with another state, or stops with a
result, or panics. A machine whose steps keep an invariant and lower a rank comes to a
result, whatever number of steps above its rank it is given. The rule takes the effect
of one step as its premise, so a proof is one case for each label. Where the run of a
machine is known, it is followed forward from state to state instead.

States and results are arbitrary types.
-/

namespace Hcexplorer.Machines

universe u v

/-- What a step ends with: a next state, or the result of the machine. -/
inductive Turn (σ : Type u) (ρ : Type v) where
  | next (state : σ)
  | stop (result : ρ)

variable {σ : Type u} {ρ : Type v} {step : σ → Outcome (Turn σ ρ)}

/-- The machine, for a number of steps. One that has not stopped by then is blocked. -/
def run (step : σ → Outcome (Turn σ ρ)) : Nat → σ → Outcome ρ
  | 0, _ => .blocked
  | fuel + 1, state =>
    match step state with
    | .returned (.next after) => run step fuel after
    | .returned (.stop result) => .returned result
    | .blocked => .blocked
    | .panicked => .panicked

/-- A step goes on with an invariant and a lower rank, or stops with a result as wanted. -/
inductive Progress (invariant : σ → Prop) (rank : σ → Nat) (post : ρ → Prop) (state : σ) :
    Outcome (Turn σ ρ) → Prop where
  | next {after : σ} (kept : invariant after) (lower : rank after < rank state) :
      Progress invariant rank post state (.returned (.next after))
  | stop {result : ρ} (wanted : post result) :
      Progress invariant rank post state (.returned (.stop result))

/-- A machine that makes progress from every state of the invariant stops with a result
as wanted. -/
theorem run_returns {invariant : σ → Prop} {rank : σ → Nat} {post : ρ → Prop}
    (progress : ∀ state, invariant state → Progress invariant rank post state (step state)) {state : σ}
    (start : invariant state) :
    ∃ result, post result ∧ ∀ fuel, rank state < fuel → run step fuel state = .returned result := by
  generalize isRank : rank state = bound
  induction bound using Nat.strongRecOn generalizing state with
  | ind bound inductionHypothesis =>
    have turn := progress state start
    generalize isStep : step state = taken at turn
    cases turn with
    | @next after kept lower =>
      obtain ⟨result, wanted, returns⟩ := inductionHypothesis _ (isRank ▸ lower) kept rfl
      refine ⟨result, wanted, fun fuel enough => ?_⟩
      obtain ⟨fuel, rfl⟩ : ∃ less, fuel = less + 1 := ⟨fuel - 1, by omega⟩
      simp only [run, isStep]
      exact returns fuel (by omega)
    | @stop result wanted =>
      refine ⟨result, wanted, fun fuel enough => ?_⟩
      obtain ⟨fuel, rfl⟩ : ∃ less, fuel = less + 1 := ⟨fuel - 1, by omega⟩
      simp only [run, isStep]

/-- One step from a state goes on with another state, and neither stops nor panics. -/
def GoesOn (step : σ → Outcome (Turn σ ρ)) (state after : σ) : Prop :=
  step state = .returned (.next after)

/-- Some number of steps from a state go on with another state, each from where the last one led. -/
abbrev Reaches (step : σ → Outcome (Turn σ ρ)) : σ → σ → Prop := Relation.ReflTransGen (GoesOn step)

/-- A machine that comes to a state where it stops returns, with enough steps. -/
theorem Reaches.returns {state after : σ} {result : ρ} (reaches : Reaches step state after)
    (stops : step after = .returned (.stop result)) :
    ∃ enough, ∀ fuel, enough ≤ fuel → run step fuel state = .returned result := by
  induction reaches using Relation.ReflTransGen.head_induction_on with
  | refl =>
    refine ⟨1, fun fuel enough => ?_⟩
    obtain ⟨fuel, rfl⟩ : ∃ less, fuel = less + 1 := ⟨fuel - 1, by omega⟩
    simp only [run, stops]
  | head first _ inductionHypothesis =>
    obtain ⟨needed, returns⟩ := inductionHypothesis
    refine ⟨needed + 1, fun fuel enough => ?_⟩
    obtain ⟨fuel, rfl⟩ : ∃ less, fuel = less + 1 := ⟨fuel - 1, by omega⟩
    simp only [run, show step _ = .returned (.next _) from first]
    exact returns fuel (by omega)

end Hcexplorer.Machines
