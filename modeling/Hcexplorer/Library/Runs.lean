import Mathlib.Data.List.Basic

/-!
# Runs of a partial step function

A system is a state, a set of events and a step that may be undefined at an
event (the event cannot occur there, or nothing continues after it). A run
performs a list of events in order. Laws are stated for runs all of whose events
meet a condition on the state they occur in; an invariant that each such event
keeps holds at the end of every such run, hence in every state it passes.

Nothing here refers to a particular system.
-/

namespace Hcexplorer.Runs

universe u v
variable {σ : Type u} {ε : Type v}

/-- Perform the events in order. An undefined step leaves no state. -/
def exec (step : σ → ε → Option σ) : σ → List ε → Option σ
  | state, [] => some state
  | state, event :: rest => (step state event).bind fun next => exec step next rest

/-- Every event of the run meets the condition in the state where it occurs. -/
def Admitted (step : σ → ε → Option σ) (allowed : σ → ε → Prop) : σ → List ε → Prop
  | _, [] => True
  | state, event :: rest =>
    allowed state event ∧ ∀ next, step state event = some next → Admitted step allowed next rest

variable {step : σ → ε → Option σ} {allowed : σ → ε → Prop}

/-- A run whose first step is known is the run of the rest from there. -/
theorem exec_cons {state next : σ} {event : ε} {rest : List ε}
    (taken : step state event = some next) :
    exec step state (event :: rest) = exec step next rest := by
  simp only [exec, taken, Option.bind_some]

/-- A run of a concatenation is a run of its front followed by one of its back. -/
theorem exec_append (state : σ) (front back : List ε) :
    exec step state (front ++ back) =
      (exec step state front).bind fun middle => exec step middle back := by
  induction front generalizing state with
  | nil => rfl
  | cons event rest inductionHypothesis =>
    simp only [List.cons_append, exec, Option.bind_assoc, inductionHypothesis]

/-- A run of one more event ends where that event leads from the shorter run. -/
theorem exec_concat {state final : σ} {events : List ε} {event : ε}
    (ran : exec step state (events ++ [event]) = some final) :
    ∃ before, exec step state events = some before ∧ step before event = some final := by
  rw [exec_append] at ran
  obtain ⟨before, front, last⟩ := Option.bind_eq_some_iff.mp ran
  obtain ⟨after, taken, ended⟩ := Option.bind_eq_some_iff.mp last
  exact ⟨before, front, Option.some.inj ended ▸ taken⟩

/-- The condition of a longer run is the condition of its front and, from the
state the front reaches, of its back. -/
theorem admitted_append (state : σ) (front back : List ε) :
    Admitted step allowed state (front ++ back) ↔
      Admitted step allowed state front ∧
        ∀ middle, exec step state front = some middle → Admitted step allowed middle back := by
  induction front generalizing state with
  | nil => simp [Admitted, exec]
  | cons event rest inductionHypothesis =>
    simp only [List.cons_append, Admitted, exec, inductionHypothesis, Option.bind_eq_some_iff]
    constructor
    · rintro ⟨here, later⟩
      exact ⟨⟨here, fun next taken => (later next taken).1⟩,
        fun middle ⟨next, taken, reached⟩ => (later next taken).2 middle reached⟩
    · rintro ⟨⟨here, front⟩, back⟩
      exact ⟨here, fun next taken =>
        ⟨front next taken, fun middle reached => back middle ⟨next, taken, reached⟩⟩⟩

/-- The condition on a run whose first step is known. -/
theorem admitted_cons {state next : σ} {event : ε} {rest : List ε}
    (taken : step state event = some next) (here : allowed state event)
    (later : Admitted step allowed next rest) : Admitted step allowed state (event :: rest) := by
  refine ⟨here, fun other reached => ?_⟩
  have same : next = other := Option.some.inj (taken.symm.trans reached)
  exact same ▸ later

/-- Whether a run meets a decidable condition is decided by performing it. -/
instance decidableAdmitted [∀ state event, Decidable (allowed state event)] :
    (state : σ) → (events : List ε) → Decidable (Admitted step allowed state events)
  | _, [] => isTrue trivial
  | state, event :: rest =>
    match taken : step state event with
    | none => decidable_of_iff (allowed state event)
        ⟨fun here => ⟨here, fun next reached => by rw [taken] at reached; cases reached⟩, And.left⟩
    | some next =>
      have := decidableAdmitted next rest
      decidable_of_iff (allowed state event ∧ Admitted step allowed next rest)
        ⟨fun both => admitted_cons taken both.1 both.2,
          fun admitted => ⟨admitted.1, admitted.2 next taken⟩⟩

/-- What holds of each event by itself can be joined to the condition. -/
theorem Admitted.and_mem {property : ε → Prop} {state : σ} {events : List ε}
    (admitted : Admitted step allowed state events) (each : ∀ event ∈ events, property event) :
    Admitted step (fun current event => allowed current event ∧ property event) state events := by
  induction events generalizing state with
  | nil => trivial
  | cons event rest inductionHypothesis =>
    refine ⟨⟨admitted.1, each event List.mem_cons_self⟩, fun next taken => ?_⟩
    exact inductionHypothesis (admitted.2 next taken)
      fun other member => each other (List.mem_cons_of_mem _ member)

/-- What holds of each event by itself is a condition that the run meets. -/
theorem admitted_of_mem {property : ε → Prop} {events : List ε}
    (each : ∀ event ∈ events, property event) (state : σ) :
    Admitted step (fun _ event => property event) state events := by
  induction events generalizing state with
  | nil => trivial
  | cons event rest inductionHypothesis =>
    refine ⟨each event List.mem_cons_self, fun next _ => ?_⟩
    exact inductionHypothesis (fun other member => each other (List.mem_cons_of_mem _ member)) next

/-- A condition that keeps an invariant, and implies another condition wherever
the invariant holds, implies it along the whole run. -/
theorem Admitted.imp {other : σ → ε → Prop} (invariant : σ → Prop)
    (kept : ∀ state event next, invariant state → allowed state event →
      step state event = some next → invariant next)
    (stronger : ∀ state event, invariant state → allowed state event → other state event)
    {state : σ} {events : List ε} (holds : invariant state)
    (admitted : Admitted step allowed state events) : Admitted step other state events := by
  induction events generalizing state with
  | nil => trivial
  | cons event rest inductionHypothesis =>
    refine ⟨stronger state event holds admitted.1, fun next taken => ?_⟩
    exact inductionHypothesis (kept state event next holds admitted.1 taken) (admitted.2 next taken)

/-- Conditions that agree wherever an invariant holds admit the same runs, when what
they admit keeps the invariant. -/
theorem admitted_iff {other : σ → ε → Prop} (invariant : σ → Prop)
    (kept : ∀ state event next, invariant state → allowed state event →
      step state event = some next → invariant next)
    (same : ∀ state event, invariant state → (allowed state event ↔ other state event))
    {state : σ} {events : List ε} (holds : invariant state) :
    Admitted step allowed state events ↔ Admitted step other state events := by
  constructor
  · exact Admitted.imp invariant kept (fun state event here => (same state event here).mp) holds
  · exact Admitted.imp invariant
      (fun state event next here admitted => kept state event next here ((same state event here).mpr
        admitted))
      (fun state event here => (same state event here).mpr) holds

/-- The property holds in every state the run passes, the first and the last
included. -/
def Throughout (step : σ → ε → Option σ) (property : σ → Prop) : σ → List ε → Prop
  | state, [] => property state
  | state, event :: rest =>
    property state ∧ ∀ next, step state event = some next → Throughout step property next rest

/-- A property that holds throughout a run holds where the run begins. -/
theorem Throughout.start {property : σ → Prop} {state : σ} {events : List ε}
    (throughout : Throughout step property state events) : property state := by
  cases events with
  | nil => exact throughout
  | cons event rest => exact throughout.1

/-- A property that holds throughout a run holds where the run ends. -/
theorem Throughout.final {property : σ → Prop} {state final : σ} {events : List ε}
    (throughout : Throughout step property state events)
    (ran : exec step state events = some final) : property final := by
  induction events generalizing state with
  | nil => exact Option.some.inj ran ▸ throughout
  | cons event rest inductionHypothesis =>
    obtain ⟨next, taken, continued⟩ := Option.bind_eq_some_iff.mp ran
    exact inductionHypothesis (throughout.2 next taken) continued

/-- When an event keeps a property exactly under a condition, wherever the
property and an invariant hold, the property holds throughout exactly the runs that
meet the condition. The invariant needs to be kept only where the property is. -/
theorem throughout_iff_admitted {property : σ → Prop} (invariant : σ → Prop)
    (kept : ∀ state event next, invariant state → property state →
      step state event = some next → property next → invariant next)
    (exact_ : ∀ state event, invariant state → property state →
      (allowed state event ↔ ∀ next, step state event = some next → property next))
    {state : σ} {events : List ε} (holds : invariant state) (start : property state) :
    Throughout step property state events ↔ Admitted step allowed state events := by
  induction events generalizing state with
  | nil => exact iff_of_true start trivial
  | cons event rest inductionHypothesis =>
    have here := exact_ state event holds start
    constructor
    · rintro ⟨-, later⟩
      have nexts : ∀ next, step state event = some next → property next :=
        fun next taken => (later next taken).start
      exact ⟨here.mpr nexts, fun next taken =>
        (inductionHypothesis (kept state event next holds start taken (nexts next taken))
          (nexts next taken)).mp (later next taken)⟩
    · rintro ⟨allowed, later⟩
      have nexts := here.mp allowed
      exact ⟨start, fun next taken =>
        (inductionHypothesis (kept state event next holds start taken (nexts next taken))
          (nexts next taken)).mpr (later next taken)⟩

/-- An invariant kept by every admitted event survives every admitted run. -/
theorem exec_invariant (invariant : σ → Prop)
    (kept : ∀ state event next, invariant state → allowed state event →
      step state event = some next → invariant next)
    {state final : σ} {events : List ε} (start : invariant state)
    (admitted : Admitted step allowed state events)
    (ran : exec step state events = some final) : invariant final := by
  induction events generalizing state with
  | nil => exact Option.some.inj ran ▸ start
  | cons event rest inductionHypothesis =>
    obtain ⟨next, taken, continued⟩ := Option.bind_eq_some_iff.mp ran
    exact inductionHypothesis (kept state event next start admitted.1 taken)
      (admitted.2 next taken) continued

end Hcexplorer.Runs
