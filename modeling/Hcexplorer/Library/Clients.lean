import Hcexplorer.Library.Interactive
import Hcexplorer.Library.Runs
import Mathlib.Logic.Function.Basic

/-!
# Clients of one server

Any number of clients call programs on a server. A client begins at any time, the
requests of all of them are served one by one in any order, and what is decided
outside for a request, such as whether it fails, is an argument of serving it.

The law is one of rely and guarantee. A `Rely` says how the shared state may move.
A program is `Secure` in a state if, wherever the others move the state before each of
its requests, each request moves it as the others rely on, and the program ends with
its postcondition, from then on. Programs that are secure where they are called stay
secure in every interleaving, so every client that ended has its postcondition.

States, requests, replies, calls and results are arbitrary types.
-/

namespace Hcexplorer.Interactive.Prog

variable {κ ρ α δ β : Type}

/-- Perform the body for each element in order, up to the first error. -/
def forEach (body : β → Prog κ ρ (Except δ Unit)) : List β → Prog κ ρ (Except δ Unit)
  | [] => .ret (.ok ())
  | each :: rest => (body each).attempt fun _ => forEach body rest

/-- The requests of a loop are those of its body. -/
theorem Only.forEach {kind : κ → Prop} {body : β → Prog κ ρ (Except δ Unit)}
    (only : ∀ element, (body element).Only kind) (elements : List β) :
    (forEach body elements).Only kind := by
  induction elements with
  | nil => trivial
  | cons first rest inductionHypothesis => exact (only first).attempt fun _ => inductionHypothesis

/-- Continuing a program twice is continuing it once with the continued program. -/
theorem bind_assoc {γ : Type} (program : Prog κ ρ α) (first : α → Prog κ ρ β)
    (second : β → Prog κ ρ γ) :
    (program.bind first).bind second = program.bind fun result => (first result).bind second := by
  induction program with
  | ret result => rfl
  | call request next inductionHypothesis => exact congrArg (Prog.call request) (funext inductionHypothesis)

/-- Continuing a program twice, unless it fails, is continuing it once with the continued
program. -/
theorem attempt_assoc {γ : Type} (program : Prog κ ρ (Except δ α))
    (first : α → Prog κ ρ (Except δ β)) (second : β → Prog κ ρ (Except δ γ)) :
    (program.attempt first).attempt second =
      program.attempt fun result => (first result).attempt second := by
  rw [attempt, attempt, bind_assoc]
  congr 1
  funext result
  cases result <;> rfl

end Hcexplorer.Interactive.Prog

namespace Hcexplorer.Clients

open Interactive Runs

/-- How a request is served, given what is decided outside, and the program of each
call. -/
structure Service (σ κ ρ φ γ α : Type) where
  serve : φ → κ → σ → ρ × σ
  program : γ → Prog κ ρ α

variable {σ κ ρ φ γ α β δ ε ι : Type}

/-- The shared state, and for each client that has begun its call and what is left of
the program. -/
structure State (σ κ ρ γ α ι : Type) where
  shared : σ
  clients : ι → Option (γ × Prog κ ρ α)

/-- What happens: a client begins a call, or its next request is served. -/
inductive Event (φ γ ι : Type) where
  | start (client : ι) (call : γ)
  | serve (client : ι) (outside : φ)

/-- At the start no client has begun, and the shared state is a given one. -/
def State.initial (shared : σ) : State σ κ ρ γ α ι := ⟨shared, fun _ => none⟩

section Step

variable [DecidableEq ι]

/-- What is left of a client's program, after a change. -/
def State.goOn (state : State σ κ ρ γ α ι) (client : ι) (call : γ) (rest : Prog κ ρ α) (shared : σ) :
    State σ κ ρ γ α ι :=
  ⟨shared, Function.update state.clients client (some (call, rest))⟩

/-- One event. A client begins once, and is served while it has a request. -/
def step (service : Service σ κ ρ φ γ α) (state : State σ κ ρ γ α ι) :
    Event φ γ ι → Option (State σ κ ρ γ α ι)
  | .start client call =>
    match state.clients client with
    | some _ => none
    | none => some (state.goOn client call (service.program call) state.shared)
  | .serve client outside =>
    match state.clients client with
    | some (call, .call request next) =>
      let served := service.serve outside request state.shared
      some (state.goOn client call (next served.1) served.2)
    | _ => none

variable {service : Service σ κ ρ φ γ α} {state after : State σ κ ρ γ α ι}

/-- An event starts a client that has not begun, or serves the next request of one that has. -/
theorem step_cases {event : Event φ γ ι} (taken : step service state event = some after) :
    (∃ client call, event = .start client call ∧ state.clients client = none ∧
        after = state.goOn client call (service.program call) state.shared) ∨
      ∃ client outside call request next, event = .serve client outside ∧
        state.clients client = some (call, .call request next) ∧
        after = state.goOn client call (next (service.serve outside request state.shared).1)
          (service.serve outside request state.shared).2 := by
  cases event with
  | start client call =>
    simp only [step] at taken
    split at taken
    · cases taken
    · rename_i fresh
      exact Or.inl ⟨client, call, rfl, fresh, (Option.some.inj taken).symm⟩
  | serve client outside =>
    simp only [step] at taken
    split at taken
    · rename_i call request next here
      exact Or.inr ⟨client, outside, call, request, next, rfl, here, (Option.some.inj taken).symm⟩
    · cases taken

/-- What a client has left after one client goes on: the given rest if it is that one, and else
what it had. -/
theorem goOn_clients {client other : ι} {call called : γ} {rest left : Prog κ ρ α} {shared : σ}
    (found : (state.goOn client call rest shared).clients other = some (called, left)) :
    (other = client ∧ called = call ∧ left = rest) ∨
      (other ≠ client ∧ state.clients other = some (called, left)) := by
  by_cases same : other = client
  · subst same
    simp only [State.goOn, Function.update_self] at found
    obtain ⟨rfl, rfl⟩ := Prod.mk.inj (Option.some.inj found)
    exact Or.inl ⟨rfl, rfl, rfl⟩
  · simp only [State.goOn, Function.update_of_ne same] at found
    exact Or.inr ⟨same, found⟩

end Step

/-- How the shared state may move, in any number of steps. -/
structure Rely (σ : Type) where
  moves : σ → σ → Prop
  stays : ∀ state, moves state state
  follows : ∀ {first second third}, moves first second → moves second third → moves first third

/-- The program keeps the rely at each of its requests and ends with its postcondition,
wherever others move the state. -/
def Secure (service : Service σ κ ρ φ γ β) (rely : Rely σ) (allowed : φ → Prop)
    (post : α → σ → Prop) : Prog κ ρ α → σ → Prop
  | .ret result, state => ∀ later, rely.moves state later → post result later
  | .call request next, state => ∀ later, rely.moves state later → ∀ outside, allowed outside →
    rely.moves later (service.serve outside request later).2 ∧
      Secure service rely allowed post (next (service.serve outside request later).1)
        (service.serve outside request later).2

/-- What holds of a result and a state: one property of a value, another of an error. -/
def Ends (success : α → σ → Prop) (failure : δ → σ → Prop) : Except δ α → σ → Prop
  | .ok value, state => success value state
  | .error err, state => failure err state

namespace Secure

variable {service : Service σ κ ρ φ γ β} {rely : Rely σ} {allowed : φ → Prop}
  {post weaker : α → σ → Prop} {program : Prog κ ρ α} {state : σ}

/-- The others may move the state, and the program is as secure from where they leave it. -/
theorem later (secure : Secure service rely allowed post program state) {after : σ}
    (moved : rely.moves state after) : Secure service rely allowed post program after := by
  cases program with
  | ret result => exact fun later onward => secure later (rely.follows moved onward)
  | call request next => exact fun later onward => secure later (rely.follows moved onward)

/-- A program that is secure for a postcondition is secure for a weaker one. -/
theorem mono (secure : Secure service rely allowed post program state)
    (implies : ∀ result later, post result later → weaker result later) :
    Secure service rely allowed weaker program state := by
  induction program generalizing state with
  | ret result => exact fun later moved => implies result later (secure later moved)
  | call request next inductionHypothesis =>
    intro later moved outside admitted
    obtain ⟨kept, continued⟩ := secure later moved outside admitted
    exact ⟨kept, inductionHypothesis _ continued⟩

/-- What every move keeps can be added to the postcondition. -/
theorem keep {kept : σ → Prop} (stable : ∀ first second, rely.moves first second → kept first →
      kept second) (holds : kept state) (secure : Secure service rely allowed post program state) :
    Secure service rely allowed (fun result later => post result later ∧ kept later) program
      state := by
  induction program generalizing state with
  | ret result => exact fun later moved => ⟨secure later moved, stable _ _ moved holds⟩
  | call request next inductionHypothesis =>
    intro later moved outside admitted
    obtain ⟨guaranteed, continued⟩ := secure later moved outside admitted
    exact ⟨guaranteed, inductionHypothesis _ (stable _ _ guaranteed (stable _ _ moved holds)) continued⟩

/-- The rule for a program continued by another: the second has to be secure wherever the first
one may end. -/
theorem bind {middle : δ → σ → Prop} {first : Prog κ ρ δ} {continuation : δ → Prog κ ρ α}
    (secure : Secure service rely allowed middle first state)
    (continued : ∀ result after, middle result after →
      Secure service rely allowed post (continuation result) after) :
    Secure service rely allowed post (first.bind continuation) state := by
  induction first generalizing state with
  | ret result => exact continued result state (secure state (rely.stays state))
  | call request next inductionHypothesis =>
    intro later moved outside admitted
    obtain ⟨kept, onward⟩ := secure later moved outside admitted
    exact ⟨kept, inductionHypothesis _ onward⟩

/-- The rule for a program continued unless it fails. -/
theorem attempt {value : Type} {success : value → σ → Prop} {failure : δ → σ → Prop}
    {later : α → σ → Prop}
    (stable : ∀ first second err, rely.moves first second → failure err first → failure err second)
    {first : Prog κ ρ (Except δ value)} {continuation : value → Prog κ ρ (Except δ α)}
    (secure : Secure service rely allowed (Ends success failure) first state)
    (continued : ∀ result after, success result after →
      Secure service rely allowed (Ends later failure) (continuation result) after) :
    Secure service rely allowed (Ends later failure) (first.attempt continuation) state := by
  refine secure.bind fun result after reached => ?_
  cases result with
  | ok value => exact continued value after reached
  | error err => exact fun onward moved => stable _ _ _ moved reached

/-- A loop secures each of its elements, if its body does wherever an invariant holds. -/
theorem forEach {secured : δ → σ → Prop} {failure : ε → σ → Prop} {invariant : σ → Prop}
    (stable : ∀ first second err, rely.moves first second → failure err first → failure err second)
    (lasting : ∀ first second each, rely.moves first second → secured each first →
      secured each second)
    (kept : ∀ first second, rely.moves first second → invariant first → invariant second)
    {body : δ → Prog κ ρ (Except ε Unit)} {elements : List δ} {state : σ}
    (each : ∀ element ∈ elements, ∀ here, invariant here →
      Secure service rely allowed (Ends (fun _ => secured element) failure) (body element) here)
    (holds : invariant state) :
    Secure service rely allowed
      (Ends (fun _ later => ∀ element ∈ elements, secured element later) failure)
      (Prog.forEach body elements) state := by
  induction elements generalizing state with
  | nil => exact fun later _ element member => absurd member List.not_mem_nil
  | cons first rest inductionHypothesis =>
    have head := (each first List.mem_cons_self state holds).keep kept holds
    refine head.bind fun result after reached => ?_
    obtain ⟨ended, still⟩ := reached
    cases result with
    | error err => exact fun onward moved => stable _ _ _ moved ended
    | ok _ =>
      have tail := (inductionHypothesis (fun element member => each element
        (List.mem_cons_of_mem _ member)) still).keep
        (fun first second => lasting first second _) ended
      refine tail.mono fun result later reached => ?_
      cases result with
      | error err => exact reached.1
      | ok _ =>
        intro element member
        rcases List.mem_cons.mp member with rfl | among
        · exact reached.2
        · exact reached.1 element among

/-- A program is secure without a postcondition if each request that it makes moves the
state as relied on. -/
theorem of_only {kind : κ → Prop}
    (serves : ∀ request state outside, kind request → allowed outside →
      rely.moves state (service.serve outside request state).2)
    (only : program.Only kind) (state : σ) :
    Secure service rely allowed (fun _ _ => True) program state := by
  induction program generalizing state with
  | ret result => exact fun _ _ => trivial
  | call request next inductionHypothesis =>
    intro later _ outside admitted
    exact ⟨serves request later outside only.1 admitted, inductionHypothesis _ (only.2 _) _⟩

end Secure

section Runs

variable {service : Service σ κ ρ φ γ α} {rely : Rely σ} {allowed : φ → Prop}
  {called : γ → Prop} {post : γ → α → σ → Prop} {invariant : σ → Prop}

/-- What an event brings in is permitted: the call that is started, or what is decided outside of
the service. -/
def Event.Permitted (called : γ → Prop) (allowed : φ → Prop) : Event φ γ ι → Prop
  | .start _ call => called call
  | .serve _ outside => allowed outside

/-- Every client is secure, with the postcondition of its call. -/
def State.Secured (service : Service σ κ ρ φ γ α) (rely : Rely σ) (allowed : φ → Prop)
    (post : γ → α → σ → Prop) (state : State σ κ ρ γ α ι) : Prop :=
  ∀ client call program, state.clients client = some (call, program) →
    Secure service rely allowed (post call) program state.shared

/-- Where no client has begun yet, every client is secured. -/
theorem State.Secured.initial (shared : σ) :
    (State.initial shared : State σ κ ρ γ α ι).Secured service rely allowed post :=
  fun _ _ _ found => by cases found

/-- A secure client that has ended has its postcondition. -/
theorem State.Secured.ended {state : State σ κ ρ γ α ι}
    (secured : state.Secured service rely allowed post) {client : ι} {call : γ} {result : α}
    (found : state.clients client = some (call, .ret result)) : post call result state.shared :=
  secured client call _ found state.shared (rely.stays _)

variable [DecidableEq ι]

/-- What an event keeps, when calls are secure where they begin. -/
theorem State.Secured.step
    (kept : ∀ first second, rely.moves first second → invariant first → invariant second)
    (secure : ∀ call state, called call → invariant state →
      Secure service rely allowed (post call) (service.program call) state)
    {state after : State σ κ ρ γ α ι} {event : Event φ γ ι} (holds : invariant state.shared)
    (secured : state.Secured service rely allowed post) (permitted : event.Permitted called allowed)
    (taken : Clients.step service state event = some after) :
    rely.moves state.shared after.shared ∧ invariant after.shared ∧
      after.Secured service rely allowed post := by
  rcases step_cases taken with ⟨client, call, rfl, -, rfl⟩ |
    ⟨client, outside, call, request, next, rfl, here, rfl⟩
  · refine ⟨rely.stays _, holds, fun other called left found => ?_⟩
    rcases goOn_clients found with ⟨-, rfl, rfl⟩ | ⟨-, before⟩
    · exact secure called state.shared permitted holds
    · exact secured other called left before
  · obtain ⟨moved, continued⟩ := secured client call _ here state.shared (rely.stays _) outside permitted
    refine ⟨moved, kept _ _ moved holds, fun other called left found => ?_⟩
    rcases goOn_clients found with ⟨-, rfl, rfl⟩ | ⟨-, before⟩
    · exact continued
    · exact (secured other called left before).later moved

/-- In every run of permitted events the shared state moves as relied on, and every
client stays secure. -/
theorem State.Secured.exec
    (kept : ∀ first second, rely.moves first second → invariant first → invariant second)
    (secure : ∀ call state, called call → invariant state →
      Secure service rely allowed (post call) (service.program call) state)
    {state final : State σ κ ρ γ α ι} {events : List (Event φ γ ι)} (holds : invariant state.shared)
    (secured : state.Secured service rely allowed post)
    (permitted : ∀ event ∈ events, event.Permitted called allowed)
    (ran : Runs.exec (Clients.step service) state events = some final) :
    rely.moves state.shared final.shared ∧ invariant final.shared ∧
      final.Secured service rely allowed post := by
  induction events generalizing state with
  | nil =>
    obtain rfl := Option.some.inj ran
    exact ⟨rely.stays _, holds, secured⟩
  | cons event rest inductionHypothesis =>
    obtain ⟨middle, taken, continued⟩ := Option.bind_eq_some_iff.mp ran
    obtain ⟨moved, still, securedMiddle⟩ :=
      secured.step kept secure holds (permitted event List.mem_cons_self) taken
    obtain ⟨onward, stillFinal, securedFinal⟩ := inductionHypothesis still securedMiddle
      (fun other member => permitted other (List.mem_cons_of_mem _ member)) continued
    exact ⟨rely.follows moved onward, stillFinal, securedFinal⟩

end Runs

section Renewal

/-- Whenever a request of the program is replied in a turning way, the rest of the program
is as stated from that state on. -/
def Renewed (service : Service σ κ ρ φ γ β) (rely : Rely σ) (allowed : φ → Prop)
    (turning : κ → ρ → Prop) (renewed : Prog κ ρ α → σ → Prop) : Prog κ ρ α → σ → Prop
  | .ret _, _ => True
  | .call request next, state => ∀ later, rely.moves state later → ∀ outside, allowed outside →
    let served := service.serve outside request later
    (turning request served.1 → renewed (next served.1) served.2) ∧
      Renewed service rely allowed turning renewed (next served.1) served.2

namespace Renewed

variable {service : Service σ κ ρ φ γ β} {rely : Rely σ} {allowed : φ → Prop}
  {turning : κ → ρ → Prop} {renewed : Prog κ ρ α → σ → Prop} {program : Prog κ ρ α} {state : σ}

/-- The others may move the state, and the program is as renewed from where they leave it. -/
theorem later (renews : Renewed service rely allowed turning renewed program state) {after : σ}
    (moved : rely.moves state after) : Renewed service rely allowed turning renewed program after := by
  cases program with
  | ret result => trivial
  | call request next => exact fun later onward => renews later (rely.follows moved onward)

/-- A program none of whose requests turns is renewed, as there is nothing to show. -/
theorem of_only (only : program.Only fun request => ∀ reply, ¬ turning request reply) (state : σ) :
    Renewed service rely allowed turning renewed program state := by
  induction program generalizing state with
  | ret result => trivial
  | call request next inductionHypothesis =>
    exact fun later _ outside _ => ⟨fun turned => absurd turned (only.1 _),
      inductionHypothesis _ (only.2 _) _⟩

/-- The rule for a program continued by another: both are renewed, the first one with the second
behind it. -/
theorem bind {middle : δ → σ → Prop} {first : Prog κ ρ δ} {continuation : δ → Prog κ ρ α}
    (secure : Secure service rely allowed middle first state)
    (own : Renewed service rely allowed turning
      (fun rest after => renewed (rest.bind continuation) after) first state)
    (continued : ∀ result after, middle result after →
      Renewed service rely allowed turning renewed (continuation result) after) :
    Renewed service rely allowed turning renewed (first.bind continuation) state := by
  induction first generalizing state with
  | ret result => exact continued result state (secure state (rely.stays state))
  | call request next inductionHypothesis =>
    intro later moved outside admitted
    obtain ⟨turned, onward⟩ := own later moved outside admitted
    exact ⟨turned, inductionHypothesis _ (secure later moved outside admitted).2 onward⟩

end Renewed

variable [DecidableEq ι] {service : Service σ κ ρ φ γ α} {rely : Rely σ} {allowed : φ → Prop}
  {called : γ → Prop} {post : γ → α → σ → Prop} {invariant : σ → Prop} {turning : κ → ρ → Prop}
  {since : γ → σ → α → σ → Prop} {goal : σ → Prop}

/-- A client that is secure since a state in which the goal was reached. -/
def State.Leader (service : Service σ κ ρ φ γ α) (rely : Rely σ) (allowed : φ → Prop)
    (since : γ → σ → α → σ → Prop) (goal : σ → Prop) (state : State σ κ ρ γ α ι) : Prop :=
  ∃ client call program base, state.clients client = some (call, program) ∧ goal base ∧
    Secure service rely allowed (since call base) program state.shared

/-- Every client renews itself since the state in which one of its requests turns. -/
def State.Renewing (service : Service σ κ ρ φ γ α) (rely : Rely σ) (allowed : φ → Prop)
    (turning : κ → ρ → Prop) (since : γ → σ → α → σ → Prop) (state : State σ κ ρ γ α ι) : Prop :=
  ∀ client call program, state.clients client = some (call, program) →
    Renewed service rely allowed turning
      (fun rest base => Secure service rely allowed (since call base) rest base) program state.shared

omit [DecidableEq ι] in
/-- Where no client has begun yet, every client is renewing. -/
theorem State.Renewing.initial (shared : σ) :
    (State.initial shared : State σ κ ρ γ α ι).Renewing service rely allowed turning since :=
  fun _ _ _ found => by cases found

/-- A step keeps every client renewing, if each call begins so in every state of the invariant. -/
theorem State.Renewing.step
    (renews : ∀ call state, called call → invariant state →
      Renewed service rely allowed turning
        (fun rest base => Secure service rely allowed (since call base) rest base)
        (service.program call) state)
    {state after : State σ κ ρ γ α ι} {event : Event φ γ ι} (holds : invariant state.shared)
    (renewing : state.Renewing service rely allowed turning since)
    (moved : rely.moves state.shared after.shared) (permitted : event.Permitted called allowed)
    (taken : Clients.step service state event = some after) :
    after.Renewing service rely allowed turning since := by
  rcases step_cases taken with ⟨client, call, rfl, -, rfl⟩ |
    ⟨client, outside, call, request, next, rfl, here, rfl⟩
  · intro other called left found
    rcases goOn_clients found with ⟨-, rfl, rfl⟩ | ⟨-, before⟩
    · exact renews called state.shared permitted holds
    · exact renewing other called left before
  · intro other called left found
    rcases goOn_clients found with ⟨-, rfl, rfl⟩ | ⟨-, before⟩
    · exact (renewing client called _ here state.shared (rely.stays _) outside permitted).2
    · exact (renewing other called left before).later moved

/-- A leader stays one, and a request that reaches the goal makes its client the leader. -/
theorem State.Leader.step
    (turns : ∀ outside request state, allowed outside → ¬ goal state →
      goal (service.serve outside request state).2 →
      turning request (service.serve outside request state).1)
    {state after : State σ κ ρ γ α ι} {event : Event φ γ ι}
    (renewing : state.Renewing service rely allowed turning since)
    (moved : rely.moves state.shared after.shared) (permitted : event.Permitted called allowed)
    (taken : Clients.step service state event = some after) {before : Prop}
    (led : goal state.shared → before ∨ state.Leader service rely allowed since goal)
    (reached : goal after.shared) : before ∨ after.Leader service rely allowed since goal := by
  rcases step_cases taken with ⟨client, call, rfl, fresh, rfl⟩ |
    ⟨client, outside, call, request, next, rfl, here, rfl⟩
  · refine (led reached).imp_right ?_
    rintro ⟨leader, leading, program, base, found, based, secure⟩
    have other : leader ≠ client := fun same => by rw [same, fresh] at found; cases found
    refine ⟨leader, leading, program, base, ?_, based, secure⟩
    simpa only [State.goOn, Function.update_of_ne other] using found
  · have mine := Function.update_self (β := fun _ => Option (γ × Prog κ ρ α)) client
      (some (call, next (service.serve outside request state.shared).1)) state.clients
    by_cases already : goal state.shared
    · refine (led already).imp_right ?_
      rintro ⟨leader, leading, program, base, found, based, secure⟩
      by_cases same : leader = client
      · subst same
        obtain ⟨rfl, rfl⟩ := Prod.mk.inj (Option.some.inj (here.symm.trans found))
        exact ⟨leader, call, _, base, mine, based,
          (secure state.shared (rely.stays _) outside permitted).2⟩
      · refine ⟨leader, leading, program, base, ?_, based, secure.later moved⟩
        simpa only [State.goOn, Function.update_of_ne same] using found
    · have turned := turns outside request state.shared permitted already reached
      exact Or.inr ⟨client, call, _, _, mine, reached,
        (renewing client call _ here state.shared (rely.stays _) outside permitted).1 turned⟩

/-- Where a goal is reached in a run, it was there at the beginning, or one of the clients
has been secure since it was reached: the one whose request brought it about. -/
theorem State.Secured.leader
    (kept : ∀ first second, rely.moves first second → invariant first → invariant second)
    (secure : ∀ call state, called call → invariant state →
      Secure service rely allowed (post call) (service.program call) state)
    (renews : ∀ call state, called call → invariant state →
      Renewed service rely allowed turning
        (fun rest base => Secure service rely allowed (since call base) rest base)
        (service.program call) state)
    (turns : ∀ outside request state, allowed outside → ¬ goal state →
      goal (service.serve outside request state).2 →
      turning request (service.serve outside request state).1)
    {state final : State σ κ ρ γ α ι} {events : List (Event φ γ ι)} (holds : invariant state.shared)
    (secured : state.Secured service rely allowed post)
    (renewing : state.Renewing service rely allowed turning since)
    {before : Prop} (led : goal state.shared → before ∨ state.Leader service rely allowed since goal)
    (permitted : ∀ event ∈ events, event.Permitted called allowed)
    (ran : Runs.exec (Clients.step service) state events = some final) :
    goal final.shared → before ∨ final.Leader service rely allowed since goal := by
  induction events generalizing state with
  | nil =>
    obtain rfl := Option.some.inj ran
    exact led
  | cons event rest inductionHypothesis =>
    obtain ⟨middle, taken, continued⟩ := Option.bind_eq_some_iff.mp ran
    have here := permitted event List.mem_cons_self
    obtain ⟨moved, still, securedMiddle⟩ := secured.step kept secure holds here taken
    exact inductionHypothesis still securedMiddle (renewing.step renews holds moved here taken)
      (State.Leader.step turns renewing moved here taken led)
      (fun other member => permitted other (List.mem_cons_of_mem _ member)) continued

end Renewal

section Alone

/-- Run a program to its end with no other client between its requests, the same being
decided outside for each. -/
def alone (service : Service σ κ ρ φ γ β) (outside : φ) : Prog κ ρ α → σ → α × σ
  | .ret result, state => (result, state)
  | .call request next, state =>
    let served := service.serve outside request state
    alone service outside (next served.1) served.2

variable {service : Service σ κ ρ φ γ β} {outside : φ}

/-- A secure program that runs alone ends with its postcondition. -/
theorem Secure.alone {rely : Rely σ} {allowed : φ → Prop} {post : α → σ → Prop}
    {program : Prog κ ρ α} {state : σ} (secure : Secure service rely allowed post program state)
    (admitted : allowed outside) :
    post (Clients.alone service outside program state).1 (Clients.alone service outside program state).2 := by
  induction program generalizing state with
  | ret result => exact secure state (rely.stays state)
  | call request next inductionHypothesis =>
    exact inductionHypothesis _ (secure state (rely.stays state) outside admitted).2

/-- A continued program runs alone as its first part does, and then as the second does from
there. -/
theorem alone_bind (program : Prog κ ρ δ) (continuation : δ → Prog κ ρ α) (state : σ) :
    alone service outside (program.bind continuation) state =
      alone service outside (continuation (alone service outside program state).1)
        (alone service outside program state).2 := by
  induction program generalizing state with
  | ret result => rfl
  | call request next inductionHypothesis => exact inductionHypothesis _ _

/-- A program that succeeds alone is continued with its result, from the state that it left. -/
theorem alone_attempt {value : Type} {program : Prog κ ρ (Except δ value)}
    {continuation : value → Prog κ ρ (Except δ α)} {state after : σ} {result : value}
    (succeeded : alone service outside program state = (.ok result, after)) :
    alone service outside (program.attempt continuation) state =
      alone service outside (continuation result) after := by
  rw [Prog.attempt, alone_bind, succeeded]

/-- A loop each of whose bodies succeeds, with a known effect on the states of an
invariant, has these effects in order. -/
theorem alone_forEach {invariant : σ → Prop} {change : δ → σ → σ}
    {body : δ → Prog κ ρ (Except α Unit)} {elements : List δ}
    (each : ∀ element ∈ elements, ∀ state, invariant state →
      alone service outside (body element) state = (.ok (), change element state) ∧
        invariant (change element state))
    {state : σ} (holds : invariant state) :
    alone service outside (Prog.forEach body elements) state =
        (.ok (), elements.foldl (fun current element => change element current) state) ∧
      invariant (elements.foldl (fun current element => change element current) state) := by
  induction elements generalizing state with
  | nil => exact ⟨rfl, holds⟩
  | cons first rest inductionHypothesis =>
    obtain ⟨succeeded, still⟩ := each first List.mem_cons_self state holds
    rw [Prog.forEach, alone_attempt succeeded]
    exact inductionHypothesis (fun element member => each element (List.mem_cons_of_mem _ member)) still

end Alone

end Hcexplorer.Clients
