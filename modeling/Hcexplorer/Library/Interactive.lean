import Mathlib.Data.List.Basic

/-!
# Programs that call a shared server

A program is a tree of requests: it returns a result, or makes a request and
continues with the reply. A server keeps a state that is shared, and for each
program a local state of its own, such as the transaction a connection has open.
What a request does to the shared state is an effect, determined by the request,
its reply and the local state.

Two programs run against one server in any interleaving. The law says what can be
concluded from each program alone. `Meets` is a specification of one program: it
holds whatever the replies are, among those allowed, and speaks about the list of
the effects so far. If the effects of the two programs commute, every
interleaving ends in the state that the effects of the first followed by those of
the second lead to, and each program meets its specification.

Requests, replies, effects and states are arbitrary types.
-/

namespace Hcexplorer.Interactive

universe u

/-- A program with requests `κ`, replies `ρ` and a result. -/
inductive Prog (κ ρ : Type) (α : Type u) where
  | ret (result : α)
  | call (request : κ) (next : ρ → Prog κ ρ α)

namespace Prog

variable {κ ρ : Type} {α β : Type u}

/-- Continue a program with its result, once it returns one. -/
def bind : Prog κ ρ α → (α → Prog κ ρ β) → Prog κ ρ β
  | .ret result, continuation => continuation result
  | .call request next, continuation => .call request fun reply => (next reply).bind continuation

/-- Continue with the result unless it is an error. -/
def attempt {δ : Type u} (program : Prog κ ρ (Except δ α))
    (continuation : α → Prog κ ρ (Except δ β)) : Prog κ ρ (Except δ β) :=
  program.bind fun
    | .ok result => continuation result
    | .error err => .ret (.error err)

/-- Every request that the program may make, whatever the replies, is of a kind. -/
def Only (kind : κ → Prop) : Prog κ ρ α → Prop
  | .ret _ => True
  | .call request next => kind request ∧ ∀ reply, (next reply).Only kind

variable {kind : κ → Prop}

/-- The requests of a continued program are its own and those of the continuation. -/
theorem Only.bind {program : Prog κ ρ α} {continuation : α → Prog κ ρ β}
    (only : program.Only kind) (later : ∀ result, (continuation result).Only kind) :
    (program.bind continuation).Only kind := by
  induction program with
  | ret result => exact later result
  | call request next inductionHypothesis =>
    exact ⟨only.1, fun reply => inductionHypothesis reply (only.2 reply)⟩

/-- The requests of a program that is continued unless it fails are of a kind, if those of both
parts are. -/
theorem Only.attempt {δ : Type u} {program : Prog κ ρ (Except δ α)}
    {continuation : α → Prog κ ρ (Except δ β)} (only : program.Only kind)
    (later : ∀ result, (continuation result).Only kind) :
    (program.attempt continuation).Only kind := by
  refine only.bind fun result => ?_
  cases result with
  | ok value => exact later value
  | error err => trivial

/-- Besides, every result that the program may succeed with is as stated. -/
def Yields {δ : Type u} (kind : κ → Prop) (post : α → Prop) : Prog κ ρ (Except δ α) → Prop
  | .ret (.ok result) => post result
  | .ret (.error _) => True
  | .call request next => kind request ∧ ∀ reply, (next reply).Yields kind post

section Yields

variable {δ : Type u} {post : α → Prop} {later : β → Prop} {program : Prog κ ρ (Except δ α)}

/-- A program that yields something with requests of a kind has only such requests. -/
theorem Yields.only (yields : program.Yields kind post) : program.Only kind := by
  induction program with
  | ret result => trivial
  | call request next inductionHypothesis =>
    exact ⟨yields.1, fun reply => inductionHypothesis reply (yields.2 reply)⟩

/-- A program with requests of a kind yields whatever it returns. -/
theorem Only.yields (only : program.Only kind) : program.Yields kind fun _ => True := by
  induction program with
  | ret result => cases result <;> trivial
  | call request next inductionHypothesis =>
    exact ⟨only.1, fun reply => inductionHypothesis reply (only.2 reply)⟩

/-- The continuation may rely on what the program yields. -/
theorem Yields.attempt {continuation : α → Prog κ ρ (Except δ β)}
    (yields : program.Yields kind post)
    (continued : ∀ value, post value → (continuation value).Yields kind later) :
    (program.attempt continuation).Yields kind later := by
  induction program with
  | ret result =>
    cases result with
    | ok value => exact continued value yields
    | error err => trivial
  | call request next inductionHypothesis =>
    exact ⟨yields.1, fun reply => inductionHypothesis reply (yields.2 reply)⟩

end Yields

end Prog

/-- What a request is replied, and what it does to the local and the shared state. -/
structure Server (κ ρ ℓ ε σ : Type) where
  reply : κ → ℓ → σ → ρ
  advance : κ → ρ → ℓ → ℓ
  effect : κ → ρ → ℓ → ε
  apply : ε → σ → σ

variable {κ ρ ℓ ε σ : Type} {α β : Type}

namespace Server

/-- Apply effects to a state, in their order. -/
def applyAll (server : Server κ ρ ℓ ε σ) (effects : List ε) (state : σ) : σ :=
  effects.foldl (fun current effect => server.apply effect current) state

/-- Run one program to its end, while nobody else is served. -/
def solo (server : Server κ ρ ℓ ε σ) : Prog κ ρ α → ℓ → σ → α × ℓ × σ
  | .ret result, here, state => (result, here, state)
  | .call request next, here, state =>
    let reply := server.reply request here state
    server.solo (next reply) (server.advance request reply here)
      (server.apply (server.effect request reply here) state)

/-- Run two programs, the next request being the left one's at each true of the
schedule and the right one's at each false; then each to its end, left first. -/
def interleave (server : Server κ ρ ℓ ε σ) :
    List Bool → Prog κ ρ α → Prog κ ρ β → ℓ → ℓ → σ → α × β × σ
  | [], left, right, hereLeft, hereRight, state =>
    let leftEnd := server.solo left hereLeft state
    let rightEnd := server.solo right hereRight leftEnd.2.2
    (leftEnd.1, rightEnd.1, rightEnd.2.2)
  | true :: schedule, .call request next, right, hereLeft, hereRight, state =>
    let reply := server.reply request hereLeft state
    server.interleave schedule (next reply) right (server.advance request reply hereLeft) hereRight
      (server.apply (server.effect request reply hereLeft) state)
  | true :: schedule, .ret result, right, hereLeft, hereRight, state =>
    server.interleave schedule (.ret result) right hereLeft hereRight state
  | false :: schedule, left, .call request next, hereLeft, hereRight, state =>
    let reply := server.reply request hereRight state
    server.interleave schedule left (next reply) hereLeft (server.advance request reply hereRight)
      (server.apply (server.effect request reply hereRight) state)
  | false :: schedule, left, .ret result, hereLeft, hereRight, state =>
    server.interleave schedule left (.ret result) hereLeft hereRight state

variable {server : Server κ ρ ℓ ε σ}

/-- A continued program runs to its end, and then its continuation does. -/
theorem solo_bind (program : Prog κ ρ α) (continuation : α → Prog κ ρ β) (here : ℓ) (state : σ) :
    server.solo (program.bind continuation) here state =
      let ended := server.solo program here state
      server.solo (continuation ended.1) ended.2.1 ended.2.2 := by
  induction program generalizing here state with
  | ret result => rfl
  | call request next inductionHypothesis => exact inductionHypothesis _ _ _

/-- A program that succeeds is continued with its result. -/
theorem solo_attempt_ok {δ : Type} {program : Prog κ ρ (Except δ α)}
    {continuation : α → Prog κ ρ (Except δ β)} {here after : ℓ} {state final : σ} {value : β}
    (ran : server.solo (program.attempt continuation) here state = (.ok value, after, final)) :
    ∃ middle hereMiddle stateMiddle,
      server.solo program here state = (.ok middle, hereMiddle, stateMiddle) ∧
        server.solo (continuation middle) hereMiddle stateMiddle = (.ok value, after, final) := by
  rw [Prog.attempt, solo_bind] at ran
  generalize server.solo program here state = ended at ran
  obtain ⟨result, hereMiddle, stateMiddle⟩ := ended
  cases result with
  | error err => cases ran
  | ok middle => exact ⟨middle, hereMiddle, stateMiddle, rfl, ran⟩

/-- Without effects the state is as it was. -/
@[simp] theorem applyAll_nil (state : σ) : server.applyAll [] state = state := rfl

/-- The first of several effects is applied before the others. -/
@[simp] theorem applyAll_cons (effect : ε) (rest : List ε) (state : σ) :
    server.applyAll (effect :: rest) state = server.applyAll rest (server.apply effect state) := rfl

/-- The effects of two lists one after the other are those of the first and then those of the
second. -/
@[simp] theorem applyAll_append (front back : List ε) (state : σ) :
    server.applyAll (front ++ back) state = server.applyAll back (server.applyAll front state) :=
  List.foldl_append

/-- An effect that commutes with each of a list commutes with the list. -/
theorem applyAll_comm {effects : List ε} {effect : ε}
    (commute : ∀ other ∈ effects, ∀ state,
      server.apply other (server.apply effect state) = server.apply effect (server.apply other state))
    (state : σ) :
    server.applyAll effects (server.apply effect state) =
      server.apply effect (server.applyAll effects state) := by
  induction effects generalizing state with
  | nil => rfl
  | cons other rest inductionHypothesis =>
    rw [applyAll_cons, applyAll_cons, commute other List.mem_cons_self,
      inductionHypothesis fun next member => commute next (List.mem_cons_of_mem _ member)]

end Server

/-- What a program may rely on of its replies, what holds when it makes a request,
given the effects so far, and which effects are its own. -/
structure Contract (κ ρ ℓ ε : Type) where
  allowed : ℓ → κ → ρ → Prop
  asks : List ε → ℓ → κ → Prop
  owns : ε → Prop

/-- The contract of a program that relies on both, and keeps its part of both. -/
def Contract.and (first second : Contract κ ρ ℓ ε) : Contract κ ρ ℓ ε where
  allowed here request reply := first.allowed here request reply ∧ second.allowed here request reply
  asks done here request := first.asks done here request ∧ second.asks done here request
  owns effect := first.owns effect ∧ second.owns effect

/-- The program keeps its part of the contract and ends as specified, whatever the
allowed replies. -/
def Meets (server : Server κ ρ ℓ ε σ) (contract : Contract κ ρ ℓ ε)
    (post : α → List ε → ℓ → Prop) : Prog κ ρ α → List ε → ℓ → Prop
  | .ret result, done, here => post result done here
  | .call request next, done, here =>
    contract.asks done here request ∧ ∀ reply, contract.allowed here request reply →
      contract.owns (server.effect request reply here) ∧
        Meets server contract post (next reply) (done ++ [server.effect request reply here])
          (server.advance request reply here)

/-- The server replies as the contract allows, in states with an invariant that the
effects of the program keep. -/
structure Serves (server : Server κ ρ ℓ ε σ) (contract : Contract κ ρ ℓ ε)
    (invariant : σ → Prop) : Prop where
  answers : ∀ here request state, invariant state →
    contract.allowed here request (server.reply request here state)
  keeps : ∀ effect state, contract.owns effect → invariant state →
    invariant (server.apply effect state)

namespace Meets

variable {server : Server κ ρ ℓ ε σ} {contract : Contract κ ρ ℓ ε}

/-- A program that meets a specification meets a weaker one as well. -/
theorem mono {post weaker : α → List ε → ℓ → Prop}
    (implies : ∀ result done here, post result done here → weaker result done here)
    {program : Prog κ ρ α} {done : List ε} {here : ℓ}
    (meets : Meets server contract post program done here) :
    Meets server contract weaker program done here := by
  induction program generalizing done here with
  | ret result => exact implies result done here meets
  | call request next inductionHypothesis =>
    refine ⟨meets.1, fun reply allowed => ?_⟩
    obtain ⟨owned, later⟩ := meets.2 reply allowed
    exact ⟨owned, inductionHypothesis reply later⟩

/-- The rule for a program continued by another: the second has to meet the specification
wherever the first ends. -/
theorem bind {post : β → List ε → ℓ → Prop} {program : Prog κ ρ α} {continuation : α → Prog κ ρ β}
    {done : List ε} {here : ℓ}
    (meets : Meets server contract
      (fun result done here => Meets server contract post (continuation result) done here)
      program done here) :
    Meets server contract post (program.bind continuation) done here := by
  induction program generalizing done here with
  | ret result => exact meets
  | call request next inductionHypothesis =>
    refine ⟨meets.1, fun reply allowed => ?_⟩
    obtain ⟨owned, later⟩ := meets.2 reply allowed
    exact ⟨owned, inductionHypothesis reply later⟩

/-- The rule for a program continued unless it fails. -/
theorem attempt {δ : Type} {post : Except δ β → List ε → ℓ → Prop}
    {program : Prog κ ρ (Except δ α)} {continuation : α → Prog κ ρ (Except δ β)}
    {done : List ε} {here : ℓ}
    (meets : Meets server contract
      (fun result done here => match result with
        | .ok value => Meets server contract post (continuation value) done here
        | .error err => post (.error err) done here)
      program done here) :
    Meets server contract post (program.attempt continuation) done here := by
  refine bind (meets.mono ?_)
  intro result done here reached
  cases result with
  | ok value => exact reached
  | error err => exact reached

/-- The replies of the server do not matter to what a program does of itself. -/
theorem withReply {post : α → List ε → ℓ → Prop} {program : Prog κ ρ α} {done : List ε} {here : ℓ}
    (meets : Meets server contract post program done here) (reply : κ → ℓ → σ → ρ) :
    Meets { server with reply := reply } contract post program done here := by
  induction program generalizing done here with
  | ret result => exact meets
  | call request next inductionHypothesis =>
    refine ⟨meets.1, fun reply allowed => ?_⟩
    obtain ⟨owned, later⟩ := meets.2 reply allowed
    exact ⟨owned, inductionHypothesis reply later⟩

/-- A program that keeps its part of two contracts keeps that of both. -/
theorem and {second : Contract κ ρ ℓ ε} {post other : α → List ε → ℓ → Prop}
    {program : Prog κ ρ α} {done : List ε} {here : ℓ}
    (meets : Meets server contract post program done here)
    (meetsSecond : Meets server second other program done here) :
    Meets server (contract.and second)
      (fun result done here => post result done here ∧ other result done here) program done here := by
  induction program generalizing done here with
  | ret result => exact ⟨meets, meetsSecond⟩
  | call request next inductionHypothesis =>
    refine ⟨⟨meets.1, meetsSecond.1⟩, fun reply allowed => ?_⟩
    obtain ⟨owned, later⟩ := meets.2 reply allowed.1
    obtain ⟨ownedSecond, laterSecond⟩ := meetsSecond.2 reply allowed.2
    exact ⟨⟨owned, ownedSecond⟩, inductionHypothesis reply later laterSecond⟩

/-- A program whose requests are all of a kind keeps what that kind keeps. -/
theorem of_only {kind : κ → Prop} {invariant : ℓ → Prop}
    (asked : ∀ done here request, kind request → invariant here → contract.asks done here request)
    (kept : ∀ here request reply, kind request → invariant here →
      contract.owns (server.effect request reply here) ∧
        invariant (server.advance request reply here))
    {program : Prog κ ρ α} {done : List ε} {here : ℓ} (only : program.Only kind)
    (holds : invariant here) :
    Meets server contract (fun _ _ after => invariant after) program done here := by
  induction program generalizing done here with
  | ret result => exact holds
  | call request next inductionHypothesis =>
    refine ⟨asked done here request only.1 holds, fun reply _ => ?_⟩
    obtain ⟨owned, still⟩ := kept here request reply only.1 holds
    exact ⟨owned, inductionHypothesis reply (only.2 reply) still⟩

/-- A specification met by a program holds at the end of its run, and so does the
invariant. -/
theorem solo {invariant : σ → Prop} (serves : Serves server contract invariant)
    {post : α → List ε → ℓ → Prop} {program : Prog κ ρ α} {done : List ε} {here : ℓ} {state : σ}
    (holds : invariant state) (meets : Meets server contract post program done here) :
    (∃ final after, post (server.solo program here state).1 final after) ∧
      invariant (server.solo program here state).2.2 := by
  induction program generalizing done here state with
  | ret result => exact ⟨⟨done, here, meets⟩, holds⟩
  | call request next inductionHypothesis =>
    obtain ⟨owned, later⟩ := meets.2 _ (serves.answers here request state holds)
    exact inductionHypothesis _ (serves.keeps _ state owned holds) later

/-- The results of an interleaving meet the specifications of both programs, and the
state keeps an invariant under which both are served. -/
theorem interleave {left right : Contract κ ρ ℓ ε} {invariant : σ → Prop}
    (servesLeft : Serves server left invariant) (servesRight : Serves server right invariant)
    {postLeft : α → List ε → ℓ → Prop} {postRight : β → List ε → ℓ → Prop} (schedule : List Bool)
    {first : Prog κ ρ α} {second : Prog κ ρ β} {doneLeft doneRight : List ε}
    {hereLeft hereRight : ℓ} (state : σ) (holds : invariant state)
    (meetsLeft : Meets server left postLeft first doneLeft hereLeft)
    (meetsRight : Meets server right postRight second doneRight hereRight) :
    let final := server.interleave schedule first second hereLeft hereRight state
    (∃ done here, postLeft final.1 done here) ∧ (∃ done here, postRight final.2.1 done here) ∧
      invariant final.2.2 := by
  induction schedule generalizing first second doneLeft doneRight hereLeft hereRight state with
  | nil =>
    obtain ⟨metLeft, kept⟩ := meetsLeft.solo servesLeft holds
    exact ⟨metLeft, meetsRight.solo servesRight kept⟩
  | cons turn rest inductionHypothesis =>
    cases turn with
    | true =>
      cases first with
      | ret result => exact inductionHypothesis state holds meetsLeft meetsRight
      | call request next =>
        obtain ⟨owned, later⟩ := meetsLeft.2 _ (servesLeft.answers hereLeft request state holds)
        exact inductionHypothesis _ (servesLeft.keeps _ state owned holds) later meetsRight
    | false =>
      cases second with
      | ret result =>
        simp only [Server.interleave]
        exact inductionHypothesis state holds meetsLeft meetsRight
      | call request next =>
        simp only [Server.interleave]
        obtain ⟨owned, later⟩ := meetsRight.2 _ (servesRight.answers hereRight request state holds)
        exact inductionHypothesis _ (servesRight.keeps _ state owned holds) meetsLeft later

end Meets

section Interleaving

variable {server : Server κ ρ ℓ ε σ} {left right : Contract κ ρ ℓ ε}

/-- The state after the effects of the left program and those of the right one. -/
def Server.after (server : Server κ ρ ℓ ε σ) (start : σ) (doneLeft doneRight : List ε) : σ :=
  server.applyAll doneRight (server.applyAll doneLeft start)

/-- What an interleaving needs of the server: effects of the two sides commute,
requests are replied as the contracts allow in every state that such effects lead
to, and an invariant of the two lists of effects is kept by each request. -/
structure Compatible (server : Server κ ρ ℓ ε σ) (left right : Contract κ ρ ℓ ε) (start : σ)
    (invariant : List ε → List ε → Prop) : Prop where
  commute : ∀ mine other state, left.owns mine → right.owns other →
    server.apply other (server.apply mine state) = server.apply mine (server.apply other state)
  leftStep : ∀ doneLeft doneRight here request, (∀ effect ∈ doneLeft, left.owns effect) →
    (∀ effect ∈ doneRight, right.owns effect) → invariant doneLeft doneRight →
    left.asks doneLeft here request →
    let reply := server.reply request here (server.after start doneLeft doneRight)
    left.allowed here request reply ∧
      invariant (doneLeft ++ [server.effect request reply here]) doneRight
  rightStep : ∀ doneLeft doneRight here request, (∀ effect ∈ doneLeft, left.owns effect) →
    (∀ effect ∈ doneRight, right.owns effect) → invariant doneLeft doneRight →
    right.asks doneRight here request →
    let reply := server.reply request here (server.after start doneLeft doneRight)
    right.allowed here request reply ∧
      invariant doneLeft (doneRight ++ [server.effect request reply here])

variable {start : σ} {invariant : List ε → List ε → Prop}

/-- A step of the left program, moved before the effects of the right one. -/
theorem Compatible.after_left (compatible : Compatible server left right start invariant)
    {doneLeft doneRight : List ε} {effect : ε} (owned : left.owns effect)
    (ownedRight : ∀ other ∈ doneRight, right.owns other) :
    server.apply effect (server.after start doneLeft doneRight) =
      server.after start (doneLeft ++ [effect]) doneRight := by
  rw [Server.after, Server.after, Server.applyAll_append, Server.applyAll_cons, Server.applyAll_nil]
  exact (Server.applyAll_comm
    (fun other member state => compatible.commute effect other state owned (ownedRight other member))
    _).symm

/-- A step of the right program comes last, after everything that both have done. -/
theorem after_right (doneLeft doneRight : List ε) (effect : ε) :
    server.apply effect (server.after start doneLeft doneRight) =
      server.after start doneLeft (doneRight ++ [effect]) := by
  rw [Server.after, Server.after, Server.applyAll_append]
  rfl

/-- A program of the left side run to its end, with the effects of the right side
fixed. -/
theorem Compatible.solo_left (compatible : Compatible server left right start invariant)
    {post : α → List ε → ℓ → Prop} {program : Prog κ ρ α} {doneLeft doneRight : List ε} {here : ℓ}
    (meets : Meets server left post program doneLeft here)
    (ownedLeft : ∀ effect ∈ doneLeft, left.owns effect)
    (ownedRight : ∀ effect ∈ doneRight, right.owns effect) (holds : invariant doneLeft doneRight) :
    ∃ result finalHere final, server.solo program here (server.after start doneLeft doneRight) =
        (result, finalHere, server.after start final doneRight) ∧ post result final finalHere ∧
      (∀ effect ∈ final, left.owns effect) ∧ invariant final doneRight := by
  induction program generalizing doneLeft here with
  | ret result => exact ⟨result, here, doneLeft, rfl, meets, ownedLeft, holds⟩
  | call request next inductionHypothesis =>
    obtain ⟨asked, later⟩ := meets
    obtain ⟨allowed, kept⟩ :=
      compatible.leftStep doneLeft doneRight here request ownedLeft ownedRight holds asked
    obtain ⟨owned, continued⟩ := later _ allowed
    have ownedNext := List.forall_mem_append.mpr ⟨ownedLeft, List.forall_mem_singleton.mpr owned⟩
    rw [Server.solo, compatible.after_left owned ownedRight]
    exact inductionHypothesis _ continued ownedNext kept

/-- A program of the right side run to its end. -/
theorem Compatible.solo_right (compatible : Compatible server left right start invariant)
    {post : α → List ε → ℓ → Prop} {program : Prog κ ρ α} {doneLeft doneRight : List ε} {here : ℓ}
    (meets : Meets server right post program doneRight here)
    (ownedLeft : ∀ effect ∈ doneLeft, left.owns effect)
    (ownedRight : ∀ effect ∈ doneRight, right.owns effect) (holds : invariant doneLeft doneRight) :
    ∃ result finalHere final, server.solo program here (server.after start doneLeft doneRight) =
        (result, finalHere, server.after start doneLeft final) ∧ post result final finalHere ∧
      invariant doneLeft final := by
  induction program generalizing doneRight here with
  | ret result => exact ⟨result, here, doneRight, rfl, meets, holds⟩
  | call request next inductionHypothesis =>
    obtain ⟨asked, later⟩ := meets
    obtain ⟨allowed, kept⟩ :=
      compatible.rightStep doneLeft doneRight here request ownedLeft ownedRight holds asked
    obtain ⟨owned, continued⟩ := later _ allowed
    have ownedNext := List.forall_mem_append.mpr ⟨ownedRight, List.forall_mem_singleton.mpr owned⟩
    rw [Server.solo, after_right]
    exact inductionHypothesis _ continued ownedNext kept

/-- Every interleaving of two programs that meet their specifications ends in the
state of the left effects followed by the right ones, with both specifications met.

Induction on the schedule; a step of the left program is moved before the effects
of the right program because they commute. -/
theorem Compatible.interleave (compatible : Compatible server left right start invariant)
    {postLeft : α → List ε → ℓ → Prop} {postRight : β → List ε → ℓ → Prop} (schedule : List Bool)
    {first : Prog κ ρ α} {second : Prog κ ρ β} {doneLeft doneRight : List ε} {hereLeft hereRight : ℓ}
    (meetsLeft : Meets server left postLeft first doneLeft hereLeft)
    (meetsRight : Meets server right postRight second doneRight hereRight)
    (ownedLeft : ∀ effect ∈ doneLeft, left.owns effect)
    (ownedRight : ∀ effect ∈ doneRight, right.owns effect) (holds : invariant doneLeft doneRight) :
    ∃ resultLeft resultRight finalLeft finalRight endLeft endRight,
      server.interleave schedule first second hereLeft hereRight
          (server.after start doneLeft doneRight) =
        (resultLeft, resultRight, server.after start finalLeft finalRight) ∧
      postLeft resultLeft finalLeft endLeft ∧ postRight resultRight finalRight endRight ∧
      invariant finalLeft finalRight := by
  induction schedule generalizing first second doneLeft doneRight hereLeft hereRight with
  | nil =>
    obtain ⟨resultLeft, endLeft, finalLeft, ranLeft, metLeft, ownedFinal, keptLeft⟩ :=
      compatible.solo_left meetsLeft ownedLeft ownedRight holds
    obtain ⟨resultRight, endRight, finalRight, ranRight, metRight, kept⟩ :=
      compatible.solo_right meetsRight ownedFinal ownedRight keptLeft
    refine ⟨resultLeft, resultRight, finalLeft, finalRight, endLeft, endRight, ?_, metLeft, metRight,
      kept⟩
    simp only [Server.interleave, ranLeft, ranRight]
  | cons turn rest inductionHypothesis =>
    cases turn with
    | true =>
      cases first with
      | ret result =>
        exact inductionHypothesis meetsLeft meetsRight ownedLeft ownedRight holds
      | call request next =>
        obtain ⟨asked, later⟩ := meetsLeft
        obtain ⟨allowed, kept⟩ :=
          compatible.leftStep doneLeft doneRight hereLeft request ownedLeft ownedRight holds asked
        obtain ⟨owned, continued⟩ := later _ allowed
        have ownedNext := List.forall_mem_append.mpr ⟨ownedLeft, List.forall_mem_singleton.mpr owned⟩
        rw [Server.interleave, compatible.after_left owned ownedRight]
        exact inductionHypothesis continued meetsRight ownedNext ownedRight kept
    | false =>
      cases second with
      | ret result =>
        simp only [Server.interleave]
        exact inductionHypothesis meetsLeft meetsRight ownedLeft ownedRight holds
      | call request next =>
        obtain ⟨asked, later⟩ := meetsRight
        obtain ⟨allowed, kept⟩ :=
          compatible.rightStep doneLeft doneRight hereRight request ownedLeft ownedRight holds asked
        obtain ⟨owned, continued⟩ := later _ allowed
        have ownedNext := List.forall_mem_append.mpr ⟨ownedRight, List.forall_mem_singleton.mpr owned⟩
        simp only [Server.interleave]
        rw [after_right]
        exact inductionHypothesis meetsLeft continued ownedLeft ownedNext kept

end Interleaving

section Turns

/-- Two programs in the middle of their run, each with its local state. -/
structure Pair (κ ρ ℓ α β : Type) where
  left : Prog κ ρ α
  right : Prog κ ρ β
  hereLeft : ℓ
  hereRight : ℓ

namespace Pair

/-- One request of one side, the left one's at true. There is none after its end. -/
def turn (server : Server κ ρ ℓ ε σ) (pair : Pair κ ρ ℓ α β) (state : σ) :
    Bool → Option (Pair κ ρ ℓ α β × σ)
  | true =>
    match pair.left with
    | .ret _ => none
    | .call request next =>
      let reply := server.reply request pair.hereLeft state
      some ({ pair with
          left := next reply
          hereLeft := server.advance request reply pair.hereLeft },
        server.apply (server.effect request reply pair.hereLeft) state)
  | false =>
    match pair.right with
    | .ret _ => none
    | .call request next =>
      let reply := server.reply request pair.hereRight state
      some ({ pair with
          right := next reply
          hereRight := server.advance request reply pair.hereRight },
        server.apply (server.effect request reply pair.hereRight) state)

/-- The run of a pair to its end under a schedule. -/
def run (server : Server κ ρ ℓ ε σ) (schedule : List Bool) (pair : Pair κ ρ ℓ α β) (state : σ) :
    α × β × σ :=
  server.interleave schedule pair.left pair.right pair.hereLeft pair.hereRight state

/-- A turn is the first step of the run under a schedule that begins with it. -/
theorem run_cons {server : Server κ ρ ℓ ε σ} {pair next : Pair κ ρ ℓ α β} {state after : σ}
    {turn : Bool} (taken : pair.turn server state turn = some (next, after)) (schedule : List Bool) :
    pair.run server (turn :: schedule) state = next.run server schedule after := by
  obtain ⟨left, right, hereLeft, hereRight⟩ := pair
  cases turn with
  | true =>
    cases left with
    | ret result => cases taken
    | call request continuation =>
      obtain ⟨rfl, rfl⟩ := Prod.mk.inj (Option.some.inj taken)
      rfl
  | false =>
    cases right with
    | ret result => cases taken
    | call request continuation =>
      obtain ⟨rfl, rfl⟩ := Prod.mk.inj (Option.some.inj taken)
      simp only [run, Server.interleave]

/-- A pair that is done stays as it is. -/
theorem run_ret (server : Server κ ρ ℓ ε σ) (schedule : List Bool) (first : α) (second : β)
    (hereLeft hereRight : ℓ) (state : σ) :
    (⟨.ret first, .ret second, hereLeft, hereRight⟩ : Pair κ ρ ℓ α β).run server schedule state =
      (first, second, state) := by
  induction schedule with
  | nil => rfl
  | cons turn rest inductionHypothesis =>
    cases turn with
    | true => exact inductionHypothesis
    | false =>
      simp only [run, Server.interleave]
      exact inductionHypothesis

end Pair

end Turns

end Hcexplorer.Interactive
