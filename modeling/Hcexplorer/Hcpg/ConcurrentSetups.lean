import Hcexplorer.Hcpg.Schema

/-!
# Setups at the same time

`CREATE TYPE` has no IF NOT EXISTS, so a setup that queries for a type before another
process creates it, and creates it after, fails. Several setups can fail so in one run, but
not all of them: the one that creates the last missing type finds everything else as it
left it, or as another setup did.

The argument follows a leader. The setup whose CREATE TYPE brings about that a type is
there can fail only for the other type, and the one that completes the types cannot fail.
-/

namespace Hcexplorer.Hcpg.Schema

open Interactive Clients Runs

/-- Nothing fails from outside, so that a statement has only its own errors. -/
def noFailures (failure : Option Failure) : Prop := failure = none

/-- A CREATE TYPE that succeeds, whatever its name is. -/
def CreatesType (statement : Statement) (reply : Reply) : Prop :=
  (∃ name, statement = .create (.type name)) ∧ ∃ rows, reply = .ok rows

/-- What a setup is secure for since a catalog it left. No other call creates a type. -/
def Since : Call → Catalog → Except String Unit → Catalog → Prop
  | .setupTables _, base, result, catalog =>
    Ends (fun _ later => Complete later) (Excused noFailures base) result catalog
  | _, _, _, _ => False

/-- The setup is excused by types that were not there at the base only. -/
abbrev SecureSince (call : Call) (sql : Sql (Except String Unit)) (base : Catalog) : Prop :=
  Secure postgres growing noFailures (Since call base) sql base

variable {base catalog : Catalog}

/-- A type that was not there is there after its CREATE only. -/
theorem createsType_of_new {name : TypeName} {statement : Statement}
    (missing : ¬ Present catalog (.type name))
    (present : Present (perform catalog statement).2 (.type name)) :
    CreatesType statement (perform catalog statement).1 := by
  rcases perform_cases statement catalog with same | ⟨object, rfl, -, -, performed⟩ |
    ⟨object, -, there, performed⟩ | ⟨table, -, performed⟩
  · exact absurd (same ▸ present) missing
  · by_cases mine : object = .type name
    · subst mine
      exact ⟨⟨name, rfl⟩, [], by rw [performed]⟩
    · refine absurd ?_ missing
      rw [performed] at present
      simpa [Present, Function.update_of_ne (Ne.symm mine)] using present
  · refine absurd ?_ missing
    by_cases mine : object = .type name
    · exact mine ▸ there
    · rw [performed] at present
      simpa [Present, Function.update_of_ne (Ne.symm mine)] using present
  · refine absurd ?_ missing
    rw [performed] at present
    simpa [Present] using present

/-- A statement that is no CREATE TYPE creates no type, whatever it is replied. -/
theorem createsNoType (statement : Statement) (other : ∀ name, statement ≠ .create (.type name))
    (reply : Reply) : ¬ CreatesType statement reply :=
  fun created => created.1.elim fun name same => other name same

/-- The lookup of an object in the catalog creates no type. -/
theorem lookup_creates_no_type (object : Object) (reply : Reply) :
    ¬ CreatesType (.lookup object) reply :=
  createsNoType _ (fun _ same => Statement.noConfusion same) reply

/-- A comment on an object creates no type. -/
theorem comment_creates_no_type (object : Object) (reply : Reply) :
    ¬ CreatesType (.comment object) reply :=
  createsNoType _ (fun _ same => Statement.noConfusion same) reply

/-- The statements after the types create tables and read versions, but no type. -/
theorem setupAfterTypes_only (orders : Orders) :
    (setupAfterTypes orders).Only fun statement => ∀ reply, ¬ CreatesType statement reply := by
  refine Prog.Only.attempt (Prog.Only.forEach (fun name => ?_) _) fun _ => ?_
  · exact createMissing_only (lookup_creates_no_type _) (createsNoType (.create _) nofun)
      (comment_creates_no_type _)
  · exact (tableVersions_only (fun name => createsNoType (.description name) nofun) _).bind fun _ => trivial

/-- The check of the addresses table creates no type. -/
theorem ensureAddressTable_creates_no_type :
    ensureAddressTable.Only fun statement => ∀ reply, ¬ CreatesType statement reply := by
  refine Prog.Only.bind ⟨lookup_creates_no_type _, fun _ => trivial⟩ fun haveTable => ?_
  split
  · trivial
  · exact createMissing_only (lookup_creates_no_type _) (createsNoType (.create _) nofun)
      (comment_creates_no_type _)

/-- Creating a type renews a program whose rest is secure from the comment on. -/
theorem createMissing_renewed {name : TypeName} {renewed : Sql (Except String Unit) → Catalog → Prop}
    (resumed : ∀ after, growing.moves catalog after → Present after (.type name) →
      renewed (execute (.comment (.type name))) after) :
    Renewed postgres growing noFailures CreatesType renewed (createMissing (.type name)) catalog := by
  intro later moved failure unfailed
  obtain rfl : failure = none := unfailed
  refine ⟨fun created => absurd created (lookup_creates_no_type _ _), ?_⟩
  by_cases present : (later (.type name)).isSome = true
  · simp only [postgres, serve, perform, present, if_true]
    trivial
  · simp only [postgres, serve, perform, present, Bool.false_eq_true, if_false]
    intro second movedSecond failure unfailed
    obtain rfl : failure = none := unfailed
    have kept : growing.moves second (serve none (.create (.type name)) second).2 :=
      create_moves _ none second
    have onward := growing.follows (growing.follows moved movedSecond) kept
    rcases perform_create second (.type name) (fun _ same => Object.noConfusion same) with ⟨created, there⟩ |
      ⟨other, -, -, refused⟩
    · refine ⟨fun _ => ?_, ?_⟩
      · have rest := resumed _ onward there
        simp only [serve, created]
        exact rest
      · simp only [serve, created]
        exact fun _ _ _ _ => ⟨fun turned => absurd turned (comment_creates_no_type _ _), trivial⟩
    · refine ⟨fun turned => ?_, ?_⟩
      · obtain ⟨rows, succeeded⟩ := turned.2
        simp only [serve, refused] at succeeded
        cases succeeded
      · simp only [serve, refused]
        trivial

/-- A setup that creates a type is secure since then. -/
theorem setupFrom_renewed (orders : Orders) (types : List TypeName)
    (passed : ∀ name, name ∉ types → Present catalog (.type name)) :
    Renewed postgres growing noFailures CreatesType (SecureSince (.setupTables orders))
      ((createTypes types).attempt fun _ => setupAfterTypes orders) catalog := by
  induction types generalizing catalog with
  | nil => exact Renewed.of_only (setupAfterTypes_only orders) catalog
  | cons first rest inductionHypothesis =>
    have passedKept : ∀ before after : Catalog, growing.moves before after →
        (∀ name, name ∉ first :: rest → Present before (.type name)) →
        ∀ name, name ∉ first :: rest → Present after (.type name) :=
      fun _ _ moved still name other => moved.2 (.type name) trivial (still name other)
    have passedFirst : ∀ after : Catalog, Present after (.type first) →
        (∀ name, name ∉ first :: rest → Present after (.type name)) →
        ∀ name, name ∉ rest → Present after (.type name) := by
      intro after there still name other
      by_cases same : name = first
      · exact same ▸ there
      · exact still name (by simp [same, other])
    have unfolded : ((createTypes (first :: rest)).attempt fun _ => setupAfterTypes orders) =
        (createMissing (.type first)).attempt fun _ =>
          (createTypes rest).attempt fun _ => setupAfterTypes orders := Prog.attempt_assoc ..
    have created : Secure postgres growing noFailures (Ends (fun _ later => Present later (.type first))
        (Excused noFailures catalog)) (createMissing (.type first)) catalog :=
      createMissing_secure ⟨fun _ present => present, nofun⟩
    rw [unfolded]
    refine Renewed.bind (created.keep passedKept passed) (createMissing_renewed ?_) ?_
    · intro after moved there
      have commented : Secure postgres growing noFailures
          (Ends (fun _ later => Present later (.type first)) (Excused noFailures after))
          (execute (.comment (.type first))) after := comment_secure there
      have resumed := (commented.keep Grown.moves fun _ present => present).keep passedKept
        (passedKept _ _ moved passed)
      refine resumed.bind fun result second reached => ?_
      cases result with
      | error err => exact fun later onward => Excused.moves _ _ _ onward reached.1.1
      | ok _ => exact setupFrom_secure orders rest (passedFirst second reached.1.1 reached.2) reached.1.2
    · intro result after reached
      cases result with
      | error err => trivial
      | ok _ => exact inductionHypothesis (passedFirst after reached.1 reached.2)

/-- Every call but the dropping of tables is secure from the moment on when it has created a
type, if it creates one. -/
theorem call_renewed {call : Call} (spares : ∀ order, call ≠ .dropTables order) :
    Renewed postgres growing noFailures CreatesType (SecureSince call) (program call) catalog := by
  cases call with
  | setupTables orders =>
    exact setupFrom_renewed orders orders.types.order
      fun name other => absurd (orders.types.all.mem_iff.mpr (typeNames_all name)) other
  | dropTables order => exact absurd rfl (spares order)
  | insertAddressOuts => exact Renewed.of_only ensureAddressTable_creates_no_type catalog

section Runs

variable {ι : Type} [DecidableEq ι] {events : List (Event (Option Failure) Call ι)}
  {final : State Catalog Statement Reply Call (Except String Unit) ι}

omit [DecidableEq ι] in
/-- Where no failure comes from outside, every served statement has been decided without one. -/
theorem decided_of_unfailed (unfailed : ¬ Failed events) :
    ∀ client failure, .serve client failure ∈ events → noFailures failure := by
  intro client failure member
  cases failure with
  | none => rfl
  | some failure => exact absurd ⟨client, failure, member⟩ unfailed

/-- Where a goal is reached that takes a new type, a setup has been secure since then. -/
theorem setup_leads (goal : Catalog → Prop) (noDrops : NoDrops events) (unfailed : ¬ Failed events)
    (ran : exec (step postgres) (State.initial base) events = some final)
    (takes : ∀ before statement, ¬ goal before → goal (perform before statement).2 →
      ∃ name, ¬ Present before (.type name) ∧ Present (perform before statement).2 (.type name))
    (missed : ¬ goal base) (reached : goal final.shared) :
    ∃ client orders program since, final.clients client = some (.setupTables orders, program) ∧
      goal since ∧
      Secure postgres growing noFailures (Since (.setupTables orders) since) program final.shared := by
  have initially : (State.initial base : State Catalog Statement Reply Call (Except String Unit)
      ι).Secured postgres growing noFailures (Ended noFailures base) := State.Secured.initial base
  have turns : ∀ failure statement catalog, noFailures failure → ¬ goal catalog →
      goal (postgres.serve failure statement catalog).2 →
      CreatesType statement (postgres.serve failure statement catalog).1 := by
    rintro failure statement catalog rfl before after
    obtain ⟨name, missing, present⟩ := takes catalog statement before after
    exact createsType_of_new missing present
  have led := initially.leader Grown.moves (fun _ _ spares grown => call_secure spares grown)
    (fun _ _ spares _ => call_renewed spares) turns (fun _ present => present)
    (State.Renewing.initial base) (fun here => Or.inl (missed here))
    (permitted_of_noDrops noDrops (decided_of_unfailed unfailed)) ran reached
  rcases led with impossible | ⟨client, call, program, since, found, there, secure⟩
  · exact impossible.elim
  · cases call with
    | setupTables orders => exact ⟨client, orders, program, since, found, there, secure⟩
    | dropTables order => exact (secure.alone rfl).elim
    | insertAddressOuts => exact (secure.alone rfl).elim

/-- In every interleaving of any number of setups (and insertions of address rows) without
drops and without failing statements, over any database, not all setups fail: where all of
them have ended, at least one has succeeded. -/
theorem some_setup_succeeds (noDrops : NoDrops events) (unfailed : ¬ Failed events)
    (ran : exec (step postgres) (State.initial base) events = some final)
    (ended : ∀ client orders program, final.clients client = some (.setupTables orders, program) →
      ∃ result, program = .ret result)
    (called : ∃ client orders program, final.clients client = some (.setupTables orders, program)) :
    ∃ client orders, final.clients client = some (.setupTables orders, .ret (.ok ())) := by
  by_contra noSuccess
  have failed : ∀ client orders program, final.clients client = some (.setupTables orders, program) →
      ∃ err, program = .ret (.error err) := by
    intro client orders program found
    obtain ⟨result, rfl⟩ := ended client orders program found
    cases result with
    | error err => exact ⟨err, rfl⟩
    | ok _ => exact absurd ⟨client, orders, found⟩ noSuccess
  have excused : ∀ {base : Catalog} {client orders program},
      final.clients client = some (.setupTables orders, program) →
      Secure postgres growing noFailures (Since (.setupTables orders) base) program final.shared →
      ∃ name, Present final.shared (.type name) ∧ ¬ Present base (.type name) := by
    intro base client orders program found secure
    obtain ⟨err, rfl⟩ := failed client orders program found
    have excuse : Excused noFailures base err final.shared := secure final.shared (growing.stays _)
    rcases excuse with ⟨failure, impossible⟩ | ⟨name, -, present, fresh⟩
    · cases impossible
    · exact ⟨name, present, fresh⟩
  obtain ⟨client, orders, program, found⟩ := called
  obtain ⟨-, secured⟩ := run_secured noFailures noDrops (decided_of_unfailed unfailed) ran
  obtain ⟨name, present, fresh⟩ := excused found (secured client _ program found)
  -- the setup that created this type failed for the other one
  obtain ⟨second, secondOrders, secondProgram, since, foundSecond, there, secureSecond⟩ :=
    setup_leads (fun catalog => Present catalog (.type name)) noDrops unfailed ran
      (fun _ _ missed reached => ⟨name, missed, reached⟩) fresh present
  obtain ⟨other, presentOther, freshOther⟩ := excused foundSecond secureSecond
  have complete : ∀ each, Present final.shared (.type each) := by
    intro each
    have different : other ≠ name := fun same => freshOther (same ▸ there)
    cases each <;> cases name <;> cases other <;> first | assumption | exact absurd rfl different
  -- the setup that completed the types has nothing to fail for
  obtain ⟨third, thirdOrders, thirdProgram, completed, foundThird, all, secureThird⟩ :=
    setup_leads (fun catalog => ∀ each, Present catalog (.type each)) noDrops unfailed ran
      (fun before statement missed reached => by
        obtain ⟨missing, absent⟩ := not_forall.mp missed
        exact ⟨missing, absent, reached missing⟩) (fun all => fresh (all name)) complete
  obtain ⟨last, -, freshLast⟩ := excused foundThird secureThird
  exact freshLast (all last)

/-- Of the two setups that race for a type, one succeeds. -/
theorem some_setup_succeeds_two : ∃ final,
    exec (step postgres) (State.initial noObjects) racedSetups = some final ∧
      ∃ client orders, final.clients client = some (.setupTables orders, .ret (.ok ())) := by
  obtain ⟨final, ran, both⟩ := Option.map_eq_some_iff.mp racedSetups_end
  obtain ⟨first, second⟩ := Prod.mk.inj both
  have unfailed : ¬ Failed racedSetups := by
    rintro ⟨client, failure, member⟩
    simp [racedSetups] at member
  refine ⟨final, ran, some_setup_succeeds racedSetups_noDrops unfailed ran ?_ ⟨true, _, _, second⟩⟩
  intro client orders program found
  cases client with
  | false =>
    rw [first] at found
    exact ⟨_, (Prod.mk.inj (Option.some.inj found)).2.symm⟩
  | true =>
    rw [second] at found
    exact ⟨_, (Prod.mk.inj (Option.some.inj found)).2.symm⟩

end Runs

end Hcexplorer.Hcpg.Schema
