import Hcexplorer.Library.Clients
import Hcexplorer.Strconv

/-!
# The tables and types of the database

`hcpg/tables.go`: hcexplorer and rebuilddb2 create the missing types and tables when they
start, rebuilddb2 drops the tables on demand, and the insertion of address rows creates
the addresses table if it finds none. Go ranges over the maps of CREATE statements in
any order. PostgreSQL refuses a table with a column of a type that does not exist, and a
second type of one name; `CREATE TABLE IF NOT EXISTS` passes over a table that exists.

The programs are several processes over one database. Each statement is atomic, any of
them can fail, with or without having taken effect, and the statements of all processes
come in any order. A table and its comment are created by two statements.

What is in the tables, and their indexes, are left out here. The comments of types are
kept like those of tables, though nothing reads them.
-/

namespace Hcexplorer.Hcpg.Schema

open Interactive Clients Runs

section Model

/-- The composite types of the database that `createTypeStatements` has a CREATE TYPE statement
for. -/
inductive TypeName where
  | vinT
  | voutT
deriving DecidableEq, Repr

/-- The tables of the database that `createTableStatements` has a CREATE TABLE statement for. -/
inductive TableName where
  | blocks
  | transactions
  | vins
  | vouts
  | blockChain
  | addresses
  | feesStat
  | mempoolHistory
  | nodes
deriving DecidableEq, Repr

/-- What the database can have: a type or a table of the program. -/
inductive Object where
  | type (name : TypeName)
  | table (name : TableName)
deriving DecidableEq, Repr

/-- The keys of the map of types, in the order in which the source writes them. -/
def typeNames : List TypeName := [.vinT, .voutT]

/-- The keys of the map of tables, in the order in which the source writes them. -/
def tableNames : List TableName :=
  [.blocks, .transactions, .vins, .vouts, .blockChain, .addresses, .feesStat, .mempoolHistory,
    .nodes]

/-- The name of a type in PostgreSQL, which is the key of its statement. -/
def TypeName.text : TypeName → String
  | .vinT => "vin_t"
  | .voutT => "vout_t"

/-- The name of a table in PostgreSQL, which is the key of its statement. -/
def TableName.text : TableName → String
  | .blocks => "blocks"
  | .transactions => "transactions"
  | .vins => "vins"
  | .vouts => "vouts"
  | .blockChain => "block_chain"
  | .addresses => "addresses"
  | .feesStat => "fees_stat"
  | .mempoolHistory => "mempool_history"
  | .nodes => "nodes"

/-- The name under which the catalog of the server lists an object. -/
def Object.text : Object → String
  | .type name => name.text
  | .table name => name.text

/-- The program's types among those of a table's columns: transactions has a column
`vouts vout_t[]`. -/
def TableName.columnTypes : TableName → List TypeName
  | .transactions => [.voutT]
  | _ => []

/-- The comment of each object that exists; the inner none is NULL. -/
abbrev Catalog := Object → Option (Option String)

/-- The statements. The comment is always 'v1'. `DropTables` also drops a type vin, which
the program does not create. -/
inductive Statement where
  | lookup (object : Object)
  | create (object : Object)
  | comment (object : Object)
  | drop (table : TableName)
  | dropVin
  | description (table : TableName)
deriving DecidableEq, Repr

/-- The rows of a statement's one nullable column, or the error of the driver. -/
abbrev Reply := Except String (List (Option String))

/-- The error with which PostgreSQL refuses a second CREATE TYPE of one name; there is no IF NOT
EXISTS for types. -/
def alreadyExists (name : TypeName) : String := "pq: type \"" ++ name.text ++ "\" already exists"

/-- The error about an object that is not there. -/
def doesNotExist (kind : String) (text : String) : String :=
  "pq: " ++ kind ++ " \"" ++ text ++ "\" does not exist"

/-- The error of a statement about an object that is not there. -/
def Object.missing : Object → String
  | .type name => doesNotExist "type" name.text
  | .table name => doesNotExist "relation" name.text

/-- What PostgreSQL does for a statement of its own accord, by the objects that are in the
catalog, and what it answers. -/
def perform (catalog : Catalog) : Statement → Reply × Catalog
  | .lookup object => (.ok (if (catalog object).isSome then [some object.text] else []), catalog)
  | .create (.type name) =>
    if (catalog (.type name)).isSome then (.error (alreadyExists name), catalog)
    else (.ok [], Function.update catalog (.type name) (some none))
  | .create (.table name) =>
    if (catalog (.table name)).isSome then (.ok [], catalog)
    else
      match name.columnTypes.find? fun column => (catalog (.type column)).isNone with
      | some column => (.error (doesNotExist "type" (column.text ++ "[]")), catalog)
      | none => (.ok [], Function.update catalog (.table name) (some none))
  | .comment object =>
    if (catalog object).isSome then (.ok [], Function.update catalog object (some (some "v1")))
    else (.error object.missing, catalog)
  | .drop table => (.ok [], Function.update catalog (.table table) none)
  | .dropVin => (.ok [], catalog)
  | .description table =>
    match catalog (.table table) with
    | some comment => (.ok [comment], catalog)
    | none => (.error (Object.table table).missing, catalog)

/-- A failure from outside, such as a lost connection: its error, and whether the
statement took effect all the same. -/
structure Failure where
  err : String
  applied : Bool
deriving DecidableEq, Repr

/-- A statement that may fail from outside. The server may have performed it before the
connection was lost, or not. -/
def serve (failure : Option Failure) (statement : Statement) (catalog : Catalog) : Reply × Catalog :=
  match failure with
  | none => perform catalog statement
  | some failure =>
    (.error failure.err, if failure.applied then (perform catalog statement).2 else catalog)

/-- What the program issues: statements whose replies decide what comes next, and a result at the
end. -/
abbrev Sql (α : Type) := Prog Statement Reply α

/-- `TypeExists` and `TableExists`, which ask the catalog for rows with the name of the object. -/
def objectExists (object : Object) : Sql (Except String Bool) :=
  .call (.lookup object) fun reply => .ret (reply.map fun rows => !rows.isEmpty)

/-- `TypeExists`, for the type of a name. -/
def typeExists (typeName : TypeName) : Sql (Except String Bool) := objectExists (.type typeName)

/-- `TableExists`, for the table of a name. -/
def tableExists (tableName : TableName) : Sql (Except String Bool) := objectExists (.table tableName)

/-- A statement that returns no rows, of which the caller only sees whether it failed. -/
def execute (statement : Statement) : Sql (Except String Unit) :=
  .call statement fun reply => .ret (reply.map fun _ => ())

/-- The body of the loops of `CreateTypes` and `CreateTables`. -/
def createMissing (object : Object) : Sql (Except String Unit) :=
  (objectExists object).attempt fun found =>
    if found then .ret (.ok ())
    else (execute (.create object)).attempt fun _ => execute (.comment object)

/-- `CreateTypes`, in the order in which it ranges over the map. -/
def createTypes (order : List TypeName) : Sql (Except String Unit) :=
  Prog.forEach (fun name => createMissing (.type name)) order

/-- `CreateTables`, in the order in which the range over the map yields the tables. -/
def createTables (order : List TableName) : Sql (Except String Unit) :=
  Prog.forEach (fun name => createMissing (.table name)) order

/-- `CreateTable`, for a name that is in one of the two maps; any other name is an error before
the first statement. -/
def createTable (tableName : TableName) : Sql (Except String Unit) := createMissing (.table tableName)

/-- The version in a comment: the number of `^v(\d+)$`, else -1. `Atoi` of a number that
is too large gives the greatest int. -/
def version (comment : String) : Int32 :=
  match comment.toList with
  | 'v' :: digits =>
    if !digits.isEmpty && digits.all Char.isDigit then
      ((Strconv.atoi digits).getD Int64.maxValue).toInt32
    else -1
  | _ => -1

/-- `TableVersions`: a table that does not exist, and one whose comment is NULL, is logged
and left out. -/
def tableVersions : List TableName → Sql (List (TableName × Int32))
  | [] => .ret []
  | name :: rest => .call (.description name) fun reply =>
    match reply with
    | .ok (some comment :: _) =>
      (tableVersions rest).bind fun versions => .ret ((name, version comment) :: versions)
    | _ => tableVersions rest

/-- The order in which Go ranges over a map with these keys. -/
structure MapOrder {α : Type} (keys : List α) where
  order : List α
  all : order.Perm keys

/-- The orders in which the three loops of `SetupTables` go through their maps, which a run may
choose anew each time. -/
structure Orders where
  types : MapOrder typeNames
  tables : MapOrder tableNames
  versions : MapOrder tableNames

/-- `SetupTables`: the types, the tables and the versions of the tables, which are only logged.
An error of one of the first two ends it. -/
def setupTables (orders : Orders) : Sql (Except String Unit) :=
  (createTypes orders.types.order).attempt fun _ =>
    (createTables orders.tables.order).attempt fun _ =>
      (tableVersions orders.versions.order).bind fun _ => .ret (.ok ())

/-- `DropTables`, which drops the tables one after another and then a type `vin`, and only logs
the errors. -/
def dropTables : List TableName → Sql (Except String Unit)
  | [] => .call .dropVin fun _ => .ret (.ok ())
  | name :: rest => .call (.drop name) fun _ => dropTables rest

/-- What `InsertAddressOuts` does first. The error of the query counts as no table, and
that of creating it is only logged. -/
def ensureAddressTable : Sql (Except String Unit) :=
  (tableExists .addresses).bind fun haveTable =>
    if haveTable.toOption = some true then .ret (.ok ()) else createTable .addresses

/-- What the processes call on the shared database: the setup, the dropping of the tables, and
the insertion of address rows, which makes sure that its table is there. -/
inductive Call where
  | setupTables (orders : Orders)
  | dropTables (order : MapOrder tableNames)
  | insertAddressOuts

/-- The statements of a call, by its kind. -/
def program : Call → Sql (Except String Unit)
  | .setupTables orders => setupTables orders
  | .dropTables order => dropTables order.order
  | .insertAddressOuts => ensureAddressTable

/-- The database as a service, with the program that a process runs for each kind of call. -/
def postgres : Service Catalog Statement Reply (Option Failure) Call (Except String Unit) :=
  ⟨serve, program⟩

/-- The database before the first setup, with no object of the program in its catalog. -/
def noObjects : Catalog := fun _ => none

end Model

/-- The object is in the catalog, with whatever comment. -/
def Present (catalog : Catalog) (object : Object) : Prop := (catalog object).isSome

instance (catalog : Catalog) (object : Object) : Decidable (Present catalog object) :=
  inferInstanceAs (Decidable (_ = true))

/-- The types of a table's columns are in the catalog, so that the table can be created. -/
def Supported (catalog : Catalog) (name : TableName) : Prop :=
  ∀ column ∈ name.columnTypes, Present catalog (.type column)

/-- Every table that is there has the types of its columns, and comments are those of the
program. -/
structure WellFormed (catalog : Catalog) : Prop where
  supported : ∀ name, Present catalog (.table name) → Supported catalog name
  commented : ∀ object comment, catalog object = some (some comment) → comment = "v1"

/-- All types and all tables of the program are in the catalog. -/
def Complete (catalog : Catalog) : Prop := ∀ object, Present catalog object

/-- A catalog without any object is well formed, for no table of it needs a type. -/
theorem noObjects_wellFormed : WellFormed noObjects :=
  ⟨fun _ present => (by cases present), fun _ _ found => by cases found⟩

section Statements

variable {catalog : Catalog}

/-- Putting an object into the catalog removes no other one. -/
theorem present_update {object : Object} (comment : Option String) {other : Object}
    (present : Present catalog other) :
    Present (Function.update catalog object (some comment)) other := by
  by_cases same : other = object
  · subst same
    simp [Present]
  · simpa [Present, Function.update_of_ne same] using present

/-- A table is supported when the search for a column whose type is missing finds none. -/
theorem supported_of_find {name : TableName}
    (found : (name.columnTypes.find? fun column => (catalog (.type column)).isNone) = none) :
    Supported catalog name := by
  intro column member
  have notMissing := List.find?_eq_none.mp found column member
  simpa [Present, Option.isSome_iff_ne_none] using notMissing

/-- What a statement can do: nothing, create an object whose types are there, comment on an
object that is there, or drop a table. -/
theorem perform_cases (statement : Statement) (catalog : Catalog) :
    (perform catalog statement).2 = catalog ∨
      (∃ object, statement = .create object ∧ ¬ Present catalog object ∧
        (∀ name, object = .table name → Supported catalog name) ∧
        perform catalog statement = (.ok [], Function.update catalog object (some none))) ∨
      (∃ object, statement = .comment object ∧ Present catalog object ∧
        (perform catalog statement).2 = Function.update catalog object (some (some "v1"))) ∨
      ∃ table, statement = .drop table ∧
        (perform catalog statement).2 = Function.update catalog (.table table) none := by
  cases statement with
  | lookup object => exact Or.inl rfl
  | create object =>
    cases object with
    | type name =>
      by_cases present : (catalog (.type name)).isSome
      · exact Or.inl (by simp [perform, present])
      · exact Or.inr (Or.inl ⟨.type name, rfl, present, nofun, by simp [perform, present]⟩)
    | table name =>
      by_cases present : (catalog (.table name)).isSome
      · exact Or.inl (by simp [perform, present])
      · cases found : name.columnTypes.find? fun column => (catalog (.type column)).isNone with
        | some column => exact Or.inl (by simp [perform, present, found])
        | none =>
          refine Or.inr (Or.inl ⟨.table name, rfl, present, ?_, by simp [perform, present, found]⟩)
          rintro other ⟨⟩
          exact supported_of_find found
  | comment object =>
    by_cases present : (catalog object).isSome
    · exact Or.inr (Or.inr (Or.inl ⟨object, rfl, present, by simp [perform, present]⟩))
    · exact Or.inl (by simp [perform, present])
  | drop table => exact Or.inr (Or.inr (Or.inr ⟨table, rfl, rfl⟩))
  | dropVin => exact Or.inl rfl
  | description table =>
    left
    simp only [perform]
    split <;> rfl

/-- Creating an object whose types are there, and commenting on one, keep the catalog well
formed. -/
theorem WellFormed.put (wellFormed : WellFormed catalog) {object : Object} {comment : Option String}
    (supported : ∀ name, object = .table name → Supported catalog name)
    (commented : ∀ text, comment = some text → text = "v1") :
    WellFormed (Function.update catalog object (some comment)) where
  supported name present column member := by
    apply present_update
    by_cases same : Object.table name = object
    · exact supported name same.symm column member
    · refine wellFormed.supported name ?_ column member
      simpa [Present, Function.update_of_ne same] using present
  commented other text found := by
    by_cases same : other = object
    · subst same
      rw [Function.update_self] at found
      exact commented text (Option.some.inj found)
    · rw [Function.update_of_ne same] at found
      exact wellFormed.commented other text found

/-- Dropping a table keeps the catalog well formed, because no column of a table has another
table as its type. -/
theorem WellFormed.drop (wellFormed : WellFormed catalog) (table : TableName) :
    WellFormed (Function.update catalog (.table table) none) where
  supported name present column member := by
    by_cases same : name = table
    · subst same
      simp [Present] at present
    · have other : Object.table name ≠ .table table := fun equal => same (Object.table.inj equal)
      have stillPresent : Present catalog (.table name) := by
        simpa [Present, Function.update_of_ne other] using present
      simpa [Present] using wellFormed.supported name stillPresent column member
  commented other text found := by
    by_cases same : other = .table table
    · subst same
      simp at found
    · rw [Function.update_of_ne same] at found
      exact wellFormed.commented other text found

/-- Well formed catalogs stay so, and of the objects of a kind none is removed. -/
def keeping (kept : Object → Prop) : Rely Catalog where
  moves before after := (WellFormed before → WellFormed after) ∧
    ∀ object, kept object → Present before object → Present after object
  stays _ := ⟨id, fun _ _ => id⟩
  follows first second :=
    ⟨second.1 ∘ first.1, fun object kind => second.2 object kind ∘ first.2 object kind⟩

variable {kept : Object → Prop}

/-- Every statement but the DROP of a kept table moves the catalog so. -/
theorem perform_moves {statement : Statement}
    (spared : ∀ table, statement = .drop table → ¬ kept (.table table)) (catalog : Catalog) :
    (keeping kept).moves catalog (perform catalog statement).2 := by
  rcases perform_cases statement catalog with same | ⟨object, -, -, supported, performed⟩ |
    ⟨object, -, present, performed⟩ | ⟨table, rfl, performed⟩
  · rw [same]
    exact (keeping kept).stays catalog
  · rw [performed]
    exact ⟨fun wellFormed => wellFormed.put supported nofun,
      fun _ _ => present_update none⟩
  · rw [performed]
    refine ⟨fun wellFormed => wellFormed.put ?_ ?_, fun _ _ => present_update _⟩
    · rintro name rfl
      exact wellFormed.supported name present
    · rintro text ⟨⟩
      rfl
  · rw [performed]
    refine ⟨fun wellFormed => wellFormed.drop table, fun object kind present => ?_⟩
    have other : object ≠ .table table := fun same => spared table rfl (same ▸ kind)
    simpa [Present, Function.update_of_ne other] using present

/-- A statement that drops none of the kept tables keeps the objects that are there, whether it
fails or not. -/
theorem serve_moves {statement : Statement}
    (spared : ∀ table, statement = .drop table → ¬ kept (.table table)) (failure : Option Failure)
    (catalog : Catalog) : (keeping kept).moves catalog (serve failure statement catalog).2 := by
  cases failure with
  | none => exact perform_moves spared catalog
  | some failure =>
    simp only [serve]
    split
    · exact perform_moves spared catalog
    · exact (keeping kept).stays catalog

/-- A CREATE statement keeps every object that is there, also one that fails because the object
exists. -/
theorem create_moves (object : Object) (failure : Option Failure) (catalog : Catalog) :
    (keeping kept).moves catalog (serve failure (.create object) catalog).2 :=
  serve_moves (fun _ same => Statement.noConfusion same) failure catalog

end Statements

section Programs

/-- The statement drops no table, which is what every statement of a setup is like. -/
def Statement.Spares (statement : Statement) : Prop := ∀ table, statement ≠ .drop table

/-- The creation of an object that is missing issues a lookup, a CREATE and a comment of that
object, and nothing else. -/
theorem createMissing_only {kind : Statement → Prop} {object : Object} (lookup : kind (.lookup object))
    (create : kind (.create object)) (comment : kind (.comment object)) :
    (createMissing object).Only kind := by
  refine Prog.Only.attempt ⟨lookup, fun _ => trivial⟩ fun found => ?_
  cases found with
  | true => trivial
  | false => exact Prog.Only.attempt ⟨create, fun _ => trivial⟩ fun _ => ⟨comment, fun _ => trivial⟩

/-- The loop over the versions issues nothing but the descriptions of tables. -/
theorem tableVersions_only {kind : Statement → Prop} (description : ∀ name, kind (.description name))
    (order : List TableName) : (tableVersions order).Only kind := by
  induction order with
  | nil => trivial
  | cons name rest inductionHypothesis =>
    refine ⟨description name, fun reply => ?_⟩
    dsimp only
    split
    · exact inductionHypothesis.bind fun _ => trivial
    · exact inductionHypothesis

/-- The insertion of address rows drops no table before it inserts. -/
theorem ensureAddressTable_only : ensureAddressTable.Only Statement.Spares := by
  refine Prog.Only.bind ⟨nofun, fun _ => trivial⟩ fun haveTable => ?_
  split
  · trivial
  · exact createMissing_only nofun nofun nofun

variable {base catalog : Catalog} {allowed : Option Failure → Prop}

/-- Why a setup fails: a statement failed from outside, or another process created the type
between the query and the CREATE TYPE. -/
def Excused (allowed : Option Failure → Prop) (base : Catalog) (err : String) (catalog : Catalog) :
    Prop :=
  (∃ failure, allowed (some failure)) ∨
    ∃ name, err = alreadyExists name ∧ Present catalog (.type name) ∧ ¬ Present base (.type name)

/-- What other processes may do to the catalog while none of them drops tables: no object is
removed. -/
abbrev growing : Rely Catalog := keeping fun _ => True

/-- An excuse for an error stays one while the catalog grows. -/
theorem Excused.moves (first second : Catalog) (err : String) (moved : growing.moves first second)
    (excused : Excused allowed base err first) : Excused allowed base err second := by
  rcases excused with failed | ⟨name, same, present, fresh⟩
  · exact Or.inl failed
  · exact Or.inr ⟨name, same, moved.2 _ trivial present, fresh⟩

/-- What a query and its statements are issued under: nothing of the base has been removed,
and the types of the table are there. -/
structure Ready (base : Catalog) (object : Object) (catalog : Catalog) : Prop where
  grown : ∀ other, Present base other → Present catalog other
  supported : ∀ name, object = .table name → Supported catalog name

/-- An object that can be created stays so while the catalog grows. -/
theorem Ready.moves {object : Object} {first second : Catalog} (moved : growing.moves first second)
    (ready : Ready base object first) : Ready base object second :=
  ⟨fun other present => moved.2 _ trivial (ready.grown other present),
    fun name same column member => moved.2 _ trivial (ready.supported name same column member)⟩

/-- A statement that drops no table lets the catalog grow, whether it fails or not. -/
theorem spares_moves {statement : Statement} (spares : statement.Spares) (failure : Option Failure)
    (catalog : Catalog) : growing.moves catalog (serve failure statement catalog).2 :=
  serve_moves (fun table same => absurd same (spares table)) failure catalog

/-- A comment on an object that is there returns, and the object stays, unless the statement
fails from outside. -/
theorem comment_secure {object : Object} (present : Present catalog object) :
    Secure postgres growing allowed (Ends (fun _ later => Present later object)
      (Excused allowed base)) (execute (.comment object)) catalog := by
  intro later moved failure admitted
  have still := moved.2 object trivial present
  have kept : growing.moves later (serve failure (.comment object) later).2 :=
    serve_moves nofun failure later
  refine ⟨kept, fun final onward => ?_⟩
  cases failure with
  | some failure => exact Or.inl ⟨failure, admitted⟩
  | none =>
    have commented : (perform later (.comment object)).1 = .ok [] :=
      congrArg Prod.fst (if_pos (show (later object).isSome = true from still))
    have reached := onward.2 object trivial (kept.2 object trivial still)
    simp only [postgres, serve, commented, Except.map, Ends]
    exact reached

/-- CREATE of an object that is not there and whose types are. -/
theorem perform_create_fresh {object : Object} (fresh : catalog object = none)
    (supported : ∀ name, object = .table name → Supported catalog name) :
    perform catalog (.create object) = (.ok [], Function.update catalog object (some none)) := by
  cases object with
  | type name => simp [perform, fresh]
  | table name =>
    have found : (name.columnTypes.find? fun column => (catalog (.type column)).isNone) = none := by
      refine List.find?_eq_none.mpr fun column member => ?_
      have there : (catalog (.type column)).isSome = true := supported name rfl column member
      simp [Option.isSome_iff_ne_none.mp there]
    simp [perform, fresh, found]

/-- CREATE of an object whose types are there leaves it there, or is refused for a type that
is there. -/
theorem perform_create (catalog : Catalog) (object : Object)
    (supported : ∀ name, object = .table name → Supported catalog name) :
    ((perform catalog (.create object)).1 = .ok [] ∧
        Present (perform catalog (.create object)).2 object) ∨
      ∃ name, object = .type name ∧ Present catalog object ∧
        perform catalog (.create object) = (.error (alreadyExists name), catalog) := by
  by_cases present : (catalog object).isSome = true
  · cases object with
    | type name => exact Or.inr ⟨name, rfl, present, by simp only [perform, present, if_true]⟩
    | table name =>
      left
      simp only [perform, present, if_true, true_and]
      exact present
  · have fresh : catalog object = none := by simpa using present
    rw [perform_create_fresh fresh supported]
    exact Or.inl ⟨rfl, by simp [Present]⟩

/-- CREATE and COMMENT of an object that was not there. -/
theorem create_secure {object : Object} (ready : Ready base object catalog)
    (fresh : ¬ Present base object) :
    Secure postgres growing allowed (Ends (fun _ later => Present later object)
        (Excused allowed base))
      ((execute (.create object)).attempt fun _ => execute (.comment object)) catalog := by
  suffices created : Secure postgres growing allowed (Ends (fun _ later => Present later object)
      (Excused allowed base)) (execute (.create object)) catalog from
    created.attempt Excused.moves fun _ _ present => comment_secure present
  intro later moved failure admitted
  have kept : growing.moves later (serve failure (.create object) later).2 :=
    create_moves object failure later
  refine ⟨kept, fun final onward => ?_⟩
  cases failure with
  | some failure => exact Or.inl ⟨failure, admitted⟩
  | none =>
    rcases perform_create later object (ready.moves moved).supported with ⟨created, present⟩ |
      ⟨name, rfl, present, refused⟩
    · have reached := onward.2 object trivial present
      simp only [postgres, serve, created, Except.map, Ends]
      exact reached
    · have reached := onward.2 _ trivial (kept.2 _ trivial present)
      simp only [postgres, serve, refused, Except.map, Ends]
      exact Or.inr ⟨name, rfl, reached, fresh⟩

/-- One pass of a creating loop: the object is there after it. -/
theorem createMissing_secure {object : Object} (ready : Ready base object catalog) :
    Secure postgres growing allowed (Ends (fun _ later => Present later object)
      (Excused allowed base)) (createMissing object) catalog := by
  intro later moved failure admitted
  refine ⟨(serve_moves nofun failure later : growing.moves later (serve failure (.lookup object) later).2), ?_⟩
  have readyLater := ready.moves moved
  cases failure with
  | some failure => exact fun final onward => Or.inl ⟨failure, admitted⟩
  | none =>
    by_cases present : (later object).isSome = true
    · simp only [postgres, serve, perform, present, if_true]
      exact fun final onward => onward.2 object trivial present
    · simp only [postgres, serve, perform, present, Bool.false_eq_true, if_false]
      exact create_secure readyLater fun old => present (readyLater.grown object old)

/-- Every type is a key of the map of types. -/
theorem typeNames_all (name : TypeName) : name ∈ typeNames := by cases name <;> decide

/-- Every table is a key of the map of tables. -/
theorem tableNames_all (name : TableName) : name ∈ tableNames := by cases name <;> decide

/-- The objects that were there in the base are there in the catalog still. -/
def Grown (base catalog : Catalog) : Prop := ∀ object, Present base object → Present catalog object

/-- A catalog that has grown from a base still has when others have let it grow further. -/
theorem Grown.moves (first second : Catalog) (moved : growing.moves first second)
    (grown : Grown base first) : Grown base second :=
  fun object present => moved.2 object trivial (grown object present)

/-- A loop that creates the objects it ranges over ends with all of them in the catalog, or with
an error that has an excuse. -/
theorem createEach_secure (allowed : Option Failure → Prop) {α : Type} (kind : α → Object)
    (order : List α) (ready : ∀ name, Ready base (kind name) catalog) (grown : Grown base catalog) :
    Secure postgres growing allowed
      (Ends (fun _ later => (∀ name ∈ order, Present later (kind name)) ∧ Grown base later)
        (Excused allowed base))
      (Prog.forEach (fun name => createMissing (kind name)) order) catalog := by
  have kept : ∀ first second : Catalog, growing.moves first second →
      (∀ name, Ready base (kind name) first) → ∀ name, Ready base (kind name) second :=
    fun _ _ moved still name => (still name).moves moved
  have each : ∀ name ∈ order, ∀ here : Catalog, (∀ name, Ready base (kind name) here) →
      Secure postgres growing allowed (Ends (fun _ later => Present later (kind name))
        (Excused allowed base)) (createMissing (kind name)) here :=
    fun name _ _ here => createMissing_secure (here name)
  have looped := Secure.forEach Excused.moves (fun _ _ name moved => moved.2 (kind name) trivial) kept
    each ready
  refine (looped.keep Grown.moves grown).mono fun result later reached => ?_
  cases result with
  | error err => exact reached.1
  | ok _ => exact reached

/-- What `SetupTables` does once the loop over its types has returned: the tables and then their
versions. -/
def setupAfterTypes (orders : Orders) : Sql (Except String Unit) :=
  (createTables orders.tables.order).attempt fun _ =>
    (tableVersions orders.versions.order).bind fun _ => .ret (.ok ())

/-- From the creation of some types on, the others being there, `SetupTables` leaves every
type and table there. -/
theorem setupFrom_secure (orders : Orders) (types : List TypeName)
    (passed : ∀ name, name ∉ types → Present catalog (.type name)) (grown : Grown base catalog) :
    Secure postgres growing allowed (Ends (fun _ later => Complete later) (Excused allowed base))
      ((createTypes types).attempt fun _ => setupAfterTypes orders) catalog := by
  have passedKept : ∀ first second : Catalog, growing.moves first second →
      (∀ name, name ∉ types → Present first (.type name)) →
      ∀ name, name ∉ types → Present second (.type name) :=
    fun _ _ moved still name other => moved.2 (.type name) trivial (still name other)
  have created := (createEach_secure allowed Object.type types (fun _ => ⟨grown, nofun⟩) grown).keep
    passedKept passed
  refine created.bind fun result second typed => ?_
  cases result with
  | error err => exact fun later onward => Excused.moves _ _ _ onward typed.1
  | ok _ =>
    have typesThere : ∀ name, Present second (.type name) := by
      intro name
      by_cases member : name ∈ types
      · exact typed.1.1 name member
      · exact typed.2 name member
    have typesKept : ∀ first second : Catalog, growing.moves first second →
        (∀ name, Present first (.type name)) → ∀ name, Present second (.type name) :=
      fun _ _ moved still name => moved.2 (.type name) trivial (still name)
    have tables := (createEach_secure allowed Object.table orders.tables.order
      (fun _ => ⟨typed.1.2, fun _ _ column _ => typesThere column⟩) typed.1.2).keep typesKept typesThere
    refine tables.bind fun result third tabled => ?_
    cases result with
    | error err => exact fun later onward => Excused.moves _ _ _ onward tabled.1
    | ok _ =>
      have complete : Complete third := by
        intro object
        cases object with
        | type name => exact tabled.2 name
        | table name => exact tabled.1.1 name (orders.tables.all.mem_iff.mpr (tableNames_all name))
      have completeKept : ∀ first second : Catalog, growing.moves first second →
          Complete first → Complete second :=
        fun _ _ moved whole object => moved.2 object trivial (whole object)
      have versions : Secure postgres growing allowed (fun _ _ => True)
          (tableVersions orders.versions.order) third :=
        Secure.of_only (fun _ state failure spares _ => spares_moves spares failure state)
          (tableVersions_only (fun _ => nofun) _) third
      exact (versions.keep completeKept complete).bind fun _ last reached later onward object =>
        onward.2 object trivial (reached.2 object)

/-- `SetupTables` leaves every type and table there, whatever the other processes do
besides dropping. -/
theorem setupTables_secure (orders : Orders) (grown : Grown base catalog) :
    Secure postgres growing allowed (Ends (fun _ later => Complete later) (Excused allowed base))
      (setupTables orders) catalog :=
  setupFrom_secure orders orders.types.order
    (fun name other => absurd (orders.types.all.mem_iff.mpr (typeNames_all name)) other) grown

/-- No call of the program removes a type that is there, not even the one that drops the tables. -/
theorem program_secure (call : Call) :
    Secure postgres (keeping fun object => ∃ name, object = .type name) allowed (fun _ _ => True)
      (program call) catalog := by
  have only : (program call).Only fun _ => True := by
    generalize program call = sql
    induction sql with
    | ret result => trivial
    | call statement next inductionHypothesis => exact ⟨trivial, inductionHypothesis⟩
  exact Secure.of_only (fun _ state failure _ _ =>
    serve_moves (fun _ _ ⟨_, impossible⟩ => nomatch impossible) failure state) only catalog

end Programs

section Alone

variable {catalog : Catalog}

/-- The catalog with an object, and its comment if it was not there. -/
def settle (object : Object) (catalog : Catalog) : Catalog :=
  Function.update catalog object (some ((catalog object).getD (some "v1")))

/-- An object that is there is settled already, and settling it changes nothing. -/
theorem settle_of_present {object : Object} {comment : Option String}
    (present : catalog object = some comment) : settle object catalog = catalog := by
  rw [settle, present, Option.getD_some, ← present, Function.update_eq_self]

/-- The creation of a missing object, with no other process and no failure, returns without an
error and settles the object. -/
theorem createMissing_alone {object : Object}
    (supported : ∀ name, object = .table name → Supported catalog name) :
    alone postgres none (createMissing object) catalog = (.ok (), settle object catalog) := by
  cases found : catalog object with
  | some comment =>
    rw [settle_of_present found]
    simp [createMissing, objectExists, Prog.attempt, alone, postgres, serve, perform, found, Prog.bind,
      Except.map]
  | none =>
    have created := perform_create_fresh found supported
    have commented : perform (Function.update catalog object (some none)) (.comment object) =
        (.ok [], settle object catalog) := by
      simp [perform, settle, found]
    simp [createMissing, objectExists, execute, Prog.attempt, alone, postgres, serve, created, commented,
      show perform catalog (.lookup object) = (.ok [], catalog) by simp [perform, found], Prog.bind,
      Except.map]

/-- What a creating loop does to an object: one of those it ranges over is settled with the first
version, any other is left alone. -/
theorem settle_each {α : Type} (kind : α → Object) (order : List α) (object : Object) :
    (order.foldl (fun current name => settle (kind name) current) catalog) object =
      if ∃ name ∈ order, kind name = object then some ((catalog object).getD (some "v1"))
      else catalog object := by
  induction order generalizing catalog with
  | nil => simp
  | cons first rest inductionHypothesis =>
    rw [List.foldl_cons, inductionHypothesis]
    by_cases same : kind first = object
    · subst same
      simp [settle]
    · have other : settle (kind first) catalog object = catalog object :=
        Function.update_of_ne (Ne.symm same) ..
      simp [same, other]

/-- An object that is there stays when another one, or itself, is settled. -/
theorem present_settle {object other : Object} (present : Present catalog other) :
    Present (settle object catalog) other := present_update _ present

/-- A creating loop that runs alone and without failures returns without an error and settles its
objects one by one. -/
theorem createEach_alone {α : Type} (kind : α → Object) (order : List α)
    (supported : ∀ name table, kind name = .table table → Supported catalog table) :
    alone postgres none (Prog.forEach (fun name => createMissing (kind name)) order) catalog =
      (.ok (), order.foldl (fun current name => settle (kind name) current) catalog) := by
  have each : ∀ name ∈ order, ∀ current : Catalog,
      (∀ name table, kind name = .table table → Supported current table) →
      alone postgres none (createMissing (kind name)) current = (.ok (), settle (kind name) current) ∧
        ∀ other table, kind other = .table table → Supported (settle (kind name) current) table := by
    intro name _ current ready
    refine ⟨createMissing_alone (ready name), fun other table same column member => ?_⟩
    exact present_settle (ready other table same column member)
  exact (alone_forEach each supported).1

/-- The queries of `TableVersions` change nothing. A table is listed if it has a comment. -/
theorem tableVersions_alone (order : List TableName) :
    alone postgres none (tableVersions order) catalog =
      (order.filterMap fun name => (catalog (.table name)).join.map fun comment =>
        (name, version comment), catalog) := by
  induction order with
  | nil => rfl
  | cons name rest inductionHypothesis =>
    rcases found : catalog (.table name) with _ | _ | comment
    · simpa [tableVersions, alone, postgres, serve, perform, found] using inductionHypothesis
    · simpa [tableVersions, alone, postgres, serve, perform, found] using inductionHypothesis
    · have tail : alone postgres none ((tableVersions rest).bind fun versions =>
          .ret ((name, version comment) :: versions)) catalog = _ := alone_bind _ _ _
      rw [inductionHypothesis] at tail
      simpa [tableVersions, alone, postgres, serve, perform, found] using tail

/-- A setup alone adds what is missing, each with its comment, and leaves the rest. -/
def Catalog.settled (catalog : Catalog) : Catalog :=
  fun object => some ((catalog object).getD (some "v1"))

/-- A setup that runs alone and without failures returns without an error, and all types and
tables are in the catalog afterwards. -/
theorem setupTables_alone (orders : Orders) (catalog : Catalog) :
    alone postgres none (setupTables orders) catalog = (.ok (), catalog.settled) := by
  have types : alone postgres none (createTypes orders.types.order) catalog = _ :=
    createEach_alone Object.type orders.types.order nofun
  generalize afterTypes : orders.types.order.foldl (fun current name => settle (.type name) current)
    catalog = typed at types
  have typesThere : ∀ name, Present typed (.type name) := by
    intro name
    have member : name ∈ orders.types.order := orders.types.all.mem_iff.mpr (typeNames_all name)
    rw [Present, ← afterTypes, settle_each Object.type, if_pos ⟨name, member, rfl⟩]
    rfl
  have tables : alone postgres none (createTables orders.tables.order) typed = _ :=
    createEach_alone Object.table orders.tables.order fun _ _ _ column _ => typesThere column
  rw [setupTables, alone_attempt types, alone_attempt tables, alone_bind, tableVersions_alone]
  refine Prod.ext rfl (funext fun object => ?_)
  simp only [alone]
  rw [settle_each Object.table, ← afterTypes, settle_each Object.type]
  cases object with
  | type name =>
    have member : name ∈ orders.types.order := orders.types.all.mem_iff.mpr (typeNames_all name)
    simp [member, Catalog.settled]
  | table name =>
    have member : name ∈ orders.tables.order := orders.tables.all.mem_iff.mpr (tableNames_all name)
    simp [member, Catalog.settled]

/-- The catalog without its tables: the types are what they were. -/
def Catalog.dropped (catalog : Catalog) : Catalog
  | .type name => catalog (.type name)
  | .table _ => none

/-- `DropTables` alone and without failures removes the tables and leaves the types, since the
type it names is none of theirs. -/
theorem dropTables_alone (order : MapOrder tableNames) (catalog : Catalog) :
    alone postgres none (dropTables order.order) catalog = (.ok (), catalog.dropped) := by
  have general : ∀ (names : List TableName) (catalog : Catalog),
      alone postgres none (dropTables names) catalog =
        (.ok (), fun object => if ∃ name ∈ names, .table name = object then none else catalog object) := by
    intro names
    induction names with
    | nil => intro catalog; simp [dropTables, alone, postgres, serve, perform]
    | cons first rest inductionHypothesis =>
      intro catalog
      have head : alone postgres none (dropTables (first :: rest)) catalog =
          alone postgres none (dropTables rest) (Function.update catalog (.table first) none) := rfl
      rw [head, inductionHypothesis]
      refine Prod.ext rfl (funext fun object => ?_)
      by_cases same : Object.table first = object
      · subst same
        simp
      · simp [same, Function.update_of_ne (Ne.symm same)]
  rw [general]
  refine Prod.ext rfl (funext fun object => ?_)
  cases object with
  | type name => simp [Catalog.dropped]
  | table name =>
    have member : name ∈ order.order := order.all.mem_iff.mpr (tableNames_all name)
    simp [member, Catalog.dropped]

/-- The comment with which tables are created is read as the first version. -/
theorem version_v1 : version "v1" = 1 := by
  have digits : ("v1" : String).toList = ['v', '1'] := rfl
  have one : Strconv.atoi ['1'] = some 1 := Strconv.parseInt_formatInt 1
  rw [version, digits]
  simp [one]

/-- Over a well formed catalog `TableVersions` lists version 1, for the tables that have
their comment. -/
theorem tableVersions_wellFormed (wellFormed : WellFormed catalog) (order : List TableName) :
    alone postgres none (tableVersions order) catalog =
      ((order.filter fun name => (catalog (.table name)).join.isSome).map fun name => (name, 1),
        catalog) := by
  rw [tableVersions_alone]
  refine Prod.ext ?_ rfl
  induction order with
  | nil => rfl
  | cons name rest inductionHypothesis =>
    rcases found : catalog (.table name) with _ | _ | comment
    · simpa [found] using inductionHypothesis
    · simpa [found] using inductionHypothesis
    · obtain rfl := wellFormed.commented _ _ found
      simpa [found, version_v1] using inductionHypothesis

end Alone

section Runs

variable {ι : Type} [DecidableEq ι] {base : Catalog} {events : List (Event (Option Failure) Call ι)}
  {final : State Catalog Statement Reply Call (Except String Unit) ι}

/-- No process of the run calls `DropTables`. -/
def NoDrops (events : List (Event (Option Failure) Call ι)) : Prop :=
  ∀ client order, .start client (.dropTables order) ∉ events

/-- A statement of the run failed from outside, for no reason in the catalog. -/
def Failed (events : List (Event (Option Failure) Call ι)) : Prop :=
  ∃ client failure, .serve client (some failure) ∈ events

/-- What a call is secure for when no table is dropped: a setup leaves the database complete,
or fails with an excuse. -/
def Ended (allowed : Option Failure → Prop) (base : Catalog) : Call → Except String Unit → Catalog → Prop
  | .setupTables _, result, catalog =>
    Ends (fun _ later => Complete later) (Excused allowed base) result catalog
  | _, _, _ => True

/-- Any call but `DropTables` ends as it should over a growing catalog: with its objects there,
or with an error that has an excuse. -/
theorem call_secure {allowed : Option Failure → Prop} {catalog : Catalog} {call : Call}
    (spares : ∀ order, call ≠ .dropTables order) (grown : Grown base catalog) :
    Secure postgres growing allowed (Ended allowed base call) (program call) catalog := by
  cases call with
  | setupTables orders => exact setupTables_secure orders grown
  | dropTables order => exact absurd rfl (spares order)
  | insertAddressOuts =>
    exact Secure.of_only (fun _ state failure spares _ => spares_moves spares failure state)
      ensureAddressTable_only catalog

omit [DecidableEq ι] in
/-- What the events of a run without drops bring in. -/
theorem permitted_of_noDrops {allowed : Option Failure → Prop} (noDrops : NoDrops events)
    (decided : ∀ client failure, .serve client failure ∈ events → allowed failure) :
    ∀ event ∈ events, event.Permitted (fun call => ∀ order, call ≠ .dropTables order) allowed := by
  intro event member
  cases event with
  | start client call =>
    rintro order rfl
    exact noDrops client order member
  | serve client failure => exact decided client failure member

/-- In a run without drops nothing is removed, and every process has what its call is secure
for. -/
theorem run_secured (allowed : Option Failure → Prop) (noDrops : NoDrops events)
    (decided : ∀ client failure, .serve client failure ∈ events → allowed failure)
    (ran : exec (step postgres) (State.initial base) events = some final) :
    growing.moves base final.shared ∧ final.Secured postgres growing allowed (Ended allowed base) := by
  have initially : (State.initial base : State Catalog Statement Reply Call (Except String Unit)
      ι).Secured postgres growing allowed (Ended allowed base) := State.Secured.initial base
  have secured := initially.exec Grown.moves (fun _ _ spares grown => call_secure spares grown)
    (fun _ present => present) (permitted_of_noDrops noDrops decided) ran
  exact ⟨secured.1, secured.2.2⟩

/-- In every run, whoever calls what and whatever fails, the types that are there at the
beginning stay. -/
theorem run_types (ran : exec (step postgres) (State.initial base) events = some final) :
    (keeping fun object => ∃ name, object = .type name).moves base final.shared := by
  have initially : (State.initial base : State Catalog Statement Reply Call (Except String Unit)
      ι).Secured postgres (keeping fun object => ∃ name, object = .type name) (fun _ => True)
      fun _ _ _ => True := State.Secured.initial base
  have permitted : ∀ event ∈ events, event.Permitted (fun _ => True) fun _ => True :=
    fun event _ => by cases event <;> trivial
  have kept : ∀ first second : Catalog, (keeping fun object => ∃ name, object = .type name).moves
      first second → True → True := fun _ _ _ => id
  exact (initially.exec kept (fun call _ _ _ => program_secure call) trivial permitted ran).1

/-- Processes that set up the tables, drop them or insert address rows, in every
interleaving and whichever statements fail: every table that is there has the types of its
columns, and no type is removed. Without drops nothing is removed, a setup that succeeded
leaves the database complete ever after, and one that failed met a failing statement or
another process that created a type between its query and its CREATE TYPE. From every
state so reached a setup that nothing disturbs succeeds in any order of its loops, creates
what is missing with its comment and leaves the rest, of which a table without a comment
stays without a version; drops that nothing disturbs remove exactly the tables. -/
theorem setups_in_every_run (wellFormed : WellFormed base)
    (ran : exec (step postgres) (State.initial base) events = some final) :
    (WellFormed final.shared ∧
      ∀ name, Present base (.type name) → Present final.shared (.type name)) ∧
    (NoDrops events →
      Grown base final.shared ∧
      (∀ client orders, final.clients client = some (.setupTables orders, .ret (.ok ())) →
        Complete final.shared) ∧
      ∀ client orders err, final.clients client = some (.setupTables orders, .ret (.error err)) →
        Failed events ∨ ∃ name, err = alreadyExists name ∧
          Present final.shared (.type name) ∧ ¬ Present base (.type name)) ∧
    (∀ orders, alone postgres none (setupTables orders) final.shared =
      (.ok (), final.shared.settled)) ∧
    (∀ order : MapOrder tableNames, alone postgres none (dropTables order.order) final.shared =
      (.ok (), final.shared.dropped)) ∧
    ∀ order : MapOrder tableNames, alone postgres none (tableVersions order.order) final.shared =
      ((order.order.filter fun name => (final.shared (.table name)).join.isSome).map
        fun name => (name, 1), final.shared) := by
  obtain ⟨keeps, types⟩ := run_types ran
  refine ⟨⟨keeps wellFormed, fun name => types _ ⟨name, rfl⟩⟩, fun noDrops => ?_,
    fun orders => setupTables_alone orders _, fun order => dropTables_alone order _,
    fun order => tableVersions_wellFormed (keeps wellFormed) order.order⟩
  obtain ⟨moved, secured⟩ := run_secured (fun failure => ∃ client, .serve client failure ∈ events)
    noDrops (fun client _ member => ⟨client, member⟩) ran
  refine ⟨fun object => moved.2 object trivial, fun client orders ended => secured.ended ended,
    fun client orders err ended => ?_⟩
  have excused : Excused (fun failure => ∃ client, .serve client failure ∈ events) base err
      final.shared := secured.ended ended
  rcases excused with ⟨failure, failed, served⟩ | raced
  · exact Or.inl ⟨failed, failure, served⟩
  · exact Or.inr raced

/-- The three loops in the orders in which the source writes the maps. -/
def writtenOrders : Orders := ⟨⟨_, .refl _⟩, ⟨_, .refl _⟩, ⟨_, .refl _⟩⟩

/-- Two setups that both query for the first type before one creates it. -/
def racedSetups : List (Event (Option Failure) Call Bool) :=
  [.start false (.setupTables writtenOrders), .start true (.setupTables writtenOrders),
    .serve false none, .serve true none, .serve false none, .serve true none] ++
    List.replicate 40 (.serve false none)

set_option maxRecDepth 4000 in
/-- Of the two racing setups one returns without an error, and the other one with the error of a
second CREATE TYPE. -/
theorem racedSetups_end :
    (exec (step postgres) (State.initial noObjects) racedSetups).map
        (fun final => (final.clients false, final.clients true)) =
      some (some (.setupTables writtenOrders, .ret (.ok ())),
        some (.setupTables writtenOrders, .ret (.error (alreadyExists .vinT)))) := rfl

/-- Neither of the two processes drops the tables. -/
theorem racedSetups_noDrops : NoDrops racedSetups := fun client order => by simp [racedSetups]

/-- The second fails, and the first leaves the database complete. -/
theorem setups_in_every_run_two : ∃ final,
    exec (step postgres) (State.initial noObjects) racedSetups = some final ∧
      final.clients true =
        some (.setupTables writtenOrders, .ret (.error (alreadyExists .vinT))) ∧
      Present final.shared (.type .vinT) ∧ Complete final.shared := by
  obtain ⟨final, ran, ended⟩ := Option.map_eq_some_iff.mp racedSetups_end
  obtain ⟨first, second⟩ := Prod.mk.inj ended
  have without := (setups_in_every_run noObjects_wellFormed ran).2.1 racedSetups_noDrops
  have complete := without.2.1 false writtenOrders first
  exact ⟨final, ran, second, complete (.type .vinT), complete⟩

end Runs

end Hcexplorer.Hcpg.Schema
