import Hcexplorer.Hcpg.Rows
import Hcexplorer.Library.Interactive
import Mathlib.Algebra.Order.Group.Multiset

/-!
# The transaction tables and the statements on them

Four tables hold the transactions of the stored blocks: vins, vouts, transactions
and addresses. A table is a collection of rows under SERIAL row ids; the order of
rows is not part of it. A connection has at most one database transaction open.
Rows it inserts are its own until it commits them; a rollback forgets them, but
never returns the row ids that the sequences gave out.

A statement succeeds, and may return a row id, or it fails. Which statements fail
is decided outside (a lost connection, a violated unique index): each connection
carries the failures it will meet. A failed commit is a rollback.

Statements are atomic and see committed rows, besides those of their own
transaction. A checked insert of a transaction meets the unique index on the pair
of its hash and its block's hash. It returns no row when that pair is present.
-/

namespace Hcexplorer.Hcpg

/-- A row under its id, which the sequence of its table has given out. -/
@[ext]
structure Stored (α : Type) where
  id : Nat
  row : α
deriving DecidableEq, Repr

/-- The tables with the transactions of the stored blocks. -/
@[ext]
structure TxTables where
  vins : Multiset (Stored VinTxProperty)
  vouts : Multiset (Stored Vout)
  transactions : Multiset (Stored Tx)
  addresses : Multiset (Stored AddressRow)
deriving DecidableEq

namespace TxTables

instance : Zero TxTables := ⟨⟨0, 0, 0, 0⟩⟩

instance : Add TxTables := ⟨fun left right =>
  ⟨left.vins + right.vins, left.vouts + right.vouts, left.transactions + right.transactions,
    left.addresses + right.addresses⟩⟩

/-- The empty tables have no inputs. -/
@[simp] theorem zero_vins : (0 : TxTables).vins = 0 := rfl

/-- The empty tables have no outputs. -/
@[simp] theorem zero_vouts : (0 : TxTables).vouts = 0 := rfl

/-- The empty tables have no transactions. -/
@[simp] theorem zero_transactions : (0 : TxTables).transactions = 0 := rfl

/-- The empty tables have no address rows. -/
@[simp] theorem zero_addresses : (0 : TxTables).addresses = 0 := rfl

variable (left right : TxTables)

/-- The inputs of two tables together are those of both. -/
@[simp] theorem add_vins : (left + right).vins = left.vins + right.vins := rfl

/-- The outputs of two tables together are those of both. -/
@[simp] theorem add_vouts : (left + right).vouts = left.vouts + right.vouts := rfl

/-- The transactions of two tables together are those of both. -/
@[simp] theorem add_transactions :
    (left + right).transactions = left.transactions + right.transactions := rfl

/-- The address rows of two tables together are those of both. -/
@[simp] theorem add_addresses : (left + right).addresses = left.addresses + right.addresses := rfl

/-- Rows are added in any order, so that rows of several statements need no order among them. -/
instance : AddCommMonoid TxTables where
  add_assoc first second third := by ext1 <;> simp [add_assoc]
  zero_add tables := by ext1 <;> simp
  add_zero tables := by ext1 <;> simp
  add_comm first second := by ext1 <;> simp [add_comm]
  nsmul := nsmulRec

end TxTables

/-- The columns of the unique index `uix_tx_hashes`, by which a transaction conflicts with one
that is there. -/
def Tx.hashes (row : Tx) : Hash × Hash := (row.txID, row.blockHash)

/-- The contents of the unique index `uix_tx_hashes`, one pair of hashes for each transaction. -/
def TxTables.txHashes (tables : TxTables) : Multiset (Hash × Hash) :=
  tables.transactions.map fun stored => stored.row.hashes

/-- The four sequences of row ids, one for each of the tables. -/
inductive Table where
  | vins
  | vouts
  | transactions
  | addresses
deriving DecidableEq, Repr

/-- The database as far as transactions go: the tables, and the next row id of
each. -/
structure TxDb where
  tables : TxTables
  sequences : Table → Nat

/-- The INSERT statements. The flag of a transaction says whether the statement
has its ON CONFLICT clause. The checked statement for vouts is the unchecked one
in this version, and vins and addresses have none. -/
inductive Insert where
  | vout (row : Vout)
  | vin (row : VinTxProperty)
  | tx (checked : Bool) (row : Tx)
  | address (row : AddressRow)
deriving DecidableEq, Repr

namespace Insert

/-- The table of the statement, whose sequence gives the row's id. -/
def table : Insert → Table
  | .vout _ => .vouts
  | .vin _ => .vins
  | .tx _ _ => .transactions
  | .address _ => .addresses

/-- The row of the statement under an id, as tables with this row alone. -/
def rows : Insert → Nat → TxTables
  | .vout row, id => { (0 : TxTables) with vouts := {⟨id, row⟩} }
  | .vin row, id => { (0 : TxTables) with vins := {⟨id, row⟩} }
  | .tx _ row, id => { (0 : TxTables) with transactions := {⟨id, row⟩} }
  | .address row, id => { (0 : TxTables) with addresses := {⟨id, row⟩} }

/-- The ON CONFLICT clause applies: the pair of hashes is in the index. -/
def conflicts (tables : TxTables) : Insert → Prop
  | .tx checked row => checked = true ∧ row.hashes ∈ tables.txHashes
  | .vout _ | .vin _ | .address _ => False

instance (tables : TxTables) : (insert : Insert) → Decidable (insert.conflicts tables)
  | .tx checked row => inferInstanceAs (Decidable (checked = true ∧ row.hashes ∈ tables.txHashes))
  | .vout _ => inferInstanceAs (Decidable False)
  | .vin _ => inferInstanceAs (Decidable False)
  | .address _ => inferInstanceAs (Decidable False)

end Insert

/-- The parameters of `internal.SetAddressSpendingForOutpoint`: the outpoint, and the spending
columns to be set. -/
structure SetSpending where
  fundingTxHash : Hash
  fundingTxVoutIndex : UInt32
  spending : Spending
deriving DecidableEq, Repr

/-- The outpoint that the statement is about, the hash and the index of the funding output. -/
def SetSpending.outpoint (set : SetSpending) : Hash × UInt32 :=
  (set.fundingTxHash, set.fundingTxVoutIndex)

/-- The outpoint that an address row is about, the hash and the index of the funding output. -/
def AddressRow.outpoint (row : AddressRow) : Hash × UInt32 :=
  (row.fundingTxHash, row.fundingTxVoutIndex)

/-- The UPDATE on one row, which sets its spending columns if the row is for the outpoint. -/
def AddressRow.spend (set : SetSpending) (row : AddressRow) : AddressRow :=
  if row.outpoint = set.outpoint then { row with spending := some set.spending } else row

/-- The UPDATE on the table, which goes over all of its rows. -/
def TxTables.spend (set : SetSpending) (tables : TxTables) : TxTables :=
  { tables with addresses := tables.addresses.map fun stored =>
      { stored with row := stored.row.spend set } }

/-- The statements of a connection, with those that begin and end a database transaction. -/
inductive Statement where
  | begin
  | prepare
  | commit
  | rollback
  | insert (row : Insert)
  | setSpending (set : SetSpending)
deriving DecidableEq, Repr

/-- How a statement ends: with the id of the row it returns, if any, or with the
error of the driver. -/
abbrev Reply := Except String (Option Nat)

/-- A connection: the failure, if any, of the statement issued as the k-th, the
number of statements issued so far, and the rows of its open transaction. -/
structure Conn where
  faults : Nat → Option String
  issued : Nat
  pending : TxTables

/-- A connection on which nothing was issued, with its failures to come. -/
def Conn.fresh (faults : Nat → Option String) : Conn := ⟨faults, 0, 0⟩

/-- What a statement does to the database: nothing, a step of a sequence (for the
row of that id, or for a conflicting row), the rows of a transaction, or an
update. -/
inductive Effect where
  | none
  | nextval (table : Table) (id : Option Nat)
  | rows (pending : TxTables)
  | spend (set : SetSpending)
deriving DecidableEq

/-- The reply to a statement: an error if it fails, and for an INSERT the row's id, or none where
the row conflicts. -/
def reply (request : Statement) (here : Conn) (db : TxDb) : Reply :=
  match here.faults here.issued with
  | some err => .error err
  | none =>
    match request with
    | .insert insert =>
      if insert.conflicts (db.tables + here.pending) then .ok none
      else .ok (some (db.sequences insert.table))
    | .begin | .prepare | .commit | .rollback | .setSpending _ => .ok none

/-- The connection after a statement, with the rows that wait for the commit. -/
def advance (request : Statement) (reply : Reply) (here : Conn) : Conn :=
  { here with
    issued := here.issued + 1
    pending :=
      match request, reply with
      | .insert insert, .ok (some id) => here.pending + insert.rows id
      | .begin, _ => 0
      | .commit, _ => 0
      | .rollback, _ => 0
      | _, _ => here.pending }

/-- The effect of a statement on the database: an id is used up, rows are committed, or spending
columns are set. -/
def effect (request : Statement) (reply : Reply) (here : Conn) : Effect :=
  match request, reply with
  | .insert insert, .ok id => .nextval insert.table id
  | .commit, .ok _ => .rows here.pending
  | .setSpending set, .ok _ => .spend set
  | _, _ => .none

/-- An effect on the database, which leaves everything else as it is. -/
def Effect.apply : Effect → TxDb → TxDb
  | .none, db => db
  | .nextval table _, db =>
    { db with sequences := fun each => if each = table then db.sequences each + 1 else db.sequences each }
  | .rows pending, db => { db with tables := db.tables + pending }
  | .spend set, db => { db with tables := db.tables.spend set }

/-- The PostgreSQL server, as far as the statements of `storeTxns` need it. -/
def postgres : Interactive.Server Statement Reply Conn Effect TxDb :=
  ⟨reply, advance, effect, Effect.apply⟩

section Commutation

/-- An update does not move a row to another outpoint. -/
@[simp] theorem AddressRow.outpoint_spend (set : SetSpending) (row : AddressRow) :
    (row.spend set).outpoint = row.outpoint := by
  unfold AddressRow.spend
  split <;> rfl

/-- Two updates of different outpoints commute on one row, since a row is for one outpoint only. -/
theorem AddressRow.spend_comm {mine other : SetSpending} (different : mine.outpoint ≠ other.outpoint)
    (row : AddressRow) : (row.spend mine).spend other = (row.spend other).spend mine := by
  by_cases here : row.outpoint = mine.outpoint
  · have elsewhere : row.outpoint ≠ other.outpoint := here ▸ different
    have kept : (row.spend mine).outpoint ≠ other.outpoint := by
      rw [AddressRow.outpoint_spend]
      exact elsewhere
    rw [AddressRow.spend, if_neg kept, AddressRow.spend.eq_def other, if_neg elsewhere]
  · have kept : (row.spend other).outpoint ≠ mine.outpoint := by
      rw [AddressRow.outpoint_spend]
      exact here
    rw [AddressRow.spend.eq_def mine row, if_neg here, AddressRow.spend.eq_def mine, if_neg kept]

/-- Updates of different outpoints commute on the table. -/
theorem TxTables.spend_comm {mine other : SetSpending} (different : mine.outpoint ≠ other.outpoint)
    (tables : TxTables) : (tables.spend mine).spend other = (tables.spend other).spend mine := by
  simp only [TxTables.spend, Multiset.map_map, Function.comp_def, AddressRow.spend_comm different]

/-- An update does not see rows of another outpoint. -/
theorem TxTables.spend_add {set : SetSpending} {pending : TxTables}
    (elsewhere : ∀ stored ∈ pending.addresses, stored.row.outpoint ≠ set.outpoint)
    (tables : TxTables) : (tables + pending).spend set = tables.spend set + pending := by
  have kept : pending.addresses.map (fun stored =>
      { stored with row := stored.row.spend set }) = pending.addresses := by
    conv_rhs => rw [← Multiset.map_id' pending.addresses]
    apply Multiset.map_congr rfl
    intro stored member
    rw [AddressRow.spend, if_neg (elsewhere stored member)]
  ext1 <;> simp [TxTables.spend, kept]

end Commutation

end Hcexplorer.Hcpg
