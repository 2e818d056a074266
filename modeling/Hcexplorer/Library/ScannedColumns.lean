import Mathlib.Data.List.Basic

/-!
# Rows written and read by columns

An INSERT names columns and binds a value to each. A SELECT names columns too, and the
values of a row are scanned, in that order, into destinations. Each destination converts
a value and assigns it to a variable, or refuses it. When there are not as many
destinations as values nothing is assigned. The assignments before a refused value stay.

One row is read by a query that expects one, or the rows are read in a loop that ends
with the first error. Columns, values and variables are arbitrary types.
-/

namespace Hcexplorer.ScannedColumns

variable {κ δ ε σ : Type}

section Model

/-- The value in a column of a row to which an INSERT binds values, `null` where it names no such
column. -/
def insertedRow [DecidableEq κ] (null : δ) (columns : List κ) (values : List δ) (column : κ) : δ :=
  ((columns.zip values).lookup column).getD null

/-- The values that a SELECT returns of a row. -/
def selected (columns : List κ) (row : κ → δ) : List δ := columns.map row

/-- Where a value is assigned to: it is converted and stored among the local variables, or
refused. -/
abbrev Destination (δ ε σ : Type) := δ → σ → Except ε σ

/-- The errors of a query: of the server, of an empty result, and of the scan of a row. -/
inductive QueryError (ε : Type) where
  | failed (err : String)
  | noRows
  | destinations (expected given : Nat)
  | column (index : Nat) (err : ε)
deriving DecidableEq, Repr

/-- Assign values in order, up to the first that is refused. -/
def assignAll : Nat → List (Destination δ ε σ) → List δ → σ → Option (QueryError ε) × σ
  | index, assign :: destinations, value :: values, locals =>
    match assign value locals with
    | .error err => (some (.column index err), locals)
    | .ok assigned => assignAll (index + 1) destinations values assigned
  | _, _, _, locals => (none, locals)

/-- `Rows.Scan`, which refuses a number of destinations other than that of the values. -/
def scan (destinations : List (Destination δ ε σ)) (values : List δ) (locals : σ) :
    Option (QueryError ε) × σ :=
  if destinations.length = values.length then assignAll 0 destinations values locals
  else (some (.destinations values.length destinations.length), locals)

/-- `QueryRow` and `Scan`: the first row of the result. -/
def queryRow (fault : Option String) (destinations : List (Destination δ ε σ)) (rows : List (List δ))
    (locals : σ) : Option (QueryError ε) × σ :=
  match fault, rows with
  | some err, _ => (some (.failed err), locals)
  | none, [] => (some .noRows, locals)
  | none, values :: _ => scan destinations values locals

/-- A loop over rows that scans each into new variables, up to the first error. -/
def scanRows (destinations : List (Destination δ ε σ)) (new : σ) :
    List (List δ) → Option (QueryError ε) × List σ
  | [] => (none, [])
  | values :: rows =>
    match scan destinations values new with
    | (some err, _) => (some err, [])
    | (none, locals) =>
      let (err, others) := scanRows destinations new rows
      (err, locals :: others)

/-- `Query` and the loop over its rows, with the error of either. -/
def queryRows (fault : Option String) (destinations : List (Destination δ ε σ)) (new : σ)
    (rows : List (List δ)) : Option (QueryError ε) × List σ :=
  match fault with
  | some err => (some (.failed err), [])
  | none => scanRows destinations new rows

end Model

section Rules

variable {destinations : List (Destination δ ε σ)} {new locals assigned : σ}

/-- With another number of destinations than of selected columns no row is scanned: a query for
one row never succeeds. -/
theorem queryRow_fails {fault : Option String} {columns : List κ} {rows : List (κ → δ)}
    (other : destinations.length ≠ columns.length) :
    (queryRow fault destinations (rows.map (selected columns)) locals).1 ≠ none := by
  cases fault with
  | some err => exact Option.some_ne_none _
  | none =>
    cases rows with
    | nil => exact Option.some_ne_none _
    | cons row rest =>
      have length : (selected columns row).length = columns.length := List.length_map _
      rw [List.map_cons, queryRow, scan, if_neg (length ▸ other)]
      exact Option.some_ne_none _

/-- With as many of them the values are assigned in order. -/
theorem scan_eq {values : List δ} (length : destinations.length = values.length) :
    scan destinations values locals = assignAll 0 destinations values locals := if_pos length

/-- The next destination takes its value, and the assignment goes on with the others. -/
theorem assignAll_cons {index : Nat} {assign : Destination δ ε σ} {value : δ} {values : List δ}
    (taken : assign value locals = .ok assigned) :
    assignAll index (assign :: destinations) (value :: values) locals =
      assignAll (index + 1) destinations values assigned := by
  rw [assignAll, taken]

/-- A loop whose rows are all scanned returns what each assigns. -/
theorem scanRows_eq {α : Type} {values : α → List δ} {locals : α → σ} {rows : List α}
    (each : ∀ row ∈ rows, scan destinations (values row) new = (none, locals row)) :
    scanRows destinations new (rows.map values) = (none, rows.map locals) := by
  induction rows with
  | nil => rfl
  | cons row rest inductionHypothesis =>
    rw [List.map_cons, scanRows, each row List.mem_cons_self]
    simp only [inductionHypothesis fun other member => each other (List.mem_cons_of_mem _ member)]
    rfl

end Rules

end Hcexplorer.ScannedColumns
