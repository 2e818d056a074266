import Mathlib.Data.Finset.Card
import Mathlib.Data.List.Basic
import Mathlib.Order.Interval.Finset.Defs

/-!
# A table with a primary key

The rows of a table are listed in the order of their keys, no key twice. Inserting
a row replaces the one of its key. The laws say which rows and which keys there
are after an insertion, what the last row is, and how many rows a range of keys
returns: as many as there are keys in the range, when each is in the table.

Rows and keys are arbitrary types.
-/

namespace Hcexplorer

universe u v

/-- Rows in the order of their keys, each key at most once. -/
structure KeyedTable {ρ : Type u} {κ : Type v} [LinearOrder κ] (key : ρ → κ) where
  rows : List ρ
  sorted : rows.Pairwise fun first second => key first < key second

namespace KeyedTable

variable {ρ : Type u} {κ : Type v} [LinearOrder κ] {key : ρ → κ}

/-- The table without rows, from which every table is built by insertions. -/
def empty : KeyedTable key := ⟨[], List.Pairwise.nil⟩

/-- The table has a row of the wanted key. -/
def Has (table : KeyedTable key) (wanted : κ) : Prop := ∃ row ∈ table.rows, key row = wanted

instance (table : KeyedTable key) (wanted : κ) : Decidable (table.Has wanted) :=
  inferInstanceAs (Decidable (∃ row ∈ table.rows, key row = wanted))

/-- Insert a row in its place, in place of the row of its key. -/
def insertOrReplace (row : ρ) (table : KeyedTable key) : KeyedTable key where
  rows := table.rows.filter (fun other => key other < key row) ++
    row :: table.rows.filter fun other => key row < key other
  sorted := by
    rw [List.pairwise_append, List.pairwise_cons]
    refine ⟨table.sorted.filter _, ⟨?_, table.sorted.filter _⟩, ?_⟩
    · intro other member
      simpa using (List.mem_filter.mp member).2
    · intro lower below other member
      have less : key lower < key row := by simpa using (List.mem_filter.mp below).2
      rcases List.mem_cons.mp member with rfl | above
      · exact less
      · have greater : key row < key other := by simpa using (List.mem_filter.mp above).2
        exact less.trans greater

/-- The rows of a range of keys, both ends included, in the order of the keys. -/
def between (low high : κ) (table : KeyedTable key) : List ρ :=
  table.rows.filter fun row => low ≤ key row ∧ key row ≤ high

/-- The row of a key, none where the table has no such row. -/
def find (wanted : κ) (table : KeyedTable key) : Option ρ :=
  table.rows.find? fun row => key row = wanted

/-- The row of the largest key, none where the table is empty. -/
def last? (table : KeyedTable key) : Option ρ := table.rows.getLast?

/-- After an insertion there are the row itself and the rows of other keys. -/
theorem mem_insertOrReplace {row other : ρ} {table : KeyedTable key} :
    other ∈ (table.insertOrReplace row).rows ↔
      other = row ∨ (other ∈ table.rows ∧ key other ≠ key row) := by
  simp only [insertOrReplace, List.mem_append, List.mem_cons, List.mem_filter, decide_eq_true_eq]
  constructor
  · rintro (⟨member, less⟩ | rfl | ⟨member, greater⟩)
    · exact Or.inr ⟨member, less.ne⟩
    · exact Or.inl rfl
    · exact Or.inr ⟨member, greater.ne'⟩
  · rintro (rfl | ⟨member, different⟩)
    · exact Or.inr (Or.inl rfl)
    · rcases lt_or_gt_of_ne different with less | greater
      · exact Or.inl ⟨member, less⟩
      · exact Or.inr (Or.inr ⟨member, greater⟩)

/-- After an insertion the key of the row is there, and the other keys are as before. -/
theorem has_insertOrReplace {row : ρ} {table : KeyedTable key} {wanted : κ} :
    (table.insertOrReplace row).Has wanted ↔ wanted = key row ∨ table.Has wanted := by
  simp only [Has, mem_insertOrReplace]
  constructor
  · rintro ⟨other, rfl | ⟨member, -⟩, rfl⟩
    · exact Or.inl rfl
    · exact Or.inr ⟨other, member, rfl⟩
  · rintro (rfl | ⟨other, member, rfl⟩)
    · exact ⟨row, Or.inl rfl, rfl⟩
    · by_cases same : key other = key row
      · exact ⟨row, Or.inl rfl, same.symm⟩
      · exact ⟨other, Or.inr ⟨member, same⟩, rfl⟩

/-- A row takes the place between the rows below it and those above it. -/
theorem rows_insertOrReplace {row : ρ} {table : KeyedTable key} {front replaced back : List ρ}
    (split : table.rows = front ++ replaced ++ back) (below : ∀ other ∈ front, key other < key row)
    (same : ∀ other ∈ replaced, key other = key row) (above : ∀ other ∈ back, key row < key other) :
    (table.insertOrReplace row).rows = front ++ row :: back := by
  have kept (rows : List ρ) (test : ρ → Bool) (all : ∀ other ∈ rows, test other = true) :
      rows.filter test = rows := List.filter_eq_self.mpr all
  have dropped (rows : List ρ) (test : ρ → Bool) (none_ : ∀ other ∈ rows, ¬test other = true) :
      rows.filter test = [] := List.filter_eq_nil_iff.mpr none_
  simp only [insertOrReplace, split, List.filter_append]
  rw [kept front _ (fun other member => decide_eq_true (below other member)),
    dropped replaced _ (fun other member => by simp [same other member]),
    dropped back _ (fun other member => by simp [(above other member).le]),
    dropped front _ (fun other member => by simp [(below other member).le]),
    dropped replaced _ (fun other member => by simp [same other member]),
    kept back _ (fun other member => decide_eq_true (above other member))]
  simp

/-- An insertion of a new key keeps every row. -/
theorem mem_insertOrReplace_of_new {row other : ρ} {table : KeyedTable key}
    (new : ¬table.Has (key row)) (member : other ∈ table.rows) :
    other ∈ (table.insertOrReplace row).rows :=
  mem_insertOrReplace.mpr (Or.inr ⟨member, fun same => new ⟨other, member, same⟩⟩)

/-- No key is listed twice, since the keys ascend strictly. -/
theorem keys_nodup (table : KeyedTable key) : (table.rows.map key).Nodup :=
  table.sorted.map key fun _ _ less => less.ne

/-- There is one row of a key: rows with the same key are the same. -/
theorem row_unique {table : KeyedTable key} {first second : ρ} (isFirst : first ∈ table.rows)
    (isSecond : second ∈ table.rows) (same : key first = key second) : first = second :=
  List.inj_on_of_nodup_map table.keys_nodup isFirst isSecond same

/-- A row of the table is found by its key. -/
theorem find_key {table : KeyedTable key} {row : ρ} (member : row ∈ table.rows) :
    table.find (key row) = some row := by
  unfold find
  cases found : table.rows.find? fun other => decide (key other = key row) with
  | none => exact absurd (List.find?_eq_none.mp found row member) (by simp)
  | some other =>
    have same : key other = key row := by simpa using List.find?_some found
    exact congrArg some (row_unique (List.mem_of_find?_eq_some found) member same)

/-- The last row is a row of the table. -/
theorem mem_of_last? {table : KeyedTable key} {row : ρ} (isLast : table.last? = some row) :
    row ∈ table.rows := List.mem_of_getLast? isLast

/-- No key is above that of the last row. -/
theorem key_le_last {table : KeyedTable key} {row other : ρ} (isLast : table.last? = some row)
    (member : other ∈ table.rows) : key other ≤ key row := by
  obtain ⟨front, split⟩ := List.getLast?_eq_some_iff.mp isLast
  have sorted := table.sorted
  rw [split, List.pairwise_append] at sorted
  rw [split] at member
  rcases List.mem_append.mp member with before | atEnd
  · exact (sorted.2.2 other before row List.mem_cons_self).le
  · exact (congrArg key (List.mem_singleton.mp atEnd)).le

/-- Only the table without rows has no last one. -/
theorem last?_eq_none {table : KeyedTable key} : table.last? = none ↔ table.rows = [] :=
  List.getLast?_eq_none_iff

/-- A range returns as many rows as it has keys, when all are in the table. -/
theorem between_length [LocallyFiniteOrder κ] {table : KeyedTable key} {low high : κ}
    (all : ∀ wanted, low ≤ wanted → wanted ≤ high → table.Has wanted) :
    (table.between low high).length = (Finset.Icc low high).card := by
  have distinct : ((table.between low high).map key).Nodup :=
    table.keys_nodup.sublist (List.filter_sublist.map key)
  have keys : ((table.between low high).map key).toFinset = Finset.Icc low high := by
    ext wanted
    rw [List.mem_toFinset, List.mem_map, Finset.mem_Icc]
    constructor
    · rintro ⟨row, member, rfl⟩
      simpa using (List.mem_filter.mp member).2
    · rintro ⟨above, below⟩
      obtain ⟨row, member, rfl⟩ := all wanted above below
      exact ⟨row, List.mem_filter.mpr ⟨member, by simp [above, below]⟩, rfl⟩
  rw [← keys, List.toFinset_card_of_nodup distinct, List.length_map]

/-! ## Rows by position -/

section Positions

variable {place : ρ → Int}

/-- Every row has its position as its key, from a first one on. -/
def Consecutive (place : ρ → Int) (first : Nat) (rows : List ρ) : Prop :=
  ∀ (position : Nat) row, rows[position]? = some row → place row = first + position

/-- Rows whose keys are listed one after another are consecutive. -/
theorem consecutive_of_map {first : Nat} {rows : List ρ}
    (keys : rows.map place = (List.range' first rows.length).map Int.ofNat) :
    Consecutive place first rows := by
  intro position row found
  have inRange : position < rows.length := (List.getElem?_eq_some_iff.mp found).1
  have isKey : (rows.map place)[position]? = some (place row) := by rw [List.getElem?_map, found]; rfl
  rw [keys, List.getElem?_map, List.getElem?_range' inRange] at isKey
  have same : Int.ofNat (first + 1 * position) = place row := Option.some.inj isKey
  rw [← same, Nat.one_mul]
  rfl

/-- A row at or below the end of consecutive rows takes its position. -/
theorem rows_insert_consecutive {table : KeyedTable place} (consecutive : Consecutive place 0 table.rows)
    {row : ρ} {position : Nat} (isKey : place row = position) :
    (table.insertOrReplace row).rows =
      table.rows.take position ++ row :: table.rows.drop (position + 1) := by
  have split : table.rows =
      table.rows.take position ++ (table.rows.drop position).take 1 ++ table.rows.drop (position + 1) := by
    rw [List.append_assoc, ← List.drop_drop, List.take_append_drop, List.take_append_drop]
  have keyAt (index : Nat) (other : ρ) (found : table.rows[index]? = some other) :
      place other = index := by
    have isKey := consecutive index other found
    omega
  refine rows_insertOrReplace split ?_ ?_ ?_
  · intro other member
    obtain ⟨index, found⟩ := List.mem_iff_getElem?.mp member
    rw [List.getElem?_take] at found
    split at found
    · have := keyAt index other found
      omega
    · cases found
  · intro other member
    obtain ⟨index, found⟩ := List.mem_iff_getElem?.mp member
    rw [List.getElem?_take] at found
    split at found
    · rw [List.getElem?_drop] at found
      have := keyAt _ other found
      omega
    · cases found
  · intro other member
    obtain ⟨index, found⟩ := List.mem_iff_getElem?.mp member
    rw [List.getElem?_drop] at found
    have := keyAt _ other found
    omega

/-- Rows stored one after another, from a position at or below the end on, overwrite the
rows there and keep the others. -/
theorem rows_insert_all {table : KeyedTable place} (consecutive : Consecutive place 0 table.rows)
    {rows : List ρ} {first : Nat} (newRows : Consecutive place first rows)
    (reached : first ≤ table.rows.length) :
    (rows.foldl (fun table row => table.insertOrReplace row) table).rows =
      table.rows.take first ++ rows ++ table.rows.drop (first + rows.length) := by
  induction rows generalizing table first with
  | nil => simp
  | cons row rest inductionHypothesis =>
    have isKey : place row = first := by simpa using newRows 0 row rfl
    have inserted := rows_insert_consecutive consecutive isKey
    have taken : (table.rows.take first).length = first := by
      rw [List.length_take, Nat.min_eq_left reached]
    have stillConsecutive : Consecutive place 0 (table.insertOrReplace row).rows := by
      intro position other found
      rw [inserted] at found
      rcases Nat.lt_trichotomy position first with less | same | greater
      · rw [List.getElem?_append_left (by omega), List.getElem?_take_of_lt less] at found
        exact consecutive position other found
      · rw [List.getElem?_append_right (by omega), taken, same, Nat.sub_self] at found
        obtain rfl : row = other := Option.some.inj found
        rw [isKey, same]
        omega
      · rw [List.getElem?_append_right (by omega), taken] at found
        obtain ⟨index, isIndex⟩ : ∃ index, position - first = index + 1 :=
          ⟨position - first - 1, by omega⟩
        rw [isIndex, List.getElem?_cons_succ, List.getElem?_drop] at found
        have isPlace := consecutive _ other found
        omega
    have laterRows : Consecutive place (first + 1) rest := by
      intro position other found
      have isPlace := newRows (position + 1) other found
      omega
    have longer : first + 1 ≤ (table.insertOrReplace row).rows.length := by
      rw [inserted, List.length_append, taken, List.length_cons]
      omega
    rw [List.foldl_cons, inductionHypothesis stillConsecutive laterRows longer, inserted]
    have front : (table.rows.take first ++ row :: table.rows.drop (first + 1)).take (first + 1) =
        table.rows.take first ++ [row] := by
      rw [List.take_append, taken, List.take_of_length_le (by omega)]
      simp
    have back : (table.rows.take first ++ row :: table.rows.drop (first + 1)).drop
        (first + 1 + rest.length) = table.rows.drop (first + (row :: rest).length) := by
      rw [List.drop_append, taken, List.drop_of_length_le (by omega)]
      have after : first + 1 + rest.length - first = rest.length + 1 := by omega
      rw [after, List.drop_succ_cons, List.drop_drop, List.nil_append, List.length_cons]
      congr 1
      omega
    rw [front, back, List.append_assoc, List.append_assoc, List.append_assoc]
    rfl

/-- There is no row beside consecutive ones, below the first or above the last. -/
theorem find_consecutive_none {table : KeyedTable place} (consecutive : Consecutive place 0 table.rows)
    {wanted : Int} (outside : wanted < 0 ∨ (table.rows.length : Int) ≤ wanted) :
    table.find wanted = none := by
  refine List.find?_eq_none.mpr fun row member => ?_
  obtain ⟨index, found⟩ := List.mem_iff_getElem?.mp member
  have inside := (List.getElem?_eq_some_iff.mp found).1
  have isKey := consecutive index row found
  simp only [decide_eq_true_eq]
  omega

/-- A range of keys of consecutive rows are the rows at these positions. -/
theorem between_consecutive {table : KeyedTable place} (consecutive : Consecutive place 0 table.rows)
    (low count : Nat) :
    table.between (low : Int) (low + count - 1 : Int) = (table.rows.drop low).take count := by
  have split : table.rows =
      table.rows.take low ++ ((table.rows.drop low).take count ++ table.rows.drop (low + count)) := by
    rw [← List.drop_drop, List.take_append_drop, List.take_append_drop]
  have keyAt (index : Nat) (other : ρ) (found : table.rows[index]? = some other) :
      place other = index := by
    have isKey := consecutive index other found
    omega
  have below : (table.rows.take low).filter
      (fun row => (low : Int) ≤ place row ∧ place row ≤ low + count - 1) = [] := by
    refine List.filter_eq_nil_iff.mpr fun row member => ?_
    obtain ⟨index, found⟩ := List.mem_iff_getElem?.mp member
    rw [List.getElem?_take] at found
    split at found
    · have isKey := keyAt index row found
      simp only [decide_eq_true_eq, not_and]
      omega
    · cases found
  have inside : ((table.rows.drop low).take count).filter
      (fun row => (low : Int) ≤ place row ∧ place row ≤ low + count - 1) =
        (table.rows.drop low).take count := by
    refine List.filter_eq_self.mpr fun row member => ?_
    obtain ⟨index, found⟩ := List.mem_iff_getElem?.mp member
    rw [List.getElem?_take] at found
    split at found
    · rw [List.getElem?_drop] at found
      have isKey := keyAt _ row found
      simp only [decide_eq_true_eq]
      omega
    · cases found
  have above : (table.rows.drop (low + count)).filter
      (fun row => (low : Int) ≤ place row ∧ place row ≤ low + count - 1) = [] := by
    refine List.filter_eq_nil_iff.mpr fun row member => ?_
    obtain ⟨index, found⟩ := List.mem_iff_getElem?.mp member
    rw [List.getElem?_drop] at found
    have isKey := keyAt _ row found
    simp only [decide_eq_true_eq, not_and]
    omega
  rw [between, split, List.filter_append, List.filter_append, below, inside, above, List.nil_append,
    List.append_nil, ← split]

/-- Each row of a range of consecutive keys is the one that is found under its key. -/
theorem between_eq_find {table : KeyedTable place} (consecutive : Consecutive place 0 table.rows)
    {low count : Nat} (inside : low + count ≤ table.rows.length) :
    (table.between (low : Int) (low + count - 1 : Int)).map some =
      (List.range count).map fun (index : Nat) => table.find (low + index : Int) := by
  rw [between_consecutive consecutive]
  have length : ((table.rows.drop low).take count).length = count := by
    rw [List.length_take, List.length_drop]
    omega
  refine List.ext_getElem ?_ fun index atRows atKeys => ?_
  · rw [List.length_map, length, List.length_map, List.length_range]
  · rw [List.length_map, length] at atRows
    have here : low + index < table.rows.length := by omega
    have isKey := consecutive (low + index) _ (List.getElem?_eq_getElem here)
    have found : table.find (place table.rows[low + index]) = some table.rows[low + index] :=
      find_key (List.getElem_mem here)
    have asKey : place table.rows[low + index] = (low + index : Int) := by omega
    rw [asKey] at found
    rw [List.getElem_map, List.getElem_take, List.getElem_drop, List.getElem_map, List.getElem_range, found]

end Positions

end KeyedTable

end Hcexplorer
