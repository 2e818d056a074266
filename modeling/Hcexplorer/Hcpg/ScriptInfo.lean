import Hcexplorer.Hcpg.Tables
import Mathlib.Data.Finset.Basic
import Mathlib.Data.Multiset.Bind

/-!
# The spent script types

`updateScriptInfo` counts the spent outputs of each script type and sums their coins. Its first call
empties the table `scriptinfo_vins` and inserts a row for each type with its number, then sets the
sums; every later call, every ten minutes, updates the numbers and the sums of the rows of a type.

An UPDATE adds no row, so a type that is first spent after the first call has none. The tables of
inputs and outputs only grow. The groups of a query come in any order, and no statement fails unless
its table is missing.
-/

namespace Hcexplorer.Hcpg

section Queries

/-- The outputs of the join of `vins` and `vouts`, one for each input that names the transaction. -/
def spentVouts (tables : TxTables) : Multiset Vout :=
  tables.vins.bind fun vin =>
    (tables.vouts.filter fun vout => vin.row.prevTxHash = vout.row.txHash).map Stored.row

/-- The column `script_type` of an output, which is the class of its script. -/
def Vout.scriptType (vout : Vout) : String := vout.scriptPubKeyData.scriptClass

/-- The groups of the query: the script types of all spent outputs. -/
def spentTypes (tables : TxTables) : Finset String :=
  ((spentVouts tables).map Vout.scriptType).toFinset

/-- The aggregate `count(*)` of a group, the number of its spent outputs. -/
def spentCount (tables : TxTables) (scriptType : String) : Int :=
  ((spentVouts tables).filter fun vout => vout.scriptType = scriptType).card

/-- The aggregate `sum(vouts.value/100000000)` of a group, in which each value is divided before
it is added. -/
def spentSum (tables : TxTables) (scriptType : String) : Int :=
  (((spentVouts tables).filter fun vout => vout.scriptType = scriptType).map
    fun vout => ((vout.value.toNat / 100000000 : Nat) : Int)).sum

/-- What a call finds: the tables, and the groups in the order of each of the two results. -/
structure ScriptInfoCall where
  tables : TxTables
  countTypes : List String
  sumTypes : List String
  isCount : (countTypes : Multiset String) = (spentTypes tables).val
  isSum : (sumTypes : Multiset String) = (spentTypes tables).val

end Queries

section Model

/-- A row of `scriptinfo_vins`: a script type with the number of its spent outputs and their sum. -/
structure ScriptInfoRow where
  countValue : Option Int
  sumValue : Option Int
  scriptType : Option String
deriving DecidableEq, Repr

/-- The table `scriptinfo_vins`, as the multiset of its rows. -/
abbrev ScriptInfoTable := Multiset ScriptInfoRow

/-- The INSERT of a number, which leaves the sum null. -/
def insertCount (value : Int) (scriptType : String) (table : ScriptInfoTable) : ScriptInfoTable :=
  ⟨some value, none, some scriptType⟩ ::ₘ table

/-- An UPDATE of the rows of a script type. -/
def updateWhere (scriptType : String) (set : ScriptInfoRow → ScriptInfoRow) (table : ScriptInfoTable) :
    ScriptInfoTable :=
  table.map fun row => if row.scriptType = some scriptType then set row else row

/-- The UPDATE of a number in the rows of a script type. -/
def updateCount (value : Int) (scriptType : String) : ScriptInfoTable → ScriptInfoTable :=
  updateWhere scriptType fun row => { row with countValue := some value }

/-- The UPDATE of a sum in the rows of a script type. -/
def updateSum (value : Int) (scriptType : String) : ScriptInfoTable → ScriptInfoTable :=
  updateWhere scriptType fun row => { row with sumValue := some value }

/-- `updateScriptInfo`, with its error. That of the TRUNCATE for a missing table is ignored, and the
table is created then. -/
def updateScriptInfo (first : Bool) (call : ScriptInfoCall) (scriptinfoVins : Option ScriptInfoTable) :
    Option String × Option ScriptInfoTable :=
  let truncated := if first then some ((scriptinfoVins.map fun _ => 0).getD 0) else scriptinfoVins
  match truncated with
  | none =>
    if call.countTypes = [] ∧ call.sumTypes = [] then (none, none)
    else (some "pq: relation \"scriptinfo_vins\" does not exist", none)
  | some table =>
    let counted := call.countTypes.foldl (fun table scriptType =>
      if first then insertCount (spentCount call.tables scriptType) scriptType table
      else updateCount (spentCount call.tables scriptType) scriptType table) table
    let summed := call.sumTypes.foldl (fun table scriptType =>
      updateSum (spentSum call.tables scriptType) scriptType table) counted
    (none, some summed)

/-- `UpdateScriptInfo` after some ticks: the first call and the refreshes. -/
def runUpdateScriptInfo (first : ScriptInfoCall) (refreshes : List ScriptInfoCall)
    (scriptinfoVins : Option ScriptInfoTable) : Option ScriptInfoTable :=
  refreshes.foldl (fun scriptinfoVins call => (updateScriptInfo false call scriptinfoVins).2)
    (updateScriptInfo true first scriptinfoVins).2

/-- From one call to another the tables of inputs and outputs have only grown. -/
def Grows (before after : ScriptInfoCall) : Prop :=
  before.tables.vins ≤ after.tables.vins ∧ before.tables.vouts ≤ after.tables.vouts

end Model

section Rows

variable {types : Multiset String}

/-- The rows that the loop over the groups inserts, one for each type with its number. -/
theorem foldl_insertCount (value : String → Int) (inserted : List String) (table : ScriptInfoTable) :
    inserted.foldl (fun table scriptType => insertCount (value scriptType) scriptType table) table =
      (inserted : Multiset String).map (fun scriptType =>
        ⟨some (value scriptType), none, some scriptType⟩) + table := by
  induction inserted generalizing table with
  | nil => simp
  | cons scriptType inserted inductionHypothesis =>
    rw [List.foldl_cons, inductionHypothesis, ← Multiset.cons_coe, Multiset.map_cons,
      Multiset.cons_add, insertCount, Multiset.add_cons]

/-- The updated rows of a table with one row for each of some types. -/
theorem foldl_updateWhere (set : String → ScriptInfoRow → ScriptInfoRow)
    {row : String → ScriptInfoRow} (named : ∀ scriptType, (row scriptType).scriptType = some scriptType)
    (keeps : ∀ scriptType before, (set scriptType before).scriptType = before.scriptType)
    {updated : List String} (nodup : updated.Nodup) :
    updated.foldl (fun table scriptType => updateWhere scriptType (set scriptType) table)
        (types.map row) =
      types.map fun scriptType =>
        if scriptType ∈ updated then set scriptType (row scriptType) else row scriptType := by
  induction updated generalizing row with
  | nil => simp
  | cons first updated inductionHypothesis =>
    obtain ⟨new, nodup⟩ := List.nodup_cons.mp nodup
    have updatedRow : updateWhere first (set first) (types.map row) =
        types.map fun scriptType =>
          if scriptType = first then set scriptType (row scriptType) else row scriptType := by
      rw [updateWhere, Multiset.map_map]
      refine Multiset.map_congr rfl fun scriptType _ => ?_
      by_cases same : scriptType = first
      · subst same
        simp [named]
      · simp [named, same]
    have stillNamed : ∀ scriptType, (if scriptType = first then set scriptType (row scriptType)
        else row scriptType).scriptType = some scriptType := by
      intro scriptType
      split
      · rw [keeps, named]
      · exact named scriptType
    rw [List.foldl_cons, updatedRow, inductionHypothesis stillNamed nodup]
    refine Multiset.map_congr rfl fun scriptType _ => ?_
    by_cases same : scriptType = first
    · subst same
      simp [new]
    · simp [same]

end Rows

section Calls

/-- The row of a script type after a call. -/
def countedRow (tables : TxTables) (scriptType : String) : ScriptInfoRow :=
  ⟨some (spentCount tables scriptType), some (spentSum tables scriptType), some scriptType⟩

/-- The groups of a result are listed once each. -/
theorem nodup_of_listing {listed : List String} {types : Finset String}
    (isListing : (listed : Multiset String) = types.val) : listed.Nodup := by
  have nodup := types.nodup
  rwa [← isListing, Multiset.coe_nodup] at nodup

/-- A type is among the listed ones exactly when it is one of the tables. -/
theorem mem_of_listing {listed : List String} {types : Finset String}
    (isListing : (listed : Multiset String) = types.val) {scriptType : String} :
    scriptType ∈ listed ↔ scriptType ∈ types := by
  rw [← Multiset.mem_coe, isListing, Finset.mem_val]

/-- The loop over the numbers sets the number in the row of each listed type and leaves the other
rows. -/
theorem foldl_updateCount (value : String → Int) {types : Multiset String}
    {row : String → ScriptInfoRow} (named : ∀ scriptType, (row scriptType).scriptType = some scriptType)
    {updated : List String} (nodup : updated.Nodup) :
    updated.foldl (fun table scriptType => updateCount (value scriptType) scriptType table)
        (types.map row) =
      types.map fun scriptType => if scriptType ∈ updated then
        { row scriptType with countValue := some (value scriptType) } else row scriptType :=
  foldl_updateWhere (fun scriptType row => { row with countValue := some (value scriptType) })
    named (fun _ _ => rfl) nodup

/-- The loop over the sums sets the sum in the row of each listed type and leaves the other rows. -/
theorem foldl_updateSum (value : String → Int) {types : Multiset String}
    {row : String → ScriptInfoRow} (named : ∀ scriptType, (row scriptType).scriptType = some scriptType)
    {updated : List String} (nodup : updated.Nodup) :
    updated.foldl (fun table scriptType => updateSum (value scriptType) scriptType table)
        (types.map row) =
      types.map fun scriptType => if scriptType ∈ updated then
        { row scriptType with sumValue := some (value scriptType) } else row scriptType :=
  foldl_updateWhere (fun scriptType row => { row with sumValue := some (value scriptType) })
    named (fun _ _ => rfl) nodup

/-- The first call leaves a row for each spent type, whatever the table was. -/
theorem updateScriptInfo_first (call : ScriptInfoCall) (scriptinfoVins : Option ScriptInfoTable) :
    updateScriptInfo true call scriptinfoVins =
      (none, some ((spentTypes call.tables).val.map (countedRow call.tables))) := by
  have empty : (scriptinfoVins.map fun _ => (0 : ScriptInfoTable)).getD 0 = 0 := by
    cases scriptinfoVins <;> rfl
  simp only [updateScriptInfo, if_true, empty, foldl_insertCount, add_zero, call.isCount]
  rw [foldl_updateSum (spentSum call.tables) (fun _ => rfl) (nodup_of_listing call.isSum)]
  refine congrArg (fun table => (none, some table)) (Multiset.map_congr rfl fun scriptType member => ?_)
  rw [if_pos ((mem_of_listing call.isSum).mpr member)]
  rfl

/-- A refresh of a table with rows for some of the spent types brings them up to date. -/
theorem updateScriptInfo_refresh (call : ScriptInfoCall) {types : Finset String}
    (spent : types ⊆ spentTypes call.tables) (before : TxTables) :
    updateScriptInfo false call (some (types.val.map (countedRow before))) =
      (none, some (types.val.map (countedRow call.tables))) := by
  have named : ∀ scriptType, (countedRow before scriptType).scriptType = some scriptType :=
    fun _ => rfl
  simp only [updateScriptInfo, Bool.false_eq_true, if_false]
  rw [foldl_updateCount (spentCount call.tables) named (nodup_of_listing call.isCount),
    foldl_updateSum (spentSum call.tables) _ (nodup_of_listing call.isSum)]
  · refine congrArg (fun table => (none, some table))
      (Multiset.map_congr rfl fun scriptType member => ?_)
    rw [if_pos ((mem_of_listing call.isSum).mpr (spent member)),
      if_pos ((mem_of_listing call.isCount).mpr (spent member))]
    rfl
  · intro scriptType
    split <;> rfl

/-- More inputs and outputs spend no fewer types. -/
theorem spentTypes_mono {before after : ScriptInfoCall} (grows : Grows before after) :
    spentTypes before.tables ⊆ spentTypes after.tables := by
  intro scriptType member
  simp only [spentTypes, spentVouts, Multiset.mem_toFinset, Multiset.mem_map, Multiset.mem_bind,
    Multiset.mem_filter] at member ⊢
  obtain ⟨vout, ⟨vin, isVin, stored, ⟨isVout, spends⟩, isRow⟩, isType⟩ := member
  exact ⟨vout, ⟨vin, Multiset.mem_of_le grows.1 isVin, stored,
    ⟨Multiset.mem_of_le grows.2 isVout, spends⟩, isRow⟩, isType⟩

/-- Rows with different script types differ, so that each type has one row. -/
theorem countedRow_injective (tables : TxTables) : (countedRow tables).Injective := by
  intro scriptType other same
  exact Option.some.inj (congrArg ScriptInfoRow.scriptType same)

/-- The last call of a run, which is the first one if no refresh follows. -/
def lastCall (first : ScriptInfoCall) (refreshes : List ScriptInfoCall) : ScriptInfoCall :=
  refreshes.getLastD first

/-- The last call of a run is the last one of its rest. -/
@[simp] theorem lastCall_cons (first call : ScriptInfoCall) (refreshes : List ScriptInfoCall) :
    lastCall first (call :: refreshes) = lastCall call refreshes := by
  cases refreshes <;> rfl

/-- The types that were spent at the first call stay spent. -/
theorem spentTypes_lastCall {first : ScriptInfoCall} {refreshes : List ScriptInfoCall}
    (grows : (first :: refreshes).IsChain Grows) :
    spentTypes first.tables ⊆ spentTypes (lastCall first refreshes).tables := by
  induction refreshes generalizing first with
  | nil => exact Finset.Subset.refl _
  | cons call refreshes inductionHypothesis =>
    obtain ⟨grew, grows⟩ := List.isChain_cons_cons.mp grows
    rw [lastCall_cons]
    exact (spentTypes_mono grew).trans (inductionHypothesis grows)

/-- The refreshes keep the rows of the table and bring each up to date. -/
theorem foldl_refresh {call : ScriptInfoCall} {refreshes : List ScriptInfoCall}
    (grows : (call :: refreshes).IsChain Grows) {types : Finset String}
    (spent : types ⊆ spentTypes call.tables) :
    refreshes.foldl (fun scriptinfoVins call => (updateScriptInfo false call scriptinfoVins).2)
        (some (types.val.map (countedRow call.tables))) =
      some (types.val.map (countedRow (lastCall call refreshes).tables)) := by
  induction refreshes generalizing call with
  | nil => rfl
  | cons next refreshes inductionHypothesis =>
    obtain ⟨grew, grows⟩ := List.isChain_cons_cons.mp grows
    have stillSpent : types ⊆ spentTypes next.tables := spent.trans (spentTypes_mono grew)
    rw [List.foldl_cons, updateScriptInfo_refresh next stillSpent, lastCall_cons]
    exact inductionHypothesis grows stillSpent

/-- After every run, the table has a row for each type that was spent at the first call, as of the
last one. -/
theorem runUpdateScriptInfo_eq {first : ScriptInfoCall} {refreshes : List ScriptInfoCall}
    (grows : (first :: refreshes).IsChain Grows) (scriptinfoVins : Option ScriptInfoTable) :
    runUpdateScriptInfo first refreshes scriptinfoVins =
      some ((spentTypes first.tables).val.map (countedRow (lastCall first refreshes).tables)) := by
  rw [runUpdateScriptInfo, updateScriptInfo_first]
  exact foldl_refresh grows (Finset.Subset.refl _)

/-- The table that a run leaves is what rebuilding leaves at the time of the last call, exactly when
every type that is spent then was spent at the first call. -/
theorem runUpdateScriptInfo_iff {first : ScriptInfoCall} {refreshes : List ScriptInfoCall}
    (grows : (first :: refreshes).IsChain Grows) (scriptinfoVins : Option ScriptInfoTable)
    {rebuild : ScriptInfoCall} (same : rebuild.tables = (lastCall first refreshes).tables) :
    runUpdateScriptInfo first refreshes scriptinfoVins =
        (updateScriptInfo true rebuild (runUpdateScriptInfo first refreshes scriptinfoVins)).2 ↔
      spentTypes (lastCall first refreshes).tables ⊆ spentTypes first.tables := by
  rw [updateScriptInfo_first, runUpdateScriptInfo_eq grows, same]
  constructor
  · intro agree
    have sameTypes := Multiset.map_injective (countedRow_injective _) (Option.some.inj agree)
    exact (Finset.val_inj.mp sameTypes).ge
  · intro spent
    rw [Finset.Subset.antisymm spent (spentTypes_lastCall grows)]

end Calls

section Samples

/-- An output of two coins with a script type. -/
def twoCoins (id : Nat) (scriptClass : String) : Stored Vout :=
  ⟨id, ⟨BitVec.ofNat 256 id, 0, 0, 200000000, 0, [], ⟨scriptClass, ["Hs"], 1⟩⟩⟩

/-- The input that spends the output of two coins. -/
def spendsCoins (id : Nat) : Stored VinTxProperty :=
  ⟨id, ⟨0, UInt32.ofNat id, 0, BitVec.ofNat 256 id, 0, 0⟩⟩

/-- The tables with three such outputs, some of them spent. -/
def spentTables (spent : List Nat) : TxTables where
  vins := spent.map spendsCoins
  vouts := {twoCoins 1 "pubkeyhash", twoCoins 2 "pubkeyhash", twoCoins 3 "scripthash"}
  transactions := 0
  addresses := 0

/-- A call that finds the first output spent, and so one type. -/
def firstSpent : ScriptInfoCall :=
  ⟨spentTables [1], ["pubkeyhash"], ["pubkeyhash"], by decide, by decide⟩

/-- A call after the second output is spent too, with the same type in its listing. -/
def secondSpent : ScriptInfoCall :=
  ⟨spentTables [1, 2], ["pubkeyhash"], ["pubkeyhash"], by decide, by decide⟩

/-- A call after all three outputs are spent, with two types listed in two orders. -/
def thirdSpent : ScriptInfoCall :=
  ⟨spentTables [1, 2, 3], ["scripthash", "pubkeyhash"], ["pubkeyhash", "scripthash"], by decide,
    by decide⟩

/-- Another output of a type that was spent: the refresh agrees with rebuilding. -/
theorem runUpdateScriptInfo_sameType :
    runUpdateScriptInfo firstSpent [secondSpent] none =
      (updateScriptInfo true secondSpent (runUpdateScriptInfo firstSpent [secondSpent] none)).2 :=
  (runUpdateScriptInfo_iff (by unfold Grows; decide) none rfl).mpr (by decide)

/-- The first output of a type: the refreshes leave no row for it, rebuilding does. -/
theorem runUpdateScriptInfo_newType :
    [firstSpent, secondSpent, thirdSpent].IsChain Grows ∧
      runUpdateScriptInfo firstSpent [secondSpent, thirdSpent] none =
        some {⟨some 2, some 4, some "pubkeyhash"⟩} ∧
      (updateScriptInfo true thirdSpent
          (runUpdateScriptInfo firstSpent [secondSpent, thirdSpent] none)).2 =
        some {⟨some 2, some 4, some "pubkeyhash"⟩, ⟨some 1, some 2, some "scripthash"⟩} ∧
      runUpdateScriptInfo firstSpent [secondSpent, thirdSpent] none ≠
        (updateScriptInfo true thirdSpent
          (runUpdateScriptInfo firstSpent [secondSpent, thirdSpent] none)).2 := by
  have refreshed : runUpdateScriptInfo firstSpent [secondSpent, thirdSpent] none =
      some {⟨some 2, some 4, some "pubkeyhash"⟩} := by
    decide
  have rebuilt : (updateScriptInfo true thirdSpent
      (some {⟨some 2, some 4, some "pubkeyhash"⟩})).2 =
      some {⟨some 2, some 4, some "pubkeyhash"⟩, ⟨some 1, some 2, some "scripthash"⟩} := by
    decide
  refine ⟨by unfold Grows; decide, refreshed, ?_, ?_⟩
  · rw [refreshed, rebuilt]
  · rw [refreshed, rebuilt]
    decide

end Samples

end Hcexplorer.Hcpg
