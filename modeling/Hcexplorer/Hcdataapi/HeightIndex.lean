import Hcexplorer.Hcdataapi.Eviction

/-!
# The height index of the API cache

`MainchainBlocks` holds for each height the hash of the block that was stored last there,
and the zero hash for the heights in between. Blocks are evicted from the map without a
change of the index. As long as equal hashes mean equal blocks and no block has the zero
hash, a lookup by height finds nothing or the block that was stored last at the height.
-/

namespace Hcexplorer.Hcdataapi

open Runs BlockPriorityQueue

variable {newHashFromStr : String → Option Hash} {string : Hash → String}

/-- The block that was stored last at a height. -/
def lastStored (stores : List BlockDataBasic) (height : Nat) : Option BlockDataBasic :=
  stores.reverse.find? fun summary => summary.height.toNat = height

/-- One more than the greatest height that was stored, or nothing. -/
def storedLength (stores : List BlockDataBasic) : Nat :=
  stores.foldl (fun length summary => max length (summary.height.toNat + 1)) 0

/-- The blocks that a run of calls stores, in the order of the calls. -/
def storedBlocks (calls : List CacheCall) : List BlockDataBasic := calls.filterMap CacheCall.stored

/-- The block stored last at a height is the new one where it has that height, and the earlier
one elsewhere. -/
theorem lastStored_concat (stores : List BlockDataBasic) (summary : BlockDataBasic) (height : Nat) :
    lastStored (stores ++ [summary]) height =
      if summary.height.toNat = height then some summary else lastStored stores height := by
  unfold lastStored
  rw [List.reverse_append, List.reverse_singleton, List.singleton_append, List.find?_cons]
  by_cases same : summary.height.toNat = height
  · simp [same]
  · simp [same]

/-- One more block makes the slice of hashes as long as its height needs, and no shorter than it
was. -/
theorem storedLength_concat (stores : List BlockDataBasic) (summary : BlockDataBasic) :
    storedLength (stores ++ [summary]) = max (storedLength stores) (summary.height.toNat + 1) := by
  rw [storedLength, List.foldl_append]
  rfl

/-- The block that was stored last is one of those that were stored, at the height. -/
theorem lastStored_mem {stores : List BlockDataBasic} {height : Nat} {summary : BlockDataBasic}
    (last : lastStored stores height = some summary) : summary ∈ stores :=
  List.mem_reverse.mp (List.mem_of_find?_eq_some last)

namespace APICache

/-- The index after a store is as long as before or ends at the height. -/
theorem length_extendMainchain (height : Nat) (hash : Hash) (mainchainBlocks : List Hash) :
    (extendMainchain height hash mainchainBlocks).length =
      max mainchainBlocks.length (height + 1) := by
  simp only [extendMainchain]
  split
  · rename_i atEnd
    rw [List.length_append, atEnd, List.length_singleton]
    simp only [List.length_append, List.length_replicate] at atEnd
    omega
  · rename_i inside
    simp only [List.length_set, List.length_append, List.length_replicate] at *
    omega

/-- The index after a store has the hash at the height, and elsewhere what it had, or the zero
hash. -/
theorem getD_extendMainchain (height : Nat) (hash : Hash) (mainchainBlocks : List Hash) (k : Nat) :
    (extendMainchain height hash mainchainBlocks).getD k 0 =
      if height = k then hash else mainchainBlocks.getD k 0 := by
  have padded : ∀ k, (mainchainBlocks ++
      List.replicate (height - mainchainBlocks.length) (0 : Hash)).getD k 0 =
        mainchainBlocks.getD k 0 := by
    intro k
    simp only [List.getD_eq_getElem?_getD, List.getElem?_append, List.getElem?_replicate]
    split
    · rfl
    · rename_i beyond
      rw [List.getElem?_eq_none (Nat.le_of_not_lt beyond)]
      split <;> rfl
  simp only [extendMainchain]
  split
  · rename_i atEnd
    rw [List.getD_eq_getElem?_getD, List.getElem?_append, atEnd]
    by_cases same : height = k
    · subst same
      simp
    · rw [if_neg same, ← padded k, List.getD_eq_getElem?_getD]
      split
      · rfl
      · rename_i beyond
        have outside : k - height ≠ 0 := by omega
        have noEntry : ([hash] : List Hash)[k - height]? = none :=
          List.getElem?_eq_none (by simp only [List.length_singleton]; omega)
        rw [noEntry, List.getElem?_eq_none (by omega)]
  · rename_i inside
    have position : height < (mainchainBlocks ++
        List.replicate (height - mainchainBlocks.length) (0 : Hash)).length := by
      simp only [List.length_append, List.length_replicate] at *
      omega
    rw [List.getD_eq_getElem?_getD, List.getElem?_set]
    by_cases same : height = k
    · subst same
      simp only [if_true, position, Option.getD_some]
    · simp only [same, if_false]
      rw [← List.getD_eq_getElem?_getD, padded]

end APICache

/-- What the height index and the map hold when the given blocks have been stored. -/
structure Indexed (newHashFromStr : String → Option Hash) (stores : List BlockDataBasic)
    (apic : APICache) : Prop where
  length : apic.mainchainBlocks.length = storedLength stores
  entries : ∀ k, apic.mainchainBlocks.getD k 0 =
    ((lastStored stores k).bind fun summary => newHashFromStr summary.hash).getD 0
  hashes : ∀ summary ∈ stores, (newHashFromStr summary.hash).isSome = true
  cached : ∀ hash ref, apic.blockCache.lookup hash = some ref → (apic.cell ref).summary ∈ stores

/-- The summaries of the cached blocks were stored, after any call. -/
theorem Effect.cached {capacity : UInt32} {call : CacheCall} {session next : Session}
    {stores : List BlockDataBasic} (effect : Effect newHashFromStr call session next)
    (coherent : session.Coherent newHashFromStr capacity)
    (before : ∀ hash ref, session.apic.blockCache.lookup hash = some ref →
      (session.apic.cell ref).summary ∈ stores) {hash : Hash} {ref : Ref}
    (found : next.apic.blockCache.lookup hash = some ref) :
    (next.apic.cell ref).summary ∈ stores ++ call.stored.toList := by
  have old : ∀ {other : Ref}, session.apic.blockCache.lookup hash = some other →
      (session.apic.cell other).summary ∈ stores ++ call.stored.toList :=
    fun wasCached => List.mem_append_left _ (before hash _ wasCached)
  unfold APICache.cell at old ⊢
  cases effect with
  | kept queue map =>
    rw [map] at found
    rw [queue]
    exact old found
  | inserted summary clock new isStore isHash isNew queue map =>
    rw [map, APICache.insertBlock_blockCache] at found
    rw [queue, APICache.insertBlock_expireQueue, isStore]
    have agreement := Agreement.withRecord coherent summary (clock 0)
    have isRecord : MapRecord newHashFromStr _ _ new :=
      Agreement.newRecord session.apic.expireQueue isHash (clock 0)
    have unchanged : ∀ other, session.apic.blockCache.lookup hash = some other →
        ((session.apic.expireQueue.withRecord summary (clock 0)).cell other).summary ∈ stores := by
      intro other wasCached
      have inMemory := (Agreement.cached coherent hash other wasCached).inMemory
      rw [withRecord_old summary (clock 0) inMemory]
      exact before hash other wasCached
    rcases agreement.insert_cases summary clock.later new session.apic.expireQueue.allocated with
      ⟨sameQueue, sameMap⟩ | ⟨kept, target, b, -, accepted, stored⟩
    · rw [sameMap] at found
      rw [sameQueue]
      exact List.mem_append_left _ (unchanged ref found)
    · rw [stored] at found
      by_cases isThis : hash = new
      · -- the record of the new block
        rw [isThis, AList.lookup_insert] at found
        obtain rfl := Option.some.inj found
        rw [(agreement.cell_accepted accepted isRecord).2, withRecord_new]
        exact List.mem_append_right _ (List.mem_singleton_self _)
      · rw [AList.lookup_insert_ne isThis] at found
        have wasCached := accepted.keptLookup hash ref found
        rw [(agreement.cell_accepted accepted (agreement.cached hash ref wasCached)).2]
        exact List.mem_append_left _ (unchanged ref wasCached)
  | lookedUp asked other clock asks isFound queue map =>
    rw [map] at found
    rw [queue]
    by_cases same : ref = other
    · rw [same, lookedUp_same]
      exact old (same ▸ found)
    · rw [lookedUp_other _ same]
      exact old found
  | removed other isObtained queue map =>
    obtain ⟨_, isRecord⟩ := Agreement.obtained coherent other isObtained
    rw [map] at found
    rw [queue, Agreement.removeBlock isRecord]
    exact old found
  | reheaped queue map =>
    rw [map] at found
    rw [queue, summary_of_unplaced ((reheap_rearranged session.apic.expireQueue).1.cells ref)]
    exact old found

section Runs
variable {capacity : UInt32} {lessFn : CachedBlock → CachedBlock → Bool} {session next : Session}
  {stores : List BlockDataBasic}

/-- A call keeps the slice of hashes in step with the stored blocks: it adds the block that it
stores, if any. -/
theorem Indexed.step {call : CacheCall} (indexed : Indexed newHashFromStr stores session.apic)
    (managed : Managed newHashFromStr capacity lessFn session)
    (fromCache : FromCache session call) (inRange : HeightsInRange session call)
    (taken : cacheStep newHashFromStr string session call = some next) :
    Indexed newHashFromStr (stores ++ call.stored.toList) next.apic := by
  have cached : ∀ hash ref, next.apic.blockCache.lookup hash = some ref →
      (next.apic.cell ref).summary ∈ stores ++ call.stored.toList :=
    fun hash ref found =>
      (cacheStep_effect fromCache taken).cached managed.coherent indexed.cached found
  cases isStored : call.stored with
  | none =>
    rw [isStored] at cached
    have steady := cacheStep_steady isStored inRange taken
    rw [Option.toList_none, List.append_nil] at cached ⊢
    exact ⟨steady.mainchainBlocks ▸ indexed.length, steady.mainchainBlocks ▸ indexed.entries,
      indexed.hashes, cached⟩
  | some summary =>
    rw [isStored] at cached
    cases call with
    | storeBlockSummary blockSummary clock =>
      obtain rfl := Option.some.inj isStored
      obtain ⟨apic, returned, rfl⟩ := Option.map_eq_some_iff.mp taken
      rw [Outcome.result?_eq_some] at returned
      obtain ⟨hash, isHash, steady⟩ := storeBlockSummary_steady managed.available returned
      refine ⟨?_, fun k => ?_, fun other member => ?_, cached⟩
      · rw [Option.toList_some, storedLength_concat, ← indexed.length, steady.mainchainBlocks]
        exact APICache.length_extendMainchain _ _ _
      · rw [Option.toList_some, lastStored_concat, steady.mainchainBlocks]
        refine (APICache.getD_extendMainchain _ _ _ k).trans ?_
        by_cases same : blockSummary.height.toNat = k
        · rw [if_pos same, if_pos same, Option.bind_some, isHash, Option.getD_some]
        · rw [if_neg same, if_neg same]
          exact indexed.entries k
      · rcases List.mem_append.mp member with earlier | now
        · exact indexed.hashes other earlier
        · rw [List.mem_singleton.mp now, isHash]
          rfl
    | _ => cases isStored

/-- A run adds the blocks that its calls store. -/
theorem Indexed.run {calls : List CacheCall} (indexed : Indexed newHashFromStr stores session.apic)
    (managed : Managed newHashFromStr capacity lessFn session)
    (admitted : Admitted (cacheStep newHashFromStr string)
      (fun session call => FromCache session call ∧ HeightsInRange session call) session calls)
    (ran : exec (cacheStep newHashFromStr string) session calls = some next) :
    Managed newHashFromStr capacity lessFn next ∧
      Indexed newHashFromStr (stores ++ storedBlocks calls) next.apic := by
  induction calls generalizing session stores with
  | nil =>
    obtain rfl := Option.some.inj ran
    rw [storedBlocks, List.filterMap_nil, List.append_nil]
    exact ⟨managed, indexed⟩
  | cons call rest inductionHypothesis =>
    obtain ⟨middle, taken, continued⟩ := Option.bind_eq_some_iff.mp ran
    obtain ⟨⟨fromCache, inRange⟩, later⟩ := admitted
    have split : storedBlocks (call :: rest) = call.stored.toList ++ storedBlocks rest := by
      unfold storedBlocks
      cases stored : call.stored <;> simp [stored]
    rw [split, ← List.append_assoc]
    exact inductionHypothesis (indexed.step managed fromCache inRange taken)
      (managed.step fromCache inRange taken) (later middle taken) continued

/-- `GetBlockSummary` of a height that is indexed finds nothing or the block that was stored
last there. -/
theorem Indexed.getBlockSummary (indexed : Indexed newHashFromStr stores session.apic)
    (managed : Managed newHashFromStr capacity lessFn session)
    (nonzero : ∀ summary ∈ stores, newHashFromStr summary.hash ≠ some 0)
    (distinct : ∀ summary ∈ stores, ∀ other ∈ stores,
      newHashFromStr summary.hash = newHashFromStr other.hash → summary = other)
    {height : Int64} (inRange : session.apic.HasHeight height) (clock : Clock) :
    ∃ found after,
      session.apic.getBlockSummary newHashFromStr string height clock = .returned (found, after) ∧
        (found = none ∨ found = lastStored stores height.toInt.toNat) := by
  have unlocked := managed.available.2
  have entry := indexed.entries height.toInt.toNat
  simp only [APICache.getBlockSummary, APICache.getCachedBlockByHeight, if_pos inRange,
    APICache.getCachedBlockByHash]
  cases newHashFromStr (string (session.apic.mainchainBlocks.getD height.toInt.toNat 0)) with
  | none => exact ⟨none, _, rfl, Or.inl rfl⟩
  | some _ =>
    simp only [APICache.lookupCachedBlock, unlocked, ne_eq, not_true_eq_false, if_false]
    cases isCached : session.apic.blockCache.lookup
        (session.apic.mainchainBlocks.getD height.toInt.toNat 0) with
    | none => exact ⟨none, _, rfl, Or.inl rfl⟩
    | some ref =>
      refine ⟨_, _, rfl, Or.inr ?_⟩
      have wasStored := indexed.cached _ ref isCached
      have hasHash := (Agreement.cached managed.coherent _ ref isCached).hasHash
      have summary : ((session.apic.expireQueue.lookedUp ref clock).cell ref).summary =
          (session.apic.cell ref).summary := by
        rw [lookedUp_same]
        rfl
      change some ((session.apic.expireQueue.lookedUp ref clock).cell ref).summary = _
      rw [summary]
      cases last : lastStored stores height.toInt.toNat with
      | none =>
        -- the zero hash of a gap is cached for no block
        rw [last] at entry
        exact absurd (hasHash.trans (congrArg some entry)) (nonzero _ wasStored)
      | some other =>
        have isStored := lastStored_mem last
        obtain ⟨hash, isHash⟩ := Option.isSome_iff_exists.mp (indexed.hashes other isStored)
        rw [last, Option.bind_some, isHash, Option.getD_some] at entry
        rw [HasHash, entry] at hasHash
        exact congrArg some (distinct _ wasStored other isStored (hasHash.trans isHash.symm))

end Runs

/-- In every state of an enabled cache: the height index is as long as the greatest height
stored and one more, and a lookup of a height in it finds nothing or the block that was
stored last at that height. Between the stores there may be lookups of heights in range,
removals and `Reheap`s. -/
theorem lookup_finds_last_stored (newHashFromStr : String → Option Hash) (string : Hash → String)
    (capacity : UInt32) (lessFn : CachedBlock → CachedBlock → Bool) {calls : List CacheCall}
    {session : Session}
    (nonzero : ∀ summary ∈ storedBlocks calls, newHashFromStr summary.hash ≠ some 0)
    (distinct : ∀ summary ∈ storedBlocks calls, ∀ other ∈ storedBlocks calls,
      newHashFromStr summary.hash = newHashFromStr other.hash → summary = other)
    (admitted : Admitted (cacheStep newHashFromStr string)
      (fun session call => FromCache session call ∧ HeightsInRange session call)
      (startSession capacity lessFn) calls)
    (ran : exec (cacheStep newHashFromStr string) (startSession capacity lessFn) calls =
      some session) :
    session.apic.mainchainBlocks.length = storedLength (storedBlocks calls) ∧
      ∀ height, session.apic.HasHeight height → ∀ clock, ∃ found after,
        session.apic.getBlockSummary newHashFromStr string height clock =
            .returned (found, after) ∧
          (found = none ∨ found = lastStored (storedBlocks calls) height.toInt.toNat) := by
  have start : Indexed newHashFromStr [] (startSession capacity lessFn).apic :=
    ⟨rfl, fun _ => rfl, fun _ member => absurd member List.not_mem_nil,
      fun hash _ found => by cases (AList.lookup_empty hash).symm.trans found⟩
  obtain ⟨managed, indexed⟩ := start.run (Managed.start capacity lessFn) admitted ran
  rw [List.nil_append] at indexed
  exact ⟨indexed.length, fun _ inRange clock =>
    indexed.getBlockSummary managed nonzero distinct inRange clock⟩

/-- A block, one after a gap, and another one in the place of the first. -/
def replacing : List CacheCall :=
  [.storeBlockSummary ⟨1, sampleText 1⟩ fun _ => 1, .storeBlockSummary ⟨3, sampleText 2⟩ fun _ => 2,
    .storeBlockSummary ⟨1, sampleText 3⟩ fun _ => 3]

/-- The index ends at height 3, and the lookup of height 1 does not find the first block. -/
theorem lookup_finds_last_stored_replaced :
    ∃ session, exec (cacheStep sampleHash sampleText) (startSession 2 lessByAccessTime) replacing =
        some session ∧
      session.apic.mainchainBlocks.length = storedLength (storedBlocks replacing) ∧
      ∀ height, session.apic.HasHeight height → ∀ clock, ∃ found after,
        session.apic.getBlockSummary sampleHash sampleText height clock =
            .returned (found, after) ∧
          (found = none ∨ found = lastStored (storedBlocks replacing) height.toInt.toNat) := by
  have admitted : Admitted (cacheStep sampleHash sampleText)
      (fun session call => FromCache session call ∧ HeightsInRange session call)
      (startSession 2 lessByAccessTime) replacing :=
    ⟨⟨trivial, trivial⟩, fun _ _ => ⟨⟨trivial, trivial⟩, fun _ _ => ⟨⟨trivial, trivial⟩,
      fun _ _ => trivial⟩⟩⟩
  have ran : exec (cacheStep sampleHash sampleText) (startSession 2 lessByAccessTime) replacing =
      some _ := rfl
  exact ⟨_, ran, lookup_finds_last_stored sampleHash sampleText 2 lessByAccessTime
    (by decide +kernel) (by decide +kernel) admitted ran⟩

end Hcexplorer.Hcdataapi
