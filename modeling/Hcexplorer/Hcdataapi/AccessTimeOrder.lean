import Hcexplorer.Hcdataapi.QueueOrder

/-!
# The order by access time, then count

`MakeLessByAccessTimeThenCount` takes two access times for the same when they are less than
the bin size apart, and compares counts then. Being that near is no equivalence: a time can
be near two others that are far from each other. So the comparator is no strict weak order,
whatever the bin size is; on some blocks it is one, exactly when the counts make up for every
such time.
-/

namespace Hcexplorer.Hcdataapi

/-- A comparator that is a strict weak order of the given blocks: irreflexive, transitive,
and with transitive incomparability. -/
structure WeakOrderOn (lessFn : CachedBlock → CachedBlock → Bool) (blocks : CachedBlock → Prop) :
    Prop where
  irreflexive : ∀ b, blocks b → lessFn b b = false
  transitive : ∀ bi bj bk, blocks bi → blocks bj → blocks bk →
    lessFn bi bj = true → lessFn bj bk = true → lessFn bi bk = true
  incomparable : ∀ bi bj bk, blocks bi → blocks bj → blocks bk →
    lessFn bi bj = false → lessFn bj bi = false → lessFn bj bk = false → lessFn bk bj = false →
    lessFn bi bk = false ∧ lessFn bk bi = false

/-- The block's access time is not negative, as it is for every time since 1970. -/
def Accessed (b : CachedBlock) : Prop := 0 ≤ b.accessTime.toInt

/-- The bin size is at least one millisecond, and its nanoseconds are an `int64`. -/
def BinSize (millisecondsBinned : Int64) : Prop :=
  1 ≤ millisecondsBinned.toInt ∧ millisecondsBinned.toInt * 1000000 < 2 ^ 63

/-- The access times are less than the bin size apart. -/
def Near (millisecondsBinned : Int64) (bi bj : CachedBlock) : Prop :=
  bi.accessTime.toInt - bj.accessTime.toInt < millisecondsBinned.toInt * 1000000 ∧
    bj.accessTime.toInt - bi.accessTime.toInt < millisecondsBinned.toInt * 1000000

/-- A quotient of a natural number is zero exactly when the divisor is greater. -/
theorem ediv_eq_zero_iff_lt {a b : Int} (nonneg : 0 ≤ a) (positive : 0 < b) :
    a / b = 0 ↔ a < b := by
  constructor
  · intro zero
    rcases Int.lt_or_le a b with less | greater
    · exact less
    · have one : 1 ≤ a / b := Int.le_ediv_of_mul_le positive (by omega)
      omega
  · exact Int.ediv_eq_zero_of_lt nonneg

instance (b : CachedBlock) : Decidable (Accessed b) :=
  inferInstanceAs (Decidable (0 ≤ b.accessTime.toInt))

instance (millisecondsBinned : Int64) : Decidable (BinSize millisecondsBinned) :=
  inferInstanceAs (Decidable (_ ∧ _))

/-- A truncated quotient is zero exactly when the dividend is nearer to zero. -/
theorem tdiv_eq_zero_iff {a b : Int} (positive : 0 < b) : a.tdiv b = 0 ↔ -b < a ∧ a < b := by
  rcases Int.le_total 0 a with nonneg | nonpos
  · rw [Int.tdiv_eq_ediv_of_nonneg nonneg, ediv_eq_zero_iff_lt nonneg positive]
    omega
  · have nonneg : 0 ≤ -a := by omega
    have flipped : a.tdiv b = -((-a) / b) := by
      rw [← Int.tdiv_eq_ediv_of_nonneg nonneg, Int.neg_tdiv, Int.neg_neg]
    rw [flipped, Int.neg_eq_zero, ediv_eq_zero_iff_lt nonneg positive]
    omega

section Comparator
variable {millisecondsBinned : Int64} {bi bj : CachedBlock}

/-- The comparator compares the counts of near blocks and the times of others. -/
theorem makeLess_iff (bin : BinSize millisecondsBinned) (accessedI : Accessed bi)
    (accessedJ : Accessed bj) :
    makeLessByAccessTimeThenCount millisecondsBinned bi bj = true ↔
      (Near millisecondsBinned bi bj ∧ bi.accesses.toInt < bj.accesses.toInt) ∨
        (¬Near millisecondsBinned bi bj ∧ bi.accessTime.toInt < bj.accessTime.toInt) := by
  unfold BinSize at bin
  unfold Accessed at accessedI accessedJ
  have boundI := bi.accessTime.toInt_lt
  have boundJ := bj.accessTime.toInt_lt
  have million : (1000000 : Int64).toInt = 1000000 := by decide
  have threshold : (millisecondsBinned * 1000000).toInt = millisecondsBinned.toInt * 1000000 := by
    rw [Int64.toInt_mul, million]
    exact Int.bmod_eq_of_le (by omega) (by omega)
  have difference : (bi.accessTime - bj.accessTime).toInt =
      bi.accessTime.toInt - bj.accessTime.toInt := by
    rw [Int64.toInt_sub]
    exact Int.bmod_eq_of_le (by omega) (by omega)
  have notNegOne : millisecondsBinned * 1000000 ≠ -1 := by
    intro absurd
    have values := congrArg Int64.toInt absurd
    have negOne : (-1 : Int64).toInt = -1 := by decide
    omega
  have near : (bi.accessTime - bj.accessTime) / (millisecondsBinned * 1000000) = 0 ↔
      Near millisecondsBinned bi bj := by
    have zero : (0 : Int64).toInt = 0 := by decide
    have positive : 0 < millisecondsBinned.toInt * 1000000 := by omega
    rw [← Int64.toInt_inj, Int64.toInt_div_of_ne_right _ _ notNegOne, threshold, difference, zero,
      tdiv_eq_zero_iff positive, Near]
    omega
  simp only [makeLessByAccessTimeThenCount, near]
  split
  · rename_i isNear
    rw [near] at isNear
    simp [isNear, lessByAccessCount, Int64.lt_iff_toInt_lt]
  · rename_i notNear
    rw [near] at notNear
    simp [notNear, lessByAccessTime, Int64.lt_iff_toInt_lt]

/-- A block is not below one that is near it without more accesses. -/
theorem makeLess_eq_false_of_near (bin : BinSize millisecondsBinned) (accessedI : Accessed bi)
    (accessedJ : Accessed bj) (near : Near millisecondsBinned bi bj)
    (notRises : bj.accesses.toInt ≤ bi.accesses.toInt) :
    makeLessByAccessTimeThenCount millisecondsBinned bi bj = false := by
  rw [← Bool.not_eq_true, makeLess_iff bin accessedI accessedJ]
  rintro (⟨-, rises⟩ | ⟨far, -⟩)
  · omega
  · exact far near

/-- Blocks that are far from each other have different times. -/
theorem far_lt (bin : BinSize millisecondsBinned) (far : ¬Near millisecondsBinned bi bj) :
    bi.accessTime.toInt < bj.accessTime.toInt ∨ bj.accessTime.toInt < bi.accessTime.toInt := by
  unfold BinSize at bin
  unfold Near at far
  omega

/-- Blocks of which neither is below the other are near and have equal counts. -/
theorem near_of_not_less (bin : BinSize millisecondsBinned)
    (notIJ : ¬((Near millisecondsBinned bi bj ∧ bi.accesses.toInt < bj.accesses.toInt) ∨
      (¬Near millisecondsBinned bi bj ∧ bi.accessTime.toInt < bj.accessTime.toInt)))
    (notJI : ¬((Near millisecondsBinned bj bi ∧ bj.accesses.toInt < bi.accesses.toInt) ∨
      (¬Near millisecondsBinned bj bi ∧ bj.accessTime.toInt < bi.accessTime.toInt))) :
    Near millisecondsBinned bi bj ∧ bi.accesses.toInt = bj.accesses.toInt := by
  have near : Near millisecondsBinned bi bj := by
    by_contra far
    rcases far_lt bin far with before | after
    · exact notIJ (Or.inr ⟨far, before⟩)
    · exact notJI (Or.inr ⟨far ∘ And.symm, after⟩)
  refine ⟨near, ?_⟩
  rcases Int.lt_trichotomy bi.accesses.toInt bj.accesses.toInt with less | same | greater
  · exact absurd (Or.inl ⟨near, less⟩) notIJ
  · exact same
  · exact absurd (Or.inl ⟨near.symm, greater⟩) notJI

end Comparator

/-- Between two blocks that are far from each other, a block that is near both has more
accesses than the earlier one or fewer than the later one. -/
def CountsFillGaps (millisecondsBinned : Int64) (blocks : CachedBlock → Prop) : Prop :=
  ∀ bi bj bk, blocks bi → blocks bj → blocks bk → Near millisecondsBinned bi bj →
    Near millisecondsBinned bj bk → ¬Near millisecondsBinned bi bk →
    bi.accessTime.toInt < bk.accessTime.toInt →
    bi.accesses.toInt < bj.accesses.toInt ∨ bj.accesses.toInt < bk.accesses.toInt

namespace CountsFillGaps

variable {millisecondsBinned : Int64} {blocks : CachedBlock → Prop}

/-- Counts fill the gaps of a strict weak order. -/
theorem of_weakOrder (bin : BinSize millisecondsBinned) (accessed : ∀ b, blocks b → Accessed b)
    (order : WeakOrderOn (makeLessByAccessTimeThenCount millisecondsBinned) blocks) :
    CountsFillGaps millisecondsBinned blocks := by
  intro bi bj bk memberI memberJ memberK nearIJ nearJK farIK before
  by_contra gap
  rw [not_or, Int.not_lt, Int.not_lt] at gap
  have lessIK := (makeLess_iff bin (accessed bi memberI) (accessed bk memberK)).mpr
    (Or.inr ⟨farIK, before⟩)
  have notLessIJ := makeLess_eq_false_of_near bin (accessed bi memberI) (accessed bj memberJ)
    nearIJ gap.1
  have notLessJK := makeLess_eq_false_of_near bin (accessed bj memberJ) (accessed bk memberK)
    nearJK gap.2
  -- if the counts fall on the way, the comparator is not transitive
  rcases Int.lt_or_le bj.accesses.toInt bi.accesses.toInt with falls | sameIJ
  · have lessJI := (makeLess_iff bin (accessed bj memberJ) (accessed bi memberI)).mpr
      (Or.inl ⟨nearIJ.symm, falls⟩)
    have lessJK := order.transitive bj bi bk memberJ memberI memberK lessJI lessIK
    exact Bool.false_ne_true (notLessJK.symm.trans lessJK)
  rcases Int.lt_or_le bk.accesses.toInt bj.accesses.toInt with falls | sameJK
  · have lessKJ := (makeLess_iff bin (accessed bk memberK) (accessed bj memberJ)).mpr
      (Or.inl ⟨nearJK.symm, falls⟩)
    have lessIJ := order.transitive bi bk bj memberI memberK memberJ lessIK lessKJ
    exact Bool.false_ne_true (notLessIJ.symm.trans lessIJ)
  -- otherwise incomparability is not
  have notLessJI := makeLess_eq_false_of_near bin (accessed bj memberJ) (accessed bi memberI)
    nearIJ.symm sameIJ
  have notLessKJ := makeLess_eq_false_of_near bin (accessed bk memberK) (accessed bj memberJ)
    nearJK.symm sameJK
  have both := order.incomparable bi bj bk memberI memberJ memberK notLessIJ notLessJI notLessJK
    notLessKJ
  exact Bool.false_ne_true (both.1.symm.trans lessIK)

/-- Where counts fill the gaps, the comparator is transitive. -/
theorem transitive (fill : CountsFillGaps millisecondsBinned blocks)
    (bin : BinSize millisecondsBinned) (accessed : ∀ b, blocks b → Accessed b)
    (bi bj bk : CachedBlock) (memberI : blocks bi) (memberJ : blocks bj) (memberK : blocks bk)
    (lessIJ : makeLessByAccessTimeThenCount millisecondsBinned bi bj = true)
    (lessJK : makeLessByAccessTimeThenCount millisecondsBinned bj bk = true) :
    makeLessByAccessTimeThenCount millisecondsBinned bi bk = true := by
  rw [makeLess_iff bin (accessed bi memberI) (accessed bj memberJ)] at lessIJ
  rw [makeLess_iff bin (accessed bj memberJ) (accessed bk memberK)] at lessJK
  rw [makeLess_iff bin (accessed bi memberI) (accessed bk memberK)]
  rcases lessIJ with ⟨nearIJ, risesIJ⟩ | ⟨farIJ, laterIJ⟩
  · rcases lessJK with ⟨nearJK, risesJK⟩ | ⟨farJK, laterJK⟩
    · by_cases nearIK : Near millisecondsBinned bi bk
      · exact Or.inl ⟨nearIK, Int.lt_trans risesIJ risesJK⟩
      · rcases far_lt bin nearIK with before | after
        · exact Or.inr ⟨nearIK, before⟩
        · -- a gap over which the counts would fall
          have filled := fill bk bj bi memberK memberJ memberI nearJK.symm nearIJ.symm
            (nearIK ∘ And.symm) after
          omega
    · by_cases nearIK : Near millisecondsBinned bi bk
      · have filled := fill bj bi bk memberJ memberI memberK nearIJ.symm nearIK farJK laterJK
        exact Or.inl ⟨nearIK, by omega⟩
      · refine Or.inr ⟨nearIK, ?_⟩
        unfold Near at nearIJ farJK
        omega
  · rcases lessJK with ⟨nearJK, risesJK⟩ | ⟨farJK, laterJK⟩
    · by_cases nearIK : Near millisecondsBinned bi bk
      · have filled := fill bi bk bj memberI memberK memberJ nearIK nearJK.symm farIJ laterIJ
        exact Or.inl ⟨nearIK, by omega⟩
      · refine Or.inr ⟨nearIK, ?_⟩
        unfold Near at nearJK farIJ
        omega
    · refine Or.inr ⟨?_, Int.lt_trans laterIJ laterJK⟩
      unfold Near at *
      omega

/-- Where counts fill the gaps, blocks that are not below each other are near with the same
counts, and so are those next to them. -/
theorem incomparable (fill : CountsFillGaps millisecondsBinned blocks)
    (bin : BinSize millisecondsBinned) (accessed : ∀ b, blocks b → Accessed b)
    (bi bj bk : CachedBlock) (memberI : blocks bi) (memberJ : blocks bj) (memberK : blocks bk)
    (notIJ : makeLessByAccessTimeThenCount millisecondsBinned bi bj = false)
    (notJI : makeLessByAccessTimeThenCount millisecondsBinned bj bi = false)
    (notJK : makeLessByAccessTimeThenCount millisecondsBinned bj bk = false)
    (notKJ : makeLessByAccessTimeThenCount millisecondsBinned bk bj = false) :
    makeLessByAccessTimeThenCount millisecondsBinned bi bk = false ∧
      makeLessByAccessTimeThenCount millisecondsBinned bk bi = false := by
  have accessedI := accessed bi memberI
  have accessedJ := accessed bj memberJ
  have accessedK := accessed bk memberK
  rw [← Bool.not_eq_true, makeLess_iff bin accessedI accessedJ] at notIJ
  rw [← Bool.not_eq_true, makeLess_iff bin accessedJ accessedI] at notJI
  rw [← Bool.not_eq_true, makeLess_iff bin accessedJ accessedK] at notJK
  rw [← Bool.not_eq_true, makeLess_iff bin accessedK accessedJ] at notKJ
  obtain ⟨nearIJ, sameIJ⟩ := near_of_not_less bin notIJ notJI
  obtain ⟨nearJK, sameJK⟩ := near_of_not_less bin notJK notKJ
  have nearIK : Near millisecondsBinned bi bk := by
    by_contra farIK
    rcases far_lt bin farIK with before | after
    · have filled := fill bi bj bk memberI memberJ memberK nearIJ nearJK farIK before
      omega
    · have filled := fill bk bj bi memberK memberJ memberI nearJK.symm nearIJ.symm
        (farIK ∘ And.symm) after
      omega
  exact ⟨makeLess_eq_false_of_near bin accessedI accessedK nearIK (by omega),
    makeLess_eq_false_of_near bin accessedK accessedI nearIK.symm (by omega)⟩

end CountsFillGaps

/-- The comparator is a strict weak order of some blocks exactly when counts fill the gaps
between their times. -/
theorem weakOrderOn_iff {millisecondsBinned : Int64} (bin : BinSize millisecondsBinned)
    {blocks : CachedBlock → Prop} (accessed : ∀ b, blocks b → Accessed b) :
    WeakOrderOn (makeLessByAccessTimeThenCount millisecondsBinned) blocks ↔
      CountsFillGaps millisecondsBinned blocks := by
  constructor
  · exact CountsFillGaps.of_weakOrder bin accessed
  · intro fill
    refine ⟨fun b member => ?_, fill.transitive bin accessed, fill.incomparable bin accessed⟩
    rw [← Bool.not_eq_true, makeLess_iff bin (accessed b member) (accessed b member)]
    omega

/-- A block that was accessed once, at a given time; only its access time differs from the others
in the examples. -/
def accessedAt (time : Int64) : CachedBlock := ⟨⟨0, ""⟩, 1, time, 0⟩

/-- Of three blocks accessed at the beginning, a nanosecond later and a bin size later, the
second is as old as either of the others, but the first is older than the last. -/
theorem bins_are_no_order :
    ¬∀ millisecondsBinned, BinSize millisecondsBinned →
      WeakOrderOn (makeLessByAccessTimeThenCount millisecondsBinned) Accessed := by
  intro claimed
  have order := claimed 1 (by decide)
  have both := order.incomparable (accessedAt 0) (accessedAt 1) (accessedAt 1000000) (by decide)
    (by decide) (by decide) (by decide) (by decide) (by decide) (by decide)
  exact absurd both.1 (by decide)

/-- For no bin size is the comparator a strict weak order of all blocks that were accessed. -/
theorem never_weakOrder {millisecondsBinned : Int64} (bin : BinSize millisecondsBinned) :
    ¬WeakOrderOn (makeLessByAccessTimeThenCount millisecondsBinned) Accessed := by
  rw [weakOrderOn_iff bin fun _ accessed => accessed]
  intro fill
  have zero : (0 : Int64).toInt = 0 := by decide
  have one : (1 : Int64).toInt = 1 := by decide
  have million : (1000000 : Int64).toInt = 1000000 := by decide
  have threshold : (millisecondsBinned * 1000000).toInt = millisecondsBinned.toInt * 1000000 := by
    unfold BinSize at bin
    rw [Int64.toInt_mul, million]
    exact Int.bmod_eq_of_le (by omega) (by omega)
  have filled := fill (accessedAt 0) (accessedAt 1) (accessedAt (millisecondsBinned * 1000000))
  simp only [Accessed, Near, accessedAt, zero, one, threshold] at filled
  unfold BinSize at bin
  omega

/-- The bin of one millisecond, which is that of the queue that `NewBlockPriorityQueue` makes,
gives no order either. -/
theorem never_weakOrder_default :
    ¬WeakOrderOn (makeLessByAccessTimeThenCount 1) Accessed :=
  never_weakOrder (by decide)

end Hcexplorer.Hcdataapi
