import Mathlib.Data.Multiset.AddSub
import Mathlib.Order.Lattice

/-!
# The highest elements of a multiset

The given number of highest elements, or all where there are fewer, as the front of the
list sorted downwards. They are known by what separates them from the rest, so a
collection that takes, refuses and replaces elements one at a time can be compared with
them without sorting.

Nothing here refers to a particular system.
-/

namespace Hcexplorer

universe u
variable {α : Type u} [LinearOrder α]

/-- The highest elements: the front of the list sorted downwards. -/
def highest (number : Nat) (all : List α) : List α :=
  (all.mergeSort fun x y => decide (y ≤ x)).take number

/-- A part of a multiset that holds the given number of its elements, or all of them, none
below one that it leaves out. -/
def Highest (number : Nat) (all chosen : Multiset α) : Prop :=
  chosen.card ≤ number ∧ ∃ rest, all = chosen + rest ∧ (∀ x ∈ chosen, ∀ y ∈ rest, y ≤ x) ∧
    (chosen.card < number → rest = 0)

/-- The list that is sorted by the reversed order descends. -/
theorem mergeSort_descending (all : List α) :
    (all.mergeSort fun x y => decide (y ≤ x)).Pairwise fun x y => y ≤ x := by
  have pairwise : (all.mergeSort fun x y => decide (y ≤ x)).Pairwise
      fun x y => decide (y ≤ x) = true := by
    refine List.pairwise_mergeSort (fun x y z first second => ?_) (fun x y => ?_) all
    · simp only [decide_eq_true_eq] at *
      exact second.trans first
    · simp only [Bool.or_eq_true, decide_eq_true_eq]
      exact le_total y x
  exact pairwise.imp of_decide_eq_true

/-- The highest elements, from a permutation in ascending order. -/
theorem highest_eq_of_ascending {all xs : List α} (perm : xs.Perm all)
    (ascending : xs.Pairwise (· ≤ ·)) (number : Nat) :
    highest number all = xs.reverse.take number := by
  have same : (all.mergeSort fun x y => decide (y ≤ x)) = xs.reverse :=
    List.Perm.eq_of_pairwise (fun _ _ _ _ above below => le_antisymm below above)
      (mergeSort_descending all) (List.pairwise_reverse.mpr ascending)
      ((List.mergeSort_perm all _).trans (perm.symm.trans (List.reverse_perm xs).symm))
  rw [highest, same]

namespace Highest
variable {number : Nat} {all chosen other : Multiset α} {a m : α}

/-- The front of the sorted list is such a part. -/
theorem of_highest (number : Nat) (all : List α) :
    Highest number (all : Multiset α) (highest number all : Multiset α) := by
  have sorted := mergeSort_descending all
  have split := List.take_append_drop number (all.mergeSort fun x y => decide (y ≤ x))
  refine ⟨?_, (all.mergeSort fun x y => decide (y ≤ x)).drop number, ?_, ?_, ?_⟩
  · simp [highest]
  · rw [highest, Multiset.coe_add, split]
    exact Multiset.coe_eq_coe.mpr (List.mergeSort_perm all _).symm
  · rw [← split, List.pairwise_append] at sorted
    exact sorted.2.2
  · intro fewer
    simp only [highest, Multiset.coe_card, List.length_take] at fewer
    rw [Multiset.coe_eq_zero, List.drop_eq_nil_iff]
    omega

/-- The empty part is that of the highest elements of nothing. -/
theorem zero (number : Nat) : Highest number (0 : Multiset α) 0 :=
  ⟨Nat.zero_le _, 0, rfl, fun _ member => absurd member (Multiset.notMem_zero _), fun _ => rfl⟩

/-- A new element is taken where there is room. -/
theorem take (isHighest : Highest number all chosen) (room : chosen.card < number) (a : α) :
    Highest number (a ::ₘ all) (a ::ₘ chosen) := by
  obtain ⟨-, rest, split, -, everything⟩ := isHighest
  have empty := everything room
  subst empty
  refine ⟨by rw [Multiset.card_cons]; omega, 0, ?_, ?_, fun _ => rfl⟩
  · rw [split, Multiset.cons_add]
  · exact fun _ _ _ member => absurd member (Multiset.notMem_zero _)

/-- A new element is refused where there is no room and nothing chosen is below it. -/
theorem refuse (isHighest : Highest number all chosen) (full : chosen.card = number)
    (lowest : ∀ x ∈ chosen, a ≤ x) : Highest number (a ::ₘ all) chosen := by
  obtain ⟨capped, rest, split, above, -⟩ := isHighest
  refine ⟨capped, a ::ₘ rest, ?_, ?_, fun fewer => ?_⟩
  · rw [split, Multiset.add_cons]
  · intro x member y left
    rcases Multiset.mem_cons.mp left with rfl | left
    · exact lowest x member
    · exact above x member y left
  · omega

/-- An element that is not below a lowest chosen one replaces it, where no more may be chosen. -/
theorem replace (isHighest : Highest number all (m ::ₘ chosen)) (lowest : ∀ x ∈ chosen, m ≤ x)
    (below : m ≤ a) (full : chosen.card + 1 = number) :
    Highest number (a ::ₘ all) (a ::ₘ chosen) := by
  obtain ⟨-, rest, split, above, -⟩ := isHighest
  refine ⟨?_, m ::ₘ rest, ?_, ?_, fun fewer => ?_⟩
  · rw [Multiset.card_cons, full]
  · rw [split, Multiset.cons_add, Multiset.cons_add, Multiset.add_cons]
  · have leastOfAll : ∀ y ∈ m ::ₘ rest, y ≤ m := by
      intro y left
      rcases Multiset.mem_cons.mp left with rfl | left
      · exact le_refl _
      · exact above m (Multiset.mem_cons_self m chosen) y left
    intro x member y left
    rcases Multiset.mem_cons.mp member with rfl | member
    · exact (leastOfAll y left).trans below
    · exact (leastOfAll y left).trans (lowest x member)
  · rw [Multiset.card_cons] at fewer
    omega

/-- Two parts of the highest elements are equally large. -/
theorem card_eq (first : Highest number all chosen) (second : Highest number all other) :
    chosen.card = other.card := by
  obtain ⟨capped, rest, split, -, everything⟩ := first
  obtain ⟨capped', rest', split', -, everything'⟩ := second
  have cards : chosen.card + rest.card = other.card + rest'.card := by
    rw [← Multiset.card_add, ← Multiset.card_add, ← split, split']
  rcases Nat.lt_or_ge chosen.card number with fewer | full
  · have empty := everything fewer
    rcases Nat.lt_or_ge other.card number with fewer' | full'
    · have empty' := everything' fewer'
      simpa [empty, empty'] using cards
    · simp only [empty, Multiset.card_zero] at cards
      omega
  · rcases Nat.lt_or_ge other.card number with fewer' | full'
    · have empty' := everything' fewer'
      simp only [empty', Multiset.card_zero] at cards
      omega
    · omega

/-- An element that is chosen more often in the first part is no higher than one that is
chosen more often in the second. -/
theorem le_of_count_lt (first : Highest number all chosen) (second : Highest number all other)
    {x y : α} (more : other.count x < chosen.count x) (more' : chosen.count y < other.count y) :
    x ≤ y := by
  obtain ⟨-, rest, split, -, -⟩ := first
  obtain ⟨-, rest', split', above', -⟩ := second
  have counts : chosen.count x + rest.count x = other.count x + rest'.count x := by
    rw [← Multiset.count_add, ← Multiset.count_add, ← split, split']
  have isLeft : x ∈ rest' := Multiset.count_pos.mp (by omega)
  have isChosen : y ∈ other := Multiset.count_pos.mp (by omega)
  exact above' y isChosen x isLeft

/-- There is only one part of the highest elements. -/
theorem unique (first : Highest number all chosen) (second : Highest number all other) :
    chosen = other := by
  have cards := first.card_eq second
  by_contra different
  have notLe : ¬chosen ≤ other := fun le => different (Multiset.eq_of_le_of_card_le le cards.ge)
  have notGe : ¬other ≤ chosen := fun le => different (Multiset.eq_of_le_of_card_le le cards.le).symm
  simp only [Multiset.le_iff_count, not_forall, not_le] at notLe notGe
  obtain ⟨x, more⟩ := notLe
  obtain ⟨y, more'⟩ := notGe
  have same : x = y := le_antisymm (first.le_of_count_lt second more more')
    (second.le_of_count_lt first more' more)
  subst same
  exact absurd more (Nat.lt_asymm more')

/-- Such a part is the front of the sorted list. -/
theorem eq_highest {all : List α} (isHighest : Highest number (all : Multiset α) chosen) :
    chosen = (highest number all : Multiset α) :=
  isHighest.unique (of_highest number all)

end Highest

end Hcexplorer
