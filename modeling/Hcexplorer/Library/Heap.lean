import Mathlib.Logic.Equiv.Basic
import Mathlib.Order.Defs.Unbundled

/-!
# A binary heap behind an interface

The algorithms of Go's `container/heap`. They see a collection through its length, a
comparison of two positions and an exchange of two positions, and keep the elements
in an implicit binary tree in which no element is below its parent.

The laws of a collection say that an exchange acts on the comparisons as the
transposition of the two positions does. From them: each algorithm restores the
order when it is called where its documentation says, the root of an ordered heap is
minimal, and whatever every exchange keeps is kept by every algorithm.

Collections, elements and orders are arbitrary.
-/

namespace Hcexplorer.Heap

universe u v
variable {σ : Type u} {ε : Type v}

/-- `heap.Interface`. The element that `Pop` returns is not looked at. -/
structure Interface (σ : Type u) (ε : Type v) where
  len : σ → Nat
  less : σ → Nat → Nat → Bool
  swap : Nat → Nat → σ → σ
  push : ε → σ → σ
  pop : σ → σ

/-- The position above. The root is its own parent. -/
def parent (position : Nat) : Nat := (position - 1) / 2

/-- The loop of `up`. Each round but the last moves closer to the root, so a number of
rounds above the position is enough. -/
def upFrom (heap : Interface σ ε) : Nat → Nat → σ → σ
  | 0, _, state => state
  | rounds + 1, j, state =>
    let i := parent j
    if i = j || !heap.less state j i then state
    else upFrom heap rounds i (heap.swap i j state)

/-- `up`, with rounds enough for the element to reach the root. -/
def up (heap : Interface σ ε) (j : Nat) (state : σ) : σ := upFrom heap (j + 1) j state

/-- The child that `down` compares with, for a position whose left child is in the
heap: the right one if there is one and it is below the left one. -/
def lesserChild (heap : Interface σ ε) (i n : Nat) (state : σ) : Nat :=
  if 2 * i + 2 < n && heap.less state (2 * i + 2) (2 * i + 1) then 2 * i + 2 else 2 * i + 1

/-- The loop of `down`, with the position it ends at. Each round but the last moves
further from the root, so a number of rounds that reaches the length is enough. -/
def downFrom (heap : Interface σ ε) (n : Nat) : Nat → Nat → σ → σ × Nat
  | 0, i, state => (state, i)
  | rounds + 1, i, state =>
    if n ≤ 2 * i + 1 then (state, i)
    else
      let j := lesserChild heap i n state
      if !heap.less state j i then (state, i)
      else downFrom heap n rounds j (heap.swap i j state)

/-- `down`, with whether the element moved from where it was. -/
def down (heap : Interface σ ε) (i0 n : Nat) (state : σ) : σ × Bool :=
  let final := downFrom heap n n i0 state
  (final.1, decide (i0 < final.2))

/-- The loop of `Init`, over the positions below a given one from the last to the first. -/
def initFrom (heap : Interface σ ε) (n : Nat) : Nat → σ → σ
  | 0, state => state
  | i + 1, state => initFrom heap n i (down heap i n state).1

/-- `Init`, which settles the positions with children from the last to the first. -/
def init (heap : Interface σ ε) (state : σ) : σ :=
  initFrom heap (heap.len state) (heap.len state / 2) state

/-- `down`, then `up` if nothing moved: what `Fix` and `Remove` do at a position whose
element changed. -/
def settle (heap : Interface σ ε) (i n : Nat) (state : σ) : σ :=
  let sunk := down heap i n state
  if sunk.2 then sunk.1 else up heap i sunk.1

/-- `Fix`, which settles the element at a position after it has changed. -/
def fix (heap : Interface σ ε) (i : Nat) (state : σ) : σ := settle heap i (heap.len state) state

/-- `Push`, which appends an element and moves it up to its place. -/
def push (heap : Interface σ ε) (element : ε) (state : σ) : σ :=
  let appended := heap.push element state
  up heap (heap.len appended - 1) appended

/-- `Remove`, which exchanges the element with the last one, settles that one, and takes the last
off. -/
def remove (heap : Interface σ ε) (i : Nat) (state : σ) : σ :=
  let n := heap.len state - 1
  if n = i then heap.pop state else heap.pop (settle heap i n (heap.swap i n state))

/-- What the algorithms rely on, in the states that `valid` describes. -/
structure Laws (heap : Interface σ ε) (valid : σ → Prop) : Prop where
  len_swap : ∀ i j state, heap.len (heap.swap i j state) = heap.len state
  valid_swap : ∀ i j state, i < heap.len state → j < heap.len state → valid state →
    valid (heap.swap i j state)
  less_swap : ∀ i j state, i < heap.len state → j < heap.len state → valid state → ∀ a b,
    heap.less (heap.swap i j state) a b =
      heap.less state (Equiv.swap i j a) (Equiv.swap i j b)
  order : ∀ state, valid state → IsStrictWeakOrder Nat fun a b => heap.less state a b = true
  len_push : ∀ element state, heap.len (heap.push element state) = heap.len state + 1
  valid_push : ∀ element state, valid state → valid (heap.push element state)
  less_push : ∀ element state a b, valid state → a < heap.len state → b < heap.len state →
    heap.less (heap.push element state) a b = heap.less state a b
  len_pop : ∀ state, heap.len (heap.pop state) = heap.len state - 1
  less_pop : ∀ state a b, valid state → a < heap.len state - 1 → b < heap.len state - 1 →
    heap.less (heap.pop state) a b = heap.less state a b

/-! ## What every exchange keeps -/

/-- Exchanges of positions in the collection keep the property. -/
def KeptBySwaps (heap : Interface σ ε) (property : σ → Prop) : Prop :=
  ∀ i j state, i < heap.len state → j < heap.len state → property state →
    property (heap.swap i j state)

/-- The parent is not after the position, and it is the position itself only at the root. -/
theorem parent_le (j : Nat) : parent j ≤ j := by
  unfold parent
  omega

/-- The chosen child is a child, and it is in the heap. -/
theorem lesserChild_bounds (heap : Interface σ ε) (state : σ) {i n : Nat}
    (inside : 2 * i + 1 < n) :
    i < lesserChild heap i n state ∧ lesserChild heap i n state < n ∧
      parent (lesserChild heap i n state) = i := by
  unfold lesserChild parent
  split
  · rename_i right
    simp only [Bool.and_eq_true, decide_eq_true_eq] at right
    omega
  · omega

/-- Exchanges of two positions among the first ones keep the property. -/
def KeptBelow (heap : Interface σ ε) (n : Nat) (property : σ → Prop) : Prop :=
  ∀ i j state, i < n → j < n → n ≤ heap.len state → property state → property (heap.swap i j state)

section Kept
variable {heap : Interface σ ε} {property : σ → Prop}

/-- Exchanges keep a state valid, by the laws. -/
theorem Laws.keptValid {valid : σ → Prop} (laws : Laws heap valid) : KeptBySwaps heap valid :=
  laws.valid_swap

/-- A property that any exchange keeps is kept by exchanges of the first positions. -/
theorem KeptBySwaps.below (kept : KeptBySwaps heap property) (n : Nat) :
    KeptBelow heap n property :=
  fun i j state insideI insideJ bound holds =>
    kept i j state (Nat.lt_of_lt_of_le insideI bound) (Nat.lt_of_lt_of_le insideJ bound) holds

/-- Moving up keeps a property that exchanges keep, and the length. -/
theorem upFrom_keeps (lens : ∀ i j state, heap.len (heap.swap i j state) = heap.len state)
    {n : Nat} (kept : KeptBelow heap n property) (rounds : Nat) {j : Nat} {state : σ}
    (inside : j < n) (bound : n ≤ heap.len state) (holds : property state) :
    property (upFrom heap rounds j state) ∧
      heap.len (upFrom heap rounds j state) = heap.len state := by
  induction rounds generalizing j state with
  | zero => exact ⟨holds, rfl⟩
  | succ rounds inductionHypothesis =>
    simp only [upFrom]
    split
    · exact ⟨holds, rfl⟩
    · have above : parent j < n := Nat.lt_of_le_of_lt (parent_le j) inside
      have moved := kept (parent j) j state above inside bound holds
      have same := lens (parent j) j state
      have rest := inductionHypothesis above (same.symm ▸ bound) moved
      exact ⟨rest.1, rest.2.trans same⟩

/-- Moving down keeps a property that exchanges keep, and the length. -/
theorem downFrom_keeps (lens : ∀ i j state, heap.len (heap.swap i j state) = heap.len state)
    {n : Nat} (kept : KeptBelow heap n property) (rounds : Nat) {i : Nat} {state : σ}
    (bound : n ≤ heap.len state) (holds : property state) :
    property (downFrom heap n rounds i state).1 ∧
      heap.len (downFrom heap n rounds i state).1 = heap.len state := by
  induction rounds generalizing i state with
  | zero => exact ⟨holds, rfl⟩
  | succ rounds inductionHypothesis =>
    simp only [downFrom]
    split
    · exact ⟨holds, rfl⟩
    · rename_i inside
      have child := lesserChild_bounds heap state (Nat.lt_of_not_le inside)
      split
      · exact ⟨holds, rfl⟩
      · have moved := kept i (lesserChild heap i n state) state (by omega) child.2.1 bound holds
        have same := lens i (lesserChild heap i n state) state
        obtain ⟨still, length⟩ := inductionHypothesis (same.symm ▸ bound) moved
        exact ⟨still, length.trans same⟩

/-- Settling a position keeps a property that exchanges keep, and the length. -/
theorem settle_keeps (lens : ∀ i j state, heap.len (heap.swap i j state) = heap.len state)
    {n : Nat} (kept : KeptBelow heap n property) {i : Nat} {state : σ} (inside : i < n)
    (bound : n ≤ heap.len state) (holds : property state) :
    property (settle heap i n state) ∧
      heap.len (settle heap i n state) = heap.len state := by
  have sunk : property (downFrom heap n n i state).1 ∧ _ := downFrom_keeps lens kept n bound holds
  by_cases moved : i < (downFrom heap n n i state).2
  · simpa only [settle, down, moved, decide_true, if_true] using sunk
  · simp only [settle, down, moved, decide_false, Bool.false_eq_true, if_false]
    have stillBound : n ≤ heap.len (downFrom heap n n i state).1 := sunk.2.symm ▸ bound
    have risen := upFrom_keeps lens kept (i + 1) inside stillBound sunk.1
    exact ⟨risen.1, risen.2.trans sunk.2⟩

/-- The loop of `Init` keeps a property that exchanges keep, and the length. -/
theorem initFrom_keeps (lens : ∀ i j state, heap.len (heap.swap i j state) = heap.len state)
    (i : Nat) {n : Nat} (kept : KeptBelow heap n property) {state : σ}
    (bound : n ≤ heap.len state) (holds : property state) :
    property (initFrom heap n i state) ∧
      heap.len (initFrom heap n i state) = heap.len state := by
  induction i generalizing state with
  | zero => exact ⟨holds, rfl⟩
  | succ i inductionHypothesis =>
    have sunk : property (downFrom heap n n i state).1 ∧ _ := downFrom_keeps lens kept n bound holds
    have rest := inductionHypothesis (sunk.2.symm ▸ bound) sunk.1
    exact ⟨rest.1, rest.2.trans sunk.2⟩

/-- `Init` keeps a property that exchanges keep, and the length. -/
theorem init_keeps (lens : ∀ i j state, heap.len (heap.swap i j state) = heap.len state)
    (kept : KeptBySwaps heap property) {state : σ} (holds : property state) :
    property (init heap state) ∧ heap.len (init heap state) = heap.len state :=
  initFrom_keeps lens _ (kept.below _) (Nat.le_refl _) holds

/-- `Fix` keeps a property that exchanges keep, and the length. -/
theorem fix_keeps (lens : ∀ i j state, heap.len (heap.swap i j state) = heap.len state)
    (kept : KeptBySwaps heap property) {i : Nat} {state : σ} (inside : i < heap.len state)
    (holds : property state) :
    property (fix heap i state) ∧ heap.len (fix heap i state) = heap.len state :=
  settle_keeps lens (kept.below _) inside (Nat.le_refl _) holds

/-- `Push` ends with exchanges of what its first step leaves. -/
theorem push_keeps (lens : ∀ i j state, heap.len (heap.swap i j state) = heap.len state)
    (kept : KeptBySwaps heap property) {element : ε} {state : σ}
    (grown : 0 < heap.len (heap.push element state)) (holds : property (heap.push element state)) :
    property (push heap element state) ∧
      heap.len (push heap element state) = heap.len (heap.push element state) :=
  upFrom_keeps lens (kept.below _) _ (Nat.sub_lt grown Nat.one_pos) (Nat.le_refl _) holds

/-- `Remove` brings the element to the last position, exchanges others and ends with a
`Pop`. -/
theorem remove_keeps (lens : ∀ i j state, heap.len (heap.swap i j state) = heap.len state)
    {i : Nat} {state : σ} (kept : KeptBelow heap (heap.len state - 1) property)
    (inside : i < heap.len state) (last : heap.len state - 1 = i → property state)
    (moved : heap.len state - 1 ≠ i → property (heap.swap i (heap.len state - 1) state)) :
    ∃ before, property before ∧ heap.len before = heap.len state ∧
      remove heap i state = heap.pop before := by
  simp only [remove]
  split
  · rename_i isLast
    exact ⟨state, last isLast, rfl, rfl⟩
  · rename_i notLast
    have same := lens i (heap.len state - 1) state
    have settled : property (settle heap i (heap.len state - 1)
        (heap.swap i (heap.len state - 1) state)) ∧ _ :=
      settle_keeps lens kept (by omega) (by omega) (moved notLast)
    exact ⟨_, settled.1, settled.2.trans same, rfl⟩

end Kept

/-! ## The order -/

/-- No element with its parent in a range is below the parent, up to exceptions. -/
def OrderedBut (heap : Interface σ ε) (first n : Nat) (state : σ) (exception : Nat → Prop) : Prop :=
  ∀ k, 0 < k → k < n → first ≤ parent k → ¬exception k → heap.less state k (parent k) = false

/-- No element of the first positions is below its parent. -/
def OrderedTo (heap : Interface σ ε) (n : Nat) (state : σ) : Prop :=
  ∀ k, 0 < k → k < n → heap.less state k (parent k) = false

/-- The collection is ordered as a heap: no element is below its parent. -/
def Ordered (heap : Interface σ ε) (state : σ) : Prop := OrderedTo heap (heap.len state) state

instance (heap : Interface σ ε) (n : Nat) (state : σ) : Decidable (OrderedTo heap n state) :=
  decidable_of_iff (∀ k < n, 0 < k → heap.less state k (parent k) = false)
    ⟨fun all k positive inside => all k inside positive,
      fun ordered k inside positive => ordered k positive inside⟩

instance (heap : Interface σ ε) (state : σ) : Decidable (Ordered heap state) :=
  inferInstanceAs (Decidable (OrderedTo heap (heap.len state) state))

/-- The children of a position are not below its parent. -/
def Bridged (heap : Interface σ ε) (first n : Nat) (state : σ) (i : Nat) : Prop :=
  0 < i → first ≤ parent i → ∀ k, 0 < k → k < n → parent k = i →
    heap.less state k (parent i) = false

/-- In a strict weak order, not to be below is transitive. -/
theorem not_below_trans {α : Type u} {below : α → α → Bool}
    (order : IsStrictWeakOrder α fun a b => below a b = true) {a b c : α}
    (first : below a b = false) (second : below b c = false) : below a c = false := by
  by_contra across
  have isBelow : below a c = true := by simpa using across
  -- neither `b` below `a` nor `c` below `b` is possible, so the three are incomparable
  have notAbove : ¬below b a = true := fun less => by
    have chained := order.trans b a c less isBelow
    rw [second] at chained
    cases chained
  have notBelow : ¬below c b = true := fun less => by
    have chained := order.trans a c b isBelow less
    rw [first] at chained
    cases chained
  exact (order.incomp_trans a b c ⟨by simp [first], notAbove⟩ ⟨by simp [second], notBelow⟩).1 isBelow

section Order
variable {heap : Interface σ ε} {valid : σ → Prop}

/-- Down a chain of elements, none of which is below the next, the first is not below
the last. -/
theorem Laws.not_less_trans (laws : Laws heap valid) {state : σ} (isValid : valid state)
    {a b c : Nat} (first : heap.less state a b = false) (second : heap.less state b c = false) :
    heap.less state a c = false :=
  not_below_trans (laws.order state isValid) first second

/-- Of two elements at most one is below the other. -/
theorem Laws.not_less_of_less (laws : Laws heap valid) {state : σ} (isValid : valid state)
    {a b : Nat} (less : heap.less state a b = true) : heap.less state b a = false := by
  have order := laws.order state isValid
  by_contra above
  have back : heap.less state b a = true := by simpa using above
  exact order.irrefl a (order.trans a b a less back)

/-- No element is below itself, by the laws. -/
theorem Laws.not_less_self (laws : Laws heap valid) {state : σ} (isValid : valid state) (a : Nat) :
    heap.less state a a = false := by
  simpa using (laws.order state isValid).irrefl a

/-- The root of an ordered heap is minimal: no element is below it. -/
theorem OrderedTo.root_least (laws : Laws heap valid) {state : σ} (isValid : valid state) {n : Nat}
    (ordered : OrderedTo heap n state) (k : Nat) (inside : k < n) :
    heap.less state k 0 = false := by
  induction k using Nat.strongRecOn with
  | ind k inductionHypothesis =>
    by_cases isRoot : k = 0
    · rw [isRoot]
      exact laws.not_less_self isValid 0
    · have above : parent k < k := by
        unfold parent
        omega
      exact laws.not_less_trans isValid (ordered k (by omega) inside)
        (inductionHypothesis (parent k) above (by omega))

/-- A chosen child is not above the other child. -/
theorem lesserChild_least (laws : Laws heap valid) {state : σ} (isValid : valid state)
    {i n k : Nat} (positive : 0 < k) (inside : k < n) (child : parent k = i) :
    heap.less state k (lesserChild heap i n state) = false := by
  have positions : k = 2 * i + 1 ∨ k = 2 * i + 2 := by
    unfold parent at child
    omega
  unfold lesserChild
  split
  · rename_i right
    simp only [Bool.and_eq_true, decide_eq_true_eq] at right
    rcases positions with rfl | rfl
    · exact laws.not_less_of_less isValid right.2
    · exact laws.not_less_self isValid _
  · rename_i left
    rcases positions with rfl | rfl
    · exact laws.not_less_self isValid _
    · simpa [inside] using left

/-- An element that is exchanged with its lesser child, which is below it, leaves an
exception at the child only. -/
theorem OrderedBut.sink (laws : Laws heap valid) {state : σ} (isValid : valid state)
    {first n i j : Nat} (bound : n ≤ heap.len state)
    (ordered : OrderedBut heap first n state fun k => k = i ∨ parent k = i)
    (bridged : Bridged heap first n state i) (insideJ : j < n) (positive : 0 < j)
    (child : parent j = i) (below : heap.less state j i = true)
    (least : ∀ k, 0 < k → k < n → parent k = i → heap.less state k j = false) :
    OrderedBut heap first n (heap.swap i j state) (fun k => parent k = j) ∧
      Bridged heap first n (heap.swap i j state) j := by
  have between : i < j := by
    unfold parent at child
    omega
  have swapped := laws.less_swap i j state (by omega) (by omega) isValid
  constructor
  · intro k positiveK insideK range notBelow
    rw [swapped]
    by_cases isJ : k = j
    · rw [isJ, child, Equiv.swap_apply_right, Equiv.swap_apply_left]
      exact laws.not_less_of_less isValid below
    by_cases isI : k = i
    · subst isI
      have above : parent k < k := by
        unfold parent
        omega
      rw [Equiv.swap_apply_left, Equiv.swap_apply_of_ne_of_ne (by omega) (by omega)]
      exact bridged positiveK range j positive insideJ child
    rw [Equiv.swap_apply_of_ne_of_ne isI isJ]
    by_cases sibling : parent k = i
    · rw [sibling, Equiv.swap_apply_left]
      exact least k positiveK insideK sibling
    · rw [Equiv.swap_apply_of_ne_of_ne sibling notBelow]
      exact ordered k positiveK insideK range (by simp [isI, sibling])
  · intro _ range k positiveK insideK grandchild
    have farther : j < k := by
      unfold parent at grandchild
      omega
    rw [swapped, child, Equiv.swap_apply_left, Equiv.swap_apply_of_ne_of_ne (by omega) (by omega),
      ← grandchild]
    refine ordered k positiveK insideK (by omega) ?_
    omega

/-- What `down` leaves when only the pairs of one position may be out of order: the
element stays and only its parent may be above it, or it moves and the order is
restored. -/
theorem downFrom_orders (laws : Laws heap valid) (rounds : Nat) {state : σ} {first n i : Nat}
    (isValid : valid state) (bound : n ≤ heap.len state) (enough : n ≤ i + rounds)
    (ordered : OrderedBut heap first n state fun k => k = i ∨ parent k = i)
    (bridged : Bridged heap first n state i) :
    (downFrom heap n rounds i state = (state, i) ∧ OrderedBut heap first n state fun k => k = i) ∨
      (i < (downFrom heap n rounds i state).2 ∧
        OrderedBut heap first n (downFrom heap n rounds i state).1 fun _ => False) := by
  induction rounds generalizing state i with
  | zero =>
    refine Or.inl ⟨rfl, fun k positive inside range notI => ?_⟩
    refine ordered k positive inside range ?_
    have before : parent k < k := by
      unfold parent
      omega
    omega
  | succ rounds inductionHypothesis =>
    simp only [downFrom]
    split
    · -- the position has no children
      rename_i leaf
      refine Or.inl ⟨rfl, fun k positive inside range notI => ?_⟩
      refine ordered k positive inside range ?_
      unfold parent
      omega
    · rename_i inner
      have child := lesserChild_bounds heap state (Nat.lt_of_not_le inner)
      have least : ∀ k, 0 < k → k < n → parent k = i →
          heap.less state k (lesserChild heap i n state) = false :=
        fun k positive inside isChild => lesserChild_least laws isValid positive inside isChild
      generalize lesserChild heap i n state = j at child least ⊢
      split
      · -- both children are not below the element
        rename_i stays
        have notBelow : heap.less state j i = false := by simpa using stays
        refine Or.inl ⟨rfl, fun k positive inside range notI => ?_⟩
        by_cases isChild : parent k = i
        · rw [isChild]
          exact laws.not_less_trans isValid (least k positive inside isChild) notBelow
        · exact ordered k positive inside range (by simp [notI, isChild])
      · rename_i moves
        have below : heap.less state j i = true := by simpa using moves
        obtain ⟨sunk, bridgedNext⟩ := ordered.sink laws isValid bound bridged child.2.1 (by omega)
          child.2.2 below least
        have length := laws.len_swap i j state
        have loose : OrderedBut heap first n (heap.swap i j state)
            fun k => k = j ∨ parent k = j :=
          fun k positive inside range neither =>
            sunk k positive inside range fun isChild => neither (Or.inr isChild)
        have isValidNext := laws.valid_swap i j state (by omega) (by omega) isValid
        rcases inductionHypothesis isValidNext (by omega) (by omega) loose bridgedNext with
          ⟨ended, others⟩ | ⟨moved, restored⟩
        · refine Or.inr ?_
          rw [ended]
          refine ⟨child.1, fun k positive inside range _ => ?_⟩
          by_cases isJ : k = j
          · refine sunk k positive inside range ?_
            unfold parent
            omega
          · exact others k positive inside range isJ
        · exact Or.inr ⟨by omega, restored⟩

/-- The position above a position other than the root is before it. -/
theorem parent_lt {position : Nat} (notRoot : 0 < position) : parent position < position := by
  unfold parent
  omega

section Rising

variable {state : σ} {n j : Nat}

/-- An element that is exchanged with a parent above it is the only one that may still be below
its parent. -/
theorem orderedBut_rise (laws : Laws heap valid) (isValid : valid state) (bound : n ≤ heap.len state)
    (inside : j < n) (notRoot : 0 < j)
    (ordered : OrderedBut heap 0 n state fun k => k = j) (bridged : Bridged heap 0 n state j)
    (below : heap.less state j (parent j) = true) :
    OrderedBut heap 0 n (heap.swap (parent j) j state) fun k => k = parent j := by
  have before := parent_lt notRoot
  intro k positive insideK _ notI
  rw [laws.less_swap (parent j) j state (by omega) (by omega) isValid]
  by_cases isJ : k = j
  · rw [isJ, Equiv.swap_apply_right, Equiv.swap_apply_left]
    exact laws.not_less_of_less isValid below
  rw [Equiv.swap_apply_of_ne_of_ne notI isJ]
  have here := ordered k positive insideK (Nat.zero_le _) isJ
  by_cases sibling : parent k = parent j
  · rw [sibling, Equiv.swap_apply_left]
    rw [sibling] at here
    -- below the new parent, it would be below the old one
    by_contra lower
    have chained := (laws.order state isValid).trans k j (parent j) (by simpa using lower) below
    rw [here] at chained
    cases chained
  by_cases grandchild : parent k = j
  · rw [grandchild, Equiv.swap_apply_right]
    exact bridged notRoot (Nat.zero_le _) k positive insideK grandchild
  · rw [Equiv.swap_apply_of_ne_of_ne sibling grandchild]
    exact here

/-- The children of the position it has risen to are not below the parent of that. -/
theorem bridged_rise (laws : Laws heap valid) (isValid : valid state) (bound : n ≤ heap.len state)
    (inside : j < n) (notRoot : 0 < j) (ordered : OrderedBut heap 0 n state fun k => k = j) :
    Bridged heap 0 n (heap.swap (parent j) j state) (parent j) := by
  have before := parent_lt notRoot
  intro positiveI _ k positive insideK isChild
  have notSelf := parent_lt positiveI
  have farther : parent j < k := isChild ▸ parent_lt positive
  have overI := ordered (parent j) positiveI (by omega) (Nat.zero_le _) (by omega)
  have overParent : Equiv.swap (parent j) j (parent (parent j)) = parent (parent j) :=
    Equiv.swap_apply_of_ne_of_ne (by omega) (by omega)
  rw [laws.less_swap (parent j) j state (by omega) (by omega) isValid, overParent]
  by_cases isJ : k = j
  · rw [isJ, Equiv.swap_apply_right]
    exact overI
  · rw [Equiv.swap_apply_of_ne_of_ne (by omega) isJ]
    have overK := ordered k positive insideK (Nat.zero_le _) isJ
    rw [isChild] at overK
    exact laws.not_less_trans isValid overK overI

end Rising

/-- `up` restores the order when only the parent of its element may be above it. -/
theorem upFrom_orders (laws : Laws heap valid) (rounds : Nat) {state : σ} {n j : Nat}
    (isValid : valid state) (bound : n ≤ heap.len state) (inside : j < n) (enough : j < rounds)
    (ordered : OrderedBut heap 0 n state fun k => k = j) (bridged : Bridged heap 0 n state j) :
    OrderedTo heap n (upFrom heap rounds j state) := by
  induction rounds generalizing state j with
  | zero => omega
  | succ rounds inductionHypothesis =>
    simp only [upFrom]
    split
    · -- the root, or not below its parent
      rename_i stays
      intro k positive insideK
      by_cases isJ : k = j
      · subst isJ
        have notRoot : parent k ≠ k := by
          unfold parent
          omega
        simpa [notRoot] using stays
      · exact ordered k positive insideK (Nat.zero_le _) isJ
    · rename_i rises
      simp only [Bool.or_eq_true, decide_eq_true_eq, Bool.not_eq_true', not_or,
        Bool.not_eq_false] at rises
      obtain ⟨notRoot, below⟩ := rises
      have positiveJ : 0 < j := by
        unfold parent at notRoot
        omega
      have before := parent_lt positiveJ
      refine inductionHypothesis
        (laws.valid_swap _ _ state (by omega) (by omega) isValid) ?_ (by omega) (by omega)
        (orderedBut_rise laws isValid bound inside positiveJ ordered bridged below)
        (bridged_rise laws isValid bound inside positiveJ ordered)
      rw [laws.len_swap]
      exact bound

/-- `down` and `up` restore the order around a position whose element changed. -/
theorem settle_orders (laws : Laws heap valid) {state : σ} {n i : Nat} (isValid : valid state)
    (bound : n ≤ heap.len state) (inside : i < n)
    (ordered : OrderedBut heap 0 n state fun k => k = i ∨ parent k = i)
    (bridged : Bridged heap 0 n state i) : OrderedTo heap n (settle heap i n state) := by
  rcases downFrom_orders laws n isValid bound (by omega) ordered bridged with
    ⟨ended, others⟩ | ⟨moved, restored⟩
  · simp only [settle, down, ended, Nat.lt_irrefl, decide_false, Bool.false_eq_true, if_false]
    exact upFrom_orders laws (i + 1) isValid bound inside (Nat.lt_succ_self i) others bridged
  · simp only [settle, down, moved, decide_true, if_true]
    exact fun k positive insideK => restored k positive insideK (Nat.zero_le _) id

/-- `Fix` restores the order around a position whose element changed. -/
theorem fix_orders (laws : Laws heap valid) {state : σ} {i : Nat} (isValid : valid state)
    (inside : i < heap.len state)
    (ordered : OrderedBut heap 0 (heap.len state) state fun k => k = i ∨ parent k = i)
    (bridged : Bridged heap 0 (heap.len state) state i) : Ordered heap (fix heap i state) := by
  have length : heap.len (fix heap i state) = heap.len state :=
    (fix_keeps laws.len_swap laws.valid_swap inside isValid).2
  unfold Ordered
  rw [length]
  exact settle_orders laws isValid (Nat.le_refl _) inside ordered bridged

/-- Each round of `Init` orders one more position with what is below it. -/
theorem initFrom_orders (laws : Laws heap valid) (i : Nat) {state : σ} {n : Nat}
    (isValid : valid state) (bound : n ≤ heap.len state)
    (ordered : OrderedBut heap i n state fun _ => False) :
    OrderedTo heap n (initFrom heap n i state) := by
  induction i generalizing state with
  | zero => exact fun k positive inside => ordered k positive inside (Nat.zero_le _) id
  | succ i inductionHypothesis =>
    have loose : OrderedBut heap i n state fun k => k = i ∨ parent k = i :=
      fun k positive inside range neither => ordered k positive inside (by omega) id
    have bridged : Bridged heap i n state i := by
      intro positive range
      unfold parent at range
      omega
    have kept : valid (downFrom heap n n i state).1 ∧ _ :=
      downFrom_keeps laws.len_swap (laws.keptValid.below n) n bound isValid
    refine inductionHypothesis kept.1 (kept.2.symm ▸ bound) ?_
    rcases downFrom_orders laws n isValid bound (by omega) loose bridged with
      ⟨ended, others⟩ | ⟨moved, restored⟩
    · simp only [down, ended]
      refine fun k positive inside range _ => others k positive inside range ?_
      unfold parent at range
      omega
    · exact restored

/-- `Init` orders any collection as a heap, whatever its order was. -/
theorem init_orders (laws : Laws heap valid) {state : σ} (isValid : valid state) :
    Ordered heap (init heap state) := by
  unfold Ordered
  rw [(init_keeps laws.len_swap laws.valid_swap isValid).2]
  refine initFrom_orders laws _ isValid (Nat.le_refl _) ?_
  intro k positive inside range
  unfold parent at range
  omega

/-- `Push` keeps the order, as the new element moves up to its place. -/
theorem push_orders (laws : Laws heap valid) {state : σ} (isValid : valid state) (element : ε)
    (ordered : Ordered heap state) : Ordered heap (push heap element state) := by
  have grown := laws.len_push element state
  have isValidNext := laws.valid_push element state isValid
  have length := (push_keeps laws.len_swap laws.valid_swap (by omega) isValidNext).2
  unfold Ordered
  rw [length]
  refine upFrom_orders laws _ isValidNext (Nat.le_refl _) (by omega) (Nat.lt_succ_self _) ?_ ?_
  · intro k positive inside _ notLast
    have above : parent k < k := by
      unfold parent
      omega
    rw [laws.less_push element state k (parent k) isValid (by omega) (by omega)]
    exact ordered k positive (by omega)
  · intro _ _ k _ inside isChild
    unfold parent at isChild
    omega

/-- `Remove` keeps the order of the elements that remain. -/
theorem remove_orders (laws : Laws heap valid) {state : σ} (isValid : valid state) {i : Nat}
    (inside : i < heap.len state) (ordered : Ordered heap state) :
    Ordered heap (remove heap i state) := by
  -- the first positions are ordered before the last one is cut off
  have cut : ∀ before, valid before → heap.len before = heap.len state →
      OrderedTo heap (heap.len state - 1) before → Ordered heap (heap.pop before) := by
    intro before isValidBefore length orderedBefore k positive insideK
    rw [laws.len_pop, length] at insideK
    have above : parent k < k := by
      unfold parent
      omega
    rw [laws.less_pop before k (parent k) isValidBefore (by omega) (by omega)]
    exact orderedBefore k positive insideK
  simp only [remove]
  split
  · exact cut state isValid rfl fun k positive insideK => ordered k positive (by omega)
  · rename_i notLast
    have length := laws.len_swap i (heap.len state - 1) state
    have swapped := laws.less_swap i (heap.len state - 1) state inside (by omega) isValid
    have isValidNext := laws.valid_swap i (heap.len state - 1) state inside (by omega) isValid
    have settled := settle_keeps laws.len_swap (laws.keptValid.below _)
      (show i < heap.len state - 1 by omega) (by omega) isValidNext
    refine cut _ settled.1 (settled.2.trans length) ?_
    refine settle_orders laws isValidNext (by omega) (by omega) ?_ ?_
    · intro k positive insideK _ apart
      have above : parent k < k := by
        unfold parent
        omega
      rw [swapped, Equiv.swap_apply_of_ne_of_ne (by omega) (by omega),
        Equiv.swap_apply_of_ne_of_ne (by omega) (by omega)]
      exact ordered k positive (by omega)
    · intro positiveI _ k positive insideK isChild
      have above : parent i < i := by
        unfold parent
        omega
      have farther : i < k := by
        unfold parent at isChild
        omega
      rw [swapped, Equiv.swap_apply_of_ne_of_ne (by omega) (by omega),
        Equiv.swap_apply_of_ne_of_ne (by omega) (by omega)]
      have overK := ordered k positive (by omega)
      rw [isChild] at overK
      exact laws.not_less_trans isValid overK (ordered i positiveI (by omega))

end Order

end Hcexplorer.Heap
