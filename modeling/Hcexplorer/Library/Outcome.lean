import Mathlib.Logic.Basic

/-!
# How a call ends

A call returns, or it waits for ever (on a lock that its holder will not give
back), or it panics. Only the first leaves a result, so a chain of calls returns
exactly when each of them does. An index or a range outside of a slice panics.
-/

namespace Hcexplorer

universe u v

/-- The end of one call: a result, a wait that nothing ends, or a panic. -/
inductive Outcome (α : Type u) where
  | returned (result : α)
  | blocked
  | panicked
deriving DecidableEq, Repr

namespace Outcome

variable {α : Type u} {β : Type v}

/-- Continue a call with its result, if there is one. -/
def bind : Outcome α → (α → Outcome β) → Outcome β
  | .returned result, continuation => continuation result
  | .blocked, _ => .blocked
  | .panicked, _ => .panicked

/-- The result of a call that returned, none for any other end. -/
def result? : Outcome α → Option α
  | .returned result => some result
  | .blocked => none
  | .panicked => none

/-- A call that returned is continued with its result. -/
@[simp] theorem bind_returned (result : α) (continuation : α → Outcome β) :
    bind (.returned result) continuation = continuation result := rfl

/-- A continued call returned exactly when both halves did. -/
theorem bind_eq_returned {outcome : Outcome α} {continuation : α → Outcome β} {final : β} :
    outcome.bind continuation = .returned final ↔
      ∃ result, outcome = .returned result ∧ continuation result = .returned final := by
  cases outcome <;> simp [bind]

/-- A call has a result exactly when it returned it. -/
@[simp] theorem result?_eq_some {outcome : Outcome α} {result : α} :
    outcome.result? = some result ↔ outcome = .returned result := by
  cases outcome <;> simp [result?]

end Outcome

/-! ## Slices -/

/-- The expression `xs[i]`, which panics where the index is out of range. -/
def indexed {α : Type u} (xs : List α) (i : Int) : Outcome α :=
  match xs[i.toNat]? with
  | some x => if 0 ≤ i then .returned x else .panicked
  | none => .panicked

/-- The expression `xs[low:high]`, which panics where the bounds are not in order or out of
range. -/
def sliced {α : Type u} (xs : List α) (low high : Int) : Outcome (List α) :=
  if 0 ≤ low ∧ low ≤ high ∧ high ≤ xs.length then .returned ((xs.take high.toNat).drop low.toNat)
  else .panicked

variable {α : Type u}

/-- An index in the range of a list returns the element there. -/
theorem indexed_returned {xs : List α} {i : Nat} {x : α} (found : xs[i]? = some x) :
    indexed xs i = .returned x := by
  have low : (0 : Int) ≤ i := Int.natCast_nonneg i
  rw [indexed, Int.toNat_natCast, found]
  exact if_pos low

/-- An index returns an element exactly when the list has it there. -/
theorem indexed_eq_returned {xs : List α} {i : Nat} {x : α} :
    indexed xs i = .returned x ↔ xs[i]? = some x := by
  refine ⟨fun returned => ?_, indexed_returned⟩
  cases found : xs[i]? with
  | none =>
    rw [indexed, Int.toNat_natCast, found] at returned
    cases returned
  | some y =>
    rw [indexed_returned found] at returned
    rw [Outcome.returned.inj returned]

/-- A negative index is in no range, so it panics. -/
theorem indexed_negative (xs : List α) {i : Int} (negative : i < 0) : indexed xs i = .panicked := by
  rw [indexed]
  cases xs[i.toNat]? with
  | none => rfl
  | some x => exact if_neg (by omega)

/-- A slice of a list within its range returns the elements between the bounds. -/
theorem sliced_returned {xs : List α} {low high : Nat} (ordered : low ≤ high) (inside : high ≤ xs.length) :
    sliced xs low high = .returned ((xs.take high).drop low) := by
  rw [sliced, if_pos ⟨by omega, by omega, by omega⟩, Int.toNat_natCast, Int.toNat_natCast]

end Hcexplorer
