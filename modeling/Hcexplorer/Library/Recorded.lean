import Mathlib.Data.List.Basic
import Mathlib.Logic.Function.Basic

/-!
# Maps of lists

A map that has a list for each key is often filled by nested loops, which append one value
under one key at a time. What such loops leave is the map of the pairs that they append, in
their order, so a loop is known by the pairs of each of its turns.

Keys and values are arbitrary.
-/

namespace Hcexplorer.Recorded

universe u v w
variable {α : Type u} {κ : Type v} {β : Type w} [DecidableEq κ]

/-- Append a value to the list of a key. -/
def append (key : κ) (value : β) (map : κ → Option (List β)) : κ → Option (List β) :=
  Function.update map key (some ((map key).getD [] ++ [value]))

/-- The values that pairs have under a key, in the order of the pairs. -/
def valuesAt (pairs : List (κ × β)) (key : κ) : List β :=
  (pairs.filter fun pair => pair.1 = key).map Prod.snd

/-- The map of some pairs: no entry for a key that none of them has. -/
def recorded (pairs : List (κ × β)) (key : κ) : Option (List β) :=
  if valuesAt pairs key = [] then none else some (valuesAt pairs key)

variable {pairs : List (κ × β)} {key : κ} {value : β}

/-- The values under a key are those that are paired with it. -/
theorem mem_valuesAt : value ∈ valuesAt pairs key ↔ (key, value) ∈ pairs := by
  simp only [valuesAt, List.mem_map, List.mem_filter, decide_eq_true_eq]
  constructor
  · rintro ⟨⟨other, same⟩, ⟨member, rfl⟩, rfl⟩
    exact member
  · intro member
    exact ⟨(key, value), ⟨member, rfl⟩, rfl⟩

/-- Of no pairs nothing is recorded, under any key. -/
theorem recorded_nil : (recorded [] : κ → Option (List β)) = fun _ => none := rfl

/-- A key has an entry exactly when it is in a pair. -/
theorem recorded_isSome : (recorded pairs key).isSome = true ↔ ∃ value, (key, value) ∈ pairs := by
  by_cases nothing : valuesAt pairs key = []
  · rw [recorded, if_pos nothing]
    refine iff_of_false Bool.false_ne_true ?_
    rintro ⟨value, member⟩
    rw [← mem_valuesAt, nothing] at member
    cases member
  · rw [recorded, if_neg nothing]
    obtain ⟨value, member⟩ := List.exists_mem_of_ne_nil _ nothing
    exact iff_of_true rfl ⟨value, mem_valuesAt.mp member⟩

/-- The entry of a key lists the values that are paired with the key. -/
theorem mem_of_recorded {values : List β} (found : recorded pairs key = some values) :
    value ∈ values ↔ (key, value) ∈ pairs := by
  by_cases nothing : valuesAt pairs key = []
  · rw [recorded, if_pos nothing] at found
    cases found
  · rw [recorded, if_neg nothing] at found
    obtain rfl := Option.some.inj found
    exact mem_valuesAt

/-- One more pair appends its value to the entry of its key. -/
theorem append_recorded (pairs : List (κ × β)) (key : κ) (value : β) :
    append key value (recorded pairs) = recorded (pairs ++ [(key, value)]) := by
  funext other
  have values : valuesAt (pairs ++ [(key, value)]) other =
      valuesAt pairs other ++ if key = other then [value] else [] := by
    by_cases same : key = other <;> simp [valuesAt, same]
  by_cases same : other = key
  · subst same
    have listed : (recorded pairs other).getD [] = valuesAt pairs other := by
      by_cases nothing : valuesAt pairs other = []
      · rw [recorded, if_pos nothing, nothing]
        rfl
      · rw [recorded, if_neg nothing]
        rfl
    rw [append, Function.update_self, listed, recorded, values, if_pos rfl, if_neg (by simp)]
  · rw [append, Function.update_of_ne same, recorded, recorded, values, if_neg (Ne.symm same),
      List.append_nil]

/-- A loop whose turns record pairs records them one after another. -/
theorem foldl_recorded {turn : (κ → Option (List β)) → α → κ → Option (List β)}
    {pairsOf : α → List (κ × β)}
    (records : ∀ pairs x, turn (recorded pairs) x = recorded (pairs ++ pairsOf x)) (xs : List α)
    (pairs : List (κ × β)) :
    xs.foldl turn (recorded pairs) = recorded (pairs ++ xs.flatMap pairsOf) := by
  induction xs generalizing pairs with
  | nil => rw [List.flatMap_nil, List.append_nil, List.foldl_nil]
  | cons x rest inductionHypothesis =>
    rw [List.foldl_cons, records, inductionHypothesis, List.flatMap_cons, List.append_assoc]

end Hcexplorer.Recorded
