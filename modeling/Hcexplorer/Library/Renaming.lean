import Mathlib.Logic.Equiv.Basic
import Mathlib.Data.List.Nodup

/-!
# Permutations that move one list of names to another

Two runs of a system that draws fresh names differ in the names that they drew.
Their results are compared up to a permutation of names. Such a permutation is
built as the runs go on: when both draw as many names, none of them used before,
it is changed so that the names drawn by the one run become those drawn by the
other, and names that are in use keep their image.

Names are of an arbitrary type with decidable equality.
-/

namespace Hcexplorer.Renaming

universe u

variable {α : Type u} [DecidableEq α]

/-- Some permutation moves a list of different names to another of the same length,
and nothing else.

Induction on the lists: the permutation for the rest is followed by the swap that
puts the image of the first name right. No name of the rest is moved by the swap. -/
theorem exists_perm {source target : List α} (sourceDistinct : source.Nodup)
    (targetDistinct : target.Nodup) (length : source.length = target.length) :
    ∃ perm : Equiv.Perm α, source.map perm = target ∧
      ∀ name, name ∉ source → name ∉ target → perm name = name := by
  induction source generalizing target with
  | nil =>
    cases target with
    | nil => exact ⟨Equiv.refl α, rfl, fun _ _ _ => rfl⟩
    | cons => cases length
  | cons old rest inductionHypothesis =>
    cases target with
    | nil => cases length
    | cons new others =>
      obtain ⟨oldAbsent, restDistinct⟩ := List.nodup_cons.mp sourceDistinct
      obtain ⟨newAbsent, othersDistinct⟩ := List.nodup_cons.mp targetDistinct
      obtain ⟨perm, moved, kept⟩ :=
        inductionHypothesis restDistinct othersDistinct (Nat.succ.inj length)
      refine ⟨perm.trans (Equiv.swap (perm old) new), ?_, ?_⟩
      · rw [List.map_cons]
        congr 1
        · exact Equiv.swap_apply_left _ _
        · rw [← moved]
          apply List.map_congr_left
          intro name member
          have image : perm name ∈ others := moved ▸ List.mem_map_of_mem member
          apply Equiv.swap_apply_of_ne_of_ne
          · intro same
            exact oldAbsent (perm.injective same ▸ member)
          · rintro same
            exact newAbsent (same ▸ image)
      · intro name outsideSource outsideTarget
        rw [List.mem_cons, not_or] at outsideSource outsideTarget
        have fixed := kept name outsideSource.2 outsideTarget.2
        show Equiv.swap (perm old) new (perm name) = name
        rw [fixed]
        apply Equiv.swap_apply_of_ne_of_ne
        · intro same
          exact outsideSource.1 (perm.injective (fixed.trans same))
        · exact outsideTarget.1

/-- A permutation is changed to move fresh names to fresh names. A name that is not
drawn, and whose image is not drawn, keeps its image. -/
theorem extend_perm (perm : Equiv.Perm α) {source target : List α} (sourceDistinct : source.Nodup)
    (targetDistinct : target.Nodup) (length : source.length = target.length) :
    ∃ extended : Equiv.Perm α, source.map extended = target ∧
      ∀ name, name ∉ source → perm name ∉ target → extended name = perm name := by
  obtain ⟨correction, moved, kept⟩ := exists_perm (sourceDistinct.map perm.injective)
    targetDistinct ((List.length_map perm).trans length)
  refine ⟨perm.trans correction, ?_, ?_⟩
  · rw [← moved, List.map_map]
    rfl
  · intro name outsideSource outsideTarget
    apply kept (perm name) _ outsideTarget
    intro member
    obtain ⟨drawn, listed, same⟩ := List.mem_map.mp member
    exact outsideSource (perm.injective same ▸ listed)

end Hcexplorer.Renaming
