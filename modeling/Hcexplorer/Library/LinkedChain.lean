import Mathlib.Data.List.Chain

/-!
# Hash-linked chains

A chain is a list of blocks, oldest first. A block names its parent by hash and
carries its height. A list is linked when each block names the one before it and
stands one higher; it is rooted when it is linked, nonempty and starts at height
zero. In a rooted chain the position of a block is its height, so cutting a chain
at a block and continuing with another linked branch is again a rooted chain.

Blocks and hashes are arbitrary types; no property of the hash function is used.
-/

namespace Hcexplorer.LinkedChain

universe u v

/-- How a block type is read: its own hash, its parent's hash and its height. -/
structure View (β : Type u) (ι : Type v) where
  hash : β → ι
  parent : β → ι
  height : β → Int

variable {β : Type u} {ι : Type v}

namespace View

/-- The second block names the first as its parent and is one higher. -/
def Child (view : View β ι) (before after : β) : Prop :=
  view.parent after = view.hash before ∧ view.height after = view.height before + 1

/-- Every block is the child of the block before it. -/
def Linked (view : View β ι) (chain : List β) : Prop := chain.IsChain view.Child

/-- A linked chain from a block of height zero. -/
structure Rooted (view : View β ι) (chain : List β) : Prop where
  nonempty : chain ≠ []
  genesis : ∀ first ∈ chain.head?, view.height first = 0
  linked : view.Linked chain

variable {view : View β ι}

/-- Extending a linked chain by a child of its last block keeps it linked. -/
theorem linked_concat {chain : List β} {block : β} (linked : view.Linked chain)
    (child : ∀ tip ∈ chain.getLast?, view.Child tip block) : view.Linked (chain ++ [block]) := by
  refine List.isChain_append.mpr ⟨linked, List.isChain_singleton _, ?_⟩
  intro tip atEnd first atStart
  have same : block = first := by simpa using atStart
  exact same ▸ child tip atEnd

/-- A branch whose first block is the child of a chain's last block continues it. -/
theorem linked_append {chain branch : List β} (linked : view.Linked chain)
    (continued : view.Linked branch)
    (joint : ∀ tip ∈ chain.getLast?, ∀ first ∈ branch.head?, view.Child tip first) :
    view.Linked (chain ++ branch) :=
  List.isChain_append.mpr ⟨linked, continued, joint⟩

/-- Heights grow by one along a linked chain, so that a block's height is its position above the
first one's. -/
theorem linked_height {chain : List β} (linked : view.Linked chain) (first : β)
    (atStart : chain.head? = some first) (position : Nat) (block : β)
    (found : chain[position]? = some block) : view.height block = view.height first + position := by
  induction position generalizing block with
  | zero =>
    rw [← List.head?_eq_getElem?, atStart] at found
    simp [Option.some.inj found]
  | succ position inductionHypothesis =>
    obtain ⟨inside, here⟩ := List.getElem?_eq_some_iff.mp found
    have before : view.height chain[position] = view.height first + position :=
      inductionHypothesis _ (List.getElem?_eq_getElem (by omega))
    have link : view.Child chain[position] chain[position + 1] :=
      List.isChain_iff_getElem.mp linked position inside
    rw [← here, link.2, before]
    push_cast
    omega

namespace Rooted

/-- In a rooted chain the position of a block is its height. -/
theorem height_eq {chain : List β} (rooted : view.Rooted chain) {position : Nat} {block : β}
    (found : chain[position]? = some block) : view.height block = position := by
  obtain ⟨first, rest, rfl⟩ := List.exists_cons_of_ne_nil rooted.nonempty
  have exactHeight := linked_height rooted.linked first rfl position block found
  rw [exactHeight, rooted.genesis first rfl]
  omega

/-- The height of a rooted chain's last block is one below its length. -/
theorem tip_height {chain : List β} (rooted : view.Rooted chain) {tip : β}
    (atEnd : chain.getLast? = some tip) : view.height tip = chain.length - 1 := by
  have positive : 0 < chain.length := List.length_pos_of_ne_nil rooted.nonempty
  have exactHeight := rooted.height_eq (List.getLast?_eq_getElem? ▸ atEnd)
  rw [exactHeight]
  omega

/-- A rooted chain has a last block, since it is not empty. -/
theorem exists_tip {chain : List β} (rooted : view.Rooted chain) :
    ∃ tip, chain.getLast? = some tip :=
  ⟨_, List.getLast?_eq_some_getLast rooted.nonempty⟩

/-- A child of the last block extends a rooted chain. -/
theorem concat {chain : List β} (rooted : view.Rooted chain) {block : β}
    (child : ∀ tip ∈ chain.getLast?, view.Child tip block) : view.Rooted (chain ++ [block]) where
  nonempty := by simp
  genesis := by
    obtain ⟨first, rest, rfl⟩ := List.exists_cons_of_ne_nil rooted.nonempty
    simpa using rooted.genesis
  linked := linked_concat rooted.linked child

/-- Cutting above the genesis block leaves a rooted chain. -/
theorem take {chain : List β} (rooted : view.Rooted chain) (count : Nat) (positive : 0 < count) :
    view.Rooted (chain.take count) where
  nonempty := by
    obtain ⟨first, rest, rfl⟩ := List.exists_cons_of_ne_nil rooted.nonempty
    obtain ⟨below, rfl⟩ := Nat.exists_eq_succ_of_ne_zero positive.ne'
    simp
  genesis := by
    obtain ⟨first, rest, rfl⟩ := List.exists_cons_of_ne_nil rooted.nonempty
    obtain ⟨below, rfl⟩ := Nat.exists_eq_succ_of_ne_zero positive.ne'
    simpa using rooted.genesis
  linked := List.IsChain.take rooted.linked count

/-- A reorganization: keep the chain up to a block, continue with a linked
branch whose first block is that block's child. -/
theorem reorganize {chain branch : List β} (rooted : view.Rooted chain) {position : Nat} {fork : β}
    (found : chain[position]? = some fork) (linked : view.Linked branch)
    (joint : ∀ first ∈ branch.head?, view.Child fork first) :
    view.Rooted (chain.take (position + 1) ++ branch) := by
  have kept : view.Rooted (chain.take (position + 1)) := rooted.take _ (Nat.succ_pos position)
  obtain ⟨inside, here⟩ := List.getElem?_eq_some_iff.mp found
  have last : (chain.take (position + 1)).getLast? = some fork := by
    rw [List.getLast?_eq_getElem?, List.length_take, Nat.min_eq_left inside,
      Nat.succ_sub_one, List.getElem?_take_of_lt (Nat.lt_succ_self position), found]
  refine ⟨by simp [kept.nonempty], ?_, ?_⟩
  · obtain ⟨first, rest, same⟩ := List.exists_cons_of_ne_nil kept.nonempty
    have genesis := kept.genesis
    rw [same] at genesis ⊢
    simpa using genesis
  · refine linked_append kept.linked linked ?_
    intro tip atEnd first atStart
    have same : fork = tip := Option.some.inj (last.symm.trans atEnd)
    exact same ▸ joint first atStart

end Rooted

end View

end Hcexplorer.LinkedChain
