import Hcexplorer.Wire

/-!
# Hexadecimal texts of hashes

`chainhash` is not part of this repository, and the laws take it as a parameter. Here is one that
does what is documented: a hash is written as its 64 hexadecimal digits, and up to that many
digits are read. What is written is read back.
-/

namespace Hcexplorer.Chainhash

section Model

/-- The 64 hexadecimal digits of a hash, the highest one first. -/
def hexDigits (hash : Hash) : List Char :=
  (List.range 64).map fun place => Nat.digitChar (hash.toNat / 16 ^ (63 - place) % 16)

/-- The value of a hexadecimal digit, in lower or upper case. -/
def hexValue (c : Char) : Option Nat :=
  if '0' ≤ c ∧ c ≤ '9' then some (c.toNat - 48)
  else if 'a' ≤ c ∧ c ≤ 'f' then some (c.toNat - 87)
  else if 'A' ≤ c ∧ c ≤ 'F' then some (c.toNat - 55)
  else none

/-- The hash that digits are of. A text with fewer digits than 64 is that of a small number. -/
def ofHexDigits (text : List Char) : Option Hash :=
  if 64 < text.length then none
  else (text.mapM hexValue).map fun digits =>
    BitVec.ofNat 256 (digits.foldl (fun value digit => 16 * value + digit) 0)

/-- Hashes in hexadecimal digits: a package that behaves as `chainhash` documents, for samples. -/
def hexadecimal : Chainhash where
  string hash := String.ofList (hexDigits hash)
  newHashFromStr hash := ofHexDigits hash.toList

end Model

/-- A digit that is written for a number below sixteen is read as that number. -/
theorem hexValue_digitChar {digit : Nat} (small : digit < 16) :
    hexValue (Nat.digitChar digit) = some digit := by
  have all : ∀ digit : Fin 16, hexValue (Nat.digitChar digit) = some digit.val := by decide
  exact all ⟨digit, small⟩

/-- Digits in a row are read as the numbers they are written for, one by one. -/
theorem mapM_hexValue {digits : List Nat} (small : ∀ digit ∈ digits, digit < 16) :
    (digits.map Nat.digitChar).mapM hexValue = some digits := by
  induction digits with
  | nil => rfl
  | cons digit rest inductionHypothesis =>
    have restRead := inductionHypothesis fun other member => small other (List.mem_cons_of_mem _ member)
    rw [List.map_cons, List.mapM_cons, hexValue_digitChar (small digit List.mem_cons_self), restRead]
    rfl

/-- The first digits of a number are the number without the others. -/
theorem foldl_digits (n width : Nat) (bounded : n < 16 ^ width) {count : Nat} (within : count ≤ width) :
    ((List.range count).map fun place => n / 16 ^ (width - 1 - place) % 16).foldl
      (fun value digit => 16 * value + digit) 0 = n / 16 ^ (width - count) := by
  induction count with
  | zero => exact (Nat.div_eq_of_lt bounded).symm
  | succ count inductionHypothesis =>
    have next : width - count = width - 1 - count + 1 := by omega
    have last : width - (count + 1) = width - 1 - count := by omega
    rw [List.range_succ, List.map_append, List.foldl_append, inductionHypothesis (by omega), next, last,
      Nat.pow_succ, ← Nat.div_div_eq_div_mul]
    simp only [List.map_cons, List.map_nil, List.foldl_cons, List.foldl_nil]
    omega

/-- The digits that are written are read as the hash. -/
theorem ofHexDigits_hexDigits (hash : Hash) : ofHexDigits (hexDigits hash) = some hash := by
  have bounded : hash.toNat < 16 ^ 64 := lt_of_lt_of_eq hash.isLt (by decide)
  have digits : hexDigits hash =
      ((List.range 64).map fun place => hash.toNat / 16 ^ (64 - 1 - place) % 16).map Nat.digitChar := by
    rw [List.map_map]
    rfl
  have short : ¬ 64 < (hexDigits hash).length := by
    rw [hexDigits, List.length_map, List.length_range]
    omega
  have small : ∀ digit ∈ (List.range 64).map fun place => hash.toNat / 16 ^ (64 - 1 - place) % 16,
      digit < 16 := by
    intro digit member
    obtain ⟨place, -, rfl⟩ := List.mem_map.mp member
    exact Nat.mod_lt _ (by decide)
  rw [ofHexDigits, if_neg short, digits, mapM_hexValue small, Option.map_some,
    foldl_digits hash.toNat 64 bounded le_rfl, Nat.sub_self, Nat.pow_zero, Nat.div_one,
    BitVec.ofNat_toNat, BitVec.setWidth_eq]

/-- Hexadecimal digits are what is documented: 64 of them for each hash, and the hash is read
back from them. -/
theorem hexadecimal_documented : hexadecimal.Documented where
  length hash := by
    simp only [hashString, hexadecimal, String.toList_ofList, hexDigits, List.length_map,
      List.length_range]
  digits hash c member := by
    simp only [hashString, hexadecimal, String.toList_ofList] at member
    obtain ⟨place, -, rfl⟩ := List.mem_map.mp member
    have all : ∀ digit : Fin 16, Nat.digitChar digit ∈ "0123456789abcdef".toList := by decide
    exact all ⟨hash.toNat / 16 ^ (63 - place) % 16, Nat.mod_lt _ (by decide)⟩
  read hash := by
    simp only [hexadecimal, String.toList_ofList, ofHexDigits_hexDigits]

end Hcexplorer.Chainhash
