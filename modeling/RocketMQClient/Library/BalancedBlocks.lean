import Mathlib.Data.List.Nodup
import Mathlib.Order.Nat
import Mathlib.Order.Basic

/-!
# Balanced blocks

A list cut into `parts` consecutive blocks whose lengths differ by at most one, the longer blocks
first. `blockStart` is the position at which a block begins and `blockSize` its length. The blocks
in order are the list (`flatten_blocks`), so every item is in one block (`exists_mem_block`) and in
no other when the list has no duplicates (`block_disjoint`).
-/

set_option autoImplicit false
set_option relaxedAutoImplicit false

namespace RocketMQClient.Library

/-- The position at which a block begins. -/
def blockStart (total parts index : ℕ) : ℕ :=
  index * (total / parts) + min index (total % parts)

/-- The length of a block. -/
def blockSize (total parts index : ℕ) : ℕ :=
  total / parts + if index < total % parts then 1 else 0

theorem blockStart_zero (total parts : ℕ) : blockStart total parts 0 = 0 := by
  simp [blockStart]

/-- A block begins where the block before it ends. -/
theorem blockStart_succ (total parts index : ℕ) :
    blockStart total parts (index + 1) =
      blockStart total parts index + blockSize total parts index := by
  unfold blockStart blockSize
  rw [Nat.succ_mul]
  split_ifs with hlonger
  · rw [Nat.min_eq_left hlonger, Nat.min_eq_left hlonger.le]
    omega
  · rw [Nat.min_eq_right (by omega), Nat.min_eq_right (by omega)]
    omega

/-- The last block ends at the end of the list. -/
theorem blockStart_parts {total parts : ℕ} (hparts : 0 < parts) :
    blockStart total parts parts = total := by
  unfold blockStart
  rw [Nat.min_eq_right (Nat.mod_lt total hparts).le]
  exact Nat.div_add_mod total parts

/-- The lengths of two blocks differ by at most one. -/
theorem blockSize_le (total parts first second : ℕ) :
    blockSize total parts first ≤ blockSize total parts second + 1 := by
  unfold blockSize
  split_ifs <;> omega

/-- The beginning of a block is at most that of a later one. -/
theorem blockStart_mono (total parts : ℕ) {first second : ℕ} (hle : first ≤ second) :
    blockStart total parts first ≤ blockStart total parts second := by
  induction second, hle using Nat.le_induction with
  | base => exact le_refl _
  | succ second _ ih =>
    rw [blockStart_succ]
    omega

/-- A block lies inside the list. -/
theorem blockStart_add_blockSize_le {total parts index : ℕ} (hindex : index < parts) :
    blockStart total parts index + blockSize total parts index ≤ total := by
  rw [← blockStart_succ]
  calc blockStart total parts (index + 1)
      ≤ blockStart total parts parts := blockStart_mono total parts hindex
    _ = total := blockStart_parts (Nat.zero_lt_of_lt hindex)

section Lists

variable {α : Type*}

/-- One block of a list. -/
def block (items : List α) (parts index : ℕ) : List α :=
  (items.drop (blockStart items.length parts index)).take (blockSize items.length parts index)

theorem block_isInfix (items : List α) (parts index : ℕ) : block items parts index <:+: items :=
  (List.take_prefix _ _).isInfix.trans (List.drop_suffix _ _).isInfix

theorem length_block {items : List α} {parts index : ℕ} (hindex : index < parts) :
    (block items parts index).length = blockSize items.length parts index := by
  have hfits := @blockStart_add_blockSize_le items.length parts index hindex
  rw [block, List.length_take, List.length_drop]
  omega

/-- The first blocks in order are the items before the next block. -/
theorem flatten_blocks (items : List α) (parts count : ℕ) :
    ((List.range count).map (block items parts)).flatten =
      items.take (blockStart items.length parts count) := by
  induction count with
  | zero => simp [blockStart_zero]
  | succ count ih =>
    rw [List.range_succ, List.map_append, List.flatten_append, ih, blockStart_succ, List.take_add]
    simp [block]

/-- All blocks in order are the list. -/
theorem flatten_all_blocks (items : List α) {parts : ℕ} (hparts : 0 < parts) :
    ((List.range parts).map (block items parts)).flatten = items := by
  rw [flatten_blocks, blockStart_parts hparts, List.take_length]

/-- Every item is in a block. -/
theorem exists_mem_block {items : List α} {parts : ℕ} (hparts : 0 < parts) {item : α}
    (hitem : item ∈ items) : ∃ index < parts, item ∈ block items parts index := by
  rw [← flatten_all_blocks items hparts, List.mem_flatten] at hitem
  obtain ⟨_, hblock, hmem⟩ := hitem
  obtain ⟨index, hindex, rfl⟩ := List.mem_map.mp hblock
  exact ⟨index, List.mem_range.mp hindex, hmem⟩

/-- Assumes: a list without duplicates. Different blocks have no item in common. -/
theorem block_disjoint {items : List α} (hnodup : items.Nodup) {parts first second : ℕ}
    (hfirst : first < parts) (hsecond : second < parts) (hne : first ≠ second) :
    (block items parts first).Disjoint (block items parts second) := by
  rw [← flatten_all_blocks items (Nat.zero_lt_of_lt hfirst), List.nodup_flatten] at hnodup
  have hpairwise := List.pairwise_map.mp hnodup.2
  have hordered : ∀ smaller larger, smaller < larger → larger < parts →
      (block items parts smaller).Disjoint (block items parts larger) := by
    intro smaller larger hlt hlarger
    have hget := List.pairwise_iff_getElem.mp hpairwise smaller larger
      (by simpa using hlt.trans hlarger) (by simpa using hlarger) hlt
    simpa using hget
  rcases Nat.lt_or_gt_of_ne hne with hlt | hgt
  · exact hordered first second hlt hsecond
  · exact fun item hitem hother ↦ hordered second first hgt hfirst hother hitem

end Lists

end RocketMQClient.Library
