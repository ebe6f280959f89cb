import Mathlib.Data.List.Sort
import Mathlib.Order.Basic

/-!
# Sorting by a key

Lists of records are sorted by one of their fields, which differs between any two of them. The order
of such a list is then strict, and the sorted list depends only on which records there are: two
lists have the same one exactly when they are permutations of each other.
-/

set_option autoImplicit false
set_option relaxedAutoImplicit false

namespace RocketMQClient.Library

variable {α K : Type*} [LinearOrder K] {keyOf : α → K}

/-- The stable sort of a list by a key. -/
def sortByKey (keyOf : α → K) (values : List α) : List α :=
  values.insertionSort fun first second ↦ keyOf first ≤ keyOf second

theorem sortByKey_perm (keyOf : α → K) (values : List α) :
    (sortByKey keyOf values).Perm values :=
  List.perm_insertionSort _ values

theorem pairwise_sortByKey (keyOf : α → K) (values : List α) :
    (sortByKey keyOf values).Pairwise fun first second ↦ keyOf first ≤ keyOf second := by
  have htotal : Std.Total fun first second : α ↦ keyOf first ≤ keyOf second :=
    ⟨fun first second ↦ le_total (keyOf first) (keyOf second)⟩
  have htrans : IsTrans α fun first second ↦ keyOf first ≤ keyOf second :=
    ⟨fun _ _ _ ↦ le_trans⟩
  exact List.pairwise_insertionSort _ values

/-- A list of records with distinct keys is sorted strictly. -/
theorem pairwise_lt_sortByKey {values : List α} (hdistinct : (values.map keyOf).Nodup) :
    (sortByKey keyOf values).Pairwise fun first second ↦ keyOf first < keyOf second := by
  have hnodup : ((sortByKey keyOf values).map keyOf).Nodup :=
    ((sortByKey_perm keyOf values).map keyOf).nodup_iff.mpr hdistinct
  exact ((pairwise_sortByKey keyOf values).and (List.pairwise_map.mp hnodup)).imp
    fun hboth ↦ lt_of_le_of_ne hboth.1 hboth.2

/-- Sorted lists of records with distinct keys are the same exactly when they have the same
records. -/
theorem sortByKey_eq_iff {first second : List α} (hdistinct : (first.map keyOf).Nodup) :
    sortByKey keyOf first = sortByKey keyOf second ↔ first.Perm second := by
  constructor
  · intro hsame
    exact (sortByKey_perm keyOf first).symm.trans (hsame ▸ sortByKey_perm keyOf second)
  · intro hperm
    refine List.Perm.eq_of_pairwise ?_ (pairwise_sortByKey keyOf first)
      (pairwise_sortByKey keyOf second)
      ((sortByKey_perm keyOf first).trans (hperm.trans (sortByKey_perm keyOf second).symm))
    intro value other hvalue hother hle hge
    have hmem := (sortByKey_perm keyOf first).mem_iff.mp hvalue
    have hotherMem := hperm.mem_iff.mpr ((sortByKey_perm keyOf second).mem_iff.mp hother)
    exact List.inj_on_of_nodup_map hdistinct hmem hotherMem (le_antisymm hle hge)

omit [LinearOrder K] in
/-- Among records with distinct keys the first one with a key is the only one. -/
theorem find?_key_eq_some_iff [DecidableEq K] {values : List α}
    (hdistinct : (values.map keyOf).Nodup) {key : K} {value : α} :
    (values.find? fun other ↦ keyOf other = key) = some value ↔
      value ∈ values ∧ keyOf value = key := by
  constructor
  · intro hfind
    exact ⟨List.mem_of_find?_eq_some hfind, by simpa using List.find?_some hfind⟩
  · rintro ⟨hmem, rfl⟩
    cases hfind : values.find? fun other ↦ keyOf other = keyOf value with
    | none => exact absurd (List.find?_eq_none.mp hfind value hmem) (by simp)
    | some found =>
      have hkey : keyOf found = keyOf value := by simpa using List.find?_some hfind
      rw [List.inj_on_of_nodup_map hdistinct (List.mem_of_find?_eq_some hfind) hmem hkey]

end RocketMQClient.Library
