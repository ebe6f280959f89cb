import RocketMQClient.Library.OrderedMap

/-!
# Insertion and sets

`OrderedMap.insert` adds an entry under a new key and leaves an entry that is present, and
`insertAll` does so for one value after another under a key of its own. A set is a map whose values
say nothing: `OrderedSet` is the set container of the C++ standard library, and `toList` its
elements in the order of iteration.
-/

set_option autoImplicit false
set_option relaxedAutoImplicit false

namespace RocketMQClient.Library

namespace OrderedMap

variable {K V : Type*} [LinearOrder K]

/-- Adds an entry, unless its key is present. -/
def insert (map : OrderedMap K V) (key : K) (value : V) : OrderedMap K V :=
  if key ∈ map then map else map.assign key value

/-- The loop that inserts each value under its own key. -/
def insertAll (keyOf : V → K) (map : OrderedMap K V) (added : List V) : OrderedMap K V :=
  added.foldl (fun current value ↦ current.insert (keyOf value) value) map

@[simp] theorem mem_insert {map : OrderedMap K V} {key other : K} {value : V} :
    other ∈ map.insert key value ↔ other = key ∨ other ∈ map := by
  unfold insert
  split_ifs with hkey
  · refine ⟨Or.inr, ?_⟩
    rintro (rfl | hother)
    · exact hkey
    · exact hother
  · exact mem_assign

theorem mem_insertAll {keyOf : V → K} {map : OrderedMap K V} {added : List V} {key : K} :
    key ∈ map.insertAll keyOf added ↔ key ∈ map ∨ ∃ value ∈ added, keyOf value = key := by
  induction added generalizing map with
  | nil => simp [insertAll]
  | cons value rest ih =>
    have hstep := @ih (map.insert (keyOf value) value)
    rw [mem_insert] at hstep
    rw [insertAll, List.foldl_cons, ← insertAll, hstep, List.exists_mem_cons_iff]
    tauto

/-- Each value stands under its own key. -/
def Keyed (keyOf : V → K) (map : OrderedMap K V) : Prop :=
  ∀ entry ∈ map.entries, keyOf entry.2 = entry.1

theorem keyed_empty (keyOf : V → K) : Keyed keyOf (empty : OrderedMap K V) :=
  fun _ hentry ↦ absurd hentry List.not_mem_nil

theorem Keyed.insert {keyOf : V → K} {map : OrderedMap K V} (hkeyed : Keyed keyOf map)
    (value : V) : Keyed keyOf (map.insert (keyOf value) value) := by
  intro entry hentry
  unfold OrderedMap.insert at hentry
  split_ifs at hentry
  · exact hkeyed entry hentry
  · rcases mem_entries_assign.mp hentry with rfl | ⟨hentry, -⟩
    · rfl
    · exact hkeyed entry hentry

theorem Keyed.insertAll {keyOf : V → K} {map : OrderedMap K V} (hkeyed : Keyed keyOf map)
    (added : List V) : Keyed keyOf (map.insertAll keyOf added) := by
  induction added generalizing map with
  | nil => exact hkeyed
  | cons value rest ih => exact ih (hkeyed.insert value)

/-- The keys of the values are the keys of the map. -/
theorem Keyed.map_values {keyOf : V → K} {map : OrderedMap K V} (hkeyed : Keyed keyOf map) :
    map.values.map keyOf = map.keys := by
  rw [values, keys, List.map_map]
  exact List.map_congr_left hkeyed

end OrderedMap

/-- A set whose elements are kept in increasing order. -/
abbrev OrderedSet (K : Type*) [LinearOrder K] := OrderedMap K Unit

namespace OrderedSet

variable {K : Type*} [LinearOrder K]

/-- The elements in the order of iteration. -/
def toList (set : OrderedSet K) : List K := set.keys

/-- The set without elements. -/
def empty : OrderedSet K := OrderedMap.empty

/-- The set with one more element. -/
def insert (set : OrderedSet K) (element : K) : OrderedSet K := OrderedMap.insert set element ()

/-- The loop that inserts one element after another. -/
def insertAll (set : OrderedSet K) (added : List K) : OrderedSet K := added.foldl insert set

@[simp] theorem mem_toList {set : OrderedSet K} {element : K} :
    element ∈ toList set ↔ element ∈ set := Iff.rfl

@[simp] theorem not_mem_empty (element : K) : element ∉ (empty : OrderedSet K) :=
  List.not_mem_nil

@[simp] theorem mem_insert {set : OrderedSet K} {element other : K} :
    other ∈ insert set element ↔ other = element ∨ other ∈ set := OrderedMap.mem_insert

theorem mem_insertAll {set : OrderedSet K} {added : List K} {element : K} :
    element ∈ insertAll set added ↔ element ∈ set ∨ element ∈ added := by
  induction added generalizing set with
  | nil => simp [insertAll]
  | cons head rest ih =>
    rw [insertAll, List.foldl_cons, ← insertAll, ih, mem_insert, List.mem_cons]
    tauto

/-- The elements come in increasing order. -/
theorem toList_sorted (set : OrderedSet K) : (toList set).Pairwise fun earlier later ↦
    earlier < later := List.pairwise_map.mpr set.sorted

theorem toList_nodup (set : OrderedSet K) : (toList set).Nodup :=
  (toList_sorted set).imp fun hlt ↦ hlt.ne

theorem isEmpty_iff {set : OrderedSet K} : set.isEmpty = true ↔ ∀ element, element ∉ set :=
  OrderedMap.isEmpty_iff

end OrderedSet

end RocketMQClient.Library
