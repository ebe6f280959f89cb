import RocketMQClient.Library.OrderedMap
import RocketMQClient.Library.TaskPool

/-!
# Registries of shared objects

Objects that several parties reach through a table: the heap is a list of objects that only grows,
an object is known by its address, and a table sends keys to addresses. An entry can be taken out of
the table while parties still hold the address.

`Holds` says that every entry leads to the object of its key, that no two objects have one key, and
that every object has a property that may depend on whether it is still in the table. There is one
lemma for each kind of write: `Holds.enter`, `Holds.replace` and `Holds.withdraw`.
-/

set_option autoImplicit false
set_option relaxedAutoImplicit false

namespace RocketMQClient.Library

/-- A table of addresses over a list of objects. -/
structure Registry (K Object : Type*) [LinearOrder K] where
  table : OrderedMap K ℕ
  objects : List Object

namespace Registry

variable {K Object : Type*} [LinearOrder K]

/-- No object and no entry. -/
def empty : Registry K Object := ⟨OrderedMap.empty, []⟩

/-- A new object is allocated and inserted, unless the key is in the table. -/
def enter (registry : Registry K Object) (key : K) (object : Object) : Registry K Object where
  table := if key ∈ registry.table then registry.table
    else registry.table.assign key registry.objects.length
  objects := registry.objects ++ [object]

/-- The object at an address is overwritten. -/
def replace (registry : Registry K Object) (address : ℕ) (object : Object) : Registry K Object :=
  { registry with objects := registry.objects.set address object }

/-- The entry of a key is erased. -/
def withdraw (registry : Registry K Object) (key : K) : Registry K Object :=
  { registry with table := registry.table.erase key }

/-- Entries lead to the objects of their keys, keys are distinct, and every object has a property
that may depend on whether its key is in the table. -/
structure Holds (keyOf : Object → K) (property : Bool → Object → Prop)
    (registry : Registry K Object) : Prop where
  sound : ∀ key address, registry.table.find? key = some address →
    ∃ object, registry.objects[address]? = some object ∧ keyOf object = key
  distinct : ∀ (first second : ℕ) (firstObject secondObject : Object),
    registry.objects[first]? = some firstObject → registry.objects[second]? = some secondObject →
    keyOf firstObject = keyOf secondObject → first = second
  each : ∀ (address : ℕ) (object : Object), registry.objects[address]? = some object →
    property (decide (keyOf object ∈ registry.table)) object

namespace Holds

variable {keyOf : Object → K} {property : Bool → Object → Prop} {registry : Registry K Object}

theorem of_empty : (empty : Registry K Object).Holds keyOf property where
  sound key address hfind := by
    have habsent := OrderedMap.find?_eq_none.mpr (OrderedMap.not_mem_empty (V := ℕ) key)
    rw [empty, habsent] at hfind
    exact absurd hfind (Option.some_ne_none address).symm
  distinct first second firstObject secondObject hfirst := by
    simp [empty] at hfirst
  each address object hget := by
    simp [empty] at hget

/-- A key in the table belongs to an object. -/
theorem exists_of_mem (hholds : registry.Holds keyOf property) {key : K}
    (hmem : key ∈ registry.table) : ∃ object ∈ registry.objects, keyOf object = key := by
  cases hfind : registry.table.find? key with
  | none => exact absurd hmem (OrderedMap.find?_eq_none.mp hfind)
  | some address =>
    obtain ⟨object, hget, hkey⟩ := hholds.sound key address hfind
    exact ⟨object, List.mem_of_getElem? hget, hkey⟩

/-- A new object whose key no earlier object has. -/
theorem enter (hholds : registry.Holds keyOf property) {object : Object}
    (hfresh : ∀ earlier ∈ registry.objects, keyOf earlier ≠ keyOf object)
    (hproperty : property true object) :
    (registry.enter (keyOf object) object).Holds keyOf property := by
  have habsent : keyOf object ∉ registry.table := by
    intro hmem
    obtain ⟨earlier, hearlier, hkey⟩ := hholds.exists_of_mem hmem
    exact hfresh earlier hearlier hkey
  refine ⟨?_, ?_, ?_⟩
  · intro key address hfind
    simp only [Registry.enter, if_neg habsent] at hfind ⊢
    by_cases hkey : key = keyOf object
    · subst hkey
      rw [OrderedMap.find?_assign_self, Option.some.injEq] at hfind
      subst hfind
      exact ⟨object, List.getElem?_concat_length, rfl⟩
    · rw [OrderedMap.find?_assign_of_ne _ _ hkey] at hfind
      obtain ⟨earlier, hget, hearlier⟩ := hholds.sound key address hfind
      refine ⟨earlier, ?_, hearlier⟩
      rw [List.getElem?_append_left (List.getElem?_eq_some_iff.mp hget).1]
      exact hget
  · intro first second firstObject secondObject hfirst hsecond hkey
    rcases getElem?_concat_cases hfirst with hearlier | ⟨rfl, rfl⟩
    · rcases getElem?_concat_cases hsecond with hlater | ⟨rfl, rfl⟩
      · exact hholds.distinct first second firstObject secondObject hearlier hlater hkey
      · exact absurd hkey (hfresh firstObject (List.mem_of_getElem? hearlier))
    · rcases getElem?_concat_cases hsecond with hlater | ⟨rfl, rfl⟩
      · exact absurd hkey.symm (hfresh secondObject (List.mem_of_getElem? hlater))
      · rfl
  · intro address found hget
    simp only [Registry.enter, if_neg habsent]
    rcases getElem?_concat_cases hget with hget | ⟨rfl, rfl⟩
    · have hne := hfresh found (List.mem_of_getElem? hget)
      rw [show decide (keyOf found ∈ registry.table.assign (keyOf object) registry.objects.length) =
        decide (keyOf found ∈ registry.table) by simp [hne]]
      exact hholds.each address found hget
    · simpa using hproperty

theorem distinct_replace (hholds : registry.Holds keyOf property) {address : ℕ}
    {object next : Object} (hget : registry.objects[address]? = some object)
    (hkey : keyOf next = keyOf object) (first second : ℕ) (firstObject secondObject : Object)
    (hfirst : (registry.replace address next).objects[first]? = some firstObject)
    (hsecond : (registry.replace address next).objects[second]? = some secondObject)
    (hkeys : keyOf firstObject = keyOf secondObject) : first = second := by
  rcases getElem?_set_cases hget hfirst with ⟨rfl, rfl⟩ | ⟨-, hearlier⟩
  · rcases getElem?_set_cases hget hsecond with ⟨rfl, -⟩ | ⟨-, hlater⟩
    · rfl
    · exact hholds.distinct first second object secondObject hget hlater (hkey ▸ hkeys)
  · rcases getElem?_set_cases hget hsecond with ⟨rfl, rfl⟩ | ⟨-, hlater⟩
    · exact hholds.distinct first second firstObject object hearlier hget (hkey ▸ hkeys)
    · exact hholds.distinct first second firstObject secondObject hearlier hlater hkeys

theorem sound_replace (hholds : registry.Holds keyOf property) {address : ℕ}
    {object next : Object} (hget : registry.objects[address]? = some object)
    (hkey : keyOf next = keyOf object) (key : K) (target : ℕ)
    (hfind : registry.table.find? key = some target) :
    ∃ found, (registry.replace address next).objects[target]? = some found ∧
      keyOf found = key := by
  obtain ⟨found, hfound, hfoundKey⟩ := hholds.sound key target hfind
  by_cases hsame : target = address
  · subst hsame
    rw [hget, Option.some.injEq] at hfound
    subst hfound
    refine ⟨next, ?_, hkey.trans hfoundKey⟩
    exact List.getElem?_set_self (List.getElem?_eq_some_iff.mp hget).1
  · refine ⟨found, ?_, hfoundKey⟩
    rw [replace, List.getElem?_set_ne (Ne.symm hsame)]
    exact hfound

/-- A write that keeps the key and the property. -/
theorem replace (hholds : registry.Holds keyOf property) {address : ℕ} {object next : Object}
    (hget : registry.objects[address]? = some object) (hkey : keyOf next = keyOf object)
    (hproperty : property (decide (keyOf object ∈ registry.table)) next) :
    (registry.replace address next).Holds keyOf property where
  sound := hholds.sound_replace hget hkey
  distinct := hholds.distinct_replace hget hkey
  each other found hfound := by
    rcases getElem?_set_cases hget hfound with ⟨-, rfl⟩ | ⟨-, hfound⟩
    · show property (decide (keyOf found ∈ registry.table)) found
      rw [hkey]
      exact hproperty
    · exact hholds.each other found hfound

/-- A write after which the object is no longer in the table. -/
theorem withdraw (hholds : registry.Holds keyOf property) {address : ℕ} {object next : Object}
    (hget : registry.objects[address]? = some object) (hkey : keyOf next = keyOf object)
    (hproperty : property false next) :
    ((registry.replace address next).withdraw (keyOf object)).Holds keyOf property where
  sound key target hfind := by
    by_cases hsame : key = keyOf object
    · subst hsame
      rw [Registry.withdraw, OrderedMap.find?_erase_self] at hfind
      exact absurd hfind (Option.some_ne_none target).symm
    · rw [Registry.withdraw, OrderedMap.find?_erase_of_ne _ hsame] at hfind
      exact hholds.sound_replace hget hkey key target hfind
  distinct := hholds.distinct_replace hget hkey
  each other found hfound := by
    show property (decide (keyOf found ∈ registry.table.erase (keyOf object))) found
    rcases getElem?_set_cases hget hfound with ⟨-, rfl⟩ | ⟨hne, hfound⟩
    · simpa [hkey] using hproperty
    · have hother : keyOf found ≠ keyOf object := fun hkeys ↦
        hne (hholds.distinct other address found object hfound hget hkeys)
      rw [show decide (keyOf found ∈ registry.table.erase (keyOf object)) =
        decide (keyOf found ∈ registry.table) by simp [hother]]
      exact hholds.each other found hfound

end Holds

end Registry

end RocketMQClient.Library
