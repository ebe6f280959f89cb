import Mathlib.Data.List.Lex
import Mathlib.Data.List.Nodup
import Mathlib.Data.List.Sort
import Mathlib.Data.List.TakeWhile

/-!
# Ordered maps

The associative container of the C++ standard library, as a list of entries in strictly
increasing key order. `assign` is the assignment `m[k] = v`, which replaces the value of a key
that is present, `erase` removes a key, and `first?` and `last?` are the two ends of the
iteration order. `assignPairs`, `assignAll` and `eraseAll` are the loops that assign or erase one
element after another.

The order of the entries is a field of the structure, so an iteration is in key order for every
value of the type. The lemmas describe each operation by the membership of keys and values and by
the number of entries; the insertion order of the keys never matters.

The structure stands for the interface and not for the tree behind it. It is the right model where
the comparison is a linear order; where the keys are compared by something weaker, the shape of the
tree matters and a search tree is used instead.
-/

set_option autoImplicit false
set_option relaxedAutoImplicit false

namespace RocketMQClient.Library

/-- A map whose entries are kept in strictly increasing order of their keys. -/
structure OrderedMap (K V : Type*) [LinearOrder K] where
  entries : List (K × V)
  sorted : entries.Pairwise fun earlier later ↦ earlier.1 < later.1
  deriving DecidableEq

namespace OrderedMap

variable {K V : Type*} [LinearOrder K]

@[ext] theorem ext {first second : OrderedMap K V} (hentries : first.entries = second.entries) :
    first = second := by
  cases first
  cases second
  cases hentries
  rfl

/-! ### Operations -/

/-- The map without entries. -/
def empty : OrderedMap K V := ⟨[], List.Pairwise.nil⟩

/-- The keys in iteration order. -/
def keys (map : OrderedMap K V) : List K := map.entries.map Prod.fst

/-- The values in iteration order. -/
def values (map : OrderedMap K V) : List V := map.entries.map Prod.snd

/-- The number of entries. -/
def size (map : OrderedMap K V) : ℕ := map.entries.length

/-- Whether the map has no entry. -/
def isEmpty (map : OrderedMap K V) : Bool := map.entries.isEmpty

/-- The entry with the smallest key. -/
def first? (map : OrderedMap K V) : Option (K × V) := map.entries.head?

/-- The entry with the largest key. -/
def last? (map : OrderedMap K V) : Option (K × V) := map.entries.getLast?

/-- The value of a key. -/
def find? (map : OrderedMap K V) (key : K) : Option V :=
  (map.entries.find? fun entry ↦ entry.1 = key).map Prod.snd

instance : Membership K (OrderedMap K V) := ⟨fun map key ↦ key ∈ map.keys⟩

instance (map : OrderedMap K V) (key : K) : Decidable (key ∈ map) :=
  inferInstanceAs (Decidable (key ∈ map.keys))

/-- Assignment on a list of entries in key order. -/
def assignEntries (key : K) (value : V) : List (K × V) → List (K × V)
  | [] => [(key, value)]
  | entry :: rest =>
    if key < entry.1 then (key, value) :: entry :: rest
    else if entry.1 < key then entry :: assignEntries key value rest
    else (key, value) :: rest

/-- An entry after an assignment is the assigned one or an earlier entry of another key. -/
theorem mem_assignEntries {key : K} {value : V} {entries : List (K × V)}
    (hsorted : entries.Pairwise fun earlier later ↦ earlier.1 < later.1) (entry : K × V) :
    entry ∈ assignEntries key value entries ↔
      entry = (key, value) ∨ (entry ∈ entries ∧ entry.1 ≠ key) := by
  induction entries with
  | nil => simp [assignEntries]
  | cons head rest ih =>
    obtain ⟨hhead, hrest⟩ := List.pairwise_cons.mp hsorted
    unfold assignEntries
    split_ifs with hbelow habove
    · have hother : ∀ other ∈ head :: rest, other.1 ≠ key := by
        intro other hmem
        rcases List.mem_cons.mp hmem with rfl | hmem
        · exact hbelow.ne'
        · exact (hbelow.trans (hhead other hmem)).ne'
      simp only [List.mem_cons (a := entry) (b := (key, value))]
      constructor
      · rintro (hentry | hentry)
        · exact Or.inl hentry
        · exact Or.inr ⟨hentry, hother entry hentry⟩
      · rintro (hentry | ⟨hentry, -⟩)
        · exact Or.inl hentry
        · exact Or.inr hentry
    · rw [List.mem_cons, ih hrest, List.mem_cons]
      constructor
      · rintro (rfl | hentry | ⟨hentry, hne⟩)
        · exact Or.inr ⟨Or.inl rfl, habove.ne⟩
        · exact Or.inl hentry
        · exact Or.inr ⟨Or.inr hentry, hne⟩
      · rintro (hentry | ⟨rfl | hentry, hne⟩)
        · exact Or.inr (Or.inl hentry)
        · exact Or.inl rfl
        · exact Or.inr (Or.inr ⟨hentry, hne⟩)
    · have hkey : head.1 = key := le_antisymm (not_lt.mp hbelow) (not_lt.mp habove)
      rw [List.mem_cons, List.mem_cons]
      constructor
      · rintro (hentry | hentry)
        · exact Or.inl hentry
        · exact Or.inr ⟨Or.inr hentry, fun heq ↦ (hhead entry hentry).ne (hkey.trans heq.symm)⟩
      · rintro (hentry | ⟨rfl | hentry, hne⟩)
        · exact Or.inl hentry
        · exact absurd hkey hne
        · exact Or.inr hentry

/-- Assignment keeps the entries in key order. -/
theorem assignEntries_sorted (key : K) (value : V) {entries : List (K × V)}
    (hsorted : entries.Pairwise fun earlier later ↦ earlier.1 < later.1) :
    (assignEntries key value entries).Pairwise fun earlier later ↦ earlier.1 < later.1 := by
  induction entries with
  | nil => simp [assignEntries]
  | cons head rest ih =>
    obtain ⟨hhead, hrest⟩ := List.pairwise_cons.mp hsorted
    unfold assignEntries
    split_ifs with hbelow habove
    · refine List.pairwise_cons.mpr ⟨fun later hlater ↦ ?_, hsorted⟩
      rcases List.mem_cons.mp hlater with rfl | hlater
      · exact hbelow
      · exact hbelow.trans (hhead later hlater)
    · refine List.pairwise_cons.mpr ⟨fun later hlater ↦ ?_, ih hrest⟩
      rcases (mem_assignEntries hrest later).mp hlater with rfl | ⟨hlater, -⟩
      · exact habove
      · exact hhead later hlater
    · have hkey : head.1 = key := le_antisymm (not_lt.mp hbelow) (not_lt.mp habove)
      exact List.pairwise_cons.mpr ⟨fun later hlater ↦ hkey ▸ hhead later hlater, hrest⟩

/-- The assignment `map[key] = value`. -/
def assign (map : OrderedMap K V) (key : K) (value : V) : OrderedMap K V :=
  ⟨assignEntries key value map.entries, assignEntries_sorted key value map.sorted⟩

/-- The map without a key. -/
def erase (map : OrderedMap K V) (key : K) : OrderedMap K V :=
  ⟨map.entries.filter fun entry ↦ entry.1 ≠ key, map.sorted.filter _⟩

/-- The map whose first `count` entries are removed. -/
def dropFirst (map : OrderedMap K V) (count : ℕ) : OrderedMap K V :=
  ⟨map.entries.drop count, map.sorted.drop⟩

/-- The loop that assigns one pair of a key and a value after another. -/
def assignPairs (map : OrderedMap K V) (pairs : List (K × V)) : OrderedMap K V :=
  pairs.foldl (fun current pair ↦ current.assign pair.1 pair.2) map

/-- The loop that assigns each value under its own key. -/
def assignAll (keyOf : V → K) (map : OrderedMap K V) (added : List V) : OrderedMap K V :=
  added.foldl (fun current value ↦ current.assign (keyOf value) value) map

/-- The loop that erases one key after another. -/
def eraseAll (map : OrderedMap K V) (removed : List K) : OrderedMap K V :=
  removed.foldl erase map

/-- The loop that changes the values, and erases the entries for which there is no new one. -/
def filterMapValues {W : Type*} (map : OrderedMap K V) (change : V → Option W) :
    OrderedMap K W where
  entries := map.entries.filterMap fun entry ↦ (change entry.2).map fun value ↦ (entry.1, value)
  sorted := by
    refine List.Pairwise.filterMap _ (fun earlier later hlt changed hchanged other hother ↦ ?_)
      map.sorted
    obtain ⟨value, -, rfl⟩ := Option.map_eq_some_iff.mp hchanged
    obtain ⟨value', -, rfl⟩ := Option.map_eq_some_iff.mp hother
    exact hlt

/-! ### Keys -/

theorem mem_iff {map : OrderedMap K V} {key : K} :
    key ∈ map ↔ ∃ entry ∈ map.entries, entry.1 = key :=
  List.mem_map

theorem key_mem {map : OrderedMap K V} {entry : K × V} (hentry : entry ∈ map.entries) :
    entry.1 ∈ map :=
  mem_iff.mpr ⟨entry, hentry, rfl⟩

@[simp] theorem not_mem_empty (key : K) : key ∉ (empty : OrderedMap K V) := by
  simp [mem_iff, empty]

/-- Two entries of one key are the same entry. -/
theorem entry_unique {map : OrderedMap K V} {first second : K × V}
    (hfirst : first ∈ map.entries) (hsecond : second ∈ map.entries)
    (hkey : first.1 = second.1) : first = second := by
  have hinjective : map.entries.Pairwise fun earlier later ↦ earlier.1 ≠ later.1 :=
    map.sorted.imp fun hlt ↦ hlt.ne
  have hnodup : map.keys.Nodup := List.pairwise_map.mpr hinjective
  exact List.inj_on_of_nodup_map hnodup hfirst hsecond hkey

@[simp] theorem mem_assign {map : OrderedMap K V} {key other : K} {value : V} :
    other ∈ map.assign key value ↔ other = key ∨ other ∈ map := by
  simp only [mem_iff, assign, mem_assignEntries map.sorted]
  constructor
  · rintro ⟨entry, rfl | ⟨hentry, -⟩, rfl⟩
    · exact Or.inl rfl
    · exact Or.inr ⟨entry, hentry, rfl⟩
  · rintro (rfl | ⟨entry, hentry, rfl⟩)
    · exact ⟨(other, value), Or.inl rfl, rfl⟩
    · by_cases hkey : entry.1 = key
      · exact ⟨(key, value), Or.inl rfl, hkey.symm⟩
      · exact ⟨entry, Or.inr ⟨hentry, hkey⟩, rfl⟩

@[simp] theorem mem_erase {map : OrderedMap K V} {key other : K} :
    other ∈ map.erase key ↔ other ≠ key ∧ other ∈ map := by
  simp only [mem_iff, erase, List.mem_filter, decide_eq_true_eq]
  constructor
  · rintro ⟨entry, ⟨hentry, hne⟩, rfl⟩
    exact ⟨hne, entry, hentry, rfl⟩
  · rintro ⟨hne, entry, hentry, rfl⟩
    exact ⟨entry, ⟨hentry, hne⟩, rfl⟩

theorem mem_assignAll {keyOf : V → K} {map : OrderedMap K V} {added : List V} {key : K} :
    key ∈ map.assignAll keyOf added ↔ key ∈ map ∨ ∃ value ∈ added, keyOf value = key := by
  induction added generalizing map with
  | nil => simp [assignAll]
  | cons value rest ih =>
    have hstep := @ih (map.assign (keyOf value) value)
    rw [mem_assign] at hstep
    rw [assignAll, List.foldl_cons, ← assignAll, hstep, List.exists_mem_cons_iff]
    tauto

theorem mem_eraseAll {map : OrderedMap K V} {removed : List K} {key : K} :
    key ∈ map.eraseAll removed ↔ key ∈ map ∧ key ∉ removed := by
  induction removed generalizing map with
  | nil => simp [eraseAll]
  | cons head rest ih =>
    have hstep := @ih (map.erase head)
    rw [mem_erase] at hstep
    rw [eraseAll, List.foldl_cons, ← eraseAll, hstep, List.mem_cons]
    tauto

/-! ### Entries -/

/-- Two maps with the same entries are equal. -/
theorem ext_mem {first second : OrderedMap K V}
    (hentries : ∀ entry, entry ∈ first.entries ↔ entry ∈ second.entries) : first = second := by
  have hperm : first.entries.Perm second.entries := by
    refine (List.perm_ext_iff_of_nodup ?_ ?_).mpr hentries
    · exact first.sorted.imp fun hlt heq ↦ hlt.ne (congrArg Prod.fst heq)
    · exact second.sorted.imp fun hlt heq ↦ hlt.ne (congrArg Prod.fst heq)
  refine ext (hperm.eq_of_pairwise ?_ first.sorted second.sorted)
  intro earlier later _ _ hlt hgt
  exact absurd hlt hgt.not_gt

theorem mem_values {map : OrderedMap K V} {value : V} :
    value ∈ map.values ↔ ∃ key, (key, value) ∈ map.entries := by
  rw [values, List.mem_map]
  constructor
  · rintro ⟨entry, hentry, rfl⟩
    exact ⟨entry.1, hentry⟩
  · rintro ⟨key, hentry⟩
    exact ⟨(key, value), hentry, rfl⟩

theorem mem_values_filterMapValues {W : Type*} {map : OrderedMap K V} {change : V → Option W}
    {value : W} :
    value ∈ (map.filterMapValues change).values ↔ ∃ old ∈ map.values, change old = some value := by
  rw [mem_values]
  constructor
  · rintro ⟨key, hentry⟩
    obtain ⟨entry, hmem, hchange⟩ := List.mem_filterMap.mp hentry
    obtain ⟨changed, hchanged, hpair⟩ := Option.map_eq_some_iff.mp hchange
    obtain ⟨rfl, rfl⟩ := Prod.mk.inj hpair
    exact ⟨entry.2, mem_values.mpr ⟨entry.1, hmem⟩, hchanged⟩
  · rintro ⟨old, hold, hchanged⟩
    obtain ⟨key, hmem⟩ := mem_values.mp hold
    exact ⟨key, List.mem_filterMap.mpr ⟨(key, old), hmem, by rw [hchanged]; rfl⟩⟩

theorem mem_entries_assign {map : OrderedMap K V} {key : K} {value : V} {entry : K × V} :
    entry ∈ (map.assign key value).entries ↔
      entry = (key, value) ∨ (entry ∈ map.entries ∧ entry.1 ≠ key) :=
  mem_assignEntries map.sorted entry

theorem mem_entries_erase {map : OrderedMap K V} {key : K} {entry : K × V} :
    entry ∈ (map.erase key).entries ↔ entry ∈ map.entries ∧ entry.1 ≠ key := by
  simp [erase]

theorem mem_entries_eraseAll {map : OrderedMap K V} {removed : List K} {entry : K × V} :
    entry ∈ (map.eraseAll removed).entries ↔ entry ∈ map.entries ∧ entry.1 ∉ removed := by
  induction removed generalizing map with
  | nil => simp [eraseAll]
  | cons head rest ih =>
    rw [eraseAll, List.foldl_cons, ← eraseAll, ih, mem_entries_erase, List.mem_cons]
    tauto

/-- The entries from that of a key on: none without it, and otherwise those of keys that are not
smaller. -/
theorem mem_dropWhile_key {map : OrderedMap K V} {key : K} {entry : K × V} :
    entry ∈ map.entries.dropWhile (fun other ↦ other.1 ≠ key) ↔
      entry ∈ map.entries ∧ key ∈ map ∧ key ≤ entry.1 := by
  have hsplit := @List.takeWhile_append_dropWhile _ (fun other : K × V ↦ other.1 ≠ key) map.entries
  have hsorted := map.sorted
  rw [← hsplit, List.pairwise_append] at hsorted
  obtain ⟨-, hrest, hcross⟩ := hsorted
  have hbefore : ∀ other ∈ map.entries.takeWhile (fun other ↦ other.1 ≠ key), other.1 ≠ key :=
    fun other hmem ↦ by simpa using List.mem_takeWhile_imp hmem
  cases hdrop : map.entries.dropWhile (fun other ↦ other.1 ≠ key) with
  | nil =>
    rw [hdrop, List.append_nil] at hsplit
    refine iff_of_false List.not_mem_nil fun hboth ↦ ?_
    obtain ⟨other, hother, heq⟩ := mem_iff.mp hboth.2.1
    rw [← hsplit] at hother
    exact hbefore other hother heq
  | cons head rest =>
    have hhead : head.1 = key := by
      have hfalse := List.head?_dropWhile_not (fun other : K × V ↦ other.1 ≠ key) map.entries
      rw [hdrop] at hfalse
      simpa using hfalse
    rw [hdrop] at hsplit hrest hcross
    have hmem : key ∈ map := by
      refine mem_iff.mpr ⟨head, ?_, hhead⟩
      rw [← hsplit]
      exact List.mem_append_right _ List.mem_cons_self
    constructor
    · intro hentry
      refine ⟨hsplit ▸ List.mem_append_right _ hentry, hmem, ?_⟩
      rcases List.mem_cons.mp hentry with rfl | htail
      · exact hhead.ge
      · exact hhead ▸ ((List.pairwise_cons.mp hrest).1 entry htail).le
    · rintro ⟨hentry, -, hle⟩
      rw [← hsplit] at hentry
      rcases List.mem_append.mp hentry with hearlier | hlater
      · have hlt := hcross entry hearlier head List.mem_cons_self
        rw [hhead] at hlt
        exact absurd hle hlt.not_ge
      · exact hlater

/-- An entry of the map after a loop of assignments was there before or is one of the pairs. -/
theorem mem_entries_of_assignPairs {map : OrderedMap K V} {pairs : List (K × V)} {entry : K × V}
    (hentry : entry ∈ (map.assignPairs pairs).entries) : entry ∈ map.entries ∨ entry ∈ pairs := by
  induction pairs generalizing map with
  | nil => exact Or.inl hentry
  | cons pair rest ih =>
    rcases @ih (map.assign pair.1 pair.2) hentry with hbefore | hrest
    · rcases mem_entries_assign.mp hbefore with rfl | ⟨hbefore, -⟩
      · exact Or.inr List.mem_cons_self
      · exact Or.inl hbefore
    · exact Or.inr (List.mem_cons_of_mem pair hrest)

/-- Of pairs under distinct keys each becomes an entry. -/
theorem mem_entries_assignPairs_of_mem {map : OrderedMap K V} {pairs : List (K × V)}
    (hdistinct : (pairs.map Prod.fst).Nodup) {pair : K × V} (hpair : pair ∈ pairs) :
    pair ∈ (map.assignPairs pairs).entries := by
  have hkept : ∀ (rest : List (K × V)) (current : OrderedMap K V), pair ∈ current.entries →
      pair.1 ∉ rest.map Prod.fst → pair ∈ (current.assignPairs rest).entries := by
    intro rest
    induction rest with
    | nil => exact fun current hcurrent _ ↦ hcurrent
    | cons next rest ih =>
      intro current hcurrent hkey
      rw [List.map_cons, List.mem_cons, not_or] at hkey
      exact ih _ (mem_entries_assign.mpr (Or.inr ⟨hcurrent, hkey.1⟩)) hkey.2
  induction pairs generalizing map with
  | nil => exact absurd hpair List.not_mem_nil
  | cons head rest ih =>
    rw [List.map_cons, List.nodup_cons] at hdistinct
    rcases List.mem_cons.mp hpair with rfl | hrest
    · exact hkept rest _ (mem_entries_assign.mpr (Or.inl rfl)) hdistinct.1
    · exact ih hdistinct.2 hrest

/-- After the first of some pairs under distinct new keys has been assigned the others are new. -/
theorem fresh_assign {map : OrderedMap K V} {pair : K × V} {rest : List (K × V)}
    (hdistinct : pair.1 ∉ rest.map Prod.fst) (hfresh : ∀ other ∈ pair :: rest, other.1 ∉ map) :
    ∀ other ∈ rest, other.1 ∉ map.assign pair.1 pair.2 := by
  intro other hother hmem
  rcases mem_assign.mp hmem with heq | hmem
  · exact hdistinct (heq ▸ List.mem_map_of_mem hother)
  · exact hfresh other (List.mem_cons_of_mem pair hother) hmem

/-- Pairs under distinct keys that are new to the map become entries and displace none. -/
theorem mem_entries_assignPairs {map : OrderedMap K V} {pairs : List (K × V)}
    (hdistinct : (pairs.map Prod.fst).Nodup) (hfresh : ∀ pair ∈ pairs, pair.1 ∉ map)
    {entry : K × V} :
    entry ∈ (map.assignPairs pairs).entries ↔ entry ∈ map.entries ∨ entry ∈ pairs := by
  refine ⟨mem_entries_of_assignPairs, ?_⟩
  induction pairs generalizing map with
  | nil => exact fun hentry ↦ hentry.elim id fun hnil ↦ absurd hnil List.not_mem_nil
  | cons pair rest ih =>
    rw [List.map_cons, List.nodup_cons] at hdistinct
    have hrest := fresh_assign hdistinct.1 hfresh
    intro hentry
    refine @ih (map.assign pair.1 pair.2) hdistinct.2 hrest ?_
    rw [mem_entries_assign]
    rcases hentry with hbefore | hpair
    · refine Or.inl (Or.inr ⟨hbefore, fun heq ↦ ?_⟩)
      exact hfresh pair List.mem_cons_self (heq ▸ key_mem hbefore)
    · rcases List.mem_cons.mp hpair with rfl | hpair
      · exact Or.inl (Or.inl rfl)
      · exact Or.inr hpair

theorem assignAll_eq_assignPairs (keyOf : V → K) (map : OrderedMap K V) (added : List V) :
    map.assignAll keyOf added = map.assignPairs (added.map fun value ↦ (keyOf value, value)) := by
  rw [assignAll, assignPairs, List.foldl_map]

/-- Pairs in increasing order above every key are put behind the entries. -/
theorem entries_assignPairs_above {map : OrderedMap K V} {pairs : List (K × V)}
    (hsorted : (map.entries ++ pairs).Pairwise fun earlier later ↦ earlier.1 < later.1) :
    (map.assignPairs pairs).entries = map.entries ++ pairs := by
  have hparts := List.pairwise_append.mp hsorted
  have hdistinct : (pairs.map Prod.fst).Nodup :=
    List.pairwise_map.mpr (hparts.2.1.imp fun hlt ↦ hlt.ne)
  have hfresh : ∀ pair ∈ pairs, pair.1 ∉ map := by
    intro pair hpair hmem
    obtain ⟨entry, hentry, heq⟩ := mem_iff.mp hmem
    exact (hparts.2.2 entry hentry pair hpair).ne heq
  have hsame : map.assignPairs pairs = ⟨map.entries ++ pairs, hsorted⟩ :=
    ext_mem fun entry ↦ by rw [mem_entries_assignPairs hdistinct hfresh, List.mem_append]
  rw [hsame]

/-- Pairs in increasing order below every key are put before the entries. -/
theorem entries_assignPairs_below {map : OrderedMap K V} {pairs : List (K × V)}
    (hsorted : (pairs ++ map.entries).Pairwise fun earlier later ↦ earlier.1 < later.1) :
    (map.assignPairs pairs).entries = pairs ++ map.entries := by
  have hparts := List.pairwise_append.mp hsorted
  have hdistinct : (pairs.map Prod.fst).Nodup :=
    List.pairwise_map.mpr (hparts.1.imp fun hlt ↦ hlt.ne)
  have hfresh : ∀ pair ∈ pairs, pair.1 ∉ map := by
    intro pair hpair hmem
    obtain ⟨entry, hentry, heq⟩ := mem_iff.mp hmem
    exact (hparts.2.2 pair hpair entry hentry).ne heq.symm
  have hsame : map.assignPairs pairs = ⟨pairs ++ map.entries, hsorted⟩ :=
    ext_mem fun entry ↦ by
      rw [mem_entries_assignPairs hdistinct hfresh, List.mem_append, or_comm]
  rw [hsame]

/-- Erasing the keys of the last entries leaves the entries before them. -/
theorem entries_eraseAll_last {map : OrderedMap K V} {earlier last : List (K × V)}
    (hentries : map.entries = earlier ++ last) :
    (map.eraseAll (last.map Prod.fst)).entries = earlier := by
  have hsorted := map.sorted
  rw [hentries, List.pairwise_append] at hsorted
  have hsame : map.eraseAll (last.map Prod.fst) = ⟨earlier, hsorted.1⟩ := by
    refine ext_mem fun entry ↦ ?_
    rw [mem_entries_eraseAll, hentries, List.mem_append]
    constructor
    · rintro ⟨hearlier | hlast, hkey⟩
      · exact hearlier
      · exact absurd (List.mem_map_of_mem hlast) hkey
    · intro hearlier
      refine ⟨Or.inl hearlier, fun hkey ↦ ?_⟩
      obtain ⟨other, hother, heq⟩ := List.mem_map.mp hkey
      exact (hsorted.2.2 entry hearlier other hother).ne heq.symm
  rw [hsame]

/-! ### The two ends -/

theorem isEmpty_iff {map : OrderedMap K V} : map.isEmpty = true ↔ ∀ key, key ∉ map := by
  rw [isEmpty, List.isEmpty_iff]
  constructor
  · intro hnil key hmem
    obtain ⟨entry, hentry, -⟩ := mem_iff.mp hmem
    rw [hnil] at hentry
    exact absurd hentry List.not_mem_nil
  · intro hnone
    exact List.eq_nil_iff_forall_not_mem.mpr fun entry hentry ↦ hnone entry.1 (key_mem hentry)

theorem first?_eq_none {map : OrderedMap K V} : map.first? = none ↔ map.isEmpty = true := by
  rw [first?, List.head?_eq_none_iff, isEmpty, List.isEmpty_iff]

theorem last?_eq_none {map : OrderedMap K V} : map.last? = none ↔ map.isEmpty = true := by
  rw [last?, List.getLast?_eq_none_iff, isEmpty, List.isEmpty_iff]

/-- The first entry has the smallest key. -/
theorem first?_le {map : OrderedMap K V} {entry : K × V} (hfirst : map.first? = some entry)
    {key : K} (hkey : key ∈ map) : entry.1 ≤ key := by
  obtain ⟨other, hother, rfl⟩ := mem_iff.mp hkey
  obtain ⟨rest, hentries⟩ := List.head?_eq_some_iff.mp hfirst
  have hsorted := map.sorted
  rw [hentries] at hsorted hother
  rcases List.mem_cons.mp hother with rfl | hrest
  · exact le_rfl
  · exact ((List.pairwise_cons.mp hsorted).1 other hrest).le

theorem mem_of_first? {map : OrderedMap K V} {entry : K × V} (hfirst : map.first? = some entry) :
    entry.1 ∈ map :=
  key_mem (List.mem_of_head? hfirst)

/-- The last entry has the largest key. -/
theorem le_last? {map : OrderedMap K V} {entry : K × V} (hlast : map.last? = some entry)
    {key : K} (hkey : key ∈ map) : key ≤ entry.1 := by
  obtain ⟨other, hother, rfl⟩ := mem_iff.mp hkey
  obtain ⟨earlier, hentries⟩ := List.getLast?_eq_some_iff.mp hlast
  have hsorted := map.sorted
  rw [hentries] at hsorted hother
  rcases List.mem_append.mp hother with hearlier | hsame
  · exact ((List.pairwise_append.mp hsorted).2.2 other hearlier entry
      (List.mem_singleton_self entry)).le
  · rw [List.mem_singleton.mp hsame]

theorem mem_of_last? {map : OrderedMap K V} {entry : K × V} (hlast : map.last? = some entry) :
    entry.1 ∈ map :=
  key_mem (List.mem_of_getLast? hlast)

@[simp] theorem entries_dropFirst (map : OrderedMap K V) (count : ℕ) :
    (map.dropFirst count).entries = map.entries.drop count := rfl

/-- Erasing the smallest key drops the first entry. -/
theorem erase_first {map : OrderedMap K V} {entry : K × V} (hfirst : map.first? = some entry) :
    map.erase entry.1 = map.dropFirst 1 := by
  obtain ⟨rest, hentries⟩ := List.head?_eq_some_iff.mp hfirst
  have hsorted := map.sorted
  rw [hentries, List.pairwise_cons] at hsorted
  refine ext_mem fun other ↦ ?_
  rw [mem_entries_erase, entries_dropFirst, hentries, List.drop_one, List.tail_cons, List.mem_cons]
  constructor
  · rintro ⟨rfl | hrest, hne⟩
    · exact absurd rfl hne
    · exact hrest
  · exact fun hrest ↦ ⟨Or.inr hrest, (hsorted.1 other hrest).ne'⟩

/-! ### Sizes -/

theorem size_eq_zero {map : OrderedMap K V} : map.size = 0 ↔ map.isEmpty = true := by
  rw [size, isEmpty, List.isEmpty_iff, List.length_eq_zero_iff]

theorem length_assignEntries {key : K} {value : V} {entries : List (K × V)}
    (habsent : ∀ entry ∈ entries, entry.1 ≠ key) :
    (assignEntries key value entries).length = entries.length + 1 := by
  induction entries with
  | nil => rfl
  | cons head rest ih =>
    unfold assignEntries
    split_ifs with hbelow habove
    · rfl
    · rw [List.length_cons, ih fun entry hentry ↦ habsent entry (List.mem_cons_of_mem head hentry),
        List.length_cons]
    · exact absurd (le_antisymm (not_lt.mp hbelow) (not_lt.mp habove))
        (habsent head List.mem_cons_self)

theorem size_assign_of_not_mem {map : OrderedMap K V} {key : K} {value : V} (habsent : key ∉ map) :
    (map.assign key value).size = map.size + 1 :=
  length_assignEntries fun _ hentry heq ↦ habsent (heq ▸ key_mem hentry)

theorem size_erase_of_mem {map : OrderedMap K V} {key : K} (hmem : key ∈ map) :
    (map.erase key).size + 1 = map.size := by
  obtain ⟨entry, hentry, rfl⟩ := mem_iff.mp hmem
  obtain ⟨before, after, hsplit⟩ := List.append_of_mem hentry
  have hother : ∀ other ∈ before ++ after, other.1 ≠ entry.1 := by
    intro other hmemOther heq
    have hsorted := map.sorted
    rw [hsplit, List.pairwise_append, List.pairwise_cons] at hsorted
    rcases List.mem_append.mp hmemOther with hbefore | hafter
    · exact (hsorted.2.2 other hbefore entry List.mem_cons_self).ne heq
    · exact (hsorted.2.1.1 other hafter).ne heq.symm
  have hfilter : map.entries.filter (fun other ↦ other.1 ≠ entry.1) = before ++ after := by
    rw [hsplit, List.filter_append, List.filter_cons_of_neg (by simp), ← List.filter_append]
    exact List.filter_eq_self.mpr fun other hmemOther ↦ by simpa using hother other hmemOther
  have hsize : (map.erase entry.1).size = (before ++ after).length := congrArg List.length hfilter
  rw [hsize, size, hsplit]
  simp only [List.length_append, List.length_cons]
  omega

theorem erase_of_not_mem {map : OrderedMap K V} {key : K} (habsent : key ∉ map) :
    map.erase key = map := by
  refine ext_mem fun entry ↦ ?_
  rw [mem_entries_erase]
  exact ⟨fun hentry ↦ hentry.1, fun hentry ↦ ⟨hentry, fun heq ↦ habsent (heq ▸ key_mem hentry)⟩⟩

/-- Replacing the value of a key keeps the number of entries. -/
theorem size_assign_of_mem {map : OrderedMap K V} {key : K} {value : V} (hmem : key ∈ map) :
    (map.assign key value).size = map.size := by
  have hagain : map.assign key value = (map.erase key).assign key value := by
    refine ext_mem fun entry ↦ ?_
    rw [mem_entries_assign, mem_entries_assign, mem_entries_erase, and_assoc, and_self]
  have habsent : key ∉ map.erase key := fun hkey ↦ (mem_erase.mp hkey).1 rfl
  rw [hagain, size_assign_of_not_mem habsent, size_erase_of_mem hmem]

/-- Assigning pairs under distinct keys that are new to the map adds one entry for each. -/
theorem size_assignPairs {map : OrderedMap K V} {pairs : List (K × V)}
    (hdistinct : (pairs.map Prod.fst).Nodup) (hfresh : ∀ pair ∈ pairs, pair.1 ∉ map) :
    (map.assignPairs pairs).size = map.size + pairs.length := by
  induction pairs generalizing map with
  | nil => rfl
  | cons pair rest ih =>
    rw [List.map_cons, List.nodup_cons] at hdistinct
    have hrest := fresh_assign hdistinct.1 hfresh
    have hstep := ih hdistinct.2 hrest
    rw [size_assign_of_not_mem (hfresh pair List.mem_cons_self)] at hstep
    rw [assignPairs, List.foldl_cons, ← assignPairs, hstep, List.length_cons]
    omega

/-- Assigning fresh values under distinct keys adds one entry for each. -/
theorem size_assignAll {keyOf : V → K} {map : OrderedMap K V} {added : List V}
    (hdistinct : (added.map keyOf).Nodup) (hfresh : ∀ value ∈ added, keyOf value ∉ map) :
    (map.assignAll keyOf added).size = map.size + added.length := by
  rw [assignAll_eq_assignPairs, size_assignPairs, List.length_map]
  · simpa [List.map_map, Function.comp_def] using hdistinct
  · intro pair hpair
    obtain ⟨value, hvalue, rfl⟩ := List.mem_map.mp hpair
    exact hfresh value hvalue

/-- Erasing distinct keys that are present removes one entry for each. -/
theorem size_eraseAll {map : OrderedMap K V} {removed : List K} (hdistinct : removed.Nodup)
    (hheld : ∀ key ∈ removed, key ∈ map) :
    (map.eraseAll removed).size + removed.length = map.size := by
  induction removed generalizing map with
  | nil => rfl
  | cons head rest ih =>
    rw [List.nodup_cons] at hdistinct
    have hrest : ∀ key ∈ rest, key ∈ map.erase head := fun key hkey ↦
      mem_erase.mpr ⟨fun heq ↦ hdistinct.1 (heq ▸ hkey), hheld key (List.mem_cons_of_mem head hkey)⟩
    have hstep := ih hdistinct.2 hrest
    have hhead := size_erase_of_mem (hheld head List.mem_cons_self)
    rw [eraseAll, List.foldl_cons, ← eraseAll, List.length_cons]
    omega

/-! ### Values -/

theorem find?_eq_some {map : OrderedMap K V} {key : K} {value : V} :
    map.find? key = some value ↔ (key, value) ∈ map.entries := by
  rw [find?, Option.map_eq_some_iff]
  constructor
  · rintro ⟨entry, hfind, rfl⟩
    have hkey := List.find?_some hfind
    rw [decide_eq_true_eq] at hkey
    rw [← hkey]
    exact List.mem_of_find?_eq_some hfind
  · intro hentry
    cases hfind : map.entries.find? fun entry ↦ entry.1 = key with
    | none => simpa using List.find?_eq_none.mp hfind (key, value) hentry
    | some entry =>
      have hkey := List.find?_some hfind
      rw [decide_eq_true_eq] at hkey
      have hsame := entry_unique (List.mem_of_find?_eq_some hfind) hentry hkey
      exact ⟨entry, rfl, by rw [hsame]⟩

theorem find?_eq_none {map : OrderedMap K V} {key : K} : map.find? key = none ↔ key ∉ map := by
  rw [Option.eq_none_iff_forall_not_mem]
  constructor
  · intro hnone hmem
    obtain ⟨entry, hentry, rfl⟩ := mem_iff.mp hmem
    exact hnone entry.2 (find?_eq_some.mpr hentry)
  · intro habsent value hvalue
    exact habsent (key_mem (find?_eq_some.mp hvalue))

theorem find?_assign_self (map : OrderedMap K V) (key : K) (value : V) :
    (map.assign key value).find? key = some value :=
  find?_eq_some.mpr ((mem_assignEntries map.sorted _).mpr (Or.inl rfl))

theorem find?_assign_of_ne (map : OrderedMap K V) {key other : K} (value : V) (hne : other ≠ key) :
    (map.assign key value).find? other = map.find? other := by
  ext found
  rw [find?_eq_some, find?_eq_some, assign, mem_assignEntries map.sorted]
  simp [hne]

theorem find?_erase_self (map : OrderedMap K V) (key : K) : (map.erase key).find? key = none :=
  find?_eq_none.mpr fun hmem ↦ (mem_erase.mp hmem).1 rfl

theorem find?_erase_of_ne (map : OrderedMap K V) {key other : K} (hne : other ≠ key) :
    (map.erase key).find? other = map.find? other := by
  ext found
  rw [find?_eq_some, find?_eq_some, mem_entries_erase]
  exact and_iff_left hne

/-! ### Loops over the entries -/

/-- A loop over the entries in which only the entry of one key changes a cell. -/
theorem foldl_entries {State Cell : Type*} {map : OrderedMap K V} {body : State → K × V → State}
    {invariant : State → Prop} {cell : State → Cell} {key : K} {change : V → Cell → Cell}
    (hinvariant : ∀ state entry, invariant state → invariant (body state entry))
    (hkey : ∀ state value, (key, value) ∈ map.entries → invariant state →
      cell (body state (key, value)) = change value (cell state))
    (hother : ∀ state entry, entry ∈ map.entries → entry.1 ≠ key → invariant state →
      cell (body state entry) = cell state)
    {state : State} (hstate : invariant state) :
    cell (map.entries.foldl body state) =
      match map.find? key with
      | none => cell state
      | some value => change value (cell state) := by
  obtain ⟨entries, hsorted⟩ := map
  dsimp only at hkey hother ⊢
  induction entries generalizing state with
  | nil => rfl
  | cons head rest ih =>
    have hrest := ih (hinvariant state head hstate) (List.pairwise_cons.mp hsorted).2
      (fun later value hmem ↦ hkey later value (List.mem_cons_of_mem head hmem))
      (fun later entry hmem ↦ hother later entry (List.mem_cons_of_mem head hmem))
    rw [List.foldl_cons, hrest]
    by_cases hhead : head.1 = key
    · have hfresh : (⟨rest, (List.pairwise_cons.mp hsorted).2⟩ : OrderedMap K V).find? key =
          none := by
        refine find?_eq_none.mpr fun hmem ↦ ?_
        obtain ⟨entry, hentry, hsame⟩ := mem_iff.mp hmem
        have hlt := (List.pairwise_cons.mp hsorted).1 entry hentry
        rw [hhead, hsame] at hlt
        exact lt_irrefl key hlt
      have hfound : (⟨head :: rest, hsorted⟩ : OrderedMap K V).find? key = some head.2 :=
        find?_eq_some.mpr (by rw [← hhead]; exact List.mem_cons_self)
      rw [hfresh, hfound]
      obtain rfl := hhead
      exact hkey state head.2 List.mem_cons_self hstate
    · have hsame : (⟨head :: rest, hsorted⟩ : OrderedMap K V).find? key =
          (⟨rest, (List.pairwise_cons.mp hsorted).2⟩ : OrderedMap K V).find? key := by
        unfold find?
        rw [List.find?_cons_of_neg (by simpa using hhead)]
      rw [hsame, hother state head List.mem_cons_self hhead hstate]

end OrderedMap

end RocketMQClient.Library
