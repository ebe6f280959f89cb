import Mathlib.Data.List.Basic
import Mathlib.Data.Set.Basic
import Mathlib.Order.Defs.LinearOrder
import Mathlib.Tactic.Common

/-!
# Search trees

The ordered containers of the C++ standard library are search trees over a comparison that their
user gives. `insert` goes down to the place of a new element and compares its key with that of the
element before this place; `find` goes down to the first element whose key is not below the one
looked for, and compares once more. Neither checks that the comparison is an order.

`Grown` are the trees that come about by insertions and by changes that bring in no key: rotations,
erasures and assignments to the elements. On keys on which the comparison is a strict total order
(`StrictTotalOn`), such a tree has no key twice and finds what it holds (`Grown.holds`). Where the
comparison sees only a part of a key, the same holds of these parts (`Grown.view`).

The point of the library is what happens without an order. `insert` and `find` are total and their
results are defined by the comparisons they make, so that a statement about a container with a bad
comparison is a statement about these trees; rotations are left open, as no caller can know them.
-/

set_option autoImplicit false
set_option relaxedAutoImplicit false

namespace RocketMQClient.Library

/-! ### Strict total orders -/

/-- Of three statements exactly one holds. -/
def ExactlyOne (first second third : Prop) : Prop :=
  (first ∧ ¬ second ∧ ¬ third) ∨ (¬ first ∧ second ∧ ¬ third) ∨ (¬ first ∧ ¬ second ∧ third)

instance (first second third : Prop) [Decidable first] [Decidable second] [Decidable third] :
    Decidable (ExactlyOne first second third) :=
  inferInstanceAs (Decidable (_ ∨ _))

/-- A comparison is a strict total order on some keys. -/
structure StrictTotalOn {K : Type*} (less : K → K → Prop) (keys : Set K) : Prop where
  irrefl : ∀ key ∈ keys, ¬ less key key
  trans : ∀ first ∈ keys, ∀ second ∈ keys, ∀ third ∈ keys,
    less first second → less second third → less first third
  exactlyOne : ∀ first ∈ keys, ∀ second ∈ keys,
    ExactlyOne (less first second) (less second first) (first = second)

namespace StrictTotalOn

variable {K : Type*} {less : K → K → Prop} {keys : Set K}

/-- Keys of which neither is below the other are the same. -/
theorem eq_of_not_less (horder : StrictTotalOn less keys) {first second : K} (hfirst : first ∈ keys)
    (hsecond : second ∈ keys) (hnot : ¬ less first second) (hnot' : ¬ less second first) :
    first = second := by
  rcases horder.exactlyOne first hfirst second hsecond with ⟨hless, -⟩ | ⟨-, hless, -⟩ | ⟨-, -, heq⟩
  · exact absurd hless hnot
  · exact absurd hless hnot'
  · exact heq

/-- A comparison of the values of an injective function in a linear order. -/
theorem of_rank {L : Type*} [LinearOrder L] {rank : K → L}
    (hless : ∀ first ∈ keys, ∀ second ∈ keys, (less first second ↔ rank first < rank second))
    (hinjective : ∀ first ∈ keys, ∀ second ∈ keys, rank first = rank second → first = second) :
    StrictTotalOn less keys := by
  refine ⟨fun key hkey hself ↦ lt_irrefl _ ((hless key hkey key hkey).mp hself), ?_, ?_⟩
  · intro first hfirst second hsecond third hthird hlower hupper
    rw [hless first hfirst second hsecond] at hlower
    rw [hless second hsecond third hthird] at hupper
    exact (hless first hfirst third hthird).mpr (hlower.trans hupper)
  · intro first hfirst second hsecond
    rw [hless first hfirst second hsecond, hless second hsecond first hfirst]
    rcases lt_trichotomy (rank first) (rank second) with hlt | heq | hgt
    · exact Or.inl ⟨hlt, hlt.not_gt, fun hsame ↦ hlt.ne (congrArg rank hsame)⟩
    · exact Or.inr (Or.inr ⟨heq.not_lt, heq.not_gt, hinjective first hfirst second hsecond heq⟩)
    · exact Or.inr (Or.inl ⟨hgt.not_gt, hgt, fun hsame ↦ hgt.ne' (congrArg rank hsame)⟩)

end StrictTotalOn

/-- A comparison that is irreflexive and transitive on finitely many keys has a least one among
them. -/
theorem exists_least {K : Type*} {less : K → K → Prop} {keys : List K} (hnonempty : keys ≠ [])
    (hirrefl : ∀ key ∈ keys, ¬ less key key)
    (htrans : ∀ first ∈ keys, ∀ second ∈ keys, ∀ third ∈ keys,
      less first second → less second third → less first third) :
    ∃ least ∈ keys, ∀ key ∈ keys, ¬ less key least := by
  classical
  induction keys with
  | nil => exact absurd rfl hnonempty
  | cons head rest ih =>
    by_cases hrest : rest = []
    · subst hrest
      refine ⟨head, List.mem_cons_self, fun key hkey ↦ ?_⟩
      rw [List.mem_singleton.mp hkey]
      exact hirrefl head List.mem_cons_self
    obtain ⟨least, hmem, hleast⟩ := ih hrest
      (fun key hkey ↦ hirrefl key (List.mem_cons_of_mem head hkey))
      (fun first hfirst second hsecond third hthird ↦
        htrans first (List.mem_cons_of_mem head hfirst) second (List.mem_cons_of_mem head hsecond)
          third (List.mem_cons_of_mem head hthird))
    have hleastMem := List.mem_cons_of_mem head hmem
    by_cases hbelow : less head least
    · refine ⟨head, List.mem_cons_self, fun key hkey hless ↦ ?_⟩
      rcases List.mem_cons.mp hkey with rfl | htail
      · exact hirrefl key List.mem_cons_self hless
      · exact hleast key htail
          (htrans key hkey head List.mem_cons_self least hleastMem hless hbelow)
    · refine ⟨least, hleastMem, fun key hkey ↦ ?_⟩
      rcases List.mem_cons.mp hkey with rfl | htail
      · exact hbelow
      · exact hleast key htail

/-! ### Trees -/

/-- A binary tree with elements in its nodes. -/
inductive SearchTree (α : Type*) where
  | leaf
  | node (left : SearchTree α) (value : α) (right : SearchTree α)

namespace SearchTree

variable {α K : Type*}

/-- The elements in the order of iteration. -/
def toList : SearchTree α → List α
  | leaf => []
  | node left value right => left.toList ++ value :: right.toList

section Operations

variable (keyOf : α → K) (less : K → K → Prop) [DecidableRel less]

/-- The element before the place of a key, with the last element that the search passed on its
left. -/
def predecessor (key : K) : SearchTree α → Option α → Option α
  | leaf, last => last
  | node left value right, last =>
    if less key (keyOf value) then predecessor key left last
    else predecessor key right (some value)

/-- The tree with a new element at the place of its key. -/
def place (new : α) : SearchTree α → SearchTree α
  | leaf => node leaf new leaf
  | node left value right =>
    if less (keyOf new) (keyOf value) then node (place new left) value right
    else node left value (place new right)

/-- Inserts an element, unless the key of the element before its place is not below its own. -/
def insert (new : α) (tree : SearchTree α) : SearchTree α :=
  if ∀ before ∈ tree.predecessor keyOf less (keyOf new) none, less (keyOf before) (keyOf new) then
    tree.place keyOf less new
  else tree

/-- The first element whose key is not below a key, with the last one that the search passed on its
right. -/
def lowerBound (key : K) : SearchTree α → Option α → Option α
  | leaf, best => best
  | node left value right, best =>
    if less (keyOf value) key then lowerBound key right best
    else lowerBound key left (some value)

/-- The element of a key. -/
def find (key : K) (tree : SearchTree α) : Option α :=
  (tree.lowerBound keyOf less key none).filter fun found ↦ ¬ less key (keyOf found)

/-- The trees over some keys: the empty one, and what insertions make of one, or changes that bring
in no key. -/
inductive Grown (keys : Set K) : SearchTree α → Prop
  | empty : Grown keys leaf
  | insert {tree : SearchTree α} {new : α} : Grown keys tree → keyOf new ∈ keys →
    Grown keys (tree.insert keyOf less new)
  | change {tree changed : SearchTree α} : Grown keys tree →
    (changed.toList.map keyOf).Sublist (tree.toList.map keyOf) → Grown keys changed

/-- A tree has no key twice, and finds for each of some keys what it holds under it. -/
structure Holds (keys : Set K) (tree : SearchTree α) : Prop where
  nodup : (tree.toList.map keyOf).Nodup
  find_iff : ∀ key ∈ keys, ∀ found,
    tree.find keyOf less key = some found ↔ found ∈ tree.toList ∧ keyOf found = key

end Operations

variable {keyOf : α → K} {less : K → K → Prop} {keys : Set K}

/-- The keys of a tree are some of the keys and stand in increasing order. -/
structure Sorted (keyOf : α → K) (less : K → K → Prop) (keys : Set K) (elements : List α) :
    Prop where
  mem : ∀ element ∈ elements, keyOf element ∈ keys
  increasing : elements.Pairwise fun earlier later ↦ less (keyOf earlier) (keyOf later)

theorem Sorted.of_append {earlier later : List α}
    (hsorted : Sorted keyOf less keys (earlier ++ later)) :
    Sorted keyOf less keys earlier ∧ Sorted keyOf less keys later ∧
      ∀ first ∈ earlier, ∀ second ∈ later, less (keyOf first) (keyOf second) := by
  obtain ⟨hearlier, hlater, hcross⟩ := List.pairwise_append.mp hsorted.increasing
  exact ⟨⟨fun element hmem ↦ hsorted.mem element (List.mem_append_left _ hmem), hearlier⟩,
    ⟨fun element hmem ↦ hsorted.mem element (List.mem_append_right _ hmem), hlater⟩, hcross⟩

/-- The parts of a sorted node. -/
theorem Sorted.of_node {left right : SearchTree α} {value : α}
    (hsorted : Sorted keyOf less keys (node left value right).toList) :
    Sorted keyOf less keys left.toList ∧ Sorted keyOf less keys right.toList ∧
      keyOf value ∈ keys ∧ (∀ element ∈ left.toList, less (keyOf element) (keyOf value)) ∧
      ∀ element ∈ right.toList, less (keyOf value) (keyOf element) := by
  obtain ⟨hleft, htail, hcross⟩ := Sorted.of_append hsorted
  obtain ⟨hvalue, hincreasing⟩ := List.pairwise_cons.mp htail.increasing
  exact ⟨hleft, ⟨fun element hmem ↦ htail.mem element (List.mem_cons_of_mem value hmem),
    hincreasing⟩, htail.mem value List.mem_cons_self,
    fun element hmem ↦ hcross element hmem value List.mem_cons_self, hvalue⟩

/-- What is above the last element of a sorted list is above all of them. -/
theorem Sorted.less_of_getLast? {before : List α} {last : α} {key : K}
    (hsorted : Sorted keyOf less keys before)
    (horder : StrictTotalOn less keys) (hkey : key ∈ keys)
    (hlast : before.getLast? = some last) (hless : less (keyOf last) key) :
    ∀ element ∈ before, less (keyOf element) key := by
  obtain ⟨earlier, rfl⟩ := List.getLast?_eq_some_iff.mp hlast
  obtain ⟨hearlier, hsingle, hcross⟩ := Sorted.of_append hsorted
  have hmemLast := List.mem_singleton_self last
  intro element hmem
  rcases List.mem_append.mp hmem with hmemEarlier | hmemSingle
  · exact horder.trans _ (hearlier.mem element hmemEarlier) _ (hsingle.mem last hmemLast) _ hkey
      (hcross element hmemEarlier last hmemLast) hless
  · exact List.mem_singleton.mp hmemSingle ▸ hless

/-! ### Insertion -/

variable [DecidableRel less]

/-- A new element stands between the elements that are not above it and those that are. -/
theorem place_spec (horder : StrictTotalOn less keys) {new : α} (hnew : keyOf new ∈ keys)
    {tree : SearchTree α} (hsorted : Sorted keyOf less keys tree.toList) (last : Option α) :
    ∃ before after, tree.toList = before ++ after ∧
      (tree.place keyOf less new).toList = before ++ new :: after ∧
      tree.predecessor keyOf less (keyOf new) last = before.getLast?.or last ∧
      (∀ element ∈ before, ¬ less (keyOf new) (keyOf element)) ∧
      ∀ element ∈ after, less (keyOf new) (keyOf element) := by
  induction tree generalizing last with
  | leaf => exact ⟨[], [], rfl, rfl, rfl, by simp, by simp⟩
  | node left value right ihLeft ihRight =>
    obtain ⟨hleft, hright, hvalue, hbelow, habove⟩ := hsorted.of_node
    unfold place predecessor
    by_cases hless : less (keyOf new) (keyOf value)
    · obtain ⟨before, after, hlist, hplace, hlast, hbefore, hafter⟩ := ihLeft hleft last
      refine ⟨before, after ++ value :: right.toList, ?_, ?_, ?_, hbefore, fun element hmem ↦ ?_⟩
      · simp [toList, hlist]
      · simp [toList, hplace, if_pos hless]
      · rw [if_pos hless, hlast]
      · rcases List.mem_append.mp hmem with hmemAfter | hmemValue
        · exact hafter element hmemAfter
        rcases List.mem_cons.mp hmemValue with rfl | hmemRight
        · exact hless
        · exact horder.trans _ hnew _ hvalue _ (hright.mem element hmemRight) hless
            (habove element hmemRight)
    · obtain ⟨before, after, hlist, hplace, hlast, hbefore, hafter⟩ := ihRight hright (some value)
      refine ⟨left.toList ++ value :: before, after, ?_, ?_, ?_, fun element hmem ↦ ?_, hafter⟩
      · simp [toList, hlist]
      · simp [toList, hplace, if_neg hless]
      · rw [if_neg hless, hlast, List.getLast?_append, List.getLast?_cons]
        cases before.getLast? with
        | none => rfl
        | some found => rfl
      · rcases List.mem_append.mp hmem with hmemLeft | hmemValue
        · exact fun hnewLess ↦ hless (horder.trans _ hnew _ (hleft.mem element hmemLeft) _ hvalue
            hnewLess (hbelow element hmemLeft))
        rcases List.mem_cons.mp hmemValue with rfl | hmemBefore
        · exact hless
        · exact hbefore element hmemBefore

/-- An insertion keeps the order. -/
theorem insert_sorted (horder : StrictTotalOn less keys) {new : α} (hnew : keyOf new ∈ keys)
    {tree : SearchTree α} (hsorted : Sorted keyOf less keys tree.toList) :
    Sorted keyOf less keys (tree.insert keyOf less new).toList := by
  obtain ⟨before, after, hlist, hplace, hlast, -, hafter⟩ := place_spec horder hnew hsorted none
  rw [hlist] at hsorted
  obtain ⟨hsortedBefore, hsortedAfter, hcross⟩ := Sorted.of_append hsorted
  rw [insert, hlast, Option.or_none]
  split_ifs with hcondition
  · have hbelow : ∀ element ∈ before, less (keyOf element) (keyOf new) := by
      cases hend : before.getLast? with
      | none => simp [List.getLast?_eq_none_iff.mp hend]
      | some last =>
        exact hsortedBefore.less_of_getLast? horder hnew hend (hcondition last hend)
    rw [hplace]
    constructor
    · intro element hmem
      rcases List.mem_append.mp hmem with hmemBefore | hmemNew
      · exact hsortedBefore.mem element hmemBefore
      · rcases List.mem_cons.mp hmemNew with rfl | hmemAfter
        · exact hnew
        · exact hsortedAfter.mem element hmemAfter
    · refine List.pairwise_append.mpr ⟨hsortedBefore.increasing,
        List.pairwise_cons.mpr ⟨hafter, hsortedAfter.increasing⟩,
        fun first hfirst second hsecond ↦ ?_⟩
      rcases List.mem_cons.mp hsecond with rfl | hmemAfter
      · exact hbelow first hfirst
      · exact hcross first hfirst second hmemAfter
  · exact hlist ▸ hsorted

/-! ### Search -/

/-- In a sorted tree the search ends at the first element that is not below the key. -/
theorem lowerBound_eq (horder : StrictTotalOn less keys) {key : K} (hkey : key ∈ keys)
    {tree : SearchTree α} (hsorted : Sorted keyOf less keys tree.toList) (best : Option α) :
    tree.lowerBound keyOf less key best =
      (tree.toList.find? fun element ↦ ¬ less (keyOf element) key).or best := by
  induction tree generalizing best with
  | leaf => rfl
  | node left value right ihLeft ihRight =>
    obtain ⟨hleft, hright, hvalue, hbelow, -⟩ := hsorted.of_node
    rw [lowerBound, toList, List.find?_append]
    by_cases hless : less (keyOf value) key
    · have hnone : left.toList.find? (fun element ↦ ¬ less (keyOf element) key) = none := by
        refine List.find?_eq_none.mpr fun element hmem ↦ ?_
        simpa using horder.trans _ (hleft.mem element hmem) _ hvalue _ hkey (hbelow element hmem)
          hless
      rw [if_pos hless, ihRight hright, hnone, Option.none_or,
        List.find?_cons_of_neg (by simpa using hless)]
    · rw [if_neg hless, ihLeft hleft, List.find?_cons_of_pos (by simpa using hless)]
      cases left.toList.find? fun element ↦ ¬ less (keyOf element) key with
      | none => rfl
      | some found => rfl

/-- A sorted tree finds under a key what it holds under it. -/
theorem find_eq_some_iff (horder : StrictTotalOn less keys) {key : K} (hkey : key ∈ keys)
    {tree : SearchTree α} (hsorted : Sorted keyOf less keys tree.toList) {found : α} :
    tree.find keyOf less key = some found ↔ found ∈ tree.toList ∧ keyOf found = key := by
  rw [find, lowerBound_eq horder hkey hsorted, Option.or_none, Option.filter_eq_some_iff]
  constructor
  · rintro ⟨hfirst, hnotAbove⟩
    have hmem := List.mem_of_find?_eq_some hfirst
    have hnotBelow := List.find?_some hfirst
    exact ⟨hmem, horder.eq_of_not_less (hsorted.mem found hmem) hkey (by simpa using hnotBelow)
      (by simpa using hnotAbove)⟩
  · rintro ⟨hmem, rfl⟩
    obtain ⟨before, after, hlist⟩ := List.append_of_mem hmem
    have hself := horder.irrefl (keyOf found) hkey
    refine ⟨List.find?_eq_some_iff_append.mpr ⟨by simpa using hself, before, after, hlist, ?_⟩,
      by simpa using hself⟩
    rw [hlist] at hsorted
    obtain ⟨-, -, hcross⟩ := Sorted.of_append hsorted
    intro element hbefore
    simpa using hcross element hbefore found List.mem_cons_self

/-- What is found is an element whose key and the key looked for are not below each other. -/
theorem find_spec {key : K} {tree : SearchTree α} {found : α}
    (hfind : tree.find keyOf less key = some found) :
    found ∈ tree.toList ∧ ¬ less (keyOf found) key ∧ ¬ less key (keyOf found) := by
  have hbound : ∀ (tree : SearchTree α) (best : Option α),
      tree.lowerBound keyOf less key best = some found →
      best = some found ∨ found ∈ tree.toList ∧ ¬ less (keyOf found) key := by
    intro tree
    induction tree with
    | leaf => exact fun best hbest ↦ Or.inl hbest
    | node left value right ihLeft ihRight =>
      intro best hbest
      rw [lowerBound] at hbest
      have hleft : found ∈ left.toList → found ∈ (node left value right).toList :=
        fun hmem ↦ List.mem_append_left _ hmem
      have hright : found ∈ right.toList → found ∈ (node left value right).toList :=
        fun hmem ↦ List.mem_append_right _ (List.mem_cons_of_mem value hmem)
      split_ifs at hbest with hless
      · exact (ihRight best hbest).imp_right fun hfound ↦ ⟨hright hfound.1, hfound.2⟩
      · refine Or.inr ?_
        rcases ihLeft (some value) hbest with hvalue | hfound
        · obtain rfl := Option.some.inj hvalue
          exact ⟨List.mem_append_right _ List.mem_cons_self, hless⟩
        · exact ⟨hleft hfound.1, hfound.2⟩
  obtain ⟨hlower, hnotAbove⟩ := Option.filter_eq_some_iff.mp hfind
  obtain ⟨hmem, hnotBelow⟩ := (hbound tree none hlower).resolve_left
    (Option.some_ne_none found).symm
  exact ⟨hmem, hnotBelow, of_decide_eq_true hnotAbove⟩

/-- An insertion brings in the new element only. -/
theorem mem_of_mem_insert {new element : α} {tree : SearchTree α}
    (hmem : element ∈ (tree.insert keyOf less new).toList) :
    element = new ∨ element ∈ tree.toList := by
  have hplace : element ∈ (tree.place keyOf less new).toList →
      element = new ∨ element ∈ tree.toList := by
    clear hmem
    induction tree with
    | leaf => exact fun hleaf ↦ Or.inl (List.mem_singleton.mp hleaf)
    | node left value right ihLeft ihRight =>
      rw [place]
      split_ifs <;> simp only [toList, List.mem_append, List.mem_cons] <;> tauto
  rw [insert] at hmem
  split_ifs at hmem
  · exact hplace hmem
  · exact Or.inr hmem

/-! ### Insertion at the end -/

/-- The place of an element above all others is at the end. -/
theorem place_above {new : α} {tree : SearchTree α}
    (habove : ∀ element ∈ tree.toList, ¬ less (keyOf new) (keyOf element)) (last : Option α) :
    (tree.place keyOf less new).toList = tree.toList ++ [new] ∧
      tree.predecessor keyOf less (keyOf new) last = tree.toList.getLast?.or last := by
  induction tree generalizing last with
  | leaf => exact ⟨rfl, rfl⟩
  | node left value right ihLeft ihRight =>
    have hvalue := habove value (List.mem_append_right _ List.mem_cons_self)
    obtain ⟨hplace, hlast⟩ := ihRight (fun element hmem ↦
      habove element (List.mem_append_right _ (List.mem_cons_of_mem value hmem))) (some value)
    rw [place, predecessor, if_neg hvalue, if_neg hvalue, hlast]
    refine ⟨by rw [toList, hplace, toList, List.append_assoc, List.cons_append], ?_⟩
    rw [toList, List.getLast?_append, List.getLast?_cons]
    cases right.toList.getLast? with
    | none => rfl
    | some found => rfl

/-- An element above all others gets its place at the end, and is above the one before it. -/
theorem place_above_all {new : α} {tree : SearchTree α}
    (habove : ∀ element ∈ tree.toList, less (keyOf element) (keyOf new) ∧
      ¬ less (keyOf new) (keyOf element)) :
    (tree.place keyOf less new).toList = tree.toList ++ [new] ∧
      ∀ before ∈ tree.predecessor keyOf less (keyOf new) none, less (keyOf before) (keyOf new) := by
  obtain ⟨hplace, hlast⟩ := place_above (fun element hmem ↦ (habove element hmem).2) none
  refine ⟨hplace, fun before hbefore ↦ ?_⟩
  rw [hlast, Option.or_none] at hbefore
  exact (habove before (List.mem_of_getLast? hbefore)).1

/-- An element above all others is inserted at the end. -/
theorem toList_insert_above {new : α} {tree : SearchTree α}
    (habove : ∀ element ∈ tree.toList, less (keyOf element) (keyOf new) ∧
      ¬ less (keyOf new) (keyOf element)) :
    (tree.insert keyOf less new).toList = tree.toList ++ [new] := by
  obtain ⟨hplace, hbefore⟩ := place_above_all habove
  rw [insert, if_pos hbefore, hplace]

/-! ### Keys of which the comparison sees a part -/

section View

variable {L : Type*} {seen : K → L} {lessSeen : L → L → Prop} [DecidableRel lessSeen]

/-- The search for a key looks only at what the comparison sees. -/
theorem find_view (hview : ∀ first second, less first second ↔ lessSeen (seen first) (seen second))
    (key : K) (tree : SearchTree α) :
    tree.find (seen ∘ keyOf) lessSeen (seen key) = tree.find keyOf less key := by
  have hbound : ∀ best, tree.lowerBound (seen ∘ keyOf) lessSeen (seen key) best =
      tree.lowerBound keyOf less key best := by
    induction tree with
    | leaf => exact fun best ↦ rfl
    | node left value right ihLeft ihRight =>
      intro best
      simp only [lowerBound, Function.comp_apply, ← hview, ihLeft, ihRight]
  simp only [find, hbound, Function.comp_apply, ← hview]

/-- An insertion looks only at what the comparison sees. -/
theorem insert_view
    (hview : ∀ first second, less first second ↔ lessSeen (seen first) (seen second)) (new : α)
    (tree : SearchTree α) :
    tree.insert (seen ∘ keyOf) lessSeen new = tree.insert keyOf less new := by
  have hplace : tree.place (seen ∘ keyOf) lessSeen new = tree.place keyOf less new := by
    induction tree with
    | leaf => rfl
    | node left value right ihLeft ihRight =>
      simp only [place, Function.comp_apply, ← hview, ihLeft, ihRight]
  have hlast : ∀ last, tree.predecessor (seen ∘ keyOf) lessSeen (seen (keyOf new)) last =
      tree.predecessor keyOf less (keyOf new) last := by
    clear hplace
    induction tree with
    | leaf => exact fun last ↦ rfl
    | node left value right ihLeft ihRight =>
      intro last
      simp only [predecessor, Function.comp_apply, ← hview, ihLeft, ihRight]
  simp only [insert, hplace, hlast, Function.comp_apply, ← hview]

/-- A tree over some keys is a tree over what the comparison sees of them. -/
theorem Grown.view
    (hview : ∀ first second, less first second ↔ lessSeen (seen first) (seen second))
    {tree : SearchTree α} (hgrown : Grown keyOf less keys tree) :
    Grown (seen ∘ keyOf) lessSeen (Set.image seen keys) tree := by
  induction hgrown with
  | empty => exact Grown.empty
  | @insert tree new _ hnew ih =>
    rw [← insert_view hview]
    exact ih.insert (Set.mem_image_of_mem seen hnew)
  | change _ hsublist ih =>
    refine ih.change ?_
    rw [← List.map_map, ← List.map_map]
    exact hsublist.map seen

end View

/-! ### Trees that have grown -/

theorem Grown.mem {tree : SearchTree α} (hgrown : Grown keyOf less keys tree) :
    ∀ element ∈ tree.toList, keyOf element ∈ keys := by
  induction hgrown with
  | empty => exact fun element hmem ↦ absurd hmem List.not_mem_nil
  | insert _ hnew ih =>
    intro element hmem
    rcases mem_of_mem_insert hmem with rfl | htree
    · exact hnew
    · exact ih element htree
  | change _ hsublist ih =>
    intro element hmem
    obtain ⟨other, hother, hkey⟩ := List.mem_map.mp (hsublist.subset (List.mem_map_of_mem hmem))
    exact hkey ▸ ih other hother

theorem Grown.sorted (horder : StrictTotalOn less keys) {tree : SearchTree α}
    (hgrown : Grown keyOf less keys tree) : Sorted keyOf less keys tree.toList := by
  induction hgrown with
  | empty => exact ⟨by simp [toList], List.Pairwise.nil⟩
  | insert _ hnew ih => exact insert_sorted horder hnew ih
  | @change tree changed hgrown hsublist ih =>
    refine ⟨(hgrown.change hsublist).mem, ?_⟩
    have hkeys : (tree.toList.map keyOf).Pairwise less := List.pairwise_map.mpr ih.increasing
    exact List.pairwise_map.mp (hkeys.sublist hsublist)

/-- On keys on which the comparison is a strict total order, a tree that has grown has no key twice
and finds what it holds. -/
theorem Grown.holds (horder : StrictTotalOn less keys) {tree : SearchTree α}
    (hgrown : Grown keyOf less keys tree) : tree.Holds keyOf less keys := by
  have hsorted := hgrown.sorted horder
  refine ⟨?_, fun key hkey found ↦ find_eq_some_iff horder hkey hsorted⟩
  refine List.pairwise_map.mpr (hsorted.increasing.imp_of_mem ?_)
  intro first second hfirst hsecond hless heq
  exact horder.irrefl _ (hsorted.mem second hsecond) (heq ▸ hless)

end SearchTree

end RocketMQClient.Library
