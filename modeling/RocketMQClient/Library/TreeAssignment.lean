import RocketMQClient.Library.SearchTree

/-!
# Assignments in search trees

A map of the C++ standard library is a search tree of pairs. `setFound` is an assignment through the
iterator that `find` returns, and `assign` the assignment `map[key] = value`: it inserts an element,
or changes the element that prevents the insertion. Both go down to the element they change without
checking that the comparison is an order.

On keys on which the comparison is a strict total order, both change the one element of a key and no
other (`mem_setFound`, `mem_assign`).
-/

set_option autoImplicit false
set_option relaxedAutoImplicit false

namespace RocketMQClient.Library

namespace SearchTree

variable {α K : Type*}

section Operations

variable (keyOf : α → K) (less : K → K → Prop) [DecidableRel less]

/-- The tree in which the first element that is not below a key has been changed, when there is
one. -/
def changeLowerBound (key : K) (change : α → α) : SearchTree α → Option (SearchTree α)
  | leaf => none
  | node left value right =>
    if less (keyOf value) key then
      (changeLowerBound key change right).map fun changed ↦ node left value changed
    else
      match changeLowerBound key change left with
      | some changed => some (node changed value right)
      | none => some (node left (change value) right)

/-- The tree in which the element that is found for a key has been changed. -/
def setFound (key : K) (change : α → α) (tree : SearchTree α) : SearchTree α :=
  if (tree.find keyOf less key).isSome then
    (tree.changeLowerBound keyOf less key change).getD tree
  else tree

/-- The tree in which the element before the place of a key has been changed, when there is one. -/
def changePredecessor (key : K) (change : α → α) : SearchTree α → Option (SearchTree α)
  | leaf => none
  | node left value right =>
    if less key (keyOf value) then
      (changePredecessor key change left).map fun changed ↦ node changed value right
    else
      match changePredecessor key change right with
      | some changed => some (node left value changed)
      | none => some (node left (change value) right)

/-- The tree with a new element, or in which the element that prevents its insertion has been
changed. -/
def assign (new : α) (change : α → α) (tree : SearchTree α) : SearchTree α :=
  if ∀ before ∈ tree.predecessor keyOf less (keyOf new) none, less (keyOf before) (keyOf new) then
    tree.place keyOf less new
  else (tree.changePredecessor keyOf less (keyOf new) change).getD tree

end Operations

/-- One tree has the elements of another, in the same order, with one of them changed. -/
def ChangedAt (found : α) (change : α → α) (tree changed : SearchTree α) : Prop :=
  ∃ before after, tree.toList = before ++ found :: after ∧
    changed.toList = before ++ change found :: after

variable {keyOf : α → K} {less : K → K → Prop} {keys : Set K}

theorem ChangedAt.left {found value : α} {change : α → α} {tree changed : SearchTree α}
    (hchanged : ChangedAt found change tree changed) (right : SearchTree α) :
    ChangedAt found change (node tree value right) (node changed value right) := by
  obtain ⟨before, after, htree, hresult⟩ := hchanged
  exact ⟨before, after ++ value :: right.toList, by simp [toList, htree],
    by simp [toList, hresult]⟩

theorem ChangedAt.right {found value : α} {change : α → α} {tree changed : SearchTree α}
    (hchanged : ChangedAt found change tree changed) (left : SearchTree α) :
    ChangedAt found change (node left value tree) (node left value changed) := by
  obtain ⟨before, after, htree, hresult⟩ := hchanged
  exact ⟨left.toList ++ value :: before, after, by simp [toList, htree],
    by simp [toList, hresult]⟩

/-- A change that keeps the key keeps the order, and changes one element. -/
theorem ChangedAt.sorted (horder : StrictTotalOn less keys) {found : α} {change : α → α}
    (hkey : keyOf (change found) = keyOf found) {tree changed : SearchTree α}
    (hsorted : Sorted keyOf less keys tree.toList)
    (hchanged : ChangedAt found change tree changed) :
    Sorted keyOf less keys changed.toList ∧ ∀ element, element ∈ changed.toList ↔
      element = change found ∨ element ∈ tree.toList ∧ keyOf element ≠ keyOf found := by
  obtain ⟨before, after, htree, hresult⟩ := hchanged
  rw [htree] at hsorted
  have hkeys : (before ++ change found :: after).map keyOf =
      (before ++ found :: after).map keyOf := by
    simp [hkey]
  refine ⟨⟨fun element hmem ↦ ?_, ?_⟩, fun element ↦ ?_⟩
  · rw [hresult] at hmem
    have hmapped := List.mem_map_of_mem (f := keyOf) hmem
    rw [hkeys] at hmapped
    obtain ⟨other, hother, hsame⟩ := List.mem_map.mp hmapped
    exact hsame ▸ hsorted.mem other hother
  · have hincreasing := List.pairwise_map.mpr hsorted.increasing
    rw [hresult]
    exact List.pairwise_map.mp (hkeys ▸ hincreasing)
  · have hfound := hsorted.mem found (List.mem_append_right _ List.mem_cons_self)
    obtain ⟨-, htail, hcross⟩ := Sorted.of_append hsorted
    have hbehind := (List.pairwise_cons.mp htail.increasing).1
    have hbefore : ∀ other ∈ before, keyOf other ≠ keyOf found := fun other hother hsame ↦
      horder.irrefl _ hfound (hsame ▸ hcross other hother found List.mem_cons_self)
    have hafter : ∀ other ∈ after, keyOf other ≠ keyOf found := fun other hother hsame ↦
      horder.irrefl _ hfound (hsame ▸ hbehind other hother)
    rw [hresult, htree]
    simp only [List.mem_append, List.mem_cons]
    constructor
    · rintro (hmem | rfl | hmem)
      · exact Or.inr ⟨Or.inl hmem, hbefore element hmem⟩
      · exact Or.inl rfl
      · exact Or.inr ⟨Or.inr (Or.inr hmem), hafter element hmem⟩
    · rintro (rfl | ⟨hmem | rfl | hmem, hne⟩)
      · exact Or.inr (Or.inl rfl)
      · exact Or.inl hmem
      · exact absurd rfl hne
      · exact Or.inr (Or.inr hmem)

variable [DecidableRel less]

/-- An element that the search has passed is the result only when there is none below. -/
theorem lowerBound_eq_or (key : K) (tree : SearchTree α) (best : Option α) :
    tree.lowerBound keyOf less key best = (tree.lowerBound keyOf less key none).or best := by
  induction tree generalizing best with
  | leaf => rfl
  | node left value right ihLeft ihRight =>
    unfold lowerBound
    split_ifs
    · exact ihRight best
    · rw [ihLeft (some value)]
      cases left.lowerBound keyOf less key none <;> rfl

theorem predecessor_eq_or (key : K) (tree : SearchTree α) (last : Option α) :
    tree.predecessor keyOf less key last = (tree.predecessor keyOf less key none).or last := by
  induction tree generalizing last with
  | leaf => rfl
  | node left value right ihLeft ihRight =>
    unfold predecessor
    split_ifs
    · exact ihLeft last
    · rw [ihRight (some value)]
      cases right.predecessor keyOf less key none <;> rfl

/-- The change is made at the end of the search. -/
theorem changeLowerBound_eq (key : K) (change : α → α) (tree : SearchTree α) :
    (tree.lowerBound keyOf less key none = none ∧
      tree.changeLowerBound keyOf less key change = none) ∨
    ∃ found changed, tree.lowerBound keyOf less key none = some found ∧
      tree.changeLowerBound keyOf less key change = some changed ∧
      ChangedAt found change tree changed := by
  induction tree with
  | leaf => exact Or.inl ⟨rfl, rfl⟩
  | node left value right ihLeft ihRight =>
    unfold lowerBound changeLowerBound
    split_ifs with hless
    · rcases ihRight with ⟨hbound, hchange⟩ | ⟨found, changed, hbound, hchange, hchanged⟩
      · exact Or.inl ⟨hbound, by rw [hchange]; rfl⟩
      · exact Or.inr ⟨found, _, hbound, by rw [hchange]; rfl, hchanged.right left⟩
    · rw [lowerBound_eq_or]
      rcases ihLeft with ⟨hbound, hchange⟩ | ⟨found, changed, hbound, hchange, hchanged⟩
      · refine Or.inr ⟨value, _, by rw [hbound]; rfl, by rw [hchange], left.toList, right.toList,
          rfl, rfl⟩
      · exact Or.inr ⟨found, _, by rw [hbound]; rfl, by rw [hchange], hchanged.left right⟩

theorem changePredecessor_eq (key : K) (change : α → α) (tree : SearchTree α) :
    (tree.predecessor keyOf less key none = none ∧
      tree.changePredecessor keyOf less key change = none) ∨
    ∃ found changed, tree.predecessor keyOf less key none = some found ∧
      tree.changePredecessor keyOf less key change = some changed ∧
      ChangedAt found change tree changed := by
  induction tree with
  | leaf => exact Or.inl ⟨rfl, rfl⟩
  | node left value right ihLeft ihRight =>
    unfold predecessor changePredecessor
    split_ifs with hless
    · rcases ihLeft with ⟨hbound, hchange⟩ | ⟨found, changed, hbound, hchange, hchanged⟩
      · exact Or.inl ⟨hbound, by rw [hchange]; rfl⟩
      · exact Or.inr ⟨found, _, hbound, by rw [hchange]; rfl, hchanged.left right⟩
    · rw [predecessor_eq_or]
      rcases ihRight with ⟨hbound, hchange⟩ | ⟨found, changed, hbound, hchange, hchanged⟩
      · refine Or.inr ⟨value, _, by rw [hbound]; rfl, by rw [hchange], left.toList, right.toList,
          rfl, rfl⟩
      · exact Or.inr ⟨found, _, by rw [hbound]; rfl, by rw [hchange], hchanged.right left⟩

/-- An element above all others is added at the end. -/
theorem toList_assign_above {new : α} {change : α → α} {tree : SearchTree α}
    (habove : ∀ element ∈ tree.toList, less (keyOf element) (keyOf new) ∧
      ¬ less (keyOf new) (keyOf element)) :
    (tree.assign keyOf less new change).toList = tree.toList ++ [new] := by
  obtain ⟨hplace, hbefore⟩ := place_above_all habove
  rw [assign, if_pos hbefore, hplace]

/-! ### On keys in order -/

/-- A found element is changed, and the others stay. -/
theorem mem_setFound (horder : StrictTotalOn less keys) {key : K} {change : α → α}
    (hkey : ∀ element, keyOf (change element) = keyOf element) {tree : SearchTree α}
    (hsorted : Sorted keyOf less keys tree.toList) {found : α}
    (hfind : tree.find keyOf less key = some found) (hmem : key ∈ keys) :
    Sorted keyOf less keys (tree.setFound keyOf less key change).toList ∧
      ∀ element, element ∈ (tree.setFound keyOf less key change).toList ↔
        element = change found ∨ element ∈ tree.toList ∧ keyOf element ≠ key := by
  have hfoundKey := ((find_eq_some_iff horder hmem hsorted).mp hfind).2
  rw [setFound, hfind, Option.isSome_some, if_pos rfl]
  obtain ⟨hbound, -⟩ := Option.filter_eq_some_iff.mp hfind
  rcases @changeLowerBound_eq _ _ keyOf less _ key change tree with ⟨hnone, -⟩ |
    ⟨other, changed, hother, hchange, hchanged⟩
  · exact absurd (hbound.symm.trans hnone) (Option.some_ne_none found)
  · obtain rfl := Option.some.inj (hother.symm.trans hbound)
    rw [hchange, Option.getD_some]
    exact hfoundKey ▸ hchanged.sorted horder (hkey other) hsorted

/-- The place of a key between the elements. -/
theorem exists_place (horder : StrictTotalOn less keys) {new : α} (hnew : keyOf new ∈ keys)
    {tree : SearchTree α} (hsorted : Sorted keyOf less keys tree.toList) :
    ∃ before after, tree.toList = before ++ after ∧
      (tree.place keyOf less new).toList = before ++ new :: after ∧
      tree.predecessor keyOf less (keyOf new) none = before.getLast? ∧
      (∀ element ∈ before, ¬ less (keyOf new) (keyOf element)) ∧
      ∀ element ∈ after, less (keyOf new) (keyOf element) := by
  have hplace := place_spec horder hnew hsorted none
  simpa only [Option.or_none] using hplace

/-- Nothing prevents the insertion of a key that is not found. -/
theorem less_of_find_eq_none (horder : StrictTotalOn less keys) {new : α} (hnew : keyOf new ∈ keys)
    {tree : SearchTree α} (hsorted : Sorted keyOf less keys tree.toList)
    (hfind : tree.find keyOf less (keyOf new) = none) :
    ∀ before ∈ tree.predecessor keyOf less (keyOf new) none, less (keyOf before) (keyOf new) := by
  obtain ⟨before, after, hlist, -, hlast, hbefore, -⟩ := exists_place horder hnew hsorted
  intro last hmem
  rw [hlast] at hmem
  have hlastMem := List.mem_of_getLast? hmem
  have htree : last ∈ tree.toList := hlist ▸ List.mem_append_left _ hlastMem
  by_contra hnot
  have hsame := horder.eq_of_not_less (hsorted.mem last htree) hnew hnot (hbefore last hlastMem)
  have hfound := (find_eq_some_iff horder hnew hsorted).mpr ⟨htree, hsame⟩
  exact Option.some_ne_none last (hfound.symm.trans hfind)

/-- A key that is not found gets its element, and the others stay. -/
theorem mem_insert (horder : StrictTotalOn less keys) {new : α} (hnew : keyOf new ∈ keys)
    {tree : SearchTree α} (hsorted : Sorted keyOf less keys tree.toList)
    (hfind : tree.find keyOf less (keyOf new) = none) (element : α) :
    element ∈ (tree.insert keyOf less new).toList ↔ element = new ∨ element ∈ tree.toList := by
  obtain ⟨before, after, hlist, hplace, -⟩ := exists_place horder hnew hsorted
  rw [insert, if_pos (less_of_find_eq_none horder hnew hsorted hfind), hplace, hlist]
  simp only [List.mem_append, List.mem_cons]
  tauto

/-- The element of a key that is found is the one before its place. -/
theorem predecessor_eq_of_find (horder : StrictTotalOn less keys) {key : K} (hkey : key ∈ keys)
    {tree : SearchTree α} (hsorted : Sorted keyOf less keys tree.toList) {found : α}
    (hfind : tree.find keyOf less key = some found) :
    tree.predecessor keyOf less key none = some found := by
  obtain ⟨hmem, rfl⟩ := (find_eq_some_iff horder hkey hsorted).mp hfind
  obtain ⟨before, after, hlist, -, hlast, hbefore, hafter⟩ := exists_place horder hkey hsorted
  have hfoundMem : found ∈ before := by
    rw [hlist] at hmem
    exact (List.mem_append.mp hmem).resolve_right fun hbehind ↦
      horder.irrefl _ hkey (hafter found hbehind)
  obtain ⟨last, hend⟩ : ∃ last, before.getLast? = some last :=
    ⟨_, List.getLast?_eq_some_getLast (List.ne_nil_of_mem hfoundMem)⟩
  obtain ⟨earlier, rfl⟩ := List.getLast?_eq_some_iff.mp hend
  rw [hlast, hend]
  rcases List.mem_append.mp hfoundMem with hearlier | hsame
  · have hsortedBefore := (Sorted.of_append (hlist ▸ hsorted)).1
    have hless := (Sorted.of_append hsortedBefore).2.2 found hearlier last
      (List.mem_singleton_self last)
    exact absurd hless (hbefore last (List.mem_append_right _ (List.mem_singleton_self last)))
  · rw [List.mem_singleton.mp hsame]

/-- A key gets its element, or its element is changed, and the others stay. -/
theorem mem_assign (horder : StrictTotalOn less keys) {new : α} {change : α → α}
    (hkey : ∀ element, keyOf (change element) = keyOf element) (hnew : keyOf new ∈ keys)
    {tree : SearchTree α} (hsorted : Sorted keyOf less keys tree.toList) :
    Sorted keyOf less keys (tree.assign keyOf less new change).toList ∧
      ∀ element, element ∈ (tree.assign keyOf less new change).toList ↔
        element = ((tree.find keyOf less (keyOf new)).map change).getD new ∨
          element ∈ tree.toList ∧ keyOf element ≠ keyOf new := by
  cases hfind : tree.find keyOf less (keyOf new) with
  | none =>
    have hassign : tree.assign keyOf less new change = tree.insert keyOf less new := by
      have hcondition := less_of_find_eq_none horder hnew hsorted hfind
      rw [assign, insert, if_pos hcondition, if_pos hcondition]
    rw [hassign]
    refine ⟨insert_sorted horder hnew hsorted, fun element ↦ ?_⟩
    rw [mem_insert horder hnew hsorted hfind]
    refine or_congr_right (and_iff_left_of_imp fun hmem hsame ↦ ?_).symm
    have hfound := (find_eq_some_iff horder hnew hsorted).mpr ⟨hmem, hsame⟩
    exact Option.some_ne_none element (hfound.symm.trans hfind)
  | some found =>
    have hfoundKey := ((find_eq_some_iff horder hnew hsorted).mp hfind).2
    have hpredecessor := predecessor_eq_of_find horder hnew hsorted hfind
    have hprevents : ¬ ∀ before ∈ tree.predecessor keyOf less (keyOf new) none,
        less (keyOf before) (keyOf new) := fun hall ↦
      horder.irrefl _ hnew (hfoundKey ▸ hall found hpredecessor)
    rw [assign, if_neg hprevents]
    rcases @changePredecessor_eq _ _ keyOf less _ (keyOf new) change tree with ⟨hnone, -⟩ |
      ⟨other, changed, hother, hchange, hchanged⟩
    · exact absurd (hpredecessor.symm.trans hnone) (Option.some_ne_none found)
    · obtain rfl := Option.some.inj (hother.symm.trans hpredecessor)
      rw [hchange, Option.getD_some, ← hfoundKey]
      exact hchanged.sorted horder (hkey other) hsorted

end SearchTree

end RocketMQClient.Library
