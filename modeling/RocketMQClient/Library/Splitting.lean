import Mathlib.Data.List.DropRight
import Mathlib.Data.List.Infix

/-!
# Splitting a text at a delimiter

`findFrom` is the search for the first occurrence of a delimiter from a position on, and
`splitLoop` the loop that cuts a text there and goes on behind the delimiter. `Separated` says what
such a list of pieces is: each cut is at the first occurrence in what is left, and the last piece
has none. A text has one such list (`Separated.unique`), the loop finds it for every delimiter that
is not empty (`splitLoop_separated`), and for a delimiter of one item it is `List.splitOn`
(`separated_splitOn`). The pieces joined by the delimiter are the text, and there is one more than
there are occurrences (`Separated.length_eq`).

`trim` removes unwanted items from both ends. What is left is described by `Trimmed`, and a text has
one such part (`Trimmed.unique`).
-/

set_option autoImplicit false
set_option relaxedAutoImplicit false

namespace RocketMQClient.Library

variable {α : Type*} {delimiter text : List α} {pieces : List (List α)}

/-- The pieces of a text between the occurrences of a delimiter, found from left to right. -/
inductive Separated (delimiter : List α) : List α → List (List α) → Prop
  | last (text : List α) (habsent : ¬ delimiter <:+: text) : Separated delimiter text [text]
  | cut (before after : List α) (pieces : List (List α))
      (hfirst : ∀ position < before.length,
        ¬ delimiter <+: (before ++ delimiter ++ after).drop position)
      (hafter : Separated delimiter after pieces) :
      Separated delimiter (before ++ delimiter ++ after) (before :: pieces)

theorem Separated.ne_nil (hpieces : Separated delimiter text pieces) : pieces ≠ [] := by
  cases hpieces <;> exact List.cons_ne_nil _ _

/-- The place of the first occurrence is determined. -/
theorem before_unique {before after otherBefore otherAfter : List α}
    (htext : before ++ delimiter ++ after = otherBefore ++ delimiter ++ otherAfter)
    (hfirst : ∀ position < before.length,
      ¬ delimiter <+: (before ++ delimiter ++ after).drop position)
    (hother : ∀ position < otherBefore.length,
      ¬ delimiter <+: (otherBefore ++ delimiter ++ otherAfter).drop position) :
    before = otherBefore ∧ after = otherAfter := by
  have hhere : ∀ first second : List α,
      delimiter <+: (first ++ delimiter ++ second).drop first.length := fun first second ↦ by
    rw [List.append_assoc, List.drop_left]
    exact List.prefix_append delimiter second
  have hlength : before.length = otherBefore.length := by
    refine le_antisymm (not_lt.mp fun hlt ↦ ?_) (not_lt.mp fun hlt ↦ ?_)
    · exact hfirst _ hlt (htext ▸ hhere otherBefore otherAfter)
    · exact hother _ hlt (htext ▸ hhere before after)
  rw [List.append_assoc, List.append_assoc] at htext
  obtain ⟨hbefore, hrest⟩ := List.append_inj htext hlength
  exact ⟨hbefore, List.append_cancel_left hrest⟩

/-- A text has one list of pieces. -/
theorem Separated.unique {others : List (List α)} (hpieces : Separated delimiter text pieces)
    (hothers : Separated delimiter text others) : pieces = others := by
  induction hpieces generalizing others with
  | last text habsent =>
    cases hothers with
    | last => rfl
    | cut before after pieces => exact absurd ⟨before, after, rfl⟩ habsent
  | cut before after pieces hfirst hafter ih =>
    generalize htext : before ++ delimiter ++ after = whole at hothers
    cases hothers with
    | last _ habsent => exact absurd ⟨before, after, htext⟩ habsent
    | cut otherBefore otherAfter otherPieces hotherFirst hotherAfter =>
      obtain ⟨rfl, rfl⟩ := before_unique htext hfirst hotherFirst
      rw [ih hotherAfter]

/-! ### The loop -/

section Loop

variable [DecidableEq α]

/-- The position of the first occurrence of a delimiter that is not before a position. -/
def findFrom (text delimiter : List α) (left : ℕ) : Option ℕ :=
  (List.range (text.length + 1)).find? fun right ↦
    decide (left ≤ right) && delimiter.isPrefixOf (text.drop right)

/-- The loop that splits a text from a position on, behind the pieces found before. -/
def splitLoop (text delimiter : List α) : ℕ → ℕ → List (List α) → Option (List (List α))
  | 0, _, _ => none
  | fuel + 1, left, out =>
    match findFrom text delimiter left with
    | none => some (out ++ [text.drop left])
    | some right =>
      splitLoop text delimiter fuel (right + delimiter.length)
        (out ++ [(text.drop left).take (right - left)])

theorem findFrom_eq_none_iff {left : ℕ} (hleft : left ≤ text.length) :
    findFrom text delimiter left = none ↔ ¬ delimiter <:+: text.drop left := by
  rw [findFrom, List.find?_eq_none]
  constructor
  · rintro hnone ⟨before, after, htext⟩
    have hlength := congrArg List.length htext
    simp only [List.length_append, List.length_drop] at hlength
    refine hnone (left + before.length) (List.mem_range.mpr (by omega)) ?_
    rw [Bool.and_eq_true, decide_eq_true_iff, List.isPrefixOf_iff_prefix, ← List.drop_drop, ← htext,
      List.append_assoc, List.drop_left]
    exact ⟨Nat.le_add_right _ _, List.prefix_append delimiter after⟩
  · intro habsent right _ hfound
    rw [Bool.and_eq_true, decide_eq_true_iff, List.isPrefixOf_iff_prefix] at hfound
    obtain ⟨offset, rfl⟩ := Nat.exists_eq_add_of_le hfound.1
    rw [← List.drop_drop] at hfound
    exact habsent (hfound.2.isInfix.trans (List.drop_suffix offset _).isInfix)

/-- What is found from a position on is an occurrence, and there is none before it. -/
theorem findFrom_eq_some {left right : ℕ} (hfind : findFrom text delimiter left = some right) :
    ∃ before after, text.drop left = before ++ delimiter ++ after ∧
      right = left + before.length ∧ right + delimiter.length ≤ text.length ∧
      ∀ position < before.length, ¬ delimiter <+: (text.drop left).drop position := by
  obtain ⟨hfound, earlier, later, hrange, hnone⟩ := List.find?_eq_some_iff_append.mp hfind
  rw [Bool.and_eq_true, decide_eq_true_iff, List.isPrefixOf_iff_prefix] at hfound
  obtain ⟨offset, rfl⟩ := Nat.exists_eq_add_of_le hfound.1
  have hright : left + offset < text.length + 1 := by
    rw [← List.mem_range, hrange]
    exact List.mem_append_right _ List.mem_cons_self
  obtain ⟨after, hafter⟩ := hfound.2
  have hoffset : offset ≤ (text.drop left).length := by rw [List.length_drop]; omega
  refine ⟨(text.drop left).take offset, after, ?_, ?_, ?_, ?_⟩
  · rw [List.append_assoc, hafter, ← List.drop_drop, List.take_append_drop]
  · rw [List.length_take, min_eq_left hoffset]
  · have hlength := congrArg List.length hafter
    rw [List.length_append, List.length_drop] at hlength
    omega
  · intro position hposition hoccurs
    rw [List.length_take, min_eq_left hoffset] at hposition
    have hmem : left + position ∈ earlier := by
      have hall := List.mem_range.mpr (show left + position < text.length + 1 by omega)
      have hsorted := @List.pairwise_lt_range (text.length + 1)
      rw [hrange] at hall hsorted
      rcases List.mem_append.mp hall with hbefore | hbehind
      · exact hbefore
      · have hbehind := List.mem_cons.mp hbehind
        have habove := (List.pairwise_cons.mp (List.pairwise_append.mp hsorted).2.1).1
        rcases hbehind with heq | hlater
        · omega
        · have := habove _ hlater
          omega
    have habsent := hnone _ hmem
    rw [List.drop_drop] at hoccurs
    simp [List.isPrefixOf_iff_prefix.mpr hoccurs] at habsent

/-- The loop ends, with the pieces of what was left. -/
theorem splitLoop_separated (hdelimiter : delimiter ≠ []) {fuel left : ℕ}
    (hleft : left ≤ text.length) (hfuel : text.length - left < fuel) (out : List (List α)) :
    ∃ pieces, splitLoop text delimiter fuel left out = some (out ++ pieces) ∧
      Separated delimiter (text.drop left) pieces := by
  induction fuel generalizing left out with
  | zero => omega
  | succ fuel ih =>
    have hpositive := List.length_pos_iff.mpr hdelimiter
    rw [splitLoop]
    cases hfind : findFrom text delimiter left with
    | none =>
      exact ⟨[text.drop left], rfl, .last _ ((findFrom_eq_none_iff hleft).mp hfind)⟩
    | some right =>
      obtain ⟨before, after, htext, rfl, hbound, hfirst⟩ := findFrom_eq_some hfind
      obtain ⟨pieces, hloop, hpieces⟩ := ih hbound (by omega)
        (out ++ [(text.drop left).take (left + before.length - left)])
      have hafter : text.drop (left + before.length + delimiter.length) = after := by
        rw [Nat.add_assoc, ← List.drop_drop, htext, ← List.length_append, List.drop_left]
      have hbefore : (text.drop left).take (left + before.length - left) = before := by
        rw [Nat.add_sub_cancel_left, htext, List.append_assoc, List.take_left]
      rw [hafter] at hpieces
      rw [htext] at hfirst ⊢
      refine ⟨before :: pieces, ?_, .cut before after pieces hfirst hpieces⟩
      rw [← htext]
      show splitLoop text delimiter fuel (left + before.length + delimiter.length) _ = _
      rw [hloop, hbefore, List.append_assoc, List.singleton_append]

/-- Splitting at one item. -/
theorem separated_splitOn (item : α) (text : List α) :
    Separated [item] text (text.splitOn item) := by
  have hsingle : ∀ list : List α, [item] <:+: list ↔ item ∈ list := fun list ↦ by
    constructor
    · exact fun hin ↦ hin.subset (List.mem_singleton_self item)
    · intro hmem
      obtain ⟨before, after, rfl⟩ := List.append_of_mem hmem
      exact ⟨before, after, by simp⟩
  induction hlength : text.length using Nat.strong_induction_on generalizing text with
  | _ length ih =>
    by_cases hmem : item ∈ text
    · obtain ⟨before, after, rfl, hbefore⟩ := List.eq_append_cons_of_mem hmem
      rw [List.splitOn_append_cons_self_of_not_mem hbefore, List.append_cons]
      refine .cut before after _ (fun position hposition hoccurs ↦ ?_)
        (ih after.length (by simp at hlength; omega) after rfl)
      rw [List.append_assoc, List.drop_append_of_le_length hposition.le,
        List.drop_eq_getElem_cons hposition, List.cons_append] at hoccurs
      have hitem := (List.cons_prefix_cons.mp hoccurs).1
      exact hbefore (hitem ▸ List.getElem_mem hposition)
    · rw [List.splitOn_eq_singleton hmem]
      exact .last text fun hin ↦ hmem ((hsingle text).mp hin)

end Loop

/-! ### Joining -/

section Joining

/-- The pieces with the delimiter between them are the text. -/
theorem Separated.intercalate_eq (hpieces : Separated delimiter text pieces) :
    delimiter.intercalate pieces = text := by
  induction hpieces with
  | last text => exact List.intercalate_singleton
  | cut before after pieces hfirst hafter ih =>
    rw [List.intercalate_cons_of_ne_nil hafter.ne_nil, ih]

/-- Nothing before the first occurrence has the delimiter in it. -/
theorem not_infix_before {before after : List α} (hdelimiter : delimiter ≠ [])
    (hfirst : ∀ position < before.length,
      ¬ delimiter <+: (before ++ delimiter ++ after).drop position) :
    ¬ delimiter <:+: before := by
  rintro ⟨earlier, later, rfl⟩
  have hpositive := List.length_pos_iff.mpr hdelimiter
  refine hfirst earlier.length (by simp only [List.length_append]; omega) ?_
  rw [List.append_assoc, List.append_assoc, List.append_assoc, List.drop_left]
  exact List.prefix_append delimiter _

theorem Separated.not_infix (hpieces : Separated delimiter text pieces)
    (hdelimiter : delimiter ≠ []) : ∀ piece ∈ pieces, ¬ delimiter <:+: piece := by
  induction hpieces with
  | last text habsent => exact List.forall_mem_singleton.mpr habsent
  | cut before after pieces hfirst hafter ih =>
    exact List.forall_mem_cons.mpr ⟨not_infix_before hdelimiter hfirst, ih⟩

variable [DecidableEq α]

/-- The number of disjoint occurrences that are found from left to right, behind some items that are
skipped. -/
def occurrencesBehind (delimiter : List α) : ℕ → List α → ℕ
  | _, [] => 0
  | 0, item :: rest =>
    if delimiter.isPrefixOf (item :: rest) then
      occurrencesBehind delimiter (delimiter.length - 1) rest + 1
    else occurrencesBehind delimiter 0 rest
  | skipped + 1, _ :: rest => occurrencesBehind delimiter skipped rest

/-- The number of disjoint occurrences of a delimiter that are found from left to right. -/
def occurrences (delimiter text : List α) : ℕ := occurrencesBehind delimiter 0 text

theorem occurrencesBehind_eq (delimiter text : List α) (skipped : ℕ) :
    occurrencesBehind delimiter skipped text = occurrences delimiter (text.drop skipped) := by
  induction text generalizing skipped with
  | nil =>
    rw [List.drop_nil]
    cases skipped <;> rfl
  | cons item rest ih =>
    cases skipped with
    | zero => rfl
    | succ skipped => exact ih skipped

theorem occurrences_cons {item : α} {rest : List α}
    (hstart : delimiter <+: item :: rest) :
    occurrences delimiter (item :: rest) =
      occurrences delimiter (rest.drop (delimiter.length - 1)) + 1 := by
  rw [← occurrencesBehind_eq]
  exact if_pos (List.isPrefixOf_iff_prefix.mpr hstart)

theorem occurrences_cons_of_not {item : α} {rest : List α}
    (hstart : ¬ delimiter <+: item :: rest) :
    occurrences delimiter (item :: rest) = occurrences delimiter rest :=
  if_neg fun hfound ↦ hstart (List.isPrefixOf_iff_prefix.mp hfound)

theorem occurrences_eq_zero (habsent : ¬ delimiter <:+: text) : occurrences delimiter text = 0 := by
  induction text with
  | nil => rfl
  | cons item rest ih =>
    rw [occurrences_cons_of_not fun hstart ↦ habsent hstart.isInfix]
    exact ih fun hrest ↦ habsent (List.infix_cons hrest)

/-- Behind the first occurrence there is one less. -/
theorem occurrences_cut {before after : List α} (hdelimiter : delimiter ≠ [])
    (hfirst : ∀ position < before.length,
      ¬ delimiter <+: (before ++ delimiter ++ after).drop position) :
    occurrences delimiter (before ++ delimiter ++ after) = occurrences delimiter after + 1 := by
  induction before with
  | nil =>
    obtain ⟨item, rest, rfl⟩ := List.exists_cons_of_ne_nil hdelimiter
    have hstart : item :: rest <+: item :: (rest ++ after) := List.prefix_append _ after
    rw [List.nil_append, List.cons_append, occurrences_cons hstart, List.length_cons,
      Nat.add_sub_cancel, List.drop_left]
  | cons item before ih =>
    have hhere := hfirst 0 (Nat.succ_pos before.length)
    rw [List.drop_zero] at hhere
    rw [List.cons_append, List.cons_append] at hhere ⊢
    rw [occurrences_cons_of_not hhere]
    exact ih fun position hposition ↦ hfirst (position + 1) (Nat.succ_lt_succ hposition)

/-- There is one piece more than there are occurrences. -/
theorem Separated.length_eq (hpieces : Separated delimiter text pieces)
    (hdelimiter : delimiter ≠ []) : pieces.length = occurrences delimiter text + 1 := by
  induction hpieces with
  | last text habsent => rw [occurrences_eq_zero habsent, List.length_singleton]
  | cut before after pieces hfirst hafter ih =>
    rw [occurrences_cut hdelimiter hfirst, List.length_cons, ih]

end Joining

/-! ### Trimming -/

/-- A text without the unwanted items at its ends. -/
def trim (unwanted : α → Bool) (text : List α) : List α :=
  List.rdropWhile unwanted (text.dropWhile unwanted)

/-- A text is another one between unwanted items, and that one has none at its ends. -/
structure Trimmed (unwanted : α → Bool) (text inner : List α) : Prop where
  around : ∃ before after, text = before ++ inner ++ after ∧ (∀ item ∈ before, unwanted item) ∧
    ∀ item ∈ after, unwanted item
  head : ∀ first ∈ inner.head?, unwanted first = false
  last : ∀ last ∈ inner.getLast?, unwanted last = false

/-- Unwanted items at the end do not matter. -/
theorem rdropWhile_append {unwanted : α → Bool} {after : List α}
    (hafter : ∀ item ∈ after, unwanted item) (text : List α) :
    List.rdropWhile unwanted (text ++ after) = List.rdropWhile unwanted text := by
  rw [List.rdropWhile, List.reverse_append, List.dropWhile_append_of_pos, ← List.rdropWhile]
  exact fun item hitem ↦ hafter item (List.mem_reverse.mp hitem)

theorem Trimmed.eq_trim {unwanted : α → Bool} {inner : List α}
    (htrimmed : Trimmed unwanted text inner) : inner = trim unwanted text := by
  obtain ⟨⟨before, after, rfl, hbefore, hafter⟩, hhead, hlast⟩ := htrimmed
  rw [trim, List.append_assoc, List.dropWhile_append_of_pos hbefore]
  cases inner with
  | nil =>
    have hnil : after.dropWhile unwanted = [] := List.dropWhile_eq_nil_iff.mpr hafter
    rw [List.nil_append, hnil, List.rdropWhile_nil]
  | cons first rest =>
    have hfirst := hhead first rfl
    rw [List.cons_append, List.dropWhile_cons_of_neg (by simp [hfirst]), ← List.cons_append,
      rdropWhile_append hafter]
    refine (List.rdropWhile_eq_self_iff.mpr fun hne ↦ ?_).symm
    rw [hlast _ (List.getLast?_eq_some_getLast hne)]
    exact Bool.false_ne_true

/-- There is one such text. -/
theorem Trimmed.unique {unwanted : α → Bool} {inner other : List α}
    (htrimmed : Trimmed unwanted text inner) (hother : Trimmed unwanted text other) :
    inner = other :=
  htrimmed.eq_trim.trans hother.eq_trim.symm

end RocketMQClient.Library
