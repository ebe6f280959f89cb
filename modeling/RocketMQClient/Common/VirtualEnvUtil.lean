import RocketMQClient.Library.MachineInt
import RocketMQClient.Messages.Message

/-!
# Project groups in names

`VirtualEnvUtil` adds the suffix of a project group to a name and takes it off again. Both functions
look for the suffix with `find_last_of`, which finds the last byte that occurs anywhere in it: a
name that has such a byte gets no suffix, and a name is cut off at its last such byte. The position
is kept as an `int`, where `npos` is -1.
-/

set_option autoImplicit false
set_option relaxedAutoImplicit false

namespace RocketMQClient.Common

open Library Messages

/-! ### The operations of the source -/

/-- `find_last_of`: the position of the last byte that is one of the given ones. -/
def findLastOf (text bytes : ByteString) : Option ℕ :=
  match text.reverse.dropWhile fun byte ↦ !bytes.contains byte with
  | [] => none
  | _ :: before => some before.length

/-- `substr(0, pos)`, in which a negative number is a large one. -/
def substrTo (text : ByteString) (pos : ℤ) : ByteString :=
  if pos < 0 then text else text.take pos.toNat

namespace VirtualEnvUtil

/-- The text that `sprintf` makes of `VIRTUAL_APPGROUP_PREFIX`. -/
def appgroupPrefix (projectGroup : ByteString) : ByteString :=
  ofString "%PROJECT_" ++ cString projectGroup ++ ofString "%"

def buildWithProjectGroup (origin projectGroup : ByteString) : ByteString :=
  if isBlank projectGroup = false then
    if findLastOf origin (appgroupPrefix projectGroup) = none then
      origin ++ appgroupPrefix projectGroup
    else origin
  else origin

/-- The position as an `int`, where `npos` is -1. -/
def lastPos (origin projectGroup : ByteString) : ℤ :=
  match findLastOf origin (appgroupPrefix projectGroup) with
  | none => -1
  | some pos => toInt32 pos

def clearProjectGroup (origin projectGroup : ByteString) : ByteString :=
  if isBlank (appgroupPrefix projectGroup) = false ∧ lastPos origin projectGroup ≠ -1 then
    substrTo origin (lastPos origin projectGroup)
  else origin

end VirtualEnvUtil

/-! ### The search -/

variable {text bytes origin : ByteString} {pos : ℕ}

/-- A position that is found is inside the text. -/
theorem findLastOf_lt (hfind : findLastOf text bytes = some pos) : pos < text.length := by
  unfold findLastOf at hfind
  have hlength := (text.reverse.dropWhile_sublist fun byte ↦ !bytes.contains byte).length_le
  split at hfind
  · cases hfind
  · rename_i found before hdrop
    obtain rfl := Option.some.inj hfind
    rw [hdrop, List.length_reverse, List.length_cons] at hlength
    exact hlength

theorem findLastOf_concat {byte : Byte} (hbyte : byte ∈ bytes) :
    findLastOf (text ++ [byte]) bytes = some text.length := by
  unfold findLastOf
  rw [List.reverse_append, List.reverse_singleton, List.singleton_append,
    List.dropWhile_cons_of_neg (by simpa using hbyte)]
  exact congrArg some List.length_reverse

/-- A position before the end cuts the text off there. -/
theorem length_substrTo {last : ℤ} (hlast : last < text.length) :
    (substrTo text last).length = if last < 0 then text.length else last.toNat := by
  unfold substrTo
  split_ifs with hneg
  · rfl
  · rw [List.length_take]
    omega

theorem substrTo_subset (text : ByteString) (last : ℤ) : substrTo text last ⊆ text := by
  unfold substrTo
  split_ifs
  · exact List.Subset.refl text
  · exact List.take_subset _ text

/-! ### The two functions -/

namespace VirtualEnvUtil

theorem percent_mem_appgroupPrefix (projectGroup : ByteString) :
    (37 : Byte) ∈ appgroupPrefix projectGroup :=
  List.mem_append_right _ (List.mem_singleton_self _)

theorem isBlank_appgroupPrefix (projectGroup : ByteString) :
    isBlank (appgroupPrefix projectGroup) = false := by
  refine Bool.eq_false_iff.mpr fun hblank ↦ ?_
  exact absurd (List.all_eq_true.mp hblank 37 (percent_mem_appgroupPrefix projectGroup)) (by decide)

variable {projectGroup : ByteString}

theorem clearProjectGroup_of_none (hnone : findLastOf origin (appgroupPrefix projectGroup) = none) :
    clearProjectGroup origin projectGroup = origin := by
  have hpos : lastPos origin projectGroup = -1 := by rw [lastPos, hnone]
  exact if_neg fun hboth ↦ hboth.2 hpos

theorem clearProjectGroup_of_some
    (hsome : findLastOf origin (appgroupPrefix projectGroup) = some pos) :
    clearProjectGroup origin projectGroup = substrTo origin (toInt32 pos) := by
  have hpos : lastPos origin projectGroup = toInt32 pos := by rw [lastPos, hsome]
  rw [clearProjectGroup, hpos]
  by_cases hnpos : toInt32 pos = -1
  · rw [if_neg fun hboth ↦ hboth.2 hnpos, hnpos]
    rfl
  · exact if_pos ⟨isBlank_appgroupPrefix projectGroup, hnpos⟩

/-- What is left of a name is a part of it. -/
theorem clearProjectGroup_subset (origin projectGroup : ByteString) :
    clearProjectGroup origin projectGroup ⊆ origin := by
  cases hfind : findLastOf origin (appgroupPrefix projectGroup) with
  | none =>
    rw [clearProjectGroup_of_none hfind]
    exact List.Subset.refl origin
  | some pos =>
    rw [clearProjectGroup_of_some hfind]
    exact substrTo_subset origin _

end VirtualEnvUtil

end RocketMQClient.Common
