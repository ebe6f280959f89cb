import RocketMQClient.Common.VirtualEnvUtil

/-!
# Names with a project group

In a virtual environment the client adds the suffix of its project group to each topic and group
that it sends, and takes it off again from the names it gets. Both functions look for the suffix
with `find_last_of`, which finds the last byte that occurs anywhere in it.

`SuffixLaws` is what the sites of the two functions rely on. Adding the suffix twice is adding it
once, and different names stay different, but a name comes back only when the position of its last
such byte is no `int` (`suffixLaws_iff`), which no name below `2 ^ 31` bytes has
(`not_suffixLaws_of_short`).
-/

set_option autoImplicit false
set_option relaxedAutoImplicit false

namespace RocketMQClient.Transport

open Library Messages Common

/-! ### The operations of the source -/

/-- A name on its way to the broker, for a client with a project group. -/
def nameToBroker (projectGroupPrefix name : ByteString) : ByteString :=
  if isBlank projectGroupPrefix = false then
    VirtualEnvUtil.buildWithProjectGroup name projectGroupPrefix
  else name

/-- A name on its way from the broker. -/
def nameFromBroker (projectGroupPrefix name : ByteString) : ByteString :=
  if isBlank projectGroupPrefix = false then
    VirtualEnvUtil.clearProjectGroup name projectGroupPrefix
  else name

/-! ### What the sites rely on -/

/-- A project group that is not blank and whose suffix fits into the buffer. -/
structure ProjectGroup where
  name : ByteString
  notBlank : isBlank name = false
  fits : (VirtualEnvUtil.appgroupPrefix name).length < 1024

namespace ProjectGroup

/-- The suffix for a project group. -/
def suffix (group : ProjectGroup) : ByteString := VirtualEnvUtil.appgroupPrefix group.name

def build (group : ProjectGroup) (origin : ByteString) : ByteString :=
  VirtualEnvUtil.buildWithProjectGroup origin group.name

def clear (group : ProjectGroup) (origin : ByteString) : ByteString :=
  VirtualEnvUtil.clearProjectGroup origin group.name

/-- A name comes back without the suffix, gets it once, and differs from all other names then. -/
structure SuffixLaws (group : ProjectGroup) (origin : ByteString) : Prop where
  roundTrip : group.clear (group.build origin) = origin
  idempotent : group.build (group.build origin) = group.build origin
  injective : ∀ other, ¬ group.suffix <:+ other → group.build other = group.build origin →
    other = origin
  mapsBack : nameFromBroker group.name (nameToBroker group.name origin) = origin

/-- The position of the last byte of a name that occurs in the suffix is negative as an `int`. -/
def LastBeyondInt (group : ProjectGroup) (origin : ByteString) : Prop :=
  ∃ pos, findLastOf origin group.suffix = some pos ∧ toInt32 pos < 0

end ProjectGroup

namespace ProjectGroup

variable {origin other : ByteString} {pos : ℕ} {group : ProjectGroup}

theorem suffix_eq (group : ProjectGroup) :
    group.suffix = (ofString "%PROJECT_" ++ cString group.name) ++ [37] := rfl

theorem ten_le_length_suffix (group : ProjectGroup) : 10 ≤ group.suffix.length := by
  rw [suffix_eq, List.length_append, List.length_append]
  show 10 ≤ 9 + _ + 1
  omega

theorem findLastOf_append_suffix (group : ProjectGroup) (origin : ByteString) :
    findLastOf (origin ++ group.suffix) group.suffix =
      some (origin.length + group.suffix.length - 1) := by
  have hpercent : (37 : Byte) ∈ group.suffix := VirtualEnvUtil.percent_mem_appgroupPrefix group.name
  have hbytes : origin ++ group.suffix =
      (origin ++ (ofString "%PROJECT_" ++ cString group.name)) ++ [37] := by
    rw [suffix_eq, ← List.append_assoc]
  rw [hbytes, findLastOf_concat hpercent, suffix_eq]
  simp only [List.length_append, List.length_singleton]
  rfl

theorem build_of_none (hnone : findLastOf origin group.suffix = none) :
    group.build origin = origin ++ group.suffix := by
  rw [build, VirtualEnvUtil.buildWithProjectGroup, if_pos group.notBlank]
  exact if_pos hnone

theorem build_of_some (hsome : findLastOf origin group.suffix = some pos) :
    group.build origin = origin := by
  rw [build, VirtualEnvUtil.buildWithProjectGroup, if_pos group.notBlank]
  exact if_neg (hsome ▸ Option.some_ne_none pos)

/-- What stands before the last byte that is found, when its position is an `int`. -/
theorem clear_of_some (hsome : findLastOf origin group.suffix = some pos) :
    group.clear origin = substrTo origin (toInt32 pos) :=
  VirtualEnvUtil.clearProjectGroup_of_some hsome

/-- What is left of a name with a byte of the suffix. -/
theorem length_clear (hsome : findLastOf origin group.suffix = some pos) :
    (group.clear origin).length =
      if toInt32 pos < 0 then origin.length else (toInt32 pos).toNat := by
  have hle := @toInt32_le_self pos (Int.natCast_nonneg pos)
  have hlt := findLastOf_lt hsome
  rw [clear_of_some hsome, length_substrTo (by omega)]

/-- What is taken off a name is never the suffix as a whole. -/
theorem clear_append_suffix_ne (group : ProjectGroup) (origin : ByteString) :
    group.clear (origin ++ group.suffix) ≠ origin := by
  intro hsame
  have hlength := length_clear (group.findLastOf_append_suffix origin)
  have hremainder := toInt32_emod ((origin.length + group.suffix.length - 1 : ℕ) : ℤ)
  have hten := group.ten_le_length_suffix
  have hfits : group.suffix.length < 1024 := group.fits
  rw [hsame, List.length_append] at hlength
  split_ifs at hlength <;> omega

/-- A name with a byte of the suffix stays as it is exactly when the position is no `int`. -/
theorem clear_eq_self_iff (hsome : findLastOf origin group.suffix = some pos) :
    group.clear origin = origin ↔ toInt32 pos < 0 := by
  constructor
  · intro hsame
    by_contra hneg
    have hlength := length_clear hsome
    have hle := @toInt32_le_self pos (Int.natCast_nonneg pos)
    have hlt := findLastOf_lt hsome
    rw [hsame, if_neg hneg] at hlength
    omega
  · intro hneg
    rw [clear_of_some hsome, substrTo, if_pos hneg]

/-- A name comes back exactly when the position of its last byte of the suffix is no `int`. -/
theorem clear_build_iff :
    group.clear (group.build origin) = origin ↔ group.LastBeyondInt origin := by
  cases hfind : findLastOf origin group.suffix with
  | none =>
    rw [build_of_none hfind]
    refine iff_of_false (group.clear_append_suffix_ne origin) ?_
    rintro ⟨pos, hsome, -⟩
    rw [hfind] at hsome
    cases hsome
  | some pos =>
    rw [build_of_some hfind, clear_eq_self_iff hfind]
    constructor
    · exact fun hneg ↦ ⟨pos, hfind, hneg⟩
    · rintro ⟨found, hfound, hneg⟩
      obtain rfl := Option.some.inj (hfind.symm.trans hfound)
      exact hneg

/-- The suffix is added at most once. -/
theorem build_build (group : ProjectGroup) (origin : ByteString) :
    group.build (group.build origin) = group.build origin := by
  cases hfind : findLastOf origin group.suffix with
  | none =>
    rw [build_of_none hfind]
    exact build_of_some (group.findLastOf_append_suffix origin)
  | some pos => rw [build_of_some hfind, build_of_some hfind]

/-- Names that do not end with the suffix stay different. -/
theorem build_injective (horigin : ¬ group.suffix <:+ origin) (hother : ¬ group.suffix <:+ other)
    (hsame : group.build other = group.build origin) : other = origin := by
  cases hfind : findLastOf origin group.suffix with
  | none =>
    rw [build_of_none hfind] at hsame
    cases hfindOther : findLastOf other group.suffix with
    | none => exact List.append_cancel_right ((build_of_none hfindOther).symm.trans hsame)
    | some pos =>
      rw [build_of_some hfindOther] at hsame
      exact absurd ⟨origin, hsame.symm⟩ hother
  | some pos =>
    rw [build_of_some hfind] at hsame
    cases hfindOther : findLastOf other group.suffix with
    | none =>
      rw [build_of_none hfindOther] at hsame
      exact absurd ⟨other, hsame⟩ horigin
    | some posOther => exact (build_of_some hfindOther).symm.trans hsame

/-- Assumes: the name does not end with the suffix. The laws hold of it exactly when the position of
its last byte that occurs in the suffix is negative as an `int`. -/
theorem suffixLaws_iff (horigin : ¬ group.suffix <:+ origin) :
    group.SuffixLaws origin ↔ group.LastBeyondInt origin := by
  rw [← clear_build_iff]
  refine ⟨fun hlaws ↦ hlaws.roundTrip, fun hround ↦ ⟨hround, group.build_build origin,
    fun other hother hsame ↦ build_injective horigin hother hsame, ?_⟩⟩
  rw [nameFromBroker, nameToBroker, if_pos group.notBlank, if_pos group.notBlank]
  exact hround

/-- The project group `g`. -/
def ofLetter : ProjectGroup := ⟨[103], by decide, by decide⟩

/-- The laws hold of a name whose `g` stands at a position that is no `int`. -/
theorem suffixLaws_of_long_name :
    ofLetter.SuffixLaws (List.replicate 2147483648 120 ++ [103]) := by
  have hname : ¬ ofLetter.suffix <:+ List.replicate 2147483648 120 ++ [103] := by
    rintro ⟨before, hsame⟩
    rw [suffix_eq, ← List.append_assoc] at hsame
    exact absurd (List.append_inj_right' hsame rfl) (by decide)
  have hfind : findLastOf (List.replicate 2147483648 120 ++ [103]) ofLetter.suffix =
      some 2147483648 := by
    rw [findLastOf_concat (by decide), List.length_replicate]
  exact (suffixLaws_iff hname).mpr ⟨2147483648, hfind, by decide⟩

/-- The name `abc` comes back with all of the suffix but its last byte, and `T` comes back empty. -/
theorem names_do_not_come_back :
    (¬ ofLetter.suffix <:+ [97, 98, 99] ∧ ¬ ofLetter.SuffixLaws [97, 98, 99]) ∧
      (¬ ofLetter.suffix <:+ [84] ∧ ¬ ofLetter.SuffixLaws [84]) ∧
      ofLetter.clear (ofLetter.build [97, 98, 99]) = [97, 98, 99] ++ ofString "%PROJECT_g" ∧
      ofLetter.clear (ofLetter.build [84]) = [] := by
  have hlong : ofLetter.clear (ofLetter.build [97, 98, 99]) =
      [97, 98, 99] ++ ofString "%PROJECT_g" := by decide
  have hempty : ofLetter.clear (ofLetter.build [84]) = [] := by decide
  refine ⟨⟨by decide, fun hlaws ↦ ?_⟩, ⟨by decide, fun hlaws ↦ ?_⟩, hlong, hempty⟩
  · exact absurd (hlong.symm.trans hlaws.roundTrip) (by decide)
  · exact absurd (hempty.symm.trans hlaws.roundTrip) (by decide)

/-- No short name comes back. -/
theorem not_suffixLaws_of_short (hshort : origin.length ≤ 2147483648) :
    ¬ group.SuffixLaws origin := by
  intro hlaws
  obtain ⟨pos, hfind, hneg⟩ := clear_build_iff.mp hlaws.roundTrip
  have hlt := findLastOf_lt hfind
  rw [toInt32_eq_self (by omega) (by omega)] at hneg
  omega

end ProjectGroup

end RocketMQClient.Transport
