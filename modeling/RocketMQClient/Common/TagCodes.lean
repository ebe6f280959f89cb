import Mathlib.Data.Nat.Digits.Defs
import RocketMQClient.Common.FilterAPI
import RocketMQClient.Library.Unicode

/-!
# The hash codes of tags

A subscription sends the hash codes of its tags, by which the broker filters: it keeps a message
when the hash code of its tag, Java's `String.hashCode`, is one of them. Java adds the 16-bit units
of a text and the client its bytes as signed numbers, so that both get the same code for a text of
one-byte characters. A single other character is negative for the client and positive for Java.

`codesMatch_iff_ascii` says for which characters the codes of every expression match.
-/

set_option autoImplicit false
set_option relaxedAutoImplicit false

namespace RocketMQClient.Common

open Library

/-- Java's `String.hashCode`: the sum of the units by powers of 31. -/
def javaHashCode (text : List Char) : ℤ := toInt32 (Nat.ofDigits (31 : ℤ) (utf16 text).reverse)

/-- The codes of a subscription are the broker's hash codes of its tags. -/
def CodesMatch (data : SubscriptionData) : Prop :=
  ∀ code, code ∈ data.codeSet ↔ ∃ tag, utf8 tag ∈ data.tagsSet ∧ javaHashCode tag = code

/-- The tags of a subscription are texts of some characters. -/
def TagsOver (characters : Set Char) (data : SubscriptionData) : Prop :=
  ∀ tag ∈ data.tagsSet, ∃ text, (∀ character ∈ text, character ∈ characters) ∧ utf8 text = tag

/-! ### The two hash codes -/

/-- A sum that is reduced after every step is the sum reduced at the end. -/
theorem foldl_toInt32 (values : List ℤ) (start : ℤ) :
    values.foldl (fun h value ↦ toInt32 (31 * h + value)) (toInt32 start) =
      toInt32 (values.foldl (fun h value ↦ 31 * h + value) start) := by
  induction values generalizing start with
  | nil => rfl
  | cons value rest ih =>
    rw [List.foldl_cons, List.foldl_cons, ← ih]
    congr 1
    refine toInt32_congr ?_
    rw [Int.add_emod, Int.mul_emod, toInt32_emod, ← Int.mul_emod, ← Int.add_emod]

/-- The hash code of the client is the sum of the signed bytes. -/
theorem hashCode_eq (data : ByteString) :
    UtilAll.hashCode data =
      toInt32 (data.foldl (fun h byte ↦ 31 * h + UtilAll.signedChar byte) 0) := by
  have hfold := foldl_toInt32 (data.map UtilAll.signedChar) 0
  rw [List.foldl_map, List.foldl_map] at hfold
  exact hfold

/-- The hash code of Java is the same sum over the units. -/
theorem javaHashCode_eq (text : List Char) :
    javaHashCode text =
      toInt32 ((utf16 text).foldl (fun (h : ℤ) (unit : ℕ) ↦ 31 * h + unit) 0) := by
  rw [javaHashCode, Nat.ofDigits_eq_foldr, List.foldr_reverse]
  simp only [Int.add_comm]

/-- Both add the same numbers for a text of one-byte characters. -/
theorem hashCode_utf8_of_ascii {text : List Char} (hascii : ∀ character ∈ text, IsAscii character) :
    UtilAll.hashCode (utf8 text) = javaHashCode text := by
  rw [hashCode_eq, javaHashCode_eq, utf8_of_ascii hascii, utf16_of_ascii hascii, List.foldl_map,
    List.foldl_map]
  congr 1
  refine List.foldl_ext _ _ _ fun h character hmem ↦ ?_
  have hsmall : character.toNat < 128 := hascii character hmem
  have hbyte : (Fin.ofNat 256 character.toNat : Byte).val = character.toNat := by
    rw [Fin.val_ofNat]
    omega
  rw [UtilAll.signedChar, hbyte, if_pos hsmall]

/-- The sum of negative numbers is negative, and one more step makes it 31 times as large at most,
and the number. -/
theorem foldl_neg {data : ByteString} (hlarge : ∀ byte ∈ data, 128 ≤ byte.val) {start : ℤ}
    (hstart : start < 0 ∨ start = 0 ∧ data ≠ []) {bound : ℤ} (hbound : -bound ≤ start) :
    data.foldl (fun h byte ↦ 31 * h + UtilAll.signedChar byte) start < 0 ∧
      -(31 ^ data.length * (bound + 5)) ≤
        data.foldl (fun h byte ↦ 31 * h + UtilAll.signedChar byte) start := by
  induction data generalizing start bound with
  | nil =>
    have hnegative := hstart.resolve_right fun hzero ↦ hzero.2 rfl
    simp only [List.foldl_nil, List.length_nil, pow_zero, one_mul]
    omega
  | cons byte rest ih =>
    have hbelow := byte.isLt
    have habove := hlarge byte List.mem_cons_self
    have hsigned : UtilAll.signedChar byte = byte.val - 256 := if_neg (by omega)
    have hnext : 31 * start + UtilAll.signedChar byte < 0 := by omega
    have hlower : -(31 * bound + 128) ≤ 31 * start + UtilAll.signedChar byte := by omega
    obtain ⟨hneg, hle⟩ := ih (fun other hother ↦ hlarge other (List.mem_cons_of_mem byte hother))
      (Or.inl hnext) hlower
    refine ⟨hneg, le_trans ?_ hle⟩
    have hpow : (0 : ℤ) < 31 ^ rest.length := by positivity
    rw [List.length_cons, pow_succ, neg_le_neg_iff, mul_assoc]
    exact mul_le_mul_of_nonneg_left (by omega) hpow.le

/-- Up to four bytes from 128 on have a negative hash code. -/
theorem hashCode_neg {data : ByteString} (hne : data ≠ []) (hlength : data.length ≤ 4)
    (hlarge : ∀ byte ∈ data, 128 ≤ byte.val) : UtilAll.hashCode data < 0 := by
  obtain ⟨hneg, hle⟩ := foldl_neg hlarge (Or.inr ⟨rfl, hne⟩) (neg_zero.trans_le le_rfl)
  have hpow : (31 : ℤ) ^ data.length ≤ 31 ^ 4 := pow_le_pow_right₀ (by norm_num) hlength
  rw [hashCode_eq, toInt32_eq_self] <;> omega

/-- A single character that is not one byte has a positive sum. -/
theorem javaHashCode_pos {character : Char} (hascii : ¬ IsAscii character) :
    0 < javaHashCode [character] := by
  have hvalid : character.toNat < 0xd800 ∨ 0xdfff < character.toNat ∧ character.toNat < 0x110000 :=
    character.valid
  have hlarge : 128 ≤ character.toNat := not_lt.mp hascii
  rw [javaHashCode_eq, utf16, List.flatMap_singleton, utf16Char]
  split_ifs with hsmall
  · rw [List.foldl_cons, List.foldl_nil, toInt32_eq_self] <;> omega
  · rw [List.foldl_cons, List.foldl_cons, List.foldl_nil, toInt32_eq_self] <;> push_cast <;> omega

/-! ### Expressions -/

/-- A text without bytes below 128 is the one tag of itself as an expression. -/
theorem alternative_utf8_iff {expression tag : ByteString} (hne : expression ≠ [])
    (hlarge : ∀ byte ∈ expression, 128 ≤ byte.val) :
    Alternative expression tag ↔ tag = expression := by
  have hwhole : Separated tagDelimiter expression [expression] := by
    refine .last expression fun hoccurs ↦ ?_
    have hbar := hlarge 124 (hoccurs.subset (by decide))
    exact absurd hbar (by decide)
  have hwhite : ∀ byte ∈ expression, UtilAll.isWhitespace byte = false := by
    intro byte hbyte
    have hspaces : UtilAll.whitespace.all (fun space ↦ decide (space.val < 128)) = true := rfl
    refine Bool.eq_false_iff.mpr fun hspace ↦ ?_
    have hspace := List.all_eq_true.mp hspaces byte (List.contains_iff_mem.mp hspace)
    have hsmall := of_decide_eq_true hspace
    have := hlarge byte hbyte
    omega
  have htrimmed : Trimmed UtilAll.isWhitespace expression expression :=
    ⟨⟨[], [], by simp, by simp, by simp⟩,
      fun first hfirst ↦ hwhite first (List.mem_of_head? hfirst),
      fun last hlast ↦ hwhite last (List.mem_of_getLast? hlast)⟩
  constructor
  · rintro ⟨-, pieces, hpieces, piece, hpiece, hother⟩
    rw [hpieces.unique hwhole, List.mem_singleton] at hpiece
    exact (hpiece ▸ hother).unique htrimmed
  · rintro rfl
    exact ⟨hne, [tag], hwhole, tag, List.mem_singleton_self tag, htrimmed⟩

/-- An expression with the hash codes of tags of one-byte characters. -/
theorem codesMatch_of_ascii {memory : ℤ} {topic expression : ByteString} {data : SubscriptionData}
    (hdata : Subscribes memory topic expression data)
    (htags : TagsOver {character | IsAscii character} data) : CodesMatch data := by
  intro code
  rw [hdata.mem_codeSet]
  constructor
  · rintro ⟨tag, htag, rfl⟩
    obtain ⟨text, hascii, rfl⟩ := htags tag htag
    exact ⟨text, htag, (hashCode_utf8_of_ascii hascii).symm⟩
  · rintro ⟨text, htext, rfl⟩
    refine ⟨utf8 text, htext, hashCode_utf8_of_ascii (ascii_of_utf8 ?_)⟩
    obtain ⟨other, hascii, hsame⟩ := htags _ htext
    rw [← hsame, utf8_of_ascii hascii]
    intro byte hbyte
    obtain ⟨character, hmem, rfl⟩ := List.mem_map.mp hbyte
    have hsmall : character.toNat < 128 := hascii character hmem
    rw [Fin.val_ofNat]
    omega

/-- A character that is not one byte is a tag whose codes differ. -/
theorem exists_not_codesMatch {character : Char} (hascii : ¬ IsAscii character)
    (memory : ℤ) (topic : ByteString) :
    ∃ data, FilterAPI.buildSubscriptionData memory topic (utf8 [character]) = .ok data ∧
      TagsOver {character} data ∧ ¬ CodesMatch data := by
  obtain ⟨data, hbuild, hdata⟩ :=
    FilterAPI.exists_buildSubscriptionData memory topic (utf8 [character])
  have hchar : utf8 [character] = utf8Char character := List.flatMap_singleton _ _
  have hlarge : ∀ byte ∈ utf8 [character], 128 ≤ byte.val := fun byte hbyte ↦
    le_of_mem_utf8Char hascii (hchar ▸ hbyte)
  have hne : utf8 [character] ≠ [] := hchar ▸ utf8Char_ne_nil character
  have hstar : utf8 [character] ≠ SubscriptionData.subAll := fun hsame ↦
    absurd (hlarge 42 (hsame ▸ (by decide))) (by decide)
  have htag : ∀ tag, tag ∈ data.tagsSet ↔ tag = utf8 [character] := fun tag ↦ by
    rw [hdata.mem_tagsSet, alternative_utf8_iff hne hlarge, and_iff_right hstar]
  refine ⟨data, hbuild, fun tag hmem ↦ ?_, fun hmatch ↦ ?_⟩
  · exact ⟨[character], by simp, ((htag tag).mp hmem).symm⟩
  · have hjava := (hmatch (javaHashCode [character])).mpr ⟨[character], (htag _).mpr rfl, rfl⟩
    obtain ⟨tag, hmem, hcode⟩ := (hdata.mem_codeSet _).mp hjava
    rw [(htag tag).mp hmem] at hcode
    have hclient := hashCode_neg hne (hchar ▸ length_utf8Char character) hlarge
    have hbroker := javaHashCode_pos hascii
    omega

/-- The codes of every expression with tags of some characters match exactly when each of these
characters is one byte. -/
theorem codesMatch_iff_ascii (characters : Set Char) :
    (∀ (memory : ℤ) (topic expression : ByteString) (data : SubscriptionData),
      FilterAPI.buildSubscriptionData memory topic expression = .ok data →
        TagsOver characters data → CodesMatch data) ↔
      ∀ character ∈ characters, IsAscii character := by
  constructor
  · intro hmatch character hcharacter
    by_contra hascii
    obtain ⟨data, hbuild, htags, hdiffer⟩ := exists_not_codesMatch hascii 0 []
    refine hdiffer (hmatch 0 [] _ data hbuild fun tag htag ↦ ?_)
    obtain ⟨text, htext, hsame⟩ := htags tag htag
    exact ⟨text, fun other hother ↦ htext other hother ▸ hcharacter, hsame⟩
  · intro hascii memory topic expression data hbuild htags
    obtain ⟨built, hbuilt, hdata⟩ := FilterAPI.exists_buildSubscriptionData memory topic expression
    obtain rfl := Except.ok.inj (hbuild.symm.trans hbuilt)
    refine codesMatch_of_ascii hdata fun tag htag ↦ ?_
    obtain ⟨text, htext, hsame⟩ := htags tag htag
    exact ⟨text, fun character hmem ↦ hascii character (htext character hmem), hsame⟩

/-- The tag of the one character U+00E9, which is -1978 for the client and 233 for the broker. -/
theorem not_codesMatch_eAcute :
    UtilAll.hashCode (utf8 [Char.ofNat 0xE9]) = -1978 ∧ javaHashCode [Char.ofNat 0xE9] = 233 ∧
      ∃ data, FilterAPI.buildSubscriptionData 0 (ofString "T") (utf8 [Char.ofNat 0xE9]) = .ok data ∧
        TagsOver {Char.ofNat 0xE9} data ∧ ¬ CodesMatch data :=
  ⟨by decide, by decide, exists_not_codesMatch (by decide) 0 (ofString "T")⟩

end RocketMQClient.Common
