import RocketMQClient.Library.ByteString

/-!
# Texts in UTF-8 and UTF-16

A text is a list of characters. `utf8` is the text as bytes and `utf16` the text as 16-bit units,
in which a character from `0x10000` on is two surrogates. A character below 128 is one byte and one
unit with its own number, and each byte of another character is at least 128
(`le_of_mem_utf8Char`).
-/

set_option autoImplicit false
set_option relaxedAutoImplicit false

namespace RocketMQClient.Library

/-- The bytes of a character. -/
def utf8Char (character : Char) : ByteString :=
  (String.utf8EncodeChar character).map fun byte ↦ Fin.ofNat 256 byte.toNat

/-- The bytes of a text. -/
def utf8 (text : List Char) : ByteString := text.flatMap utf8Char

/-- The 16-bit units of a character. -/
def utf16Char (character : Char) : List ℕ :=
  if character.toNat < 0x10000 then [character.toNat]
  else [0xD800 + (character.toNat - 0x10000) / 0x400, 0xDC00 + (character.toNat - 0x10000) % 0x400]

/-- The 16-bit units of a text. -/
def utf16 (text : List Char) : List ℕ := text.flatMap utf16Char

/-- A character that is one byte. -/
def IsAscii (character : Char) : Prop := character.toNat < 128

instance (character : Char) : Decidable (IsAscii character) := inferInstanceAs (Decidable (_ < _))

variable {character : Char} {text : List Char}

theorem utf8Char_of_ascii (hascii : IsAscii character) :
    utf8Char character = [Fin.ofNat 256 character.toNat] := by
  have hsmall : character.val.toNat ≤ 0x7f := Nat.le_of_lt_succ hascii
  rw [utf8Char, String.utf8EncodeChar]
  simp only [if_pos hsmall, List.map_cons, List.map_nil]
  have hbyte : (UInt8.ofNat character.val.toNat).toNat = character.toNat := by
    rw [UInt8.toNat_ofNat']
    exact Nat.mod_eq_of_lt (by have : character.toNat < 128 := hascii; omega)
  rw [hbyte]

theorem utf16Char_of_ascii (hascii : IsAscii character) :
    utf16Char character = [character.toNat] :=
  if_pos (by unfold IsAscii at hascii; omega)

/-- Each byte of a character that is not one byte is from 128 on. -/
theorem le_of_mem_utf8Char (hascii : ¬ IsAscii character) {byte : Byte}
    (hbyte : byte ∈ utf8Char character) : 128 ≤ byte.val := by
  have hlarge : ¬ character.val.toNat ≤ 0x7f := fun hle ↦ hascii (Nat.lt_succ_of_le hle)
  obtain ⟨code, hcode, rfl⟩ := List.mem_map.mp hbyte
  have hbound : 128 ≤ code.toNat := by
    rw [String.utf8EncodeChar] at hcode
    simp only [if_neg hlarge] at hcode
    split_ifs at hcode <;> simp only [List.mem_cons, List.not_mem_nil, or_false] at hcode <;>
      rcases hcode with rfl | rfl | rfl | rfl <;> rw [UInt8.toNat_ofNat'] <;> omega
  rw [Fin.val_ofNat, Nat.mod_eq_of_lt code.toNat_lt]
  exact hbound

theorem utf8Char_ne_nil (character : Char) : utf8Char character ≠ [] := fun hnil ↦
  String.utf8EncodeChar_ne_nil (List.map_eq_nil_iff.mp hnil)

theorem length_utf8Char (character : Char) : (utf8Char character).length ≤ 4 := by
  rw [utf8Char, List.length_map, String.length_utf8EncodeChar]
  exact character.utf8Size_le_four

theorem utf8_of_ascii (hascii : ∀ character ∈ text, IsAscii character) :
    utf8 text = text.map fun character ↦ Fin.ofNat 256 character.toNat := by
  rw [utf8, List.map_eq_flatMap]
  exact List.flatMap_congr fun character hmem ↦ utf8Char_of_ascii (hascii character hmem)

theorem utf16_of_ascii (hascii : ∀ character ∈ text, IsAscii character) :
    utf16 text = text.map Char.toNat := by
  rw [utf16, List.map_eq_flatMap]
  exact List.flatMap_congr fun character hmem ↦ utf16Char_of_ascii (hascii character hmem)

/-- The bytes below 128 are those of the characters that are one byte. -/
theorem ascii_of_utf8 (hbytes : ∀ byte ∈ utf8 text, byte.val < 128) :
    ∀ character ∈ text, IsAscii character := by
  intro character hmem
  by_contra hascii
  obtain ⟨byte, rest, hchar⟩ := List.exists_cons_of_ne_nil (utf8Char_ne_nil character)
  have hbyte : byte ∈ utf8Char character := by
    rw [hchar]
    exact List.mem_cons_self
  have hlarge := le_of_mem_utf8Char hascii hbyte
  have hsmall := hbytes byte (List.mem_flatMap.mpr ⟨character, hmem, hbyte⟩)
  omega

end RocketMQClient.Library
