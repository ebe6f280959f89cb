import RocketMQClient.Library.ByteString
import RocketMQClient.Library.MachineInt
import RocketMQClient.Library.Splitting

/-!
# Strings

The string functions of `UtilAll`: `split` with a string or a byte as the delimiter, `trim`, and
`hashCode`, which adds the bytes as signed numbers. The loop of `split` returns for every delimiter
that is not empty, which is why it is called with the proof of that; it cuts the text as `Separated`
says.
-/

set_option autoImplicit false
set_option relaxedAutoImplicit false

namespace RocketMQClient.Common

open Library

namespace UtilAll

/-- The loop returns for a delimiter that is not empty. -/
theorem exists_split {delimiter : ByteString} (hdelimiter : delimiter ≠ []) (text : ByteString) :
    ∃ pieces, splitLoop text delimiter (text.length + 1) 0 [] = some pieces ∧
      Separated delimiter text pieces := by
  obtain ⟨pieces, hloop, hpieces⟩ :=
    splitLoop_separated hdelimiter (Nat.zero_le text.length) (Nat.lt_succ_self text.length) []
  exact ⟨pieces, hloop, hpieces⟩

/-- Splits a text at each occurrence of a string. -/
def split (text delimiter : ByteString) (hdelimiter : delimiter ≠ []) : List ByteString :=
  (splitLoop text delimiter (text.length + 1) 0 []).get <| by
    obtain ⟨pieces, hloop, -⟩ := exists_split hdelimiter text
    rw [hloop]
    rfl

theorem separated_split {delimiter : ByteString} (hdelimiter : delimiter ≠ [])
    (text : ByteString) : Separated delimiter text (split text delimiter hdelimiter) := by
  obtain ⟨pieces, hloop, hpieces⟩ := exists_split hdelimiter text
  have hsplit : split text delimiter hdelimiter = pieces := by
    simp only [split, hloop, Option.get_some]
  rwa [hsplit]

/-- The bytes that are trimmed. -/
def whitespace : ByteString := ofString " \t\r\n"

/-- `find_first_not_of`: the position of the first byte that is none of the given ones. -/
def findFirstNotOf (text bytes : ByteString) : Option ℕ :=
  text.findIdx? fun byte ↦ !bytes.contains byte

/-- `find_last_not_of`: the position of the last such byte. -/
def findLastNotOf (text bytes : ByteString) : Option ℕ :=
  (findFirstNotOf text.reverse bytes).map fun index ↦ text.length - 1 - index

/-- A string without the white space at its ends. -/
def trim (str : ByteString) : ByteString :=
  if str = [] then str
  else
    match findFirstNotOf str whitespace with
    | none => []
    | some left =>
      match findLastNotOf str whitespace with
      | none => str.drop left
      | some right => (str.drop left).take (right - left + 1)

/-- Whether a byte is trimmed. -/
def isWhitespace (byte : Byte) : Bool := whitespace.contains byte

theorem findFirstNotOf_eq_some {text bytes : ByteString} {left : ℕ}
    (hfind : findFirstNotOf text bytes = some left) :
    ∃ before byte after, text = before ++ byte :: after ∧ left = before.length ∧
      (∀ other ∈ before, bytes.contains other = true) ∧ bytes.contains byte = false := by
  obtain ⟨hlength, hbyte, hbefore⟩ := List.findIdx?_eq_some_iff_getElem.mp hfind
  refine ⟨text.take left, text[left], text.drop (left + 1), ?_, ?_, ?_, by simpa using hbyte⟩
  · rw [List.cons_getElem_drop_succ, List.take_append_drop]
  · rw [List.length_take, min_eq_left hlength.le]
  · intro other hother
    obtain ⟨index, hindex, rfl⟩ := List.mem_iff_getElem.mp hother
    have hbelow : index < left := by
      rw [List.length_take] at hindex
      omega
    rw [List.getElem_take]
    simpa using hbefore index hbelow

theorem findLastNotOf_eq_some {text bytes : ByteString} {right : ℕ}
    (hfind : findLastNotOf text bytes = some right) :
    ∃ before byte after, text = before ++ byte :: after ∧ right = before.length ∧
      (∀ other ∈ after, bytes.contains other = true) ∧ bytes.contains byte = false := by
  obtain ⟨index, hindex, rfl⟩ := Option.map_eq_some_iff.mp hfind
  obtain ⟨before, byte, after, hreverse, rfl, hbefore, hbyte⟩ := findFirstNotOf_eq_some hindex
  have htext : text = after.reverse ++ byte :: before.reverse := by
    rw [← List.reverse_reverse text, hreverse]
    simp
  refine ⟨after.reverse, byte, before.reverse, htext, ?_, ?_, hbyte⟩
  · have hlength := congrArg List.length htext
    simp only [List.length_append, List.length_reverse, List.length_cons] at hlength ⊢
    omega
  · exact fun other hother ↦ hbefore other (List.mem_reverse.mp hother)

theorem findFirstNotOf_eq_none_iff {text bytes : ByteString} :
    findFirstNotOf text bytes = none ↔ ∀ byte ∈ text, bytes.contains byte = true := by
  rw [findFirstNotOf, List.findIdx?_eq_none_iff]
  simp

/-- What is left, where the first and the last byte that are not white space have been found. -/
theorem trimmed_of_found {str : ByteString} {left right : ℕ}
    (hleft : findFirstNotOf str whitespace = some left)
    (hright : findLastNotOf str whitespace = some right) :
    Trimmed isWhitespace str ((str.drop left).take (right - left + 1)) := by
  obtain ⟨before, first, rest, htext, rfl, hbefore, hfirst⟩ := findFirstNotOf_eq_some hleft
  obtain ⟨init, last, after, htext', rfl, hafter, hlast⟩ := findLastNotOf_eq_some hright
  have hsame : before ++ first :: rest = (init ++ [last]) ++ after := by
    rw [← htext, htext', List.append_cons]
  have horder : before.length ≤ init.length := by
    refine not_lt.mp fun hlt ↦ ?_
    have hget : (before ++ first :: rest)[init.length]? = some last := by
      rw [hsame, List.getElem?_append_left (by simp), List.getElem?_append_right le_rfl,
        Nat.sub_self]
      rfl
    rw [List.getElem?_append_left hlt] at hget
    exact Bool.false_ne_true (hlast.symm.trans (hbefore last (List.mem_of_getElem? hget)))
  have hstart : (init ++ [last]).take before.length = before := by
    have hlength : before.length ≤ (init ++ [last]).length := by simp; omega
    rw [← List.take_append_of_le_length hlength, ← hsame, List.take_left]
  have hmiddle : (str.drop before.length).take (init.length - before.length + 1) =
      (init ++ [last]).drop before.length := by
    rw [show init.length - before.length + 1 = init.length + 1 - before.length by omega,
      ← List.drop_take, htext', List.append_cons, List.take_left' (by simp)]
  rw [hmiddle]
  refine ⟨⟨before, after, ?_, hbefore, hafter⟩, ?_, ?_⟩
  · have hjoin := List.take_append_drop before.length (init ++ [last])
    rw [hstart] at hjoin
    rw [hjoin, htext, hsame]
  · intro found hfound
    have hhead : (str.drop before.length).head? = some first := by
      rw [htext, List.drop_left]
      rfl
    rw [← hmiddle, List.head?_take, if_neg (Nat.succ_ne_zero _), hhead,
      Option.mem_some_iff] at hfound
    exact hfound ▸ hfirst
  · intro found hfound
    rw [List.getLast?_drop, if_neg (by simp; omega), List.getLast?_concat,
      Option.mem_some_iff] at hfound
    exact hfound ▸ hlast

/-- Trimming leaves what is between the white space at the ends. -/
theorem trimmed_trim (str : ByteString) : Trimmed isWhitespace str (trim str) := by
  have hblank (hall : ∀ byte ∈ str, isWhitespace byte = true) : Trimmed isWhitespace str [] :=
    ⟨⟨str, [], by simp, hall, by simp⟩, by simp, by simp⟩
  unfold trim
  split_ifs with hempty
  · rw [hempty] at hblank ⊢
    exact hblank (by simp)
  cases hleft : findFirstNotOf str whitespace with
  | none => exact hblank (findFirstNotOf_eq_none_iff.mp hleft)
  | some left =>
    cases hright : findLastNotOf str whitespace with
    | none =>
      have hall := findFirstNotOf_eq_none_iff.mp (Option.map_eq_none_iff.mp hright)
      have hnone : findFirstNotOf str whitespace = none :=
        findFirstNotOf_eq_none_iff.mpr fun byte hbyte ↦ hall byte (List.mem_reverse.mpr hbyte)
      exact absurd (hleft.symm.trans hnone) (Option.some_ne_none left)
    | some right => exact trimmed_of_found hleft hright

/-- A `char` as an integer. -/
def signedChar (byte : Byte) : ℤ := if byte.val < 128 then byte.val else byte.val - 256

def hashCode (pData : ByteString) : ℤ :=
  pData.foldl (fun h byte ↦ toInt32 (31 * h + signedChar byte)) 0

end UtilAll

end RocketMQClient.Common
