import RocketMQClient.Common.UtilAll

/-!
# Splitting and joining

`Split` appends the pieces of a text to a vector and returns the size of the vector. There is a
version for a string as the delimiter and one for a `char`, each with a loop of its own; the loop
for a `char` does what the other one does for the string of that `char`
(`splitCharInto_eq_splitInto`).

Called with an empty vector both return, and `PiecesOf` says what is in the vector then: the pieces
joined by the delimiter are the text, no piece has the delimiter in it, and there is one more than
there are occurrences (`split_join`).
-/

set_option autoImplicit false
set_option relaxedAutoImplicit false

namespace RocketMQClient.Common

open Library

namespace UtilAll

/-! ### The two versions -/

/-- `Split` at a string: the vector and the number that is returned, or none if the loop has not
ended after some rounds. -/
def splitInto (out : List ByteString) (text delimiter : ByteString) (fuel : ℕ) :
    Option (List ByteString × ℤ) :=
  (splitLoop text delimiter fuel 0 out).map fun out ↦ (out, toInt32 out.length)

/-- `find` of a `char`: its first position that is not before `left`. -/
def findCharFrom (text : ByteString) (delimiter : Byte) (left : ℕ) : Option ℕ :=
  ((text.drop left).findIdx? fun byte ↦ decide (byte = delimiter)).map (left + ·)

/-- The loop of `Split` at a `char`. -/
def splitCharLoop (text : ByteString) (delimiter : Byte) :
    ℕ → ℕ → List ByteString → Option (List ByteString)
  | 0, _, _ => none
  | fuel + 1, left, out =>
    match findCharFrom text delimiter left with
    | none => some (out ++ [text.drop left])
    | some right =>
      splitCharLoop text delimiter fuel (right + 1) (out ++ [(text.drop left).take (right - left)])

/-- `Split` at a `char`. -/
def splitCharInto (out : List ByteString) (text : ByteString) (delimiter : Byte) (fuel : ℕ) :
    Option (List ByteString × ℤ) :=
  (splitCharLoop text delimiter fuel 0 out).map fun out ↦ (out, toInt32 out.length)

/-! ### A `char` as a string -/

/-- Behind the end of a text nothing is found. -/
theorem findFrom_of_length_lt {text delimiter : ByteString} {left : ℕ}
    (hleft : text.length < left) : findFrom text delimiter left = none := by
  rw [findFrom, List.find?_eq_none]
  intro right hright hfound
  rw [Bool.and_eq_true, decide_eq_true_iff] at hfound
  have hbound := List.mem_range.mp hright
  omega

theorem findCharFrom_eq (text : ByteString) (delimiter : Byte) (left : ℕ) :
    findCharFrom text delimiter left = findFrom text [delimiter] left := by
  rcases lt_or_ge text.length left with hbehind | hleft
  · rw [findFrom_of_length_lt hbehind, findCharFrom, List.drop_eq_nil_of_le hbehind.le]
    rfl
  · cases hfind : findFrom text [delimiter] left with
    | none =>
      have habsent := (findFrom_eq_none_iff hleft).mp hfind
      rw [findCharFrom, Option.map_eq_none_iff, List.findIdx?_eq_none_iff]
      intro byte hbyte
      refine decide_eq_false fun hsame ↦ habsent ?_
      obtain ⟨before, after, htext⟩ := List.append_of_mem (hsame ▸ hbyte)
      exact ⟨before, after, by rw [htext, List.append_assoc, List.singleton_append]⟩
    | some right =>
      obtain ⟨before, after, htext, rfl, -, hfirst⟩ := findFrom_eq_some hfind
      have hbefore : ∀ byte ∈ before, ¬ byte = delimiter := by
        rintro byte hbyte rfl
        rw [htext] at hfirst
        obtain ⟨earlier, later, hsplit⟩ := List.append_of_mem hbyte
        refine not_infix_before (List.cons_ne_nil byte []) hfirst ⟨earlier, later, ?_⟩
        rw [hsplit, List.append_assoc, List.singleton_append]
      have hindex : (text.drop left).findIdx? (fun byte ↦ decide (byte = delimiter)) =
          some before.length := by
        rw [htext, List.append_assoc, List.findIdx?_append,
          List.findIdx?_eq_none_iff.mpr fun byte hbyte ↦ decide_eq_false (hbefore byte hbyte)]
        simp [List.findIdx?_cons]
      rw [findCharFrom, hindex, Option.map_some]

/-- The loop for a `char` is the loop for the string of it. -/
theorem splitCharLoop_eq (text : ByteString) (delimiter : Byte) (fuel left : ℕ)
    (out : List ByteString) :
    splitCharLoop text delimiter fuel left out = splitLoop text [delimiter] fuel left out := by
  induction fuel generalizing left out with
  | zero => rfl
  | succ fuel ih =>
    rw [splitCharLoop, splitLoop, findCharFrom_eq]
    cases findFrom text [delimiter] left with
    | none => rfl
    | some right => exact ih _ _

theorem splitCharInto_eq_splitInto (out : List ByteString) (text : ByteString) (delimiter : Byte)
    (fuel : ℕ) : splitCharInto out text delimiter fuel = splitInto out text [delimiter] fuel := by
  rw [splitCharInto, splitCharLoop_eq, splitInto]

/-! ### What is in the vector -/

/-- The pieces of a text: they are the text again when they are joined by the delimiter, none of
them has the delimiter in it, and there is one more than there are occurrences. -/
structure PiecesOf (delimiter text : ByteString) (pieces : List ByteString) : Prop where
  ne_nil : pieces ≠ []
  join : delimiter.intercalate pieces = text
  absent : ∀ piece ∈ pieces, ¬ delimiter <:+: piece
  length_eq : pieces.length = occurrences delimiter text + 1

/-- A call returns the pieces of a text, after at most as many rounds as the text has bytes, and one
more. -/
def Splits (call : ℕ → Option (List ByteString × ℤ)) (delimiter text : ByteString) : Prop :=
  ∃ pieces, PiecesOf delimiter text pieces ∧
    ∀ fuel, text.length < fuel → call fuel = some (pieces, toInt32 pieces.length)

theorem piecesOf_of_separated {delimiter text : ByteString} {pieces : List ByteString}
    (hdelimiter : delimiter ≠ []) (hpieces : Separated delimiter text pieces) :
    PiecesOf delimiter text pieces where
  ne_nil := hpieces.ne_nil
  join := hpieces.intercalate_eq
  absent := hpieces.not_infix hdelimiter
  length_eq := hpieces.length_eq hdelimiter

theorem splits_splitInto {delimiter : ByteString} (hdelimiter : delimiter ≠ [])
    (text : ByteString) : Splits (splitInto [] text delimiter) delimiter text := by
  have hpieces := separated_split hdelimiter text
  refine ⟨split text delimiter hdelimiter, piecesOf_of_separated hdelimiter hpieces, ?_⟩
  intro fuel hfuel
  obtain ⟨pieces, hloop, hothers⟩ := splitLoop_separated hdelimiter (Nat.zero_le text.length)
    (show text.length - 0 < fuel from hfuel) []
  rw [splitInto, hloop, hpieces.unique hothers]
  rfl

/-- Splitting a text and joining its pieces, for a string and for a `char`. -/
theorem split_join (text : ByteString) :
    (∀ delimiter, delimiter ≠ [] → Splits (splitInto [] text delimiter) delimiter text) ∧
      ∀ delimiter : Byte, Splits (splitCharInto [] text delimiter) [delimiter] text := by
  refine ⟨fun delimiter hdelimiter ↦ splits_splitInto hdelimiter text, fun delimiter ↦ ?_⟩
  rw [show splitCharInto [] text delimiter = splitInto [] text [delimiter] from
    funext (splitCharInto_eq_splitInto [] text delimiter)]
  exact splits_splitInto (List.cons_ne_nil delimiter []) text

/-- The vector that `Split` at a `char` fills. -/
def splitChar (text : ByteString) (delimiter : Byte) : List ByteString :=
  ((splitCharInto [] text delimiter (text.length + 1)).map Prod.fst).getD []

/-- Splitting at a `char` is splitting a list at an item. -/
theorem splitChar_eq (text : ByteString) (delimiter : Byte) :
    splitChar text delimiter = text.splitOn delimiter := by
  have hitem := separated_splitOn delimiter text
  obtain ⟨pieces, hloop, hpieces⟩ := splitLoop_separated (List.cons_ne_nil delimiter [])
    (Nat.zero_le text.length) (Nat.lt_succ_self text.length) []
  rw [splitChar, splitCharInto, splitCharLoop_eq, hloop, Option.map_some, Option.map_some,
    Option.getD_some]
  exact hpieces.unique hitem

/-- Of overlapping occurrences the first one counts, and delimiters side by side make an empty
piece. -/
theorem split_join_overlapping :
    splitInto [] (ofString "aaab") (ofString "aa") 5 = some ([[], ofString "ab"], 2) ∧
      splitCharInto [] (ofString ",a,,") 44 5 = some ([[], ofString "a", [], []], 4) ∧
      Splits (splitInto [] (ofString "aaab") (ofString "aa")) (ofString "aa") (ofString "aaab") ∧
      Splits (splitCharInto [] (ofString ",a,,") 44) [44] (ofString ",a,,") :=
  ⟨by decide, by decide, (split_join (ofString "aaab")).1 (ofString "aa") (by decide),
    (split_join (ofString ",a,,")).2 44⟩

end UtilAll

end RocketMQClient.Common
