import Mathlib.Algebra.Field.Rat
import Mathlib.Algebra.Order.Ring.Rat
import RocketMQClient.Library.Decimal
import RocketMQClient.Library.Hexadecimal

/-!
# The grammar of JSON

`JsonTree.parse` reads a text by the grammar of JSON and rejects every other one: there is one value
with white space around it, elements and members are separated by one comma, names are strings,
numbers have no zeros in front, and no control character stands in a string. Numbers are read
exactly. Members stay in the order of the text.

`JsonTree.write` is the text of a tree without white space, for whole numbers and for strings
without a quote, a backslash or a control character. It is read back as the tree
(`parse_write`).

The grammar serves as the other side of what is sent: it knows nothing of the writer and nothing of
the laxer reader of the client, so that a text which it accepts is one that any program can read.
`Writable` are the trees for which the round trip is claimed; each kind of value is read back behind
any text that can stand after it (`Delimited`), and trees by induction on them.
-/

set_option autoImplicit false
set_option relaxedAutoImplicit false

namespace RocketMQClient.Library

/-- A value. -/
inductive JsonTree where
  | null
  | bool (value : Bool)
  | number (value : ℚ)
  | string (text : ByteString)
  | array (elements : List JsonTree)
  | object (members : List (ByteString × JsonTree))

namespace JsonTree

/-! ### Strings -/

/-- White space between tokens. -/
def skipWhitespace (input : ByteString) : ByteString :=
  input.dropWhile fun byte ↦ decide (byte = 32 ∨ byte = 9 ∨ byte = 10 ∨ byte = 13)

/-- The bytes of a code point. -/
def codePointBytes (code : ℕ) : ByteString :=
  if code < 0x80 then [Fin.ofNat 256 code]
  else if code < 0x800 then [Fin.ofNat 256 (0xC0 + code / 64), Fin.ofNat 256 (0x80 + code % 64)]
  else if code < 0x10000 then
    [Fin.ofNat 256 (0xE0 + code / 4096), Fin.ofNat 256 (0x80 + code / 64 % 64),
      Fin.ofNat 256 (0x80 + code % 64)]
  else
    [Fin.ofNat 256 (0xF0 + code / 262144), Fin.ofNat 256 (0x80 + code / 4096 % 64),
      Fin.ofNat 256 (0x80 + code / 64 % 64), Fin.ofNat 256 (0x80 + code % 64)]

/-- The value of four hexadecimal digits, and what follows them. -/
def readUnit : ByteString → Option (ℕ × ByteString)
  | first :: second :: third :: fourth :: rest =>
    ([first, second, third, fourth].mapM hexDigitValue).map fun digits ↦ (ofHexDigits digits, rest)
  | _ => none

/-- The second unit of a surrogate pair. -/
def readLowSurrogate : ByteString → Option (ℕ × ByteString)
  | 92 :: 117 :: rest =>
    (readUnit rest).filter fun read ↦ decide (0xDC00 ≤ read.1 ∧ read.1 < 0xE000)
  | _ => none

/-- The byte of a short escape. -/
def shortEscape (mark : Byte) : Option Byte :=
  if mark = 34 ∨ mark = 47 ∨ mark = 92 then some mark
  else if mark = 98 then some 8
  else if mark = 102 then some 12
  else if mark = 110 then some 10
  else if mark = 114 then some 13
  else if mark = 116 then some 9
  else none

/-- The bytes of an escape sequence, behind its backslash, and what follows it. -/
def readEscape : ByteString → Option (ByteString × ByteString)
  | [] => none
  | mark :: rest =>
    if mark = 117 then
      (readUnit rest).map fun (unit, rest) ↦
        if 0xD800 ≤ unit ∧ unit < 0xDC00 then
          match readLowSurrogate rest with
          | some (low, rest) =>
            (codePointBytes (0x10000 + (unit - 0xD800) * 0x400 + (low - 0xDC00)), rest)
          | none => (codePointBytes unit, rest)
        else (codePointBytes unit, rest)
    else (shortEscape mark).map fun byte ↦ ([byte], rest)

/-- The text of a string behind its opening quote, and what follows its closing quote. -/
def readString : ℕ → ByteString → Option (ByteString × ByteString)
  | _, [] => none
  | 0, _ => none
  | fuel + 1, byte :: rest =>
    if byte = 34 then some ([], rest)
    else if byte = 92 then
      (readEscape rest).bind fun (escaped, rest) ↦
        (readString fuel rest).map fun (text, rest) ↦ (escaped ++ text, rest)
    else if byte.val < 32 then none
    else (readString fuel rest).map fun (text, rest) ↦ (byte :: text, rest)

/-! ### Numbers -/

/-- One digit or more. -/
def readDigits (input : ByteString) : Option (ByteString × ByteString) :=
  if input.takeWhile isDigit = [] then none
  else some (input.takeWhile isDigit, input.dropWhile isDigit)

/-- The digits of the fraction, if there is one. -/
def readFraction (input : ByteString) : Option (ByteString × ByteString) :=
  if input.head? = some 46 then readDigits input.tail else some ([], input)

/-- The exponent; zero if there is none. -/
def readExponent (input : ByteString) : Option (ℤ × ByteString) :=
  if input.head? = some 101 ∨ input.head? = some 69 then
    let signed := input.tail
    let unsigned := if signed.head? = some 45 ∨ signed.head? = some 43 then signed.tail else signed
    (readDigits unsigned).map fun (digits, rest) ↦
      (if signed.head? = some 45 then -(ofDecimalDigits 0 digits : ℤ) else ofDecimalDigits 0 digits,
        rest)
  else some (0, input)

/-- A number without a sign, and what follows it. -/
def readMagnitude (input : ByteString) : Option (ℚ × ByteString) :=
  (readDigits input).bind fun (whole, rest) ↦
    if whole.head? = some 48 ∧ whole ≠ [48] then none
    else
      (readFraction rest).bind fun (fraction, rest) ↦
        (readExponent rest).map fun (exponent, rest) ↦
          (ofDecimalDigits 0 (whole ++ fraction) * 10 ^ (exponent - (fraction.length : ℤ)), rest)

/-- A number, and what follows it. -/
def readNumber (input : ByteString) : Option (ℚ × ByteString) :=
  if input.head? = some 45 then
    (readMagnitude input.tail).map fun (magnitude, rest) ↦ (-magnitude, rest)
  else readMagnitude input

/-! ### Values -/

/-- What follows a word. -/
def readWord (word : String) (value : JsonTree) (input : ByteString) :
    Option (JsonTree × ByteString) :=
  if (ofString word).isPrefixOf input then some (value, input.drop (ofString word).length) else none

/-- The elements of an array behind its bracket, of which there is one at least. -/
def readElements (readItem : ByteString → Option (JsonTree × ByteString)) :
    ℕ → ByteString → Option (List JsonTree × ByteString)
  | 0, _ => none
  | rounds + 1, input =>
    (readItem input).bind fun (element, rest) ↦
      match skipWhitespace rest with
      | [] => none
      | byte :: rest =>
        if byte = 93 then some ([element], rest)
        else if byte = 44 then
          (readElements readItem rounds rest).map fun (elements, rest) ↦ (element :: elements, rest)
        else none

/-- The name of a member and the colon. -/
def readName (input : ByteString) : Option (ByteString × ByteString) :=
  match skipWhitespace input with
  | [] => none
  | byte :: rest =>
    if byte = 34 then
      (readString rest.length rest).bind fun (name, rest) ↦
        match skipWhitespace rest with
        | [] => none
        | byte :: rest => if byte = 58 then some (name, rest) else none
    else none

/-- The members of an object behind its brace, of which there is one at least. -/
def readMembers (readItem : ByteString → Option (JsonTree × ByteString)) :
    ℕ → ByteString → Option (List (ByteString × JsonTree) × ByteString)
  | 0, _ => none
  | rounds + 1, input =>
    (readName input).bind fun (name, rest) ↦
      (readItem rest).bind fun (value, rest) ↦
        match skipWhitespace rest with
        | [] => none
        | byte :: rest =>
          if byte = 125 then some ([(name, value)], rest)
          else if byte = 44 then
            (readMembers readItem rounds rest).map fun (members, rest) ↦
              ((name, value) :: members, rest)
          else none

/-- A value with white space in front, and what follows it. The fuel is for the nesting. -/
def readValue : ℕ → ByteString → Option (JsonTree × ByteString)
  | 0, _ => none
  | fuel + 1, input =>
    match skipWhitespace input with
    | [] => none
    | byte :: rest =>
      if byte = 34 then (readString rest.length rest).map fun (text, rest) ↦ (string text, rest)
      else if byte = 91 then
        if (skipWhitespace rest).head? = some 93 then some (array [], (skipWhitespace rest).tail)
        else
          (readElements (readValue fuel) rest.length rest).map fun (elements, rest) ↦
            (array elements, rest)
      else if byte = 123 then
        if (skipWhitespace rest).head? = some 125 then some (object [], (skipWhitespace rest).tail)
        else
          (readMembers (readValue fuel) rest.length rest).map fun (members, rest) ↦
            (object members, rest)
      else if byte = 116 then readWord "true" (bool true) (byte :: rest)
      else if byte = 102 then readWord "false" (bool false) (byte :: rest)
      else if byte = 110 then readWord "null" null (byte :: rest)
      else (readNumber (byte :: rest)).map fun (value, rest) ↦ (number value, rest)

/-- The tree of a text. -/
def parse (text : ByteString) : Option JsonTree :=
  (readValue text.length text).bind fun (value, rest) ↦
    if skipWhitespace rest = [] then some value else none

/-! ### Writing -/

/-- A string without escapes between quotes. -/
def quoted (text : ByteString) : ByteString := 34 :: text ++ [34]

mutual

/-- The text of a tree without white space. -/
def write : JsonTree → ByteString
  | null => ofString "null"
  | bool value => ofString (if value then "true" else "false")
  | number value => decimal value.num
  | string text => quoted text
  | array elements => 91 :: writeElements elements ++ [93]
  | object members => 123 :: writeMembers members ++ [125]

def writeElements : List JsonTree → ByteString
  | [] => []
  | [element] => write element
  | element :: next :: rest => write element ++ 44 :: writeElements (next :: rest)

def writeMembers : List (ByteString × JsonTree) → ByteString
  | [] => []
  | [(name, value)] => quoted name ++ 58 :: write value
  | (name, value) :: next :: rest =>
    quoted name ++ 58 :: write value ++ 44 :: writeMembers (next :: rest)

end

/-- The bytes that a string may have without an escape. -/
def IsPlain (text : ByteString) : Prop := ∀ byte ∈ text, 32 ≤ byte.val ∧ byte ≠ 34 ∧ byte ≠ 92

instance (text : ByteString) : Decidable (IsPlain text) := List.decidableBAll _ _

/-- A tree of plain strings and whole numbers. -/
inductive Writable : JsonTree → Prop
  | null : Writable null
  | bool (value : Bool) : Writable (bool value)
  | integer (value : ℤ) : Writable (number value)
  | string (text : ByteString) (hplain : IsPlain text) : Writable (string text)
  | array (elements : List JsonTree) (helements : ∀ element ∈ elements, Writable element) :
    Writable (array elements)
  | object (members : List (ByteString × JsonTree))
    (hnames : ∀ member ∈ members, IsPlain member.1)
    (hvalues : ∀ member ∈ members, Writable member.2) : Writable (object members)

theorem Writable.noMember : Writable (.object []) :=
  .object [] (List.forall_mem_nil _) (List.forall_mem_nil _)

/-- An object with one more member in front. -/
theorem Writable.cons {name : ByteString} {value : JsonTree}
    {members : List (ByteString × JsonTree)} (hname : IsPlain name) (hvalue : Writable value)
    (hmembers : Writable (.object members)) : Writable (.object ((name, value) :: members)) := by
  cases hmembers with
  | object members hnames hvalues =>
    exact .object _ (List.forall_mem_cons.mpr ⟨hname, hnames⟩)
      (List.forall_mem_cons.mpr ⟨hvalue, hvalues⟩)

/-- An array of trees that are made from items. -/
theorem Writable.arrayMap {Item : Type} {tree : Item → JsonTree} {items : List Item}
    (hitems : ∀ item ∈ items, Writable (tree item)) : Writable (.array (items.map tree)) :=
  .array _ (List.forall_mem_map.mpr hitems)

/-! ### The parts of a tree -/

/-- The value of the first member of a name. -/
def member (name : String) : JsonTree → Option JsonTree
  | object members => (members.find? fun member ↦ decide (member.1 = ofString name)).map Prod.snd
  | _ => none

/-- The text of a string. -/
def text : JsonTree → Option ByteString
  | string text => some text
  | _ => none

/-- The value of a whole number. -/
def integer : JsonTree → Option ℤ
  | number value => if value.den = 1 then some value.num else none
  | _ => none

/-- The elements of an array. -/
def elements : JsonTree → Option (List JsonTree)
  | array elements => some elements
  | _ => none

/-! ### Strings and numbers that are read back -/

variable {text rest : ByteString} {byte : Byte} {fuel rounds : ℕ} {value : JsonTree}

theorem readString_plain (hplain : IsPlain text) (hfuel : text.length < fuel) (rest : ByteString) :
    readString fuel (text ++ 34 :: rest) = some (text, rest) := by
  induction text generalizing fuel with
  | nil =>
    obtain ⟨fuel, rfl⟩ := Nat.exists_eq_add_one.mpr hfuel
    exact if_pos rfl
  | cons byte text ih =>
    obtain ⟨⟨hcontrol, hquote, hescape⟩, hplain⟩ := List.forall_mem_cons.mp hplain
    obtain ⟨fuel, rfl⟩ := Nat.exists_eq_add_one.mpr (Nat.zero_lt_of_lt hfuel)
    have hread := ih hplain (Nat.lt_of_succ_lt_succ hfuel)
    rw [List.cons_append, readString, if_neg hquote, if_neg hescape, if_neg (by omega), hread]
    rfl

theorem skipWhitespace_cons (hbyte : ¬ (byte = 32 ∨ byte = 9 ∨ byte = 10 ∨ byte = 13))
    (rest : ByteString) : skipWhitespace (byte :: rest) = byte :: rest :=
  List.dropWhile_cons_of_neg (by simpa using hbyte)

/-- What stands behind an element or a member: the end, a comma or a closing mark. -/
def Delimited (rest : ByteString) : Prop :=
  ∀ byte ∈ rest.head?, byte = 44 ∨ byte = 93 ∨ byte = 125

theorem delimited_cons (hbyte : byte = 44 ∨ byte = 93 ∨ byte = 125) (rest : ByteString) :
    Delimited (byte :: rest) := fun _ hhead ↦ Option.some.inj hhead ▸ hbyte

theorem Delimited.head?_ne (hrest : Delimited rest)
    (hbyte : ¬ (byte = 44 ∨ byte = 93 ∨ byte = 125)) : rest.head? ≠ some byte :=
  fun hhead ↦ hbyte (hrest byte hhead)

theorem readDigits_decimalDigits (number : ℕ) (hrest : Delimited rest) :
    readDigits (decimalDigits number ++ rest) = some (decimalDigits number, rest) := by
  have hdigits := @isDigit_of_mem_decimalDigits number
  have hbehind : rest.takeWhile isDigit = [] ∧ rest.dropWhile isDigit = rest := by
    cases rest with
    | nil => exact ⟨rfl, rfl⟩
    | cons byte rest =>
      have hnot : isDigit byte ≠ true := by
        obtain rfl | rfl | rfl := hrest byte rfl <;> decide
      exact ⟨List.takeWhile_cons_of_neg hnot, List.dropWhile_cons_of_neg hnot⟩
  have htake : (decimalDigits number ++ rest).takeWhile isDigit = decimalDigits number := by
    rw [List.takeWhile_append_of_pos hdigits, hbehind.1, List.append_nil]
  have hdrop : (decimalDigits number ++ rest).dropWhile isDigit = rest := by
    rw [List.dropWhile_append_of_pos hdigits, hbehind.2]
  rw [readDigits, htake, hdrop, if_neg (decimalDigits_ne_nil number)]

theorem readMagnitude_decimalDigits (number : ℕ) (hrest : Delimited rest) :
    readMagnitude (decimalDigits number ++ rest) = some ((number : ℚ), rest) := by
  have hleading : ¬ ((decimalDigits number).head? = some 48 ∧ decimalDigits number ≠ [48]) :=
    fun hzero ↦ hzero.2 (decimalDigits_leading_zero hzero.1)
  have hfraction : readFraction rest = some ([], rest) := if_neg (hrest.head?_ne (by decide))
  have hexponent : readExponent rest = some (0, rest) :=
    if_neg (not_or.mpr ⟨hrest.head?_ne (by decide), hrest.head?_ne (by decide)⟩)
  rw [readMagnitude, readDigits_decimalDigits number hrest, Option.bind_some]
  simp only [if_neg hleading, hfraction, hexponent, Option.bind_some, Option.map_some,
    List.append_nil, ofDecimalDigits_decimalDigits]
  simp

theorem exists_decimalDigits_eq (number : ℕ) :
    ∃ first rest, decimalDigits number = first :: rest ∧ isDigit first = true := by
  obtain ⟨first, rest, hdigits⟩ := List.exists_cons_of_ne_nil (decimalDigits_ne_nil number)
  exact ⟨first, rest, hdigits, isDigit_of_mem_decimalDigits first (hdigits ▸ List.mem_cons_self)⟩

/-- An integer starts with a digit or a minus sign. -/
theorem exists_decimal_eq (number : ℤ) :
    ∃ first rest, decimal number = first :: rest ∧ (isDigit first = true ∨ first = 45) := by
  unfold decimal
  split_ifs with hnegative
  · exact ⟨45, _, rfl, .inr rfl⟩
  · obtain ⟨first, rest, hdigits, hfirst⟩ := exists_decimalDigits_eq number.natAbs
    exact ⟨first, rest, hdigits, .inl hfirst⟩

theorem readNumber_decimal (number : ℤ) (hrest : Delimited rest) :
    readNumber (decimal number ++ rest) = some ((number : ℚ), rest) := by
  unfold readNumber decimal
  by_cases hnegative : number < 0
  · rw [if_pos hnegative, List.cons_append, List.head?_cons, if_pos rfl, List.tail_cons,
      readMagnitude_decimalDigits _ hrest, Option.map_some]
    have habs : -((number.natAbs : ℤ) : ℚ) = number := by
      rw [Int.ofNat_natAbs_of_nonpos hnegative.le, Int.cast_neg, neg_neg]
    rw [← habs]
    rfl
  · have hminus : (decimalDigits number.natAbs ++ rest).head? ≠ some 45 := by
      obtain ⟨first, digits, hdigits, hfirst⟩ := exists_decimalDigits_eq number.natAbs
      rw [hdigits]
      rintro hhead
      obtain rfl := Option.some.inj hhead
      exact absurd hfirst (by decide)
    rw [if_neg hnegative, if_neg hminus, readMagnitude_decimalDigits _ hrest]
    have habs : ((number.natAbs : ℤ) : ℚ) = number := by
      rw [Int.natAbs_of_nonneg (not_lt.mp hnegative)]
    rw [← habs]
    rfl

/-! ### Trees that are read back -/

/-- A byte that a value may start with. -/
def StartsValue (byte : Byte) : Prop :=
  ¬ (byte = 32 ∨ byte = 9 ∨ byte = 10 ∨ byte = 13) ∧ byte ≠ 93

instance (byte : Byte) : Decidable (StartsValue byte) := inferInstanceAs (Decidable (_ ∧ _))

theorem exists_write_eq (hvalue : value.Writable) :
    ∃ byte rest, value.write = byte :: rest ∧ StartsValue byte := by
  cases hvalue with
  | null => exact ⟨_, _, rfl, by decide⟩
  | bool value => cases value <;> exact ⟨_, _, rfl, by decide⟩
  | integer value =>
    obtain ⟨first, rest, hdecimal, hfirst⟩ := exists_decimal_eq value
    refine ⟨first, rest, hdecimal, ?_⟩
    have hstarts : ∀ byte, isDigit byte = true ∨ byte = 45 → StartsValue byte := by
      decide +kernel
    exact hstarts first hfirst
  | string text hplain => exact ⟨_, _, rfl, by decide⟩
  | array elements helements => exact ⟨_, _, rfl, by decide⟩
  | object members hnames hvalues => exact ⟨_, _, rfl, by decide⟩

theorem one_le_length_write (hvalue : value.Writable) : 1 ≤ value.write.length := by
  obtain ⟨byte, rest, hwrite, -⟩ := exists_write_eq hvalue
  rw [hwrite]
  exact Nat.succ_pos _

/-- What a function reads behind the text of a value. -/
def Reads (readItem : ByteString → Option (JsonTree × ByteString)) (value : JsonTree) : Prop :=
  ∀ rest, Delimited rest → readItem (value.write ++ rest) = some (value, rest)

variable {readItem : ByteString → Option (JsonTree × ByteString)} {elements : List JsonTree}
  {members : List (ByteString × JsonTree)}

/-- The elements of an array are read back, if each of them is. -/
theorem readElements_write (hread : ∀ element ∈ elements, Reads readItem element)
    (hsome : elements ≠ []) (hrounds : elements.length ≤ rounds) (rest : ByteString) :
    readElements readItem rounds (writeElements elements ++ 93 :: rest) =
      some (elements, rest) := by
  induction elements generalizing rounds with
  | nil => exact absurd rfl hsome
  | cons element others ih =>
    obtain ⟨rounds, rfl⟩ := Nat.exists_eq_add_one.mpr (Nat.zero_lt_of_lt hrounds)
    obtain ⟨hfirst, hothers⟩ := List.forall_mem_cons.mp hread
    cases others with
    | nil =>
      rw [writeElements, readElements, hfirst _ (delimited_cons (by decide) rest), Option.bind_some]
      rfl
    | cons next others =>
      have hnext := ih hothers (List.cons_ne_nil _ _) (Nat.le_of_succ_le_succ hrounds)
      rw [writeElements, List.append_assoc, List.cons_append, readElements,
        hfirst _ (delimited_cons (by decide) _), Option.bind_some]
      show (readElements readItem rounds (writeElements (next :: others) ++ 93 :: rest)).map
        (fun (elements, rest) ↦ (element :: elements, rest)) = _
      rw [hnext]
      rfl

theorem readName_quoted {name : ByteString} (hplain : IsPlain name) (rest : ByteString) :
    readName (quoted name ++ 58 :: rest) = some (name, rest) := by
  have hstring : readString (name ++ 34 :: 58 :: rest).length (name ++ 34 :: 58 :: rest) =
      some (name, 58 :: rest) :=
    readString_plain hplain (by rw [List.length_append]; exact Nat.lt_add_of_pos_right (by simp)) _
  rw [quoted, List.cons_append, List.cons_append, List.append_assoc, List.singleton_append,
    readName]
  show (readString (name ++ 34 :: 58 :: rest).length (name ++ 34 :: 58 :: rest)).bind _ = _
  rw [hstring]
  rfl

/-- The members of an object are read back, if the value of each of them is. -/
theorem readMembers_write (hnames : ∀ member ∈ members, IsPlain member.1)
    (hread : ∀ member ∈ members, Reads readItem member.2)
    (hsome : members ≠ []) (hrounds : members.length ≤ rounds) (rest : ByteString) :
    readMembers readItem rounds (writeMembers members ++ 125 :: rest) = some (members, rest) := by
  induction members generalizing rounds with
  | nil => exact absurd rfl hsome
  | cons member others ih =>
    obtain ⟨rounds, rfl⟩ := Nat.exists_eq_add_one.mpr (Nat.zero_lt_of_lt hrounds)
    obtain ⟨hfirst, hothers⟩ := List.forall_mem_cons.mp hread
    obtain ⟨hname, hotherNames⟩ := List.forall_mem_cons.mp hnames
    obtain ⟨name, value⟩ := member
    cases others with
    | nil =>
      have hvalue := hfirst _ (delimited_cons (by decide) rest : Delimited (125 :: rest))
      rw [writeMembers, List.append_assoc, List.cons_append, readMembers, readName_quoted hname,
        Option.bind_some]
      simp only [hvalue]
      rfl
    | cons next others =>
      have hnext := ih hotherNames hothers (List.cons_ne_nil _ _) (Nat.le_of_succ_le_succ hrounds)
      have hvalue := hfirst _ (delimited_cons (by decide) _ :
        Delimited (44 :: (writeMembers (next :: others) ++ 125 :: rest)))
      rw [writeMembers, List.append_assoc, List.append_assoc, List.cons_append, List.cons_append,
        readMembers, readName_quoted hname, Option.bind_some]
      simp only [hvalue]
      show (readMembers readItem rounds (writeMembers (next :: others) ++ 125 :: rest)).map
        (fun (members, rest) ↦ ((name, value) :: members, rest)) = _
      rw [hnext]
      rfl

/-- The text of a member. -/
def writeMember (member : ByteString × JsonTree) : ByteString :=
  quoted member.1 ++ 58 :: write member.2

theorem writeElements_eq (elements : List JsonTree) :
    writeElements elements = [44].intercalate (elements.map write) := by
  induction elements with
  | nil => rfl
  | cons element rest ih =>
    cases rest with
    | nil => rw [List.map_singleton, List.intercalate_singleton, writeElements]
    | cons next rest =>
      have hrest : (next :: rest).map write ≠ [] := List.cons_ne_nil _ _
      rw [writeElements, ih, @List.map_cons _ _ write element,
        List.intercalate_cons_of_ne_nil hrest, List.append_assoc]
      rfl

theorem writeMembers_eq (members : List (ByteString × JsonTree)) :
    writeMembers members = [44].intercalate (members.map writeMember) := by
  induction members with
  | nil => rfl
  | cons member rest ih =>
    obtain ⟨name, value⟩ := member
    cases rest with
    | nil => rw [List.map_singleton, List.intercalate_singleton, writeMembers, writeMember]
    | cons next rest =>
      have hrest : (next :: rest).map writeMember ≠ [] := List.cons_ne_nil _ _
      rw [writeMembers, ih, @List.map_cons _ _ writeMember (name, value),
        List.intercalate_cons_of_ne_nil hrest, List.append_assoc (writeMember (name, value))]
      rfl

/-- A text that is joined from pieces is as long as each of them. -/
theorem length_le_intercalate {pieces : List ByteString} {piece : ByteString}
    (hpiece : piece ∈ pieces) :
    piece.length ≤ (([44] : ByteString).intercalate pieces).length := by
  induction pieces with
  | nil => exact absurd hpiece List.not_mem_nil
  | cons first rest ih =>
    by_cases hrest : rest = []
    · rw [hrest, List.mem_singleton] at hpiece
      rw [hrest, List.intercalate_singleton, hpiece]
    · rw [List.intercalate_cons_of_ne_nil hrest, List.length_append, List.length_append]
      obtain rfl | hlater := List.mem_cons.mp hpiece
      · omega
      · have := ih hlater
        omega

/-- A text that is joined from pieces is as long as their number, if none of them is empty. -/
theorem count_le_intercalate {pieces : List ByteString} (hpieces : ∀ piece ∈ pieces, piece ≠ []) :
    pieces.length ≤ (([44] : ByteString).intercalate pieces).length := by
  induction pieces with
  | nil => exact Nat.zero_le _
  | cons first rest ih =>
    obtain ⟨hfirst, hothers⟩ := List.forall_mem_cons.mp hpieces
    have hpositive := List.length_pos_iff.mpr hfirst
    by_cases hrest : rest = []
    · rw [hrest, List.intercalate_singleton]
      exact hpositive
    · rw [List.intercalate_cons_of_ne_nil hrest, List.length_append, List.length_append,
        List.length_cons]
      have := ih hothers
      omega

theorem length_write_le_writeElements {element : JsonTree} (helement : element ∈ elements) :
    element.write.length ≤ (writeElements elements).length := by
  rw [writeElements_eq]
  exact length_le_intercalate (List.mem_map_of_mem helement)

theorem length_write_le_writeMembers {member : ByteString × JsonTree} (hmember : member ∈ members) :
    member.2.write.length ≤ (writeMembers members).length := by
  have hlength : (writeMember member).length ≤ (writeMembers members).length := by
    rw [writeMembers_eq]
    exact length_le_intercalate (List.mem_map_of_mem hmember)
  rw [writeMember, List.length_append, List.length_cons] at hlength
  omega

theorem count_le_writeElements (helements : ∀ element ∈ elements, Writable element) :
    elements.length ≤ (writeElements elements).length := by
  rw [writeElements_eq, ← List.length_map write]
  refine count_le_intercalate (List.forall_mem_map.mpr fun element helement ↦ ?_)
  obtain ⟨byte, rest, hwrite, -⟩ := exists_write_eq (helements element helement)
  rw [hwrite]
  exact List.cons_ne_nil _ _

theorem count_le_writeMembers (members : List (ByteString × JsonTree)) :
    members.length ≤ (writeMembers members).length := by
  rw [writeMembers_eq, ← List.length_map writeMember]
  exact count_le_intercalate (List.forall_mem_map.mpr fun member _ ↦ List.cons_ne_nil _ _)

/-- The elements start like a value. -/
theorem exists_writeElements_eq (helements : ∀ element ∈ elements, Writable element)
    (hsome : elements ≠ []) :
    ∃ byte rest, writeElements elements = byte :: rest ∧ StartsValue byte := by
  obtain ⟨first, others, rfl⟩ := List.exists_cons_of_ne_nil hsome
  obtain ⟨byte, tail, hwrite, hstarts⟩ := exists_write_eq (helements first List.mem_cons_self)
  cases others with
  | nil => exact ⟨byte, tail, hwrite, hstarts⟩
  | cons next others => exact ⟨byte, _, by rw [writeElements, hwrite]; rfl, hstarts⟩

/-- The members start with a quote. -/
theorem exists_writeMembers_eq (hsome : members ≠ []) :
    ∃ rest, writeMembers members = 34 :: rest := by
  obtain ⟨⟨name, value⟩, others, rfl⟩ := List.exists_cons_of_ne_nil hsome
  cases others with
  | nil => exact ⟨_, rfl⟩
  | cons next others => exact ⟨_, rfl⟩

/-- A value that starts like a number is read as one. -/
theorem readValue_number (hbyte : isDigit byte = true ∨ byte = 45) (rest : ByteString) :
    readValue (fuel + 1) (byte :: rest) =
      (readNumber (byte :: rest)).map fun (value, rest) ↦ (number value, rest) := by
  have hother : ∀ byte, isDigit byte = true ∨ byte = 45 →
      ¬ (byte = 32 ∨ byte = 9 ∨ byte = 10 ∨ byte = 13) ∧ byte ≠ 34 ∧ byte ≠ 91 ∧ byte ≠ 123 ∧
        byte ≠ 116 ∧ byte ≠ 102 ∧ byte ≠ 110 := by decide +kernel
  obtain ⟨hspace, hquote, hbracket, hbrace, htrue, hfalse, hnull⟩ := hother byte hbyte
  rw [readValue, skipWhitespace_cons hspace]
  simp only [if_neg hquote, if_neg hbracket, if_neg hbrace, if_neg htrue, if_neg hfalse,
    if_neg hnull]

/-- An array that does not start with its end is read by its elements. -/
theorem readValue_array {rest : ByteString} (hnonempty : (skipWhitespace rest).head? ≠ some 93) :
    readValue (fuel + 1) (91 :: rest) =
      (readElements (readValue fuel) rest.length rest).map fun (elements, rest) ↦
        (array elements, rest) := if_neg hnonempty

/-- An object that does not start with its end is read by its members. -/
theorem readValue_object {rest : ByteString} (hnonempty : (skipWhitespace rest).head? ≠ some 125) :
    readValue (fuel + 1) (123 :: rest) =
      (readMembers (readValue fuel) rest.length rest).map fun (members, rest) ↦
        (object members, rest) := if_neg hnonempty

/-- A value is read back with enough fuel. -/
theorem readValue_write (hvalue : value.Writable) (hfuel : value.write.length ≤ fuel) :
    Reads (readValue fuel) value := by
  induction fuel generalizing value with
  | zero => exact absurd (one_le_length_write hvalue) (by omega)
  | succ fuel ih =>
    intro rest hrest
    cases hvalue with
    | null => rfl
    | bool value => cases value <;> rfl
    | integer value =>
      obtain ⟨first, digits, hdecimal, hfirst⟩ := exists_decimal_eq value
      have hwrite : (number value).write = first :: digits := hdecimal
      rw [hwrite, List.cons_append, readValue_number hfirst, ← List.cons_append, ← hdecimal,
        readNumber_decimal value hrest]
      rfl
    | string text hplain =>
      have hread : readString (text ++ 34 :: rest).length (text ++ 34 :: rest) =
          some (text, rest) :=
        readString_plain hplain
          (by rw [List.length_append]; exact Nat.lt_add_of_pos_right (by simp)) _
      rw [write, quoted, List.cons_append, List.cons_append, List.append_assoc,
        List.singleton_append]
      show (readString (text ++ 34 :: rest).length (text ++ 34 :: rest)).map _ = _
      rw [hread]
      rfl
    | array elements helements =>
      rw [write, List.length_append, List.length_cons, List.length_singleton] at hfuel
      rw [write, List.cons_append, List.cons_append, List.append_assoc, List.singleton_append]
      by_cases hnil : elements = []
      · rw [hnil]
        rfl
      · have hitems : ∀ element ∈ elements, Reads (readValue fuel) element := by
          intro element helement
          have hlength := length_write_le_writeElements helement
          exact ih (helements element helement) (by omega)
        have hcount : elements.length ≤ (writeElements elements ++ 93 :: rest).length := by
          rw [List.length_append]
          exact Nat.le_add_right_of_le (count_le_writeElements helements)
        have hhead : (skipWhitespace (writeElements elements ++ 93 :: rest)).head? ≠ some 93 := by
          obtain ⟨byte, tail, hwrite, hspace, hend⟩ := exists_writeElements_eq helements hnil
          rw [hwrite, List.cons_append, skipWhitespace_cons hspace]
          exact fun hhead ↦ hend (Option.some.inj hhead)
        rw [readValue_array hhead, readElements_write hitems hnil hcount]
        rfl
    | object members hnames hvalues =>
      rw [write, List.length_append, List.length_cons, List.length_singleton] at hfuel
      rw [write, List.cons_append, List.cons_append, List.append_assoc, List.singleton_append]
      by_cases hnil : members = []
      · rw [hnil]
        rfl
      · have hitems : ∀ member ∈ members, Reads (readValue fuel) member.2 := by
          intro member hmember
          have hlength := length_write_le_writeMembers hmember
          exact ih (hvalues member hmember) (by omega)
        have hcount : members.length ≤ (writeMembers members ++ 125 :: rest).length := by
          rw [List.length_append]
          exact Nat.le_add_right_of_le (count_le_writeMembers members)
        have hhead : (skipWhitespace (writeMembers members ++ 125 :: rest)).head? ≠ some 125 := by
          obtain ⟨tail, hwrite⟩ := exists_writeMembers_eq hnil
          rw [hwrite, List.cons_append, skipWhitespace_cons (by decide)]
          exact fun hhead ↦ absurd (Option.some.inj hhead) (by decide)
        rw [readValue_object hhead, readMembers_write hnames hitems hnil hcount]
        rfl

/-- The text of a tree is accepted and read as the tree. -/
theorem parse_write (hvalue : value.Writable) : parse value.write = some value := by
  have hread := readValue_write hvalue le_rfl [] (fun _ hhead ↦ nomatch hhead)
  rw [List.append_nil] at hread
  rw [parse, hread]
  rfl

example : (parse (ofString "[1,]")).isNone ∧ (parse (ofString "[01]")).isNone ∧
    (parse (ofString " [1, -2.5e3]\n")).isSome := by decide +kernel

end JsonTree

end RocketMQClient.Library
