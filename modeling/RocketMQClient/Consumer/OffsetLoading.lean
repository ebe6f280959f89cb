import RocketMQClient.Consumer.OffsetSerialization
import RocketMQClient.Consumer.StartOffset
import RocketMQClient.Factory.RouteDecode

/-!
# Loading the offsets of a local file

`OffsetSerializeWrapper::Decode` clears its table and inserts the entries of the document one after
another. A value of the wrong kind ends it with an exception, which nothing up to `load` and
`readOffset` catches, and leaves the entries before it in the table.

`AllOrNothing` says that a text is decoded as a whole or not at all. It is about a reading: what the
entries of a document are. `Converts` is that of the library, for which a missing member is zero or
empty; `States` asks for every member and its kind. `allOrNothing_iff` says for both which texts
they are.

What is proved for every reading is the way in which an exception leaves the entries before it
behind, so that a text is decoded as a whole exactly when no element of it fails. The JSON library
is embedded here, with its reader and its conversions; the round trip of whole tables is shown
elsewhere, over a library that only reads back what it writes.
-/

set_option autoImplicit false
set_option relaxedAutoImplicit false

namespace RocketMQClient.Consumer.OffsetLoading

open Library Messages Protocol Factory

/-- An offset table, in the order of iteration. -/
abbrev OffsetEntries := List (MessageQueue × ℤ)

/-! ### The wrapper -/

/-- The queue and the offset of one element. -/
def decodePair (valueOffsetOnePair : Value) : Except DecodeFailure (MessageQueue × ℤ) := do
  let valueMessageQueue ← memberOf valueOffsetOnePair "messageQueue"
  let broker ← textOf valueMessageQueue "broker"
  let topic ← textOf valueMessageQueue "topic"
  let queueId ← intOf valueMessageQueue "queueId"
  let offset ← intOf valueOffsetOnePair "offset"
  return (⟨topic, broker, queueId.toInt⟩, offset.toInt)

/-- The loop of `Decode`. -/
def decodeLoop : List Value → OffsetEntries → Except DecodeFailure Bool × OffsetEntries
  | [], offsetTable => (.ok true, offsetTable)
  | valueOffsetOnePair :: rest, offsetTable =>
    match decodePair valueOffsetOnePair with
    | .error failure => (.error failure, offsetTable)
    | .ok entry => decodeLoop rest (insertEntry entry offsetTable)

/-- `OffsetSerializeWrapper::Decode`: what it returns or throws, and the table afterwards. -/
def decode (data : ByteString) (offsetTable : OffsetEntries) :
    Except DecodeFailure Bool × OffsetEntries :=
  match readDocument data with
  | .error failure => (.error failure, offsetTable)
  | .ok none => (.ok false, offsetTable)
  | .ok (some valueOffsets) =>
    match Factory.elementsOf valueOffsets with
    | .error failure => (.error failure, [])
    | .ok elements => decodeLoop elements []

/-! ### The store -/

/-- The table of the store and that of its wrapper. -/
structure LocalOffsets where
  offsetTable : OffsetEntries
  serializeWrapper : OffsetEntries

/-- `readOffsetFromLocal`; a file that cannot be read is no error. -/
def readOffsetFromLocal (file : Option ByteString) (serializeWrapper : OffsetEntries) :
    Except DecodeFailure Bool × OffsetEntries :=
  match file with
  | none => (.ok true, serializeWrapper)
  | some text => decode (LocalFileOffsetStore.readWholeFile text) serializeWrapper

/-- `load`. -/
def load (file : Option ByteString) (store : LocalOffsets) :
    Except DecodeFailure Unit × LocalOffsets :=
  match readOffsetFromLocal file store.serializeWrapper with
  | (.error failure, table) => (.error failure, { store with serializeWrapper := table })
  | (.ok _, table) => (.ok (), ⟨table, table⟩)

/-- `updateOffset` without `increaseOnly`. -/
def updateOffset (offsetTable : OffsetEntries) (mq : MessageQueue) (offset : ℤ) : OffsetEntries :=
  match findEntry offsetTable mq with
  | none => insertEntry (mq, offset) offsetTable
  | some _ => assignEntry (mq, offset) offsetTable

/-- The case of `readOffset` that reads the file. -/
def readFromStore (file : Option ByteString) (store : LocalOffsets) (mq : MessageQueue) :
    Except DecodeFailure ℤ × LocalOffsets :=
  match readOffsetFromLocal file store.serializeWrapper with
  | (.error failure, table) => (.error failure, { store with serializeWrapper := table })
  | (.ok false, table) => (.ok (-1), { store with serializeWrapper := table })
  | (.ok true, table) =>
    match findEntry table mq with
    | none => (.ok (-1), { store with serializeWrapper := table })
    | some entry => (.ok entry.2, ⟨updateOffset store.offsetTable mq entry.2, table⟩)

/-- `readOffset`. -/
def readOffset (file : Option ByteString) (store : LocalOffsets) (mq : MessageQueue)
    (type : ReadOffsetType) : Except DecodeFailure ℤ × LocalOffsets :=
  match type, findEntry store.offsetTable mq with
  | .readFromStore, _ => readFromStore file store mq
  | _, some entry => (.ok entry.2, store)
  | .memoryFirstThenStore, none => readFromStore file store mq
  | .readFromMemory, none => (.ok (-1), store)

/-! ### The entries of a document -/

/-- An element that the library converts to an entry. -/
structure PairTyped (element : Value) : Prop where
  isStruct : element.IsStruct
  messageQueue : (element.memberAt "messageQueue").IsStruct
  broker : ((element.memberAt "messageQueue").memberAt "broker").HasString
  topic : ((element.memberAt "messageQueue").memberAt "topic").HasString
  queueId : ((element.memberAt "messageQueue").memberAt "queueId").HasInt
  offset : (element.memberAt "offset").HasInt

/-- The entry that an element is converted to. -/
def pairAt (element : Value) : MessageQueue × ℤ :=
  (⟨cString ((element.memberAt "messageQueue").memberAt "topic").toText,
    cString ((element.memberAt "messageQueue").memberAt "broker").toText,
    ((element.memberAt "messageQueue").memberAt "queueId").toInt.toInt⟩,
    (element.memberAt "offset").toInt.toInt)

/-- The document has elements that the library converts to the entries. -/
def Converts (document : Value) (entries : OffsetEntries) : Prop :=
  ∃ elements, Factory.elementsOf document = .ok elements ∧
    (∀ element ∈ elements, PairTyped element) ∧ entries = elements.map pairAt

/-- A value is a number that an `int` can have. -/
def IsIntNumber (value : Value) (number : ℤ) : Prop :=
  minInt ≤ number ∧ number ≤ maxInt ∧
    (value = .int number ∨ value = .real (.finite number))

/-- A value is a string, which the library keeps as a C string. -/
def IsText (value : Value) (text : ByteString) : Prop := 0 ∉ text ∧ value = .string text

/-- An element states the queue and the offset of an entry. -/
structure StatesEntry (element : Value) (entry : MessageQueue × ℤ) : Prop where
  broker : IsText ((element.memberAt "messageQueue").memberAt "broker") entry.1.brokerName
  topic : IsText ((element.memberAt "messageQueue").memberAt "topic") entry.1.topic
  queueId : IsIntNumber ((element.memberAt "messageQueue").memberAt "queueId") entry.1.queueId
  offset : IsIntNumber (element.memberAt "offset") entry.2

/-- The document is an array whose elements state the entries. -/
def States (document : Value) (entries : OffsetEntries) : Prop :=
  ∃ elements, document = .array elements ∧ List.Forall₂ StatesEntry elements entries

/-- The table with the entries of a document. -/
def tableOf (entries : OffsetEntries) : OffsetEntries :=
  entries.foldl (fun offsetTable entry ↦ insertEntry entry offsetTable) []

/-- The text is not JSON. -/
def NotJson (data : ByteString) : Prop := parse data = .error .syntaxError

/-- The text is a document that has entries. -/
def HasEntries (reading : Value → OffsetEntries → Prop) (data : ByteString) : Prop :=
  ∃ document entries, parse data = .ok document ∧ reading document entries

/-- `Decode` replaces the table by the entries of the text or leaves it alone, and no exception
leaves `load` or `readOffset`. -/
structure AllOrNothing (reading : Value → OffsetEntries → Prop) (offsetTable : OffsetEntries)
    (data : ByteString) : Prop where
  decode : (∃ document entries, parse data = .ok document ∧ reading document entries ∧
      OffsetLoading.decode data offsetTable = (.ok true, tableOf entries)) ∨
    OffsetLoading.decode data offsetTable = (.ok false, offsetTable)
  load : ∀ file, LocalFileOffsetStore.readWholeFile file = data → ∀ store,
    Succeeds (OffsetLoading.load (some file) store).1
  readOffset : ∀ file, LocalFileOffsetStore.readWholeFile file = data → ∀ store mq type,
    Succeeds (OffsetLoading.readOffset (some file) store mq type).1

/-! ### Elements -/

section Elements

variable {element value : Value} {name : String} {entry : MessageQueue × ℤ} {number : ℤ}
  {text : ByteString} {elements : List Value} {offsetTable : OffsetEntries}

theorem textOf_succeeds_iff :
    Succeeds (textOf value name) ↔ value.IsStruct ∧ (value.memberAt name).HasString :=
  succeeds_bind_pure.trans stringOf_succeeds_iff

theorem textOf_eq (hstruct : value.IsStruct) (hstring : (value.memberAt name).HasString) :
    textOf value name = .ok (cString (value.memberAt name).toText) := by
  rw [textOf, stringOf_eq hstruct hstring]
  rfl

theorem decodePair_eq (htyped : PairTyped element) : decodePair element = .ok (pairAt element) := by
  obtain ⟨hstruct, hqueue, hbroker, htopic, hid, hoffset⟩ := htyped
  rw [decodePair, memberOf_eq hstruct]
  show (do
    let broker ← textOf (element.memberAt "messageQueue") "broker"
    let topic ← textOf (element.memberAt "messageQueue") "topic"
    let queueId ← intOf (element.memberAt "messageQueue") "queueId"
    let offset ← intOf element "offset"
    return (MessageQueue.mk topic broker queueId.toInt, offset.toInt)) = _
  rw [textOf_eq hqueue hbroker, textOf_eq hqueue htopic, intOf_eq hqueue hid,
    intOf_eq hstruct hoffset]
  rfl

/-- An element is converted exactly when it is typed. -/
theorem decodePair_succeeds_iff : Succeeds (decodePair element) ↔ PairTyped element := by
  constructor
  · intro hrun
    have hstruct : element.IsStruct := memberOf_succeeds_iff.mp (succeeds_of_bind hrun)
    obtain ⟨messageQueue, hmember, hrun⟩ := succeeds_bind.mp hrun
    rw [memberOf_eq hstruct] at hmember
    obtain rfl := Except.ok.inj hmember
    obtain ⟨broker, hbroker, hrun⟩ := succeeds_bind.mp hrun
    obtain ⟨topic, htopic, hrun⟩ := succeeds_bind.mp hrun
    obtain ⟨queueId, hid, hrun⟩ := succeeds_bind.mp hrun
    obtain ⟨hqueue, hbroker⟩ := textOf_succeeds_iff.mp ⟨broker, hbroker⟩
    exact ⟨hstruct, hqueue, hbroker, (textOf_succeeds_iff.mp ⟨topic, htopic⟩).2,
      (intOf_succeeds_iff.mp ⟨queueId, hid⟩).2,
      (intOf_succeeds_iff.mp (succeeds_bind_pure.mp hrun)).2⟩
  · exact fun htyped ↦ ⟨_, decodePair_eq htyped⟩

theorem decodeLoop_of_typed (htyped : ∀ element ∈ elements, PairTyped element)
    (offsetTable : OffsetEntries) :
    decodeLoop elements offsetTable = (.ok true,
      (elements.map pairAt).foldl (fun table entry ↦ insertEntry entry table) offsetTable) := by
  induction elements generalizing offsetTable with
  | nil => rfl
  | cons element rest ih =>
    obtain ⟨hfirst, hrest⟩ := List.forall_mem_cons.mp htyped
    rw [decodeLoop, decodePair_eq hfirst]
    exact ih hrest _

/-- The loop never reports a failure. -/
theorem decodeLoop_ne_false : (decodeLoop elements offsetTable).1 ≠ .ok false := by
  induction elements generalizing offsetTable with
  | nil => simp [decodeLoop]
  | cons element rest ih =>
    rw [decodeLoop]
    cases decodePair element with
    | error failure => simp
    | ok entry => exact ih

theorem isStruct_of_memberAt (hmember : value.memberAt name ≠ .null) : value.IsStruct := by
  cases value with
  | null | object => trivial
  | int | uint | real | string | boolean | array => exact absurd rfl hmember

theorem IsText.toText_eq (htext : IsText value text) :
    value.HasString ∧ cString value.toText = text := by
  obtain ⟨hzero, rfl⟩ := htext
  exact ⟨trivial, cString_eq_self hzero⟩

theorem IsIntNumber.toInt_eq (hnumber : IsIntNumber value number) :
    value.HasInt ∧ value.toInt.toInt = number := by
  obtain ⟨hmin, hmax, rfl | rfl⟩ := hnumber
  · refine ⟨trivial, ?_⟩
    show (BitVec.ofInt 32 number).toInt = number
    unfold minInt at hmin
    unfold maxInt at hmax
    rw [BitVec.toInt_ofInt]
    exact Int.bmod_eq_of_le (by omega) (by omega)
  · have hrange : (minInt : ℚ) ≤ number ∧ (number : ℚ) ≤ (maxInt : ℚ) :=
      ⟨Int.cast_le.mpr hmin, Int.cast_le.mpr hmax⟩
    refine ⟨hrange, ?_⟩
    have hread : Value.asInt (.real (.finite number)) = .ok number := by
      rw [Value.asInt, if_pos hrange]
      simp
    rw [Value.toInt, hread]
    unfold minInt at hmin
    unfold maxInt at hmax
    rw [BitVec.toInt_ofInt]
    exact Int.bmod_eq_of_le (by omega) (by omega)

/-- What an element states is what it is converted to. -/
theorem StatesEntry.pairAt_eq (hstates : StatesEntry element entry) :
    PairTyped element ∧ pairAt element = entry := by
  obtain ⟨hbroker, htopic, hid, hoffset⟩ := hstates
  have hqueue : (element.memberAt "messageQueue").IsStruct :=
    isStruct_of_memberAt (by rw [hbroker.2]; exact Value.noConfusion)
  have hstruct : element.IsStruct := by
    refine @isStruct_of_memberAt element "messageQueue" fun hnull ↦ ?_
    have hbrokerText := hbroker.2
    rw [hnull] at hbrokerText
    exact Value.noConfusion hbrokerText
  obtain ⟨hbroker, hbrokerText⟩ := hbroker.toText_eq
  obtain ⟨htopic, htopicText⟩ := htopic.toText_eq
  obtain ⟨hid, hidNumber⟩ := hid.toInt_eq
  obtain ⟨hoffset, hoffsetNumber⟩ := hoffset.toInt_eq
  refine ⟨⟨hstruct, hqueue, hbroker, htopic, hid, hoffset⟩, ?_⟩
  rw [pairAt, hbrokerText, htopicText, hidNumber, hoffsetNumber]

theorem converts_of_states {document : Value} {entries : OffsetEntries}
    (hstates : States document entries) : Converts document entries := by
  obtain ⟨elements, rfl, hentries⟩ := hstates
  refine ⟨elements, rfl, ?_⟩
  induction hentries with
  | nil => exact ⟨List.forall_mem_nil _, rfl⟩
  | cons hfirst _ ih =>
    obtain ⟨htyped, hpair⟩ := hfirst.pairAt_eq
    exact ⟨List.forall_mem_cons.mpr ⟨htyped, ih.1⟩, by rw [List.map_cons, hpair, ← ih.2]⟩

end Elements

/-! ### All or nothing -/

section AllOrNothing

variable {reading : Value → OffsetEntries → Prop} {offsetTable entries : OffsetEntries}
  {data : ByteString} {document : Value}

theorem decode_of_notJson (hnot : NotJson data) (offsetTable : OffsetEntries) :
    decode data offsetTable = (.ok false, offsetTable) := by
  rw [decode, readDocument, hnot]

theorem decode_of_converts (hparse : parse data = .ok document)
    (hentries : Converts document entries) (offsetTable : OffsetEntries) :
    decode data offsetTable = (.ok true, tableOf entries) := by
  obtain ⟨elements, helements, htyped, rfl⟩ := hentries
  rw [decode, readDocument_eq_some_iff.mpr hparse]
  show (match Factory.elementsOf document with
    | .error failure => _
    | .ok elements => decodeLoop elements []) = _
  rw [helements]
  exact decodeLoop_of_typed htyped []

/-- A failure is reported only for a text that is not JSON. -/
theorem notJson_of_decode (hfalse : (decode data offsetTable).1 = .ok false) : NotJson data := by
  have hfuel := parse_ne_outOfFuel data
  rw [decode, readDocument] at hfalse
  rw [NotJson]
  cases hparse : parse data with
  | error fault =>
    rw [hparse] at hfuel hfalse
    cases fault with
    | syntaxError => rfl
    | bufferOverrun => simp at hfalse
    | outOfFuel => exact absurd rfl hfuel
  | ok document =>
    rw [hparse] at hfalse
    cases helements : Factory.elementsOf document with
    | error failure =>
      simp [helements] at hfalse
    | ok elements =>
      simp only [helements] at hfalse
      exact absurd hfalse decodeLoop_ne_false

/-- The store throws nothing that `Decode` does not throw. -/
theorem store_succeeds {file : ByteString}
    (hdecode : ∀ table, Succeeds (decode (LocalFileOffsetStore.readWholeFile file) table).1)
    (store : LocalOffsets) :
    Succeeds (load (some file) store).1 ∧
      ∀ mq type, Succeeds (readOffset (some file) store mq type).1 := by
  obtain ⟨result, hresult⟩ := hdecode store.serializeWrapper
  have hread : ∀ mq, Succeeds (readFromStore (some file) store mq).1 := by
    intro mq
    unfold readFromStore readOffsetFromLocal
    split <;> simp_all
    split <;> simp
  constructor
  · unfold load readOffsetFromLocal
    split <;> simp_all
  · intro mq type
    unfold readOffset
    split
    · exact hread mq
    · exact succeeds_ok _
    · exact hread mq
    · exact succeeds_ok _

/-- A text is decoded as a whole or not at all exactly when it is not JSON or a document that has
entries, for every reading that the library shares. -/
theorem allOrNothing_iff_of (hreading : ∀ document entries,
    reading document entries → Converts document entries) :
    AllOrNothing reading offsetTable data ↔ NotJson data ∨ HasEntries reading data := by
  constructor
  · rintro ⟨⟨document, entries, hparse, hentries, -⟩ | hfalse, -, -⟩
    · exact .inr ⟨document, entries, hparse, hentries⟩
    · exact .inl (notJson_of_decode (congrArg Prod.fst hfalse))
  · rintro (hnot | ⟨document, entries, hparse, hentries⟩)
    · have hstore : ∀ file, LocalFileOffsetStore.readWholeFile file = data → ∀ store, _ :=
        fun file hfile store ↦ @store_succeeds file
          (fun table ↦ ⟨false, by rw [hfile, decode_of_notJson hnot]⟩) store
      exact ⟨.inr (decode_of_notJson hnot offsetTable),
        fun file hfile store ↦ (hstore file hfile store).1,
        fun file hfile store ↦ (hstore file hfile store).2⟩
    · have hconverts := hreading document entries hentries
      have hstore : ∀ file, LocalFileOffsetStore.readWholeFile file = data → ∀ store, _ :=
        fun file hfile store ↦ @store_succeeds file
          (fun table ↦ ⟨true, by rw [hfile, decode_of_converts hparse hconverts]⟩) store
      exact ⟨.inl ⟨document, entries, hparse, hentries,
          decode_of_converts hparse hconverts offsetTable⟩,
        fun file hfile store ↦ (hstore file hfile store).1,
        fun file hfile store ↦ (hstore file hfile store).2⟩

/-- Loading is all or nothing exactly for a text that is not JSON and for a document whose elements
the library can convert; and, if an entry has to be stated in full, for an array of such objects. -/
theorem allOrNothing_iff (offsetTable : OffsetEntries) (data : ByteString) :
    (AllOrNothing Converts offsetTable data ↔ NotJson data ∨ HasEntries Converts data) ∧
      (AllOrNothing States offsetTable data ↔ NotJson data ∨ HasEntries States data) :=
  ⟨allOrNothing_iff_of fun _ _ ↦ id, allOrNothing_iff_of fun _ _ ↦ converts_of_states⟩

/-- The text of an element. -/
def elementText (queueId offset : String) : ByteString :=
  ofString ("\x7b\"messageQueue\":\x7b\"broker\":\"b\",\"topic\":\"t\",\"queueId\":" ++ queueId ++
    "\x7d,\"offset\":" ++ offset ++ "\x7d")

/-- A file whose second offset is no `int`. -/
def largeOffsetFile : ByteString :=
  ofString "[" ++ elementText "0" "7" ++ ofString "," ++ elementText "1" "3000000000" ++
    ofString "]"

/-- The table before the file is loaded. -/
def earlierTable : OffsetEntries := [(⟨ofString "t", ofString "b", 1⟩, 40)]

/-- The exception leaves `Decode` and `load`, and the table has the first entry of the file. -/
theorem not_allOrNothing_largeOffsetFile :
    (decode largeOffsetFile earlierTable =
      (.error (.value (.runtimeError "integer out of signed integer range")),
        [(⟨ofString "t", ofString "b", 0⟩, 7)])) ∧
    (load (some largeOffsetFile) ⟨[], earlierTable⟩).1 =
      .error (.value (.runtimeError "integer out of signed integer range")) ∧
    ¬ AllOrNothing Converts earlierTable largeOffsetFile ∧
    ¬ AllOrNothing States earlierTable largeOffsetFile := by
  have hdecode : decode largeOffsetFile earlierTable =
      (.error (.value (.runtimeError "integer out of signed integer range")),
        [(⟨ofString "t", ofString "b", 0⟩, 7)]) := by decide +kernel
  have hnot : ∀ reading, ¬ AllOrNothing reading earlierTable largeOffsetFile := by
    rintro reading ⟨⟨document, entries, -, -, hrun⟩ | hrun, -, -⟩
    · exact absurd (hdecode.symm.trans hrun) (by simp)
    · exact absurd (hdecode.symm.trans hrun) (by simp)
  exact ⟨hdecode, by decide +kernel, hnot Converts, hnot States⟩

end AllOrNothing

end RocketMQClient.Consumer.OffsetLoading
