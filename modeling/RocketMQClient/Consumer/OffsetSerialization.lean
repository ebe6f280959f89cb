import RocketMQClient.Consumer.OffsetAgreement
import RocketMQClient.Messages.MessageQueueTree

/-!
# Offsets in a local file

In broadcasting mode the offsets are kept in a local file. `OffsetSerializeWrapper.encode` writes
the table as a JSON array with one object for each queue, in the order of iteration, and `decode`
inserts the objects that it reads into an empty table. The JSON library has no 64-bit integers, so
an offset is written as the `int` that it is cast to, and it keeps strings as C strings.
`LocalFileOffsetStore.persistAll` writes the offsets of some queues, and `load` reads at most ten
mebibytes of the file of an earlier process.

The tables are search trees under `operator<` that insertions, assignments, erasures and rotations
have made (`LocalOffsetTable`). The JSON library is the parameter `Json`, and `Json.ReadsBack` what
its documentation says of a value that is written: the text is read back, and a text that is cut off
is not read.

`toList_decode` is what comes back of a table. `offsets_survive_restart_iff` says when it is the
table, and when a new process finds every offset that was persisted. Besides plain names and offsets
that are `int`s this takes ids that `operator<` orders: over other ids there are tables that come
back in another order.
-/

set_option autoImplicit false
set_option relaxedAutoImplicit false

namespace RocketMQClient.Consumer

open Library Messages

/-! ### The JSON library -/

/-- A value of the JSON library, of the kinds that the program builds or reads. -/
inductive JsonValue where
  | null
  | int (value : ℤ)
  | string (text : ByteString)
  | array (elements : List JsonValue)
  | object (members : List (ByteString × JsonValue))

namespace JsonValue

/-- The value of a string, which is kept as a C string. -/
def ofStdString (text : ByteString) : JsonValue := string (cString text)

/-- `operator[]` with a member name; a missing member is null. -/
def member (value : JsonValue) (name : ByteString) : JsonValue :=
  match value with
  | object members => ((members.find? fun entry ↦ decide (entry.1 = name)).map Prod.snd).getD null
  | _ => null

/-- `asString`, which raises an exception for values of other kinds. -/
def asString : JsonValue → Option ByteString
  | null => some []
  | string text => some text
  | _ => none

/-- `asInt`, which raises an exception for values of other kinds. -/
def asInt : JsonValue → Option ℤ
  | null => some 0
  | int value => some value
  | _ => none

end JsonValue

/-- The writer, without the line end that it puts behind a value, and the reader. -/
structure Json where
  writeValue : JsonValue → ByteString
  parse : ByteString → Option JsonValue

/-- `FastWriter::write`. -/
def Json.write (json : Json) (value : JsonValue) : ByteString := json.writeValue value ++ [10]

/-- What the documentation of the library says of a value: its text is read back, with and without
the line end, and a text that is cut off is not read. -/
structure Json.ReadsBack (json : Json) (value : JsonValue) : Prop where
  parse_write : json.parse (json.write value) = some value
  parse_writeValue : json.parse (json.writeValue value) = some value
  parse_take : ∀ count < (json.writeValue value).length,
    json.parse ((json.writeValue value).take count) = none

/-- A JSON library that knows one value and its text. -/
def jsonOf (value : JsonValue) (text : ByteString) : Json where
  writeValue := fun _ ↦ text
  parse := fun data ↦ if data = text ∨ data = text ++ [10] then some value else none

theorem jsonOf_readsBack (value : JsonValue) (text : ByteString) :
    (jsonOf value text).ReadsBack value where
  parse_write := if_pos (Or.inr rfl)
  parse_writeValue := if_pos (Or.inl rfl)
  parse_take := by
    intro count hcount
    have hshort : (text.take count).length < text.length := by
      rw [List.length_take]
      exact lt_of_le_of_lt (Nat.min_le_left _ _) hcount
    refine if_neg ?_
    rintro (hsame | hsame)
    · exact absurd (congrArg List.length hsame) hshort.ne
    · have hlength : (text.take count).length = text.length + 1 :=
        (congrArg List.length hsame).trans List.length_append
      exact absurd hlength (by omega)

/-! ### The wrapper -/

namespace OffsetSerializeWrapper

/-- The object of one queue and its offset. -/
def encodePair (entry : MessageQueue × ℤ) : JsonValue :=
  .object
    [(ofString "messageQueue", .object
        [(ofString "broker", .ofStdString entry.1.brokerName),
          (ofString "topic", .ofStdString entry.1.topic),
          (ofString "queueId", .int entry.1.queueId)]),
      (ofString "offset", .int (toInt32 entry.2))]

/-- The value that is written for the entries of a table. -/
def encodeValue (entries : List (MessageQueue × ℤ)) : JsonValue :=
  .array (entries.map encodePair)

/-- The text of a table. -/
def encode (json : Json) (offsetTable : OffsetTree) : ByteString :=
  json.write (encodeValue offsetTable.toList)

/-- The queue and the offset of one object. -/
def decodePair (value : JsonValue) : Option (MessageQueue × ℤ) :=
  let messageQueue := value.member (ofString "messageQueue")
  (messageQueue.member (ofString "broker")).asString.bind fun broker ↦
    (messageQueue.member (ofString "topic")).asString.bind fun topic ↦
      (messageQueue.member (ofString "queueId")).asInt.bind fun queueId ↦
        (value.member (ofString "offset")).asInt.map fun offset ↦
          (⟨topic, broker, queueId⟩, offset)

/-- The elements that the loop of `Decode` visits; an object with members cannot be indexed. -/
def elementsOf : JsonValue → Option (List JsonValue)
  | .array elements => some elements
  | .object (_ :: _) => none
  | _ => some []

/-- The table of a text: absent when the text cannot be read or a value has the wrong kind. -/
def decode (rebalancing : Rebalancing) (json : Json) (data : ByteString) : Option OffsetTree :=
  (json.parse data).bind fun value ↦
    (elementsOf value).bind fun elements ↦
      (elements.mapM decodePair).map fun pairs ↦
        pairs.foldl (fun offsetTable pair ↦ offsetTable.insert rebalancing pair.1 pair.2) .leaf

end OffsetSerializeWrapper

/-- An offset table with the queues that have been put into it; ids and offsets have the ranges of
their types, and the offsets are not negative. -/
structure LocalOffsetTable where
  tree : OffsetTree
  queues : Set MessageQueue
  grown : tree.Grown Prod.fst MessageQueue.operatorLt queues
  ids : ∀ queue ∈ queues, queue.IsInt
  offsets : ∀ entry ∈ tree.toList, 0 ≤ entry.2 ∧ entry.2 ≤ 9223372036854775807

/-- A set of message queues with those that have been put into it. -/
structure LocalQueueSet where
  tree : SearchTree MessageQueue
  queues : Set MessageQueue
  grown : tree.Grown id MessageQueue.operatorLt queues
  ids : ∀ queue ∈ queues, queue.IsInt

namespace LocalOffsetTable

/-- The ids fit into windows, as the comparison sees the queues. -/
def Fits (table : LocalOffsetTable) : Prop := MessageQueue.SeenFit table.queues

/-- No name has a zero byte, and every offset is an `int`. -/
def Exact (table : LocalOffsetTable) : Prop :=
  ∀ entry ∈ table.tree.toList, 0 ∉ entry.1.topic ∧ 0 ∉ entry.1.brokerName ∧ entry.2 ≤ 2147483647

/-- `Decode` of the text of the table gives the table again. -/
def Returns (rebalancing : Rebalancing) (json : Json) (table : LocalOffsetTable) : Prop :=
  (OffsetSerializeWrapper.decode rebalancing json
    (OffsetSerializeWrapper.encode json table.tree)).map SearchTree.toList =
      some table.tree.toList

end LocalOffsetTable

namespace LocalFileOffsetStore

/-- The largest number of bytes that are read from a file. -/
def maxFileSize : ℕ := 10485760

/-- The size of the blocks in which a file is read. -/
def readBufSize : ℕ := 4096

/-- The loop of `ReadWholeFile`: reads blocks until the end of the file or the limit. -/
def readBlocks : ℕ → ByteString → ByteString → ByteString
  | 0, _, fileContent => fileContent
  | fuel + 1, rest, fileContent =>
    let block := rest.take readBufSize
    let couldAddCount := min block.length (maxFileSize - fileContent.length)
    if couldAddCount = 0 then fileContent
    else if block.length < readBufSize then fileContent ++ block.take couldAddCount
    else readBlocks fuel (rest.drop readBufSize) (fileContent ++ block.take couldAddCount)

/-- `MQFileUtil::ReadWholeFile` with its default arguments. -/
def readWholeFile (file : ByteString) : ByteString := readBlocks (file.length + 1) file []

/-- The table that `persistAll` collects: the entries of the queues that have an offset. -/
def collect (rebalancing : Rebalancing) (offsetTable : OffsetTree) (mqs : SearchTree MessageQueue) :
    OffsetTree :=
  mqs.toList.foldl (fun collected queue ↦
    match offsetTable.find queue with
    | some entry => collected.assign rebalancing entry.1 entry.2
    | none => collected) .leaf

/-- The file after `persistAll`. -/
def persistAll (rebalancing : Rebalancing) (json : Json) (offsetTable : OffsetTree)
    (mqs : SearchTree MessageQueue) (file : Option ByteString) : Option ByteString :=
  if mqs.toList.isEmpty then file
  else some (OffsetSerializeWrapper.encode json (collect rebalancing offsetTable mqs))

/-- The table of a new process after `load`. -/
def load (rebalancing : Rebalancing) (json : Json) (file : Option ByteString) : OffsetTree :=
  match file with
  | none => .leaf
  | some text => (OffsetSerializeWrapper.decode rebalancing json (readWholeFile text)).getD .leaf

/-- The offset of every queue that was persisted is found after `load`. -/
def Restored (rebalancing : Rebalancing) (json : Json) (offsetTable : LocalOffsetTable)
    (mqs : LocalQueueSet) (file : Option ByteString) : Prop :=
  ∀ queue ∈ mqs.tree.toList, ∀ entry, offsetTable.tree.find queue = some entry →
    ((load rebalancing json
      (persistAll rebalancing json offsetTable.tree mqs.tree file)).find queue).map Prod.snd =
        some entry.2

end LocalFileOffsetStore

/-! ### A table that is read back -/

section ReadBack

variable {rebalancing : Rebalancing} {json : Json}

/-- The entry that is read for an entry: the names up to a zero byte, and the offset as an `int`. -/
def readEntry (entry : MessageQueue × ℤ) : MessageQueue × ℤ := (entry.1.cName, toInt32 entry.2)

theorem decodePair_encodePair (entry : MessageQueue × ℤ) :
    OffsetSerializeWrapper.decodePair (OffsetSerializeWrapper.encodePair entry) =
      some (readEntry entry) := rfl

theorem mapM_decodePair (entries : List (MessageQueue × ℤ)) :
    (entries.map OffsetSerializeWrapper.encodePair).mapM OffsetSerializeWrapper.decodePair =
      some (entries.map readEntry) := by
  rw [List.mapM_map]
  induction entries with
  | nil => rfl
  | cons entry rest ih =>
    rw [List.mapM_cons, ih, Function.comp_apply, decodePair_encodePair]
    rfl

theorem toList_insert_above {tree : OffsetTree} {entry : MessageQueue × ℤ}
    (habove : ∀ other ∈ tree.toList, other.1.Below entry.1) :
    (tree.insert rebalancing entry.1 entry.2).toList = tree.toList ++ [entry] :=
  (rebalancing.toList_apply _).trans (SearchTree.toList_insert_above habove)

theorem toList_assign_above {tree : OffsetTree} {entry : MessageQueue × ℤ}
    (habove : ∀ other ∈ tree.toList, other.1.Below entry.1) :
    (tree.assign rebalancing entry.1 entry.2).toList = tree.toList ++ [entry] :=
  (rebalancing.toList_apply _).trans (SearchTree.toList_assign_above habove)

theorem ordered_readEntry {entries : List (MessageQueue × ℤ)} (hordered : Ordered entries) :
    Ordered (entries.map readEntry) := by
  refine List.pairwise_map.mpr (hordered.imp fun {earlier later} hbelow ↦ ?_)
  refine (MessageQueue.below_congr ?_ ?_).mpr hbelow
  · exact MessageQueue.cName_idem earlier.1
  · exact MessageQueue.cName_idem later.1

/-- What comes back of a text that is read as the value of some entries. -/
theorem decode_of_parse {entries : List (MessageQueue × ℤ)} {text : ByteString}
    (hparse : json.parse text = some (OffsetSerializeWrapper.encodeValue entries)) :
    OffsetSerializeWrapper.decode rebalancing json text = some ((entries.map readEntry).foldl
      (fun offsetTable pair ↦ offsetTable.insert rebalancing pair.1 pair.2) .leaf) := by
  unfold OffsetSerializeWrapper.decode
  rw [hparse, Option.bind_some, OffsetSerializeWrapper.encodeValue,
    OffsetSerializeWrapper.elementsOf, Option.bind_some, mapM_decodePair, Option.map_some]

/-- Entries in order come back in this order. -/
theorem toList_decode {entries : List (MessageQueue × ℤ)} (hordered : Ordered entries)
    {text : ByteString}
    (hparse : json.parse text = some (OffsetSerializeWrapper.encodeValue entries)) :
    (OffsetSerializeWrapper.decode rebalancing json text).map SearchTree.toList =
      some (entries.map readEntry) := by
  rw [decode_of_parse hparse, Option.map_some, Option.some.injEq]
  exact MessageQueue.toList_foldl_above (fun tree entry habove ↦ toList_insert_above habove)
    (ordered_readEntry hordered)

/-- All that comes back was read. -/
theorem mem_of_foldl_insert {entries : List (MessageQueue × ℤ)} {tree : OffsetTree}
    {entry : MessageQueue × ℤ}
    (hmem : entry ∈ (entries.foldl (fun offsetTable pair ↦
      offsetTable.insert rebalancing pair.1 pair.2) tree).toList) :
    entry ∈ entries ∨ entry ∈ tree.toList := by
  induction entries generalizing tree with
  | nil => exact Or.inr hmem
  | cons first rest ih =>
    rw [List.foldl_cons] at hmem
    rcases ih hmem with hrest | hinserted
    · exact Or.inl (List.mem_cons_of_mem first hrest)
    · rw [OffsetTree.insert, rebalancing.toList_apply] at hinserted
      rcases SearchTree.mem_of_mem_insert hinserted with rfl | htree
      · exact Or.inl List.mem_cons_self
      · exact Or.inr htree

/-- An offset is read back as it is exactly when it is an `int`. -/
theorem toInt32_eq_iff {offset : ℤ} (hnonneg : 0 ≤ offset) :
    toInt32 offset = offset ↔ offset ≤ 2147483647 := by
  constructor
  · intro hsame
    have hmod := Int.bmod_def offset 4294967296
    unfold toInt32 at hsame
    split_ifs at hmod <;> omega
  · exact fun hle ↦ toInt32_eq_self (by omega) hle

theorem cString_eq_iff {string : ByteString} : cString string = string ↔ 0 ∉ string :=
  ⟨fun hsame ↦ hsame ▸ zero_not_mem_cString string, cString_eq_self⟩

/-- An entry is read back as it is exactly when its names have no zero byte and its offset is an
`int`. -/
theorem readEntry_eq_iff {entry : MessageQueue × ℤ} (hnonneg : 0 ≤ entry.2) :
    readEntry entry = entry ↔
      0 ∉ entry.1.topic ∧ 0 ∉ entry.1.brokerName ∧ entry.2 ≤ 2147483647 := by
  obtain ⟨⟨topic, brokerName, queueId⟩, offset⟩ := entry
  unfold readEntry MessageQueue.cName
  rw [Prod.mk.injEq, MessageQueue.mk.injEq, cString_eq_iff, cString_eq_iff,
    toInt32_eq_iff hnonneg]
  tauto

namespace LocalOffsetTable

variable {table : LocalOffsetTable}

theorem map_readEntry_eq_iff (table : LocalOffsetTable) :
    table.tree.toList.map readEntry = table.tree.toList ↔ table.Exact := by
  have hid : table.tree.toList = table.tree.toList.map id := (List.map_id _).symm
  constructor
  · intro hsame entry hentry
    rw [hid, List.map_map, List.map_inj_left] at hsame
    exact (readEntry_eq_iff (table.offsets entry hentry).1).mp (hsame entry hentry)
  · intro hall
    conv_rhs => rw [hid]
    exact List.map_congr_left fun entry hentry ↦
      (readEntry_eq_iff (table.offsets entry hentry).1).mpr (hall entry hentry)

theorem ordered (hfits : table.Fits) : Ordered table.tree.toList :=
  MessageQueue.pairwise_below_of_grown table.grown table.ids hfits

/-- A table that comes back has plain names and offsets that are `int`s. -/
theorem exact_of_returns
    (hread : json.ReadsBack (OffsetSerializeWrapper.encodeValue table.tree.toList))
    (hreturns : table.Returns rebalancing json) : table.Exact := by
  rw [Returns, OffsetSerializeWrapper.encode, decode_of_parse hread.parse_write, Option.map_some,
    Option.some.injEq] at hreturns
  intro entry hentry
  rw [← hreturns] at hentry
  obtain ⟨source, hsource, rfl⟩ :=
    List.mem_map.mp ((mem_of_foldl_insert hentry).resolve_right List.not_mem_nil)
  exact ⟨zero_not_mem_cString _, zero_not_mem_cString _, (toInt32_range source.2).2⟩

/-- A table whose ids fit comes back exactly when its names are plain and its offsets are `int`s. -/
theorem returns_iff (hfits : table.Fits)
    (hread : json.ReadsBack (OffsetSerializeWrapper.encodeValue table.tree.toList)) :
    table.Returns rebalancing json ↔ table.Exact := by
  rw [Returns, OffsetSerializeWrapper.encode, toList_decode (table.ordered hfits) hread.parse_write,
    Option.some.injEq, map_readEntry_eq_iff]

end LocalOffsetTable

end ReadBack

/-! ### A file that is read back -/

namespace LocalFileOffsetStore

/-- A block, as far as it fits, and what still fits of the rest. -/
theorem take_block_append (rest : ByteString) (size limit : ℕ) :
    (rest.take size).take (min size limit) ++ (rest.drop size).take (limit - min size limit) =
      rest.take limit := by
  rw [List.take_take, Nat.min_eq_left (Nat.min_le_left size limit)]
  by_cases hfits : size ≤ limit
  · rw [Nat.min_eq_left hfits, ← List.take_add, Nat.add_sub_cancel' hfits]
  · rw [Nat.min_eq_right (Nat.le_of_not_le hfits), Nat.sub_self, List.take_zero, List.append_nil]

/-- The loop reads the file as far as the limit allows. -/
theorem readBlocks_eq {fuel : ℕ} {rest fileContent : ByteString} (hfuel : rest.length < fuel)
    (hlimit : fileContent.length ≤ maxFileSize) :
    readBlocks fuel rest fileContent =
      fileContent ++ rest.take (maxFileSize - fileContent.length) := by
  induction fuel generalizing rest fileContent with
  | zero => exact absurd hfuel (Nat.not_lt_zero _)
  | succ fuel ih =>
    rw [readBlocks]
    by_cases hnone : min (rest.take readBufSize).length (maxFileSize - fileContent.length) = 0
    · rw [if_pos hnone]
      have hempty : rest.take (maxFileSize - fileContent.length) = [] := by
        rw [List.length_take] at hnone
        rw [List.take_eq_nil_iff, ← List.length_eq_zero_iff]
        unfold readBufSize at hnone
        omega
      rw [hempty, List.append_nil]
    · rw [if_neg hnone]
      by_cases hlast : (rest.take readBufSize).length < readBufSize
      · rw [if_pos hlast]
        rw [List.length_take] at hlast
        have hwhole : rest.take readBufSize = rest := List.take_of_length_le (by omega)
        rw [hwhole]
        congr 1
        rw [List.take_eq_take_iff]
        omega
      · rw [if_neg hlast]
        have hpositive : 0 < readBufSize := by decide
        have hblock : (rest.take readBufSize).length = readBufSize := by
          rw [List.length_take] at hlast ⊢
          omega
        have htaken : ((rest.take readBufSize).take
            (min readBufSize (maxFileSize - fileContent.length))).length =
              min readBufSize (maxFileSize - fileContent.length) := by
          rw [List.length_take, hblock]
          omega
        have hdrop : (rest.drop readBufSize).length < fuel := by
          rw [List.length_take] at hblock
          rw [List.length_drop]
          omega
        rw [hblock, ih hdrop (by rw [List.length_append, htaken]; omega), List.length_append,
          htaken, List.append_assoc, ← Nat.sub_sub, take_block_append]

theorem readWholeFile_eq (file : ByteString) : readWholeFile file = file.take maxFileSize := by
  rw [readWholeFile, readBlocks_eq (Nat.lt_succ_self _) (Nat.zero_le _), List.nil_append,
    List.length_nil, Nat.sub_zero]

variable {rebalancing : Rebalancing} {json : Json} {offsetTable : LocalOffsetTable}
  {mqs : LocalQueueSet}

/-- An entry that is found for a queue to persist. -/
theorem find_spec {queue : MessageQueue} {entry : MessageQueue × ℤ}
    (hqueue : queue ∈ mqs.tree.toList) (hentry : offsetTable.tree.find queue = some entry) :
    entry ∈ offsetTable.tree.toList ∧ entry.1.cName = queue.cName := by
  obtain ⟨hmem, hequivalent⟩ := SearchTree.find_spec hentry
  have hentryInt := offsetTable.ids _ (offsetTable.grown.mem entry hmem)
  have hqueueInt := mqs.ids _ (mqs.grown.mem queue hqueue)
  exact ⟨hmem, (MessageQueue.equivalent_iff hentryInt hqueueInt).mp hequivalent⟩

/-- The entries collected are those found, in the order of the queues. -/
theorem collect_eq (offsetTable : LocalOffsetTable) (hmqs : MessageQueue.SeenFit mqs.queues) :
    (collect rebalancing offsetTable.tree mqs.tree).toList =
        mqs.tree.toList.filterMap offsetTable.tree.find ∧
      Ordered (collect rebalancing offsetTable.tree mqs.tree).toList := by
  have hordered : Ordered (mqs.tree.toList.filterMap offsetTable.tree.find) := by
    have hpairs : mqs.tree.toList.Pairwise fun first second ↦ ∀ entry,
        offsetTable.tree.find first = some entry → ∀ other,
        offsetTable.tree.find second = some other → entry.1.Below other.1 := by
      have hbelow := MessageQueue.pairwise_below_of_grown mqs.grown mqs.ids hmqs
      refine hbelow.imp_of_mem fun {first second} hfirst hsecond hbelow ↦ ?_
      intro entry hentry other hother
      exact (MessageQueue.below_congr (find_spec hfirst hentry).2
        (find_spec hsecond hother).2).mpr hbelow
    exact List.pairwise_filterMap.mpr hpairs
  have hsame : (collect rebalancing offsetTable.tree mqs.tree).toList =
      mqs.tree.toList.filterMap offsetTable.tree.find := by
    refine Eq.trans ?_ (MessageQueue.toList_foldl_above
      (fun tree entry habove ↦ @toList_assign_above rebalancing tree entry habove) hordered)
    rw [collect, List.foldl_filterMap]
    refine congrArg (fun body ↦ (mqs.tree.toList.foldl body SearchTree.leaf).toList) ?_
    funext collected queue
    cases offsetTable.tree.find queue with
    | none => rfl
    | some entry => rfl
  exact ⟨hsame, hsame ▸ hordered⟩

/-- What a new process loads of a text of entries in order. -/
theorem load_encode {collected : OffsetTree} (hordered : Ordered collected.toList)
    (hread : json.ReadsBack (OffsetSerializeWrapper.encodeValue collected.toList)) :
    (load rebalancing json (some (OffsetSerializeWrapper.encode json collected))).toList =
      if (json.writeValue (OffsetSerializeWrapper.encodeValue collected.toList)).length ≤
          maxFileSize then
        collected.toList.map readEntry else [] := by
  have hload : ∀ text entries,
      (OffsetSerializeWrapper.decode rebalancing json (text.take maxFileSize)).map
        SearchTree.toList = some entries →
      (load rebalancing json (some text)).toList = entries := by
    intro text entries hdecode
    obtain ⟨tree, htree, hlist⟩ := Option.map_eq_some_iff.mp hdecode
    rw [load, readWholeFile_eq, htree]
    exact hlist
  rw [OffsetSerializeWrapper.encode, Json.write]
  by_cases hfits : (json.writeValue
      (OffsetSerializeWrapper.encodeValue collected.toList)).length ≤ maxFileSize
  · rw [if_pos hfits]
    refine hload _ _ ?_
    by_cases hroom : (json.writeValue
        (OffsetSerializeWrapper.encodeValue collected.toList)).length < maxFileSize
    · rw [List.take_of_length_le (by rw [List.length_append, List.length_singleton]; exact hroom)]
      exact toList_decode hordered hread.parse_write
    · rw [List.take_left' (Nat.le_antisymm hfits (Nat.not_lt.mp hroom))]
      exact toList_decode hordered hread.parse_writeValue
  · rw [if_neg hfits, load, readWholeFile_eq,
      List.take_append_of_le_length (Nat.le_of_lt (Nat.not_le.mp hfits)),
      OffsetSerializeWrapper.decode, hread.parse_take _ (Nat.not_le.mp hfits)]
    rfl

/-- A persisted queue has its entry among those collected. -/
theorem mem_collect (hmqs : MessageQueue.SeenFit mqs.queues) {queue : MessageQueue}
    {entry : MessageQueue × ℤ} (hqueue : queue ∈ mqs.tree.toList)
    (hentry : offsetTable.tree.find queue = some entry) :
    entry ∈ (collect rebalancing offsetTable.tree mqs.tree).toList := by
  rw [(collect_eq offsetTable hmqs).1]
  exact List.mem_filterMap.mpr ⟨queue, hqueue, hentry⟩

/-- The entries collected are entries of the table, of queues to persist. -/
theorem exists_of_mem_collect (hmqs : MessageQueue.SeenFit mqs.queues) {entry : MessageQueue × ℤ}
    (hentry : entry ∈ (collect rebalancing offsetTable.tree mqs.tree).toList) :
    ∃ queue ∈ mqs.tree.toList, offsetTable.tree.find queue = some entry := by
  rw [(collect_eq offsetTable hmqs).1] at hentry
  exact List.mem_filterMap.mp hentry

/-- In a table that was read back a persisted queue is found with its offset exactly when the offset
is an `int`. -/
theorem offset_read_iff (hfits : offsetTable.Fits) (hmqs : MessageQueue.SeenFit mqs.queues)
    {loaded : OffsetTree}
    (hloaded : loaded.toList =
      (collect rebalancing offsetTable.tree mqs.tree).toList.map readEntry)
    {queue : MessageQueue} {entry : MessageQueue × ℤ} (hqueue : queue ∈ mqs.tree.toList)
    (hentry : offsetTable.tree.find queue = some entry) :
    (loaded.find queue).map Prod.snd = some entry.2 ↔ entry.2 ≤ 2147483647 := by
  have horder := MessageQueue.strictTotalOn_seen offsetTable.ids hfits
  have hsorted : SearchTree.Sorted (MessageQueue.cName ∘ Prod.fst) MessageQueue.operatorLt
      (Set.image MessageQueue.cName offsetTable.queues) loaded.toList := by
    rw [hloaded]
    refine MessageQueue.sorted_of_pairwise_below ?_ (ordered_readEntry (collect_eq _ hmqs).2)
    intro other hother
    obtain ⟨source, hsource, rfl⟩ := List.mem_map.mp hother
    obtain ⟨wanted, hwanted, hfind⟩ := exists_of_mem_collect hmqs hsource
    have hheld := offsetTable.grown.mem source (find_spec hwanted hfind).1
    exact ⟨source.1, hheld, (MessageQueue.cName_idem source.1).symm⟩
  obtain ⟨hheld, hsame⟩ := find_spec hqueue hentry
  have hfound : loaded.find queue = some (readEntry entry) := by
    refine (MessageQueue.find_iff horder ?_ hsorted (mqs.ids _ (mqs.grown.mem queue hqueue))).mpr
      ⟨?_, (MessageQueue.cName_idem entry.1).trans hsame⟩
    · rintro _ ⟨source, hsource, rfl⟩
      exact offsetTable.ids source hsource
    · rw [hloaded]
      exact List.mem_map_of_mem (mem_collect hmqs hqueue hentry)
  rw [hfound, Option.map_some, Option.some.injEq]
  exact toInt32_eq_iff (offsetTable.offsets entry hheld).1

/-- A new process finds every offset that was persisted exactly when the offsets are `int`s and the
text has at most ten mebibytes. -/
theorem restored_iff (hfits : offsetTable.Fits) (hmqs : MessageQueue.SeenFit mqs.queues)
    (file : Option ByteString)
    (hread : json.ReadsBack (OffsetSerializeWrapper.encodeValue
      (collect rebalancing offsetTable.tree mqs.tree).toList)) :
    Restored rebalancing json offsetTable mqs file ↔
      (∀ queue ∈ mqs.tree.toList, ∀ entry, offsetTable.tree.find queue = some entry →
        entry.2 ≤ 2147483647) ∧
      ((collect rebalancing offsetTable.tree mqs.tree).toList = [] ∨
        (json.writeValue (OffsetSerializeWrapper.encodeValue
          (collect rebalancing offsetTable.tree mqs.tree).toList)).length ≤ maxFileSize) := by
  by_cases hnone : (collect rebalancing offsetTable.tree mqs.tree).toList = []
  · refine iff_of_true ?_ ⟨?_, Or.inl hnone⟩
    · intro queue hqueue entry hentry
      exact absurd (hnone ▸ mem_collect hmqs hqueue hentry) List.not_mem_nil
    · intro queue hqueue entry hentry
      exact absurd (hnone ▸ mem_collect hmqs hqueue hentry) List.not_mem_nil
  · have hwritten : mqs.tree.toList.isEmpty = false := by
      by_contra hempty
      rw [Bool.not_eq_false, List.isEmpty_iff] at hempty
      exact hnone (by rw [(collect_eq offsetTable hmqs).1, hempty]; rfl)
    have hload := @load_encode rebalancing json _ (collect_eq offsetTable hmqs).2 hread
    unfold Restored persistAll
    rw [hwritten, if_neg (by decide)]
    by_cases hroom : (json.writeValue (OffsetSerializeWrapper.encodeValue
        (collect rebalancing offsetTable.tree mqs.tree).toList)).length ≤ maxFileSize
    · rw [if_pos hroom] at hload
      constructor
      · refine fun hrestored ↦ ⟨fun queue hqueue entry hentry ↦ ?_, Or.inr hroom⟩
        exact (offset_read_iff hfits hmqs hload hqueue hentry).mp
          (hrestored queue hqueue entry hentry)
      · rintro ⟨hints, -⟩ queue hqueue entry hentry
        exact (offset_read_iff hfits hmqs hload hqueue hentry).mpr (hints queue hqueue entry hentry)
    · rw [if_neg hroom] at hload
      refine iff_of_false (fun hrestored ↦ ?_) (fun hboth ↦ hboth.2.elim hnone hroom)
      obtain ⟨entry, hentry⟩ := List.exists_mem_of_ne_nil _ hnone
      obtain ⟨queue, hqueue, hfind⟩ := exists_of_mem_collect hmqs hentry
      obtain ⟨found, hfound, -⟩ := Option.map_eq_some_iff.mp (hrestored queue hqueue entry hfind)
      exact absurd (hload ▸ (SearchTree.find_spec hfound).1) List.not_mem_nil

end LocalFileOffsetStore

/-! ### Ids that do not fit -/

/-- The table of entries that are inserted in turn. -/
def tableOfInserted (queues : Set MessageQueue) (entries : List (MessageQueue × ℤ))
    (hids : ∀ queue ∈ queues, queue.IsInt)
    (hentries : ∀ entry ∈ entries,
      entry.1 ∈ queues ∧ 0 ≤ entry.2 ∧ entry.2 ≤ 9223372036854775807) : LocalOffsetTable where
  tree := MessageQueue.insertAll entries
  queues := queues
  grown := MessageQueue.insertAll_grown fun entry hentry ↦ (hentries entry hentry).1
  ids := hids
  offsets := fun entry hentry ↦ (hentries entry (MessageQueue.mem_of_mem_insertAll hentry)).2

/-- Over queues with plain names, all tables with offsets that are `int`s come back exactly when the
ids fit. -/
theorem fitWindow_iff_tables_return {queues : Set MessageQueue}
    (hqueues : ∀ queue ∈ queues, queue.HasPlainNames ∧ queue.IsInt) :
    MessageQueue.FitWindow queues ↔
      ∀ (rebalancing : Rebalancing) (json : Json) (table : LocalOffsetTable),
        table.queues = queues → table.Exact →
        json.ReadsBack (OffsetSerializeWrapper.encodeValue table.tree.toList) →
        table.Returns rebalancing json := by
  have hseen := MessageQueue.seenFit_iff fun queue hqueue ↦ (hqueues queue hqueue).1
  constructor
  · rintro hfit rebalancing json table rfl hexact hread
    exact (LocalOffsetTable.returns_iff (hseen.mpr hfit) hread).mpr hexact
  · intro hreturn
    by_contra hfit
    have hint : ∀ queue ∈ queues, queue.IsInt := fun queue hqueue ↦ (hqueues queue hqueue).2
    obtain ⟨first, hfirst, second, hsecond, third, hthird, hcycle⟩ :=
      MessageQueue.exists_cycle hint (mt hseen.mp hfit)
    obtain ⟨entries, hentries, hmoved⟩ := MessageQueue.exists_moved_of_cycle hcycle (0 : ℤ)
    have hzero : ∀ entry ∈ entries, entry.1 ∈ queues ∧ entry.2 = 0 := by
      intro entry hentry
      obtain ⟨hkey, hvalue⟩ := hentries entry hentry
      simp only [List.mem_cons, List.not_mem_nil, or_false] at hkey
      rcases hkey with hkey | hkey | hkey <;> rw [hkey] <;> exact ⟨‹_›, hvalue⟩
    let table := tableOfInserted queues entries hint fun entry hentry ↦
      ⟨(hzero entry hentry).1, by rw [(hzero entry hentry).2]; decide⟩
    have hexact : table.Exact := by
      intro entry hentry
      obtain ⟨hqueue, hvalue⟩ := hzero entry (MessageQueue.mem_of_mem_insertAll hentry)
      exact ⟨(hqueues _ hqueue).1.1, (hqueues _ hqueue).1.2, by rw [hvalue]; decide⟩
    have hread := jsonOf_readsBack (OffsetSerializeWrapper.encodeValue table.tree.toList) []
    have hback := hreturn .none _ table rfl hexact hread
    rw [LocalOffsetTable.Returns, OffsetSerializeWrapper.encode,
      decode_of_parse hread.parse_write, table.map_readEntry_eq_iff.mpr hexact, Option.map_some,
      Option.some.injEq] at hback
    exact hmoved hback

/-- Assumes: the JSON library reads back the values that are written. A table that comes back as it
was has no zero byte in a name and only offsets that are `int`s; when its ids fit, such a table does
come back, and a new process finds every offset that `persistAll` wrote exactly when these are
`int`s and the text is at most ten mebibytes long. Over queues with plain names whose ids do not fit
there are tables that do not come back. -/
theorem offsets_survive_restart_iff (rebalancing : Rebalancing) (json : Json)
    (table : LocalOffsetTable)
    (hread : json.ReadsBack (OffsetSerializeWrapper.encodeValue table.tree.toList)) :
    (table.Returns rebalancing json → table.Exact) ∧
      (table.Fits → (table.Returns rebalancing json ↔ table.Exact)) ∧
      (table.Fits → ∀ (mqs : LocalQueueSet) (file : Option ByteString),
        MessageQueue.SeenFit mqs.queues →
        json.ReadsBack (OffsetSerializeWrapper.encodeValue
          (LocalFileOffsetStore.collect rebalancing table.tree mqs.tree).toList) →
        (LocalFileOffsetStore.Restored rebalancing json table mqs file ↔
          (∀ queue ∈ mqs.tree.toList, ∀ entry, table.tree.find queue = some entry →
            entry.2 ≤ 2147483647) ∧
          ((LocalFileOffsetStore.collect rebalancing table.tree mqs.tree).toList = [] ∨
            (json.writeValue (OffsetSerializeWrapper.encodeValue
              (LocalFileOffsetStore.collect rebalancing table.tree mqs.tree).toList)).length ≤
                LocalFileOffsetStore.maxFileSize))) ∧
      ∀ queues : Set MessageQueue, (∀ queue ∈ queues, queue.HasPlainNames ∧ queue.IsInt) →
        (MessageQueue.FitWindow queues ↔
          ∀ (rebalancing : Rebalancing) (json : Json) (table : LocalOffsetTable),
            table.queues = queues → table.Exact →
            json.ReadsBack (OffsetSerializeWrapper.encodeValue table.tree.toList) →
            table.Returns rebalancing json) :=
  ⟨LocalOffsetTable.exact_of_returns hread, fun hfits ↦ LocalOffsetTable.returns_iff hfits hread,
    fun hfits _ file hmqs hcollected ↦
      LocalFileOffsetStore.restored_iff hfits hmqs file hcollected,
    fun _ hqueues ↦ fitWindow_iff_tables_return hqueues⟩

/-! ### Two offsets -/

/-- The queues that a route can have: plain names, and ids from zero on. -/
def IsRouted (queue : MessageQueue) : Prop :=
  queue.HasPlainNames ∧ queue.IsInt ∧ 0 ≤ queue.queueId

instance (queue : MessageQueue) : Decidable (IsRouted queue) :=
  inferInstanceAs (Decidable (_ ∧ _))

theorem seenFit_routed : MessageQueue.SeenFit {queue | IsRouted queue} :=
  (MessageQueue.seenFit_iff fun _ hrouted ↦ hrouted.1).mpr
    (MessageQueue.fitWindow_of_nonneg fun _ hrouted ↦ hrouted.2)

/-- A queue of topic `t` at broker `b`. -/
def queueOfBroker (queueId : ℤ) : MessageQueue := ⟨ofString "t", ofString "b", queueId⟩

/-- The offsets of the queues 1 and 0, the second of which is the largest `int`. -/
def twoOffsets : LocalOffsetTable :=
  tableOfInserted {queue | IsRouted queue} [(queueOfBroker 1, 2147483647), (queueOfBroker 0, 7)]
    (fun _ hrouted ↦ hrouted.2.1) (by decide)

/-- Both queues. -/
def bothQueues : LocalQueueSet where
  tree := .node .leaf (queueOfBroker 0) (.node .leaf (queueOfBroker 1) .leaf)
  queues := {queue | IsRouted queue}
  grown := @SearchTree.Grown.insert _ _ id MessageQueue.operatorLt _ _ _ (queueOfBroker 1)
    (@SearchTree.Grown.insert _ _ id MessageQueue.operatorLt _ _ _ (queueOfBroker 0)
      SearchTree.Grown.empty (by decide)) (by decide)
  ids := fun _ hrouted ↦ hrouted.2.1

/-- The object that is written for a queue and its offset. -/
def pairText (queueId offset : String) : ByteString :=
  ofString "\x7b\"messageQueue\":\x7b\"broker\":\"b\",\"queueId\":" ++ ofString queueId ++
    ofString ",\"topic\":\"t\"\x7d,\"offset\":" ++ ofString offset ++ ofString "\x7d"

/-- The library that reads back the text of two offsets. -/
def jsonOfTwo : Json :=
  jsonOf (OffsetSerializeWrapper.encodeValue twoOffsets.tree.toList)
    (ofString "[" ++ pairText "0" "7" ++ ofString "," ++ pairText "1" "2147483647" ++ ofString "]")

/-- Two offsets come back and are found by a new process. -/
theorem two_offsets_survive_restart :
    (OffsetSerializeWrapper.decode .none jsonOfTwo
        (OffsetSerializeWrapper.encode jsonOfTwo twoOffsets.tree)).map SearchTree.toList =
          some [(queueOfBroker 0, 7), (queueOfBroker 1, 2147483647)] ∧
      LocalFileOffsetStore.Restored .none jsonOfTwo twoOffsets bothQueues none := by
  obtain ⟨-, hreturns, hrestored, -⟩ :=
    offsets_survive_restart_iff .none jsonOfTwo twoOffsets (jsonOf_readsBack _ _)
  refine ⟨(hreturns seenFit_routed).mpr ?_, (hrestored seenFit_routed bothQueues none
    seenFit_routed (jsonOf_readsBack _ _)).mpr ⟨?_, Or.inr (by decide +kernel)⟩⟩
  · intro entry hentry
    revert entry
    decide
  · intro queue hqueue entry hentry
    have hheld := (LocalFileOffsetStore.find_spec hqueue hentry).1
    clear hentry
    revert entry
    decide

/-- The offset `2 ^ 31` comes back as `-2 ^ 31`. -/
theorem offset_beyond_int_lost :
    let table := tableOfInserted {queue | IsRouted queue} [(queueOfBroker 0, 2147483648)]
      (fun _ hrouted ↦ hrouted.2.1) (by decide)
    let json := jsonOf (OffsetSerializeWrapper.encodeValue table.tree.toList)
      (ofString "[" ++ pairText "0" "-2147483648" ++ ofString "]")
    (OffsetSerializeWrapper.decode .none json
        (OffsetSerializeWrapper.encode json table.tree)).map SearchTree.toList =
          some [(queueOfBroker 0, -2147483648)] ∧
      ¬ table.Returns .none json := by
  intro table json
  have hcomes : (OffsetSerializeWrapper.decode .none json
      (OffsetSerializeWrapper.encode json table.tree)).map SearchTree.toList =
        some [(queueOfBroker 0, -2147483648)] := by
    decide
  refine ⟨hcomes, fun hreturns ↦ ?_⟩
  rw [LocalOffsetTable.Returns, hcomes] at hreturns
  exact absurd hreturns (by decide)

end RocketMQClient.Consumer
