import RocketMQClient.Consumer.PullSubscriptions
import RocketMQClient.Library.JsonGrammar

/-!
# The bodies of heartbeats and lock requests

`HeartbeatData::Encode` and `LockBatchRequestBody::Encode` write JSON piece by piece, with a comma
before each item of a loop but the first, and leave out the producers or the consumers when there
are none. Strings are written as they are.

`HeartbeatData.tree` and `LockBatchRequestBody.tree` are the trees that the texts are for: the texts
are those that the grammar writes for them (`HeartbeatData.encode_eq`,
`LockBatchRequestBody.encode_eq`). `request_bodies_read` says that the texts are accepted and that
what is read from them is what was encoded. A reader knows an enumerator by its name, so this says
also that the names written for two of them differ.

The reader is written against the grammar and looks for members by name, as the broker does; an
absent member stands for an empty set, and the names of enumerators are told apart by
`readConsumeType` and its like. Nothing of the encoder occurs in it, so that a text that says
something else is not read as what was meant.
-/

set_option autoImplicit false
set_option relaxedAutoImplicit false

namespace RocketMQClient.Protocol

open Library Common Consumer Messages

/-! ### The data -/

/-- Whether a consumer asks for messages or is called with them. -/
inductive ConsumeType where
  | consumeActively
  | consumePassively
  deriving DecidableEq

/-- A group of consumers; none stands for a number that is no enumerator. -/
structure ConsumerData where
  groupName : ByteString
  consumeType : Option ConsumeType
  messageModel : Option MessageModel
  consumeFromWhere : Option ConsumeFromWhere
  subscriptionDataSet : SubscriptionSet

/-- A group of producers. -/
structure ProducerData where
  groupName : ByteString

/-- The body of a heartbeat. Both sets are ordered by the names of the groups. -/
structure HeartbeatData where
  clientID : ByteString
  producerDataSet : OrderedMap ByteString ProducerData
  consumerDataSet : OrderedMap ByteString ConsumerData

/-- The body of a request that locks queues, with the set of the queues in its order. -/
structure LockBatchRequestBody where
  clientId : ByteString
  consumerGroup : ByteString
  mqSet : List MessageQueue

/-! ### Encoding -/

/-- A loop that writes a comma before each item but the first. -/
def writeLoop {Item : Type} (write : Item → ByteString) (items : List Item) : ByteString :=
  (items.zipIdx.map fun (item, index) ↦
    (if index = 0 then [] else ofString ",") ++ write item).flatten

namespace ConsumerData

/-- The text of `consumeFromWhere`. -/
def consumeWhereText (data : ConsumerData) : ByteString :=
  match data.consumeFromWhere with
  | some .consumeFromFirstOffset => ofString "CONSUME_FROM_FIRST_OFFSET"
  | some .consumeFromLastOffset => ofString "CONSUME_FROM_LAST_OFFSET"
  | some .consumeFromTimestamp => ofString "CONSUME_FROM_TIMESTAMP"
  | none => ofString "UNKOWN"

/-- The text of `consumeType`. -/
def consumeTypeText (data : ConsumerData) : ByteString :=
  match data.consumeType with
  | some .consumePassively => ofString "CONSUME_PASSIVELY"
  | some .consumeActively => ofString "CONSUME_ACTIVELY"
  | none => ofString "UNKOWN"

/-- The text of `messageModel`. -/
def messModelText (data : ConsumerData) : ByteString :=
  match data.messageModel with
  | some .clustering => ofString "CLUSTERING"
  | some .broadcasting => ofString "BROADCASTING"
  | none => ofString "UNKOWN"

end ConsumerData

/-- The text of a subscription in a heartbeat. -/
def encodeSubscription (data : SubscriptionData) : ByteString :=
  ofString "\x7b\"classFilterMode\":false," ++ ofString "\"codeSet\":[" ++
    writeLoop decimal data.codeSet.toList ++
    ofString "],\"subString\":\"" ++ data.subString ++ ofString "\"," ++
    ofString "\"subVersion\":" ++ decimal data.subVersion ++ ofString "," ++
    ofString "\"tagsSet\":[" ++
    writeLoop (fun tag ↦ ofString "\"" ++ tag ++ ofString "\"") data.tagsSet.toList ++
    ofString "],\"topic\":\"" ++ data.topic ++ ofString "\"\x7d"

/-- The text of a producer group in a heartbeat. -/
def encodeProducer (data : ProducerData) : ByteString :=
  ofString "\x7b\"groupName\":\"" ++ data.groupName ++ ofString "\"\x7d"

/-- The text of a consumer group in a heartbeat. -/
def encodeConsumer (data : ConsumerData) : ByteString :=
  ofString "\x7b\"consumeFromWhere\":\"" ++ data.consumeWhereText ++ ofString "\"," ++
    ofString "\"consumeType\":\"" ++ data.consumeTypeText ++ ofString "\"," ++
    ofString "\"groupName\":\"" ++ data.groupName ++ ofString "\"," ++
    ofString "\"messageModel\":\"" ++ data.messModelText ++ ofString "\"," ++
    ofString "\"subscriptionDataSet\":[" ++
    writeLoop encodeSubscription data.subscriptionDataSet.values ++
    ofString "],\"unitMode\":false\x7d"

/-- `HeartbeatData::Encode`. -/
def HeartbeatData.encode (data : HeartbeatData) : ByteString :=
  ofString "\x7b" ++ ofString "\"clientID\":" ++ ofString "\"" ++ data.clientID ++ ofString "\"" ++
    (if data.producerDataSet.values = [] then []
    else
      ofString ",\"producerDataSet\":" ++ ofString "[" ++
        writeLoop encodeProducer data.producerDataSet.values ++ ofString "]") ++
    (if data.consumerDataSet.values = [] then []
    else
      ofString ",\"consumerDataSet\":" ++ ofString "[" ++
        writeLoop encodeConsumer data.consumerDataSet.values ++ ofString "]") ++
    ofString "\x7d"

/-- The text of a queue in a lock request. -/
def encodeQueue (mq : MessageQueue) : ByteString :=
  ofString "\x7b\"topic\":\"" ++ mq.topic ++ ofString "\"," ++
    ofString "\"brokerName\":\"" ++ mq.brokerName ++ ofString "\"," ++
    ofString "\"queueId\":" ++ decimal mq.queueId ++ ofString "\x7d"

/-- `LockBatchRequestBody::Encode`. -/
def LockBatchRequestBody.encode (body : LockBatchRequestBody) : ByteString :=
  ofString "\x7b" ++ ofString "\"clientID\":" ++ ofString "\"" ++ body.clientId ++
    ofString "\"," ++ ofString "\"consumerGroup\":" ++ ofString "\"" ++ body.consumerGroup ++
    ofString "\"," ++ ofString "\"mqSet\":[" ++ writeLoop encodeQueue body.mqSet ++
    ofString "]\x7d"

/-! ### The trees -/

open JsonTree (IsPlain Writable)

/-- The tree of a subscription. -/
def subscriptionTree (data : SubscriptionData) : JsonTree :=
  .object
    [(ofString "classFilterMode", .bool false),
      (ofString "codeSet", .array (data.codeSet.toList.map fun code : ℤ ↦ .number code)),
      (ofString "subString", .string data.subString),
      (ofString "subVersion", .number data.subVersion),
      (ofString "tagsSet", .array (data.tagsSet.toList.map .string)),
      (ofString "topic", .string data.topic)]

/-- The tree of a producer group. -/
def producerTree (data : ProducerData) : JsonTree :=
  .object [(ofString "groupName", .string data.groupName)]

/-- The tree of a consumer group. -/
def consumerTree (data : ConsumerData) : JsonTree :=
  .object
    [(ofString "consumeFromWhere", .string data.consumeWhereText),
      (ofString "consumeType", .string data.consumeTypeText),
      (ofString "groupName", .string data.groupName),
      (ofString "messageModel", .string data.messModelText),
      (ofString "subscriptionDataSet",
        .array (data.subscriptionDataSet.values.map subscriptionTree)),
      (ofString "unitMode", .bool false)]

/-- A member with an array, unless that is empty. -/
def optionalMember {Item : Type} (name : String) (tree : Item → JsonTree) (items : List Item) :
    List (ByteString × JsonTree) :=
  if items = [] then [] else [(ofString name, .array (items.map tree))]

/-- The tree of a heartbeat. -/
def HeartbeatData.tree (data : HeartbeatData) : JsonTree :=
  .object ((ofString "clientID", .string data.clientID) ::
    (optionalMember "producerDataSet" producerTree data.producerDataSet.values ++
      optionalMember "consumerDataSet" consumerTree data.consumerDataSet.values))

/-- The tree of a queue. -/
def queueTree (mq : MessageQueue) : JsonTree :=
  .object
    [(ofString "topic", .string mq.topic), (ofString "brokerName", .string mq.brokerName),
      (ofString "queueId", .number mq.queueId)]

/-- The tree of a lock request. -/
def LockBatchRequestBody.tree (body : LockBatchRequestBody) : JsonTree :=
  .object
    [(ofString "clientID", .string body.clientId),
      (ofString "consumerGroup", .string body.consumerGroup),
      (ofString "mqSet", .array (body.mqSet.map queueTree))]

section Texts

variable {Item : Type}

theorem intercalate_eq_flatten (first : ByteString) (rest : List ByteString) :
    [44].intercalate (first :: rest) =
      first ++ (rest.map fun piece ↦ ofString "," ++ piece).flatten := by
  induction rest generalizing first with
  | nil => rw [List.intercalate_singleton, List.map_nil, List.flatten_nil, List.append_nil]
  | cons second rest ih =>
    rw [List.intercalate_cons_cons, ih second, List.map_cons, List.flatten_cons, List.append_assoc,
      List.append_assoc]
    rfl

/-- The items behind the first one. -/
theorem later_items (write : Item → ByteString) (items : List Item) {start : ℕ}
    (hstart : 0 < start) :
    ((items.zipIdx start).map fun (item, index) ↦
      (if index = 0 then [] else ofString ",") ++ write item).flatten =
        ((items.map write).map fun piece ↦ ofString "," ++ piece).flatten := by
  induction items generalizing start with
  | nil => rfl
  | cons item rest ih =>
    rw [List.zipIdx_cons, List.map_cons, List.map_cons, List.map_cons, List.flatten_cons,
      List.flatten_cons, ih (Nat.succ_pos start)]
    simp only [if_neg (Nat.ne_of_gt hstart)]

/-- The loop joins the texts of the items with commas. -/
theorem writeLoop_eq (write : Item → ByteString) (items : List Item) :
    writeLoop write items = [44].intercalate (items.map write) := by
  cases items with
  | nil => rfl
  | cons item rest =>
    rw [writeLoop, List.zipIdx_cons, List.map_cons, List.flatten_cons,
      later_items write rest (Nat.succ_pos 0), List.map_cons, intercalate_eq_flatten]
    rfl

theorem writeLoop_tree {write : Item → ByteString} {tree : Item → JsonTree}
    (hwrite : ∀ item, write item = (tree item).write) (items : List Item) :
    writeLoop write items = JsonTree.writeElements (items.map tree) := by
  rw [writeLoop_eq, JsonTree.writeElements_eq, List.map_map]
  exact congrArg _ (List.map_congr_left fun item _ ↦ hwrite item)

theorem writeLoop_decimal (codes : List ℤ) :
    writeLoop decimal codes =
      JsonTree.writeElements (codes.map fun code : ℤ ↦ .number code) :=
  @writeLoop_tree ℤ decimal _ (fun _ ↦ rfl) codes

theorem writeLoop_quoted (tags : List ByteString) :
    writeLoop (fun tag ↦ ofString "\"" ++ tag ++ ofString "\"") tags =
      JsonTree.writeElements (tags.map .string) :=
  @writeLoop_tree ByteString _ .string (fun _ ↦ rfl) tags

theorem encodeSubscription_eq (data : SubscriptionData) :
    encodeSubscription data = (subscriptionTree data).write := by
  unfold encodeSubscription subscriptionTree
  rw [writeLoop_decimal, writeLoop_quoted]
  simp only [JsonTree.write, JsonTree.writeMembers, JsonTree.quoted, List.append_assoc,
    List.cons_append]
  rfl

theorem encodeProducer_eq (data : ProducerData) :
    encodeProducer data = (producerTree data).write := by
  unfold encodeProducer producerTree
  simp only [JsonTree.write, JsonTree.writeMembers, JsonTree.quoted, List.append_assoc,
    List.cons_append]
  rfl

theorem encodeConsumer_eq (data : ConsumerData) :
    encodeConsumer data = (consumerTree data).write := by
  unfold encodeConsumer consumerTree
  rw [writeLoop_tree encodeSubscription_eq]
  simp only [JsonTree.write, JsonTree.writeMembers, JsonTree.quoted, List.append_assoc,
    List.cons_append]
  rfl

theorem encodeQueue_eq (mq : MessageQueue) : encodeQueue mq = (queueTree mq).write := by
  unfold encodeQueue queueTree
  simp only [JsonTree.write, JsonTree.writeMembers, JsonTree.quoted, List.append_assoc,
    List.cons_append]
  rfl

theorem HeartbeatData.encode_eq (data : HeartbeatData) : data.encode = data.tree.write := by
  unfold HeartbeatData.encode HeartbeatData.tree optionalMember
  rw [writeLoop_tree encodeProducer_eq, writeLoop_tree encodeConsumer_eq]
  split_ifs <;>
  · simp only [JsonTree.write, JsonTree.writeMembers, JsonTree.quoted, List.append_assoc,
      List.cons_append, List.nil_append]
    rfl

theorem LockBatchRequestBody.encode_eq (body : LockBatchRequestBody) :
    body.encode = body.tree.write := by
  unfold LockBatchRequestBody.encode LockBatchRequestBody.tree
  rw [writeLoop_tree encodeQueue_eq]
  simp only [JsonTree.write, JsonTree.writeMembers, JsonTree.quoted, List.append_assoc,
    List.cons_append]
  rfl

end Texts

/-! ### Reading the trees -/

/-- What a reader gets of a subscription. -/
structure SubscriptionContents where
  topic : ByteString
  subString : ByteString
  subVersion : ℤ
  tagsSet : List ByteString
  codeSet : List ℤ
  deriving DecidableEq

/-- What a reader gets of a consumer group. -/
structure ConsumerContents where
  groupName : ByteString
  consumeType : Option ConsumeType
  messageModel : Option MessageModel
  consumeFromWhere : Option ConsumeFromWhere
  subscriptionDataSet : List SubscriptionContents
  deriving DecidableEq

/-- What a reader gets of a heartbeat: the sets in their order. -/
structure HeartbeatContents where
  clientID : ByteString
  producerDataSet : List ByteString
  consumerDataSet : List ConsumerContents
  deriving DecidableEq

def subscriptionContents (data : SubscriptionData) : SubscriptionContents where
  topic := data.topic
  subString := data.subString
  subVersion := data.subVersion
  tagsSet := data.tagsSet.toList
  codeSet := data.codeSet.toList

def consumerContents (data : ConsumerData) : ConsumerContents where
  groupName := data.groupName
  consumeType := data.consumeType
  messageModel := data.messageModel
  consumeFromWhere := data.consumeFromWhere
  subscriptionDataSet := data.subscriptionDataSet.values.map subscriptionContents

/-- What a heartbeat is to tell the broker. -/
def HeartbeatData.contents (data : HeartbeatData) : HeartbeatContents where
  clientID := data.clientID
  producerDataSet := data.producerDataSet.values.map ProducerData.groupName
  consumerDataSet := data.consumerDataSet.values.map consumerContents

/-- The elements of an array, each read. -/
def readArrayOf {Item : Type} (read : JsonTree → Option Item) (tree : JsonTree) :
    Option (List Item) := do
  let elements ← tree.elements
  elements.mapM read

/-- The elements of the array of a member; none if there is no such member. -/
def readOptional {Item : Type} (name : String) (read : JsonTree → Option Item) (tree : JsonTree) :
    Option (List Item) :=
  match tree.member name with
  | none => some []
  | some value => readArrayOf read value

def readSubscription (tree : JsonTree) : Option SubscriptionContents := do
  let topic ← (← tree.member "topic").text
  let subString ← (← tree.member "subString").text
  let subVersion ← (← tree.member "subVersion").integer
  let tagsSet ← readArrayOf JsonTree.text (← tree.member "tagsSet")
  let codeSet ← readArrayOf JsonTree.integer (← tree.member "codeSet")
  return ⟨topic, subString, subVersion, tagsSet, codeSet⟩

/-- The enumerator that the broker knows by a name; the name of none is misspelt. -/
def readName {Enum : Type} (names : List (String × Enum)) (text : ByteString) :
    Option (Option Enum) :=
  if text = ofString "UNKOWN" then some none
  else (names.find? fun entry ↦ decide (ofString entry.1 = text)).map fun entry ↦ some entry.2

def readConsumeType : ByteString → Option (Option ConsumeType) :=
  readName [("CONSUME_ACTIVELY", .consumeActively), ("CONSUME_PASSIVELY", .consumePassively)]

def readMessageModel : ByteString → Option (Option MessageModel) :=
  readName [("BROADCASTING", .broadcasting), ("CLUSTERING", .clustering)]

def readConsumeFromWhere : ByteString → Option (Option ConsumeFromWhere) :=
  readName [("CONSUME_FROM_LAST_OFFSET", .consumeFromLastOffset),
    ("CONSUME_FROM_FIRST_OFFSET", .consumeFromFirstOffset),
    ("CONSUME_FROM_TIMESTAMP", .consumeFromTimestamp)]

def readConsumer (tree : JsonTree) : Option ConsumerContents := do
  let groupName ← (← tree.member "groupName").text
  let consumeType ← readConsumeType (← (← tree.member "consumeType").text)
  let messageModel ← readMessageModel (← (← tree.member "messageModel").text)
  let consumeFromWhere ← readConsumeFromWhere (← (← tree.member "consumeFromWhere").text)
  let subscriptionDataSet ← readArrayOf readSubscription (← tree.member "subscriptionDataSet")
  return ⟨groupName, consumeType, messageModel, consumeFromWhere, subscriptionDataSet⟩

/-- The name of a producer group. -/
def readProducer (tree : JsonTree) : Option ByteString := do
  let groupName ← tree.member "groupName"
  groupName.text

/-- Reads the tree of a heartbeat. -/
def readHeartbeat (tree : JsonTree) : Option HeartbeatContents := do
  let clientID ← (← tree.member "clientID").text
  let producerDataSet ← readOptional "producerDataSet" readProducer tree
  let consumerDataSet ← readOptional "consumerDataSet" readConsumer tree
  return ⟨clientID, producerDataSet, consumerDataSet⟩

def readQueue (tree : JsonTree) : Option MessageQueue := do
  let topic ← (← tree.member "topic").text
  let brokerName ← (← tree.member "brokerName").text
  let queueId ← (← tree.member "queueId").integer
  return ⟨topic, brokerName, queueId⟩

/-- Reads the tree of a lock request. -/
def readLockRequest (tree : JsonTree) : Option LockBatchRequestBody := do
  let clientId ← (← tree.member "clientID").text
  let consumerGroup ← (← tree.member "consumerGroup").text
  let mqSet ← readArrayOf readQueue (← tree.member "mqSet")
  return ⟨clientId, consumerGroup, mqSet⟩

section Reading

theorem readArrayOf_map {Item Contents : Type} {read : JsonTree → Option Contents}
    {tree : Item → JsonTree} {contents : Item → Contents}
    (hread : ∀ item, read (tree item) = some (contents item)) (items : List Item) :
    readArrayOf read (.array (items.map tree)) = some (items.map contents) := by
  show (items.map tree).mapM read = some (items.map contents)
  rw [List.mapM_map]
  induction items with
  | nil => rfl
  | cons item rest ih =>
    rw [List.mapM_cons, Function.comp_apply, hread item, ih]
    rfl

theorem readArrayOf_self {Item : Type} {read : JsonTree → Option Item} {tree : Item → JsonTree}
    (hread : ∀ item, read (tree item) = some item) (items : List Item) :
    readArrayOf read (.array (items.map tree)) = some items := by
  have hmap := @readArrayOf_map Item Item read tree id hread items
  rwa [List.map_id] at hmap

theorem readSubscription_tree (data : SubscriptionData) :
    readSubscription (subscriptionTree data) = some (subscriptionContents data) := by
  have htags := @readArrayOf_self ByteString JsonTree.text .string (fun _ ↦ rfl)
    data.tagsSet.toList
  have hcodes := @readArrayOf_self ℤ JsonTree.integer (fun code : ℤ ↦ .number code) (fun _ ↦ rfl)
    data.codeSet.toList
  show (readArrayOf JsonTree.text (.array (data.tagsSet.toList.map .string))).bind (fun tagsSet ↦
    (readArrayOf JsonTree.integer
      (.array (data.codeSet.toList.map fun code : ℤ ↦ .number code))).bind fun codeSet ↦
        some
          (SubscriptionContents.mk data.topic data.subString data.subVersion tagsSet codeSet)) = _
  rw [htags, hcodes]
  rfl

/-- The names that are written tell the enumerators apart. -/
theorem readConsumeType_text (data : ConsumerData) :
    readConsumeType data.consumeTypeText = some data.consumeType := by
  unfold ConsumerData.consumeTypeText
  split <;> rename_i hvalue <;> rw [hvalue] <;> decide

theorem readMessageModel_text (data : ConsumerData) :
    readMessageModel data.messModelText = some data.messageModel := by
  unfold ConsumerData.messModelText
  split <;> rename_i hvalue <;> rw [hvalue] <;> decide

theorem readConsumeFromWhere_text (data : ConsumerData) :
    readConsumeFromWhere data.consumeWhereText = some data.consumeFromWhere := by
  unfold ConsumerData.consumeWhereText
  split <;> rename_i hvalue <;> rw [hvalue] <;> decide

theorem readConsumer_tree (data : ConsumerData) :
    readConsumer (consumerTree data) = some (consumerContents data) := by
  have hsubscriptions := readArrayOf_map readSubscription_tree data.subscriptionDataSet.values
  show (readConsumeType data.consumeTypeText).bind (fun consumeType ↦
    (readMessageModel data.messModelText).bind fun messageModel ↦
      (readConsumeFromWhere data.consumeWhereText).bind fun consumeFromWhere ↦
        (readArrayOf readSubscription
          (.array (data.subscriptionDataSet.values.map subscriptionTree))).bind
            fun subscriptions ↦ some (ConsumerContents.mk data.groupName consumeType messageModel
              consumeFromWhere subscriptions)) = _
  rw [readConsumeType_text, readMessageModel_text, readConsumeFromWhere_text, hsubscriptions]
  rfl

theorem readQueue_tree (mq : MessageQueue) : readQueue (queueTree mq) = some mq := rfl

/-- The producers are read, also when their member is left out. -/
theorem readOptional_producers (data : HeartbeatData) :
    readOptional "producerDataSet" readProducer data.tree =
      some (data.producerDataSet.values.map ProducerData.groupName) := by
  have hproducers := @readArrayOf_map _ _ readProducer producerTree _ (fun _ ↦ rfl)
    data.producerDataSet.values
  unfold HeartbeatData.tree optionalMember
  split_ifs with hnoProducer hnoConsumer hnoConsumer
  · rw [hnoProducer]
    rfl
  · rw [hnoProducer]
    rfl
  · exact hproducers
  · exact hproducers

/-- The consumers are read, also when their member is left out. -/
theorem readOptional_consumers (data : HeartbeatData) :
    readOptional "consumerDataSet" readConsumer data.tree =
      some (data.consumerDataSet.values.map consumerContents) := by
  have hconsumers := readArrayOf_map readConsumer_tree data.consumerDataSet.values
  unfold HeartbeatData.tree optionalMember
  split_ifs with hnoProducer hnoConsumer hnoConsumer
  · rw [hnoConsumer]
    rfl
  · exact hconsumers
  · rw [hnoConsumer]
    rfl
  · exact hconsumers

theorem readHeartbeat_tree (data : HeartbeatData) :
    readHeartbeat data.tree = some data.contents := by
  show (readOptional "producerDataSet" readProducer data.tree).bind (fun producers ↦
    (readOptional "consumerDataSet" readConsumer data.tree).bind fun consumers ↦
      some (HeartbeatContents.mk data.clientID producers consumers)) = _
  rw [readOptional_producers, readOptional_consumers]
  rfl

theorem readLockRequest_tree (body : LockBatchRequestBody) :
    readLockRequest body.tree = some body := by
  have hqueues := readArrayOf_self readQueue_tree body.mqSet
  show (readArrayOf readQueue (.array (body.mqSet.map queueTree))).bind (fun mqSet ↦
    some (LockBatchRequestBody.mk body.clientId body.consumerGroup mqSet)) = _
  rw [hqueues]
  rfl

end Reading

/-! ### What is read from the texts -/

/-- The strings of a subscription are plain. -/
structure PlainSubscription (data : SubscriptionData) : Prop where
  topic : IsPlain data.topic
  subString : IsPlain data.subString
  tagsSet : ∀ tag ∈ data.tagsSet.toList, IsPlain tag

/-- The strings of a heartbeat are plain. -/
structure HeartbeatData.Plain (data : HeartbeatData) : Prop where
  clientID : IsPlain data.clientID
  producers : ∀ producer ∈ data.producerDataSet.values, IsPlain producer.groupName
  consumers : ∀ consumer ∈ data.consumerDataSet.values, IsPlain consumer.groupName
  subscriptions : ∀ consumer ∈ data.consumerDataSet.values,
    ∀ subscription ∈ consumer.subscriptionDataSet.values, PlainSubscription subscription

/-- The strings of a lock request are plain. -/
structure LockBatchRequestBody.Plain (body : LockBatchRequestBody) : Prop where
  clientId : IsPlain body.clientId
  consumerGroup : IsPlain body.consumerGroup
  mqSet : ∀ mq ∈ body.mqSet, IsPlain mq.topic ∧ IsPlain mq.brokerName

section Plain

instance (data : SubscriptionData) : Decidable (PlainSubscription data) :=
  decidable_of_iff (IsPlain data.topic ∧ IsPlain data.subString ∧
      ∀ tag ∈ data.tagsSet.toList, IsPlain tag)
    ⟨fun ⟨htopic, hexpression, htags⟩ ↦ ⟨htopic, hexpression, htags⟩,
      fun ⟨htopic, hexpression, htags⟩ ↦ ⟨htopic, hexpression, htags⟩⟩

theorem writable_subscriptionTree {data : SubscriptionData} (hplain : PlainSubscription data) :
    Writable (subscriptionTree data) :=
  .cons (by decide) (.bool false) <|
    .cons (by decide) (.arrayMap fun code _ ↦ .integer code) <|
    .cons (by decide) (.string _ hplain.subString) <|
    .cons (by decide) (.integer data.subVersion) <|
    .cons (by decide) (.arrayMap fun tag htag ↦ .string tag (hplain.tagsSet tag htag)) <|
    .cons (by decide) (.string _ hplain.topic) .noMember

theorem writable_consumerTree {data : ConsumerData} (hname : IsPlain data.groupName)
    (hsubscriptions : ∀ subscription ∈ data.subscriptionDataSet.values,
      PlainSubscription subscription) : Writable (consumerTree data) := by
  have hwhere : IsPlain data.consumeWhereText := by
    unfold ConsumerData.consumeWhereText
    split <;> decide
  have htype : IsPlain data.consumeTypeText := by
    unfold ConsumerData.consumeTypeText
    split <;> decide
  have hmodel : IsPlain data.messModelText := by
    unfold ConsumerData.messModelText
    split <;> decide
  exact .cons (by decide) (.string _ hwhere) <|
    .cons (by decide) (.string _ htype) <|
    .cons (by decide) (.string _ hname) <|
    .cons (by decide) (.string _ hmodel) <|
    .cons (by decide) (.arrayMap fun subscription hmem ↦
      writable_subscriptionTree (hsubscriptions subscription hmem)) <|
    .cons (by decide) (.bool false) .noMember

theorem writable_tree_heartbeat {data : HeartbeatData} (hplain : data.Plain) :
    Writable data.tree := by
  have hproducers : Writable (.array (data.producerDataSet.values.map producerTree)) :=
    .arrayMap fun producer hproducer ↦
      .cons (by decide) (.string _ (hplain.producers producer hproducer)) .noMember
  have hconsumers : Writable (.array (data.consumerDataSet.values.map consumerTree)) :=
    .arrayMap fun consumer hconsumer ↦ writable_consumerTree
      (hplain.consumers consumer hconsumer) (hplain.subscriptions consumer hconsumer)
  refine .cons (by decide) (.string _ hplain.clientID) ?_
  unfold optionalMember
  split_ifs
  · exact .noMember
  · exact .cons (by decide) hconsumers .noMember
  · exact .cons (by decide) hproducers .noMember
  · exact .cons (by decide) hproducers (.cons (by decide) hconsumers .noMember)

theorem writable_tree_lockRequest {body : LockBatchRequestBody} (hplain : body.Plain) :
    Writable body.tree :=
  .cons (by decide) (.string _ hplain.clientId) <|
    .cons (by decide) (.string _ hplain.consumerGroup) <|
    .cons (by decide) (.arrayMap fun mq hmq ↦
      .cons (by decide) (.string _ (hplain.mqSet mq hmq).1) <|
      .cons (by decide) (.string _ (hplain.mqSet mq hmq).2) <|
      .cons (by decide) (.integer mq.queueId) .noMember) .noMember

/-- The texts of heartbeats and lock requests of plain strings are accepted by the grammar, and what
is read from them is what was encoded, in the order of the sets. -/
theorem request_bodies_read (data : HeartbeatData) (body : LockBatchRequestBody)
    (hdata : data.Plain) (hbody : body.Plain) :
    (∃ tree, JsonTree.parse data.encode = some tree ∧ readHeartbeat tree = some data.contents) ∧
      ∃ tree, JsonTree.parse body.encode = some tree ∧ readLockRequest tree = some body := by
  refine ⟨⟨data.tree, ?_, readHeartbeat_tree data⟩, ⟨body.tree, ?_, readLockRequest_tree body⟩⟩
  · rw [data.encode_eq, JsonTree.parse_write (writable_tree_heartbeat hdata)]
  · rw [body.encode_eq, JsonTree.parse_write (writable_tree_lockRequest hbody)]

/-- A subscription with two tags. -/
def twoTags : SubscriptionData where
  topic := ofString "t"
  subString := ofString "a || b"
  tagsSet := (OrderedSet.empty.insert (ofString "a")).insert (ofString "b")
  codeSet := (OrderedSet.empty.insert 97).insert 98
  subVersion := 5

/-- A heartbeat of two producer groups, of a consumer group that is called with messages of a
subscription, and of one that asks for them and has a model that the client does not know. -/
def sampleHeartbeat : HeartbeatData where
  clientID := ofString "c"
  producerDataSet := OrderedMap.empty.insertAll ProducerData.groupName
    [⟨ofString "p"⟩, ⟨ofString "q"⟩]
  consumerDataSet := OrderedMap.empty.insertAll ConsumerData.groupName
    [⟨ofString "g", some .consumePassively, some .broadcasting, some .consumeFromTimestamp,
      OrderedMap.empty.insert twoTags.key twoTags⟩,
    ⟨ofString "h", some .consumeActively, none, some .consumeFromFirstOffset, OrderedMap.empty⟩]

/-- A lock request of two queues of different brokers. -/
def twoQueueLockRequest : LockBatchRequestBody :=
  ⟨ofString "c", ofString "g",
    [⟨ofString "t", ofString "a", 3⟩, ⟨ofString "t", ofString "b", 0⟩]⟩

theorem request_bodies_read_sample :
    (∃ tree, JsonTree.parse sampleHeartbeat.encode = some tree ∧
      readHeartbeat tree = some
        { clientID := ofString "c"
          producerDataSet := [ofString "p", ofString "q"]
          consumerDataSet := [⟨ofString "g", some .consumePassively, some .broadcasting,
              some .consumeFromTimestamp,
              [⟨ofString "t", ofString "a || b", 5, [ofString "a", ofString "b"], [97, 98]⟩]⟩,
            ⟨ofString "h", some .consumeActively, none, some .consumeFromFirstOffset, []⟩] }) ∧
      ∃ tree, JsonTree.parse twoQueueLockRequest.encode = some tree ∧
        readLockRequest tree = some ⟨ofString "c", ofString "g",
          [⟨ofString "t", ofString "a", 3⟩, ⟨ofString "t", ofString "b", 0⟩]⟩ := by
  have hheartbeat : sampleHeartbeat.Plain :=
    ⟨by decide +kernel, by decide +kernel, by decide +kernel, by decide +kernel⟩
  have hlock : twoQueueLockRequest.Plain := ⟨by decide, by decide, by decide +kernel⟩
  exact request_bodies_read sampleHeartbeat twoQueueLockRequest hheartbeat hlock

end Plain

end RocketMQClient.Protocol
