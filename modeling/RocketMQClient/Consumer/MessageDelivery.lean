import RocketMQClient.Consumer.RetryMessage
import RocketMQClient.Library.EventSystem

/-!
# A message through all its retries

`deliverySystem` is one message of a producer and all its copies: the requests on their way, the
records of the brokers, and the messages in the process queues of a group. A request may be lost,
be stored late or be stored again, a record may be pulled by any number of clients, and a listener
may fail any number of times.

Every copy has the body, the flag and the properties of the message, whichever way it went
(`Delivery.Sound`, kept by each step in `step_sound`), as long as no request is stored whose body an
earlier attempt of its call has compressed (`CarriesBody`). Its topic comes back only to clients
without a project group; with one, the first delivery is under another topic already
(`received_renamed`).

The system puts together what other modules model for itself: the sending loop with its compression,
the records of a broker, the decoding of a pull, and the two ways of sending a message back.
`RequestSound`, `RecordSound` and `HeldSound` are the invariant at the three kinds of places, and
each step has one lemma that takes a copy from one kind of place to another. Which queue and which
broker a record lies at is left out: a record may be pulled by anybody at any time and any number of
times.
-/

set_option autoImplicit false
set_option relaxedAutoImplicit false

namespace RocketMQClient.Consumer

open Library Common Messages Producer Protocol Transport

/-! ### The system -/

variable {inflate : Inflate}

/-- The copies of a message: requests on their way, records, and messages in process queues. -/
structure Delivery (inflate : Inflate) where
  sends : List SendMessageRequest
  backs : List CommandCustomHeader
  records : List (StoredMessage inflate)
  held : List Messages.MessageExt

/-- The steps: a broker stores a request or takes a record back, a client pulls a record, is done
with a message, or sends it back. -/
inductive DeliveryEvent (inflate : Inflate) where
  | store (request : ℕ) (record : StoredMessage inflate)
  | takeBack (back record : ℕ) (taken : StoredMessage inflate)
  | pull (record : ℕ) (host : ByteOrder) (minOffset maxOffset : BitVec 64)
  | done (held : ℕ)
  | sendBack (held : ℕ) (client : RetryClient) (delayLevel : BitVec 32) (answered : Bool)
      (attempts : ℕ → SendAttempt) (beginTimestamp : ℤ) (clock : ℕ → BitVec 64)
      (memory : ℕ → BitVec 32)

/-- What the clients of a group have in common, and what the brokers and the library do. -/
structure DeliverySetting where
  zlib : Zlib
  consumerGroup : ByteString
  projectGroupPrefix : ByteString
  own : List ByteString

namespace Delivery

/-- A listener has failed: the message is sent back, and consumed again when that fails. -/
def sendBack (setting : DeliverySetting) (state : Delivery inflate) (held : ℕ)
    (client : RetryClient) (delayLevel : BitVec 32) (answered : Bool)
    (attempts : ℕ → SendAttempt) (beginTimestamp : ℤ) (clock : ℕ → BitVec 64)
    (memory : ℕ → BitVec 32) (msg : Messages.MessageExt) : Delivery inflate :=
  let back := client.sendMessageBack setting.zlib delayLevel answered attempts beginTimestamp clock
    memory (resetRetryTopic client.consumerGroup msg)
  { state with
    sends := state.sends ++ back.requests
    backs := state.backs ++ [back.header]
    held :=
      if back.ok then state.held.eraseIdx held
      else state.held.set held { back.msg with reconsumeTimes := back.msg.reconsumeTimes + 1 } }

/-- One step. -/
def step (setting : DeliverySetting) (state : Delivery inflate) :
    DeliveryEvent inflate → Option (Delivery inflate)
  | .store request record =>
    (state.sends[request]?).bind fun request ↦
      if StoresAs setting.own request.header request.sent.body record then
        some { state with records := state.records ++ [record] }
      else none
  | .takeBack back record taken =>
    (state.backs[back]?).bind fun header ↦ (state.records[record]?).bind fun record ↦
      if TakesBack setting.own header record taken then
        some { state with records := state.records ++ [taken] }
      else none
  | .pull record host minOffset maxOffset =>
    (state.records[record]?).map fun record ↦
      { state with
        held := state.held ++ [(received host setting.projectGroupPrefix minOffset maxOffset 0
          record).message] }
  | .done held =>
    if held < state.held.length then some { state with held := state.held.eraseIdx held } else none
  | .sendBack held client delayLevel answered attempts beginTimestamp clock memory =>
    (state.held[held]?).bind fun msg ↦
      if client.consumerGroup = setting.consumerGroup ∧
          client.settings.projectGroupPrefix = setting.projectGroupPrefix then
        some (state.sendBack setting held client delayLevel answered attempts beginTimestamp clock
          memory msg)
      else none

/-- A stored request is the first of its call, or compression does not change the body. -/
def CarriesBody (zlib : Zlib) (state : Delivery inflate) : DeliveryEvent inflate → Prop
  | .store number _ => ∀ request, state.sends[number]? = some request →
      request.number = 0 ∨ ¬ CompressionChanges zlib request.config request.msg
  | .takeBack _ _ _ | .pull _ _ _ _ | .done _ | .sendBack _ _ _ _ _ _ _ _ => True

/-- The producer has made its call. -/
def initial (sends : List SendMessageRequest) : Delivery inflate := ⟨sends, [], [], []⟩

end Delivery

/-- One message and all its copies. -/
def deliverySystem (inflate : Inflate) (setting : DeliverySetting) :
    EventSystem (Delivery inflate) (DeliveryEvent inflate) where
  step := Delivery.step setting

/-! ### Copies -/

/-- The names of properties that the client sets itself. -/
def clientNames : List ByteString :=
  [propertyRetryTopic, ofString "MIN_OFFSET", ofString "MAX_OFFSET", ofString "WAIT"]

/-- A text without the bytes that separate properties. -/
def Unseparated (text : ByteString) : Prop :=
  ∀ byte ∈ text, byte ≠ nameValueSeparator ∧ byte ≠ propertySeparator

instance (text : ByteString) : Decidable (Unseparated text) :=
  inferInstanceAs (Decidable (∀ _ ∈ _, _))

/-- A topic, a flag and properties are those of a copy of the message: the topic is that of the
message or the retry topic, and the property for it is not set or names the topic. -/
structure IsCopy (setting : DeliverySetting) (msg : Message) (topic : ByteString)
    (flag : BitVec 32) (properties : Properties) : Prop where
  flag : flag = BitVec.ofInt 32 msg.flag
  names : ∀ name ∉ clientNames ++ setting.own, properties.find? name = msg.properties.find? name
  unseparated : Unseparated topic
  origin : isBlank setting.projectGroupPrefix = true →
    topic = msg.topic ∧ (properties.find? propertyRetryTopic = none ∨
        properties.find? propertyRetryTopic = some msg.topic) ∨
      topic = MixAll.getRetryTopic setting.consumerGroup ∧
        properties.find? propertyRetryTopic = some msg.topic

/-- A listener is given the message of the producer: its body, its flag and its properties but for
those that client and broker set, and its topic when there is no project group. -/
structure Delivered (setting : DeliverySetting) (msg : Message) (given : Messages.MessageExt) :
    Prop where
  body : given.body = msg.body
  flag : given.flag = BitVec.ofInt 32 msg.flag
  properties : ∀ name ∉ clientNames ++ setting.own,
    given.properties.find? name = msg.properties.find? name
  topic : isBlank setting.projectGroupPrefix = true → given.topic = msg.topic

/-- What the system assumes of the message and of the names. -/
structure Deliverable (setting : DeliverySetting) (msg : Message) (body : ByteString) : Prop where
  message : msg.body = some body
  nonempty : body ≠ []
  small : body.length < 1073741824
  topic : msg.topic ≠ []
  properties : SeparatorFree msg.properties
  fresh : msg.properties.find? propertyRetryTopic = none
  names : Unseparated msg.topic ∧ Unseparated setting.consumerGroup ∧
    Unseparated setting.projectGroupPrefix
  own : propertyRetryTopic ∉ setting.own

/-! ### Texts and properties -/

section Texts

variable {first second name value topic projectGroupPrefix : ByteString} {properties : Properties}

theorem Unseparated.append (hfirst : Unseparated first) (hsecond : Unseparated second) :
    Unseparated (first ++ second) := fun byte hbyte ↦
  (List.mem_append.mp hbyte).elim (hfirst byte) (hsecond byte)

theorem Unseparated.of_subset (hsubset : first ⊆ second) (hsecond : Unseparated second) :
    Unseparated first := fun byte hbyte ↦ hsecond byte (hsubset hbyte)

theorem nameToBroker_of_blank (hblank : isBlank projectGroupPrefix = true) :
    nameToBroker projectGroupPrefix name = name := by
  rw [nameToBroker, hblank]
  rfl

theorem nameFromBroker_of_blank (hblank : isBlank projectGroupPrefix = true) :
    nameFromBroker projectGroupPrefix name = name := by
  rw [nameFromBroker, hblank]
  rfl

/-- Adding the suffix adds no separator. -/
theorem unseparated_nameToBroker (hname : Unseparated name)
    (hproject : Unseparated projectGroupPrefix) :
    Unseparated (nameToBroker projectGroupPrefix name) := by
  unfold nameToBroker VirtualEnvUtil.buildWithProjectGroup
  split_ifs
  · have hmarks : Unseparated (ofString "%PROJECT_") ∧ Unseparated (ofString "%") := by
      decide +kernel
    exact hname.append ((hmarks.1.append (hproject.of_subset cString_subset)).append hmarks.2)
  all_goals exact hname

/-- Taking the suffix off leaves a part of the name. -/
theorem unseparated_nameFromBroker (hname : Unseparated name) :
    Unseparated (nameFromBroker projectGroupPrefix name) := by
  unfold nameFromBroker
  split_ifs
  · exact hname.of_subset (VirtualEnvUtil.clearProjectGroup_subset name projectGroupPrefix)
  · exact hname

theorem unseparated_decimal (number : ℤ) : Unseparated (decimal number) := by
  have hdigits : Unseparated (decimalDigits number.natAbs) := fun byte hbyte ↦ by
    have hdigit := isDigit_of_mem_decimalDigits byte hbyte
    refine ⟨?_, ?_⟩ <;> rintro rfl <;> exact absurd hdigit (by decide)
  unfold decimal
  split_ifs
  · exact (show Unseparated [45] by decide +kernel).append hdigits
  · exact hdigits

/-- A property without separators is added. -/
theorem separatorFree_assign (hproperties : SeparatorFree properties) (hname : Unseparated name)
    (hvalue : Unseparated value) : SeparatorFree (properties.assign name value) := by
  intro property hproperty
  rcases OrderedMap.mem_entries_assign.mp hproperty with rfl | ⟨hmem, -⟩
  · exact hname.append hvalue
  · exact hproperties property hmem

/-- The value of a property has no separator. -/
theorem unseparated_of_find? (hproperties : SeparatorFree properties)
    (hfind : properties.find? name = some value) : Unseparated value := fun byte hbyte ↦
  hproperties _ (OrderedMap.find?_eq_some.mp hfind) byte (List.mem_append_right _ hbyte)

/-- What a broker reads from the text of properties. -/
theorem string2messageProperties_of_text (hproperties : SeparatorFree properties) :
    string2messageProperties OrderedMap.empty (messageProperties2String properties) =
      properties :=
  (string2messageProperties_of_separatorFree _ hproperties).trans (assignPairs_entries properties)

end Texts

/-! ### What each way does to a copy -/

/-- The buffer for a body of less than `2 ^ 30` bytes can grow. -/
theorem growsBelow_of_small {outBufferLen outDataLen : ℤ} {lengths : List ℕ}
    (hstart : 0 ≤ outDataLen) (hsmall : outDataLen + (lengths.sum : ℕ) < 1073741824) :
    GrowsBelow outBufferLen outDataLen lengths := by
  induction lengths generalizing outBufferLen outDataLen with
  | nil => trivial
  | cons length rest ih =>
    rw [List.sum_cons] at hsmall
    have hneeded : toInt32 (outDataLen + length) = outDataLen + length :=
      toInt32_eq_self (by omega) (by omega)
    rw [GrowsBelow, hneeded]
    split_ifs
    · exact ⟨by omega, ih (by omega) (by omega)⟩
    · exact ih (by omega) (by omega)

/-- A record with a body of less than `2 ^ 30` bytes is read with its body. -/
theorem readBody_of_small {record : StoredMessage inflate}
    (hsmall : record.body.length < 1073741824) : record.readBody = record.body := by
  have hstored := record.stored
  refine if_pos ?_
  split_ifs at hstored
  · refine Or.inr (growsBelow_of_small (le_refl 0) ?_)
    rw [Inflate.lengths, ← List.length_flatten, hstored.output]
    omega
  · exact Or.inl hstored

theorem find?_readProperties {record : StoredMessage inflate} {name : ByteString}
    (hname : name ≠ ofString "WAIT") :
    record.readProperties.find? name = record.properties.find? name := by
  unfold StoredMessage.readProperties
  split_ifs with hempty
  · rw [OrderedMap.find?_eq_none.mpr (OrderedMap.isEmpty_iff.mp hempty name),
      MessageExt.initialProperties, OrderedMap.find?_assign_of_ne _ _ hname]
    rfl
  · rfl

/-- A pull sets no properties but the offsets and the one of a message without any. -/
theorem find?_received {record : StoredMessage inflate} {name : ByteString}
    (hname : name ∉ clientNames.tail) (host : ByteOrder) (projectGroupPrefix : ByteString)
    (minOffset maxOffset : BitVec 64) (address : ℕ) :
    (received host projectGroupPrefix minOffset maxOffset address
      record).message.properties.find? name = record.properties.find? name := by
  have hnames : name ≠ ofString "MIN_OFFSET" ∧ name ≠ ofString "MAX_OFFSET" ∧
      name ≠ ofString "WAIT" := by simpa [clientNames] using hname
  exact (OrderedMap.find?_assign_of_ne _ _ hnames.2.1).trans
    ((OrderedMap.find?_assign_of_ne _ _ hnames.1).trans (find?_readProperties hnames.2.2))

/-- The flag of compression is the same in both widths. -/
theorem compressed_iff (sysFlag : ℕ) :
    BitVec.ofNat 32 sysFlag &&& compressedSysFlag = compressedSysFlag ↔
      sysFlag &&& MessageSysFlag.compressedFlag = MessageSysFlag.compressedFlag := by
  rw [← BitVec.toNat_inj, BitVec.toNat_and, BitVec.toNat_ofNat]
  change sysFlag % 4294967296 &&& 1 = 1 ↔ sysFlag &&& 1 = 1
  rw [Nat.and_one_is_mod, Nat.and_one_is_mod]
  omega

section Copies

variable {setting : DeliverySetting} {msg : Message} {body : ByteString}

/-- A request is for a copy and carries its body. -/
structure RequestSound (setting : DeliverySetting) (msg : Message) (body : ByteString)
    (request : SendMessageRequest) : Prop where
  settings : request.settings.projectGroupPrefix = setting.projectGroupPrefix
  properties : SeparatorFree request.msg.properties
  copy : IsCopy setting msg (nameToBroker setting.projectGroupPrefix request.msg.topic)
    (BitVec.ofInt 32 request.msg.flag) request.msg.properties
  carries : request.number = 0 ∨ ¬ CompressionChanges setting.zlib request.config request.msg →
    request.sent.Carries setting.zlib request.config body

/-- A record is a copy with the body. -/
structure RecordSound (setting : DeliverySetting) (msg : Message) (body : ByteString)
    (record : StoredMessage inflate) : Prop where
  copy : IsCopy setting msg record.topic record.flag record.properties
  bytes : record.body = body

/-- A message in a process queue is a copy with the body. -/
structure HeldSound (setting : DeliverySetting) (msg : Message) (body : ByteString)
    (held : Messages.MessageExt) : Prop where
  copy : IsCopy setting msg held.topic held.flag held.properties
  properties : SeparatorFree held.properties
  bytes : held.body = some body

/-- A broker stores a request. -/
theorem RequestSound.stored {request : SendMessageRequest} {record : StoredMessage inflate}
    (hrequest : RequestSound setting msg body request) (hown : propertyRetryTopic ∉ setting.own)
    (hstream : ∀ body level out, setting.zlib.compress body level = some out →
      inflate.Stream out body)
    (hcarries : request.sent.Carries setting.zlib request.config body)
    (hstores : StoresAs setting.own request.header request.sent.body record) :
    RecordSound setting msg body record := by
  obtain ⟨htopic, hsysFlag, -, hflag, -, hbytes, hproperties⟩ := hstores
  rw [hrequest.settings] at htopic
  rw [string2messageProperties_of_text hrequest.properties] at hproperties
  have hfind : ∀ name ∉ setting.own,
      record.properties.find? name = request.msg.properties.find? name :=
    fun name hname ↦ find?_of_without hproperties hname
  refine ⟨⟨hflag.trans hrequest.copy.flag, fun name hname ↦ ?_, ?_, ?_⟩, ?_⟩
  · rw [hfind name fun hmem ↦ hname (List.mem_append_right _ hmem)]
    exact hrequest.copy.names name hname
  · rw [htopic]
    exact hrequest.copy.unseparated
  · rw [htopic, hfind _ hown]
    exact hrequest.copy.origin
  · have hstored := record.stored
    simp only [hsysFlag, compressed_iff, hbytes] at hstored
    unfold SentMessage.Carries at hcarries
    split_ifs at hstored hcarries with hcompressed
    · exact hstored.output.symm.trans (hstream _ _ _ hcarries).output
    · exact hstored.symm.trans hcarries

/-- A broker takes a record back. -/
theorem RecordSound.takenBack {record taken : StoredMessage inflate} {offset : BitVec 64}
    {delayLevel : BitVec 32} (hrecord : RecordSound setting msg body record)
    (hgroup : Unseparated setting.consumerGroup)
    (hproject : Unseparated setting.projectGroupPrefix)
    (htakes : TakesBack setting.own (.consumerSendMsgBackRequestHeader offset
      (nameToBroker setting.projectGroupPrefix setting.consumerGroup) delayLevel) record taken) :
    RecordSound setting msg body taken := by
  obtain ⟨-, htopic, hflag, -, hbytes, hretry, hproperties⟩ := htakes
  refine ⟨⟨hflag.trans hrecord.copy.flag, fun name hname ↦ ?_, ?_, fun hblank ↦ ?_⟩,
    hbytes.trans hrecord.bytes⟩
  · rw [find?_of_without hproperties, hrecord.copy.names name hname]
    rintro (_ | ⟨_, hmem⟩)
    · exact hname (List.mem_append_left _ List.mem_cons_self)
    · exact hname (List.mem_append_right _ hmem)
  · rw [htopic]
    exact (show Unseparated (ofString "%RETRY%") by decide +kernel).append
      (unseparated_nameToBroker hgroup hproject)
  · right
    rw [htopic, hretry, nameToBroker_of_blank hblank]
    refine ⟨rfl, congrArg some ?_⟩
    rcases hrecord.copy.origin hblank with ⟨hsame, hnone | hsome⟩ | ⟨-, hsome⟩
    · rw [hnone]
      exact hsame
    · rw [hsome]
      rfl
    · rw [hsome]
      rfl

/-- A client pulls a record. -/
theorem RecordSound.received {record : StoredMessage inflate}
    (hrecord : RecordSound setting msg body record) (hsmall : body.length < 1073741824)
    (hnonempty : body ≠ []) (host : ByteOrder) (minOffset maxOffset : BitVec 64) (address : ℕ) :
    HeldSound setting msg body (received host setting.projectGroupPrefix minOffset maxOffset
      address record).message := by
  refine ⟨⟨hrecord.copy.flag, fun name hname ↦ ?_, ?_, fun hblank ↦ ?_⟩, ?_, ?_⟩
  · rw [find?_received fun hmem ↦ hname (List.mem_append_left _ (List.mem_of_mem_tail hmem))]
    exact hrecord.copy.names name hname
  · exact unseparated_nameFromBroker hrecord.copy.unseparated
  · rw [find?_received (by decide +kernel)]
    refine Eq.mp ?_ (hrecord.copy.origin hblank)
    rw [← @nameFromBroker_of_blank record.topic _ hblank]
    rfl
  · have hoffsets : Unseparated (ofString "MIN_OFFSET") ∧ Unseparated (ofString "MAX_OFFSET") := by
      decide +kernel
    refine separatorFree_assign (separatorFree_assign ?_ hoffsets.1 (unseparated_decimal _))
      hoffsets.2 (unseparated_decimal _)
    change SeparatorFree record.readProperties
    unfold StoredMessage.readProperties
    split_ifs
    · decide +kernel
    · exact record.properties_plain.separatorFree
  · have hbytes : record.readBody = body :=
      (readBody_of_small (hrecord.bytes ▸ hsmall)).trans hrecord.bytes
    change (if record.readBody = [] then none else some record.readBody) = some body
    rw [hbytes, if_neg hnonempty]

/-- The topic is reset before the listener gets the message. -/
theorem HeldSound.reset {held : Messages.MessageExt} (hheld : HeldSound setting msg body held)
    (hnonempty : msg.topic ≠ []) :
    HeldSound setting msg body (resetRetryTopic setting.consumerGroup held) ∧
      (isBlank setting.projectGroupPrefix = true →
        (resetRetryTopic setting.consumerGroup held).topic = msg.topic) := by
  unfold resetRetryTopic
  dsimp only
  split_ifs with hreset
  · cases hfind : held.properties.find? propertyRetryTopic with
    | none => simp [hfind] at hreset
    | some value =>
      have htopic : isBlank setting.projectGroupPrefix = true → value = msg.topic := fun hblank ↦ by
        rcases hheld.copy.origin hblank with ⟨-, hnone | hsome⟩ | ⟨-, hsome⟩
        · simp [hfind] at hnone
        · exact Option.some.inj (hfind.symm.trans hsome)
        · exact Option.some.inj (hfind.symm.trans hsome)
      refine ⟨⟨⟨hheld.copy.flag, hheld.copy.names, ?_, fun hblank ↦ Or.inl ⟨htopic hblank, ?_⟩⟩,
        hheld.properties, hheld.bytes⟩, htopic⟩
      · exact unseparated_of_find? hheld.properties hfind
      · exact Or.inr (hfind.trans (congrArg some (htopic hblank)))
  · refine ⟨hheld, fun hblank ↦ ?_⟩
    rcases hheld.copy.origin hblank with ⟨hsame, -⟩ | ⟨hretry, hsome⟩
    · exact hsame
    · refine absurd ⟨?_, hretry.symm⟩ hreset
      rw [hsome]
      simpa using hnonempty

section SendBack

variable {client : RetryClient} {held : Messages.MessageExt}

/-- Without a project group the topic stays. -/
theorem topic_consumerSendMessageBack
    (hclient : client.settings.projectGroupPrefix = setting.projectGroupPrefix)
    (hblank : isBlank setting.projectGroupPrefix = true) (delayLevel : BitVec 32) :
    (client.consumerSendMessageBack delayLevel held).2.topic = held.topic := by
  change nameToBroker client.settings.projectGroupPrefix held.topic = held.topic
  rw [hclient]
  exact nameToBroker_of_blank hblank

/-- The topic gets the suffix when the message is sent back. -/
theorem HeldSound.consumerSendMessageBack (hheld : HeldSound setting msg body held)
    (hproject : Unseparated setting.projectGroupPrefix)
    (hclient : client.settings.projectGroupPrefix = setting.projectGroupPrefix)
    (delayLevel : BitVec 32) :
    HeldSound setting msg body (client.consumerSendMessageBack delayLevel held).2 := by
  refine ⟨⟨hheld.copy.flag, hheld.copy.names, ?_, fun hblank ↦ ?_⟩, hheld.properties, hheld.bytes⟩
  · change Unseparated (nameToBroker client.settings.projectGroupPrefix held.topic)
    rw [hclient]
    exact unseparated_nameToBroker hheld.copy.unseparated hproject
  · rw [topic_consumerSendMessageBack hclient hblank]
    exact hheld.copy.origin hblank

/-- The new message is a copy, in the retry topic. -/
theorem HeldSound.newMsg (hheld : HeldSound setting msg body held)
    (hgroup : Unseparated setting.consumerGroup)
    (hproject : Unseparated setting.projectGroupPrefix)
    (hclient : client.consumerGroup = setting.consumerGroup)
    (htopic : isBlank setting.projectGroupPrefix = true → held.topic = msg.topic) :
    SeparatorFree (client.newMsg held).properties ∧
      IsCopy setting msg (nameToBroker setting.projectGroupPrefix (client.newMsg held).topic)
        (BitVec.ofInt 32 (client.newMsg held).flag) (client.newMsg held).properties := by
  have hmarks : Unseparated (ofString "%RETRY%") ∧ Unseparated propertyRetryTopic := by
    decide +kernel
  refine ⟨separatorFree_assign hheld.properties hmarks.2 hheld.copy.unseparated,
    BitVec.ofInt_toInt.trans hheld.copy.flag, fun name hname ↦ ?_, ?_,
    fun hblank ↦ Or.inr ⟨?_, ?_⟩⟩
  · have hne : name ≠ propertyRetryTopic := fun hsame ↦
      hname (List.mem_append_left _ (hsame ▸ List.mem_cons_self))
    exact (OrderedMap.find?_assign_of_ne _ _ hne).trans (hheld.copy.names name hname)
  · exact unseparated_nameToBroker (hmarks.1.append (hclient ▸ hgroup)) hproject
  · rw [nameToBroker_of_blank hblank, ← hclient]
    rfl
  · exact (OrderedMap.find?_assign_self _ _ _).trans (congrArg some (htopic hblank))

/-- The requests of a call for a copy. -/
theorem requestSound_of_requestsOf {settings : RequestSettings} {config : ProducerConfig}
    {copied : Message} {mode : CommunicationMode} {attempts : ℕ → SendAttempt} {beginTimestamp : ℤ}
    {clock : ℕ → BitVec 64} {memory : ℕ → BitVec 32} {request : SendMessageRequest}
    (hsettings : settings.projectGroupPrefix = setting.projectGroupPrefix)
    (hproperties : SeparatorFree copied.properties)
    (hcopy : IsCopy setting msg (nameToBroker setting.projectGroupPrefix copied.topic)
      (BitVec.ofInt 32 copied.flag) copied.properties)
    (hbody : copied.body = some body)
    (hrequest : request ∈ requestsOf settings config copied clock memory
      (sendDefaultImpl setting.zlib config mode attempts beginTimestamp copied).2) :
    RequestSound setting msg body request := by
  have hcarries := carries_of_requestsOf hbody hrequest
  obtain ⟨number, hnumber, rfl⟩ := List.mem_mapIdx.mp hrequest
  exact ⟨hsettings, hproperties, hcopy, hcarries⟩

/-- A client sends a message back. -/
theorem HeldSound.sendMessageBack {delayLevel : BitVec 32} {answered : Bool}
    {attempts : ℕ → SendAttempt} {beginTimestamp : ℤ} {clock : ℕ → BitVec 64}
    {memory : ℕ → BitVec 32} {back : SentBack} (hheld : HeldSound setting msg body held)
    (hgroup : Unseparated setting.consumerGroup)
    (hproject : Unseparated setting.projectGroupPrefix)
    (hclient : client.consumerGroup = setting.consumerGroup ∧
      client.settings.projectGroupPrefix = setting.projectGroupPrefix)
    (htopic : isBlank setting.projectGroupPrefix = true → held.topic = msg.topic)
    (hback : client.sendMessageBack setting.zlib delayLevel answered attempts beginTimestamp clock
      memory held = back) :
    HeldSound setting msg body back.msg ∧
      (∀ request ∈ back.requests, RequestSound setting msg body request) ∧
      back.header = .consumerSendMsgBackRequestHeader held.commitLogOffset
        (nameToBroker setting.projectGroupPrefix setting.consumerGroup) delayLevel := by
  have hmsg := hheld.consumerSendMessageBack hproject hclient.2 delayLevel
  have htopicBack : isBlank setting.projectGroupPrefix = true →
      (client.consumerSendMessageBack delayLevel held).2.topic = msg.topic := fun hblank ↦
    (topic_consumerSendMessageBack hclient.2 hblank delayLevel).trans (htopic hblank)
  obtain ⟨hproperties, hcopy⟩ := hmsg.newMsg hgroup hproject hclient.1 htopicBack
  have hheader : (client.consumerSendMessageBack delayLevel held).1 =
      .consumerSendMsgBackRequestHeader held.commitLogOffset
        (nameToBroker setting.projectGroupPrefix setting.consumerGroup) delayLevel := by
    rw [← hclient.1, ← hclient.2]
    rfl
  subst hback
  unfold RetryClient.sendMessageBack
  dsimp only
  split_ifs
  · exact ⟨hmsg, fun _ hnone ↦ absurd hnone List.not_mem_nil, hheader⟩
  · split
    all_goals
      exact ⟨hmsg, fun request hrequest ↦
        requestSound_of_requestsOf hclient.2 hproperties hcopy hmsg.bytes hrequest, hheader⟩

end SendBack

end Copies

/-! ### The run -/

/-- The invariant: every copy is one of the message, with its body. -/
structure Delivery.Sound (setting : DeliverySetting) (msg : Message) (body : ByteString)
    (state : Delivery inflate) : Prop where
  sends : ∀ request ∈ state.sends, RequestSound setting msg body request
  backs : ∀ header ∈ state.backs, ∃ offset delayLevel,
    header = .consumerSendMsgBackRequestHeader offset
      (nameToBroker setting.projectGroupPrefix setting.consumerGroup) delayLevel
  records : ∀ record ∈ state.records, RecordSound setting msg body record
  held : ∀ held ∈ state.held, HeldSound setting msg body held

section Runs

variable {setting : DeliverySetting} {msg : Message} {body : ByteString}

/-- Each step keeps the invariant. -/
theorem Delivery.step_sound (hmsg : Deliverable setting msg body)
    (hstream : ∀ body level out, setting.zlib.compress body level = some out →
      inflate.Stream out body)
    {state next : Delivery inflate} {event : DeliveryEvent inflate}
    (hgood : state.CarriesBody setting.zlib event) (hstep : state.step setting event = some next)
    (hstate : state.Sound setting msg body) : next.Sound setting msg body := by
  obtain ⟨-, hgroup, hproject⟩ := hmsg.names
  cases event with
  | store number record =>
    obtain ⟨request, hrequest, hstep⟩ := Option.bind_eq_some_iff.mp hstep
    split_ifs at hstep with hstores
    obtain rfl := Option.some.inj hstep
    have hsound := hstate.sends request (List.mem_of_getElem? hrequest)
    have hrecord := hsound.stored hmsg.own hstream (hsound.carries (hgood request hrequest)) hstores
    exact ⟨hstate.sends, hstate.backs,
      List.forall_mem_append.mpr ⟨hstate.records, List.forall_mem_singleton.mpr hrecord⟩,
      hstate.held⟩
  | takeBack back number taken =>
    obtain ⟨header, hheader, hstep⟩ := Option.bind_eq_some_iff.mp hstep
    obtain ⟨record, hrecord, hstep⟩ := Option.bind_eq_some_iff.mp hstep
    split_ifs at hstep with htakes
    obtain rfl := Option.some.inj hstep
    obtain ⟨offset, delayLevel, rfl⟩ := hstate.backs header (List.mem_of_getElem? hheader)
    have htaken := (hstate.records record (List.mem_of_getElem? hrecord)).takenBack hgroup hproject
      htakes
    exact ⟨hstate.sends, hstate.backs,
      List.forall_mem_append.mpr ⟨hstate.records, List.forall_mem_singleton.mpr htaken⟩,
      hstate.held⟩
  | pull number host minOffset maxOffset =>
    obtain ⟨record, hrecord, rfl⟩ := Option.map_eq_some_iff.mp hstep
    have hheld := (hstate.records record (List.mem_of_getElem? hrecord)).received hmsg.small
      hmsg.nonempty host minOffset maxOffset 0
    exact ⟨hstate.sends, hstate.backs, hstate.records,
      List.forall_mem_append.mpr ⟨hstate.held, List.forall_mem_singleton.mpr hheld⟩⟩
  | done number =>
    rw [step] at hstep
    split_ifs at hstep
    obtain rfl := Option.some.inj hstep
    exact ⟨hstate.sends, hstate.backs, hstate.records,
      fun held hheld ↦ hstate.held held (List.mem_of_mem_eraseIdx hheld)⟩
  | sendBack number client delayLevel answered attempts beginTimestamp clock memory =>
    obtain ⟨held, hheld, hstep⟩ := Option.bind_eq_some_iff.mp hstep
    split_ifs at hstep with hclient
    obtain rfl := Option.some.inj hstep
    obtain ⟨hreset, htopic⟩ :=
      (hstate.held held (List.mem_of_getElem? hheld)).reset hmsg.topic
    rw [← hclient.1] at hreset htopic
    obtain ⟨hback, hrequests, hheader⟩ :=
      hreset.sendMessageBack hgroup hproject hclient htopic rfl
    refine ⟨List.forall_mem_append.mpr ⟨hstate.sends, hrequests⟩,
      List.forall_mem_append.mpr ⟨hstate.backs, List.forall_mem_singleton.mpr ⟨_, _, hheader⟩⟩,
      hstate.records, fun other hother ↦ ?_⟩
    unfold sendBack at hother
    dsimp only at hother
    split_ifs at hother
    · exact hstate.held other (List.mem_of_mem_eraseIdx hother)
    · rcases List.mem_or_eq_of_mem_set hother with hbefore | rfl
      · exact hstate.held other hbefore
      · exact ⟨hback.copy, hback.properties, hback.bytes⟩

variable {settings : RequestSettings} {config : ProducerConfig} {mode : CommunicationMode}
variable {attempts : ℕ → SendAttempt} {beginTimestamp : ℤ}
variable {clock : ℕ → BitVec 64} {memory : ℕ → BitVec 32}

/-- The requests of the producer. -/
theorem Delivery.initial_sound (hmsg : Deliverable setting msg body)
    (hsettings : settings.projectGroupPrefix = setting.projectGroupPrefix) :
    (@Delivery.initial inflate (requestsOf settings config msg clock memory
      (sendDefaultImpl setting.zlib config mode attempts beginTimestamp msg).2)).Sound
        setting msg body := by
  refine ⟨fun request hrequest ↦ ?_, fun _ hnone ↦ absurd hnone List.not_mem_nil,
    fun _ hnone ↦ absurd hnone List.not_mem_nil, fun _ hnone ↦ absurd hnone List.not_mem_nil⟩
  refine requestSound_of_requestsOf hsettings hmsg.properties
    ⟨rfl, fun _ _ ↦ rfl, ?_, fun hblank ↦ Or.inl ⟨?_, Or.inl hmsg.fresh⟩⟩ hmsg.message hrequest
  · exact unseparated_nameToBroker hmsg.names.1 hmsg.names.2.2
  · exact nameToBroker_of_blank hblank

/-- With a project group, a record of the producer's topic is given to a listener under another
topic. -/
theorem received_renamed (group : ProjectGroup) {record : StoredMessage inflate}
    {topic : ByteString} (htopic : record.topic = nameToBroker group.name topic)
    (hfresh : record.properties.find? propertyRetryTopic = none) (consumerGroup : ByteString)
    (host : ByteOrder) (minOffset maxOffset : BitVec 64) (address : ℕ) :
    (resetRetryTopic consumerGroup
      (received host group.name minOffset maxOffset address record).message).topic ≠ topic := by
  have hfind := (find?_received (by decide +kernel) host group.name minOffset maxOffset
    address).trans hfresh
  have hbuild : nameToBroker group.name topic = group.build topic := by
    rw [nameToBroker, if_pos group.notBlank]
    rfl
  have hclear : nameFromBroker group.name record.topic = group.clear (group.build topic) := by
    rw [nameFromBroker, if_pos group.notBlank, htopic, hbuild]
    rfl
  unfold resetRetryTopic
  rw [hfind, if_neg (by simp)]
  change nameFromBroker group.name record.topic ≠ topic
  rw [hclear, Ne, ProjectGroup.clear_build_iff]
  rintro ⟨position, hposition, hnegative⟩
  have hshort : topic.length ≤ record.topic.length := by
    rw [htopic, hbuild]
    unfold ProjectGroup.build VirtualEnvUtil.buildWithProjectGroup
    split_ifs <;> simp
  have hlength := record.topic_length
  have hlt := findLastOf_lt hposition
  rw [toInt32_eq_self (by omega) (by omega)] at hnegative
  omega

/-- In every run in which no request is stored whose body an earlier attempt has compressed: each
message that a listener is given, the first time or after any number of failures, has the body and
the flag of the producer's message, and its properties but for those that client and broker set
themselves. Its topic is the producer's when the clients have no project group; when they have one,
already what a pull makes of a record of the producer's request has another topic. -/
theorem delivered_as_sent (hmsg : Deliverable setting msg body)
    (hsettings : settings.projectGroupPrefix = setting.projectGroupPrefix)
    (hstream : ∀ body level out, setting.zlib.compress body level = some out →
      inflate.Stream out body)
    {sends : List SendMessageRequest}
    (hsends : sends = requestsOf settings config msg clock memory
      (sendDefaultImpl setting.zlib config mode attempts beginTimestamp msg).2)
    {events : List (DeliveryEvent inflate)} {last : Delivery inflate}
    (hrun : (deliverySystem inflate setting).run (Delivery.initial sends) events = some last)
    (hgood : (deliverySystem inflate setting).Along (fun state event ↦
      state.CarriesBody setting.zlib event) (Delivery.initial sends) events) :
    (∀ held ∈ last.held, Delivered setting msg (resetRetryTopic setting.consumerGroup held)) ∧
      ∀ group : ProjectGroup, setting.projectGroupPrefix = group.name → ∀ request ∈ sends,
        ∀ record : StoredMessage inflate,
          StoresAs setting.own request.header request.sent.body record →
            ∀ host minOffset maxOffset address, (resetRetryTopic setting.consumerGroup
              (received host group.name minOffset maxOffset address record).message).topic ≠
                msg.topic := by
  subst hsends
  have hsound : last.Sound setting msg body :=
    @EventSystem.run_invariant_of_along _ _ _
      (fun state event ↦ state.CarriesBody setting.zlib event)
      (fun state ↦ state.Sound setting msg body)
      (fun _ _ _ hgood hstep hstate ↦ Delivery.step_sound hmsg hstream hgood hstep hstate) _ _ _
      hgood hrun (Delivery.initial_sound hmsg hsettings)
  refine ⟨fun held hheld ↦ ?_, fun group hgroup request hrequest record hstores host minOffset
    maxOffset address ↦ ?_⟩
  · obtain ⟨hgiven, htopic⟩ := (hsound.held held hheld).reset hmsg.topic
    exact ⟨hgiven.bytes.trans hmsg.message.symm, hgiven.copy.flag, hgiven.copy.names, htopic⟩
  · obtain ⟨number, hnumber, rfl⟩ := List.mem_mapIdx.mp hrequest
    obtain ⟨htopic, -, -, -, -, -, hproperties⟩ := hstores
    rw [string2messageProperties_of_text hmsg.properties] at hproperties
    refine received_renamed group ?_ ((find?_of_without hproperties hmsg.own).trans hmsg.fresh) _
      host minOffset maxOffset address
    exact htopic.trans (by rw [← hgroup, ← hsettings])

end Runs

/-! ### A message that is consumed twice -/

theorem refused_inverse (body : ByteString) (_level : ℤ) (out : ByteString)
    (hcompress : (none : Option ByteString) = some out) :
    (none : Option ByteString) = some body := absurd hcompress (Option.some_ne_none out).symm

theorem refused_nonempty (_body : ByteString) (_level : ℤ) (out : ByteString)
    (hcompress : (none : Option ByteString) = some out) : out ≠ [] :=
  absurd hcompress (Option.some_ne_none out).symm

/-- A library that refuses. -/
def refusingZlib : Zlib :=
  ⟨fun _ _ ↦ none, fun _ ↦ none, refused_inverse, refused_nonempty⟩

/-- A message in the topic `T` with one property. -/
def keyedMessage : Message :=
  ⟨ofString "T", 5, some [7], OrderedMap.empty.assign (ofString "K") (ofString "v")⟩

/-- The record of the message. -/
def keyedRecord : StoredMessage rejectingInflate where
  storeSize := 0
  magicCode := 0
  bodyCRC := 0
  queueId := 0
  flag := 5
  queueOffset := 0
  physicOffset := 0
  sysFlag := 0
  bornTimestamp := 0
  bornHost := ⟨0, 0⟩
  storeTimestamp := 0
  storeHost := ⟨0, 0⟩
  reconsumeTimes := 0
  preparedTransactionOffset := 0
  body := [7]
  storedBody := [7]
  topic := ofString "T"
  properties := OrderedMap.empty.assign (ofString "K") (ofString "v")
  stored := by rw [if_neg (by decide)]
  body_length := by decide
  topic_plain := by decide
  topic_length := by decide
  properties_plain := by decide +kernel
  properties_length := by decide +kernel

/-- The record of the message that is sent to the retry topic when the request to the broker has
failed. -/
def retriedRecord : StoredMessage rejectingInflate :=
  { keyedRecord with
    topic := ofString "%RETRY%g"
    properties := (((OrderedMap.empty.assign (ofString "K") (ofString "v")).assign
      (ofString "MIN_OFFSET") (ofString "0")).assign (ofString "MAX_OFFSET") (ofString "1")).assign
        propertyRetryTopic (ofString "T")
    topic_plain := by decide +kernel
    topic_length := by decide
    properties_plain := by decide +kernel
    properties_length := by decide +kernel }

/-- A group without a project group. -/
def plainSetting : DeliverySetting := ⟨refusingZlib, ofString "g", [], []⟩

def plainSettings : RequestSettings := ⟨ofString "p", ofString "TBW102", 4, []⟩

def plainConfig : ProducerConfig := ⟨3000, 4096, 5, 131072, false, true, [[110]]⟩

/-- An attempt that finds a broker. -/
def plainAttempt : SendAttempt := ⟨⟨ofString "T", ofString "b", 0⟩, ofString "a", .ok .sendOk, 0⟩

def plainRequests : List SendMessageRequest :=
  requestsOf plainSettings plainConfig keyedMessage (fun _ ↦ 0) (fun _ ↦ 0)
    (sendDefaultImpl refusingZlib plainConfig .sync (fun _ ↦ plainAttempt) 0 keyedMessage).2

/-- The message is pulled, the listener fails, the request to the broker fails, and the new message
is pulled. -/
def consumedTwice : List (DeliveryEvent rejectingInflate) :=
  [.store 0 keyedRecord, .pull 0 .little 0 1,
    .sendBack 0 ⟨ofString "g", plainSettings, plainConfig⟩ 0 false (fun _ ↦ plainAttempt) 0
      (fun _ ↦ 0) (fun _ ↦ 0),
    .store 1 retriedRecord, .pull 1 .little 0 1]

/-- The second time the message comes from the retry topic, and the listener is given it as it was
sent. -/
theorem delivered_as_sent_twice : ∃ last held,
    (deliverySystem rejectingInflate plainSetting).run (Delivery.initial plainRequests)
        consumedTwice = some last ∧ last.held = [held] ∧ held.topic = ofString "%RETRY%g" ∧
      Delivered plainSetting keyedMessage (resetRetryTopic (ofString "g") held) := by
  obtain ⟨last, held, hrun, hheld, htopic⟩ : ∃ last held,
      (deliverySystem rejectingInflate plainSetting).run (Delivery.initial plainRequests)
        consumedTwice = some last ∧ last.held = [held] ∧ held.topic = ofString "%RETRY%g" :=
    ⟨_, _, rfl, rfl, rfl⟩
  have hmsg : Deliverable plainSetting keyedMessage [7] := by
    refine ⟨rfl, ?_, ?_, ?_, ?_, ?_, ?_, ?_⟩ <;> decide +kernel
  have hrefused : ∀ body level out, plainSetting.zlib.compress body level ≠ some out :=
    fun _ _ out ↦ (Option.some_ne_none out).symm
  have hgood : (deliverySystem rejectingInflate plainSetting).Along
      (fun state event ↦ state.CarriesBody plainSetting.zlib event)
      (Delivery.initial plainRequests) consumedTwice := by
    refine EventSystem.along_mono (fun state event _ ↦ ?_) (EventSystem.along_true _ _)
    cases event with
    | store =>
      refine fun _ _ ↦ Or.inr ?_
      rintro ⟨body, out, -, -, hcompress, -⟩
      exact hrefused _ _ _ hcompress
    | takeBack | pull | done | sendBack => trivial
  refine ⟨last, held, hrun, hheld, htopic, ?_⟩
  exact (delivered_as_sent hmsg rfl (fun _ _ _ hcompress ↦ absurd hcompress (hrefused _ _ _)) rfl
    hrun hgood).1 held (hheld ▸ List.mem_singleton_self held)

end RocketMQClient.Consumer
