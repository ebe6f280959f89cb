import RocketMQClient.Consumer.TagFilter
import RocketMQClient.Messages.StoredMessages
import RocketMQClient.Producer.SendRequests

/-!
# Messages that are consumed again

A message that a listener could not consume goes back: `consumerSendMessageBack` asks the broker to
take its own record back, and when that fails `sendMessageBack` sends a new message to the retry
topic of the group through the factory's own producer. When both fail, the client consumes the
message again. `resetRetryTopic` gives a message of the retry topic its topic again before the
listener gets it.

`received` is what a pull makes of a record (`processPullResult_received`). The broker is not part
of the client: `StoresAs` and `TakesBack` are what it is relied on to do with the two requests,
where `own` are the names under which it sets properties itself.
-/

set_option autoImplicit false
set_option relaxedAutoImplicit false

namespace RocketMQClient.Consumer

open Library Messages Producer Protocol Transport

/-! ### The operations of the source -/

/-- The property with the topic of a message that is in the retry topic. -/
def propertyRetryTopic : ByteString := ofString "RETRY_TOPIC"

namespace MixAll

def getRetryTopic (consumerGroup : ByteString) : ByteString := ofString "%RETRY%" ++ consumerGroup

end MixAll

/-- Gives a message of the retry topic its own topic; the loop of the source does so for each. -/
def resetRetryTopic (consumerGroup : ByteString) (msg : Messages.MessageExt) :
    Messages.MessageExt :=
  let retryTopic := (msg.properties.find? propertyRetryTopic).getD []
  if retryTopic.isEmpty = false ∧ MixAll.getRetryTopic consumerGroup = msg.topic then
    { msg with topic := retryTopic }
  else msg

/-- A consumer of a group, with the producer that its factory has for itself. -/
structure RetryClient where
  consumerGroup : ByteString
  settings : RequestSettings
  config : ProducerConfig
  deriving DecidableEq

namespace RetryClient

/-- The header of the request to the broker, and the message, whose topic is changed in place. -/
def consumerSendMessageBack (client : RetryClient) (delayLevel : BitVec 32)
    (msg : Messages.MessageExt) : CommandCustomHeader × Messages.MessageExt :=
  (.consumerSendMsgBackRequestHeader msg.commitLogOffset
      (nameToBroker client.settings.projectGroupPrefix client.consumerGroup) delayLevel,
    { msg with topic := nameToBroker client.settings.projectGroupPrefix msg.topic })

/-- The message that is sent when the request has failed. -/
def newMsg (client : RetryClient) (msg : Messages.MessageExt) : Message where
  topic := MixAll.getRetryTopic client.consumerGroup
  flag := msg.flag.toInt
  body := msg.body
  properties := msg.properties.assign propertyRetryTopic msg.topic

end RetryClient

/-- What `sendMessageBack` leaves: the request to the broker, the requests of the new message, the
message, and whether it returns without an exception. -/
structure SentBack where
  header : CommandCustomHeader
  requests : List SendMessageRequest
  msg : Messages.MessageExt
  ok : Bool

/-- Sends a message back, when the broker answers with success or not, and with the attempts of the
producer of the factory. -/
def RetryClient.sendMessageBack (client : RetryClient) (zlib : Zlib) (delayLevel : BitVec 32)
    (answered : Bool) (attempts : ℕ → SendAttempt) (beginTimestamp : ℤ) (clock : ℕ → BitVec 64)
    (memory : ℕ → BitVec 32) (msg : Messages.MessageExt) : SentBack :=
  let back := client.consumerSendMessageBack delayLevel msg
  if answered then ⟨back.1, [], back.2, true⟩
  else
    let newMsg := client.newMsg back.2
    let sent := sendDefaultImpl zlib client.config .sync attempts beginTimestamp newMsg
    let requests := requestsOf client.settings client.config newMsg clock memory sent.2
    match sent.1 with
    | .ok _ => ⟨back.1, requests, back.2, true⟩
    | .error _ => ⟨back.1, requests, back.2, false⟩

/-! ### The broker -/

section Broker

variable {inflate : Inflate}

/-- The properties without those that the broker sets itself. -/
def without (own : List ByteString) (properties : Properties) : List (ByteString × ByteString) :=
  properties.entries.filter fun property ↦ property.1 ∉ own

/-- A record has what a request to store a message says. -/
def StoresAs (own : List ByteString) (header : CommandCustomHeader) (body : ByteString)
    (record : StoredMessage inflate) : Prop :=
  match header with
  | .sendMessageRequestHeader _ topic _ _ _ sysFlag bornTimestamp flag properties reconsumeTimes =>
    record.topic = topic ∧ record.sysFlag = sysFlag ∧ record.bornTimestamp = bornTimestamp ∧
      record.flag = flag ∧ record.reconsumeTimes = reconsumeTimes ∧ record.storedBody = body ∧
      without own record.properties =
        without own (string2messageProperties OrderedMap.empty properties)
  | _ => False

instance (own : List ByteString) (header : CommandCustomHeader) (body : ByteString)
    (record : StoredMessage inflate) : Decidable (StoresAs own header body record) := by
  cases header
  case sendMessageRequestHeader => exact inferInstanceAs (Decidable (_ ∧ _))
  all_goals exact inferInstanceAs (Decidable False)

/-- A record is the copy in the retry topic of the record that a request to take it back names; the
topic is kept in a property, unless there is one already. -/
def TakesBack (own : List ByteString) (header : CommandCustomHeader)
    (record taken : StoredMessage inflate) : Prop :=
  match header with
  | .consumerSendMsgBackRequestHeader offset group _ =>
    record.physicOffset = offset ∧ taken.topic = MixAll.getRetryTopic group ∧
      taken.flag = record.flag ∧ taken.reconsumeTimes = record.reconsumeTimes + 1 ∧
      taken.body = record.body ∧
      taken.properties.find? propertyRetryTopic =
        some ((record.properties.find? propertyRetryTopic).getD record.topic) ∧
      without (propertyRetryTopic :: own) taken.properties =
        without (propertyRetryTopic :: own) record.properties
  | _ => False

instance (own : List ByteString) (header : CommandCustomHeader)
    (record taken : StoredMessage inflate) : Decidable (TakesBack own header record taken) := by
  cases header
  case consumerSendMsgBackRequestHeader => exact inferInstanceAs (Decidable (_ ∧ _))
  all_goals exact inferInstanceAs (Decidable False)

/-- Properties that differ only under names of the broker have the same values under all others. -/
theorem find?_of_without {own : List ByteString} {first second : Properties}
    (hsame : without own first = without own second) {name : ByteString} (hname : name ∉ own) :
    first.find? name = second.find? name := by
  have hmem : ∀ properties : Properties, ∀ value,
      (name, value) ∈ without own properties ↔ properties.find? name = some value :=
    fun properties value ↦ by
      rw [without, List.mem_filter, OrderedMap.find?_eq_some]
      exact and_iff_left (decide_eq_true hname)
  ext value
  exact (hmem first value).symm.trans (hsame ▸ hmem second value)

/-! ### What a pull makes of a record -/

/-- The message that a pull puts into the process queue for a record. -/
def received (host : ByteOrder) (projectGroupPrefix : ByteString) (minOffset maxOffset : BitVec 64)
    (address : ℕ) (record : StoredMessage inflate) : HeapMessage :=
  (HeapMessage.setTopic ⟨address, record.readBack host⟩
    (nameFromBroker projectGroupPrefix record.topic)).putOffsets minOffset maxOffset

/-- The filter keeps some of the messages. -/
theorem mem_of_mem_filterTags {data : Common.SubscriptionData} {msgList : List HeapMessage}
    {msg : HeapMessage} (hmem : msg ∈ (PullAPIWrapper.filterTags data msgList).2) :
    msg ∈ msgList := by
  unfold PullAPIWrapper.filterTags at hmem
  split_ifs at hmem
  · rw [filterAgain_eq] at hmem
    simp only [List.nil_append] at hmem
    exact List.mem_of_mem_filter hmem
  · exact hmem

/-- Assumes: the records lie in memory one behind the other, and `decodes` returns the messages of
its calls. A pull puts nothing into its list but what it makes of the records. -/
theorem processPullResult_received {host : ByteOrder} {memory : Memory}
    {records : List (StoredMessage inflate)} {tmp : ℤ} {fuel : ℕ} {calls : List DecodeCall}
    {decodes : Option ByteString → List HeapMessage} {projectGroupPrefix : ByteString}
    {state : PullProcess}
    (hholds : Holds memory 0 (records.flatMap (StoredMessage.encode host)))
    (hlength : (records.flatMap (StoredMessage.encode host)).length ≤ 2147483647)
    (hcalls : decodesLoop host inflate memory
      (records.flatMap (StoredMessage.encode host)).length fuel 0 tmp = some calls)
    (hdecodes : (decodes state.pullResult.messageBinary).map (fun msg ↦ some msg.message) =
      calls.map DecodeCall.message) {msg : HeapMessage}
    (hmsg : msg ∈ (PullAPIWrapper.processPullResult decodes projectGroupPrefix
      state).pullResult.msgFoundList) :
    msg ∈ state.pullResult.msgFoundList ∨ ∃ record ∈ records, ∃ address,
      msg = received host projectGroupPrefix state.pullResult.minOffset state.pullResult.maxOffset
        address record := by
  rw [StoredMessage.decodesLoop_encode fuel tmp hholds (le_refl 0) (Int.zero_add _)
    (by exact_mod_cast hlength)] at hcalls
  split_ifs at hcalls
  obtain rfl := Option.some.inj hcalls
  rw [(StoredMessage.callsAt_results hholds hlength).1] at hdecodes
  have hrecord : ∀ found ∈ decodes state.pullResult.messageBinary, ∃ record ∈ records,
      found.message = record.readBack host := fun found hfound ↦ by
    have hmem := List.mem_map_of_mem (f := fun msg : HeapMessage ↦ some msg.message) hfound
    rw [hdecodes] at hmem
    obtain ⟨record, hrecord, hsame⟩ := List.mem_map.mp hmem
    exact ⟨record, hrecord, (Option.some.inj hsame).symm⟩
  have hreceived : ∀ found ∈ (PullAPIWrapper.filterTags state.subscriptionData
      (decodes state.pullResult.messageBinary)).2, ∃ record ∈ records,
      (found.setTopic (nameFromBroker projectGroupPrefix found.message.topic)).putOffsets
          state.pullResult.minOffset state.pullResult.maxOffset =
        received host projectGroupPrefix state.pullResult.minOffset state.pullResult.maxOffset
          found.address record := fun found hfound ↦ by
    obtain ⟨record, hrecord, hsame⟩ := hrecord found (mem_of_mem_filterTags hfound)
    refine ⟨record, hrecord, ?_⟩
    obtain ⟨address, message⟩ := found
    obtain rfl : message = record.readBack host := hsame
    rfl
  unfold PullAPIWrapper.processPullResult at hmsg
  dsimp only at hmsg
  split_ifs at hmsg with hfound hblank
  · rcases List.mem_append.mp hmsg with hbefore | hadded
    · exact Or.inl hbefore
    · obtain ⟨found, hmem, rfl⟩ := List.mem_map.mp hadded
      obtain ⟨record, hrecord, hsame⟩ := hreceived found hmem
      refine Or.inr ⟨record, hrecord, found.address, ?_⟩
      rw [← hsame, nameFromBroker, if_pos hblank]
  · rcases List.mem_append.mp hmsg with hbefore | hadded
    · exact Or.inl hbefore
    · obtain ⟨found, hmem, rfl⟩ := List.mem_map.mp hadded
      obtain ⟨record, hrecord, hsame⟩ := hreceived found hmem
      refine Or.inr ⟨record, hrecord, found.address, ?_⟩
      rw [← hsame, nameFromBroker, if_neg hblank]
      rfl
  · exact Or.inl hmsg

end Broker

end RocketMQClient.Consumer
