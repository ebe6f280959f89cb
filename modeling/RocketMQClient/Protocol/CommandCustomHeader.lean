import RocketMQClient.Factory.TopicRoute
import RocketMQClient.Protocol.JsonText

/-!
# Custom headers

The `CommandCustomHeader` of a command has the fields of a request or a response. `Encode` writes
them as an object by hand, numbers with or without quotes, or leaves the text alone; `Decode` reads
the headers of responses and of the one request that a broker sends, taking numbers from strings.
-/

set_option autoImplicit false
set_option relaxedAutoImplicit false

namespace RocketMQClient.Protocol

open Library Factory

/-! ### The classes -/

/-- `CommandCustomHeader`, a constructor for each of its classes with the fields of the class. -/
inductive CommandCustomHeader where
  | getRouteInfoRequestHeader (topic : ByteString)
  | subscriptionGroupConfigHeader (groupName : ByteString)
      (consumeEnable consumeFromMinEnable consumeBroadcastEnable : Bool)
      (retryQueueNums retryMaxTimes : BitVec 32)
      (brokerId whichBrokerWhenConsumeSlowly : BitVec 64)
  | createTopicRequestHeader (topic defaultTopic : ByteString)
      (readQueueNums writeQueueNums perm : BitVec 32) (topicFilterType : ByteString)
  | sendMessageRequestHeader (producerGroup topic defaultTopic : ByteString)
      (defaultTopicQueueNums queueId sysFlag : BitVec 32) (bornTimestamp : BitVec 64)
      (flag : BitVec 32) (properties : ByteString) (reconsumeTimes : BitVec 32)
  | sendMessageResponseHeader (msgId : ByteString) (queueId : BitVec 32) (queueOffset : BitVec 64)
  | pullMessageRequestHeader (consumerGroup topic : ByteString) (queueId : BitVec 32)
      (queueOffset : BitVec 64) (maxMsgNums sysFlag : BitVec 32)
      (commitOffset suspendTimeoutMillis : BitVec 64) (subscription : ByteString)
      (subVersion : BitVec 64)
  | pullMessageResponseHeader
      (suggestWhichBrokerId nextBeginOffset minOffset maxOffset : BitVec 64)
  | getConsumerListByGroupRequestHeader (consumerGroup : ByteString)
  | getConsumerListByGroupResponseHeader
  | consumerSendMsgBackRequestHeader (offset : BitVec 64) (group : ByteString)
      (delayLevel : BitVec 32)
  | updateConsumerOffsetRequestHeader (consumerGroup topic : ByteString) (queueId : BitVec 32)
      (commitOffset : BitVec 64)
  | queryConsumerOffsetRequestHeader (consumerGroup topic : ByteString) (queueId : BitVec 32)
  | queryConsumerOffsetResponseHeader (offset : BitVec 64)
  | searchOffsetRequestHeader (topic : ByteString) (queueId : BitVec 32) (timestamp : BitVec 64)
  | searchOffsetResponseHeader (offset : BitVec 64)
  | getMinOffsetRequestHeader (topic : ByteString) (queueId : BitVec 32)
  | getMaxOffsetRequestHeader (topic : ByteString) (queueId : BitVec 32)
  | getEarliestMsgStoretimeRequestHeader (topic : ByteString) (queueId : BitVec 32)
  | getEarliestMsgStoretimeResponseHeader (timestamp : BitVec 64)
  | notifyConsumerIdsChangedRequestHeader (consumerGroup : ByteString)
  | unregisterClientRequestHeader (clientID producerGroup consumerGroup : ByteString)
  | viewMessageRequestHeader (offset : BitVec 64)
  | responseHaveNoCustomHeader
  deriving DecidableEq

/-- A value that is pasted into the text of a header. -/
inductive Pasted where
  /-- A string between quotes. -/
  | text (value : ByteString)
  | number (value : ℤ)
  | quotedNumber (value : ℤ)

/-- The text of a pasted value. -/
def Pasted.paste : Pasted → ByteString
  | .text value => quoted value
  | .number value => decimal value
  | .quotedNumber value => quoted (decimal value)

/-- The stream output of a `bool`. -/
def ofBool (value : Bool) : ℤ := if value then 1 else 0

namespace CommandCustomHeader

/-- The members that the `Encode` of a class writes; four classes with fields and one without have
an empty `Encode`. -/
def written : CommandCustomHeader → Option (List (ByteString × Pasted))
  | getRouteInfoRequestHeader topic => some [(ofString "topic", .text topic)]
  | subscriptionGroupConfigHeader groupName consumeEnable consumeFromMinEnable
      consumeBroadcastEnable retryQueueNums retryMaxTimes brokerId whichBrokerWhenConsumeSlowly =>
    some [(ofString "groupName", .text groupName),
      (ofString "consumeEnable", .quotedNumber (ofBool consumeEnable)),
      (ofString "consumeFromMinEnable", .number (ofBool consumeFromMinEnable)),
      (ofString "consumeBroadcastEnable", .number (ofBool consumeBroadcastEnable)),
      (ofString "retryQueueNums", .number retryQueueNums.toInt),
      (ofString "retryMaxTimes", .number retryMaxTimes.toInt),
      (ofString "brokerId", .number brokerId.toInt),
      (ofString "whichBrokerWhenConsumeSlowly", .quotedNumber whichBrokerWhenConsumeSlowly.toInt)]
  | createTopicRequestHeader topic defaultTopic readQueueNums writeQueueNums perm
      topicFilterType =>
    some [(ofString "topic", .text topic), (ofString "defaultTopic", .text defaultTopic),
      (ofString "readQueueNums", .number readQueueNums.toInt),
      (ofString "writeQueueNums", .number writeQueueNums.toInt),
      (ofString "perm", .number perm.toInt), (ofString "topicFilterType", .text topicFilterType)]
  | sendMessageRequestHeader producerGroup topic defaultTopic defaultTopicQueueNums queueId sysFlag
      bornTimestamp flag properties reconsumeTimes =>
    some [(ofString "producerGroup", .text producerGroup), (ofString "topic", .text topic),
      (ofString "defaultTopic", .text defaultTopic),
      (ofString "defaultTopicQueueNums", .number defaultTopicQueueNums.toInt),
      (ofString "queueId", .number queueId.toInt), (ofString "sysFlag", .number sysFlag.toInt),
      (ofString "bornTimestamp", .number bornTimestamp.toInt),
      (ofString "flag", .number flag.toInt), (ofString "properties", .text properties),
      (ofString "reconsumeTimes", .number reconsumeTimes.toInt)]
  | sendMessageResponseHeader msgId queueId queueOffset =>
    some [(ofString "msgId", .text msgId), (ofString "queueId", .number queueId.toInt),
      (ofString "queueOffset", .number queueOffset.toInt)]
  | pullMessageRequestHeader consumerGroup topic queueId queueOffset maxMsgNums sysFlag commitOffset
      suspendTimeoutMillis subscription subVersion =>
    some [(ofString "consumerGroup", .text consumerGroup), (ofString "topic", .text topic),
      (ofString "queueId", .number queueId.toInt),
      (ofString "queueOffset", .number queueOffset.toInt),
      (ofString "maxMsgNums", .number maxMsgNums.toInt),
      (ofString "sysFlag", .number sysFlag.toInt),
      (ofString "commitOffset", .number commitOffset.toInt),
      (ofString "suspendTimeoutMillis", .number suspendTimeoutMillis.toInt),
      (ofString "subscription", .text subscription),
      (ofString "subVersion", .number subVersion.toInt)]
  | pullMessageResponseHeader suggestWhichBrokerId nextBeginOffset minOffset maxOffset =>
    some [(ofString "suggestWhichBrokerId", .number suggestWhichBrokerId.toInt),
      (ofString "nextBeginOffset", .number nextBeginOffset.toInt),
      (ofString "minOffset", .number minOffset.toInt),
      (ofString "maxOffset", .number maxOffset.toInt)]
  | getConsumerListByGroupRequestHeader consumerGroup =>
    some [(ofString "consumerGroup", .text consumerGroup)]
  | getConsumerListByGroupResponseHeader => some []
  | consumerSendMsgBackRequestHeader offset group delayLevel =>
    some [(ofString "offset", .quotedNumber offset.toInt), (ofString "group", .text group),
      (ofString "delayLevel", .quotedNumber delayLevel.toInt)]
  | updateConsumerOffsetRequestHeader consumerGroup topic queueId commitOffset =>
    some [(ofString "consumerGroup", .text consumerGroup), (ofString "topic", .text topic),
      (ofString "queueId", .quotedNumber queueId.toInt),
      (ofString "commitOffset", .quotedNumber commitOffset.toInt)]
  | queryConsumerOffsetRequestHeader consumerGroup topic queueId =>
    some [(ofString "consumerGroup", .text consumerGroup), (ofString "topic", .text topic),
      (ofString "queueId", .quotedNumber queueId.toInt)]
  | searchOffsetRequestHeader topic queueId timestamp =>
    some [(ofString "topic", .text topic), (ofString "queueId", .quotedNumber queueId.toInt),
      (ofString "timestamp", .quotedNumber timestamp.toInt)]
  | getMinOffsetRequestHeader topic queueId | getMaxOffsetRequestHeader topic queueId
  | getEarliestMsgStoretimeRequestHeader topic queueId =>
    some [(ofString "topic", .text topic), (ofString "queueId", .quotedNumber queueId.toInt)]
  | unregisterClientRequestHeader clientID producerGroup consumerGroup =>
    some [(ofString "clientID", .text clientID), (ofString "producerGroup", .text producerGroup),
      (ofString "consumerGroup", .text consumerGroup)]
  | viewMessageRequestHeader offset => some [(ofString "offset", .quotedNumber offset.toInt)]
  | queryConsumerOffsetResponseHeader _ | searchOffsetResponseHeader _
  | getEarliestMsgStoretimeResponseHeader _ | notifyConsumerIdsChangedRequestHeader _
  | responseHaveNoCustomHeader => none

/-- `Encode`, which assigns the text or leaves it alone. -/
def encode (header : CommandCustomHeader) (outData : ByteString) : ByteString :=
  match header.written with
  | none => outData
  | some members => pasteObject (members.map fun member ↦ (member.1, member.2.paste))

end CommandCustomHeader

/-! ### Request codes -/

/-- The codes of the requests whose answers have a decoder, or that a broker sends. -/
def sendMessageValue : ℤ := 10

def pullMessageValue : ℤ := 11

def queryConsumerOffsetValue : ℤ := 14

def searchOffsetByTimestampValue : ℤ := 29

def getMaxOffsetValue : ℤ := 30

def getMinOffsetValue : ℤ := 31

def getEarliestMsgStoretimeValue : ℤ := 32

def heartBeatValue : ℤ := 34

def unregisterClientValue : ℤ := 35

def getConsumerListByGroupValue : ℤ := 38

def notifyConsumerIdsChangedValue : ℤ := 40

/-! ### Decoding -/

/-- How the decoding of a frame fails other than by returning a null pointer. -/
inductive DecodeFailure where
  | value (error : ValueError)
  | bufferOverrun
  deriving DecidableEq

/-- The value of a document, if it can be read. -/
def readDocument (document : ByteString) : Except DecodeFailure (Option Value) :=
  match parse document with
  | .ok value => .ok (some value)
  | .error .bufferOverrun => .error .bufferOverrun
  | .error _ => .ok none

/-- `operator[]`, in the decoding of a frame. -/
def memberOf (value : Value) (name : String) : Except DecodeFailure Value :=
  (value.member (ofString name)).mapError .value

/-- `asString` of a member. -/
def stringOf (value : Value) (name : String) : Except DecodeFailure ByteString := do
  let member ← memberOf value name
  member.asString.mapError .value

/-- `asInt` of a member. -/
def intOf (value : Value) (name : String) : Except DecodeFailure (BitVec 32) := do
  let member ← memberOf value name
  let number ← member.asInt.mapError .value
  return BitVec.ofInt 32 number

/-- `atoi` of the string of a member. -/
def intTextOf (value : Value) (name : String) : Except DecodeFailure (BitVec 32) := do
  let text ← stringOf value name
  return BitVec.ofInt 32 (atoi text)

/-- `str2ll` of the string of a member. -/
def longTextOf (value : Value) (name : String) : Except DecodeFailure (BitVec 64) := do
  let text ← stringOf value name
  return BitVec.ofInt 64 (atoi text)

namespace CommandCustomHeader

/-- Reads `extFields` of a document; a document that cannot be read gives a null pointer. -/
def decodeExtFields (document : ByteString)
    (decodeExt : Value → Except DecodeFailure CommandCustomHeader) :
    Except DecodeFailure (Option CommandCustomHeader) := do
  match ← readDocument document with
  | none => return none
  | some object =>
    let ext ← memberOf object "extFields"
    let header ← decodeExt ext
    return some header

/-- `SendMessageResponseHeader::Decode` on `extFields`. -/
def decodeSendMessageResponse (ext : Value) : Except DecodeFailure CommandCustomHeader := do
  let msgId ← stringOf ext "msgId"
  let queueId ← intTextOf ext "queueId"
  let queueOffset ← longTextOf ext "queueOffset"
  return sendMessageResponseHeader msgId queueId queueOffset

/-- `PullMessageResponseHeader::Decode` on `extFields`. -/
def decodePullMessageResponse (ext : Value) : Except DecodeFailure CommandCustomHeader := do
  let suggestWhichBrokerId ← longTextOf ext "suggestWhichBrokerId"
  let nextBeginOffset ← longTextOf ext "nextBeginOffset"
  let minOffset ← longTextOf ext "minOffset"
  let maxOffset ← longTextOf ext "maxOffset"
  return pullMessageResponseHeader suggestWhichBrokerId nextBeginOffset minOffset maxOffset

/-- `QueryConsumerOffsetResponseHeader::Decode` on `extFields`. -/
def decodeQueryConsumerOffsetResponse (ext : Value) :
    Except DecodeFailure CommandCustomHeader := do
  let queueOffset ← longTextOf ext "offset"
  return queryConsumerOffsetResponseHeader queueOffset

/-- `SearchOffsetResponseHeader::Decode` on `extFields`. -/
def decodeSearchOffsetResponse (ext : Value) : Except DecodeFailure CommandCustomHeader := do
  let queueOffset ← longTextOf ext "offset"
  return searchOffsetResponseHeader queueOffset

/-- `GetEarliestMsgStoretimeResponseHeader::Decode` on `extFields`. -/
def decodeGetEarliestMsgStoretimeResponse (ext : Value) :
    Except DecodeFailure CommandCustomHeader := do
  let qTimestamp ← longTextOf ext "timestamp"
  return getEarliestMsgStoretimeResponseHeader qTimestamp

/-- `NotifyConsumerIdsChangedRequestHeader::Decode` on `extFields`. -/
def decodeNotifyConsumerIdsChangedRequest (ext : Value) :
    Except DecodeFailure CommandCustomHeader := do
  let consumerGroup ← stringOf ext "consumerGroup"
  return notifyConsumerIdsChangedRequestHeader consumerGroup

/-- `CommandCustomHeader::Decode` for the code of a request. -/
def decode (code : ℤ) (document : ByteString) (isResponseType : Bool) :
    Except DecodeFailure (Option CommandCustomHeader) :=
  if isResponseType then
    if code = sendMessageValue then decodeExtFields document decodeSendMessageResponse
    else if code = pullMessageValue then decodeExtFields document decodePullMessageResponse
    else if code = getMaxOffsetValue ∨ code = getMinOffsetValue ∨
        code = queryConsumerOffsetValue then
      decodeExtFields document decodeQueryConsumerOffsetResponse
    else if code = getConsumerListByGroupValue then .ok (some getConsumerListByGroupResponseHeader)
    else if code = heartBeatValue ∨ code = unregisterClientValue then .ok none
    else if code = searchOffsetByTimestampValue then
      decodeExtFields document decodeSearchOffsetResponse
    else if code = getEarliestMsgStoretimeValue then
      decodeExtFields document decodeGetEarliestMsgStoretimeResponse
    else .ok none
  else if code = notifyConsumerIdsChangedValue then
    decodeExtFields document decodeNotifyConsumerIdsChangedRequest
  else .ok none

end CommandCustomHeader

end RocketMQClient.Protocol
