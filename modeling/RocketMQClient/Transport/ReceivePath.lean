import RocketMQClient.Common.VirtualEnvUtil
import RocketMQClient.Consumer.PullRequest
import RocketMQClient.Factory.ClientFactory
import RocketMQClient.Producer.SendRetry
import RocketMQClient.Protocol.CommandDecode

/-!
# The receive path

A frame that was received is processed by `ProcessData`: it is decoded to a command, a response is
matched with the request that waits under its opaque, the custom header is made, and the command is
handed to the consumer of the request or to the processor of its code. `Ending` is how this may end;
`ReceiveFault` is how it breaks off: in the decoding of the frame, at a null pointer, or at a custom
header of another class.

`receive_path_total_iff` says for which frames and tables it ends properly. The table changes at
most at the opaque of the frame (`ownEntryOnly_processData`).

The custom header is where the path breaks. Its class is that of the request code that waits, or of
the code of a request from the broker, and only some consumers read it: `reads_of_decode` says that
a consumer finds the class that it reads, and `makeCustomHeader_succeeds_iff` when the members of
the document are convertible. A response without `extFields` has no header, and a consumer that
reads it meets the null pointer.
-/

set_option autoImplicit false
set_option relaxedAutoImplicit false

namespace RocketMQClient.Transport

open Library Common Protocol Messages Factory Producer Consumer

/-! ### Consumers of responses -/

/-- `SendResult`. -/
structure SendResult where
  sendStatus : SendStatus
  msgId : ByteString
  messageQueue : MessageQueue
  queueOffset : BitVec 64
  deriving DecidableEq

/-- `PullResultExt`, with the body of the response. -/
structure PullResultExt where
  pullStatus : PullStatus
  nextBeginOffset : BitVec 64
  minOffset : BitVec 64
  maxOffset : BitVec 64
  suggestWhichBrokerId : BitVec 64
  messageBinary : ByteString
  deriving DecidableEq

/-- What a frame that is handled leads to. -/
inductive Answer where
  | sent (result : SendResult)
  | pulled (result : PullResultExt)
  | offset (value : BitVec 64)
  /-- The response to a request of another code. -/
  | response (response : RemotingCommand)
  /-- `rebalanceImmediately`, for a group that is logged if there is a header. -/
  | rebalance (consumerGroup : Option ByteString)
  /-- A request that its processor ignores. -/
  | ignored
  deriving DecidableEq

/-- How the processing of a frame ends. -/
inductive Ending where
  | handled (answer : Answer)
  | dropped
  | mqException (exception : MQException)
  deriving DecidableEq

/-- How the processing of a frame breaks off. -/
inductive ReceiveFault where
  | frame (failure : FrameFailure)
  | nullCommand
  | nullCustomHeader
  | otherCustomHeader
  deriving DecidableEq

/-- A custom header that is cast to a class and read. -/
def readCustomHeader (response : RemotingCommand) (read : CommandCustomHeader → Option Answer) :
    Except ReceiveFault Ending :=
  match response.customHeader with
  | none => .error .nullCustomHeader
  | some header =>
    match read header with
    | none => .error .otherCustomHeader
    | some answer => .ok (.handled answer)

/-- The exception for a response with another code. -/
def exceptionOf (exceptionClass : ExceptionClass) (response : RemotingCommand) : MQException :=
  ⟨exceptionClass, response.remark, response.code.toInt⟩

/-- The status of a send for the code of its response. -/
def sendStatusOf (code : BitVec 32) : Option SendStatus :=
  if code = 10 then some .flushDiskTimeout
  else if code = 12 then some .flushSlaveTimeout
  else if code = 11 then some .slaveNotAvailable
  else if code = 0 then some .sendOk
  else none

/-- The status of a pull for the code of its response. -/
def pullStatusOf (code : BitVec 32) : Option PullStatus :=
  if code = 0 then some .found
  else if code = 19 then some .noNewMsg
  else if code = 20 then some .noMatchedMsg
  else if code = 21 then some .offsetIllegal
  else none

/-- `processSendResponse`. -/
def processSendResponse (topic brokerName projectGroupPrefix : ByteString)
    (response : RemotingCommand) : Except ReceiveFault Ending :=
  match sendStatusOf response.code with
  | none => .ok (.mqException (exceptionOf .broker response))
  | some sendStatus =>
    readCustomHeader response fun
      | .sendMessageResponseHeader msgId queueId queueOffset =>
        let resultTopic := if isBlank projectGroupPrefix then topic
          else VirtualEnvUtil.clearProjectGroup topic projectGroupPrefix
        some (.sent ⟨sendStatus, msgId, ⟨resultTopic, brokerName, queueId.toInt⟩, queueOffset⟩)
      | _ => none

/-- `processPullResponse`. -/
def processPullResponse (response : RemotingCommand) : Except ReceiveFault Ending :=
  match pullStatusOf response.code with
  | none => .ok (.mqException (exceptionOf .broker response))
  | some pullStatus =>
    readCustomHeader response fun
      | .pullMessageResponseHeader suggestWhichBrokerId nextBeginOffset minOffset maxOffset =>
        some (.pulled ⟨pullStatus, nextBeginOffset, minOffset, maxOffset, suggestWhichBrokerId,
          response.body⟩)
      | _ => none

/-- The end of a request for an offset: the offset of a successful response. -/
def offsetOfResponse (exceptionClass : ExceptionClass) (response : RemotingCommand)
    (read : CommandCustomHeader → Option Answer) : Except ReceiveFault Ending :=
  if response.code = 0 then readCustomHeader response read
  else .ok (.mqException (exceptionOf exceptionClass response))

/-- `getOffset` of a `QueryConsumerOffsetResponseHeader`, which is also the header of the answers to
`getMaxOffset` and `getMinOffset`. -/
def readQueryOffset : CommandCustomHeader → Option Answer
  | .queryConsumerOffsetResponseHeader offset => some (.offset offset)
  | _ => none

/-- The end of `queryConsumerOffset`. -/
def queryConsumerOffset (response : RemotingCommand) : Except ReceiveFault Ending :=
  offsetOfResponse .broker response readQueryOffset

/-- The end of `getMaxOffset`. -/
def getMaxOffset (response : RemotingCommand) : Except ReceiveFault Ending :=
  offsetOfResponse .client response readQueryOffset

/-- The end of `getMinOffset`. -/
def getMinOffset (response : RemotingCommand) : Except ReceiveFault Ending :=
  offsetOfResponse .client response readQueryOffset

/-- The end of `searchOffset`. -/
def searchOffset (response : RemotingCommand) : Except ReceiveFault Ending :=
  offsetOfResponse .client response fun
    | .searchOffsetResponseHeader offset => some (.offset offset)
    | _ => none

/-- The end of `getEarliestMsgStoretime`. -/
def getEarliestMsgStoretime (response : RemotingCommand) : Except ReceiveFault Ending :=
  offsetOfResponse .client response fun
    | .getEarliestMsgStoretimeResponseHeader timestamp => some (.offset timestamp)
    | _ => none

/-! ### Processing a frame -/

/-- What an entry of `m_responseTable` waits for. The consumers of the requests of other codes do
not use the custom header. -/
inductive WaitingRequest where
  | sendMessage (topic brokerName projectGroupPrefix : ByteString)
  | pullMessage
  | queryConsumerOffset
  | getMaxOffset
  | getMinOffset
  | searchOffset
  | getEarliestMsgStoretime
  | other (requestCode : BitVec 32)

namespace WaitingRequest

/-- `getRequestCode`. -/
def requestCode : WaitingRequest → ℤ
  | sendMessage _ _ _ => sendMessageValue
  | pullMessage => pullMessageValue
  | queryConsumerOffset => queryConsumerOffsetValue
  | getMaxOffset => getMaxOffsetValue
  | getMinOffset => getMinOffsetValue
  | searchOffset => searchOffsetByTimestampValue
  | getEarliestMsgStoretime => getEarliestMsgStoretimeValue
  | other requestCode => requestCode.toInt

/-- What the consumer of a request makes of its response. -/
def consume (request : WaitingRequest) (response : RemotingCommand) : Except ReceiveFault Ending :=
  match request with
  | sendMessage topic brokerName projectGroupPrefix =>
    processSendResponse topic brokerName projectGroupPrefix response
  | pullMessage => processPullResponse response
  | queryConsumerOffset => Transport.queryConsumerOffset response
  | getMaxOffset => Transport.getMaxOffset response
  | getMinOffset => Transport.getMinOffset response
  | searchOffset => Transport.searchOffset response
  | getEarliestMsgStoretime => Transport.getEarliestMsgStoretime response
  | other _ => .ok (.handled (.response response))

end WaitingRequest

/-- `extFields_STRING`. -/
def extFieldsString : ByteString := ofString "\"extFields\":"

/-- `MakeCustomHeader`; `strstr` finds the string in the document. -/
def makeCustomHeader (command : RemotingCommand) (code : ℤ) (frame : ByteString) :
    Except FrameFailure RemotingCommand :=
  if extFieldsString <:+: frameDocument frame then do
    let customHeader ←
      (CommandCustomHeader.decode code (frameDocument frame) command.isResponseType).mapError
        .decode
    return { command with customHeader := customHeader }
  else .ok command

/-- `checkTransactionState` is another request that has a processor, which ignores it. -/
def checkTransactionStateValue : BitVec 32 := 39

/-- `processRequestCommand` with the processors that the client registers. -/
def processRequestCommand (command : RemotingCommand) : Ending :=
  if command.code.toInt = notifyConsumerIdsChangedValue then
    .handled (.rebalance (match command.customHeader with
      | some (.notifyConsumerIdsChangedRequestHeader consumerGroup) => some consumerGroup
      | _ => none))
  else if command.code = checkTransactionStateValue then .handled .ignored
  else .dropped

/-- `processResponseCommand`, and what the consumer makes of the response. -/
def processResponseCommand (command : RemotingCommand) (resp : Option WaitingRequest) :
    Except ReceiveFault Ending :=
  match resp with
  | none => .ok .dropped
  | some request => request.consume command

/-- `processMessageReceived`. -/
def processMessageReceived (command : RemotingCommand) (resp : Option WaitingRequest) :
    Except ReceiveFault Ending :=
  if command.isResponseType then processResponseCommand command resp
  else .ok (processRequestCommand command)

/-- The request that waits for a command. -/
def responseFuture (command : RemotingCommand) (table : OrderedMap ℤ WaitingRequest) :
    Option WaitingRequest :=
  if command.isResponseType then table.find? command.opaqueId.toInt else none

/-- The code for which the custom header is made; it is zero for a response that nothing waits
for. -/
def headerCode (command : RemotingCommand) (resp : Option WaitingRequest) : ℤ :=
  if command.isResponseType then resp.elim 0 WaitingRequest.requestCode else command.code.toInt

/-- `ProcessData`: how it ends, and the table that it leaves. -/
def TcpRemotingClient.processData (frame : ByteString) (table : OrderedMap ℤ WaitingRequest) :
    Except ReceiveFault Ending × OrderedMap ℤ WaitingRequest :=
  match RemotingCommand.decode frame with
  | .error failure => (.error (.frame failure), table)
  | .ok none => (.error .nullCommand, table)
  | .ok (some command) =>
    let resp := responseFuture command table
    let code := headerCode command resp
    let received : Except FrameFailure RemotingCommand :=
      if 0 < code then makeCustomHeader command code frame else .ok command
    (received.mapError .frame >>= fun command ↦ processMessageReceived command resp,
      if resp.isSome then table.erase command.opaqueId.toInt else table)

/-! ### The condition -/

/-- The codes of a response for which the consumer of a request reads the custom header. -/
def WaitingRequest.ReadsHeader (request : WaitingRequest) (code : BitVec 32) : Prop :=
  match request with
  | sendMessage _ _ _ => code = 0 ∨ code = 10 ∨ code = 11 ∨ code = 12
  | pullMessage => code = 0 ∨ code = 19 ∨ code = 20 ∨ code = 21
  | other _ => False
  | _ => code = 0

/-- The custom header of a frame can be made, and is there if it is read. -/
structure HeaderReceivable (frame : ByteString) (document : Value)
    (resp : Option WaitingRequest) : Prop where
  typed : 0 < headerCode (commandAt document) resp → extFieldsString <:+: frameDocument frame →
    ∀ names ∈ CommandCustomHeader.members (headerCode (commandAt document) resp)
      (commandAt document).isResponseType,
      CommandCustomHeader.ExtTyped names (document.memberAt "extFields")
  present : ∀ request ∈ resp, request.ReadsHeader (commandAt document).code →
    extFieldsString <:+: frameDocument frame

/-- The frame is that of a command, and its custom header can be received. -/
def Receivable (frame : ByteString) (table : OrderedMap ℤ WaitingRequest) : Prop :=
  ∃ document, IsCommand frame document ∧
    HeaderReceivable frame document (responseFuture (commandAt document) table)

/-- The table is changed at most at the opaque of the frame. -/
def OwnEntryOnly (frame : ByteString) (table after : OrderedMap ℤ WaitingRequest) : Prop :=
  ∀ key, after.find? key ≠ table.find? key →
    ∃ document, parse (frameDocument frame) = .ok document ∧
      key = (document.memberAt "opaque").toInt.toInt

/-! ### Consumers -/

variable {request : WaitingRequest} {response command : RemotingCommand} {frame : ByteString}
  {document : Value} {table : OrderedMap ℤ WaitingRequest} {resp : Option WaitingRequest}

/-- The class of the custom header that a consumer reads. -/
def WaitingRequest.Reads (request : WaitingRequest) (header : CommandCustomHeader) : Prop :=
  match request with
  | sendMessage _ _ _ =>
    ∃ msgId queueId queueOffset, header = .sendMessageResponseHeader msgId queueId queueOffset
  | pullMessage => ∃ suggestWhichBrokerId nextBeginOffset minOffset maxOffset,
      header = .pullMessageResponseHeader suggestWhichBrokerId nextBeginOffset minOffset maxOffset
  | queryConsumerOffset | getMaxOffset | getMinOffset =>
    ∃ offset, header = .queryConsumerOffsetResponseHeader offset
  | searchOffset => ∃ offset, header = .searchOffsetResponseHeader offset
  | getEarliestMsgStoretime =>
    ∃ timestamp, header = .getEarliestMsgStoretimeResponseHeader timestamp
  | other _ => True

theorem readCustomHeader_succeeds {read : CommandCustomHeader → Option Answer}
    {header : CommandCustomHeader} {answer : Answer} (hheader : response.customHeader = some header)
    (hread : read header = some answer) : Succeeds (readCustomHeader response read) := by
  rw [readCustomHeader, hheader]
  simp only [hread]
  exact succeeds_ok _

theorem readCustomHeader_fails {read : CommandCustomHeader → Option Answer}
    (hheader : response.customHeader = none) : ¬ Succeeds (readCustomHeader response read) := by
  rw [readCustomHeader, hheader]
  exact not_succeeds_error _

theorem sendStatusOf_eq_none_iff (code : BitVec 32) :
    sendStatusOf code = none ↔ ¬ (code = 0 ∨ code = 10 ∨ code = 11 ∨ code = 12) := by
  rw [sendStatusOf]
  split_ifs <;> simp only [false_iff, true_iff, not_not] <;> tauto

theorem pullStatusOf_eq_none_iff (code : BitVec 32) :
    pullStatusOf code = none ↔ ¬ (code = 0 ∨ code = 19 ∨ code = 20 ∨ code = 21) := by
  rw [pullStatusOf]
  split_ifs <;> simp only [false_iff, true_iff, not_not] <;> tauto

/-- A consumer succeeds on a response whose header it does not read. -/
theorem consume_succeeds_of_not_reads (hreads : ¬ request.ReadsHeader response.code) :
    Succeeds (request.consume response) := by
  have hoffset : ∀ exceptionClass read, response.code ≠ 0 →
      Succeeds (offsetOfResponse exceptionClass response read) := fun exceptionClass read hcode ↦ by
    rw [offsetOfResponse, if_neg hcode]
    exact succeeds_ok _
  cases request with
  | sendMessage topic brokerName projectGroupPrefix =>
    show Succeeds (processSendResponse topic brokerName projectGroupPrefix response)
    rw [processSendResponse, (sendStatusOf_eq_none_iff _).mpr hreads]
    exact succeeds_ok _
  | pullMessage =>
    show Succeeds (processPullResponse response)
    rw [processPullResponse, (pullStatusOf_eq_none_iff _).mpr hreads]
    exact succeeds_ok _
  | other requestCode => exact succeeds_ok _
  | _ => exact hoffset _ _ hreads

/-- A consumer succeeds on a custom header of the class that it reads. -/
theorem consume_succeeds_of_reads {header : CommandCustomHeader}
    (hheader : response.customHeader = some header) (hreads : request.Reads header) :
    Succeeds (request.consume response) := by
  have hoffset : ∀ exceptionClass read answer, read header = some answer →
      Succeeds (offsetOfResponse exceptionClass response read) :=
    fun exceptionClass read answer hread ↦ by
      rw [offsetOfResponse]
      split
      · exact readCustomHeader_succeeds hheader hread
      · exact succeeds_ok _
  cases request with
  | sendMessage topic brokerName projectGroupPrefix =>
    obtain ⟨msgId, queueId, queueOffset, rfl⟩ := hreads
    show Succeeds (processSendResponse topic brokerName projectGroupPrefix response)
    rw [processSendResponse]
    cases sendStatusOf response.code with
    | none => exact succeeds_ok _
    | some sendStatus => exact readCustomHeader_succeeds hheader rfl
  | pullMessage =>
    obtain ⟨suggestWhichBrokerId, nextBeginOffset, minOffset, maxOffset, rfl⟩ := hreads
    show Succeeds (processPullResponse response)
    rw [processPullResponse]
    cases pullStatusOf response.code with
    | none => exact succeeds_ok _
    | some pullStatus => exact readCustomHeader_succeeds hheader rfl
  | other requestCode => exact succeeds_ok _
  | _ =>
    obtain ⟨offset, rfl⟩ := hreads
    exact hoffset _ _ _ rfl

/-- A consumer dereferences the null pointer of a header that it reads. -/
theorem consume_fails (hheader : response.customHeader = none)
    (hreads : request.ReadsHeader response.code) : ¬ Succeeds (request.consume response) := by
  have hoffset : ∀ exceptionClass read, response.code = 0 →
      ¬ Succeeds (offsetOfResponse exceptionClass response read) := by
    intro exceptionClass read hcode
    rw [offsetOfResponse, if_pos hcode]
    exact readCustomHeader_fails hheader
  cases request with
  | sendMessage topic brokerName projectGroupPrefix =>
    show ¬ Succeeds (processSendResponse topic brokerName projectGroupPrefix response)
    rw [processSendResponse]
    cases hstatus : sendStatusOf response.code with
    | none => exact absurd hreads ((sendStatusOf_eq_none_iff _).mp hstatus)
    | some sendStatus => exact readCustomHeader_fails hheader
  | pullMessage =>
    show ¬ Succeeds (processPullResponse response)
    rw [processPullResponse]
    cases hstatus : pullStatusOf response.code with
    | none => exact absurd hreads ((pullStatusOf_eq_none_iff _).mp hstatus)
    | some pullStatus => exact readCustomHeader_fails hheader
  | other requestCode => exact hreads.elim
  | _ => exact hoffset _ _ hreads

/-! ### The custom header -/

/-- The custom header of a response has the class that its consumer reads. -/
theorem reads_of_decode {text : ByteString} {customHeader : Option CommandCustomHeader}
    {code : BitVec 32} (hreads : request.ReadsHeader code) (hparsed : parse text = .ok document)
    (hstruct : document.IsStruct)
    (hdecode : CommandCustomHeader.decode request.requestCode text true = .ok customHeader) :
    ∃ header, customHeader = some header ∧ request.Reads header := by
  have hmade : ∀ decodeExt, CommandCustomHeader.decodeExtFields text decodeExt = .ok customHeader →
      (∀ ext header, decodeExt ext = .ok header → request.Reads header) →
        ∃ header, customHeader = some header ∧ request.Reads header := by
    intro decodeExt hdecode hclass
    obtain ⟨header, hheader, rfl⟩ :=
      CommandCustomHeader.exists_of_decodeExtFields hparsed hstruct hdecode
    exact ⟨header, rfl, hclass _ header hheader⟩
  cases request with
  | sendMessage topic brokerName projectGroupPrefix =>
    refine hmade CommandCustomHeader.decodeSendMessageResponse hdecode fun ext header hheader ↦ ?_
    obtain ⟨msgId, -, hheader⟩ := bind_eq_ok_iff.mp hheader
    obtain ⟨queueId, -, hheader⟩ := bind_eq_ok_iff.mp hheader
    obtain ⟨queueOffset, -, hheader⟩ := bind_eq_ok_iff.mp hheader
    exact ⟨msgId, queueId, queueOffset, (Except.ok.inj hheader).symm⟩
  | pullMessage =>
    refine hmade CommandCustomHeader.decodePullMessageResponse hdecode fun ext header hheader ↦ ?_
    obtain ⟨suggestWhichBrokerId, -, hheader⟩ := bind_eq_ok_iff.mp hheader
    obtain ⟨nextBeginOffset, -, hheader⟩ := bind_eq_ok_iff.mp hheader
    obtain ⟨minOffset, -, hheader⟩ := bind_eq_ok_iff.mp hheader
    obtain ⟨maxOffset, -, hheader⟩ := bind_eq_ok_iff.mp hheader
    exact ⟨suggestWhichBrokerId, nextBeginOffset, minOffset, maxOffset,
      (Except.ok.inj hheader).symm⟩
  | queryConsumerOffset | getMaxOffset | getMinOffset =>
    refine hmade CommandCustomHeader.decodeQueryConsumerOffsetResponse hdecode
      fun ext header hheader ↦ ?_
    obtain ⟨offset, -, hheader⟩ := bind_eq_ok_iff.mp hheader
    exact ⟨offset, (Except.ok.inj hheader).symm⟩
  | searchOffset =>
    refine hmade CommandCustomHeader.decodeSearchOffsetResponse hdecode fun ext header hheader ↦ ?_
    obtain ⟨offset, -, hheader⟩ := bind_eq_ok_iff.mp hheader
    exact ⟨offset, (Except.ok.inj hheader).symm⟩
  | getEarliestMsgStoretime =>
    refine hmade CommandCustomHeader.decodeGetEarliestMsgStoretimeResponse hdecode
      fun ext header hheader ↦ ?_
    obtain ⟨timestamp, -, hheader⟩ := bind_eq_ok_iff.mp hheader
    exact ⟨timestamp, (Except.ok.inj hheader).symm⟩
  | other requestCode => exact hreads.elim

/-- The custom header is made exactly when its members are convertible. -/
theorem makeCustomHeader_succeeds_iff (hparsed : parse (frameDocument frame) = .ok document)
    (hstruct : document.IsStruct) (code : ℤ) :
    Succeeds (makeCustomHeader command code frame) ↔
      (extFieldsString <:+: frameDocument frame →
        ∀ names ∈ CommandCustomHeader.members code command.isResponseType,
          CommandCustomHeader.ExtTyped names (document.memberAt "extFields")) := by
  rw [makeCustomHeader]
  split
  · rename_i hinfix
    rw [succeeds_bind_pure, succeeds_mapError,
      CommandCustomHeader.decode_succeeds_iff hparsed hstruct]
    exact ⟨fun htyped _ ↦ htyped, fun htyped ↦ htyped hinfix⟩
  · rename_i hinfix
    exact iff_of_true (succeeds_ok _) fun hthere ↦ absurd hthere hinfix

/-- What the making of a custom header leaves as it is. -/
theorem makeCustomHeader_eq {code : ℤ} {made : RemotingCommand}
    (hmade : makeCustomHeader command code frame = .ok made) :
    made = { command with customHeader := made.customHeader } := by
  rw [makeCustomHeader] at hmade
  split at hmade
  · obtain ⟨customHeader, -, hmade⟩ := bind_eq_ok_iff.mp hmade
    obtain rfl := Except.ok.inj hmade
    rfl
  · obtain rfl := Except.ok.inj hmade
    rfl

/-- A response is consumed exactly when the string of `extFields` is there if the custom header is
read. -/
theorem consume_of_made (hparsed : parse (frameDocument frame) = .ok document)
    (hstruct : document.IsStruct) (hresponse : command.isResponseType = true)
    (hnone : command.customHeader = none) {made : RemotingCommand}
    (hmade : makeCustomHeader command request.requestCode frame = .ok made) :
    Succeeds (request.consume made) ↔
      (request.ReadsHeader command.code → extFieldsString <:+: frameDocument frame) := by
  have hcode : made.code = command.code := by rw [makeCustomHeader_eq hmade]
  by_cases hreads : request.ReadsHeader command.code
  · rw [makeCustomHeader] at hmade
    split at hmade
    · rename_i hinfix
      refine iff_of_true ?_ fun _ ↦ hinfix
      obtain ⟨customHeader, hdecode, hmade⟩ := bind_eq_ok_iff.mp hmade
      obtain rfl := Except.ok.inj hmade
      rw [hresponse, mapError_eq_ok_iff] at hdecode
      obtain ⟨header, hheader, hclass⟩ := reads_of_decode hreads hparsed hstruct hdecode
      exact consume_succeeds_of_reads hheader hclass
    · rename_i hinfix
      obtain rfl := Except.ok.inj hmade
      exact iff_of_false (consume_fails hnone hreads) fun himp ↦ hinfix (himp hreads)
  · exact iff_of_true (consume_succeeds_of_not_reads (hcode ▸ hreads)) fun hthere ↦
      absurd hthere hreads

/-! ### The path of a frame -/

/-- A request whose consumer reads the custom header has a positive code. -/
theorem WaitingRequest.requestCode_pos {code : BitVec 32} (hreads : request.ReadsHeader code) :
    0 < request.requestCode := by
  cases request with
  | sendMessage topic brokerName projectGroupPrefix => exact (by decide : 0 < sendMessageValue)
  | other requestCode => exact hreads.elim
  | _ => decide

/-- A command that was decoded is processed to the end exactly when its custom header can be
received. -/
theorem process_succeeds_iff (hparsed : parse (frameDocument frame) = .ok document)
    (hstruct : document.IsStruct) (hnone : command.customHeader = none)
    (hresp : command.isResponseType = false → resp = none) :
    Succeeds (Except.mapError ReceiveFault.frame (if 0 < headerCode command resp then
        makeCustomHeader command (headerCode command resp) frame else .ok command) >>=
          fun made ↦ processMessageReceived made resp) ↔
      (0 < headerCode command resp → extFieldsString <:+: frameDocument frame →
        ∀ names ∈ CommandCustomHeader.members (headerCode command resp) command.isResponseType,
          CommandCustomHeader.ExtTyped names (document.memberAt "extFields")) ∧
      ∀ request ∈ resp, request.ReadsHeader command.code →
        extFieldsString <:+: frameDocument frame := by
  have hmake := @makeCustomHeader_succeeds_iff command frame document hparsed hstruct
  cases hresponse : command.isResponseType with
  | false =>
    obtain rfl := hresp hresponse
    have hprocess : ∀ made, Succeeds (processMessageReceived made none) := fun made ↦ by
      rw [processMessageReceived]
      split <;> exact succeeds_ok _
    rw [succeeds_bind_iff fun made ↦ iff_true_intro (hprocess made), succeeds_mapError]
    by_cases hcode : 0 < headerCode command none
    · simp [hcode, hmake, hresponse]
    · simp [hcode]
  | true =>
    have hprocess : ∀ made, made.isResponseType = true →
        processMessageReceived made resp = processResponseCommand made resp :=
      fun made hmade ↦ if_pos hmade
    cases resp with
    | none =>
      have hcode : headerCode command none = 0 := if_pos hresponse
      rw [hcode, if_neg (lt_irrefl 0)]
      refine iff_of_true ?_ (by simp)
      show Succeeds (processMessageReceived command none)
      rw [hprocess command hresponse]
      exact succeeds_ok _
    | some request =>
      have hcode : headerCode command (some request) = request.requestCode := if_pos hresponse
      rw [hcode]
      by_cases hpositive : 0 < request.requestCode
      · have hrest : ∀ made, makeCustomHeader command request.requestCode frame = .ok made →
            (Succeeds (processMessageReceived made (some request)) ↔
              (request.ReadsHeader command.code → extFieldsString <:+: frameDocument frame)) := by
          intro made hmade
          have hmadeResponse : made.isResponseType = true := by
            rw [makeCustomHeader_eq hmade]
            exact hresponse
          rw [hprocess made hmadeResponse]
          exact consume_of_made hparsed hstruct hresponse hnone hmade
        rw [if_pos hpositive, succeeds_bind]
        simp only [mapError_eq_ok_iff, Option.mem_def, Option.some.injEq, forall_eq']
        rw [hresponse] at hmake
        constructor
        · rintro ⟨made, hmade, hconsumed⟩
          exact ⟨fun _ ↦ (hmake _).mp ⟨made, hmade⟩, (hrest made hmade).mp hconsumed⟩
        · rintro ⟨htyped, hpresent⟩
          obtain ⟨made, hmade⟩ := (hmake _).mpr (htyped hpositive)
          exact ⟨made, hmade, (hrest made hmade).mpr hpresent⟩
      · have hnever : ¬ request.ReadsHeader command.code := fun hreads ↦
          hpositive (WaitingRequest.requestCode_pos hreads)
        rw [if_neg hpositive]
        refine iff_of_true ?_ ⟨fun hcode ↦ absurd hcode hpositive, ?_⟩
        · show Succeeds (processMessageReceived command (some request))
          rw [hprocess command hresponse]
          exact consume_succeeds_of_not_reads hnever
        · intro other hother
          obtain rfl := Option.some.inj hother
          exact fun hreads ↦ absurd hreads hnever

theorem headerReceivable_iff (resp : Option WaitingRequest) :
    HeaderReceivable frame document resp ↔
      (0 < headerCode (commandAt document) resp → extFieldsString <:+: frameDocument frame →
        ∀ names ∈ CommandCustomHeader.members (headerCode (commandAt document) resp)
          (commandAt document).isResponseType,
          CommandCustomHeader.ExtTyped names (document.memberAt "extFields")) ∧
      ∀ request ∈ resp, request.ReadsHeader (commandAt document).code →
        extFieldsString <:+: frameDocument frame :=
  ⟨fun hheader ↦ ⟨hheader.1, hheader.2⟩, fun hboth ↦ ⟨hboth.1, hboth.2⟩⟩

/-- The processing of a frame ends properly exactly when the frame can be received. -/
theorem processData_succeeds_iff :
    Succeeds (TcpRemotingClient.processData frame table).1 ↔ Receivable frame table := by
  by_cases hsome : ∃ document, IsCommand frame document
  · obtain ⟨document, hcommand⟩ := hsome
    obtain ⟨body, hdecode⟩ := hcommand.decode_eq
    have hresp : (commandAt document).isResponseType = false →
        responseFuture (commandAt document) table = none := fun hrequest ↦ by
      rw [responseFuture, hrequest]
      rfl
    have hreceivable : Receivable frame table ↔
        HeaderReceivable frame document (responseFuture (commandAt document) table) := by
      refine ⟨fun ⟨other, hother, hheader⟩ ↦ ?_, fun hheader ↦ ⟨document, hcommand, hheader⟩⟩
      obtain rfl := Except.ok.inj (hother.parsed.symm.trans hcommand.parsed)
      exact hheader
    rw [hreceivable, TcpRemotingClient.processData, hdecode]
    refine Iff.trans ?_ (headerReceivable_iff _).symm
    exact @process_succeeds_iff { commandAt document with body := body } _ _ _ hcommand.parsed
      hcommand.head.isStruct rfl hresp
  · refine iff_of_false ?_ fun ⟨document, hcommand, _⟩ ↦ hsome ⟨document, hcommand⟩
    rw [TcpRemotingClient.processData]
    cases hdecode : RemotingCommand.decode frame with
    | error failure => exact not_succeeds_error _
    | ok command =>
      cases command with
      | none => exact not_succeeds_error _
      | some command => exact absurd (isCommand_of_decode hdecode) hsome

/-- Only the entry of the opaque of the frame is changed. -/
theorem ownEntryOnly_processData (frame : ByteString) (table : OrderedMap ℤ WaitingRequest) :
    OwnEntryOnly frame table (TcpRemotingClient.processData frame table).2 := by
  intro key hkey
  rw [TcpRemotingClient.processData] at hkey
  cases hdecode : RemotingCommand.decode frame with
  | error failure => simp [hdecode] at hkey
  | ok command =>
    cases command with
    | none => simp [hdecode] at hkey
    | some command =>
      obtain ⟨document, hcommand⟩ := isCommand_of_decode hdecode
      obtain ⟨body, hequal⟩ := hcommand.decode_eq
      obtain rfl := Option.some.inj (Except.ok.inj (hdecode.symm.trans hequal))
      refine ⟨document, hcommand.parsed, ?_⟩
      by_contra hne
      rw [hdecode] at hkey
      refine hkey ?_
      show (if _ then table.erase (document.memberAt "opaque").toInt.toInt else table).find? key = _
      split
      · exact OrderedMap.find?_erase_of_ne table hne
      · rfl

/-- A frame ends with being handled, dropped or an exception of the client, without a fault, and
with no change of the table but at its own opaque, exactly when it can be received. -/
theorem receive_path_total_iff (frame : ByteString) (table : OrderedMap ℤ WaitingRequest) :
    ((∃ ending, (TcpRemotingClient.processData frame table).1 = .ok ending) ∧
      OwnEntryOnly frame table (TcpRemotingClient.processData frame table).2) ↔
        Receivable frame table :=
  (and_iff_left (ownEntryOnly_processData frame table)).trans processData_succeeds_iff

/-- A successful response without `extFields`. -/
def bareResponse : ByteString :=
  bigEndian 4 0 ++ (bigEndian 4 0 ++
    ofString "\x7b\"code\":0,\"language\":\"JAVA\",\"version\":0,\"opaque\":5,\"flag\":1\x7d")

/-- A table in which a send waits under the opaque 5. -/
def sendWaiting : OrderedMap ℤ WaitingRequest :=
  OrderedMap.empty.assign 5 (.sendMessage (ofString "t") (ofString "b") [])

/-- The response to a send leads to a dereference of a null pointer. -/
theorem null_header_of_bare_response :
    5 ≤ bareResponse.length ∧
      (TcpRemotingClient.processData bareResponse sendWaiting).1 = .error .nullCustomHeader ∧
        ¬ ∃ ending, (TcpRemotingClient.processData bareResponse sendWaiting).1 = .ok ending := by
  have hfault : (TcpRemotingClient.processData bareResponse sendWaiting).1 =
      .error .nullCustomHeader := by
    decide +kernel
  refine ⟨by decide, hfault, ?_⟩
  rw [hfault]
  exact not_succeeds_error _

end RocketMQClient.Transport
