import RocketMQClient.Protocol.CommandText

/-!
# The one-way bit

`invokeOnewayImpl` marks a request as one-way and sends it. The head that is sent was written by the
`Encode` of the caller, before the request got the mark, and is not written again. `OnewayCall` are
the three callers, each with the header and the body that it is given.

`carriesOneway_iff` says which requests reach the broker as one-way requests: those that were marked
before `Encode`, and whose strings have no zero byte. None of the callers marks a request
(`oneway_bit_never_sent`).
-/

set_option autoImplicit false
set_option relaxedAutoImplicit false

namespace RocketMQClient.Transport

open Library Protocol

/-! ### Sending -/

/-- `SendCmd`: the bytes that it hands to `SendData`, if there are any. -/
def sendCmd (msg : RemotingCommand) : Option ByteString :=
  if msg.head.length = 0 then none else some msg.frame

/-- `invokeOnewayImpl`: the request as it is left, and the bytes that are sent. -/
def invokeOnewayImpl (request : RemotingCommand) : RemotingCommand × Option ByteString :=
  (request.markOnewayRPC, sendCmd request.markOnewayRPC)

/-- The codes of the requests that are sent one-way. -/
def updateConsumerOffsetValue : BitVec 32 := 15

def unlockBatchMQValue : BitVec 32 := 42

/-- A call of `invokeOneway`. -/
inductive OnewayCall where
  /-- `sendMessage` in the mode `ONEWAY`. -/
  | sendMessage (requestHeader : CommandCustomHeader) (body : ByteString)
  /-- `updateConsumerOffsetOneway`. -/
  | updateConsumerOffset (requestHeader : CommandCustomHeader)
  /-- `unlockBatchMQ`, with the text of its request body. -/
  | unlockBatchMQ (body : ByteString)

/-- The request that the caller encodes. -/
def OnewayCall.command (call : OnewayCall) (opaqueId version : BitVec 32) : RemotingCommand :=
  match call with
  | sendMessage requestHeader body =>
    (RemotingCommand.createRequestCommand (BitVec.ofInt 32 sendMessageValue) (some requestHeader)
      opaqueId version).setBody body
  | updateConsumerOffset requestHeader =>
    RemotingCommand.createRequestCommand updateConsumerOffsetValue (some requestHeader) opaqueId
      version
  | unlockBatchMQ body =>
    (RemotingCommand.createRequestCommand unlockBatchMQValue none opaqueId version).setBody body

/-- The bytes are decoded to a one-way request that equals the one that was sent. -/
def CarriesOneway (request : RemotingCommand) (sent : ByteString) : Prop :=
  ∃ decoded, RemotingCommand.decode sent = .ok (some decoded) ∧ decoded.isOnewayRPC = true ∧
    decoded.code = request.code ∧ decoded.opaqueId = request.opaqueId ∧
      decoded.version = request.version ∧ decoded.remark = request.remark

/-! ### What is sent -/

variable {command request : RemotingCommand} {sent : ByteString}

/-- The mark does not change the bytes that were written. -/
theorem sent_eq_frame (hsent : (invokeOnewayImpl request).2 = some sent) :
    sent = request.frame := by
  have hframe : sendCmd request.markOnewayRPC = some sent := hsent
  rw [sendCmd] at hframe
  split at hframe
  · exact absurd hframe.symm (Option.some_ne_none sent)
  · exact (Option.some.inj hframe).symm

theorem isOnewayRPC_markOnewayRPC (request : RemotingCommand) :
    request.markOnewayRPC.isOnewayRPC = true := by
  apply decide_eq_true
  show (request.flag ||| 2) &&& 2 = 2
  ext index
  rw [BitVec.getElem_and, BitVec.getElem_or]
  cases request.flag[index] <;> simp

/-- What `Encode` and the mark leave as it is. -/
theorem marked_eq (hrequest : command.encode = some request) :
    (invokeOnewayImpl request).1 =
      { command.markOnewayRPC with head := request.head } := by
  rw [RemotingCommand.encode] at hrequest
  split at hrequest
  · rw [← Option.some.inj hrequest]
    rfl
  · exact absurd hrequest.symm (Option.some_ne_none request)

theorem exists_encode (hlength : command.headText.length + 8 ≤ 2147483647) :
    ∃ request, command.encode = some request := ⟨_, if_pos hlength⟩

/-- An encoded request is sent. -/
theorem exists_sent (hrequest : command.encode = some request) :
    ∃ sent, (invokeOnewayImpl request).2 = some sent := by
  refine ⟨_, if_neg ?_⟩
  show request.head.length ≠ 0
  rw [RemotingCommand.encode] at hrequest
  split at hrequest
  · rw [← Option.some.inj hrequest]
    simp
  · exact absurd hrequest.symm (Option.some_ne_none request)

/-- A request reaches the broker as a one-way request exactly when it was marked before `Encode` and
there is no zero byte in its strings. -/
theorem carriesOneway_iff (hplain : command.PlainStrings)
    (hrequest : command.encode = some request)
    (hsent : (invokeOnewayImpl request).2 = some sent) :
    CarriesOneway (invokeOnewayImpl request).1 sent ↔
      command.isOnewayRPC = true ∧ command.NoZero := by
  rw [sent_eq_frame hsent, marked_eq hrequest, CarriesOneway]
  by_cases hzero : command.NoZero
  · obtain ⟨body, hdecoded⟩ := decode_frame hplain hzero hrequest
    rw [hdecoded]
    constructor
    · rintro ⟨decoded, hequal, honeway, -⟩
      obtain rfl := Option.some.inj (Except.ok.inj hequal)
      exact ⟨honeway, hzero⟩
    · rintro ⟨honeway, -⟩
      exact ⟨_, rfl, honeway, rfl, rfl, rfl, rfl⟩
  · refine iff_of_false ?_ fun hboth ↦ hzero hboth.2
    rintro ⟨decoded, hdecoded, -⟩
    exact decode_frame_of_zero hplain hzero hrequest decoded hdecoded

/-- No caller marks a request before it is encoded. -/
theorem OnewayCall.isOnewayRPC_eq (call : OnewayCall) (opaqueId version : BitVec 32) :
    (call.command opaqueId version).isOnewayRPC = false := by
  have hflag : (call.command opaqueId version).flag = 0 := by
    cases call <;> rfl
  rw [RemotingCommand.isOnewayRPC, hflag]
  decide

/-- No request that is sent through `invokeOneway` reaches the broker as a one-way request. -/
theorem oneway_bit_never_sent (call : OnewayCall) (opaqueId version : BitVec 32)
    (hplain : (call.command opaqueId version).PlainStrings)
    (hrequest : (call.command opaqueId version).encode = some request)
    (hsent : (invokeOnewayImpl request).2 = some sent) :
    ¬ CarriesOneway (invokeOnewayImpl request).1 sent := by
  rw [carriesOneway_iff hplain hrequest hsent, call.isOnewayRPC_eq]
  exact fun hboth ↦ Bool.false_ne_true hboth.1

/-- An unlock without a body is sent and does not reach the broker as a one-way request. -/
theorem oneway_bit_never_sent_of_unlock :
    ∃ request sent,
      ((OnewayCall.unlockBatchMQ []).command 1 2).encode = some request ∧
        (invokeOnewayImpl request).2 = some sent ∧
          ¬ CarriesOneway (invokeOnewayImpl request).1 sent := by
  have hlength : ((OnewayCall.unlockBatchMQ []).command 1 2).headText.length + 8 ≤ 2147483647 := by
    decide +kernel
  obtain ⟨request, hrequest⟩ := exists_encode hlength
  obtain ⟨sent, hsent⟩ := exists_sent hrequest
  exact ⟨request, sent, hrequest, hsent,
    oneway_bit_never_sent (.unlockBatchMQ []) 1 2 (by decide) hrequest hsent⟩

/-- The update of the offset of queue 0 to 7. -/
def offsetUpdate : RemotingCommand :=
  (OnewayCall.updateConsumerOffset
    (.updateConsumerOffsetRequestHeader (ofString "g") (ofString "t") 0 7)).command 1 2

/-- The update of an offset has plain strings, is marked and sent, and does not reach the broker as
a one-way request. -/
theorem offset_update_sent_unmarked :
    ∃ request sent,
      offsetUpdate.PlainStrings ∧ offsetUpdate.NoZero ∧ offsetUpdate.encode = some request ∧
        (invokeOnewayImpl request).2 = some sent ∧
          (invokeOnewayImpl request).1.isOnewayRPC = true ∧
            ¬ CarriesOneway (invokeOnewayImpl request).1 sent := by
  have hlength : offsetUpdate.headText.length + 8 ≤ 2147483647 := by decide +kernel
  have hplain : offsetUpdate.PlainStrings := by decide
  obtain ⟨request, hrequest⟩ := exists_encode hlength
  obtain ⟨sent, hsent⟩ := exists_sent hrequest
  refine ⟨request, sent, hplain, by decide, hrequest, hsent, isOnewayRPC_markOnewayRPC request, ?_⟩
  rw [carriesOneway_iff hplain hrequest hsent]
  decide

end RocketMQClient.Transport
