import RocketMQClient.Messages.MessageDecoder
import RocketMQClient.Producer.SendRetry
import RocketMQClient.Protocol.CommandCustomHeader
import RocketMQClient.Transport.ProjectGroup

/-!
# Requests that store a message

Each attempt of `sendDefaultImpl` that finds a broker makes a request: `sendKernelImpl` fills in the
header and `sendMessage` gives its names the suffix of the project group. The header's
`reconsumeTimes` is set nowhere, so it is whatever the memory held.

`Carries` says that a request is read as a body. The first request of a call carries the body of the
caller (`carries_first`), and all of them do when compression does not change it (`carries_all`).
-/

set_option autoImplicit false
set_option relaxedAutoImplicit false

namespace RocketMQClient.Producer

open Library Messages Protocol Transport

/-- The settings of a producer that go into its requests. -/
structure RequestSettings where
  producerGroup : ByteString
  createTopicKey : ByteString
  defaultTopicQueueNums : BitVec 32
  projectGroupPrefix : ByteString
  deriving DecidableEq

/-- A request of a call, by the message of the caller and what the attempt put on the wire, with its
number among the requests of the call and with the memory of the header's last field. -/
structure SendMessageRequest where
  settings : RequestSettings
  config : ProducerConfig
  msg : Message
  number : ℕ
  sent : SentMessage
  bornTimestamp : BitVec 64
  reconsumeTimes : BitVec 32
  deriving DecidableEq

namespace SendMessageRequest

/-- The header that is sent. -/
def header (request : SendMessageRequest) : CommandCustomHeader :=
  .sendMessageRequestHeader
    (nameToBroker request.settings.projectGroupPrefix request.settings.producerGroup)
    (nameToBroker request.settings.projectGroupPrefix request.msg.topic)
    request.settings.createTopicKey request.settings.defaultTopicQueueNums
    (BitVec.ofInt 32 request.sent.queueId) (BitVec.ofNat 32 request.sent.sysFlag)
    request.bornTimestamp (BitVec.ofInt 32 request.msg.flag)
    (messageProperties2String request.msg.properties) request.reconsumeTimes

end SendMessageRequest

/-- The requests of a call, with the clocks of its attempts and the memory of the headers. -/
def requestsOf (settings : RequestSettings) (config : ProducerConfig) (msg : Message)
    (clock : ℕ → BitVec 64) (memory : ℕ → BitVec 32) (final : SendState) :
    List SendMessageRequest :=
  final.wire.mapIdx fun number sent ↦
    ⟨settings, config, msg, number, sent, clock number, memory number⟩

/-- The bytes of a request are the body, or its compressed form when the flag says so. -/
def SentMessage.Carries (zlib : Zlib) (config : ProducerConfig) (body : ByteString)
    (sent : SentMessage) : Prop :=
  if sent.sysFlag &&& MessageSysFlag.compressedFlag = MessageSysFlag.compressedFlag then
    zlib.compress body config.compressLevel = some sent.body
  else sent.body = body

variable {zlib : Zlib} {config : ProducerConfig} {mode : CommunicationMode}
variable {attempts : ℕ → SendAttempt} {beginTimestamp : ℤ} {msg : Message} {body : ByteString}

/-- An attempt on the body of the caller puts a request on the wire that carries it. -/
theorem sendKernelImpl_carries {state : SendState} {attempt : SendAttempt}
    (hbody : state.msg.body = some body) :
    (sendKernelImpl zlib config state attempt).2 = state ∨
      ∃ sent, (sendKernelImpl zlib config state attempt).2.wire = state.wire ++ [sent] ∧
        sent.Carries zlib config body ∧
        ((sendKernelImpl zlib config state attempt).2.msg.body = some body ∨
          CompressionChanges zlib config state.msg) := by
  unfold sendKernelImpl
  split_ifs with haddr
  · exact Or.inl rfl
  refine Or.inr ⟨_, rfl, ?_, ?_⟩
  all_goals
    rcases tryToCompressMessage_cases zlib config hbody with
      ⟨hsame, -⟩ | ⟨out, hlong, hcompress, hchanged⟩
  · rw [hsame, SentMessage.Carries, if_neg, hbody]
    · rfl
    · exact mt (messageSysFlag_compressed false state.msg).mp Bool.false_ne_true
  · rw [hchanged, SentMessage.Carries, if_pos]
    · exact hcompress
    · exact (messageSysFlag_compressed true _).mpr rfl
  · exact Or.inl (hsame ▸ hbody)
  · by_cases hout : out = body
    · exact Or.inl (by rw [hchanged, hout])
    · exact Or.inr ⟨body, out, hbody, hlong, hcompress, hout⟩

/-- What every attempt keeps is kept by the loop. -/
theorem sendLoop_invariant {invariant : SendState → Prop}
    (hattempt : ∀ state attempt, invariant state →
      invariant (sendKernelImpl zlib config state attempt).2)
    {remaining : ℕ} {endTimestamp : ℤ} {state : SendState} (hstate : invariant state) :
    invariant
      (sendLoop zlib config mode attempts beginTimestamp remaining endTimestamp state).2 := by
  induction remaining generalizing endTimestamp state with
  | zero => exact hstate
  | succ remaining ih =>
    unfold sendLoop
    dsimp only
    have hnext := hattempt state (attempts (2 - remaining)) hstate
    split_ifs
    · exact ih hnext
    · exact hnext
    · exact hstate

theorem sendDefaultImpl_invariant {invariant : SendState → Prop}
    (hattempt : ∀ state attempt, invariant state →
      invariant (sendKernelImpl zlib config state attempt).2)
    (hinitial : invariant ⟨msg, []⟩) :
    invariant (sendDefaultImpl zlib config mode attempts beginTimestamp msg).2 := by
  unfold sendDefaultImpl
  split_ifs
  · exact hinitial
  · split
    · exact hinitial
    · exact sendLoop_invariant hattempt hinitial

/-- The first request of a call carries the body of the caller. -/
theorem carries_first (hbody : msg.body = some body) {sent : SentMessage}
    (hsent : (sendDefaultImpl zlib config mode attempts beginTimestamp msg).2.wire[0]? =
      some sent) : sent.Carries zlib config body := by
  refine (@sendDefaultImpl_invariant zlib config mode attempts beginTimestamp msg (fun state ↦
    (state.wire = [] → state.msg.body = some body) ∧
      ∀ sent, state.wire[0]? = some sent → sent.Carries zlib config body)
    (fun state attempt hstate ↦ ?_) ⟨fun _ ↦ hbody, nofun⟩).2 sent hsent
  cases hwire : state.wire with
  | nil =>
    rcases @sendKernelImpl_carries zlib config body state attempt (hstate.1 hwire) with
      hsame | ⟨first, hfirst, hcarries, -⟩
    · rwa [hsame]
    · rw [hfirst, hwire]
      exact ⟨nofun, fun other hother ↦ Option.some.inj hother ▸ hcarries⟩
  | cons first rest =>
    have hkept : ∃ added, (sendKernelImpl zlib config state attempt).2.wire =
        state.wire ++ added := by
      unfold sendKernelImpl
      split_ifs
      · exact ⟨[], (List.append_nil _).symm⟩
      · exact ⟨_, rfl⟩
    obtain ⟨added, hadded⟩ := hkept
    rw [hadded, hwire]
    exact ⟨nofun, fun other hother ↦ hstate.2 other (hwire ▸ hother)⟩

/-- All requests of a call carry the body of the caller, unless compression changes it. -/
theorem carries_all (hbody : msg.body = some body) (hsame : ¬ CompressionChanges zlib config msg)
    {sent : SentMessage}
    (hsent : sent ∈ (sendDefaultImpl zlib config mode attempts beginTimestamp msg).2.wire) :
    sent.Carries zlib config body := by
  have hunchanged : ∀ {other : Message}, other.body = some body →
      ¬ CompressionChanges zlib config other := by
    rintro other hother ⟨found, out, hfound, hrest⟩
    exact hsame ⟨found, out, hbody.trans (hother.symm.trans hfound), hrest⟩
  refine (@sendDefaultImpl_invariant zlib config mode attempts beginTimestamp msg (fun state ↦
    state.msg.body = some body ∧ ∀ sent ∈ state.wire, sent.Carries zlib config body)
    (fun state attempt hstate ↦ ?_) ⟨hbody, nofun⟩).2 sent hsent
  rcases @sendKernelImpl_carries zlib config body state attempt hstate.1 with
    hunmoved | ⟨added, hadded, hcarries, hkept⟩
  · rwa [hunmoved]
  · refine ⟨hkept.resolve_right (hunchanged hstate.1), fun other hother ↦ ?_⟩
    rw [hadded] at hother
    rcases List.mem_append.mp hother with hbefore | hnew
    · exact hstate.2 other hbefore
    · exact List.mem_singleton.mp hnew ▸ hcarries

/-- A request that is the first of its call, or whose body compression does not change, carries the
body of its message. -/
theorem carries_of_requestsOf {settings : RequestSettings} {clock : ℕ → BitVec 64}
    {memory : ℕ → BitVec 32} {request : SendMessageRequest} (hbody : msg.body = some body)
    (hrequest : request ∈ requestsOf settings config msg clock memory
      (sendDefaultImpl zlib config mode attempts beginTimestamp msg).2)
    (hgood : request.number = 0 ∨ ¬ CompressionChanges zlib request.config request.msg) :
    request.sent.Carries zlib config body := by
  obtain ⟨number, hnumber, rfl⟩ := List.mem_mapIdx.mp hrequest
  rcases hgood with hfirst | hsame
  · obtain rfl : number = 0 := hfirst
    exact carries_first hbody (List.getElem?_eq_getElem hnumber)
  · exact carries_all hbody hsame (List.getElem_mem hnumber)

end RocketMQClient.Producer
