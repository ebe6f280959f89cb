import RocketMQClient.Library.MachineInt
import RocketMQClient.Messages.Message
import RocketMQClient.Messages.MessageQueue

/-!
# Sending with retries

`sendDefaultImpl` tries at most three times to send a message, each time to the queue that the
publish info offers next; `sendKernelImpl` is one attempt. The environment of an attempt is a
`SendAttempt`: the queue found, the broker address found, the reply, and the clock when the attempt
is over. The model records what each attempt puts on the wire and the caller's message at the end.

An attempt compresses a body that is long enough in place, in the message of the caller, and never
restores it. So the caller's message is changed, and a further attempt sends the compressed body
without the flag or compresses it again (`retry_sends_compressed_body`). `RetriesSendOriginal` is
what a caller expects, and `retriesSendOriginal_iff` says when it is met: unless some attempt finds
a queue and a broker for a body that is long enough and that compression changes. Such an attempt
breaks it (`sendKernelImpl_changes`), and no later attempt repairs it
(`sendKernelImpl_not_repairs`).

The compression library is a parameter of two functions, of which the second undoes the first and a
compressed body is not empty. What is on the wire is judged by what a receiver makes of it
(`decodeBody`): the body, decompressed when the flag says so. Since a body that is changed is never
restored, one attempt is enough to break the call, and the loop adds nothing but the question of
which attempt is reached.
-/

set_option autoImplicit false
set_option relaxedAutoImplicit false

namespace RocketMQClient.Producer

open Library Messages

/-! ### The operations of the source -/

/-- How a call of the client waits for its reply. -/
inductive CommunicationMode where
  | sync
  | async
  | oneway
  deriving DecidableEq, Repr

/-- The status of a stored message. -/
inductive SendStatus where
  | sendOk
  | flushDiskTimeout
  | flushSlaveTimeout
  | slaveNotAvailable
  deriving DecidableEq, Repr

/-- How a send fails. -/
inductive SendError where
  | remotingException
  | clientException (message : ByteString)
  | brokerException (code : ℤ)
  | interruptedException
  deriving DecidableEq, Repr

/-- The settings of a producer. -/
structure ProducerConfig where
  sendMsgTimeout : ℤ
  compressMsgBodyOverHowmuch : ℤ
  compressLevel : ℤ
  maxMessageSize : ℤ
  retryAnotherBrokerWhenNotStoreOK : Bool
  running : Bool
  /-- The addresses of the name servers. -/
  nsList : List ByteString
  deriving DecidableEq

/-- What an attempt meets: the queue that `tryToFindTopicPublishMq` returned, the broker address
found in the end, the reply of `sendMessage`, and the clock after the attempt. -/
structure SendAttempt where
  mq : MessageQueue
  brokerAddr : ByteString
  reply : Except SendError SendStatus
  endTimestamp : ℤ

/-- What an attempt puts on the wire. -/
structure SentMessage where
  brokerAddr : ByteString
  queueId : ℤ
  sysFlag : ℕ
  body : ByteString
  deriving DecidableEq

/-- The caller's message and what was put on the wire so far. -/
structure SendState where
  msg : Message
  wire : List SentMessage
  deriving DecidableEq

section Send

variable (zlib : Zlib) (config : ProducerConfig)

/-- Compresses a body that is long enough, in place; the result says whether it did. -/
def tryToCompressMessage (msg : Message) : Bool × Message :=
  match msg.body with
  | none => (false, msg)
  | some body =>
    if msg.getBodyLen ≥ config.compressMsgBodyOverHowmuch then
      match zlib.compress body config.compressLevel with
      | some out => (true, msg.setBody out)
      | none => (false, msg)
    else (false, msg)

/-- The system flag of a message that was compressed or not. -/
def messageSysFlag (compressed : Bool) (msg : Message) : ℕ :=
  let sysFlag := if compressed then 0 ||| MessageSysFlag.compressedFlag else 0
  if msg.getProperty Message.propertyTransactionPrepared = ofString "true" then
    sysFlag ||| MessageSysFlag.transactionPreparedType
  else sysFlag

/-- One attempt to send. -/
def sendKernelImpl (state : SendState) (attempt : SendAttempt) :
    Except SendError SendStatus × SendState :=
  if attempt.brokerAddr.isEmpty then
    (.error (.clientException (ofString "The broker[" ++ attempt.mq.brokerName ++
      ofString "] not exist")), state)
  else
    let compressed := tryToCompressMessage zlib config state.msg
    (attempt.reply, {
      msg := compressed.2
      wire := state.wire ++ [{
        brokerAddr := attempt.brokerAddr
        queueId := attempt.mq.queueId
        sysFlag := messageSysFlag compressed.1 compressed.2
        body := compressed.2.body.getD [] }] })

/-- The broker errors after which another broker is tried. -/
def isRetryableCode (code : ℤ) : Bool :=
  code = 17 ∨ code = 14 ∨ code = 1 ∨ code = 16

/-- Whether an attempt with this result is followed by another one; otherwise it is the result of
the send. -/
def continues (mode : CommunicationMode) : Except SendError SendStatus → Bool
  | .ok status => mode = .sync ∧ status ≠ .sendOk ∧ config.retryAnotherBrokerWhenNotStoreOK
  | .error .remotingException => true
  | .error (.clientException _) => true
  | .error (.brokerException code) => isRetryableCode code
  | .error .interruptedException => false

/-- The exception after the loop. -/
def errorAfterLoop (nsList : List ByteString) (times : ℕ) : SendError :=
  .clientException
    (if times ≥ 3 then ofString "Retry many times, still failed"
    else if nsList = [] then ofString "No name server address, please set it."
    else ofString "No route info of this topic, ")

/-- The loop of `sendDefaultImpl`, with `remaining` attempts left of three. -/
def sendLoop (mode : CommunicationMode) (attempts : ℕ → SendAttempt) (beginTimestamp : ℤ) :
    ℕ → ℤ → SendState → Except SendError SendStatus × SendState
  | 0, _, state => (.error (errorAfterLoop config.nsList 3), state)
  | remaining + 1, endTimestamp, state =>
    let attempt := attempts (2 - remaining)
    if toInt32 (endTimestamp - beginTimestamp) < config.sendMsgTimeout ∧
        attempt.mq.topic.isEmpty = false then
      let sent := sendKernelImpl zlib config state attempt
      if continues config mode sent.1 then
        sendLoop mode attempts beginTimestamp remaining attempt.endTimestamp sent.2
      else sent
    else (.error (errorAfterLoop config.nsList (2 - remaining)), state)

/-- Sends a message to the next queues of its topic, at most three times. -/
def sendDefaultImpl (mode : CommunicationMode) (attempts : ℕ → SendAttempt) (beginTimestamp : ℤ)
    (msg : Message) : Except SendError SendStatus × SendState :=
  if config.running = false then
    (.error (.clientException (ofString "The producer service state not OK, ")), ⟨msg, []⟩)
  else match Validators.checkMessage msg config.maxMessageSize with
    | some text => (.error (.clientException text), ⟨msg, []⟩)
    | none => sendLoop zlib config mode attempts beginTimestamp 3 beginTimestamp ⟨msg, []⟩

/-! ### What a caller expects -/

/-- Every attempt puts a body on the wire that is read as the original one, and the caller's message
has its original body at the end. -/
def RetriesSendOriginal (msg : Message) (final : SendState) : Prop :=
  (∀ sent ∈ final.wire, decodeBody zlib sent.sysFlag sent.body = msg.body) ∧
    final.msg.body = msg.body

instance (msg : Message) (final : SendState) : Decidable (RetriesSendOriginal zlib msg final) :=
  inferInstanceAs (Decidable (_ ∧ _))

/-- Some attempt that is made finds a queue and a broker address: attempts without an address are
followed by another one as long as attempts and time are left. -/
def findsBroker (attempts : ℕ → SendAttempt) (beginTimestamp : ℤ) : ℕ → ℤ → Bool
  | 0, _ => false
  | remaining + 1, endTimestamp =>
    let attempt := attempts (2 - remaining)
    if toInt32 (endTimestamp - beginTimestamp) < config.sendMsgTimeout ∧
        attempt.mq.topic.isEmpty = false then
      if attempt.brokerAddr.isEmpty then
        findsBroker attempts beginTimestamp remaining attempt.endTimestamp
      else true
    else false

/-- The body is long enough to be compressed, and compression succeeds and changes it. -/
def CompressionChanges (msg : Message) : Prop :=
  ∃ body out, msg.body = some body ∧ config.compressMsgBodyOverHowmuch ≤ body.length ∧
    zlib.compress body config.compressLevel = some out ∧ out ≠ body

/-! ### One attempt -/

/-- The system flag says whether the message was compressed. -/
theorem messageSysFlag_compressed (compressed : Bool) (msg : Message) :
    messageSysFlag compressed msg &&& MessageSysFlag.compressedFlag =
      MessageSysFlag.compressedFlag ↔ compressed = true := by
  unfold messageSysFlag
  cases compressed with
  | true =>
    simp only [↓reduceIte]
    split_ifs <;> decide
  | false =>
    simp only [Bool.false_eq_true, ↓reduceIte]
    split_ifs <;> decide

/-- An attempt to compress either leaves the message and says so, or replaces its body by the
compressed one. -/
theorem tryToCompressMessage_cases {msg : Message} {body : ByteString}
    (hbody : msg.body = some body) :
    (tryToCompressMessage zlib config msg = (false, msg) ∧
        ∀ out, config.compressMsgBodyOverHowmuch ≤ body.length →
          zlib.compress body config.compressLevel ≠ some out) ∨
      ∃ out, config.compressMsgBodyOverHowmuch ≤ body.length ∧
        zlib.compress body config.compressLevel = some out ∧
        tryToCompressMessage zlib config msg = (true, { msg with body := some out }) := by
  have hlength : msg.getBodyLen = body.length := by rw [Message.getBodyLen, hbody]; rfl
  unfold tryToCompressMessage
  rw [hbody, hlength]
  dsimp only
  by_cases hlong : (body.length : ℤ) ≥ config.compressMsgBodyOverHowmuch
  · rw [if_pos hlong]
    cases hcompress : zlib.compress body config.compressLevel with
    | none => exact Or.inl ⟨rfl, fun out _ ↦ by simp⟩
    | some out =>
      have hout := zlib.compress_ne_nil body _ out hcompress
      refine Or.inr ⟨out, hlong, rfl, ?_⟩
      dsimp only
      rw [Message.setBody, if_pos (List.length_pos_iff.mpr hout)]
  · rw [if_neg hlong]
    exact Or.inl ⟨rfl, fun _ hle ↦ absurd hle hlong⟩

variable {zlib config} {msg : Message} {body : ByteString}

/-- An attempt without a broker address changes nothing. -/
theorem sendKernelImpl_of_no_address {attempt : SendAttempt} (state : SendState)
    (haddr : attempt.brokerAddr.isEmpty = true) :
    (sendKernelImpl zlib config state attempt).2 = state ∧
      ∀ mode, continues config mode (sendKernelImpl zlib config state attempt).1 = true := by
  rw [sendKernelImpl, if_pos haddr]
  exact ⟨rfl, fun _ ↦ rfl⟩

/-- An attempt on the original body keeps it when compression does not change it. -/
theorem sendKernelImpl_keeps {state : SendState} {attempt : SendAttempt}
    (hbody : msg.body = some body) (hnonempty : body ≠ [])
    (hstate : RetriesSendOriginal zlib msg state) (hkept : ¬ CompressionChanges zlib config msg) :
    RetriesSendOriginal zlib msg (sendKernelImpl zlib config state attempt).2 := by
  obtain ⟨hwire, hmsg⟩ := hstate
  have hstateBody : state.msg.body = some body := hmsg.trans hbody
  unfold sendKernelImpl
  split_ifs with haddr
  · exact ⟨hwire, hmsg⟩
  rcases tryToCompressMessage_cases zlib config hstateBody with
    ⟨hsame, -⟩ | ⟨out, hlong, hcompress, hchanged⟩
  · rw [hsame]
    refine ⟨fun sent hsent ↦ ?_, hmsg⟩
    rcases List.mem_append.mp hsent with hbefore | hnew
    · exact hwire sent hbefore
    · rw [List.mem_singleton.mp hnew, hstateBody, hbody]
      refine decodeBody_plain zlib hnonempty fun hflag ↦ ?_
      exact absurd ((messageSysFlag_compressed false state.msg).mp hflag) Bool.false_ne_true
  · have hout : out = body := by
      by_contra hne
      exact hkept ⟨body, out, hbody, hlong, hcompress, hne⟩
    rw [hchanged]
    refine ⟨fun sent hsent ↦ ?_, by rw [hout, hbody]⟩
    rcases List.mem_append.mp hsent with hbefore | hnew
    · exact hwire sent hbefore
    · rw [List.mem_singleton.mp hnew, hbody]
      exact decodeBody_compressed zlib hnonempty
        ((messageSysFlag_compressed true _).mpr rfl) hcompress

/-- An attempt with a broker address on the original body changes it when compression does. -/
theorem sendKernelImpl_changes {state : SendState} {attempt : SendAttempt}
    (hmsg : state.msg.body = msg.body) (haddr : attempt.brokerAddr.isEmpty = false)
    (hchanges : CompressionChanges zlib config msg) :
    ¬ RetriesSendOriginal zlib msg (sendKernelImpl zlib config state attempt).2 := by
  obtain ⟨body, out, hbody, hlong, hcompress, hne⟩ := hchanges
  rw [sendKernelImpl, if_neg (by rw [haddr]; exact Bool.false_ne_true)]
  rcases tryToCompressMessage_cases zlib config (hmsg.trans hbody) with
    ⟨-, hnone⟩ | ⟨other, -, hother, hchanged⟩
  · exact absurd hcompress (hnone out hlong)
  · rintro ⟨-, hsame⟩
    rw [hchanged, hbody] at hsame
    obtain rfl := Option.some.inj (hother.symm.trans hcompress)
    exact hne (Option.some.inj hsame)

/-- No attempt repairs what an earlier one has broken: either the body stays wrong, or compression
turns it into the original one, which is then put on the wire as compressed. -/
theorem sendKernelImpl_not_repairs {state : SendState} {attempt : SendAttempt}
    (hstate : ¬ RetriesSendOriginal zlib msg state) :
    ¬ RetriesSendOriginal zlib msg (sendKernelImpl zlib config state attempt).2 := by
  unfold sendKernelImpl
  split_ifs with haddr
  · exact hstate
  rintro ⟨hwire, hmsg⟩
  refine hstate ⟨fun sent hsent ↦ hwire sent (List.mem_append_left _ hsent), ?_⟩
  cases hstateBody : state.msg.body with
  | none =>
    have hsame : tryToCompressMessage zlib config state.msg = (false, state.msg) := by
      unfold tryToCompressMessage
      rw [hstateBody]
    rw [hsame] at hmsg
    exact hstateBody.symm.trans hmsg
  | some current =>
    rcases tryToCompressMessage_cases zlib config hstateBody with
      ⟨hsame, -⟩ | ⟨out, -, hcompress, hchanged⟩
    · rw [hsame] at hmsg
      exact hstateBody.symm.trans hmsg
    · rw [hchanged] at hmsg hwire
      have hread := hwire _ (List.mem_append_right _ (List.mem_singleton_self _))
      dsimp only at hmsg hread
      rw [Option.getD_some, ← hmsg] at hread
      by_cases hnil : current = []
      · rw [decodeBody_of_compressed_nil zlib ((messageSysFlag_compressed true _).mpr rfl)
          (hnil ▸ hcompress)] at hread
        exact absurd hread (Option.some_ne_none out).symm
      · rw [decodeBody_compressed zlib hnil ((messageSysFlag_compressed true _).mpr rfl)
          hcompress] at hread
        rw [hread, hmsg]

/-! ### The whole call -/

variable {mode : CommunicationMode} {attempts : ℕ → SendAttempt} {beginTimestamp : ℤ}

/-- The loop keeps the original body unless an attempt with a broker address compresses it. -/
theorem sendLoop_keeps {remaining : ℕ} {endTimestamp : ℤ} {state : SendState}
    (hbody : msg.body = some body) (hnonempty : body ≠ [])
    (hstate : RetriesSendOriginal zlib msg state)
    (hkept : findsBroker config attempts beginTimestamp remaining endTimestamp = false ∨
      ¬ CompressionChanges zlib config msg) :
    RetriesSendOriginal zlib msg
      (sendLoop zlib config mode attempts beginTimestamp remaining endTimestamp state).2 := by
  induction remaining generalizing endTimestamp state with
  | zero => exact hstate
  | succ remaining ih =>
    unfold findsBroker at hkept
    unfold sendLoop
    dsimp only at hkept ⊢
    by_cases hattempt : toInt32 (endTimestamp - beginTimestamp) < config.sendMsgTimeout ∧
        (attempts (2 - remaining)).mq.topic.isEmpty = false
    · rw [if_pos hattempt] at hkept ⊢
      by_cases haddr : (attempts (2 - remaining)).brokerAddr.isEmpty = true
      · obtain ⟨hsame, hcontinues⟩ :=
          @sendKernelImpl_of_no_address zlib config (attempts (2 - remaining)) state haddr
        rw [if_pos haddr] at hkept
        rw [if_pos (hcontinues mode), hsame]
        exact ih hstate hkept
      · rw [if_neg haddr] at hkept
        have hunchanged := hkept.resolve_left (by simp)
        have hnext := @sendKernelImpl_keeps zlib config msg body state (attempts (2 - remaining))
          hbody hnonempty hstate hunchanged
        split_ifs with hcontinues
        · exact ih hnext (Or.inr hunchanged)
        · exact hnext
    · rw [if_neg hattempt]
      exact hstate

/-- The loop repairs nothing. -/
theorem sendLoop_not_repairs {remaining : ℕ} {endTimestamp : ℤ} {state : SendState}
    (hstate : ¬ RetriesSendOriginal zlib msg state) :
    ¬ RetriesSendOriginal zlib msg
      (sendLoop zlib config mode attempts beginTimestamp remaining endTimestamp state).2 := by
  induction remaining generalizing endTimestamp state with
  | zero => exact hstate
  | succ remaining ih =>
    unfold sendLoop
    dsimp only
    have hnext :=
      @sendKernelImpl_not_repairs zlib config msg state (attempts (2 - remaining)) hstate
    split_ifs with hattempt hcontinues
    · exact ih hnext
    · exact hnext
    · exact hstate

/-- The loop breaks the original body when an attempt with a broker address compresses it. -/
theorem sendLoop_breaks {remaining : ℕ} {endTimestamp : ℤ} {state : SendState}
    (hmsg : state.msg.body = msg.body)
    (hfinds : findsBroker config attempts beginTimestamp remaining endTimestamp = true)
    (hchanges : CompressionChanges zlib config msg) :
    ¬ RetriesSendOriginal zlib msg
      (sendLoop zlib config mode attempts beginTimestamp remaining endTimestamp state).2 := by
  induction remaining generalizing endTimestamp state with
  | zero => exact absurd hfinds (by simp [findsBroker])
  | succ remaining ih =>
    unfold findsBroker at hfinds
    unfold sendLoop
    dsimp only at hfinds ⊢
    by_cases hattempt : toInt32 (endTimestamp - beginTimestamp) < config.sendMsgTimeout ∧
        (attempts (2 - remaining)).mq.topic.isEmpty = false
    · rw [if_pos hattempt] at hfinds ⊢
      by_cases haddr : (attempts (2 - remaining)).brokerAddr.isEmpty = true
      · obtain ⟨hsame, hcontinues⟩ :=
          @sendKernelImpl_of_no_address zlib config (attempts (2 - remaining)) state haddr
        rw [if_pos haddr] at hfinds
        rw [if_pos (hcontinues mode), hsame]
        exact ih hmsg hfinds
      · have hbroken := @sendKernelImpl_changes zlib config msg state (attempts (2 - remaining))
          hmsg (by simpa using haddr) hchanges
        split_ifs with hcontinues
        · exact sendLoop_not_repairs hbroken
        · exact hbroken
    · rw [if_neg hattempt] at hfinds
      exact absurd hfinds Bool.false_ne_true

variable (zlib config mode attempts beginTimestamp msg)

/-- A call of `sendDefaultImpl` sends the original body in every attempt and leaves the caller's
message with it, exactly unless the producer runs, the message passes the checks, some attempt finds
a queue and a broker address, and the body is long enough and is changed by compression. -/
theorem retriesSendOriginal_iff :
    RetriesSendOriginal zlib msg
        (sendDefaultImpl zlib config mode attempts beginTimestamp msg).2 ↔
      ¬ (config.running = true ∧ Validators.checkMessage msg config.maxMessageSize = none ∧
        findsBroker config attempts beginTimestamp 3 beginTimestamp = true ∧
        CompressionChanges zlib config msg) := by
  have hinitial : RetriesSendOriginal zlib msg ⟨msg, []⟩ :=
    ⟨fun sent hsent ↦ absurd hsent List.not_mem_nil, rfl⟩
  unfold sendDefaultImpl
  cases hrunning : config.running with
  | false => simpa using hinitial
  | true =>
    cases hcheck : Validators.checkMessage msg config.maxMessageSize with
    | some text => simpa using hinitial
    | none =>
      simp only [Bool.true_eq_false, ↓reduceIte, true_and]
      obtain ⟨body, hbody, hnonempty⟩ := Validators.exists_body_of_checkMessage hcheck
      constructor
      · rintro hfinal ⟨hfinds, hchanges⟩
        exact sendLoop_breaks rfl hfinds hchanges hfinal
      · intro hcondition
        refine sendLoop_keeps hbody hnonempty hinitial ?_
        by_cases hfinds : findsBroker config attempts beginTimestamp 3 beginTimestamp = true
        · exact Or.inr fun hchanges ↦ hcondition ⟨hfinds, hchanges⟩
        · exact Or.inl (by simpa using hfinds)

end Send

/-! ### A failing call -/

/-- The library on one body: twenty letters `a` at level `5`. -/
def zlibOfTwentyLetters : Zlib where
  compress body level :=
    if body = List.replicate 20 97 ∧ level = 5 then
      some [120, 94, 75, 76, 196, 4, 0, 79, 166, 7, 149]
    else none
  decompress bytes :=
    if bytes = [120, 94, 75, 76, 196, 4, 0, 79, 166, 7, 149] then some (List.replicate 20 97)
    else none
  decompress_compress := by
    intro body level out hcompress
    split_ifs at hcompress with hinput
    rw [← Option.some.inj hcompress, if_pos rfl, hinput.1]
  compress_ne_nil := by
    intro body level out hcompress
    split_ifs at hcompress with hinput
    rw [← Option.some.inj hcompress]
    exact List.cons_ne_nil _ _

/-- The first broker answers with a system error and the second attempt succeeds: the caller's
message keeps the compressed body, and the second attempt sends it without the flag, so that it is
read as it is. -/
theorem retry_sends_compressed_body :
    let msg : Message := ⟨[84], 0, some (List.replicate 20 97), OrderedMap.empty⟩
    let config : ProducerConfig := ⟨3000, 20, 5, 131072, false, true, [[110]]⟩
    let attempts : ℕ → SendAttempt := fun times ↦
      ⟨⟨[84], [98], 0⟩, [49], if times = 0 then .error (.brokerException 1) else .ok .sendOk, 10⟩
    let final := (sendDefaultImpl zlibOfTwentyLetters config .sync attempts 0 msg).2
    ¬ RetriesSendOriginal zlibOfTwentyLetters msg final ∧
      final.msg.body = some [120, 94, 75, 76, 196, 4, 0, 79, 166, 7, 149] ∧
      final.wire.map (fun sent ↦ decodeBody zlibOfTwentyLetters sent.sysFlag sent.body) =
        [some (List.replicate 20 97), some [120, 94, 75, 76, 196, 4, 0, 79, 166, 7, 149]] := by
  decide

end RocketMQClient.Producer
