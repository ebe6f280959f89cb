import RocketMQClient.Producer.SendRetry

/-!
# Asynchronous sends

The three overloads of `send` with a callback. Each makes its checks, looks for a queue and the
address of its broker, and hands the message to `sendMessage`, which in this mode returns a default
result once `invokeAsync` has returned. The overload without a queue retries over the queues of the
topic, the one with a queue catches everything that its attempt throws, and `invokeAsync` returns
`-1`, which nobody looks at, when there is no connected transport.

`placed_iff` says when exactly one thing comes of the call itself: an exception that reaches the
caller or a request that is registered for a response.

What happens to a registered request is not of this module. Here each overload is brought to one of
three results (`Result`): an exception, nothing at all, or one message for one broker; the overloads
differ in which exceptions of an attempt they catch, and this is what decides.
-/

set_option autoImplicit false
set_option relaxedAutoImplicit false

namespace RocketMQClient.Producer

open Library Messages

/-! ### The overloads -/

/-- What an attempt of the overload without a queue meets: the queue found, the address of its
broker, and the clock after the attempt. -/
structure SendRoute where
  mq : MessageQueue
  brokerAddr : ByteString
  endTimestamp : ℤ

/-- The attempt, with the default result that `sendMessage` returns. -/
def SendRoute.attempt (route : SendRoute) : SendAttempt :=
  ⟨route.mq, route.brokerAddr, .ok .sendOk, route.endTimestamp⟩

/-- The arguments of an overload next to the message and the callback, with what the call finds:
the attempts, the address of the broker of the queue, or the queues of the topic with the selector,
which may throw or return no queue, and the addresses of their brokers. -/
inductive AsyncOverload where
  | message (routes : ℕ → SendRoute) (beginTimestamp : ℤ)
  | queue (mq : MessageQueue) (brokerAddr : ByteString)
  | selector (messageQueueList : List MessageQueue)
      (select : List MessageQueue → Except Unit (Option MessageQueue))
      (brokerAddr : MessageQueue → ByteString)

section Overloads

variable (zlib : Zlib) (config : ProducerConfig) (msg : Message)

/-- `sendSelectImpl` in mode `ASYNC`. -/
def sendSelectImpl (messageQueueList : List MessageQueue)
    (select : List MessageQueue → Except Unit (Option MessageQueue))
    (brokerAddr : MessageQueue → ByteString) : Except SendError SendStatus × SendState :=
  if config.running = false then
    (.error (.clientException (ofString "The producer service state not OK, ")), ⟨msg, []⟩)
  else match Validators.checkMessage msg config.maxMessageSize with
    | some text => (.error (.clientException text), ⟨msg, []⟩)
    | none =>
      if messageQueueList = [] then
        (.error (.clientException (ofString "No route info for this topic: " ++ msg.topic)),
          ⟨msg, []⟩)
      else match select messageQueueList with
        | .error _ =>
          (.error (.clientException (ofString "select message queue throwed exception.")),
            ⟨msg, []⟩)
        | .ok none =>
          (.error (.clientException (ofString "select message queue return null.")), ⟨msg, []⟩)
        | .ok (some mq) =>
          sendKernelImpl zlib config ⟨msg, []⟩ ⟨mq, brokerAddr mq, .ok .sendOk, 0⟩

/-- What leaves a `catch (MQBrokerException)`. -/
def uncaught : Except SendError SendStatus → Option SendError
  | .error (.brokerException _) | .ok _ => none
  | .error error => some error

/-- A call of an overload: the exception that reaches the caller, and the state it leaves. -/
def AsyncOverload.send : AsyncOverload → Option SendError × SendState
  | .message routes beginTimestamp =>
    let result := sendDefaultImpl zlib config .async (fun times ↦ (routes times).attempt)
      beginTimestamp msg
    (uncaught result.1, result.2)
  | .queue mq brokerAddr =>
    if config.running = false then
      (some (.clientException (ofString "The producer service state not OK, ")), ⟨msg, []⟩)
    else match Validators.checkMessage msg config.maxMessageSize with
      | some text => (some (.clientException text), ⟨msg, []⟩)
      | none =>
        if msg.topic = mq.topic then
          (none, (sendKernelImpl zlib config ⟨msg, []⟩ ⟨mq, brokerAddr, .ok .sendOk, 0⟩).2)
        else
          (some (.clientException (ofString "message's topic not equal mq's topic")), ⟨msg, []⟩)
  | .selector messageQueueList select brokerAddr =>
    let result := sendSelectImpl zlib config msg messageQueueList select brokerAddr
    (uncaught result.1, result.2)

end Overloads

/-- A call of an overload with what it meets. `connected` says for which addresses
`GetAndCreateTransport` gives a connected transport. -/
structure SendRequest where
  zlib : Zlib
  config : ProducerConfig
  msg : Message
  overload : AsyncOverload
  connected : ByteString → Bool

namespace SendRequest

/-- The exception that reaches the caller. -/
def thrown (request : SendRequest) : Option SendError :=
  (request.overload.send request.zlib request.config request.msg).1

/-- The messages that are handed to `invokeAsync`. -/
def wire (request : SendRequest) : List SentMessage :=
  (request.overload.send request.zlib request.config request.msg).2.wire

/-- The messages that come to `invokeAsyncImpl`. -/
def invocations (request : SendRequest) : List SentMessage :=
  request.wire.filter fun sent ↦ request.connected sent.brokerAddr

end SendRequest

/-! ### The condition -/

/-- The first attempt that finds the address of a broker, of those that are made. -/
def firstRoute (config : ProducerConfig) (routes : ℕ → SendRoute) (beginTimestamp : ℤ) :
    ℕ → ℤ → Option SendRoute
  | 0, _ => none
  | remaining + 1, endTimestamp =>
    let route := routes (2 - remaining)
    if toInt32 (endTimestamp - beginTimestamp) < config.sendMsgTimeout ∧
        route.mq.topic.isEmpty = false then
      if route.brokerAddr.isEmpty then
        firstRoute config routes beginTimestamp remaining route.endTimestamp
      else some route
    else none

/-- The address of the broker that the call turns to. -/
def AsyncOverload.target (config : ProducerConfig) (msg : Message) :
    AsyncOverload → Option ByteString
  | .message routes beginTimestamp =>
    (firstRoute config routes beginTimestamp 3 beginTimestamp).map SendRoute.brokerAddr
  | .queue mq brokerAddr =>
    if msg.topic = mq.topic ∧ brokerAddr.isEmpty = false then some brokerAddr else none
  | .selector messageQueueList select brokerAddr =>
    if messageQueueList = [] then none
    else match select messageQueueList with
      | .ok (some mq) => if (brokerAddr mq).isEmpty then none else some (brokerAddr mq)
      | .ok none | .error _ => none

/-- The overload with a queue finds no broker for it. -/
def AsyncOverload.FindsNoBroker (msg : Message) : AsyncOverload → Prop
  | .queue mq brokerAddr => msg.topic = mq.topic ∧ brokerAddr.isEmpty = true
  | .message _ _ | .selector _ _ _ => False

/-- When the checks are passed, the overload with a queue finds a broker, and there is a connected
transport to the broker that the call turns to. -/
def SendRequest.Reaches (request : SendRequest) : Prop :=
  request.config.running = true →
    Validators.checkMessage request.msg request.config.maxMessageSize = none →
      ¬ request.overload.FindsNoBroker request.msg ∧
        ∀ address ∈ request.overload.target request.config request.msg,
          request.connected address = true

/-! ### One call -/

/-- An attempt: nothing happens but the exception, or one message is handed on. -/
def Attempted (address : Option ByteString) (before : List SentMessage)
    (result : Except SendError SendStatus × SendState) : Prop :=
  (address = none ∧ (∃ text, result.1 = .error (.clientException text)) ∧
      result.2.wire = before) ∨
    ∃ sent : SentMessage, address = some sent.brokerAddr ∧ result.1 = .ok .sendOk ∧
      result.2.wire = before ++ [sent]

variable {zlib : Zlib} {config : ProducerConfig} {msg : Message}

theorem sendKernelImpl_attempted (state : SendState) (mq : MessageQueue) (brokerAddr : ByteString)
    (endTimestamp : ℤ) :
    Attempted (if brokerAddr.isEmpty then none else some brokerAddr) state.wire
      (sendKernelImpl zlib config state ⟨mq, brokerAddr, .ok .sendOk, endTimestamp⟩) := by
  unfold sendKernelImpl
  split_ifs with hempty
  · exact Or.inl ⟨rfl, ⟨_, rfl⟩, rfl⟩
  · exact Or.inr ⟨_, rfl, rfl, rfl⟩

/-- The loop of retries hands on one message at most. -/
theorem sendLoop_attempted {routes : ℕ → SendRoute} {beginTimestamp : ℤ} (remaining : ℕ)
    (endTimestamp : ℤ) (state : SendState) :
    Attempted ((firstRoute config routes beginTimestamp remaining endTimestamp).map
        SendRoute.brokerAddr) state.wire
      (sendLoop zlib config .async (fun times ↦ (routes times).attempt) beginTimestamp remaining
        endTimestamp state) := by
  induction remaining generalizing endTimestamp state with
  | zero => exact Or.inl ⟨rfl, ⟨_, rfl⟩, rfl⟩
  | succ remaining ih =>
    unfold firstRoute sendLoop
    dsimp only
    by_cases htime : toInt32 (endTimestamp - beginTimestamp) < config.sendMsgTimeout ∧
        (routes (2 - remaining)).mq.topic.isEmpty = false
    · have hattempt : toInt32 (endTimestamp - beginTimestamp) < config.sendMsgTimeout ∧
          (routes (2 - remaining)).attempt.mq.topic.isEmpty = false := htime
      rw [if_pos htime, if_pos hattempt]
      by_cases hempty : (routes (2 - remaining)).brokerAddr.isEmpty = true
      · obtain ⟨hsame, hcontinues⟩ := @sendKernelImpl_of_no_address zlib config
          (routes (2 - remaining)).attempt state hempty
        rw [if_pos hempty, if_pos (hcontinues .async), hsame]
        exact ih _ state
      · have hattempted := @sendKernelImpl_attempted zlib config state
          (routes (2 - remaining)).mq (routes (2 - remaining)).brokerAddr
          (routes (2 - remaining)).endTimestamp
        rw [if_neg hempty] at hattempted
        have hdone : continues config .async
            (sendKernelImpl zlib config state (routes (2 - remaining)).attempt).1 ≠ true := by
          rcases hattempted with ⟨hnone, -⟩ | ⟨sent, -, hok, -⟩
          · cases hnone
          · rw [show (sendKernelImpl zlib config state (routes (2 - remaining)).attempt).1 = _
              from hok]
            exact Bool.false_ne_true
        rw [if_neg hempty, if_neg hdone]
        exact hattempted
    · have hattempt : ¬ (toInt32 (endTimestamp - beginTimestamp) < config.sendMsgTimeout ∧
          (routes (2 - remaining)).attempt.mq.topic.isEmpty = false) := htime
      rw [if_neg htime, if_neg hattempt]
      exact Or.inl ⟨rfl, ⟨_, rfl⟩, rfl⟩

/-- A selector hands on one message at most. -/
theorem sendSelectImpl_attempted {messageQueueList : List MessageQueue}
    {select : List MessageQueue → Except Unit (Option MessageQueue)}
    {brokerAddr : MessageQueue → ByteString} (hrunning : config.running = true)
    (hcheck : Validators.checkMessage msg config.maxMessageSize = none) :
    Attempted ((AsyncOverload.selector messageQueueList select brokerAddr).target config msg) []
      (sendSelectImpl zlib config msg messageQueueList select brokerAddr) := by
  have hnot : ¬ config.running = false := by simp [hrunning]
  unfold sendSelectImpl AsyncOverload.target
  rw [if_neg hnot, hcheck]
  dsimp only
  split_ifs with hnil
  · exact Or.inl ⟨rfl, ⟨_, rfl⟩, rfl⟩
  · cases select messageQueueList with
    | error thrown => exact Or.inl ⟨rfl, ⟨_, rfl⟩, rfl⟩
    | ok selected =>
      cases selected with
      | none => exact Or.inl ⟨rfl, ⟨_, rfl⟩, rfl⟩
      | some mq => exact sendKernelImpl_attempted ⟨msg, []⟩ mq (brokerAddr mq) 0

/-- An attempt behind a `catch (MQBrokerException)`: either an exception reaches the caller or one
message is handed on. -/
theorem Attempted.uncaught {address : Option ByteString}
    {result : Except SendError SendStatus × SendState} (hattempted : Attempted address [] result) :
    (address = none ∧ (∃ error, Producer.uncaught result.1 = some error) ∧ result.2.wire = []) ∨
      ∃ sent : SentMessage, address = some sent.brokerAddr ∧ Producer.uncaught result.1 = none ∧
        result.2.wire = [sent] := by
  rcases hattempted with ⟨hnone, ⟨text, herror⟩, hwire⟩ | ⟨sent, hsome, hok, hwire⟩
  · exact Or.inl ⟨hnone, ⟨.clientException text, by rw [herror]; rfl⟩, hwire⟩
  · exact Or.inr ⟨sent, hsome, by rw [hok]; rfl, hwire⟩

section Passed

variable (hrunning : config.running = true)
  (hcheck : Validators.checkMessage msg config.maxMessageSize = none)

include hrunning hcheck

/-- The overload without a queue, when the checks are passed. -/
theorem send_message (routes : ℕ → SendRoute) (beginTimestamp : ℤ) :
    ∃ result, (AsyncOverload.message routes beginTimestamp).send zlib config msg =
      (uncaught result.1, result.2) ∧
        Attempted ((AsyncOverload.message routes beginTimestamp).target config msg) [] result := by
  have hloop : sendDefaultImpl zlib config .async (fun times ↦ (routes times).attempt)
      beginTimestamp msg = sendLoop zlib config .async (fun times ↦ (routes times).attempt)
        beginTimestamp 3 beginTimestamp ⟨msg, []⟩ := by
    rw [sendDefaultImpl, if_neg (by simp [hrunning]), hcheck]
  refine ⟨_, rfl, ?_⟩
  rw [hloop]
  exact sendLoop_attempted 3 beginTimestamp ⟨msg, []⟩

/-- The overload with a selector, when the checks are passed. -/
theorem send_selector (messageQueueList : List MessageQueue)
    (select : List MessageQueue → Except Unit (Option MessageQueue))
    (brokerAddr : MessageQueue → ByteString) :
    ∃ result, (AsyncOverload.selector messageQueueList select brokerAddr).send zlib config msg =
      (uncaught result.1, result.2) ∧
        Attempted ((AsyncOverload.selector messageQueueList select brokerAddr).target config msg) []
          result :=
  ⟨_, rfl, sendSelectImpl_attempted hrunning hcheck⟩

/-- The overload with a queue of the topic, when the checks are passed. -/
theorem send_queue {mq : MessageQueue} (htopic : msg.topic = mq.topic) (brokerAddr : ByteString) :
    ∃ result, (AsyncOverload.queue mq brokerAddr).send zlib config msg = (none, result.2) ∧
      Attempted (if brokerAddr.isEmpty then none else some brokerAddr) [] result := by
  refine ⟨_, ?_, @sendKernelImpl_attempted zlib config ⟨msg, []⟩ mq brokerAddr 0⟩
  refine (if_neg (by simp [hrunning])).trans ?_
  rw [hcheck]
  exact if_pos htopic

theorem send_queue_of_topic_ne {mq : MessageQueue} (htopic : msg.topic ≠ mq.topic)
    (brokerAddr : ByteString) :
    (AsyncOverload.queue mq brokerAddr).send zlib config msg =
      (some (.clientException (ofString "message's topic not equal mq's topic")), ⟨msg, []⟩) := by
  refine (if_neg (by simp [hrunning])).trans ?_
  rw [hcheck]
  exact if_neg htopic

end Passed

namespace SendRequest

variable {request : SendRequest}

/-- A call that fails its checks ends in an exception. -/
theorem thrown_of_check (hcheck : ¬ (request.config.running = true ∧
    Validators.checkMessage request.msg request.config.maxMessageSize = none)) :
    (∃ error, request.thrown = some error) ∧ request.wire = [] := by
  unfold thrown wire AsyncOverload.send sendDefaultImpl sendSelectImpl
  cases hrunning : request.config.running with
  | false => cases request.overload <;> exact ⟨⟨_, rfl⟩, rfl⟩
  | true =>
    cases htext : Validators.checkMessage request.msg request.config.maxMessageSize with
    | none => exact absurd ⟨hrunning, htext⟩ hcheck
    | some text => cases request.overload <;> exact ⟨⟨_, rfl⟩, rfl⟩

/-- What a call comes to: an exception, nothing, or one message for a broker. -/
inductive Result (request : SendRequest) : Prop
  | thrown : request.overload.target request.config request.msg = none →
    ¬ request.overload.FindsNoBroker request.msg → (∃ error, request.thrown = some error) →
    request.wire = [] → Result request
  | swallowed : request.overload.FindsNoBroker request.msg → request.thrown = none →
    request.wire = [] → Result request
  | sent (sent : SentMessage) :
    request.overload.target request.config request.msg = some sent.brokerAddr →
    ¬ request.overload.FindsNoBroker request.msg → request.thrown = none →
    request.wire = [sent] → Result request

/-- An overload behind a `catch (MQBrokerException)`. -/
theorem result_of_uncaught {result : Except SendError SendStatus × SendState}
    (hsend : request.overload.send request.zlib request.config request.msg =
      (uncaught result.1, result.2))
    (hattempted : Attempted (request.overload.target request.config request.msg) [] result)
    (hfinds : ¬ request.overload.FindsNoBroker request.msg) : request.Result := by
  rcases hattempted.uncaught with ⟨hnone, ⟨error, herror⟩, hwire⟩ | ⟨sent, hsome, hnone, hwire⟩
  · refine .thrown hnone hfinds ⟨error, ?_⟩ ?_
    · rw [thrown, hsend]
      exact herror
    · rw [wire, hsend]
      exact hwire
  · refine .sent sent hsome hfinds ?_ ?_
    · rw [thrown, hsend]
      exact hnone
    · rw [wire, hsend]
      exact hwire

/-- A call that passes its checks. -/
theorem result_of_check (hrunning : request.config.running = true)
    (hcheck : Validators.checkMessage request.msg request.config.maxMessageSize = none) :
    request.Result := by
  obtain ⟨zlib, config, msg, overload, connected⟩ := request
  cases overload with
  | message routes beginTimestamp =>
    obtain ⟨result, hsend, hattempted⟩ := send_message hrunning hcheck routes beginTimestamp
    exact result_of_uncaught hsend hattempted id
  | selector messageQueueList select brokerAddr =>
    obtain ⟨result, hsend, hattempted⟩ :=
      send_selector hrunning hcheck messageQueueList select brokerAddr
    exact result_of_uncaught hsend hattempted id
  | queue mq brokerAddr =>
    by_cases htopic : msg.topic = mq.topic
    · obtain ⟨result, hsend, hattempted⟩ := send_queue hrunning hcheck htopic brokerAddr
      rcases hattempted with ⟨hnone, -, hwire⟩ | ⟨sent, hsome, -, hwire⟩
      · have hempty : brokerAddr.isEmpty = true := by
          by_contra hne
          rw [if_neg hne] at hnone
          cases hnone
        exact .swallowed ⟨htopic, hempty⟩ (congrArg Prod.fst hsend)
          ((congrArg (fun pair ↦ pair.2.wire) hsend).trans hwire)
      · have hnonempty : ¬ brokerAddr.isEmpty = true := by
          intro hempty
          rw [if_pos hempty] at hsome
          cases hsome
        rw [if_neg hnonempty] at hsome
        refine .sent sent ?_ (fun hboth ↦ hnonempty hboth.2) (congrArg Prod.fst hsend)
          ((congrArg (fun pair ↦ pair.2.wire) hsend).trans hwire)
        rw [AsyncOverload.target, if_pos ⟨htopic, Bool.eq_false_iff.mpr hnonempty⟩]
        exact hsome
    · have hsend := @send_queue_of_topic_ne zlib config msg hrunning hcheck mq htopic brokerAddr
      refine .thrown (if_neg fun hboth ↦ htopic hboth.1) (fun hboth ↦ htopic hboth.1)
        ⟨_, congrArg Prod.fst hsend⟩ (congrArg (fun pair ↦ pair.2.wire) hsend)

/-- What comes of the call itself is one thing at most. -/
theorem placed_le_one (request : SendRequest) :
    request.thrown.toList.length + request.invocations.length ≤ 1 := by
  by_cases hcheck : request.config.running = true ∧
      Validators.checkMessage request.msg request.config.maxMessageSize = none
  · unfold invocations
    rcases result_of_check hcheck.1 hcheck.2 with
      ⟨-, -, ⟨error, herror⟩, hwire⟩ | ⟨-, hnone, hwire⟩ | ⟨sent, -, -, hnone, hwire⟩
    · simp [herror, hwire]
    · simp [hnone, hwire]
    · rw [hnone, hwire, Option.toList_none, List.length_nil, Nat.zero_add]
      exact List.length_filter_le _ _
  · obtain ⟨⟨error, herror⟩, hwire⟩ := thrown_of_check hcheck
    simp [invocations, herror, hwire]

/-- An exception reaches the caller or one request is registered, exactly when the call, if it
passes its checks, finds a broker and a connected transport to it. -/
theorem placed_iff (request : SendRequest) :
    request.thrown.toList.length + request.invocations.length = 1 ↔ request.Reaches := by
  by_cases hcheck : request.config.running = true ∧
      Validators.checkMessage request.msg request.config.maxMessageSize = none
  · have hreaches : request.Reaches ↔ ¬ request.overload.FindsNoBroker request.msg ∧
        ∀ address ∈ request.overload.target request.config request.msg,
          request.connected address = true :=
      ⟨fun hreaches ↦ hreaches hcheck.1 hcheck.2, fun hboth _ _ ↦ hboth⟩
    rw [hreaches, invocations]
    rcases result_of_check hcheck.1 hcheck.2 with
      ⟨htarget, hfinds, ⟨error, herror⟩, hwire⟩ | ⟨hfinds, hnone, hwire⟩ |
        ⟨sent, htarget, hfinds, hnone, hwire⟩
    · simp [htarget, hfinds, herror, hwire]
    · simp [hfinds, hnone, hwire]
    · cases hconnected : request.connected sent.brokerAddr <;>
        simp [htarget, hfinds, hnone, hwire, hconnected]
  · obtain ⟨⟨error, herror⟩, hwire⟩ := thrown_of_check hcheck
    refine iff_of_true (by simp [invocations, herror, hwire]) fun hrunning hnone ↦ ?_
    exact absurd ⟨hrunning, hnone⟩ hcheck

end SendRequest

end RocketMQClient.Producer
