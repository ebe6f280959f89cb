import RocketMQClient.Producer.AsyncOutcome

/-!
# One-way sends

The three overloads of `sendOneway`. What they hand to `sendMessage` is sent without a record in
mode `ONEWAY`, and with a callback object and, on a connected transport, a `ResponseFuture` in mode
`ASYNC`. The overload with a selector passes `ASYNC` and a NULL callback, through which the callback
object calls when the response comes or the future expires.

`registers_nothing_iff` says that the one-way sends of a run register nothing exactly when none of
them is made with a selector and comes to `sendMessage`. `selector_oneway_calls_null` is a run in
which such a send times out.

Most of the work is a comparison with the asynchronous overloads: the call with a selector passes
the same mode and differs in its callback only, so that what it hands on is what the asynchronous
one does (`handovers_of_async`). What becomes of the futures is then a matter of the runs of the
remoting client.
-/

set_option autoImplicit false
set_option relaxedAutoImplicit false

namespace RocketMQClient.Producer

open Library Messages Protocol Transport

/-! ### The overloads -/

/-- The mode in which an overload of `sendOneway` hands its message on. -/
def AsyncOverload.onewayMode : AsyncOverload → CommunicationMode
  | .message _ _ | .queue _ _ => .oneway
  | .selector _ _ _ => .async

/-- An overload of `sendOneway`: the exception that reaches the caller, and the state it leaves. In
the modes `ONEWAY` and `ASYNC` `sendMessage` returns a default result. -/
def AsyncOverload.sendOneway (zlib : Zlib) (config : ProducerConfig) (msg : Message) :
    AsyncOverload → Option SendError × SendState
  | .message routes beginTimestamp =>
    let result := sendDefaultImpl zlib config .oneway (fun times ↦ (routes times).attempt)
      beginTimestamp msg
    (uncaught result.1, result.2)
  | .queue mq brokerAddr =>
    if config.running = false then
      (some (.clientException (ofString "The producer service state not OK, ")), ⟨msg, []⟩)
    else match Validators.checkMessage msg config.maxMessageSize with
      | some text => (some (.clientException text), ⟨msg, []⟩)
      | none =>
        if msg.topic = mq.topic then
          (none, (sendKernelImpl zlib config ⟨msg, []⟩ ⟨mq, brokerAddr, .ok .sendOk, 0⟩).2)
        else
          (some (.clientException (ofString "message's topic not equal mq's topic")), ⟨msg, []⟩)
  | .selector messageQueueList select brokerAddr =>
    let result := sendSelectImpl zlib config msg messageQueueList select brokerAddr
    (uncaught result.1, result.2)

/-- What `sendMessage` does with a message. -/
inductive Handover where
  | invokeOneway (sent : SentMessage)
  | sendMessageAsync (sent : SentMessage) (callback : ProducerInvokeCallback)
  | sendMessageSync (sent : SentMessage)

/-- The switch of `sendMessage`; `sendMessageAsync` makes a callback object. -/
def sendMessage (mode : CommunicationMode) (callback : ProducerInvokeCallback)
    (sent : SentMessage) : Handover :=
  match mode with
  | .oneway => .invokeOneway sent
  | .async => .sendMessageAsync sent callback
  | .sync => .sendMessageSync sent

namespace Handover

/-- The callback object that is made. -/
def invokeCallback : Handover → Option ProducerInvokeCallback
  | .sendMessageAsync _ callback => some callback
  | .invokeOneway _ | .sendMessageSync _ => none

/-- A `ResponseFuture` is made and registered: the transport is connected, and somebody waits. -/
def makesFuture (connected : ByteString → Bool) : Handover → Bool
  | .invokeOneway _ => false
  | .sendMessageAsync sent _ | .sendMessageSync sent => connected sent.brokerAddr

end Handover

namespace SendRequest

/-- What a one-way send hands on. -/
def handovers (request : SendRequest) (callback : ProducerInvokeCallback) : List Handover :=
  (request.overload.sendOneway request.zlib request.config request.msg).2.wire.map
    (sendMessage request.overload.onewayMode callback)

/-- The callback objects that a one-way send makes, all of them with a NULL callback. -/
def invokeCallbacks (request : SendRequest) (callback : ProducerInvokeCallback) :
    List ProducerInvokeCallback :=
  (request.handovers callback).filterMap Handover.invokeCallback

/-- What a one-way send makes a future for. -/
def futures (request : SendRequest) (callback : ProducerInvokeCallback) : List Handover :=
  (request.handovers callback).filter (Handover.makesFuture request.connected)

/-- The call passes its checks and finds a queue and the address of its broker. -/
def ComesToSendMessage (request : SendRequest) : Prop :=
  request.config.running = true ∧
    Validators.checkMessage request.msg request.config.maxMessageSize = none ∧
      request.overload.target request.config request.msg ≠ none

/-- The call is not one with a selector that comes to `sendMessage`. -/
def StaysOneway (request : SendRequest) : Prop :=
  request.overload.onewayMode = .async → ¬ request.ComesToSendMessage

end SendRequest

/-! ### The system -/

/-- A one-way send, with its callback objects and the addresses of its futures. -/
structure OnewaySend where
  request : SendRequest
  callbacks : List ProducerInvokeCallback
  addresses : List ℕ

/-- The remoting client with the one-way sends made so far. -/
structure OnewayClient where
  remoting : RemotingState
  sends : List OnewaySend

/-- A one-way send, whose futures get the next numbers, and the steps of the remoting client, which
include the requests of all other calls. -/
inductive OnewayEvent where
  | sendOneway (request : SendRequest) (callback : ProducerInvokeCallback) (opaqueIds : List ℤ)
    (now : ℤ)
  | remoting (event : RemotingEvent)

/-- The event is not a one-way send with a selector that comes to `sendMessage`. -/
def OnewayEvent.StaysOneway : OnewayEvent → Prop
  | .sendOneway request _ _ _ => request.StaysOneway
  | .remoting _ => True

namespace OnewayClient

/-- No call has been made. -/
def initial : OnewayClient := ⟨RemotingState.initial, []⟩

/-- One step. -/
def step (client : OnewayClient) : OnewayEvent → Option OnewayClient
  | .sendOneway request callback opaqueIds now =>
    if opaqueIds.length = (request.futures callback).length then
      (remotingSystem.run client.remoting
        (opaqueIds.map (SendingClient.invocation request now))).map fun remoting ↦
          ⟨remoting, client.sends ++ [⟨request, request.invokeCallbacks callback,
            List.range' client.remoting.responses.objects.length opaqueIds.length⟩]⟩
    else none
  | .remoting event =>
    (remotingSystem.step client.remoting event).map fun remoting ↦
      { client with remoting := remoting }

/-- The calls through the NULL callback of a one-way send so far. -/
def nullCalls (client : OnewayClient) (answers : Answers) (send : OnewaySend) :
    List SendOutcome :=
  send.addresses.flatMap fun address ↦
    (client.remoting.responses.objects[address]?).toList.flatMap fun call ↦
      send.callbacks.flatMap fun callback ↦
        call.future.callbacks.filterMap (callback.report answers call.opaqueId)

/-- A one-way send has no future and no callback object, and nothing is called through its NULL
callback. -/
structure RegistersNothing (answers : Answers) (client : OnewayClient) (send : OnewaySend) :
    Prop where
  noFuture : send.addresses = []
  noCallback : send.callbacks = []
  noNullCall : client.nullCalls answers send = []

end OnewayClient

/-- The remoting client with one-way sends. -/
def onewaySystem : EventSystem OnewayClient OnewayEvent where
  step := OnewayClient.step

/-! ### What a call registers -/

namespace SendRequest

variable {request : SendRequest} {callback : ProducerInvokeCallback}

/-- A call in mode `ONEWAY` makes no callback object and no future. -/
theorem nothing_of_oneway (hmode : request.overload.onewayMode = .oneway) :
    request.invokeCallbacks callback = [] ∧ request.futures callback = [] := by
  rw [invokeCallbacks, futures, handovers, hmode]
  constructor
  · rw [List.filterMap_map]
    exact List.filterMap_eq_nil_iff.mpr fun sent _ ↦ rfl
  · refine List.filter_eq_nil_iff.mpr fun handover hmem ↦ ?_
    obtain ⟨sent, -, rfl⟩ := List.mem_map.mp hmem
    exact Bool.false_ne_true

/-- A one-way send with a selector hands on what the asynchronous one does. -/
theorem handovers_of_async (hmode : request.overload.onewayMode = .async) :
    request.handovers callback = request.wire.map (sendMessage .async callback) := by
  obtain ⟨zlib, config, msg, overload, connected⟩ := request
  cases overload with
  | message routes beginTimestamp => cases hmode
  | queue mq brokerAddr => cases hmode
  | selector messageQueueList select brokerAddr => rfl

theorem onewayMode_ne_sync (overload : AsyncOverload) : overload.onewayMode ≠ .sync := by
  cases overload <;> exact CommunicationMode.noConfusion

/-- With a selector each message that is handed on gets a callback object. -/
theorem invokeCallbacks_eq_nil_iff_wire (hmode : request.overload.onewayMode = .async) :
    request.invokeCallbacks callback = [] ↔ request.wire = [] := by
  rw [invokeCallbacks, handovers_of_async hmode, List.filterMap_map]
  constructor
  · intro hnil
    refine List.eq_nil_iff_forall_not_mem.mpr fun sent hsent ↦ ?_
    have hnone := List.filterMap_eq_nil_iff.mp hnil sent hsent
    cases hnone
  · intro hnil
    rw [hnil]
    rfl

/-- The call with a selector comes to `sendMessage` exactly when it makes a callback object. -/
theorem invokeCallbacks_eq_nil_iff (hmode : request.overload.onewayMode = .async) :
    request.invokeCallbacks callback = [] ↔ ¬ request.ComesToSendMessage := by
  rw [invokeCallbacks_eq_nil_iff_wire hmode]
  by_cases hcheck : request.config.running = true ∧
      Validators.checkMessage request.msg request.config.maxMessageSize = none
  · rcases result_of_check hcheck.1 hcheck.2 with
      ⟨htarget, -, -, hnil⟩ | ⟨hfinds, -, -⟩ | ⟨sent, htarget, -, -, hsent⟩
    · exact iff_of_true hnil fun hcomes ↦ hcomes.2.2 htarget
    · obtain ⟨zlib, config, msg, overload, connected⟩ := request
      cases overload with
      | message routes beginTimestamp => cases hmode
      | queue mq brokerAddr => cases hmode
      | selector messageQueueList select brokerAddr => exact hfinds.elim
    · refine iff_of_false (hsent ▸ List.cons_ne_nil sent []) fun hnot ↦ ?_
      exact hnot ⟨hcheck.1, hcheck.2, htarget ▸ Option.some_ne_none _⟩
  · exact iff_of_true (thrown_of_check hcheck).2 fun hcomes ↦ hcheck ⟨hcomes.1, hcomes.2.1⟩

/-- A call makes no callback object exactly when it stays one-way. -/
theorem invokeCallbacks_eq_nil_iff_staysOneway :
    request.invokeCallbacks callback = [] ↔ request.StaysOneway := by
  cases hmode : request.overload.onewayMode with
  | sync => exact absurd hmode (onewayMode_ne_sync request.overload)
  | async =>
    rw [invokeCallbacks_eq_nil_iff hmode]
    exact ⟨fun hnot _ ↦ hnot, fun hstays ↦ hstays hmode⟩
  | oneway =>
    refine iff_of_true (nothing_of_oneway hmode).1 fun hasync ↦ ?_
    cases hmode.symm.trans hasync

/-- Without a callback object there is no future. -/
theorem futures_of_invokeCallbacks (hnil : request.invokeCallbacks callback = []) :
    request.futures callback = [] := by
  cases hmode : request.overload.onewayMode with
  | sync => exact absurd hmode (onewayMode_ne_sync request.overload)
  | async =>
    rw [futures, handovers_of_async hmode, (invokeCallbacks_eq_nil_iff_wire hmode).mp hnil]
    rfl
  | oneway => exact (nothing_of_oneway hmode).2

end SendRequest

/-! ### Every run -/

namespace OnewayClient

variable {answers : Answers} {state next : OnewayClient} {event : OnewayEvent}

/-- A send with a callback object. -/
def HasCallback (client : OnewayClient) : Prop := ∃ send ∈ client.sends, send.callbacks ≠ []

/-- No send has a callback object or a future. -/
def HasNothing (client : OnewayClient) : Prop :=
  ∀ send ∈ client.sends, send.addresses = [] ∧ send.callbacks = []

/-- What a step adds to the sends: nothing, or the send with what it registers. -/
theorem step_sends (hstep : onewaySystem.step state event = some next) :
    event.StaysOneway ∧ next.sends = state.sends ∨ ∃ request callback opaqueIds now,
      event = .sendOneway request callback opaqueIds now ∧
        opaqueIds.length = (request.futures callback).length ∧
        next.sends = state.sends ++ [⟨request, request.invokeCallbacks callback,
          List.range' state.remoting.responses.objects.length opaqueIds.length⟩] := by
  have hevent : state.step event = some next := hstep
  cases event with
  | sendOneway request callback opaqueIds now =>
    rw [step] at hevent
    split_ifs at hevent with hlength
    obtain ⟨remoting, -, rfl⟩ := Option.map_eq_some_iff.mp hevent
    exact Or.inr ⟨request, callback, opaqueIds, now, rfl, hlength, rfl⟩
  | remoting event =>
    obtain ⟨remoting, -, rfl⟩ := Option.map_eq_some_iff.mp hevent
    exact Or.inl ⟨trivial, rfl⟩

/-- A send that stays one-way has nothing. -/
theorem hasNothing_step (state : OnewayClient) (event : OnewayEvent) (next : OnewayClient)
    (hnothing : state.HasNothing) (hgood : event.StaysOneway)
    (hstep : onewaySystem.step state event = some next) : next.HasNothing := by
  unfold HasNothing
  rcases step_sends hstep with
    ⟨-, hsame⟩ | ⟨request, callback, opaqueIds, now, rfl, hlength, hsends⟩
  · rw [hsame]
    exact hnothing
  · rw [hsends]
    intro send hsend
    rcases List.mem_append.mp hsend with hbefore | hnew
    · exact hnothing send hbefore
    · obtain rfl := List.mem_singleton.mp hnew
      have hnil := (@SendRequest.invokeCallbacks_eq_nil_iff_staysOneway request callback).mpr hgood
      rw [SendRequest.futures_of_invokeCallbacks hnil, List.length_nil] at hlength
      exact ⟨by rw [hlength, List.range'_zero], hnil⟩

/-- A send that does not stay one-way has a callback object. -/
theorem hasCallback_step (state : OnewayClient) (event : OnewayEvent) (next : OnewayClient)
    (hbad : ¬ event.StaysOneway) (hstep : onewaySystem.step state event = some next) :
    next.HasCallback := by
  rcases step_sends hstep with ⟨hremoting, -⟩ | ⟨request, callback, opaqueIds, now, rfl, -, hsends⟩
  · exact absurd hremoting hbad
  · unfold HasCallback
    rw [hsends]
    refine ⟨_, List.mem_append_right _ (List.mem_singleton_self _), fun hnil ↦ hbad ?_⟩
    exact SendRequest.invokeCallbacks_eq_nil_iff_staysOneway.mp hnil

theorem hasCallback_stays (state : OnewayClient) (event : OnewayEvent) (next : OnewayClient)
    (hstep : onewaySystem.step state event = some next) (hcallback : state.HasCallback) :
    next.HasCallback := by
  obtain ⟨send, hsend, hne⟩ := hcallback
  rcases step_sends hstep with
    ⟨-, hsame⟩ | ⟨request, callback, opaqueIds, now, rfl, -, hsends⟩
  · exact ⟨send, hsame ▸ hsend, hne⟩
  · exact ⟨send, hsends ▸ List.mem_append_left _ hsend, hne⟩

/-- The one-way sends of a run register nothing, and nothing is called through a NULL callback,
exactly when none of them is made with a selector and comes to `sendMessage`. -/
theorem registers_nothing_iff (answers : Answers) {events : List OnewayEvent} {last : OnewayClient}
    (hrun : onewaySystem.run initial events = some last) :
    onewaySystem.Along (fun _ event ↦ event.StaysOneway) initial events ↔
      ∀ send ∈ last.sends, RegistersNothing answers last send := by
  have hempty : initial.HasNothing := fun _ hmem ↦ absurd hmem List.not_mem_nil
  constructor
  · intro halong send hsend
    have hnothing : last.HasNothing := EventSystem.run_invariant_of_along
      (fun state event next hgood hstep hnothing ↦
        hasNothing_step state event next hnothing hgood hstep) halong hrun hempty
    obtain ⟨haddresses, hcallbacks⟩ := hnothing send hsend
    exact ⟨haddresses, hcallbacks, by rw [nullCalls, haddresses, List.flatMap_nil]⟩
  · intro hregisters
    by_contra hbad
    obtain ⟨send, hsend, hne⟩ := EventSystem.broken_of_not_along hasNothing_step
      (fun state event next _ ↦ hasCallback_step state event next) hasCallback_stays hrun hempty
      hbad
    exact hne (hregisters send hsend).noCallback

/-- A send to a queue of the broker `b`, chosen by a selector. -/
def selectorSend : SendRequest where
  zlib := SendingClient.zlibOff
  config := ⟨3000, 4096, 5, 131072, false, true, [[110]]⟩
  msg := ⟨[84], 0, some [1], OrderedMap.empty⟩
  overload := .selector [⟨[84], [98], 0⟩] (fun queues ↦ .ok queues.head?) fun _ ↦ [49]
  connected := fun _ ↦ true

/-- A one-way send to a queue, and a synchronous request of another call whose entry expires. -/
theorem registers_nothing_of_queue :
    let events : List OnewayEvent := [
      .sendOneway (SendingClient.oneSend [49]) ⟨[84], [98], []⟩ [] 0,
      .remoting (.invoke 5 3000 0 true), .remoting (.handleTimerEvent 5 3001)]
    ∃ last, onewaySystem.run initial events = some last ∧
      ∀ send ∈ last.sends,
        RegistersNothing ⟨fun _ ↦ [], fun _ ↦ true, fun _ ↦ true⟩ last send := by
  intro events
  obtain ⟨last, hrun⟩ : ∃ last, onewaySystem.run initial events = some last := ⟨_, rfl⟩
  have hstays : (SendingClient.oneSend [49]).StaysOneway := fun hasync ↦ nomatch hasync
  refine ⟨last, hrun, (registers_nothing_iff _ hrun).mp ⟨hstays, fun _ _ ↦ ⟨trivial, fun _ _ ↦ ?_⟩⟩⟩
  exact ⟨trivial, fun _ _ ↦ trivial⟩

/-- A one-way send with a selector has a future and a callback object, and when the response does
not come the callback object calls through its NULL callback. -/
theorem selector_oneway_calls_null : ∃ last,
    onewaySystem.run initial (.sendOneway selectorSend ⟨[84], [98], []⟩ [5] 0 ::
      SendingClient.expiry.map .remoting) = some last ∧
      ∃ send ∈ last.sends,
        ¬ RegistersNothing ⟨fun _ ↦ [], fun _ ↦ true, fun _ ↦ true⟩ last send ∧
        send.addresses = [0] ∧ send.callbacks = [⟨[84], [98], []⟩] ∧
        last.nullCalls ⟨fun _ ↦ [], fun _ ↦ true, fun _ ↦ true⟩ send =
          [.onException (ofString "wait response timeout") (-2)] := by
  refine ⟨_, rfl, ⟨selectorSend, [⟨[84], [98], []⟩], [0]⟩, List.mem_singleton_self _,
    fun hnothing ↦ ?_, rfl, rfl, rfl⟩
  exact List.cons_ne_nil _ _ hnothing.noFuture

end OnewayClient

end RocketMQClient.Producer
