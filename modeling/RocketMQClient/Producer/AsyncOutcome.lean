import RocketMQClient.Producer.AsyncSend
import RocketMQClient.Transport.InvokeAsync
import RocketMQClient.Transport.ReceivePath

/-!
# The outcome of an asynchronous send

A send with a callback comes to an exception that reaches the caller, to a call of `onSuccess` or to
a call of `onException`. `asyncSendSystem` puts calls of the three overloads into the remoting
client: the requests that come to `invokeAsyncImpl` are registered, and from then on the caller, the
workers and the event loop go on with them in any order. `ProducerInvokeCallback.report` is what the
callback of a request makes of the response it sees.

`exactly_one_outcome` says that every send has one outcome in every run in which the overload with a
queue finds a broker, the transport of a request is connected, a failure path of `invokeAsyncImpl`
still finds its entry, and the custom header of a response can be received; a send for which the
first two fail has none.

Two facts are put together. A send that reaches a transport either throws and registers nothing, or
registers one request and does not throw (`Sound.cases`); and a request that is registered comes to
its end once the threads and the clock go on (`ends_of_progress`). The model of the remoting client
and its futures is the one of the calls themselves, of which this module only keeps which requests
belong to which send.
-/

set_option autoImplicit false
set_option relaxedAutoImplicit false

namespace RocketMQClient.Producer

open Library Messages Protocol Transport

/-! ### The callback -/

/-- What comes of an asynchronous send. -/
inductive SendOutcome where
  | thrown (error : SendError)
  | onSuccess (result : SendResult)
  | onException (message : ByteString) (code : ℤ)
  deriving DecidableEq

/-- The outcome for the end of `processSendResponse`. -/
def SendOutcome.ofEnding : Ending → Option SendOutcome
  | .handled (.sent result) => some (.onSuccess result)
  | .mqException exception => some (.onException exception.message exception.code)
  | .handled _ | .dropped => none

/-- A `ProducerInvokeCallback`: the topic of its message, the broker of its queue and the prefix of
the client. -/
structure ProducerInvokeCallback where
  topic : ByteString
  brokerName : ByteString
  projectGroupPrefix : ByteString
  deriving DecidableEq

/-- What the network and the clock give: the frame of the response to a request, and what the
callback of a request reads of its future if there is none. -/
structure Answers where
  frames : ℤ → ByteString
  sendRequestOK : ℤ → Bool
  isTimeout : ℤ → Bool

namespace ProducerInvokeCallback

variable (callback : ProducerInvokeCallback)

/-- The request that waits with the callback. -/
def waiting : WaitingRequest :=
  .sendMessage callback.topic callback.brokerName callback.projectGroupPrefix

/-- `operationComplete`; nothing is reported when the custom header is not there. -/
def operationComplete (response : Option RemotingCommand) (sendRequestOK isTimeout : Bool) :
    Option SendOutcome :=
  match response with
  | some response => (processSendResponse callback.topic callback.brokerName
      callback.projectGroupPrefix response).toOption.bind SendOutcome.ofEnding
  | none =>
    if sendRequestOK = false then some (.onException (ofString "send request failed") (-1))
    else if isTimeout then some (.onException (ofString "wait response timeout") (-2))
    else some (.onException (ofString "unknow reseaon") (-3))

/-- The command that `ProcessData` makes of the response to the request. -/
def received (frame : ByteString) : Except ReceiveFault RemotingCommand :=
  match RemotingCommand.decode frame with
  | .error failure => .error (.frame failure)
  | .ok none => .error .nullCommand
  | .ok (some command) =>
    (makeCustomHeader command callback.waiting.requestCode frame).mapError .frame

/-- What a run of the callback of a request reports: without a response, or with the one to a
request, whose processing may break off before the callback. -/
def report (answers : Answers) (opaqueId : ℤ) : Option ℤ → Option SendOutcome
  | none =>
    callback.operationComplete none (answers.sendRequestOK opaqueId) (answers.isTimeout opaqueId)
  | some key => (callback.received (answers.frames key)).toOption.bind fun response ↦
      callback.operationComplete (some response) (answers.sendRequestOK opaqueId)
        (answers.isTimeout opaqueId)

/-- The frame is that of a response whose custom header can be received. -/
def Answerable (frame : ByteString) : Prop :=
  ∃ document, IsCommand frame document ∧ (commandAt document).isResponseType = true ∧
    HeaderReceivable frame document (some callback.waiting)

variable {callback} {answers : Answers} {opaqueId : ℤ}

theorem report_none : ∃ outcome, callback.report answers opaqueId none = some outcome := by
  unfold report operationComplete
  split_ifs <;> exact ⟨_, rfl⟩

/-- What `processSendResponse` ends in is reported. -/
theorem ofEnding_processSendResponse {topic brokerName projectGroupPrefix : ByteString}
    {response : RemotingCommand} {ending : Ending}
    (hending : processSendResponse topic brokerName projectGroupPrefix response = .ok ending) :
    ∃ outcome, SendOutcome.ofEnding ending = some outcome := by
  unfold processSendResponse readCustomHeader at hending
  split at hending
  · cases hending
    exact ⟨_, rfl⟩
  · split at hending
    · cases hending
    · rename_i header hheader
      cases header with
      | sendMessageResponseHeader msgId queueId queueOffset =>
        cases hending
        exact ⟨_, rfl⟩
      | _ => cases hending

/-- The response to a request is reported exactly when its custom header can be received. -/
theorem report_some_iff {key : ℤ} {document : Value}
    (hcommand : IsCommand (answers.frames key) document)
    (hresponse : (commandAt document).isResponseType = true) :
    (∃ outcome, callback.report answers opaqueId (some key) = some outcome) ↔
      HeaderReceivable (answers.frames key) document (some callback.waiting) := by
  obtain ⟨body, hdecode⟩ := hcommand.decode_eq
  have hcode : headerCode (commandAt document) (some callback.waiting) =
      callback.waiting.requestCode := if_pos hresponse
  have hpositive : 0 < callback.waiting.requestCode := (by decide : 0 < sendMessageValue)
  have hmake := @makeCustomHeader_succeeds_iff { commandAt document with body := body } _ _
    hcommand.parsed hcommand.head.isStruct callback.waiting.requestCode
  have hconsume := @consume_of_made callback.waiting { commandAt document with body := body } _ _
    hcommand.parsed hcommand.head.isStruct hresponse rfl
  have hreceived : callback.received (answers.frames key) =
      (makeCustomHeader { commandAt document with body := body } callback.waiting.requestCode
        (answers.frames key)).mapError .frame := by
    rw [received, hdecode]
  rw [headerReceivable_iff, hcode, report, hreceived]
  constructor
  · rintro ⟨outcome, houtcome⟩
    cases hmade : makeCustomHeader { commandAt document with body := body }
        callback.waiting.requestCode (answers.frames key) with
    | error failure =>
      rw [hmade] at houtcome
      cases houtcome
    | ok made =>
      rw [hmade] at houtcome
      refine ⟨fun _ ↦ hmake.mp ⟨made, hmade⟩, fun request hrequest ↦ ?_⟩
      obtain rfl := Option.some.inj hrequest
      refine (hconsume hmade).mp ?_
      have hreported : (callback.waiting.consume made).toOption.bind SendOutcome.ofEnding =
          some outcome := houtcome
      cases hending : callback.waiting.consume made with
      | error fault =>
        rw [hending] at hreported
        cases hreported
      | ok ending => exact succeeds_ok ending
  · rintro ⟨htyped, hpresent⟩
    obtain ⟨made, hmade⟩ := hmake.mpr (htyped hpositive)
    obtain ⟨ending, hending⟩ := (hconsume hmade).mpr (hpresent callback.waiting rfl)
    obtain ⟨outcome, houtcome⟩ := ofEnding_processSendResponse hending
    refine ⟨outcome, ?_⟩
    rw [hmade]
    show (callback.waiting.consume made).toOption.bind SendOutcome.ofEnding = some outcome
    rw [hending]
    exact houtcome

/-- A response that is received is reported. -/
theorem report_some {key : ℤ} (hanswerable : callback.Answerable (answers.frames key)) :
    ∃ outcome, callback.report answers opaqueId (some key) = some outcome := by
  obtain ⟨document, hcommand, hresponse, hheader⟩ := hanswerable
  exact (report_some_iff hcommand hresponse).mpr hheader

end ProducerInvokeCallback

/-! ### The system -/

/-- A call of an overload, with the addresses of the requests that it has registered. -/
structure AsyncSend where
  request : SendRequest
  callback : ProducerInvokeCallback
  addresses : List ℕ

/-- The remoting client with the sends made so far. -/
structure SendingClient where
  remoting : RemotingState
  sends : List AsyncSend

/-- A call of an overload, whose requests get the next numbers, and the steps of the remoting
client. -/
inductive SendingEvent where
  | send (request : SendRequest) (callback : ProducerInvokeCallback) (opaqueIds : List ℤ) (now : ℤ)
  | remoting (event : RemotingEvent)

namespace SendingClient

/-- No call has been made. -/
def initial : SendingClient := ⟨RemotingState.initial, []⟩

/-- The registration of a request of an asynchronous send. -/
def invocation (request : SendRequest) (now : ℤ) (opaqueId : ℤ) : RemotingEvent :=
  .invoke opaqueId request.config.sendMsgTimeout now false

/-- One step. -/
def step (client : SendingClient) : SendingEvent → Option SendingClient
  | .send request callback opaqueIds now =>
    if opaqueIds.length = request.invocations.length then
      (remotingSystem.run client.remoting (opaqueIds.map (invocation request now))).map
        fun remoting ↦ ⟨remoting, client.sends ++ [⟨request, callback,
          List.range' client.remoting.responses.objects.length opaqueIds.length⟩]⟩
    else none
  | .remoting event =>
    (remotingSystem.step client.remoting event).map fun remoting ↦
      { client with remoting := remoting }

/-- The outcomes that a send has had so far. -/
def outcomes (client : SendingClient) (answers : Answers) (send : AsyncSend) : List SendOutcome :=
  send.request.thrown.toList.map SendOutcome.thrown ++ send.addresses.flatMap fun address ↦
    (client.remoting.responses.objects[address]?).toList.flatMap fun call ↦
      call.future.callbacks.filterMap (send.callback.report answers call.opaqueId)

/-- Nobody is left who is to complete a request of the send. -/
def Settled (client : SendingClient) (send : AsyncSend) : Prop :=
  ∀ address ∈ send.addresses, ∀ call, client.remoting.responses.objects[address]? = some call →
    call.opaqueId ∉ client.remoting.responses.table ∧ ¬ call.Completing

/-- A send reaches a transport, a failure path of `invokeAsyncImpl` finds its entry, the custom
header of a response can be made, and the response to a request of a send can be received. -/
def KeepsOutcome (answers : Answers) (client : SendingClient) : SendingEvent → Prop
  | .send request _ _ _ => request.Reaches
  | .remoting event => client.remoting.Meets keepsCompletion event ∧
      ∀ opaqueId, event = .processData opaqueId → ∀ send ∈ client.sends,
        ∀ address ∈ send.addresses, ∀ call,
          client.remoting.responses.objects[address]? = some call → call.opaqueId = opaqueId →
            send.callback.Answerable (answers.frames opaqueId)

end SendingClient

/-- The remoting client with asynchronous sends. -/
def asyncSendSystem : EventSystem SendingClient SendingEvent where
  step := SendingClient.step

/-! ### What a step does to a request -/

/-- A response has come to the call. -/
def Seen (call : Call) : Prop :=
  (∃ key, call.holder = .took (some key)) ∨ (∃ key, call.holder = .stored (some key)) ∨
    (∃ key, call.future.responseCommand = some key) ∨ ∃ key, some key ∈ call.future.callbacks

theorem seen_of_executeInvokeCallback {future : ResponseFuture} {key : ℤ}
    (hmem : some key ∈ future.executeInvokeCallback.callbacks) :
    future.responseCommand = some key ∨ some key ∈ future.callbacks := by
  unfold ResponseFuture.executeInvokeCallback at hmem
  split_ifs at hmem with hblock hfirst
  · exact Or.inr hmem
  · rcases List.mem_append.mp hmem with hbefore | hnew
    · exact Or.inr hbefore
    · exact Or.inl (List.mem_singleton.mp hnew).symm
  · exact Or.inr hmem

theorem executeInvokeCallback_responseCommand (future : ResponseFuture) :
    future.executeInvokeCallback.responseCommand = future.responseCommand := by
  unfold ResponseFuture.executeInvokeCallback
  split <;> rfl

/-- A run of the callback shows it the response that has been stored. -/
theorem seen_of_execute {call : Call} {caller : CallerPhase} {holder : HolderPhase}
    (hholder : holder = call.holder ∨ holder = .idle ∨ holder = .called)
    (hseen : Seen ⟨call.future.executeInvokeCallback, caller, holder⟩) : Seen call := by
  rcases hseen with ⟨key, htook⟩ | ⟨key, hstored⟩ | ⟨key, hresponse⟩ | ⟨key, hmem⟩
  · rcases hholder with hsame | hidle | hcalled
    · exact Or.inl ⟨key, hsame.symm.trans htook⟩
    · cases hidle.symm.trans htook
    · cases hcalled.symm.trans htook
  · rcases hholder with hsame | hidle | hcalled
    · exact Or.inr (Or.inl ⟨key, hsame.symm.trans hstored⟩)
    · cases hidle.symm.trans hstored
    · cases hcalled.symm.trans hstored
  · rw [executeInvokeCallback_responseCommand] at hresponse
    exact Or.inr (Or.inr (Or.inl ⟨key, hresponse⟩))
  · rcases seen_of_executeInvokeCallback hmem with hresponse | hbefore
    · exact Or.inr (Or.inr (Or.inl ⟨key, hresponse⟩))
    · exact Or.inr (Or.inr (Or.inr ⟨key, hbefore⟩))

/-- A step that leaves the responses of a call, and its holder with none. -/
theorem seen_of_holder {call next : Call} (hseen : Seen next)
    (htook : ∀ key, next.holder ≠ .took (some key))
    (hstored : ∀ key, next.holder ≠ .stored (some key))
    (hresponse : next.future.responseCommand = call.future.responseCommand)
    (hcallbacks : next.future.callbacks = call.future.callbacks) : Seen call := by
  rcases hseen with ⟨key, hkey⟩ | ⟨key, hkey⟩ | ⟨key, hkey⟩ | ⟨key, hkey⟩
  · exact absurd hkey (htook key)
  · exact absurd hkey (hstored key)
  · exact Or.inr (Or.inr (Or.inl ⟨key, hresponse ▸ hkey⟩))
  · exact Or.inr (Or.inr (Or.inr ⟨key, hcallbacks ▸ hkey⟩))

/-- No step of a thread makes a response up. -/
theorem seen_of_advance {call next : Call} {step : CallStep}
    (hadvance : call.advance step = some next) (hseen : Seen next) : Seen call := by
  cases step with
  | sendCmd | eraseEntry | waitResponse | callerDeletes =>
    obtain ⟨-, rfl⟩ := Option.ite_some_none_eq_some.mp hadvance
    exact hseen
  | setSendRequestOK =>
    obtain ⟨ok, -, rfl⟩ := Call.advance_setSendRequestOK hadvance
    exact hseen
  | callerExecutes throws =>
    obtain ⟨-, rfl⟩ := Option.ite_some_none_eq_some.mp hadvance
    exact seen_of_execute (Or.inl rfl) hseen
  | holderExecutes throws =>
    obtain ⟨response, -, -, rfl⟩ := Call.advance_holderExecutes hadvance
    refine seen_of_execute (Or.inr ?_) hseen
    cases throws
    · exact Or.inr rfl
    · exact Or.inl rfl
  | headerThrows =>
    obtain ⟨response, -, rfl⟩ := Call.advance_headerThrows hadvance
    exact seen_of_holder hseen (by simp) (by simp) rfl rfl
  | putResponse =>
    obtain ⟨response, hholder, rfl⟩ := Call.advance_putResponse hadvance
    rcases hseen with ⟨key, hkey⟩ | ⟨key, hkey⟩ | ⟨key, hkey⟩ | ⟨key, hkey⟩
    · cases hkey
    · cases hkey
      exact Or.inl ⟨key, hholder⟩
    · exact Or.inl ⟨key, hholder.trans (congrArg HolderPhase.took hkey)⟩
    · exact Or.inr (Or.inr (Or.inr ⟨key, hkey⟩))
  | notify =>
    obtain ⟨response, -, -, rfl⟩ := Call.advance_notify hadvance
    refine seen_of_holder hseen (fun key ↦ ?_) (fun key ↦ ?_) rfl rfl
    · dsimp only
      split <;> simp
    · dsimp only
      split <;> simp
  | getInvokeCallback | holderDeletes =>
    obtain ⟨-, rfl⟩ := Option.ite_some_none_eq_some.mp hadvance
    exact seen_of_holder hseen (by simp) (by simp) rfl rfl

/-- What an event does to a request: its number and kind stay, and a response comes to it only when
it is processed. -/
structure Becomes (state : RemotingState) (event : RemotingEvent) (address : ℕ)
    (call next : Call) : Prop where
  opaqueId : next.opaqueId = call.opaqueId
  block : next.future.block = call.future.block
  seen : Seen next → Seen call ∨
    ∃ opaqueId, event = .processData opaqueId ∧ state.find opaqueId = some (address, call)

theorem Becomes.refl (state : RemotingState) (event : RemotingEvent) (address : ℕ) (call : Call) :
    Becomes state event address call call := ⟨rfl, rfl, Or.inl⟩

/-- An event that overwrites one request. -/
theorem becomes_of_set {state : RemotingState} {event : RemotingEvent} {address other : ℕ}
    {call found moved : Call} (hget : state.responses.objects[address]? = some call)
    (hfound : state.responses.objects[other]? = some found)
    (hmoved : Becomes state event other found moved) :
    ∃ after, (state.responses.objects.set other moved)[address]? = some after ∧
      Becomes state event address call after := by
  by_cases hsame : other = address
  · subst hsame
    obtain rfl := Option.some.inj (hget.symm.trans hfound)
    exact ⟨moved, List.getElem?_set_self (List.getElem?_eq_some_iff.mp hget).1, hmoved⟩
  · refine ⟨call, ?_, Becomes.refl state event address call⟩
    rw [List.getElem?_set_ne hsame]
    exact hget

theorem remoting_becomes {state next : RemotingState} {event : RemotingEvent}
    (hstep : remotingSystem.step state event = some next) {address : ℕ} {call : Call}
    (hget : state.responses.objects[address]? = some call) :
    ∃ after, next.responses.objects[address]? = some after ∧
      Becomes state event address call after := by
  cases event with
  | invoke opaqueId timeoutMillis now block =>
    simp only [remotingSystem, RemotingState.step] at hstep
    split at hstep
    · cases hstep
    · obtain rfl := Option.some.inj hstep
      refine ⟨call, ?_, Becomes.refl _ _ _ _⟩
      show (state.responses.objects ++ [_])[address]? = some call
      rw [List.getElem?_append_left (List.getElem?_eq_some_iff.mp hget).1]
      exact hget
  | thread other step =>
    obtain ⟨found, hfound, hcall⟩ := Option.bind_eq_some_iff.mp hstep
    obtain ⟨moved, hadvance, rfl⟩ := Option.map_eq_some_iff.mp hcall
    have hmoved : Becomes state (.thread other step) other found moved :=
      ⟨Call.advance_opaqueId hadvance, Call.advance_block hadvance,
        fun hseen ↦ Or.inl (seen_of_advance hadvance hseen)⟩
    have hset := becomes_of_set hget hfound hmoved
    split
    · unfold RemotingState.eraseEntry
      split
      · exact hset
      · split <;> exact hset
    · exact hset
  | processData opaqueId =>
    simp only [remotingSystem, RemotingState.step] at hstep
    split at hstep
    · cases hstep
      exact ⟨call, hget, Becomes.refl _ _ _ _⟩
    · rename_i other found hfind
      cases hstep
      exact becomes_of_set hget (RemotingState.find_eq_some hfind).2
        ⟨rfl, rfl, fun _ ↦ Or.inr ⟨opaqueId, rfl, hfind⟩⟩
  | handleTimerEvent opaqueId now =>
    obtain ⟨⟨other, found⟩, hfind, rfl⟩ := Option.map_eq_some_iff.mp hstep
    have hfound := (RemotingState.find_eq_some hfind).2
    split
    · refine becomes_of_set hget hfound ⟨rfl, rfl, fun hseen ↦ Or.inl ?_⟩
      exact seen_of_holder hseen (by simp [Call.take]) (by simp [Call.take]) rfl rfl
    · exact becomes_of_set hget hfound ⟨rfl, rfl, Or.inl⟩

/-! ### What a run keeps -/

namespace SendingClient

variable {client next : SendingClient} {answers : Answers}

/-- The requests of a send are those that came to `invokeAsyncImpl`. -/
def Recorded (client : SendingClient) (send : AsyncSend) : Prop :=
  send.addresses.length = send.request.invocations.length ∧
    ∀ address ∈ send.addresses, ∃ call,
      client.remoting.responses.objects[address]? = some call ∧ call.future.block = false

/-- A response that has come to a request of a send can be received. -/
def Answered (answers : Answers) (client : SendingClient) (send : AsyncSend) : Prop :=
  ∀ address ∈ send.addresses, ∀ call, client.remoting.responses.objects[address]? = some call →
    Seen call → send.callback.Answerable (answers.frames call.opaqueId)

/-- The requests make progress, the sends reach their transports, and their responses can be
received. -/
structure Sound (answers : Answers) (client : SendingClient) : Prop where
  holds : client.remoting.responses.Holds Call.opaqueId fun registered call ↦
    call.future.block = false → Call.Progress registered call
  reaches : ∀ send ∈ client.sends, send.request.Reaches
  recorded : ∀ send ∈ client.sends, client.Recorded send
  answered : ∀ send ∈ client.sends, client.Answered answers send

/-- The registration of requests allocates their futures. -/
theorem objects_of_invocations {request : SendRequest} {now : ℤ} {opaqueIds : List ℤ}
    {state last : RemotingState}
    (hrun : remotingSystem.run state (opaqueIds.map (invocation request now)) = some last) :
    last.responses.objects = state.responses.objects ++ opaqueIds.map fun opaqueId ↦
      Call.new opaqueId request.config.sendMsgTimeout now false := by
  induction opaqueIds generalizing state with
  | nil =>
    obtain rfl := Option.some.inj hrun
    exact (List.append_nil _).symm
  | cons opaqueId rest ih =>
    obtain ⟨middle, hstep, hrest⟩ := EventSystem.run_cons.mp hrun
    simp only [remotingSystem, invocation, RemotingState.step] at hstep
    split at hstep
    · cases hstep
    · obtain rfl := Option.some.inj hstep
      rw [ih hrest, List.map_cons]
      show (state.responses.objects ++ [_]) ++ _ = _
      rw [List.append_assoc, List.singleton_append]

theorem holds_of_invocations {request : SendRequest} {now : ℤ} {opaqueIds : List ℤ}
    {state last : RemotingState}
    (hrun : remotingSystem.run state (opaqueIds.map (invocation request now)) = some last)
    (hholds : state.responses.Holds Call.opaqueId fun registered call ↦
      call.future.block = false → Call.Progress registered call) :
    last.responses.Holds Call.opaqueId fun registered call ↦
      call.future.block = false → Call.Progress registered call := by
  induction opaqueIds generalizing state with
  | nil => exact Option.some.inj hrun ▸ hholds
  | cons opaqueId rest ih =>
    obtain ⟨middle, hstep, hrest⟩ := EventSystem.run_cons.mp hrun
    have hgood : state.Meets keepsCompletion (invocation request now opaqueId) := trivial
    exact ih hrest (keepsCompletion_maintained.step hgood hstep hholds)

/-- An object that was there before a registration is still there. -/
theorem getElem?_of_invocations {objects more : List Call} {address : ℕ} {call : Call}
    (hget : objects[address]? = some call) : (objects ++ more)[address]? = some call := by
  rw [List.getElem?_append_left (List.getElem?_eq_some_iff.mp hget).1]
  exact hget

/-- The requests of a new send. -/
theorem getElem?_of_mem_range {objects more : List Call} {address : ℕ}
    (hmem : address ∈ List.range' objects.length more.length) :
    ∃ call ∈ more, (objects ++ more)[address]? = some call := by
  obtain ⟨hlower, hupper⟩ := List.mem_range'_1.mp hmem
  have hindex : address - objects.length < more.length := by omega
  refine ⟨more[address - objects.length], List.getElem_mem hindex, ?_⟩
  rw [List.getElem?_append_right hlower]
  exact List.getElem?_eq_getElem hindex

/-- A new request has seen no response. -/
theorem not_seen_new (opaqueId timeoutMillis now : ℤ) (block : Bool) :
    ¬ Seen (Call.new opaqueId timeoutMillis now block) := by
  rintro (⟨key, hkey⟩ | ⟨key, hkey⟩ | ⟨key, hkey⟩ | ⟨key, hkey⟩)
  · cases hkey
  · cases hkey
  · cases hkey
  · exact List.not_mem_nil hkey

/-- Every step keeps the records of the sends. -/
theorem step_recorded (state : SendingClient) (event : SendingEvent) (next : SendingClient)
    (hsystem : asyncSendSystem.step state event = some next)
    (hrecorded : ∀ send ∈ state.sends, state.Recorded send) :
    ∀ send ∈ next.sends, next.Recorded send := by
  have hstep : state.step event = some next := hsystem
  cases event with
  | send request callback opaqueIds now =>
    rw [step] at hstep
    split_ifs at hstep with hlength
    obtain ⟨remoting, hrun, rfl⟩ := Option.map_eq_some_iff.mp hstep
    have hobjects := objects_of_invocations hrun
    intro send hsend
    rcases List.mem_append.mp hsend with hbefore | hnew
    · obtain ⟨hsame, heach⟩ := hrecorded send hbefore
      refine ⟨hsame, fun address haddress ↦ ?_⟩
      obtain ⟨call, hget, hblock⟩ := heach address haddress
      refine ⟨call, ?_, hblock⟩
      show remoting.responses.objects[address]? = some call
      rw [hobjects]
      exact getElem?_of_invocations hget
    · obtain rfl := List.mem_singleton.mp hnew
      refine ⟨by rw [List.length_range']; exact hlength, fun address haddress ↦ ?_⟩
      obtain ⟨call, hcall, hget⟩ := @getElem?_of_mem_range state.remoting.responses.objects
        (opaqueIds.map fun opaqueId ↦ Call.new opaqueId request.config.sendMsgTimeout now false)
        address (by rwa [List.length_map])
      obtain ⟨opaqueId, -, rfl⟩ := List.mem_map.mp hcall
      refine ⟨Call.new opaqueId request.config.sendMsgTimeout now false, ?_, rfl⟩
      show remoting.responses.objects[address]? = _
      rw [hobjects]
      exact hget
  | remoting event =>
    obtain ⟨remoting, hremoting, rfl⟩ := Option.map_eq_some_iff.mp hstep
    intro send hsend
    obtain ⟨hsame, heach⟩ := hrecorded send hsend
    refine ⟨hsame, fun address haddress ↦ ?_⟩
    obtain ⟨call, hget, hblock⟩ := heach address haddress
    obtain ⟨after, hafter, hbecomes⟩ := remoting_becomes hremoting hget
    exact ⟨after, hafter, hbecomes.block.trans hblock⟩

/-- Every good step keeps the client in order. -/
theorem step_sound (state : SendingClient) (event : SendingEvent) (next : SendingClient)
    (hgood : state.KeepsOutcome answers event)
    (hsystem : asyncSendSystem.step state event = some next) (hsound : state.Sound answers) :
    next.Sound answers := by
  have hrecorded := step_recorded state event next hsystem hsound.recorded
  have hstep : state.step event = some next := hsystem
  cases event with
  | send request callback opaqueIds now =>
    rw [step] at hstep
    split_ifs at hstep with hlength
    obtain ⟨remoting, hrun, rfl⟩ := Option.map_eq_some_iff.mp hstep
    have hobjects := objects_of_invocations hrun
    refine ⟨holds_of_invocations hrun hsound.holds, fun send hsend ↦ ?_, hrecorded, ?_⟩
    · rcases List.mem_append.mp hsend with hbefore | hnew
      · exact hsound.reaches send hbefore
      · obtain rfl := List.mem_singleton.mp hnew
        exact hgood
    · intro send hsend address haddress call hget hseen
      have hget' : (state.remoting.responses.objects ++ opaqueIds.map fun opaqueId ↦
          Call.new opaqueId request.config.sendMsgTimeout now false)[address]? = some call :=
        hobjects ▸ hget
      rcases List.mem_append.mp hsend with hbefore | hnew
      · obtain ⟨before, hfound, -⟩ := (hsound.recorded send hbefore).2 address haddress
        obtain rfl := Option.some.inj ((getElem?_of_invocations hfound).symm.trans hget')
        exact hsound.answered send hbefore address haddress before hfound hseen
      · obtain rfl := List.mem_singleton.mp hnew
        obtain ⟨before, hcall, hfound⟩ := @getElem?_of_mem_range state.remoting.responses.objects
          (opaqueIds.map fun opaqueId ↦ Call.new opaqueId request.config.sendMsgTimeout now false)
          address (by rwa [List.length_map])
        obtain rfl := Option.some.inj (hfound.symm.trans hget')
        obtain ⟨opaqueId, -, rfl⟩ := List.mem_map.mp hcall
        exact absurd hseen (not_seen_new _ _ _ _)
  | remoting event =>
    obtain ⟨remoting, hremoting, rfl⟩ := Option.map_eq_some_iff.mp hstep
    refine ⟨keepsCompletion_maintained.step hgood.1 hremoting hsound.holds, hsound.reaches,
      hrecorded, ?_⟩
    intro send hsend address haddress call hget hseen
    obtain ⟨before, hfound, -⟩ := (hsound.recorded send hsend).2 address haddress
    obtain ⟨after, hafter, hbecomes⟩ := remoting_becomes hremoting hfound
    obtain rfl := Option.some.inj (hafter.symm.trans hget)
    rw [hbecomes.opaqueId]
    rcases hbecomes.seen hseen with hearlier | ⟨opaqueId, hevent, hfind⟩
    · exact hsound.answered send hsend address haddress before hfound hearlier
    · have hkey := (Maintained.of_find hsound.holds hfind).2.1
      rw [hkey]
      exact hgood.2 opaqueId hevent send hsend address haddress before hfound hkey

end SendingClient

/-! ### Requests come to an end -/

/-- An event that is neither an erase of a failure path, nor the arrival of a response or the
failure of its custom header. -/
def Quiet : RemotingEvent → Prop
  | .thread _ step => step ≠ .eraseEntry ∧ step ≠ .headerThrows
  | .processData _ => False
  | .invoke _ _ _ _ | .handleTimerEvent _ _ => True

/-- Nobody is left who is to complete the request at an address. -/
def Over (state : RemotingState) (address : ℕ) : Prop :=
  ∀ call, state.responses.objects[address]? = some call →
    call.opaqueId ∉ state.responses.table ∧ ¬ call.Completing

/-- The request at an address comes to its end by steps of the threads and of the clock. -/
def Ends (state : RemotingState) (address : ℕ) : Prop :=
  ∃ events last, remotingSystem.run state events = some last ∧ (∀ event ∈ events, Quiet event) ∧
    Over last address

section Ends

variable {state next : RemotingState} {address : ℕ} {call : Call}

theorem Over.ends (hover : Over state address) : Ends state address :=
  ⟨[], state, rfl, fun _ hmem ↦ absurd hmem List.not_mem_nil, hover⟩

theorem Ends.of_step {event : RemotingEvent} (hquiet : Quiet event)
    (hstep : remotingSystem.step state event = some next) (hends : Ends next address) :
    Ends state address := by
  obtain ⟨events, last, hrun, hall, hover⟩ := hends
  refine ⟨event :: events, last, EventSystem.run_cons.mpr ⟨next, hstep, hrun⟩, ?_, hover⟩
  exact List.forall_mem_cons.mpr ⟨hquiet, hall⟩

/-- A step of a thread on the request. -/
theorem Ends.of_advance {step : CallStep} {moved : Call}
    (hquiet : step ≠ .eraseEntry ∧ step ≠ .headerThrows)
    (hget : state.responses.objects[address]? = some call)
    (hadvance : call.advance step = some moved)
    (hends : (state.replace address moved).responses.objects[address]? = some moved →
      Ends (state.replace address moved) address) : Ends state address := by
  have hstep : remotingSystem.step state (.thread address step) =
      some (state.replace address moved) := by
    show (state.responses.objects[address]?).bind _ = _
    rw [hget, Option.bind_some, hadvance, Option.map_some, if_neg hquiet.1]
  have hquietEvent : Quiet (.thread address step) := hquiet
  refine Ends.of_step hquietEvent hstep (hends ?_)
  exact List.getElem?_set_self (List.getElem?_eq_some_iff.mp hget).1

theorem over_of_get (hget : state.responses.objects[address]? = some call)
    (habsent : call.opaqueId ∉ state.responses.table) (hdone : ¬ call.Completing) :
    Over state address := by
  intro other hother
  obtain rfl := Option.some.inj (hget.symm.trans hother)
  exact ⟨habsent, hdone⟩

/-- The callback of the request has been executed. -/
theorem over_of_executed {done : Call} (hfuture : done.future = call.future.executeInvokeCallback)
    (hget : state.responses.objects[address]? = some done)
    (habsent : call.opaqueId ∉ state.responses.table) (hdone : ¬ done.Completing) :
    Over state address := by
  refine over_of_get hget ?_ hdone
  rwa [Call.opaqueId, hfuture, call.future.executeInvokeCallback_opaqueId]

/-- The response, or its absence, has been stored. -/
theorem ends_of_stored (hget : state.responses.objects[address]? = some call)
    (habsent : call.opaqueId ∉ state.responses.table) (hasync : call.future.block = false)
    {response : Option ℤ} (hholder : call.holder = .stored response)
    (hcaller : call.caller ≠ .erased) : Ends state address := by
  have hadvance : call.advance (.holderExecutes false) = some { call with
      future := call.future.executeInvokeCallback
      holder := .called } := by
    simp [Call.advance, hholder, hasync]
  refine Ends.of_advance (by decide) hget hadvance fun hafter ↦ Over.ends ?_
  refine over_of_executed rfl hafter habsent ?_
  rintro (⟨key, hkey⟩ | ⟨key, hkey⟩ | herased)
  · cases hkey
  · cases hkey
  · exact hcaller herased

/-- The entry has been taken out of the table. -/
theorem ends_of_taken (hget : state.responses.objects[address]? = some call)
    (habsent : call.opaqueId ∉ state.responses.table) (hasync : call.future.block = false)
    {response : Option ℤ} (hholder : call.holder = .took response)
    (hcaller : call.caller ≠ .erased) : Ends state address := by
  have hadvance : call.advance .putResponse = some { call with
      future := call.future.setResponseCommand response
      holder := .stored response } := by
    simp [Call.advance, hholder]
  exact Ends.of_advance (by decide) hget hadvance fun hafter ↦
    ends_of_stored hafter habsent hasync rfl hcaller

/-- The caller has erased the entry of a request whose send has failed. -/
theorem ends_of_failed (hget : state.responses.objects[address]? = some call)
    (habsent : call.opaqueId ∉ state.responses.table) (hasync : call.future.block = false)
    (hholder : call.holder = .idle) (hcaller : call.caller = .erased) : Ends state address := by
  have hadvance : call.advance (.callerExecutes false) = some { call with
      future := call.future.executeInvokeCallback
      caller := .executed } := by
    simp [Call.advance, hcaller, hasync]
  refine Ends.of_advance (by decide) hget hadvance fun hafter ↦ Over.ends ?_
  refine over_of_executed rfl hafter habsent ?_
  rintro (⟨key, hkey⟩ | ⟨key, hkey⟩ | herased)
  · cases hholder.symm.trans hkey
  · cases hholder.symm.trans hkey
  · cases herased

/-- An entry that waits for its response expires. -/
theorem ends_of_waiting {property : Bool → Call → Prop}
    (hholds : state.responses.Holds Call.opaqueId property)
    (hget : state.responses.objects[address]? = some call)
    (hmem : call.opaqueId ∈ state.responses.table) (hasync : call.future.block = false)
    (hcaller : call.caller ≠ .erased) : Ends state address := by
  cases htable : state.responses.table.find? call.opaqueId with
  | none => exact absurd hmem (OrderedMap.find?_eq_none.mp htable)
  | some found =>
    obtain ⟨object, hobject, hkey⟩ := hholds.sound call.opaqueId found htable
    obtain rfl := hholds.distinct found address object call hobject hget hkey
    have hfind : state.find call.opaqueId = some (found, call) := by
      rw [RemotingState.find, htable, Option.bind_some, hget, Option.map_some]
    have htimeout : call.future.isTimeout
        (call.future.beginTimestamp + call.future.timeoutMillis + 1) = true := by
      rw [ResponseFuture.isTimeout, decide_eq_true_eq]
      omega
    have hstep : remotingSystem.step state (.handleTimerEvent call.opaqueId
        (call.future.beginTimestamp + call.future.timeoutMillis + 1)) =
        some (state.withdraw found (call.take none)) := by
      show (state.find call.opaqueId).map _ = _
      rw [hfind, Option.map_some]
      exact congrArg some (if_pos htimeout)
    have hquiet : Quiet (.handleTimerEvent call.opaqueId
        (call.future.beginTimestamp + call.future.timeoutMillis + 1)) := trivial
    refine Ends.of_step hquiet hstep (@ends_of_taken _ _ (call.take none) ?_ ?_ hasync none rfl
      hcaller)
    · exact List.getElem?_set_self (List.getElem?_eq_some_iff.mp hget).1
    · exact OrderedMap.find?_eq_none.mp (OrderedMap.find?_erase_self _ _)

/-- Every request that makes progress comes to its end. -/
theorem ends_of_progress {property : Bool → Call → Prop}
    (hholds : state.responses.Holds Call.opaqueId property)
    (hget : state.responses.objects[address]? = some call) (hasync : call.future.block = false)
    (hprogress : Call.Progress (decide (call.opaqueId ∈ state.responses.table)) call) :
    Ends state address := by
  by_cases hmem : call.opaqueId ∈ state.responses.table
  · rw [decide_eq_true hmem] at hprogress
    cases hprogress with
    | waiting hpending hnone hidle hcaller =>
      exact ends_of_waiting hholds hget hmem hasync hcaller
  · rw [decide_eq_false hmem] at hprogress
    cases hprogress with
    | taken hpending hown htook hcaller => exact ends_of_taken hget hmem hasync htook hcaller
    | stored hpending hown hstored hcaller =>
      exact ends_of_stored hget hmem hasync hstored hcaller
    | failed hpending hnone hidle herased => exact ends_of_failed hget hmem hasync hidle herased
    | done hexec hcallbacks hown hholder hcaller =>
      refine (over_of_get hget hmem ?_).ends
      rintro (⟨key, hkey⟩ | ⟨key, hkey⟩ | herased)
      · rcases hholder with hidle | hcalled
        · cases hidle.symm.trans hkey
        · cases hcalled.symm.trans hkey
      · rcases hholder with hidle | hcalled
        · cases hidle.symm.trans hkey
        · cases hcalled.symm.trans hkey
      · exact hcaller herased

end Ends

/-! ### One outcome -/

namespace SendingClient

variable {client : SendingClient} {answers : Answers} {send : AsyncSend}

theorem meets_of_quiet {state : RemotingState} {event : RemotingEvent} (hquiet : Quiet event) :
    state.Meets keepsCompletion event := by
  cases event with
  | thread address step =>
    show (state.responses.objects[address]?).all _ = true
    cases state.responses.objects[address]? with
    | none => rfl
    | some call =>
      obtain ⟨herase, hheader⟩ : step ≠ .eraseEntry ∧ step ≠ .headerThrows := hquiet
      cases step with
      | eraseEntry => exact absurd rfl herase
      | headerThrows => exact absurd rfl hheader
      | _ => rfl
  | processData opaqueId => exact hquiet.elim
  | invoke | handleTimerEvent => trivial

/-- A run of quiet events of the remoting client is a good run. -/
theorem run_of_quiet {events : List RemotingEvent} {last : RemotingState}
    (hrun : remotingSystem.run client.remoting events = some last)
    (hquiet : ∀ event ∈ events, Quiet event) :
    asyncSendSystem.run client (events.map .remoting) = some { client with remoting := last } ∧
      asyncSendSystem.Along (KeepsOutcome answers) client (events.map .remoting) := by
  induction events generalizing client with
  | nil => exact ⟨congrArg some (by rw [← Option.some.inj hrun]), trivial⟩
  | cons event rest ih =>
    obtain ⟨middle, hstep, hrest⟩ := EventSystem.run_cons.mp hrun
    obtain ⟨hevent, hall⟩ := List.forall_mem_cons.mp hquiet
    have hmoved : asyncSendSystem.step client (.remoting event) =
        some { client with remoting := middle } := by
      show (remotingSystem.step client.remoting event).map _ = _
      rw [hstep, Option.map_some]
    obtain ⟨hlater, halong⟩ := @ih { client with remoting := middle } hrest hall
    refine ⟨EventSystem.run_cons.mpr ⟨_, hmoved, hlater⟩, ⟨meets_of_quiet hevent, ?_⟩, ?_⟩
    · intro opaqueId hprocess
      exact (hprocess ▸ hevent : Quiet (.processData opaqueId)).elim
    · intro next hnext
      obtain rfl := Option.some.inj (hmoved.symm.trans hnext)
      exact halong

/-- The reports of the runs of a callback. -/
theorem length_reports {call : Call} {callback : ProducerInvokeCallback}
    (hown : ∀ response ∈ call.future.callbacks, call.future.Own response)
    (hanswered : Seen call → callback.Answerable (answers.frames call.opaqueId)) :
    (call.future.callbacks.filterMap (callback.report answers call.opaqueId)).length =
      call.future.callbacks.length := by
  refine List.filterMap_length_eq_length.mpr fun response hmem ↦ Option.isSome_iff_exists.mpr ?_
  rcases hown response hmem with rfl | rfl
  · exact ProducerInvokeCallback.report_none
  · exact ProducerInvokeCallback.report_some
      (hanswered (Or.inr (Or.inr (Or.inr ⟨call.future.opaqueId, hmem⟩))))

/-- A send has at most one outcome so far, and one when nobody is left to complete it. -/
structure HasOneOutcome (answers : Answers) (client : SendingClient) (send : AsyncSend) :
    Prop where
  atMostOne : (client.outcomes answers send).length ≤ 1
  exactlyOne : client.Settled send → (client.outcomes answers send).length = 1

/-- The outcomes of a send that has registered nothing. -/
theorem outcomes_of_nil (hnil : send.addresses = []) :
    client.outcomes answers send = send.request.thrown.toList.map SendOutcome.thrown := by
  rw [outcomes, hnil, List.flatMap_nil, List.append_nil]

/-- The outcomes of a send that has registered one request. -/
theorem outcomes_of_singleton {address : ℕ} {call : Call} (haddresses : send.addresses = [address])
    (hget : client.remoting.responses.objects[address]? = some call)
    (hthrown : send.request.thrown = none) :
    client.outcomes answers send =
      call.future.callbacks.filterMap (send.callback.report answers call.opaqueId) := by
  rw [outcomes, haddresses, hthrown]
  simp [hget]

/-- A send that reaches a transport either throws and registers nothing, or registers one request
and does not throw. -/
theorem Sound.cases (hsound : client.Sound answers) (hsend : send ∈ client.sends) :
    (send.addresses = [] ∧ ∃ error, send.request.thrown = some error) ∨
      ∃ address call, send.addresses = [address] ∧ send.request.thrown = none ∧
        client.remoting.responses.objects[address]? = some call ∧ call.future.block = false := by
  have hplaced := (SendRequest.placed_iff send.request).mpr (hsound.reaches send hsend)
  obtain ⟨hlength, heach⟩ := hsound.recorded send hsend
  rw [← hlength] at hplaced
  cases hthrown : send.request.thrown with
  | some error =>
    rw [hthrown] at hplaced
    refine Or.inl ⟨List.eq_nil_of_length_eq_zero ?_, error, rfl⟩
    simpa using hplaced
  | none =>
    rw [hthrown, Option.toList_none, List.length_nil, Nat.zero_add] at hplaced
    obtain ⟨address, haddress⟩ := List.length_eq_one_iff.mp hplaced
    obtain ⟨call, hget, hblock⟩ := heach address (by simp [haddress])
    exact Or.inr ⟨address, call, haddress, rfl, hget, hblock⟩

/-- Every send of a client in order has its outcome. -/
theorem Sound.hasOneOutcome (hsound : client.Sound answers) (hsend : send ∈ client.sends) :
    HasOneOutcome answers client send := by
  rcases hsound.cases hsend with
    ⟨hnil, error, herror⟩ | ⟨address, call, haddress, hnone, hget, hblock⟩
  · have hlength : (client.outcomes answers send).length = 1 := by
      rw [outcomes_of_nil hnil, herror]
      rfl
    exact ⟨hlength.le, fun _ ↦ hlength⟩
  · have hcompleted := (hsound.holds.each address call hget hblock).completedOnce
    have hmem : address ∈ send.addresses := by simp [haddress]
    have hlength : (client.outcomes answers send).length = call.future.callbacks.length := by
      rw [outcomes_of_singleton haddress hget hnone]
      exact length_reports hcompleted.own (hsound.answered send hsend address hmem call hget)
    refine ⟨hlength ▸ hcompleted.atMostOnce, fun hsettled ↦ ?_⟩
    obtain ⟨habsent, hdone⟩ := hsettled address hmem call hget
    rw [hlength]
    exact hcompleted.completed (decide_eq_false habsent) hdone

/-- Every send of a client in order can be settled by the threads and the clock. -/
theorem Sound.settles (hsound : client.Sound answers) (hsend : send ∈ client.sends) :
    ∃ more later, asyncSendSystem.run client more = some later ∧
      asyncSendSystem.Along (KeepsOutcome answers) client more ∧ later.Settled send := by
  rcases hsound.cases hsend with ⟨hnil, -⟩ | ⟨address, call, haddress, -, hget, hblock⟩
  · refine ⟨[], client, rfl, trivial, fun address hmem ↦ ?_⟩
    rw [hnil] at hmem
    exact absurd hmem List.not_mem_nil
  · obtain ⟨events, last, hrun, hquiet, hover⟩ := ends_of_progress hsound.holds hget hblock
      (hsound.holds.each address call hget hblock)
    obtain ⟨hlater, halong⟩ := @run_of_quiet client answers events last hrun hquiet
    refine ⟨_, _, hlater, halong, fun other hmem ↦ ?_⟩
    rw [haddress, List.mem_singleton] at hmem
    exact hmem ▸ hover

theorem sound_initial : initial.Sound answers where
  holds := Registry.Holds.of_empty
  reaches := fun _ hmem ↦ absurd hmem List.not_mem_nil
  recorded := fun _ hmem ↦ absurd hmem List.not_mem_nil
  answered := fun _ hmem ↦ absurd hmem List.not_mem_nil

/-- In every run in which every send reaches a connected transport, a failure path of
`invokeAsyncImpl` finds its entry, and the response to a request of a send can be received, every
send has at most one outcome in every state, exactly one when it is settled, and can be settled. In
every run, a send that does not reach a transport is settled without an outcome. -/
theorem exactly_one_outcome {events : List SendingEvent} {last : SendingClient}
    (hrun : asyncSendSystem.run initial events = some last) :
    (asyncSendSystem.Along (KeepsOutcome answers) initial events → ∀ send ∈ last.sends,
        HasOneOutcome answers last send ∧ ∃ more later,
          asyncSendSystem.run last more = some later ∧
            asyncSendSystem.Along (KeepsOutcome answers) last more ∧ later.Settled send) ∧
      ∀ send ∈ last.sends, ¬ send.request.Reaches →
        last.Settled send ∧ last.outcomes answers send = [] := by
  constructor
  · intro halong send hsend
    have hsound := EventSystem.run_invariant_of_along step_sound halong hrun sound_initial
    exact ⟨hsound.hasOneOutcome hsend, hsound.settles hsend⟩
  · intro send hsend hreaches
    have hrecorded := EventSystem.run_invariant step_recorded hrun
      (fun _ hmem ↦ absurd hmem List.not_mem_nil)
    have hle := SendRequest.placed_le_one send.request
    have hne := mt (SendRequest.placed_iff send.request).mp hreaches
    obtain ⟨hlength, -⟩ := hrecorded send hsend
    have hnil : send.addresses = [] := List.eq_nil_of_length_eq_zero (by omega)
    have hthrown : send.request.thrown.toList = [] := List.eq_nil_of_length_eq_zero (by omega)
    refine ⟨fun address hmem ↦ ?_, by rw [outcomes_of_nil hnil, hthrown]; rfl⟩
    rw [hnil] at hmem
    exact absurd hmem List.not_mem_nil

/-- A library that cannot compress. -/
def zlibOff : Zlib where
  compress _ _ := none
  decompress _ := none
  decompress_compress := fun _ _ _ hnone ↦ absurd hnone (Option.some_ne_none _).symm
  compress_ne_nil := fun _ _ _ hnone ↦ absurd hnone (Option.some_ne_none _).symm

/-- A send to a queue of the broker `b`, for which an address is found or not. -/
def oneSend (brokerAddr : ByteString) : SendRequest where
  zlib := zlibOff
  config := ⟨3000, 4096, 5, 131072, false, true, [[110]]⟩
  msg := ⟨[84], 0, some [1], OrderedMap.empty⟩
  overload := .queue ⟨[84], [98], 0⟩ brokerAddr
  connected := fun _ ↦ true

/-- The response does not come, and the entry expires. -/
def expiry : List RemotingEvent :=
  [.handleTimerEvent 5 3001, .thread 0 .putResponse, .thread 0 (.holderExecutes false)]

/-- The broker is found, and the response does not come. -/
theorem one_outcome_of_timeout : ∃ last,
    asyncSendSystem.run initial (.send (oneSend [49]) ⟨[84], [98], []⟩ [5] 0 ::
      expiry.map .remoting) = some last ∧
      ∃ send ∈ last.sends, HasOneOutcome ⟨fun _ ↦ [], fun _ ↦ true, fun _ ↦ true⟩ last send ∧
        last.outcomes ⟨fun _ ↦ [], fun _ ↦ true, fun _ ↦ true⟩ send =
          [.onException (ofString "wait response timeout") (-2)] := by
  obtain ⟨first, last, hfirst, hexpiry, send, hsend, houtcomes⟩ : ∃ first last,
      asyncSendSystem.step initial (.send (oneSend [49]) ⟨[84], [98], []⟩ [5] 0) = some first ∧
        remotingSystem.run first.remoting expiry = some last ∧ ∃ send ∈ first.sends,
          SendingClient.outcomes ⟨last, first.sends⟩ ⟨fun _ ↦ [], fun _ ↦ true, fun _ ↦ true⟩
            send = [.onException (ofString "wait response timeout") (-2)] :=
    ⟨_, _, rfl, rfl, _, List.mem_singleton_self _, rfl⟩
  have hreaches : (oneSend [49]).Reaches := (SendRequest.placed_iff _).mp (by decide)
  have hquiet : ∀ event ∈ expiry, Quiet event := by
    simp [expiry, Quiet]
  obtain ⟨hrest, halong⟩ := @run_of_quiet first ⟨fun _ ↦ [], fun _ ↦ true, fun _ ↦ true⟩ _ _
    hexpiry hquiet
  have hrun := EventSystem.run_cons.mpr ⟨first, hfirst, hrest⟩
  refine ⟨_, hrun, send, hsend, ?_, houtcomes⟩
  refine ((exactly_one_outcome hrun).1 ⟨hreaches, fun next hnext ↦ ?_⟩ send hsend).1
  exact Option.some.inj (hfirst.symm.trans hnext) ▸ halong

/-- The overload with a queue catches the exception that the broker does not exist. -/
theorem queue_without_broker_has_no_outcome : ∃ last,
    asyncSendSystem.run initial [.send (oneSend []) ⟨[84], [98], []⟩ [] 0] = some last ∧
      ∃ send ∈ last.sends, last.Settled send ∧ ∀ answers, last.outcomes answers send = [] := by
  refine ⟨_, rfl, ⟨oneSend [], ⟨[84], [98], []⟩, []⟩, List.mem_singleton_self _, ?_,
    fun answers ↦ rfl⟩
  exact fun address hmem ↦ absurd hmem List.not_mem_nil

end SendingClient

end RocketMQClient.Producer
