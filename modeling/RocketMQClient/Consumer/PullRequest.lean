import RocketMQClient.Consumer.Rebalance
import RocketMQClient.Library.EventSystem

/-!
# The custody of pull requests

A pull request travels in a circle: the pull service takes it from its queue and calls
`pullMessage`, which postpones it by a timer, throws it away when its process queue is dropped, or
sends it to the broker as an asynchronous call; the completion of the call puts it back into the
queue or into a timer. The front of the queue stays there while it is served and is popped
afterwards. `pullSystem` interleaves the pull service, the completions, the timers, the rebalance
thread and the consume service. A call may be completed while `pullMessage` is still in `SendCmd`.

Three exits break the circle. `pullMessageAsync` does not look at the result of `invokeAsync`: when
no connection to the broker can be made, the callback is neither run nor registered, and the pull
request is gone although its queue is not dropped (`pull_request_lost`). It is gone as well when the
custom header of a response cannot be made after its entry has been taken out of the table. And a
send that fails after the call has been completed completes it again. In every run in which none of
these happens to a queue that is not dropped, every active entry of the table has exactly one live
pull request (`pull_request_conserved`).

The places of a pull request are the queue of the pull service, the registered calls and the timers,
and the front of the queue while it is served. `Custody` says that every active entry of the table
has one in one of them: what a step takes out of one place it has to settle (`Invariant.settle`), by
putting it into another one or because its process queue is dropped. The steps that settle nothing
are those that the condition of the theorem names.
-/

set_option autoImplicit false
set_option relaxedAutoImplicit false

namespace RocketMQClient.Consumer

open Library Messages

/-! ### The operations of the source -/

/-- Delay of a pull request after a failure, in milliseconds. -/
def pullTimeDelayMillsWhenException : ℤ := 3000

/-- Delay of a pull request under flow control, in milliseconds. -/
def pullTimeDelayMillsWhenFlowControl : ℤ := 100

/-- Delay of a pull request of a paused consumer, in milliseconds. -/
def pullTimeDelayMillsWhenSuspend : ℤ := 1000

/-- The settings of the consumer that pulling reads. -/
structure PullConfig where
  pullThresholdForQueue : ℤ
  consumeConcurrentlyMaxSpan : ℤ
  consumeOrderly : Bool
  pullInterval : ℤ

/-- How far a request to the broker gets. -/
inductive PullNetwork where
  /-- No address of the broker is known, also after the route was refreshed. -/
  | brokerNotExist
  | connectFailed
  | sendFailed (ret : ℤ)
  | sent
  deriving DecidableEq

/-- What `pullMessage` reads besides the process queue. -/
structure PullEnvironment where
  serviceRunning : Bool
  pause : Bool
  hasSubscribe : Bool
  network : PullNetwork
  deriving DecidableEq

/-- What has become of a callback when `invokeAsync` returns. -/
inductive CallbackFate where
  | unused
  | executed
  | registered
  deriving DecidableEq

/-- The return value of `invokeAsync` and what has become of the callback. -/
def invokeAsync : PullNetwork → ℤ × CallbackFate
  | .brokerNotExist | .connectFailed => (-1, .unused)
  | .sendFailed ret => (ret, .executed)
  | .sent => (0, .registered)

/-- `pullMessageAsync` drops the return value of `invokeAsync`. -/
def pullMessageAsync (network : PullNetwork) : CallbackFate := (invokeAsync network).2

/-- `pullKernelImpl`; no result stands for the exception of a broker without address. -/
def pullKernelImpl (network : PullNetwork) : Option CallbackFate :=
  match network with
  | .brokerNotExist => none
  | _ => some (pullMessageAsync network)

/-- The checks of `pullMessage` after the one for a dropped queue: the delay of the first that
postpones the pull request. -/
def pullPostponed (config : PullConfig) (environment : PullEnvironment) (queue : ProcessQueue) :
    Option ℤ :=
  if environment.serviceRunning = false then some pullTimeDelayMillsWhenException
  else if environment.pause then some pullTimeDelayMillsWhenSuspend
  else if queue.msgCount > config.pullThresholdForQueue then
    some pullTimeDelayMillsWhenFlowControl
  else if config.consumeOrderly = false ∧ queue.getMaxSpan > config.consumeConcurrentlyMaxSpan then
    some pullTimeDelayMillsWhenFlowControl
  else if environment.hasSubscribe = false then some pullTimeDelayMillsWhenException
  else none

/-- The status of a pull result. -/
inductive PullStatus where
  | found
  | noNewMsg
  | noMatchedMsg
  | offsetIllegal
  deriving DecidableEq

/-- A reply to a pull: its code, the next offset and the messages left after decoding and the
filter by tags. -/
structure PullResponse where
  code : ℤ
  nextBeginOffset : ℤ
  msgFoundList : List MessageExt
  deriving DecidableEq

/-- The status of a reply; no status stands for the exception of any other code. -/
def processPullResponse (response : PullResponse) : Option PullStatus :=
  if response.code = 0 then some .found
  else if response.code = 19 then some .noNewMsg
  else if response.code = 20 then some .noMatchedMsg
  else if response.code = 21 then some .offsetIllegal
  else none

/-- The calls of the consume services on a process queue. -/
inductive ConsumeOperation where
  | removeMessage (msgs : List MessageExt)
  | takeMessags (batchSize : ℤ)
  | commit
  | rollback
  | makeMessageToCosumeAgain (msgs : List MessageExt)
  deriving DecidableEq

/-- The process queue after a call of a consume service. -/
def ConsumeOperation.apply (queue : ProcessQueue) : ConsumeOperation → ProcessQueue
  | .removeMessage msgs => (queue.removeMessage msgs).2
  | .takeMessags batchSize => (queue.takeMessags batchSize).2
  | .commit => queue.commit.2
  | .rollback => queue.rollback
  | .makeMessageToCosumeAgain msgs => queue.makeMessageToCosumeAgain msgs

/-! ### The event system -/

/-- A timer that puts a pull request back into the queue of the pull service. -/
structure PullMessageLater where
  pullRequest : PullRequest
  timeDelay : ℤ
  deriving DecidableEq

/-- What the pull service does with the front of its queue. -/
inductive ServingStage where
  | idle
  /-- `pullMessage` is called. -/
  | entered
  /-- `pullMessage` has found the process queue not dropped. -/
  | checked
  /-- The call is registered and `pullMessage` is inside `SendCmd`; it runs the callback itself if
  that fails. -/
  | sending (fate : CallbackFate)
  /-- `pullMessage` has returned, and the front is not popped yet. -/
  | returned
  deriving DecidableEq

/-- The table of process queues and the places of the pull requests. -/
structure PullState where
  rebalanceImpl : RebalanceImpl
  pullRequestQueue : List PullRequest
  serving : ServingStage
  scheduledService : List PullMessageLater
  responseTable : List PullRequest
  pullLaterService : List PullRequest

/-- The steps of the rebalance thread, the pull service, the network, the timers and the consume
services. -/
inductive PullEvent where
  | doRebalance
  | updateProcessQueueTableInRebalance (input : RebalanceInput)
  | truncateMessageQueueNotMyTopic (subTable : List ByteString)
  | takeFront (consumerFound : Bool)
  | checkDroped
  | pullMessage (environment : PullEnvironment)
  | sendCmd
  | popFront
  | operationComplete (request : PullRequest) (response : Option PullResponse)
  /-- `MakeCustomHeader` throws for the response to a call. -/
  | headerThrows (request : PullRequest)
  | pullMessageLater (timer : PullMessageLater)
  | executePullTaskLater (request : PullRequest)
  | consume (address : ℕ) (operation : ConsumeOperation)

namespace PullState

/-- A consumer that has just been started. -/
def initial : PullState where
  rebalanceImpl :=
    { processQueueTable := OrderedMap.empty
      processQueues := fun _ ↦ ProcessQueue.new 0
      allocated := 0
      brokerMaster := OrderedMap.empty
      downBrokerName := [] }
  pullRequestQueue := []
  serving := .idle
  scheduledService := []
  responseTable := []
  pullLaterService := []

/-- Puts a pull request at the end of the queue of the pull service. -/
def executePullRequestImmediately (state : PullState) (request : PullRequest) : PullState :=
  { state with pullRequestQueue := state.pullRequestQueue ++ [request] }

/-- Registers a timer for a pull request. -/
def executePullRequestLater (state : PullState) (request : PullRequest) (timeDelay : ℤ) :
    PullState :=
  { state with scheduledService := state.scheduledService ++ [⟨request, timeDelay⟩] }

/-- Registers the timer that corrects the offset of a dropped queue. -/
def executeTaskLater (state : PullState) (request : PullRequest) : PullState :=
  { state with pullLaterService := state.pullLaterService ++ [request] }

/-- Puts every pull request of a rebalance into the queue of the pull service. -/
def dispatchPullRequest (state : PullState) (requests : List PullRequest) : PullState :=
  requests.foldl executePullRequestImmediately state

theorem dispatchPullRequest_eq (state : PullState) (requests : List PullRequest) :
    state.dispatchPullRequest requests =
      { state with pullRequestQueue := state.pullRequestQueue ++ requests } := by
  induction requests generalizing state with
  | nil => rw [List.append_nil]; rfl
  | cons request rest ih =>
    show (state.executePullRequestImmediately request).dispatchPullRequest rest = _
    rw [ih, executePullRequestImmediately, List.append_assoc, List.singleton_append]

/-- The process queue of a pull request. -/
def processQueueOf (state : PullState) (request : PullRequest) : ProcessQueue :=
  state.rebalanceImpl.processQueues request.processQueue

/-- The callback for a reply of some status. -/
def onSuccess (config : PullConfig) (state : PullState) (request : PullRequest)
    (status : PullStatus) (response : PullResponse) : PullState :=
  let advanced := { request with nextOffset := response.nextBeginOffset }
  match status with
  | .found =>
    let stored := { state with
      rebalanceImpl := state.rebalanceImpl.setProcessQueue request.processQueue
        ((state.processQueueOf request).putMessage response.msgFoundList).2 }
    if config.pullInterval > 0 then stored.executePullRequestLater advanced config.pullInterval
    else stored.executePullRequestImmediately advanced
  | .noNewMsg | .noMatchedMsg => state.executePullRequestImmediately advanced
  | .offsetIllegal =>
    { state with rebalanceImpl := state.rebalanceImpl.setDroped request.processQueue }
      |>.executeTaskLater advanced

/-- The callback for a failure. -/
def onException (state : PullState) (request : PullRequest) : PullState :=
  state.executePullRequestLater request pullTimeDelayMillsWhenException

/-- The completion of an asynchronous call, with the reply if there is one. -/
def operationComplete (config : PullConfig) (state : PullState) (request : PullRequest)
    (response : Option PullResponse) : PullState :=
  match response with
  | none => state.onException request
  | some response =>
    match processPullResponse response with
    | none => state.onException request
    | some status => state.onSuccess config request status response

/-- `pullMessage` on a dropped process queue: the pull request is deleted when no message is left,
and waits otherwise. -/
def pullMessageDroped (state : PullState) (request : PullRequest) : PullState :=
  if (state.processQueueOf request).msgTreeMap.isEmpty then state
  else state.executePullRequestLater request pullTimeDelayMillsWhenException

/-- `pullMessage` after the check for a dropped process queue. -/
def pullMessage (config : PullConfig) (state : PullState) (request : PullRequest)
    (environment : PullEnvironment) : PullState :=
  match pullPostponed config environment (state.processQueueOf request) with
  | some timeDelay => state.executePullRequestLater request timeDelay
  | none =>
    match pullKernelImpl environment.network with
    | none => state.executePullRequestLater request pullTimeDelayMillsWhenException
    | some .unused => state
    | some fate => { state with
        responseTable := state.responseTable ++ [request]
        serving := .sending fate }

/-- The call leaves the table without a completion. -/
def dropCall (state : PullState) (request : PullRequest) : PullState :=
  { state with responseTable := state.responseTable.erase request }

/-- The end of `SendCmd`. The failure path of `invokeAsyncImpl` erases what it finds in the table
and runs the callback, also when the call has been completed in the meantime. -/
def sendCmd (config : PullConfig) (state : PullState) (request : PullRequest)
    (fate : CallbackFate) : PullState :=
  match fate with
  | .executed => (state.dropCall request).operationComplete config request none
  | .unused | .registered => state

/-- One step. -/
def step (config : PullConfig) (state : PullState) : PullEvent → Option PullState
  | .doRebalance =>
    some { state with rebalanceImpl := { state.rebalanceImpl with downBrokerName := [] } }
  | .updateProcessQueueTableInRebalance input =>
    let pass := state.rebalanceImpl.updateProcessQueueTableInRebalance input
    some (dispatchPullRequest { state with rebalanceImpl := pass.rebalanceImpl }
      pass.pullRequestList)
  | .truncateMessageQueueNotMyTopic subTable =>
    some { state with
      rebalanceImpl := state.rebalanceImpl.truncateMessageQueueNotMyTopic subTable }
  | .takeFront consumerFound =>
    if state.serving = .idle ∧ state.pullRequestQueue ≠ [] then
      some { state with serving := if consumerFound then .entered else .returned }
    else none
  | .checkDroped =>
    match state.serving, state.pullRequestQueue with
    | .entered, request :: _ =>
      if (state.processQueueOf request).droped then
        some (pullMessageDroped { state with serving := .returned } request)
      else some { state with serving := .checked }
    | _, _ => none
  | .pullMessage environment =>
    match state.serving, state.pullRequestQueue with
    | .checked, request :: _ =>
      some (pullMessage config { state with serving := .returned } request environment)
    | _, _ => none
  | .sendCmd =>
    match state.serving, state.pullRequestQueue with
    | .sending fate, request :: _ =>
      some (sendCmd config { state with serving := .returned } request fate)
    | _, _ => none
  | .popFront =>
    if state.serving = .returned then
      some { state with
        serving := .idle
        pullRequestQueue := state.pullRequestQueue.tail }
    else none
  | .operationComplete request response =>
    if request ∈ state.responseTable then
      some ((state.dropCall request).operationComplete config request response)
    else none
  | .headerThrows request =>
    if request ∈ state.responseTable then some (state.dropCall request) else none
  | .pullMessageLater timer =>
    if timer ∈ state.scheduledService then
      some (executePullRequestImmediately
        { state with scheduledService := state.scheduledService.erase timer } timer.pullRequest)
    else none
  | .executePullTaskLater request =>
    if request ∈ state.pullLaterService then
      some { state with
        pullLaterService := state.pullLaterService.erase request
        rebalanceImpl := state.rebalanceImpl.removeProcessQueue request.messageQueue }
    else none
  | .consume address operation =>
    some { state with
      rebalanceImpl := state.rebalanceImpl.setProcessQueue address
        (operation.apply (state.rebalanceImpl.processQueues address)) }

end PullState

/-- The pull side of a push consumer with its settings. -/
def pullSystem (config : PullConfig) : EventSystem PullState PullEvent where
  step := PullState.step config

namespace PullState

/-! ### The live pull requests -/

/-- The pull requests in the queue of the pull service, without the one being served. -/
def waiting (state : PullState) : List PullRequest :=
  match state.serving with
  | .idle => state.pullRequestQueue
  | _ => state.pullRequestQueue.tail

/-- The pull request that `pullMessage` is executing. -/
def executing (state : PullState) : List PullRequest :=
  match state.serving with
  | .entered | .checked => state.pullRequestQueue.take 1
  | _ => []

/-- The process queues of the live pull requests: in the queue of the pull service, executed by
`pullMessage`, in a timer, or held by an asynchronous call. -/
def live (state : PullState) : List ℕ :=
  (state.waiting ++ state.executing ++ state.scheduledService.map PullMessageLater.pullRequest ++
    state.responseTable).map PullRequest.processQueue

/-- Every entry of the table that is not dropped has exactly one live pull request. -/
def Conserved (state : PullState) : Prop :=
  ∀ entry ∈ state.rebalanceImpl.processQueueTable.entries,
    (state.rebalanceImpl.processQueues entry.2).droped = false → state.live.count entry.2 = 1

instance (state : PullState) : Decidable state.Conserved :=
  inferInstanceAs (Decidable (∀ entry ∈ _, _ → _))

/-- The invariant of the pull side: the custody of the live pull requests, and a front while one is
served. -/
structure Invariant (state : PullState) : Prop where
  custody : state.rebalanceImpl.Custody state.live
  front : state.serving ≠ .idle → state.pullRequestQueue ≠ []

theorem Invariant.conserved {state : PullState} (hinvariant : state.Invariant) :
    state.Conserved :=
  fun entry hentry hdroped ↦ hinvariant.custody.oneEach entry.2 ⟨entry, hentry, rfl, hdroped⟩

theorem invariant_initial : initial.Invariant where
  custody :=
    { table_lt := fun _ hentry ↦ absurd hentry List.not_mem_nil
      live_lt := fun _ haddress ↦ absurd haddress List.not_mem_nil
      oneEach := by
        rintro address ⟨entry, hentry, -, -⟩
        exact absurd hentry List.not_mem_nil }
  front := fun hserving ↦ absurd rfl hserving

/-! ### Moves between the places -/

section Moves

variable {state : PullState} {request : PullRequest}

theorem live_executePullRequestImmediately
    (hfront : state.serving ≠ .idle → state.pullRequestQueue ≠ []) (request : PullRequest) :
    (state.executePullRequestImmediately request).live.Perm
      (request.processQueue :: state.live) := by
  obtain ⟨impl, queue, serving, timers, calls, tasks⟩ := state
  refine List.perm_iff_count.mpr fun address ↦ ?_
  cases queue with
  | nil =>
    have hidle : serving = .idle := not_not.mp fun hserving ↦ hfront hserving rfl
    subst hidle
    simp [executePullRequestImmediately, live, waiting, executing, List.count_cons]
  | cons head rest =>
    cases serving <;>
      simp [executePullRequestImmediately, live, waiting, executing, List.count_cons] <;> omega

theorem live_executePullRequestLater (state : PullState) (request : PullRequest)
    (timeDelay : ℤ) :
    (state.executePullRequestLater request timeDelay).live.Perm
      (request.processQueue :: state.live) := by
  refine List.perm_iff_count.mpr fun address ↦ ?_
  simp [executePullRequestLater, live, waiting, executing, List.count_cons]
  omega

/-- A call is registered and `pullMessage` goes on with it. -/
theorem live_register (state : PullState) (request : PullRequest) (fate : CallbackFate) :
    ({ state with
      responseTable := state.responseTable ++ [request]
      serving := .sending fate } : PullState).live.Perm
      (request.processQueue :: ({ state with serving := .returned } : PullState).live) := by
  refine List.perm_iff_count.mpr fun address ↦ ?_
  simp [live, waiting, executing, List.count_cons]
  omega

theorem live_unregister (hmem : request ∈ state.responseTable) :
    state.live.Perm (request.processQueue :: (state.dropCall request).live) := by
  have hperm := (List.perm_cons_erase hmem).map PullRequest.processQueue
  refine List.perm_iff_count.mpr fun address ↦ ?_
  have hcount := hperm.count_eq address
  simp [dropCall, live, waiting, executing, List.count_cons] at hcount ⊢
  omega

theorem live_expire {timer : PullMessageLater} (hmem : timer ∈ state.scheduledService) :
    state.live.Perm (timer.pullRequest.processQueue ::
      ({ state with
        scheduledService := state.scheduledService.erase timer } : PullState).live) := by
  have hperm := (List.perm_cons_erase hmem).map fun timer ↦ timer.pullRequest.processQueue
  refine List.perm_iff_count.mpr fun address ↦ ?_
  have hcount := hperm.count_eq address
  simp [live, waiting, executing, List.count_cons, Function.comp_def] at hcount ⊢
  omega

/-- The front of the queue leaves the custody of `pullMessage` when it returns. -/
theorem live_return {rest : List PullRequest}
    (hserving : state.serving = .entered ∨ state.serving = .checked)
    (hqueue : state.pullRequestQueue = request :: rest) :
    state.live.Perm (request.processQueue ::
      ({ state with serving := .returned } : PullState).live) := by
  refine List.perm_iff_count.mpr fun address ↦ ?_
  rcases hserving with hserving | hserving <;>
    simp [live, waiting, executing, hserving, hqueue, List.count_cons] <;> omega

end Moves

/-! ### What becomes of one pull request -/

/-- A pull request that was in nobody's custody is settled: it is live again, or its process queue
is dropped. -/
structure Settled (state next : PullState) (address : ℕ) : Prop where
  shrinks : state.rebalanceImpl.Shrinks next.rebalanceImpl
  live : next.live.Perm (address :: state.live) ∨
    (next.live.Perm state.live ∧ (next.rebalanceImpl.processQueues address).droped = true)
  serving : next.serving = state.serving
  front : state.pullRequestQueue ≠ [] → next.pullRequestQueue ≠ []

/-- Taking a pull request out of its place and settling it keeps the invariant. -/
theorem Invariant.settle {state next : PullState} {address : ℕ} (hinvariant : state.Invariant)
    (taken : PullState) (himpl : taken.rebalanceImpl = state.rebalanceImpl)
    (htaken : state.live.Perm (address :: taken.live))
    (hfront : taken.serving ≠ .idle → taken.pullRequestQueue ≠ [])
    (hsettled : taken.Settled next address) : next.Invariant where
  custody := by
    have hshrinks := himpl ▸ hsettled.shrinks
    rcases hsettled.live with hlive | ⟨hlive, hdroped⟩
    · exact hinvariant.custody.move hshrinks (hlive.trans htaken.symm)
    · exact hinvariant.custody.discard hshrinks hdroped
        (htaken.trans (List.Perm.cons address hlive.symm))
  front := fun hserving ↦ hsettled.front (hfront (hsettled.serving ▸ hserving))

section Settling

variable {state : PullState} (config : PullConfig) (request : PullRequest)

theorem settled_executePullRequestLater (state : PullState) (timeDelay : ℤ) :
    state.Settled (state.executePullRequestLater request timeDelay) request.processQueue where
  shrinks := RebalanceImpl.Shrinks.refl _
  live := Or.inl (state.live_executePullRequestLater request timeDelay)
  serving := rfl
  front := fun hqueue ↦ hqueue

theorem settled_executePullRequestImmediately
    (hfront : state.serving ≠ .idle → state.pullRequestQueue ≠ []) :
    state.Settled (state.executePullRequestImmediately request) request.processQueue where
  shrinks := RebalanceImpl.Shrinks.refl _
  live := Or.inl (live_executePullRequestImmediately hfront request)
  serving := rfl
  front := fun _ ↦ List.append_ne_nil_of_right_ne_nil _ (List.cons_ne_nil _ _)

/-- A pull request of a dropped process queue may be thrown away. -/
theorem settled_of_droped {request : PullRequest}
    (hdroped : (state.processQueueOf request).droped = true) :
    state.Settled state request.processQueue where
  shrinks := RebalanceImpl.Shrinks.refl _
  live := Or.inr ⟨List.Perm.refl _, hdroped⟩
  serving := rfl
  front := fun hqueue ↦ hqueue

/-- A change of process queues and table before the pull request is settled. -/
theorem Settled.of_shrinks {impl : RebalanceImpl} {next : PullState} {address : ℕ}
    (hshrinks : state.rebalanceImpl.Shrinks impl)
    (hsettled : ({ state with rebalanceImpl := impl } : PullState).Settled next address) :
    state.Settled next address where
  shrinks := hshrinks.trans hsettled.shrinks
  live := hsettled.live
  serving := hsettled.serving
  front := hsettled.front

theorem settled_onSuccess (hfront : state.serving ≠ .idle → state.pullRequestQueue ≠ [])
    (status : PullStatus) (response : PullResponse) :
    state.Settled (state.onSuccess config request status response) request.processQueue := by
  cases status with
  | found =>
    simp only [onSuccess]
    have hshrinks : state.rebalanceImpl.Shrinks
        (state.rebalanceImpl.setProcessQueue request.processQueue
          ((state.processQueueOf request).putMessage response.msgFoundList).2) :=
      state.rebalanceImpl.shrinks_setProcessQueue request.processQueue fun hdroped ↦ by
        rwa [ProcessQueue.putMessage_droped]
    refine Settled.of_shrinks hshrinks ?_
    split_ifs
    · exact settled_executePullRequestLater { request with nextOffset := _ } _ _
    · exact settled_executePullRequestImmediately { request with nextOffset := _ } hfront
  | noNewMsg =>
    exact settled_executePullRequestImmediately { request with nextOffset := _ } hfront
  | noMatchedMsg =>
    exact settled_executePullRequestImmediately { request with nextOffset := _ } hfront
  | offsetIllegal =>
    refine Settled.of_shrinks (state.rebalanceImpl.shrinks_setDroped request.processQueue) ?_
    exact
      { shrinks := RebalanceImpl.Shrinks.refl _
        live := Or.inr ⟨List.Perm.refl _, RebalanceImpl.setDroped_droped _ _⟩
        serving := rfl
        front := fun hqueue ↦ hqueue }

/-- The completion of a call settles its pull request, whatever the reply. -/
theorem settled_operationComplete
    (hfront : state.serving ≠ .idle → state.pullRequestQueue ≠ [])
    (response : Option PullResponse) :
    state.Settled (state.operationComplete config request response) request.processQueue := by
  unfold operationComplete
  split
  · exact settled_executePullRequestLater request state _
  · split
    · exact settled_executePullRequestLater request state _
    · exact settled_onSuccess config request hfront _ _

/-- `pullMessage` settles the pull request of a dropped process queue. -/
theorem settled_pullMessageDroped {request : PullRequest}
    (hdroped : (state.processQueueOf request).droped = true) :
    state.Settled (state.pullMessageDroped request) request.processQueue := by
  unfold pullMessageDroped
  split_ifs
  · exact settled_of_droped hdroped
  · exact settled_executePullRequestLater request state _

/-- `pullMessage` settles its pull request, unless it comes to connect to the broker: then it loses
the pull request when it fails, and registers the call otherwise. -/
theorem pullMessage_cases (state : PullState) {request : PullRequest}
    {environment : PullEnvironment}
    (hconnect : pullPostponed config environment (state.processQueueOf request) = none →
      environment.network = .connectFailed → (state.processQueueOf request).droped = true) :
    state.Settled (state.pullMessage config request environment) request.processQueue ∨
      ∃ fate, state.pullMessage config request environment = { state with
        responseTable := state.responseTable ++ [request]
        serving := .sending fate } := by
  unfold pullMessage
  cases hpostponed : pullPostponed config environment (state.processQueueOf request) with
  | some timeDelay => exact Or.inl (settled_executePullRequestLater request state timeDelay)
  | none =>
    cases hnetwork : environment.network with
    | brokerNotExist => exact Or.inl (settled_executePullRequestLater request state _)
    | connectFailed => exact Or.inl (settled_of_droped (hconnect hpostponed hnetwork))
    | sendFailed ret => exact Or.inr ⟨.executed, rfl⟩
    | sent => exact Or.inr ⟨.registered, rfl⟩

end Settling

/-! ### Runs -/

/-- The condition under which a step neither loses nor doubles a pull request: the pull service
finds the consumer, a `pullMessage` that no check postpones can connect to the broker, and the
custom header of a response can be made, unless the process queue is dropped; and a send that fails
finds its call in the table. -/
def KeepsPullRequest (config : PullConfig) (state : PullState) : PullEvent → Prop
  | .takeFront consumerFound => ∀ request ∈ state.pullRequestQueue.head?,
    consumerFound = false → (state.processQueueOf request).droped = true
  | .pullMessage environment => ∀ request ∈ state.pullRequestQueue.head?,
    pullPostponed config environment (state.processQueueOf request) = none →
      environment.network = .connectFailed → (state.processQueueOf request).droped = true
  | .sendCmd => ∀ request ∈ state.pullRequestQueue.head?,
    state.serving = .sending .executed → request ∈ state.responseTable
  | .headerThrows request => (state.processQueueOf request).droped = true
  | _ => True

instance (config : PullConfig) (state : PullState) :
    ∀ event, Decidable (state.KeepsPullRequest config event)
  | .takeFront _ | .pullMessage _ | .sendCmd => inferInstanceAs (Decidable (∀ _ ∈ _, _))
  | .headerThrows _ => inferInstanceAs (Decidable (_ = _))
  | .doRebalance | .updateProcessQueueTableInRebalance _ | .truncateMessageQueueNotMyTopic _
  | .checkDroped | .popFront | .operationComplete _ _ | .pullMessageLater _
  | .executePullTaskLater _ | .consume _ _ => isTrue trivial

/-- A step that only changes the table and the process queues. -/
theorem Invariant.of_shrinks {state : PullState} {impl : RebalanceImpl}
    (hinvariant : state.Invariant) (hshrinks : state.rebalanceImpl.Shrinks impl) :
    ({ state with rebalanceImpl := impl } : PullState).Invariant :=
  ⟨hinvariant.custody.move hshrinks (List.Perm.refl _), hinvariant.front⟩

/-- Dispatching adds the pull requests to the live ones. -/
theorem dispatchPullRequest_spec (requests : List PullRequest) {state : PullState}
    (hfront : state.serving ≠ .idle → state.pullRequestQueue ≠ []) :
    (state.dispatchPullRequest requests).rebalanceImpl = state.rebalanceImpl ∧
      (state.dispatchPullRequest requests).live.Perm
        (state.live ++ requests.map PullRequest.processQueue) ∧
      ((state.dispatchPullRequest requests).serving ≠ .idle →
        (state.dispatchPullRequest requests).pullRequestQueue ≠ []) := by
  induction requests generalizing state with
  | nil => exact ⟨rfl, by simp [dispatchPullRequest], hfront⟩
  | cons request rest ih =>
    have hfirst := settled_executePullRequestImmediately request hfront
    obtain ⟨himpl, hlive, hlast⟩ := @ih (state.executePullRequestImmediately request)
      fun hserving ↦ hfirst.front (hfront hserving)
    refine ⟨himpl, hlive.trans ?_, hlast⟩
    have hadded := live_executePullRequestImmediately hfront request
    exact (hadded.append_right _).trans List.perm_middle.symm

/-- Dispatching the pull requests of a rebalance pass. -/
theorem invariant_dispatchPullRequest {state : PullState} (hinvariant : state.Invariant)
    {pass : RebalancePass} (hpass : pass.rebalanceImpl.Custody (pass.live state.live)) :
    (dispatchPullRequest { state with rebalanceImpl := pass.rebalanceImpl }
      pass.pullRequestList).Invariant := by
  obtain ⟨himpl, hlive, hfront⟩ := @dispatchPullRequest_spec pass.pullRequestList
    { state with rebalanceImpl := pass.rebalanceImpl } hinvariant.front
  refine ⟨?_, hfront⟩
  rw [himpl]
  exact hpass.move (RebalanceImpl.Shrinks.refl _) hlive

theorem consume_droped (operation : ConsumeOperation) (queue : ProcessQueue) :
    (operation.apply queue).droped = queue.droped := by
  cases operation with
  | removeMessage msgs => exact ProcessQueue.removeMessage_droped queue msgs
  | takeMessags batchSize =>
    rw [ConsumeOperation.apply, ProcessQueue.takeMessags_queue]
  | commit =>
    simp only [ConsumeOperation.apply, ProcessQueue.commit]
    split <;> rfl
  | rollback => rfl
  | makeMessageToCosumeAgain msgs =>
    simp only [ConsumeOperation.apply, ProcessQueue.makeMessageToCosumeAgain_eq]

theorem invariant_takeFront {state : PullState} {consumerFound : Bool}
    (hinvariant : state.Invariant)
    (hkeeps : ∀ request ∈ state.pullRequestQueue.head?,
      consumerFound = false → (state.processQueueOf request).droped = true)
    (hidle : state.serving = .idle) (hqueue : state.pullRequestQueue ≠ []) :
    ({ state with serving := if consumerFound then .entered else .returned } :
      PullState).Invariant := by
  obtain ⟨request, rest, hcons⟩ := List.exists_cons_of_ne_nil hqueue
  have hentered : ({ state with serving := .entered } : PullState).Invariant := by
    refine ⟨hinvariant.custody.move (RebalanceImpl.Shrinks.refl _) ?_, fun _ ↦ hqueue⟩
    refine List.perm_iff_count.mpr fun address ↦ ?_
    simp [live, waiting, executing, hidle, hcons, List.count_cons]
    omega
  cases consumerFound with
  | true => exact hentered
  | false =>
    have hdroped := hkeeps request (by rw [hcons]; rfl) rfl
    have htaken := @live_return { state with serving := .entered } request rest (Or.inl rfl) hcons
    exact hentered.settle { state with serving := .returned } rfl htaken (fun _ ↦ hqueue)
      (settled_of_droped hdroped)

/-- The registered call of a `pullMessage` has the custody of its pull request. -/
theorem invariant_register {state : PullState} {request : PullRequest} {rest : List PullRequest}
    (hinvariant : state.Invariant) (hserving : state.serving = .checked)
    (hqueue : state.pullRequestQueue = request :: rest) (fate : CallbackFate) :
    ({ state with
      responseTable := state.responseTable ++ [request]
      serving := .sending fate } : PullState).Invariant := by
  refine ⟨hinvariant.custody.move (RebalanceImpl.Shrinks.refl _) ?_, fun _ hnil ↦ ?_⟩
  · exact (state.live_register request fate).trans (live_return (Or.inr hserving) hqueue).symm
  · exact List.cons_ne_nil request rest (hqueue.symm.trans hnil)

/-- `pullMessage` leaves the custody of the front. -/
theorem invariant_pullMessage {config : PullConfig} {state : PullState} {request : PullRequest}
    {rest : List PullRequest} {environment : PullEnvironment} (hinvariant : state.Invariant)
    (hserving : state.serving = .checked) (hqueue : state.pullRequestQueue = request :: rest)
    (hconnect : pullPostponed config environment (state.processQueueOf request) = none →
      environment.network = .connectFailed → (state.processQueueOf request).droped = true) :
    (pullMessage config { state with serving := .returned } request environment).Invariant := by
  have hfront : state.pullRequestQueue ≠ [] := hqueue ▸ List.cons_ne_nil request rest
  rcases pullMessage_cases config { state with serving := .returned } hconnect with
    hsettled | ⟨fate, hregistered⟩
  · exact hinvariant.settle { state with serving := .returned } rfl
      (live_return (Or.inr hserving) hqueue) (fun _ ↦ hfront) hsettled
  · rw [hregistered]
    exact invariant_register hinvariant hserving hqueue fate

/-- `SendCmd` returns: the call has the custody, or it is completed here. -/
theorem invariant_sendCmd {config : PullConfig} {state : PullState} {request : PullRequest}
    {rest : List PullRequest} {fate : CallbackFate} (hinvariant : state.Invariant)
    (hserving : state.serving = .sending fate) (hqueue : state.pullRequestQueue = request :: rest)
    (hfound : fate = .executed → request ∈ state.responseTable) :
    (sendCmd config { state with serving := .returned } request fate).Invariant := by
  have hfront : state.pullRequestQueue ≠ [] := hqueue ▸ List.cons_ne_nil request rest
  have hreturned : ({ state with serving := .returned } : PullState).Invariant := by
    refine ⟨hinvariant.custody.move (RebalanceImpl.Shrinks.refl _) ?_, fun _ ↦ hfront⟩
    simp [live, waiting, executing, hserving]
  cases fate with
  | unused | registered => exact hreturned
  | executed =>
    exact hreturned.settle (dropCall { state with serving := .returned } request) rfl
      (@live_unregister { state with serving := .returned } request (hfound rfl)) (fun _ ↦ hfront)
      (@settled_operationComplete (dropCall { state with serving := .returned } request) config
        request (fun _ ↦ hfront) none)

/-- A step that loses no pull request keeps the invariant. -/
theorem step_invariant {config : PullConfig} {state next : PullState} {event : PullEvent}
    (hkeeps : state.KeepsPullRequest config event) (hstep : state.step config event = some next)
    (hinvariant : state.Invariant) : next.Invariant := by
  cases event with
  | doRebalance =>
    obtain rfl := Option.some.inj hstep
    exact hinvariant.of_shrinks ⟨fun _ hentry ↦ hentry, fun _ hdroped ↦ hdroped, rfl⟩
  | updateProcessQueueTableInRebalance input =>
    obtain rfl := Option.some.inj hstep
    exact invariant_dispatchPullRequest hinvariant
      (RebalanceImpl.custody_updateProcessQueueTableInRebalance hinvariant.custody input)
  | truncateMessageQueueNotMyTopic subTable =>
    obtain rfl := Option.some.inj hstep
    exact hinvariant.of_shrinks
      (state.rebalanceImpl.shrinks_truncateMessageQueueNotMyTopic subTable)
  | takeFront consumerFound =>
    simp only [step, Option.ite_none_right_eq_some, Option.some.injEq] at hstep
    obtain ⟨⟨hidle, hqueue⟩, rfl⟩ := hstep
    exact invariant_takeFront hinvariant hkeeps hidle hqueue
  | checkDroped =>
    simp only [step] at hstep
    split at hstep
    · next request rest hserving hqueue =>
      have hfront : state.pullRequestQueue ≠ [] := hqueue ▸ List.cons_ne_nil request rest
      split_ifs at hstep with hdroped
      · obtain rfl := Option.some.inj hstep
        exact hinvariant.settle { state with serving := .returned } rfl
          (live_return (Or.inl hserving) hqueue) (fun _ ↦ hfront)
          (settled_pullMessageDroped hdroped)
      · obtain rfl := Option.some.inj hstep
        refine ⟨hinvariant.custody.move (RebalanceImpl.Shrinks.refl _) ?_, fun _ ↦ hfront⟩
        simp [live, waiting, executing, hserving]
    · exact absurd hstep (Option.some_ne_none _).symm
  | pullMessage environment =>
    simp only [step] at hstep
    split at hstep
    · next request rest hserving hqueue =>
      have hconnect := hkeeps request (by rw [hqueue]; rfl)
      obtain rfl := Option.some.inj hstep
      exact invariant_pullMessage hinvariant hserving hqueue hconnect
    · exact absurd hstep (Option.some_ne_none _).symm
  | sendCmd =>
    simp only [step] at hstep
    split at hstep
    · next fate request rest hserving hqueue =>
      have hfound := hkeeps request (by rw [hqueue]; rfl)
      obtain rfl := Option.some.inj hstep
      exact invariant_sendCmd hinvariant hserving hqueue fun hfate ↦ hfound (hfate ▸ hserving)
    · exact absurd hstep (Option.some_ne_none _).symm
  | popFront =>
    simp only [step, Option.ite_none_right_eq_some, Option.some.injEq] at hstep
    obtain ⟨hserving, rfl⟩ := hstep
    refine ⟨hinvariant.custody.move (RebalanceImpl.Shrinks.refl _) ?_, fun h ↦ absurd rfl h⟩
    simp [live, waiting, executing, hserving]
  | operationComplete request response =>
    simp only [step, Option.ite_none_right_eq_some, Option.some.injEq] at hstep
    obtain ⟨hmem, rfl⟩ := hstep
    exact hinvariant.settle (state.dropCall request) rfl (live_unregister hmem) hinvariant.front
      (@settled_operationComplete (state.dropCall request) config request hinvariant.front response)
  | headerThrows request =>
    simp only [step, Option.ite_none_right_eq_some, Option.some.injEq] at hstep
    obtain ⟨hmem, rfl⟩ := hstep
    exact hinvariant.settle (state.dropCall request) rfl (live_unregister hmem) hinvariant.front
      (settled_of_droped hkeeps)
  | pullMessageLater timer =>
    simp only [step, Option.ite_none_right_eq_some, Option.some.injEq] at hstep
    obtain ⟨hmem, rfl⟩ := hstep
    exact hinvariant.settle { state with scheduledService := state.scheduledService.erase timer }
      rfl (live_expire hmem) hinvariant.front
      (settled_executePullRequestImmediately timer.pullRequest hinvariant.front)
  | executePullTaskLater request =>
    simp only [step, Option.ite_none_right_eq_some, Option.some.injEq] at hstep
    obtain ⟨-, rfl⟩ := hstep
    have hshrinks := state.rebalanceImpl.shrinks_removeProcessQueue request.messageQueue
    exact ⟨hinvariant.custody.move hshrinks (List.Perm.refl _), hinvariant.front⟩
  | consume address operation =>
    obtain rfl := Option.some.inj hstep
    refine hinvariant.of_shrinks (state.rebalanceImpl.shrinks_setProcessQueue address ?_)
    exact fun hdroped ↦ (consume_droped operation _).trans hdroped

end PullState

/-- In every run in which no pull request of a queue that is not dropped is lost to a missing
consumer, to a failure to connect or to a custom header that cannot be made, and every send that
fails finds its call in the table, every entry of the table that is not dropped has exactly one live
pull request. -/
theorem pull_request_conserved (config : PullConfig) (events : List PullEvent) (last : PullState)
    (halong : (pullSystem config).Along (PullState.KeepsPullRequest config) PullState.initial
      events)
    (hrun : (pullSystem config).run PullState.initial events = some last) : last.Conserved :=
  (EventSystem.run_invariant_of_along
    (fun _ _ _ hkeeps hstep hinvariant ↦ PullState.step_invariant hkeeps hstep hinvariant)
    halong hrun PullState.invariant_initial).conserved

/-- Settings and a rebalance that allocates one queue to the client. -/
def sampleConfig : PullConfig where
  pullThresholdForQueue := 1000
  consumeConcurrentlyMaxSpan := 2000
  consumeOrderly := false
  pullInterval := 0

def sampleRebalance : RebalanceInput where
  topic := [116]
  mqSet := [⟨[116], [98], 0⟩]
  masterAddrOfHeld := fun _ ↦ [109]
  masterAddrOfAdded := fun _ ↦ [109]
  computePullFromWhere := fun _ ↦ 0
  now := 0

/-- A pull of a running consumer that gets as far as the network allows. -/
def samplePull (network : PullNetwork) (sending : List PullEvent) : List PullEvent :=
  [.takeFront true, .checkDroped, .pullMessage ⟨true, false, true, network⟩] ++ sending ++
    [.popFront]

/-- A queue is added and its first pull is answered while the pull service is still in `SendCmd`;
the send of its second pull fails. -/
def answeredAndFailed : List PullEvent :=
  .updateProcessQueueTableInRebalance sampleRebalance ::
    samplePull .sent
      [.operationComplete ⟨⟨[116], [98], 0⟩, 0, 0⟩ (some ⟨19, 6, []⟩), .sendCmd] ++
    samplePull (.sendFailed 1) [.sendCmd]

/-- The pull request is in a timer, with the next offset of the reply. -/
theorem pull_request_conserved_answered :
    ∃ last, (pullSystem sampleConfig).run PullState.initial answeredAndFailed = some last ∧
      last.scheduledService = [⟨⟨⟨[116], [98], 0⟩, 0, 6⟩, 3000⟩] ∧ last.live = [0] ∧
      last.Conserved := by
  have hrun : ((pullSystem sampleConfig).run PullState.initial answeredAndFailed).map
      (fun last ↦ (last.scheduledService, last.live)) =
        some ([⟨⟨⟨[116], [98], 0⟩, 0, 6⟩, 3000⟩], [0]) := by decide
  obtain ⟨last, hlast, hlive⟩ := Option.map_eq_some_iff.mp hrun
  obtain ⟨htimer, hlive⟩ := Prod.mk.inj hlive
  exact ⟨last, hlast, htimer, hlive,
    pull_request_conserved sampleConfig answeredAndFailed last (by decide) hlast⟩

/-- A queue is added and its first pull cannot connect to the broker: no pull request is left for
it. -/
theorem pull_request_lost : ¬ ∀ (config : PullConfig) (events : List PullEvent) (last : PullState),
    (pullSystem config).run PullState.initial events = some last → last.Conserved := by
  intro hconserved
  have hlost : ((pullSystem sampleConfig).run PullState.initial
      (.updateProcessQueueTableInRebalance sampleRebalance ::
        samplePull .connectFailed [])).map (fun last ↦ decide last.Conserved) = some false := by
    decide
  obtain ⟨last, hrun, hlast⟩ := Option.map_eq_some_iff.mp hlost
  exact of_decide_eq_false hlast (hconserved sampleConfig _ last hrun)

end RocketMQClient.Consumer
