import RocketMQClient.Consumer.StartOffset

/-!
# The lock of the consumer table

`MQClientFactory::doRebalance` and `persistAllConsumerOffset` hold the lock of the consumer table
while they go through the consumers. A rebalance finds the ids of the consumers of a group, drops
and adds queues, and computes the start offset of each new queue; the removal of a queue and the
persistence of the offsets send offsets to the brokers. On all these paths a broker without an
address makes the client refresh a route, and the refresh takes the lock unless it is told that the
caller holds it. Only `findConsumerIdList` says so.

`consumer_table_lock_taken_once_iff` says that the two operations get through exactly when every
refresh under the lock is `Harmless`, and `consumer_table_lock_taken_twice` has runs in which
the lock is taken twice.

A session that takes the lock twice is stuck, and stuck is an outcome of its own, apart from
returning and from throwing. Each function on the path has a lemma that it is stuck under the lock
exactly when it asks a question whose answer is not harmless (`StuckExactly`), and these compose
along the calls.
-/

set_option autoImplicit false
set_option relaxedAutoImplicit false

namespace RocketMQClient.Consumer

open Library Messages Factory

/-! ### The operations of the source -/

/-- Persists the offsets of the given queues in the store of a consumer; the local store writes its
file. -/
def persistAll (consumer : ConsumerInner) (group : ByteString) (mqs : List MessageQueue) :
    Client Unit :=
  if consumer.remoteOffsetStore then RemoteBrokerOffsetStore.persistAll group mqs else pure ()

/-- Throws when the service of a consumer does not run. -/
def makeSureStateOK (group : ByteString) : Client Unit := do
  let running ← Session.read fun state ↦ state.serviceRunning group
  if running then pure ()
  else Session.throw ⟨.client, ofString "The consumer service state not OK, ", -1⟩

/-- Persists the offsets of the queues in the process queue table. -/
def persistConsumerOffset (consumer : ConsumerInner) (group : ByteString) : Client Unit :=
  Session.tryCatch (do
    makeSureStateOK group
    let mqs ← Session.read fun state ↦ (state.rebalanceImpl group).processQueueTable.keys
    persistAll consumer group mqs) fun _ ↦ pure ()

namespace RebalanceSession

/-- Changes the process queue table of a group. -/
def changeRebalanceImpl (group : ByteString) (change : RebalanceImpl → RebalanceImpl) :
    Client Unit :=
  Session.modify fun state ↦ { state with
    rebalanceImpl := fun other ↦
      if other = group then change (state.rebalanceImpl other) else state.rebalanceImpl other }

/-- Persists and forgets the offset of a queue that is dropped; the local store does neither. -/
def removeUnnecessaryMessageQueue (consumer : ConsumerInner) (group : ByteString)
    (queue : MessageQueue) : Client Unit :=
  if consumer.remoteOffsetStore then do
    RemoteBrokerOffsetStore.persist group queue
    changeOffsetTable group fun table ↦ table.removeOffset queue
  else pure ()

/-- Where a new queue starts; a pull consumer keeps its own offsets. -/
def computePullFromWhere (consumer : ConsumerInner) (group : ByteString) (queue : MessageQueue) :
    Client ℤ :=
  if consumer.pushConsumer then RebalancePushImpl.computePullFromWhere consumer group queue
  else pure 0

/-- Hands the new pull requests to the pull service; a pull consumer throws them away. -/
def dispatchPullRequest (consumer : ConsumerInner) (pullRequestList : List PullRequest) :
    Client Unit :=
  if consumer.pushConsumer then
    Session.modify fun state ↦ { state with
      pullRequestQueue := state.pullRequestQueue ++ pullRequestList }
  else pure ()

/-- The removal loop for one entry of the table. -/
def removeEntry (consumer : ConsumerInner) (group topic : ByteString) (mqSet : List MessageQueue)
    (pass : RebalancePass) (entry : MessageQueue × ℕ) : Client RebalancePass := do
  let masterAddr ← findMasterBrokerAddrByTopicAndName entry.1.topic entry.1.brokerName
  let next := RebalanceImpl.removeUnnecessary
    ⟨topic, mqSet, fun _ ↦ masterAddr, fun _ ↦ masterAddr, fun _ ↦ 0, consumer.now⟩ pass entry
  changeRebalanceImpl group fun _ ↦ next.rebalanceImpl
  if entry.1 ∈ next.rebalanceImpl.processQueueTable then pure next
  else do
    removeUnnecessaryMessageQueue consumer group entry.1
    pure next

/-- The addition loop for one allocated queue. -/
def addQueue (consumer : ConsumerInner) (group topic : ByteString) (mqSet : List MessageQueue)
    (pass : RebalancePass) (queue : MessageQueue) : Client RebalancePass :=
  if queue ∈ pass.rebalanceImpl.processQueueTable then pure pass
  else do
    let nextOffset ← computePullFromWhere consumer group queue
    let masterAddr ← findMasterBrokerAddrByTopicAndName queue.topic queue.brokerName
    let next := RebalanceImpl.addMissing
      ⟨topic, mqSet, fun _ ↦ masterAddr, fun _ ↦ masterAddr, fun _ ↦ nextOffset, consumer.now⟩
      pass queue
    changeRebalanceImpl group fun _ ↦ next.rebalanceImpl
    pure next

/-- One pass for a topic. -/
def updateProcessQueueTableInRebalance (consumer : ConsumerInner) (group topic : ByteString)
    (mqSet : List MessageQueue) : Client Bool := do
  let impl ← Session.read fun state ↦ state.rebalanceImpl group
  let removed ← Session.forEach impl.processQueueTable.entries
    (removeEntry consumer group topic mqSet) ⟨impl, [], false⟩
  let added ← Session.forEach mqSet (addQueue consumer group topic mqSet) removed
  dispatchPullRequest consumer added.pullRequestList
  pure added.changed

/-- Allocates the queues of a topic and updates the table. A client exception of the strategy is
caught, and the pointer to the result is read as it is. An index out of range leaves the pass
through the `catch` of `doRebalance`, and a division without a quotient ends the process. -/
def allocateAndUpdate (consumer : ConsumerInner) (group topic : ByteString)
    (mqAll : List MessageQueue) (cidAll : List ByteString) : Client Unit := do
  let clientId ← Session.read ClientState.clientId
  match consumer.strategy clientId mqAll (sortCids cidAll) with
  | .error .outOfRange => pure ()
  | .error .divisionFault => pure ()
  | .error (.clientException _) => do
    let _ ← updateProcessQueueTableInRebalance consumer group topic
      (allocateResultSet consumer.uninitialized)
    pure ()
  | .ok allocateResult => do
    let _ ← updateProcessQueueTableInRebalance consumer group topic
      (allocateResultSet allocateResult)
    pure ()

/-- Rebalances one topic. The search for the queues of the topic comes before the one for the ids of
the consumers, but the queues are those after it. -/
def rebalanceByTopic (consumer : ConsumerInner) (group topic : ByteString) : Client Unit :=
  match consumer.messageModel with
  | .broadcasting => do
    let mqSet ← Session.read fun state ↦ (state.topicSubscribeInfoTable group).find? topic
    match mqSet with
    | none => pure ()
    | some mqSet => do
      let _ ← updateProcessQueueTableInRebalance consumer group topic mqSet
      pure ()
  | .clustering => do
    let known ← Session.read fun state ↦ decide (topic ∈ state.topicSubscribeInfoTable group)
    let cidAll ← findConsumerIdList topic group
    let mqSet ← Session.read fun state ↦ (state.topicSubscribeInfoTable group).find? topic
    if known = true ∧ cidAll ≠ [] then
      allocateAndUpdate consumer group topic (mqSet.getD []) cidAll
    else pure ()

/-- Rebalances every topic of a consumer, whatever happens to the topics before. -/
def doRebalance (consumer : ConsumerInner) (group : ByteString) : Client Unit := do
  let subTable ← Session.read fun state ↦ state.subscriptionInner group
  changeRebalanceImpl group fun impl ↦ { impl with downBrokerName := [] }
  Session.forEach subTable (fun _ topic ↦
    Session.tryCatch (rebalanceByTopic consumer group topic) fun _ ↦ pure ()) ()
  changeRebalanceImpl group fun impl ↦ impl.truncateMessageQueueNotMyTopic subTable

end RebalanceSession

namespace MQClientFactory

/-- Goes through the consumers. -/
def forEachConsumer (body : ConsumerInner → ByteString → Client Unit) : Client Unit := do
  let consumers ← Session.read fun state ↦ state.consumerTable.entries
  Session.forEach consumers (fun _ entry ↦ body entry.2 entry.1) ()

/-- Rebalances every consumer under the lock of the consumer table. -/
def doRebalance : Client Unit :=
  lockConsumerTable (forEachConsumer fun consumer group ↦
    Session.tryCatch (RebalanceSession.doRebalance consumer group) fun _ ↦ pure ())

/-- Persists the offsets of every consumer under the lock of the consumer table. -/
def persistAllConsumerOffset : Client Unit :=
  lockConsumerTable (forEachConsumer persistConsumerOffset)

end MQClientFactory

/-! ### Requests under the lock -/

theorem stuckExactly_changeOffsetTable (group : ByteString) (change : OffsetTable → OffsetTable) :
    StuckExactly (changeOffsetTable group change) :=
  Session.StuckExactly.modify (fun _ hlocked ↦ hlocked) fun _ ↦ rfl

theorem stuckExactly_atBroker {Result : Type} {find : Client ByteString}
    (hfind : StuckExactly find) (queue : MessageQueue) {body : ByteString → Client Result}
    (hbody : ∀ addr, StuckExactly (body addr)) : StuckExactly (atBroker find queue body) := by
  refine (stuckExactly_findOrRefresh hfind queue.topic false).bind fun addr ↦ ?_
  exact Session.StuckExactly.ite (fun _ ↦ Session.StuckExactly.throw _) fun _ ↦ hbody addr

theorem stuckExactly_catchClient {Result : Type} {body : Client Result}
    {handler : MQException → Client Result} (hbody : StuckExactly body)
    (hhandler : ∀ error, StuckExactly (handler error)) :
    StuckExactly (catchClient body handler) := by
  refine hbody.tryCatch fun error ↦ ?_
  cases error.exceptionClass with
  | client => exact hhandler error
  | broker => exact Session.StuckExactly.throw error

theorem stuckExactly_invokeForOffset (exceptionClass : ExceptionClass)
    (question : Answers → OffsetReply) (record : OffsetReply → ClientCall)
    (hrecord : ∀ reply, Harmless (record reply)) :
    StuckExactly (invokeForOffset exceptionClass question record) := by
  refine (stuckExactly_ask fun reply call hcall ↦ ?_).bind fun reply ↦
    Session.StuckExactly.of_quiet fun state hlocked ↦ ⟨hlocked, rfl, ?_⟩
  · rw [List.mem_singleton.mp hcall]
    exact hrecord reply
  · cases reply with
    | success offset => exact Outcome.ok_ne_stuck offset
    | error remark code => exact Outcome.thrown_ne_stuck _
    | noReply => exact Outcome.ok_ne_stuck 0

theorem stuckExactly_invokeMaster (queue : MessageQueue) {request : ByteString → Client ℤ}
    (hrequest : ∀ addr, StuckExactly (request addr)) :
    StuckExactly (MQAdminImpl.invokeMaster queue request) :=
  stuckExactly_atBroker (Session.StuckExactly.read _) queue fun addr ↦
    stuckExactly_catchClient (hrequest addr) fun _ ↦ Session.StuckExactly.throw _

theorem stuckExactly_brokerAddr (queue : MessageQueue) :
    StuckExactly (RemoteBrokerOffsetStore.brokerAddr queue) :=
  (Session.StuckExactly.read _).bind fun _ ↦ Session.StuckExactly.pure _

theorem stuckExactly_readFromBroker (group : ByteString) (queue : MessageQueue) :
    StuckExactly (RemoteBrokerOffsetStore.readFromBroker group queue) := by
  have hfetch := stuckExactly_atBroker (stuckExactly_brokerAddr queue) queue fun addr ↦
    stuckExactly_invokeForOffset .broker (fun answers ↦ answers.consumerOffset addr group queue)
      (.consumerOffset queue) fun _ ↦ trivial
  refine Session.StuckExactly.tryCatch (hfetch.bind fun offset ↦ ?_) fun error ↦ ?_
  · exact (stuckExactly_changeOffsetTable group _).bind fun _ ↦ Session.StuckExactly.pure offset
  · cases error.exceptionClass <;> exact Session.StuckExactly.pure _

theorem stuckExactly_readFromFile (group : ByteString) (queue : MessageQueue) :
    StuckExactly (LocalFileOffsetStore.readFromFile group queue) := by
  refine (stuckExactly_ask fun found call hcall ↦ ?_).bind fun found ↦ ?_
  · rw [List.mem_singleton.mp hcall]
    trivial
  · cases found with
    | none => exact Session.StuckExactly.pure _
    | some offset =>
      exact (stuckExactly_changeOffsetTable group _).bind fun _ ↦ Session.StuckExactly.pure offset

theorem stuckExactly_readOffset (consumer : ConsumerInner) (group : ByteString)
    (queue : MessageQueue) : StuckExactly (readOffset consumer group queue .readFromStore) := by
  refine Session.StuckExactly.ite (fun _ ↦ ?_) fun _ ↦ ?_
  · exact (Session.StuckExactly.read _).bind fun _ ↦ stuckExactly_readFromBroker group queue
  · exact (Session.StuckExactly.read _).bind fun _ ↦ stuckExactly_readFromFile group queue

theorem stuckExactly_maxOffset (queue : MessageQueue) :
    StuckExactly (catchClient (MQAdminImpl.maxOffset queue) fun _ ↦ pure (-1)) :=
  stuckExactly_catchClient (stuckExactly_invokeMaster queue fun addr ↦
    stuckExactly_invokeForOffset .client (fun answers ↦ answers.maxOffset addr queue)
      (.maxOffset queue) fun _ ↦ trivial) fun _ ↦ Session.StuckExactly.pure _

theorem stuckExactly_searchOffset (queue : MessageQueue) (timestamp : ℤ) :
    StuckExactly (catchClient (MQAdminImpl.searchOffset queue timestamp) fun _ ↦ pure (-1)) :=
  stuckExactly_catchClient (stuckExactly_invokeMaster queue fun addr ↦
    stuckExactly_invokeForOffset .client (fun answers ↦ answers.searchOffset addr queue timestamp)
      (.searchOffset queue timestamp) fun _ ↦ trivial) fun _ ↦ Session.StuckExactly.pure _

theorem stuckExactly_firstStart (consumer : ConsumerInner) (queue : MessageQueue) :
    StuckExactly (firstStart consumer queue) := by
  unfold firstStart
  cases consumer.consumeFromWhere with
  | consumeFromLastOffset =>
    exact Session.StuckExactly.ite (fun _ ↦ Session.StuckExactly.pure 0) fun _ ↦
      stuckExactly_maxOffset queue
  | consumeFromFirstOffset => exact Session.StuckExactly.pure 0
  | consumeFromTimestamp =>
    exact Session.StuckExactly.ite (fun _ ↦ stuckExactly_maxOffset queue) fun _ ↦
      stuckExactly_searchOffset queue consumer.consumeTimestamp

theorem stuckExactly_computePullFromWhere (consumer : ConsumerInner) (group : ByteString)
    (queue : MessageQueue) :
    StuckExactly (RebalanceSession.computePullFromWhere consumer group queue) := by
  refine Session.StuckExactly.ite (fun _ ↦ ?_) fun _ ↦ Session.StuckExactly.pure 0
  rw [computePullFromWhere_eq]
  refine (stuckExactly_readOffset consumer group queue).bind fun lastOffset ↦ ?_
  refine Session.StuckExactly.ite (fun _ ↦ Session.StuckExactly.pure lastOffset) fun _ ↦ ?_
  exact Session.StuckExactly.ite (fun _ ↦ stuckExactly_firstStart consumer queue) fun _ ↦
    Session.StuckExactly.pure (-1)

theorem stuckExactly_updateConsumeOffsetToBroker (queue : MessageQueue) (offset : ℤ) :
    StuckExactly (RemoteBrokerOffsetStore.updateConsumeOffsetToBroker queue offset) := by
  refine stuckExactly_atBroker (stuckExactly_brokerAddr queue) queue fun addr state hlocked ↦ ?_
  refine ⟨hlocked, [.updateConsumerOffset addr queue offset], rfl, fun _ call hcall ↦ ?_,
    fun _ ↦ Outcome.ok_ne_stuck _⟩
  rw [List.mem_singleton.mp hcall]
  trivial

theorem stuckExactly_persist (group : ByteString) (queue : MessageQueue) :
    StuckExactly (RemoteBrokerOffsetStore.persist group queue) := by
  refine (Session.StuckExactly.read _).bind fun stored ↦ ?_
  cases stored with
  | none => exact Session.StuckExactly.pure ()
  | some offset =>
    exact (stuckExactly_updateConsumeOffsetToBroker queue offset).tryCatch fun _ ↦
      Session.StuckExactly.pure ()

theorem stuckExactly_persistAll (consumer : ConsumerInner) (group : ByteString)
    (mqs : List MessageQueue) : StuckExactly (persistAll consumer group mqs) := by
  refine Session.StuckExactly.ite (fun _ ↦ ?_) fun _ ↦ Session.StuckExactly.pure ()
  refine Session.StuckExactly.ite (fun _ ↦ Session.StuckExactly.pure ()) fun _ ↦ ?_
  refine (Session.StuckExactly.read _).bind fun table ↦ ?_
  refine (Session.StuckExactly.forEach (fun _ entry ↦ ?_) ()).bind fun _ ↦
    stuckExactly_changeOffsetTable group _
  refine Session.StuckExactly.ite (fun _ ↦ ?_) fun _ ↦ Session.StuckExactly.pure ()
  exact (stuckExactly_updateConsumeOffsetToBroker entry.1 entry.2).tryCatch fun _ ↦
    Session.StuckExactly.pure ()

theorem stuckExactly_persistConsumerOffset (consumer : ConsumerInner) (group : ByteString) :
    StuckExactly (persistConsumerOffset consumer group) := by
  refine Session.StuckExactly.tryCatch ?_ fun _ ↦ Session.StuckExactly.pure ()
  have hstate : StuckExactly (makeSureStateOK group) :=
    (Session.StuckExactly.read _).bind fun _ ↦ Session.StuckExactly.ite
      (fun _ ↦ Session.StuckExactly.pure ()) fun _ ↦ Session.StuckExactly.throw _
  refine hstate.bind fun _ ↦ (Session.StuckExactly.read _).bind fun mqs ↦ ?_
  exact stuckExactly_persistAll consumer group mqs

/-! ### A rebalance under the lock -/

theorem stuckExactly_changeRebalanceImpl (group : ByteString)
    (change : RebalanceImpl → RebalanceImpl) :
    StuckExactly (RebalanceSession.changeRebalanceImpl group change) :=
  Session.StuckExactly.modify (fun _ hlocked ↦ hlocked) fun _ ↦ rfl

theorem stuckExactly_removeEntry (consumer : ConsumerInner) (group topic : ByteString)
    (mqSet : List MessageQueue) (pass : RebalancePass) (entry : MessageQueue × ℕ) :
    StuckExactly (RebalanceSession.removeEntry consumer group topic mqSet pass entry) := by
  have hremove : StuckExactly
      (RebalanceSession.removeUnnecessaryMessageQueue consumer group entry.1) := by
    refine Session.StuckExactly.ite (fun _ ↦ ?_) fun _ ↦ Session.StuckExactly.pure ()
    exact (stuckExactly_persist group entry.1).bind fun _ ↦ stuckExactly_changeOffsetTable group _
  refine (Session.StuckExactly.read _).bind fun masterAddr ↦ ?_
  refine (stuckExactly_changeRebalanceImpl group _).bind fun _ ↦ ?_
  refine Session.StuckExactly.ite (fun _ ↦ Session.StuckExactly.pure _) fun _ ↦ ?_
  exact hremove.bind fun _ ↦ Session.StuckExactly.pure _

theorem stuckExactly_addQueue (consumer : ConsumerInner) (group topic : ByteString)
    (mqSet : List MessageQueue) (pass : RebalancePass) (queue : MessageQueue) :
    StuckExactly (RebalanceSession.addQueue consumer group topic mqSet pass queue) := by
  refine Session.StuckExactly.ite (fun _ ↦ Session.StuckExactly.pure pass) fun _ ↦ ?_
  refine (stuckExactly_computePullFromWhere consumer group queue).bind fun nextOffset ↦ ?_
  refine (Session.StuckExactly.read _).bind fun masterAddr ↦ ?_
  exact (stuckExactly_changeRebalanceImpl group _).bind fun _ ↦ Session.StuckExactly.pure _

theorem stuckExactly_updateProcessQueueTableInRebalance (consumer : ConsumerInner)
    (group topic : ByteString) (mqSet : List MessageQueue) : StuckExactly
      (RebalanceSession.updateProcessQueueTableInRebalance consumer group topic mqSet) := by
  refine (Session.StuckExactly.read _).bind fun impl ↦ ?_
  refine (Session.StuckExactly.forEach
    (stuckExactly_removeEntry consumer group topic mqSet) _).bind fun removed ↦ ?_
  refine (Session.StuckExactly.forEach
    (stuckExactly_addQueue consumer group topic mqSet) removed).bind fun added ↦ ?_
  refine Session.StuckExactly.bind (Session.StuckExactly.ite (fun _ ↦ ?_) fun _ ↦
    Session.StuckExactly.pure ()) fun _ ↦ Session.StuckExactly.pure added.changed
  exact Session.StuckExactly.modify (fun _ hlocked ↦ hlocked) fun _ ↦ rfl

theorem stuckExactly_rebalanceByTopic (consumer : ConsumerInner) (group topic : ByteString) :
    StuckExactly (RebalanceSession.rebalanceByTopic consumer group topic) := by
  have hupdate : ∀ mqSet, StuckExactly (do
      let _ ← RebalanceSession.updateProcessQueueTableInRebalance consumer group topic mqSet
      pure ()) := fun mqSet ↦
    (stuckExactly_updateProcessQueueTableInRebalance consumer group topic mqSet).bind fun _ ↦
      Session.StuckExactly.pure ()
  unfold RebalanceSession.rebalanceByTopic
  cases consumer.messageModel with
  | broadcasting =>
    refine (Session.StuckExactly.read _).bind fun mqSet ↦ ?_
    cases mqSet with
    | none => exact Session.StuckExactly.pure ()
    | some mqSet => exact hupdate mqSet
  | clustering =>
    refine (Session.StuckExactly.read _).bind fun known ↦ ?_
    refine (stuckExactly_findConsumerIdList topic group).bind fun cidAll ↦ ?_
    refine (Session.StuckExactly.read _).bind fun mqSet ↦ ?_
    refine Session.StuckExactly.ite (fun _ ↦ ?_) fun _ ↦ Session.StuckExactly.pure ()
    refine (Session.StuckExactly.read _).bind fun clientId ↦ ?_
    rcases consumer.strategy clientId (mqSet.getD []) (sortCids cidAll) with
      (message | - | -) | allocateResult
    · exact hupdate _
    · exact Session.StuckExactly.pure ()
    · exact Session.StuckExactly.pure ()
    · exact hupdate _

theorem stuckExactly_doRebalance (consumer : ConsumerInner) (group : ByteString) :
    StuckExactly (RebalanceSession.doRebalance consumer group) := by
  refine (Session.StuckExactly.read _).bind fun subTable ↦ ?_
  refine (stuckExactly_changeRebalanceImpl group _).bind fun _ ↦ ?_
  refine (Session.StuckExactly.forEach (fun _ topic ↦ ?_) ()).bind fun _ ↦
    stuckExactly_changeRebalanceImpl group _
  exact (stuckExactly_rebalanceByTopic consumer group topic).tryCatch fun _ ↦
    Session.StuckExactly.pure ()

theorem stuckExactly_forEachConsumer {body : ConsumerInner → ByteString → Client Unit}
    (hbody : ∀ consumer group, StuckExactly (body consumer group)) :
    StuckExactly (MQClientFactory.forEachConsumer body) := by
  refine (Session.StuckExactly.read _).bind fun consumers ↦ ?_
  refine Session.StuckExactly.forEach (fun _ entry ↦ ?_) ()
  exact hbody entry.2 entry.1

/-- From a state in which the thread does not hold the lock, a rebalance and a persistence of all
offsets take the lock once, exactly when every refresh on their way is harmless. -/
theorem consumer_table_lock_taken_once_iff (state : ClientState)
    (hfree : state.consumerTableLocked = false) :
    ((MQClientFactory.doRebalance state).1 ≠ .stuck ↔
      ∀ call ∈ callsOf MQClientFactory.doRebalance state, Harmless call) ∧
    ((MQClientFactory.persistAllConsumerOffset state).1 ≠ .stuck ↔
      ∀ call ∈ callsOf MQClientFactory.persistAllConsumerOffset state, Harmless call) := by
  constructor
  · refine lockConsumerTable_ne_stuck_iff
      (stuckExactly_forEachConsumer fun consumer group ↦ ?_) hfree
    exact (stuckExactly_doRebalance consumer group).tryCatch fun _ ↦ Session.StuckExactly.pure ()
  · exact lockConsumerTable_ne_stuck_iff
      (stuckExactly_forEachConsumer stuckExactly_persistConsumerOffset) hfree

/-! ### Taking the lock twice -/

/-- A route without brokers. -/
def emptyRoute : TopicRouteData := ⟨[], [], []⟩

/-- A consumer of the topic `t` that consumes one queue, with the routes that are known and the
answer of the name server; no broker has an address. -/
def lockState (routes : OrderedMap ByteString TopicRouteData) (reply : RouteReply) : ClientState :=
  { lostReplyState with
    topicRouteTable := routes
    brokerAddrTable := OrderedMap.empty
    consumerTable := OrderedMap.empty.assign (ofString "g") lostConsumer
    subscriptionInner := fun _ ↦ [ofString "t"]
    rebalanceImpl := fun _ ↦ ⟨OrderedMap.empty.assign lostQueue 0, fun _ ↦ ProcessQueue.new 0, 1,
      OrderedMap.empty, []⟩
    environment := fun _ ↦ { silentAnswers with topicRoute := fun _ ↦ reply } }

/-- When the name server does not answer, the lock is taken once. -/
theorem consumer_table_lock_taken_once_of_silence :
    (MQClientFactory.doRebalance (lockState OrderedMap.empty .noReply)).1 ≠ .stuck ∧
      (MQClientFactory.persistAllConsumerOffset (lockState OrderedMap.empty .noReply)).1 ≠
        .stuck := by
  obtain ⟨hrebalance, hpersist⟩ :=
    consumer_table_lock_taken_once_iff (lockState OrderedMap.empty .noReply) rfl
  exact ⟨hrebalance.mpr (by decide), hpersist.mpr (by decide)⟩

/-- A broker without an address and a new route make the persistence of the offsets take the lock
twice; a known route without brokers that comes back unchanged does the same to a rebalance. -/
theorem consumer_table_lock_taken_twice :
    (lockState OrderedMap.empty (.route emptyRoute)).consumerTableLocked = false ∧
      (MQClientFactory.persistAllConsumerOffset
        (lockState OrderedMap.empty (.route emptyRoute))).1 = .stuck ∧
      (lockState (OrderedMap.empty.assign (ofString "t") emptyRoute)
        (.route emptyRoute)).consumerTableLocked = false ∧
      (MQClientFactory.doRebalance
        (lockState (OrderedMap.empty.assign (ofString "t") emptyRoute)
          (.route emptyRoute))).1 = .stuck := by
  refine ⟨rfl, by decide, rfl, by decide⟩

end RocketMQClient.Consumer
