import RocketMQClient.Factory.TopicRoute
import RocketMQClient.Consumer.Allocation
import RocketMQClient.Consumer.OffsetStore
import RocketMQClient.Consumer.Rebalance
import RocketMQClient.Library.Session

/-!
# The client factory

The client factory holds the route of each topic, the addresses of each broker, and the producers
and consumers of the process. `updateTopicRouteInfoFromNameServer` asks the name server for the
route of a topic and, when it is new, hands it to the producers and consumers; it takes the lock of
the consumer table to do so, unless its caller says that it holds the lock already. The lock is not
recursive: a thread that takes it twice is stuck for ever.

Code of the client is a session over `ClientState`, seen from one thread. What the name server and
the brokers answer is part of the state, one set of `Answers` for each question, and `calls` is the
history of the questions that matter with their answers.

`stuckExactly_updateTopicRouteInfoFromNameServer` says when a refresh of a route under the lock gets
stuck: exactly when the call is not `Harmless`.
-/

set_option autoImplicit false
set_option relaxedAutoImplicit false

namespace RocketMQClient.Factory

open Library Messages Consumer

/-! ### The state of the client -/

/-- The class of an exception. -/
inductive ExceptionClass where
  | client
  | broker
  deriving DecidableEq, Repr

/-- An exception of the client. -/
structure MQException where
  exceptionClass : ExceptionClass
  message : ByteString
  code : ℤ
  deriving DecidableEq

/-- What a synchronous request for an offset gets. -/
inductive OffsetReply where
  | success (offset : ℤ)
  | error (remark : ByteString) (code : ℤ)
  /-- `invokeSync` returned nothing. -/
  | noReply
  deriving DecidableEq

/-- What a request for a route gets. -/
inductive RouteReply where
  | route (route : TopicRouteData)
  | error (remark : ByteString) (code : ℤ)
  | noReply
  deriving DecidableEq

/-- The answers of the environment to one question. -/
structure Answers where
  lockNamesrv : Bool
  topicRoute : ByteString → RouteReply
  consumerIdList : ByteString → ByteString → Option (List ByteString)
  consumerOffset : ByteString → ByteString → MessageQueue → OffsetReply
  maxOffset : ByteString → MessageQueue → OffsetReply
  searchOffset : ByteString → MessageQueue → ℤ → OffsetReply
  localOffset : MessageQueue → Option ℤ

/-- A question with its answer. -/
inductive ClientCall where
  /-- The refresh of a route, with the flag of the caller and the route known before. -/
  | topicRoute (topic : ByteString) (bLocked : Bool) (known : Option TopicRouteData)
      (reply : RouteReply)
  | consumerOffset (queue : MessageQueue) (reply : OffsetReply)
  /-- The offset that the local file has for a queue. -/
  | localOffset (queue : MessageQueue) (found : Option ℤ)
  | maxOffset (queue : MessageQueue) (reply : OffsetReply)
  | searchOffset (queue : MessageQueue) (timestamp : ℤ) (reply : OffsetReply)
  | updateConsumerOffset (addr : ByteString) (queue : MessageQueue) (offset : ℤ)
  deriving DecidableEq

/-- The settings of a consumer, and what the pointer to the result of its strategy holds before the
strategy returns: nothing, or the queues that it leads to. -/
structure ConsumerInner where
  pushConsumer : Bool
  messageModel : MessageModel
  remoteOffsetStore : Bool
  consumeFromWhere : ConsumeFromWhere
  consumeTimestamp : ℤ
  strategy : ByteString → List MessageQueue → List ByteString →
    Except AllocateError (Option (List MessageQueue))
  uninitialized : Option (List MessageQueue)
  now : ℤ

/-- The tables of the client factory, those of each consumer by its group, the queue of the pull
service, whether this thread holds the lock of the consumer table, the answers to come, the number
of questions asked, and the history. -/
structure ClientState where
  clientId : ByteString
  topicRouteTable : OrderedMap ByteString TopicRouteData
  brokerAddrTable : OrderedMap ByteString (OrderedMap ℤ ByteString)
  producerTable : OrderedMap ByteString (OrderedMap ByteString (List MessageQueue))
  consumerTable : OrderedMap ByteString ConsumerInner
  serviceRunning : ByteString → Bool
  subscriptionInner : ByteString → List ByteString
  topicSubscribeInfoTable : ByteString → OrderedMap ByteString (List MessageQueue)
  rebalanceImpl : ByteString → RebalanceImpl
  offsetTable : ByteString → OffsetTable
  pullRequestQueue : List PullRequest
  consumerTableLocked : Bool
  environment : ℕ → Answers
  asked : ℕ
  calls : List ClientCall

/-- Code of the client. -/
abbrev Client (Result : Type) := Session ClientState MQException Result

/-- Asks the environment a question. -/
def ask {Result : Type} (question : Answers → Result) (record : Result → List ClientCall) :
    Client Result := fun state ↦
  let answer := question (state.environment state.asked)
  (.ok answer, { state with asked := state.asked + 1, calls := state.calls ++ record answer })

/-- Runs code under the lock of the consumer table. -/
def lockConsumerTable {Result : Type} (body : Client Result) : Client Result := fun state ↦
  if state.consumerTableLocked then (.stuck, state)
  else
    match body { state with consumerTableLocked := true } with
    | (.stuck, after) => (.stuck, after)
    | (outcome, after) => (outcome, { after with consumerTableLocked := false })

/-! ### Addresses -/

/-- The address of a broker and whether it is one of a slave; there is no constructor, and `slave`
is nothing as long as it is not set. -/
structure FindBrokerResult where
  brokerAddr : ByteString
  slave : Option Bool
  deriving DecidableEq

/-- The address of a broker for administration: the first address that is not empty from the master
on, when the broker has an entry for the master. -/
def findBrokerAddressInAdmin (brokerName : ByteString) : Client FindBrokerResult :=
  Session.read fun state ↦
    match state.brokerAddrTable.find? brokerName with
    | none => ⟨[], none⟩
    | some addrs =>
      match (addrs.entries.dropWhile fun entry ↦ entry.1 ≠ masterId).find? fun entry ↦
        entry.2 ≠ [] with
      | none => ⟨[], none⟩
      | some entry => ⟨entry.2, some (entry.1 ≠ masterId)⟩

/-- The address of the master of a broker. -/
def findBrokerAddressInPublish (brokerName : ByteString) : Client ByteString :=
  Session.read fun state ↦
    ((state.brokerAddrTable.find? brokerName).bind fun addrs ↦ addrs.find? masterId).getD []

/-- The address of the first broker of a topic. -/
def findBrokerAddrByTopic (topic : ByteString) : Client ByteString :=
  Session.read fun state ↦
    match (state.topicRouteTable.find? topic).bind fun route ↦ route.brokerDatas.head? with
    | none => []
    | some data => selectBrokerAddr data

/-- The address of a broker in the route of a topic. -/
def findMasterBrokerAddrByTopicAndName (topic brokerName : ByteString) : Client ByteString :=
  Session.read fun state ↦
    match (state.topicRouteTable.find? topic).bind fun route ↦
      route.brokerDatas.find? fun data ↦ data.brokerName = brokerName with
    | none => []
    | some data => selectBrokerAddr data

/-! ### Refreshing a route -/

/-- Whether a producer has no queue to publish a topic to. -/
def isPublishTopicNeedUpdate (topicPublishInfoTable : OrderedMap ByteString (List MessageQueue))
    (topic : ByteString) : Bool :=
  match topicPublishInfoTable.find? topic with
  | some info => info.isEmpty
  | none => true

/-- Whether a consumer has subscribed to a topic and has no queues of it. -/
def isSubscribeTopicNeedUpdate (state : ClientState) (group topic : ByteString) : Bool :=
  decide (topic ∈ state.subscriptionInner group) &&
    decide (topic ∉ state.topicSubscribeInfoTable group)

/-- Whether some party misses the information on a topic. The result of the last party counts, and
the lock of the consumer table is taken whether or not the caller holds it. -/
def isNeedUpdateTopicRouteInfo (topic : ByteString) : Client Bool := do
  let fromProducers ← Session.read fun state ↦
    state.producerTable.values.foldl (fun _ info ↦ isPublishTopicNeedUpdate info topic) false
  lockConsumerTable (Session.read fun state ↦
    state.consumerTable.keys.foldl (fun _ group ↦ isSubscribeTopicNeedUpdate state group topic)
      fromProducers)

/-- Hands the queues of a route to every consumer that has subscribed to its topic. -/
def updateTopicSubscribeInfo (topic : ByteString) (route : TopicRouteData) : Client Unit :=
  Session.modify fun state ↦ { state with
    topicSubscribeInfoTable := fun group ↦
      if group ∈ state.consumerTable ∧ topic ∈ state.subscriptionInner group then
        (state.topicSubscribeInfoTable group).assign topic
          (topicRouteData2TopicSubscribeInfo topic route)
      else state.topicSubscribeInfoTable group }

/-- Stores the addresses of the brokers and hands the queues to every producer. -/
def updateTopicPublishInfo (topic : ByteString) (route : TopicRouteData) : Client Unit :=
  Session.modify fun state ↦ { state with
    brokerAddrTable := route.brokerDatas.foldl
      (fun table data ↦ table.assign data.brokerName data.brokerAddrs) state.brokerAddrTable
    producerTable := state.producerTable.keys.foldl
      (fun table group ↦ table.assign group
        (((table.find? group).getD OrderedMap.empty).assign topic
          (topicRouteData2TopicPublishInfo topic route))) state.producerTable }

/-- Hands the queues of a route to the consumers under the lock of their table, which is not taken
when the caller says that it holds it. -/
def handToConsumers (topic : ByteString) (route : TopicRouteData) (bLocked : Bool) : Client Unit :=
  if bLocked then updateTopicSubscribeInfo topic route
  else lockConsumerTable (updateTopicSubscribeInfo topic route)

/-- Stores a route and hands it to all parties. -/
def applyTopicRoute (topic : ByteString) (route : TopicRouteData) (bLocked : Bool) :
    Client Unit := do
  updateTopicPublishInfo topic route
  handToConsumers topic route bLocked
  Session.modify fun state ↦ { state with
    topicRouteTable := state.topicRouteTable.assign topic route }

/-- Asks the name server for the route of a topic. -/
def getTopicRouteInfoFromNameServer (topic : ByteString) (bLocked : Bool) :
    Client RouteReply := do
  let known ← Session.read fun state ↦ state.topicRouteTable.find? topic
  ask (fun answers ↦ answers.topicRoute topic) fun reply ↦ [.topicRoute topic bLocked known reply]

/-- Whether a route that arrived has to be handed to the parties. -/
def isRouteChanged (topic : ByteString) (route : TopicRouteData) : Client Bool := do
  let known ← Session.read fun state ↦ state.topicRouteTable.find? topic
  match known with
  | none => pure true
  | some old =>
    if topicRouteDataIsChange old route then pure true else isNeedUpdateTopicRouteInfo topic

/-- Compares a route that arrived with the one known, and applies it when it has to be. -/
def receiveTopicRoute (topic : ByteString) (route : TopicRouteData) (bLocked : Bool) :
    Client Unit := do
  let changed ← isRouteChanged topic route
  if changed then applyTopicRoute topic route bLocked else pure ()

/-- Refreshes the route of a topic; the result says whether the name server was asked without an
error. -/
def updateTopicRouteInfoFromNameServer (topic : ByteString) (bLocked : Bool) : Client Bool := do
  let locked ← ask Answers.lockNamesrv fun _ ↦ []
  if locked then do
    let reply ← getTopicRouteInfoFromNameServer topic bLocked
    match reply with
    | .error _ _ => pure false
    | .noReply => pure true
    | .route route => do
      receiveTopicRoute topic route bLocked
      pure true
  else pure false

/-- Looks for an address and, when there is none, refreshes the route of the topic and looks again.
-/
def findOrRefresh (find : Client ByteString) (topic : ByteString) (bLocked : Bool) :
    Client ByteString := do
  let addr ← find
  if addr = [] then do
    let _ ← updateTopicRouteInfoFromNameServer topic bLocked
    find
  else pure addr

/-- The ids of the consumers of a group, from the first broker of the topic. -/
def findConsumerIdList (topic group : ByteString) : Client (List ByteString) := do
  let brokerAddr ← findOrRefresh (findBrokerAddrByTopic topic) topic true
  if brokerAddr = [] then pure []
  else do
    let ids ← ask (fun answers ↦ answers.consumerIdList brokerAddr group) fun _ ↦ []
    pure (ids.getD [])

/-! ### Refreshing under the lock -/

/-- This thread holds the lock of the consumer table. -/
def HoldsLock (state : ClientState) : Prop := state.consumerTableLocked = true

/-- A refresh under the lock that does not take it again: the name server gives no route, or the
caller passes the flag and the route is new or differs from the one known. -/
def Harmless : ClientCall → Prop
  | .topicRoute _ bLocked known (.route route) =>
    bLocked = true ∧ ∀ old ∈ known, topicRouteDataIsChange old route = true
  | _ => True

instance : DecidablePred Harmless
  | .topicRoute _ _ _ (.route _) => inferInstanceAs (Decidable (_ ∧ _))
  | .topicRoute _ _ _ (.error _ _) => .isTrue trivial
  | .topicRoute _ _ _ .noReply => .isTrue trivial
  | .consumerOffset _ _ => .isTrue trivial
  | .localOffset _ _ => .isTrue trivial
  | .maxOffset _ _ => .isTrue trivial
  | .searchOffset _ _ _ => .isTrue trivial
  | .updateConsumerOffset _ _ _ => .isTrue trivial

/-- Under the lock, sessions are stuck exactly when they make a call that is not harmless. -/
abbrev StuckExactly {Result : Type} (session : Client Result) : Prop :=
  Session.StuckExactly HoldsLock ClientState.calls Harmless session

/-- A question whose entries in the history are harmless. -/
theorem stuckExactly_ask {Result : Type} {question : Answers → Result}
    {record : Result → List ClientCall}
    (hrecord : ∀ answer, ∀ call ∈ record answer, Harmless call) :
    StuckExactly (ask question record) := by
  intro state hlocked
  refine ⟨hlocked, record (question (state.environment state.asked)), rfl, ?_⟩
  exact ⟨fun _ ↦ hrecord _, fun _ ↦ Outcome.ok_ne_stuck _⟩

section Locked

variable {state : ClientState} (hlocked : HoldsLock state)

include hlocked

theorem lockConsumerTable_of_locked {Result : Type} (body : Client Result) :
    lockConsumerTable body state = (.stuck, state) :=
  if_pos hlocked

/-- Under the lock, a route that arrived is found to be new, or the check gets stuck. -/
theorem isRouteChanged_of_locked (topic : ByteString) (route : TopicRouteData) :
    isRouteChanged topic route state =
      if ∀ old ∈ state.topicRouteTable.find? topic, topicRouteDataIsChange old route = true then
        (.ok true, state)
      else (.stuck, state) := by
  rw [isRouteChanged, Session.bind_read]
  cases hknown : state.topicRouteTable.find? topic with
  | none =>
    rw [if_pos (by simp)]
    rfl
  | some old =>
    by_cases hchange : topicRouteDataIsChange old route = true
    · rw [if_pos (by simpa using hchange)]
      simp only [if_pos hchange]
      rfl
    · rw [if_neg (by simpa using hchange)]
      simp only [if_neg hchange, isNeedUpdateTopicRouteInfo, Session.bind_read]
      exact lockConsumerTable_of_locked hlocked _

/-- Under the lock, a route that arrived is applied, or the thread gets stuck. -/
theorem receiveTopicRoute_of_locked (topic : ByteString) (route : TopicRouteData)
    (bLocked : Bool) :
    HoldsLock (receiveTopicRoute topic route bLocked state).2 ∧
      (receiveTopicRoute topic route bLocked state).2.calls = state.calls ∧
      ((receiveTopicRoute topic route bLocked state).1 ≠ .stuck ↔ bLocked = true ∧
        ∀ old ∈ state.topicRouteTable.find? topic, topicRouteDataIsChange old route = true) := by
  have hchanged := isRouteChanged_of_locked hlocked topic route
  split_ifs at hchanged with hnew
  · rw [receiveTopicRoute, Session.bind_ok hchanged, if_pos rfl, applyTopicRoute,
      updateTopicPublishInfo, Session.bind_modify]
    cases bLocked with
    | true => exact ⟨hlocked, rfl, fun _ ↦ ⟨rfl, hnew⟩, fun _ ↦ Outcome.ok_ne_stuck _⟩
    | false =>
      have hhand : ∀ other, HoldsLock other →
          handToConsumers topic route false other = (.stuck, other) := by
        intro other hother
        simp only [handToConsumers, Bool.false_eq_true, if_false]
        exact lockConsumerTable_of_locked hother _
      rw [Session.bind_stuck (hhand _ ?_)]
      · exact ⟨hlocked, rfl, fun hnot ↦ absurd rfl hnot, nofun⟩
      · exact hlocked
  · rw [receiveTopicRoute, Session.bind_stuck hchanged]
    exact ⟨hlocked, rfl, fun hnot ↦ absurd rfl hnot, fun hboth ↦ absurd hboth.2 hnew⟩

end Locked

/-- Under the lock, a refresh gets stuck exactly when it is not harmless. -/
theorem stuckExactly_updateTopicRouteInfoFromNameServer (topic : ByteString) (bLocked : Bool) :
    StuckExactly (updateTopicRouteInfoFromNameServer topic bLocked) := by
  refine Session.StuckExactly.bind (stuckExactly_ask fun _ _ hcall ↦ absurd hcall List.not_mem_nil)
    fun locked ↦ Session.StuckExactly.ite (fun _ ↦ ?_) fun _ ↦ Session.StuckExactly.pure false
  intro state hlocked
  have hreply : getTopicRouteInfoFromNameServer topic bLocked state =
      (.ok ((state.environment state.asked).topicRoute topic), { state with
        asked := state.asked + 1
        calls := state.calls ++ [.topicRoute topic bLocked (state.topicRouteTable.find? topic)
          ((state.environment state.asked).topicRoute topic)] }) := rfl
  rw [Session.bind_ok hreply]
  cases (state.environment state.asked).topicRoute topic with
  | error remark code =>
    refine ⟨hlocked, _, rfl, fun _ call hcall ↦ ?_, fun _ ↦ Outcome.ok_ne_stuck _⟩
    rw [List.mem_singleton.mp hcall]
    trivial
  | noReply =>
    refine ⟨hlocked, _, rfl, fun _ call hcall ↦ ?_, fun _ ↦ Outcome.ok_ne_stuck _⟩
    rw [List.mem_singleton.mp hcall]
    trivial
  | route route =>
    obtain ⟨hheld, hcalls, hstuck⟩ := @receiveTopicRoute_of_locked { state with
      asked := state.asked + 1
      calls := state.calls ++ [.topicRoute topic bLocked (state.topicRouteTable.find? topic)
        (.route route)] } hlocked topic route bLocked
    obtain ⟨hafter, houtcome⟩ := Session.bind_pure_ne_stuck
      (receiveTopicRoute topic route bLocked) (fun _ ↦ true) { state with
        asked := state.asked + 1
        calls := state.calls ++ [.topicRoute topic bLocked (state.topicRouteTable.find? topic)
          (.route route)] }
    refine ⟨?_, _, (congrArg ClientState.calls hafter).trans hcalls, ?_⟩
    · rw [← hafter] at hheld
      exact hheld
    · refine houtcome.trans (hstuck.trans ⟨fun hharmless call hcall ↦ ?_, fun hall ↦ ?_⟩)
      · rw [List.mem_singleton.mp hcall]
        exact hharmless
      · exact hall _ (List.mem_singleton_self _)

/-- A search for an address under the lock gets stuck exactly when its refresh does. -/
theorem stuckExactly_findOrRefresh {find : Client ByteString} (hfind : StuckExactly find)
    (topic : ByteString) (bLocked : Bool) : StuckExactly (findOrRefresh find topic bLocked) := by
  refine hfind.bind fun addr ↦ Session.StuckExactly.ite (fun _ ↦ ?_) fun _ ↦
    Session.StuckExactly.pure addr
  exact (stuckExactly_updateTopicRouteInfoFromNameServer topic bLocked).bind fun _ ↦ hfind

theorem stuckExactly_findConsumerIdList (topic group : ByteString) :
    StuckExactly (findConsumerIdList topic group) := by
  refine (stuckExactly_findOrRefresh (Session.StuckExactly.read _) topic true).bind fun addr ↦
    Session.StuckExactly.ite (fun _ ↦ Session.StuckExactly.pure []) fun _ ↦ ?_
  exact (stuckExactly_ask fun _ _ hcall ↦ absurd hcall List.not_mem_nil).bind fun _ ↦
    Session.StuckExactly.pure _

/-- The calls that a session adds to the history. -/
def callsOf {Result : Type} (session : Client Result) (state : ClientState) : List ClientCall :=
  (session state).2.calls.drop state.calls.length

/-- Code that runs under the lock from a state without it takes the lock a second time exactly when
it makes a call that is not harmless. -/
theorem lockConsumerTable_ne_stuck_iff {Result : Type} {body : Client Result}
    (hbody : StuckExactly body) {state : ClientState} (hfree : state.consumerTableLocked = false) :
    (lockConsumerTable body state).1 ≠ .stuck ↔
      ∀ call ∈ callsOf (lockConsumerTable body) state, Harmless call := by
  obtain ⟨-, added, hadded, hstuck⟩ := hbody { state with consumerTableLocked := true } rfl
  have hcalls : (body { state with consumerTableLocked := true }).2.calls.drop
      state.calls.length = added := by
    rw [hadded]
    exact List.drop_left
  have hnot : ¬ state.consumerTableLocked = true := by
    rw [hfree]
    exact Bool.false_ne_true
  rw [callsOf, lockConsumerTable, if_neg hnot]
  rcases hrun : body { state with consumerTableLocked := true } with ⟨result | error | -, after⟩
  · rw [hrun] at hcalls hstuck
    change _ ↔ ∀ call ∈ after.calls.drop state.calls.length, Harmless call
    rw [hcalls]
    exact ⟨fun _ ↦ hstuck.mp (Outcome.ok_ne_stuck _), fun _ ↦ Outcome.ok_ne_stuck _⟩
  · rw [hrun] at hcalls hstuck
    change _ ↔ ∀ call ∈ after.calls.drop state.calls.length, Harmless call
    rw [hcalls]
    exact ⟨fun _ ↦ hstuck.mp (Outcome.thrown_ne_stuck _), fun _ ↦ Outcome.thrown_ne_stuck _⟩
  · rw [hrun] at hcalls hstuck
    change _ ↔ ∀ call ∈ after.calls.drop state.calls.length, Harmless call
    rw [hcalls]
    exact hstuck

end RocketMQClient.Factory
