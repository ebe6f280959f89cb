import RocketMQClient.Factory.ClientFactory

/-!
# The offset stores and the start offset

A queue that a client gets anew is consumed from the offset that `computePullFromWhere` computes. It
asks the offset store of the group first: the remote store asks the broker, and keeps the reply in
its table; the local store reads a file. When the store has no offset the setting of the consumer
decides: the queue starts at zero, at the largest offset of the broker, or at the offset of a point
in time.

A request that got no reply comes back from `invokeSync` as nothing, and `queryConsumerOffset`,
`getMaxOffset` and `searchOffset` return zero then. `start_offset_has_source_iff` says exactly when
the offsets of `readOffset` and `computePullFromWhere` have a source: when every query is answered,
and the store of a group that starts at zero does not answer with the offset minus one.
`lost_reply_read_as_offset` is a run with a lost reply.

A request is a session that sends at most one query, and every way in which it can end is a
constructor of `ValueRun`: it gets stuck or fails before the query, or the reply decides. The
computation of a start offset makes a second query when the store has no offset, and its ends are
those of `StartRun`, for which the condition on the queries is settled once
(`StartRun.hasSource_iff`).
-/

set_option autoImplicit false
set_option relaxedAutoImplicit false

namespace RocketMQClient.Consumer

open Library Messages Factory

/-! ### Requests for offsets -/

/-- How a request for an offset ends with a reply. -/
def offsetOfReply (exceptionClass : ExceptionClass) : OffsetReply → Outcome MQException ℤ
  | .success offset => .ok offset
  | .error remark code => .thrown ⟨exceptionClass, remark, code⟩
  | .noReply => .ok 0

/-- Sends a request for an offset. -/
def invokeForOffset (exceptionClass : ExceptionClass) (question : Answers → OffsetReply)
    (record : OffsetReply → ClientCall) : Client ℤ := do
  let reply ← ask question fun reply ↦ [record reply]
  fun state ↦ (offsetOfReply exceptionClass reply, state)

namespace MQClientAPIImpl

/-- Asks a broker for the offset of a group. -/
def queryConsumerOffset (addr group : ByteString) (queue : MessageQueue) : Client ℤ :=
  invokeForOffset .broker (fun answers ↦ answers.consumerOffset addr group queue)
    (.consumerOffset queue)

/-- Asks a broker for the largest offset of a queue. -/
def getMaxOffset (addr : ByteString) (queue : MessageQueue) : Client ℤ :=
  invokeForOffset .client (fun answers ↦ answers.maxOffset addr queue) (.maxOffset queue)

/-- Asks a broker for the offset of a queue at a point in time. -/
def searchOffset (addr : ByteString) (queue : MessageQueue) (timestamp : ℤ) : Client ℤ :=
  invokeForOffset .client (fun answers ↦ answers.searchOffset addr queue timestamp)
    (.searchOffset queue timestamp)

/-- Tells a broker the offset of a group, without a reply. -/
def updateConsumerOffsetOneway (addr : ByteString) (queue : MessageQueue) (offset : ℤ) :
    Client Unit :=
  Session.modify fun state ↦ { state with
    calls := state.calls ++ [.updateConsumerOffset addr queue offset] }

end MQClientAPIImpl

/-- The exception for a broker without an address. -/
def brokerNotExist (brokerName : ByteString) : MQException :=
  ⟨.client, ofString "The broker[" ++ brokerName ++ ofString "] not exist", -1⟩

/-- Runs code with the address of the broker of a queue, and refreshes the route of its topic when
there is none. -/
def atBroker {Result : Type} (find : Client ByteString) (queue : MessageQueue)
    (body : ByteString → Client Result) : Client Result := do
  let addr ← findOrRefresh find queue.topic false
  if addr = [] then Session.throw (brokerNotExist queue.brokerName) else body addr

/-- Handles the exceptions of the client only. -/
def catchClient {Result : Type} (body : Client Result)
    (handler : MQException → Client Result) : Client Result :=
  Session.tryCatch body fun error ↦
    match error.exceptionClass with
    | .client => handler error
    | .broker => Session.throw error

namespace MQAdminImpl

/-- Asks the master of a queue, and reports an exception of the request as one of the broker's
address. -/
def invokeMaster (queue : MessageQueue) (request : ByteString → Client ℤ) : Client ℤ :=
  atBroker (findBrokerAddressInPublish queue.brokerName) queue fun brokerAddr ↦
    catchClient (request brokerAddr) fun _ ↦ Session.throw
      ⟨.client, ofString "Invoke Broker[" ++ brokerAddr ++ ofString "] exception", -1⟩

/-- The largest offset of a queue. -/
def maxOffset (queue : MessageQueue) : Client ℤ :=
  invokeMaster queue fun brokerAddr ↦ MQClientAPIImpl.getMaxOffset brokerAddr queue

/-- The offset of a queue at a point in time. -/
def searchOffset (queue : MessageQueue) (timestamp : ℤ) : Client ℤ :=
  invokeMaster queue fun brokerAddr ↦ MQClientAPIImpl.searchOffset brokerAddr queue timestamp

end MQAdminImpl

/-! ### The offset stores -/

/-- Where an offset is read from. -/
inductive ReadOffsetType where
  | readFromMemory
  | readFromStore
  | memoryFirstThenStore
  deriving DecidableEq, Repr

/-- Changes the offset table of a group. -/
def changeOffsetTable (group : ByteString) (change : OffsetTable → OffsetTable) : Client Unit :=
  Session.modify fun state ↦ { state with
    offsetTable := fun other ↦
      if other = group then change (state.offsetTable other) else state.offsetTable other }

/-- Reads the offset of a queue from the table, or from the store. -/
def readOffsetBy (group : ByteString) (queue : MessageQueue) (type : ReadOffsetType)
    (store : Client ℤ) : Client ℤ := do
  let memory ← Session.read fun state ↦ (state.offsetTable group).readOffset queue
  match type, memory with
  | .readFromStore, _ => store
  | _, some offset => pure offset
  | .memoryFirstThenStore, none => store
  | .readFromMemory, none => pure (-1)

namespace RemoteBrokerOffsetStore

/-- The address that the store sends its requests to. -/
def brokerAddr (queue : MessageQueue) : Client ByteString := do
  let findBrokerResult ← findBrokerAddressInAdmin queue.brokerName
  pure findBrokerResult.brokerAddr

/-- The offset of the group on the broker of a queue. -/
def fetchConsumeOffsetFromBroker (group : ByteString) (queue : MessageQueue) : Client ℤ :=
  atBroker (brokerAddr queue) queue fun addr ↦
    MQClientAPIImpl.queryConsumerOffset addr group queue

/-- Tells the broker of a queue its offset. -/
def updateConsumeOffsetToBroker (queue : MessageQueue) (offset : ℤ) : Client Unit :=
  atBroker (brokerAddr queue) queue fun addr ↦
    MQClientAPIImpl.updateConsumerOffsetOneway addr queue offset

/-- Fetches the offset of a queue and keeps it. -/
def fetchAndKeep (group : ByteString) (queue : MessageQueue) : Client ℤ := do
  let offset ← fetchConsumeOffsetFromBroker group queue
  changeOffsetTable group fun table ↦ table.updateOffset queue offset false
  pure offset

/-- The offset of a queue from its broker, with a negative value for an exception. -/
def readFromBroker (group : ByteString) (queue : MessageQueue) : Client ℤ :=
  Session.tryCatch (fetchAndKeep group queue) fun error ↦
    match error.exceptionClass with
    | .broker => pure (-1)
    | .client => pure (-2)

/-- Reads the offset of a queue. -/
def readOffset (group : ByteString) (queue : MessageQueue) (type : ReadOffsetType) : Client ℤ :=
  readOffsetBy group queue type (readFromBroker group queue)

/-- Tells the broker the offset of a queue, when the table has one. -/
def persist (group : ByteString) (queue : MessageQueue) : Client Unit := do
  let stored ← Session.read fun state ↦ (state.offsetTable group).readOffset queue
  match stored with
  | none => pure ()
  | some offset => Session.tryCatch (updateConsumeOffsetToBroker queue offset) fun _ ↦ pure ()

/-- Tells the brokers the offsets of the given queues and forgets the other queues. -/
def persistAll (group : ByteString) (mqs : List MessageQueue) : Client Unit :=
  if mqs = [] then pure ()
  else do
    let table ← Session.read fun state ↦ state.offsetTable group
    Session.forEach table.entries (fun _ entry ↦
      if entry.1 ∈ mqs then
        Session.tryCatch (updateConsumeOffsetToBroker entry.1 entry.2) fun _ ↦ pure ()
      else pure ()) ()
    changeOffsetTable group fun current ↦ current.eraseAll (table.keys.filter (· ∉ mqs))

end RemoteBrokerOffsetStore

namespace LocalFileOffsetStore

/-- Reads the offset of a queue from the file and keeps it. -/
def readFromFile (group : ByteString) (queue : MessageQueue) : Client ℤ := do
  let found ← ask (fun answers ↦ answers.localOffset queue) fun found ↦ [.localOffset queue found]
  match found with
  | none => pure (-1)
  | some offset => do
    changeOffsetTable group fun table ↦ table.updateOffset queue offset false
    pure offset

/-- Reads the offset of a queue. -/
def readOffset (group : ByteString) (queue : MessageQueue) (type : ReadOffsetType) : Client ℤ :=
  readOffsetBy group queue type (readFromFile group queue)

end LocalFileOffsetStore

/-- Reads the offset of a queue from the store of a consumer. -/
def readOffset (consumer : ConsumerInner) (group : ByteString) (queue : MessageQueue)
    (type : ReadOffsetType) : Client ℤ :=
  if consumer.remoteOffsetStore then RemoteBrokerOffsetStore.readOffset group queue type
  else LocalFileOffsetStore.readOffset group queue type

/-! ### The start offset -/

/-- The topic holds the messages of a group that are consumed again. -/
def isRetryTopic (topic : ByteString) : Bool := (ofString "%RETRY%").isPrefixOf topic

namespace RebalancePushImpl

/-- The start offset, with the offset of the store and the rule for a first start. -/
def startFrom (lastOffset : ℤ) (firstStart : Client ℤ) : Client ℤ :=
  if lastOffset ≥ 0 then pure lastOffset
  else if lastOffset = -1 then firstStart
  else pure (-1)

/-- Where a queue starts. -/
def computePullFromWhere (consumer : ConsumerInner) (group : ByteString) (queue : MessageQueue) :
    Client ℤ :=
  match consumer.consumeFromWhere with
  | .consumeFromLastOffset => do
    let lastOffset ← readOffset consumer group queue .readFromStore
    startFrom lastOffset
      (if isRetryTopic queue.topic then pure 0
      else catchClient (MQAdminImpl.maxOffset queue) fun _ ↦ pure (-1))
  | .consumeFromFirstOffset => do
    let lastOffset ← readOffset consumer group queue .readFromStore
    startFrom lastOffset (pure 0)
  | .consumeFromTimestamp => do
    let lastOffset ← readOffset consumer group queue .readFromStore
    startFrom lastOffset
      (if isRetryTopic queue.topic then
        catchClient (MQAdminImpl.maxOffset queue) fun _ ↦ pure (-1)
      else catchClient (MQAdminImpl.searchOffset queue consumer.consumeTimestamp) fun _ ↦ pure (-1))

end RebalancePushImpl

/-! ### The source of an offset -/

/-- A query for an offset. -/
def isQuery : ClientCall → Bool
  | .consumerOffset _ _ | .localOffset _ _ | .maxOffset _ _ | .searchOffset _ _ _ => true
  | _ => false

/-- The offset that a query was answered with. -/
def answerOf : ClientCall → Option ℤ
  | .consumerOffset _ (.success offset) | .maxOffset _ (.success offset)
  | .searchOffset _ _ (.success offset) => some offset
  | .localOffset _ found => found
  | _ => none

/-- A query that got no reply. -/
def isUnanswered : ClientCall → Bool
  | .consumerOffset _ .noReply | .maxOffset _ .noReply | .searchOffset _ _ .noReply => true
  | _ => false

/-- A query whose reply says that the store has no offset. -/
def isRefused : ClientCall → Bool
  | .consumerOffset _ (.error _ _) | .localOffset _ none => true
  | _ => false

/-- A query of the store that was answered with the offset minus one. -/
def storedMinusOne : ClientCall → Bool
  | .consumerOffset _ (.success offset) => decide (offset = -1)
  | .localOffset _ (some offset) => decide (offset = -1)
  | _ => false

/-- The queries in the history. -/
def queries (state : ClientState) : List ClientCall := state.calls.filter isQuery

/-- The queries that a session sends. -/
def queriesOf {Result : Type} (session : Client Result) (state : ClientState) : List ClientCall :=
  (queries (session state).2).drop (queries state).length

/-- The settings that let a group without an offset start at zero. -/
def FirstStart (consumer : ConsumerInner) (queue : MessageQueue) : Prop :=
  isRetryTopic queue.topic = true ∨ consumer.consumeFromWhere = .consumeFromFirstOffset

/-- An offset that is not negative is the answer to a query, or it is the zero of a first start and
the store refused; and when a query got no reply the offset is negative and the table of the group
is as it was. -/
def HasSource (consumer : ConsumerInner) (group : ByteString) (queue : MessageQueue)
    (session : Client ℤ) (state : ClientState) : Prop :=
  ∀ offset, (session state).1 = .ok offset →
    (0 ≤ offset → (∃ call ∈ queriesOf session state, answerOf call = some offset) ∨
      (offset = 0 ∧ FirstStart consumer queue ∧
        ∃ call ∈ queriesOf session state, isRefused call = true)) ∧
    ((∃ call ∈ queriesOf session state, isUnanswered call = true) → offset < 0 ∧
      (session state).2.offsetTable group = state.offsetTable group)

/-- The setting with which a queue starts at zero when the store says minus one. -/
def StartsAtZero (consumer : ConsumerInner) (queue : MessageQueue) : Prop :=
  consumer.consumeFromWhere = .consumeFromFirstOffset ∨
    consumer.consumeFromWhere = .consumeFromLastOffset ∧ isRetryTopic queue.topic = true

/-! ### A refresh sends no query -/

/-- The histories of the two states hold the same queries. -/
def SameQueries (before after : ClientState) : Prop := queries after = queries before

/-- Code of the client that throws nothing and sends no query. -/
abbrev Quiet {Result : Type} (session : Client Result) : Prop := Session.Quiet SameQueries session

theorem sameQueries_refl (state : ClientState) : SameQueries state state := rfl

theorem sameQueries_trans (first second third : ClientState) (hfirst : SameQueries first second)
    (hsecond : SameQueries second third) : SameQueries first third :=
  hsecond.trans hfirst

theorem Quiet.bind {Result Next : Type} {first : Client Result} {rest : Result → Client Next}
    (hfirst : Quiet first) (hrest : ∀ result, Quiet (rest result)) : Quiet (first >>= rest) :=
  Session.Quiet.bind sameQueries_trans hfirst hrest

theorem quiet_pure {Result : Type} (result : Result) : Quiet (pure result) :=
  Session.Quiet.pure sameQueries_refl result

theorem quiet_read {Result : Type} (view : ClientState → Result) : Quiet (Session.read view) :=
  Session.Quiet.read sameQueries_refl view

theorem quiet_ask {Result : Type} {question : Answers → Result}
    {record : Result → List ClientCall}
    (hrecord : ∀ answer, (record answer).filter isQuery = []) : Quiet (ask question record) := by
  intro state
  refine ⟨?_, Outcome.ok_ne_thrown _⟩
  rw [SameQueries, queries, ask, List.filter_append, hrecord, List.append_nil, queries]

theorem quiet_lockConsumerTable {Result : Type} {body : Client Result} (hbody : Quiet body) :
    Quiet (lockConsumerTable body) := by
  intro state
  obtain ⟨hsame, hthrown⟩ := hbody { state with consumerTableLocked := true }
  rw [lockConsumerTable]
  split_ifs
  · exact ⟨rfl, Outcome.stuck_ne_thrown⟩
  · rcases hrun : body { state with consumerTableLocked := true } with ⟨result | error | -, after⟩
    · rw [hrun] at hsame
      exact ⟨hsame, Outcome.ok_ne_thrown result⟩
    · rw [hrun] at hthrown
      exact absurd rfl (hthrown error)
    · rw [hrun] at hsame
      exact ⟨hsame, Outcome.stuck_ne_thrown⟩

theorem quiet_isRouteChanged (topic : ByteString) (route : TopicRouteData) :
    Quiet (isRouteChanged topic route) := by
  refine (quiet_read _).bind fun known ↦ ?_
  cases known with
  | none => exact quiet_pure true
  | some old =>
    refine Session.Quiet.ite (fun _ ↦ quiet_pure true) fun _ ↦ ?_
    exact (quiet_read _).bind fun _ ↦ quiet_lockConsumerTable (quiet_read _)

theorem quiet_applyTopicRoute (topic : ByteString) (route : TopicRouteData) (bLocked : Bool) :
    Quiet (applyTopicRoute topic route bLocked) := by
  have hhand : Quiet (updateTopicSubscribeInfo topic route) :=
    Session.Quiet.modify fun _ ↦ rfl
  refine Quiet.bind (Session.Quiet.modify fun _ ↦ rfl) fun _ ↦ ?_
  refine Quiet.bind (Session.Quiet.ite (fun _ ↦ hhand) fun _ ↦ quiet_lockConsumerTable hhand) ?_
  exact fun _ ↦ Session.Quiet.modify fun _ ↦ rfl

/-- A refresh of a route throws nothing and sends no query. -/
theorem quiet_updateTopicRouteInfoFromNameServer (topic : ByteString) (bLocked : Bool) :
    Quiet (updateTopicRouteInfoFromNameServer topic bLocked) := by
  refine (quiet_ask fun _ ↦ rfl).bind fun locked ↦
    Session.Quiet.ite (fun _ ↦ ?_) fun _ ↦ quiet_pure false
  refine Quiet.bind ((quiet_read _).bind fun known ↦ quiet_ask fun _ ↦ rfl) fun reply ↦ ?_
  cases reply with
  | error remark code => exact quiet_pure false
  | noReply => exact quiet_pure true
  | route route =>
    refine Quiet.bind ((quiet_isRouteChanged topic route).bind fun changed ↦ ?_) fun _ ↦
      quiet_pure true
    exact Session.Quiet.ite (fun _ ↦ quiet_applyTopicRoute topic route bLocked) fun _ ↦
      quiet_pure ()

theorem quiet_findOrRefresh {find : Client ByteString} (hfind : Quiet find) (topic : ByteString)
    (bLocked : Bool) : Quiet (findOrRefresh find topic bLocked) := by
  refine hfind.bind fun addr ↦ Session.Quiet.ite (fun _ ↦ ?_) fun _ ↦ quiet_pure addr
  exact (quiet_updateTopicRouteInfoFromNameServer topic bLocked).bind fun _ ↦ hfind

/-! ### One query -/

/-- Code at the broker of a queue: no address is found, or the code runs after sending no query. -/
theorem atBroker_cases {Result : Type} {find : Client ByteString} (hfind : Quiet find)
    (queue : MessageQueue) (body : ByteString → Client Result) (state : ClientState) :
    (SameQueries state (atBroker find queue body state).2 ∧
      ((atBroker find queue body state).1 = .stuck ∨
        (atBroker find queue body state).1 = .thrown (brokerNotExist queue.brokerName))) ∨
    ∃ addr before, SameQueries state before ∧
      atBroker find queue body state = body addr before := by
  obtain ⟨hsame, hthrown⟩ := quiet_findOrRefresh hfind queue.topic false state
  rw [atBroker]
  rcases hrun : findOrRefresh find queue.topic false state with ⟨addr | error | -, after⟩
  · rw [hrun] at hsame
    rw [Session.bind_ok hrun]
    by_cases haddr : addr = []
    · rw [if_pos haddr]
      exact Or.inl ⟨hsame, Or.inr rfl⟩
    · rw [if_neg haddr]
      exact Or.inr ⟨addr, after, hsame, rfl⟩
  · rw [hrun] at hthrown
    exact absurd rfl (hthrown error)
  · rw [hrun] at hsame
    rw [Session.bind_stuck hrun]
    exact Or.inl ⟨hsame, Or.inl rfl⟩

/-- The outcome of a request that got a reply, with exceptions of one class. -/
def EndsWith (exceptionClass : ExceptionClass) (outcome : Outcome MQException ℤ) :
    OffsetReply → Prop
  | .success offset => outcome = .ok offset
  | .error _ _ => ∃ error : MQException, error.exceptionClass = exceptionClass ∧
      outcome = .thrown error
  | .noReply => outcome = .ok 0

/-- A run that sends at most one query: it gets stuck or fails before it, or the reply decides. -/
inductive QueryRun (exceptionClass : ExceptionClass) (record : OffsetReply → ClientCall)
    (state : ClientState) (run : Outcome MQException ℤ × ClientState) : Prop where
  | stuck (hsame : SameQueries state run.2) (houtcome : run.1 = .stuck)
  | failed (error : MQException) (hsame : SameQueries state run.2)
      (hclient : error.exceptionClass = .client) (houtcome : run.1 = .thrown error)
  | replied (reply : OffsetReply) (hsent : queries run.2 = queries state ++ [record reply])
      (houtcome : EndsWith exceptionClass run.1 reply)

/-- A request is one query, and ends with its reply. -/
theorem invokeForOffset_run (exceptionClass : ExceptionClass) (question : Answers → OffsetReply)
    (record : OffsetReply → ClientCall) (hrecord : ∀ reply, isQuery (record reply) = true)
    (state : ClientState) : ∃ reply,
      queries (invokeForOffset exceptionClass question record state).2 =
        queries state ++ [record reply] ∧
      EndsWith exceptionClass (invokeForOffset exceptionClass question record state).1 reply := by
  refine ⟨question (state.environment state.asked), ?_, ?_⟩
  · change (state.calls ++ [record _]).filter isQuery = _
    rw [List.filter_append, List.filter_singleton, hrecord, cond_true, queries]
  · change EndsWith exceptionClass (offsetOfReply exceptionClass _) _
    cases question (state.environment state.asked) with
    | success offset => exact rfl
    | error remark code => exact ⟨_, rfl, rfl⟩
    | noReply => exact rfl

theorem fetchConsumeOffsetFromBroker_run (group : ByteString) (queue : MessageQueue)
    (state : ClientState) : QueryRun .broker (.consumerOffset queue) state
      (RemoteBrokerOffsetStore.fetchConsumeOffsetFromBroker group queue state) := by
  have hfind : Quiet (RemoteBrokerOffsetStore.brokerAddr queue) :=
    (quiet_read _).bind fun _ ↦ quiet_pure _
  rcases atBroker_cases hfind queue
    (fun addr ↦ MQClientAPIImpl.queryConsumerOffset addr group queue) state with
    ⟨hsame, hstuck | hthrown⟩ | ⟨addr, before, hsame, hrun⟩
  · exact .stuck hsame hstuck
  · exact .failed _ hsame rfl hthrown
  · rw [RemoteBrokerOffsetStore.fetchConsumeOffsetFromBroker, hrun]
    obtain ⟨reply, hsent, houtcome⟩ := invokeForOffset_run .broker
      (fun answers ↦ answers.consumerOffset addr group queue) (.consumerOffset queue)
      (fun _ ↦ rfl) before
    exact .replied reply (hsent.trans (by rw [hsame])) houtcome

/-- A request to the master of a queue is a query whose exceptions are those of the client. -/
theorem invokeMaster_run (queue : MessageQueue) (question : ByteString → Answers → OffsetReply)
    (record : OffsetReply → ClientCall) (hrecord : ∀ reply, isQuery (record reply) = true)
    (state : ClientState) : QueryRun .client record state
      (MQAdminImpl.invokeMaster queue
        (fun addr ↦ invokeForOffset .client (question addr) record) state) := by
  rcases atBroker_cases (quiet_read _) queue _ state with
    ⟨hsame, hstuck | hthrown⟩ | ⟨addr, before, hsame, hrun⟩
  · exact .stuck hsame hstuck
  · exact .failed _ hsame rfl hthrown
  · rw [MQAdminImpl.invokeMaster, findBrokerAddressInPublish, hrun, catchClient]
    obtain ⟨reply, hsent, houtcome⟩ :=
      invokeForOffset_run .client (question addr) record hrecord before
    rcases hinvoke : invokeForOffset .client (question addr) record before with
      ⟨offset | error | -, after⟩
    · rw [hinvoke] at hsent houtcome
      rw [Session.tryCatch_ok hinvoke]
      exact .replied reply (hsent.trans (by rw [hsame])) houtcome
    · rw [hinvoke] at hsent houtcome
      rw [Session.tryCatch_thrown hinvoke]
      cases reply with
      | success offset => exact absurd houtcome nofun
      | noReply => exact absurd houtcome nofun
      | error remark code =>
        obtain ⟨thrown, hclient, herror⟩ := houtcome
        rw [Outcome.thrown.injEq] at herror
        rw [herror, hclient]
        exact .replied (.error remark code) (hsent.trans (by rw [hsame])) ⟨_, rfl, rfl⟩
    · rw [hinvoke] at houtcome
      cases reply with
      | success offset => exact absurd houtcome nofun
      | noReply => exact absurd houtcome nofun
      | error remark code => exact absurd houtcome.choose_spec.2 nofun

/-! ### The offset that a query gives -/

/-- A query of the offset store. -/
def isStoreQuery : ClientCall → Bool
  | .consumerOffset _ _ | .localOffset _ _ => true
  | _ => false

/-- The offset that the client makes of the reply to a query: the answer, minus one for an error,
and zero for no reply. -/
def valueOf (call : ClientCall) : ℤ :=
  if isUnanswered call = true then 0 else (answerOf call).getD (-1)

/-- A run that sends at most one query and catches the exceptions: it gets stuck or fails before the
query, or the reply decides. -/
inductive ValueRun (failure : ℤ) (kind : ClientCall → Prop) (state : ClientState)
    (run : Outcome MQException ℤ × ClientState) : Prop where
  | stuck (hsame : SameQueries state run.2) (houtcome : run.1 = .stuck)
  | failed (hsame : SameQueries state run.2) (houtcome : run.1 = .ok failure)
  | asked (call : ClientCall) (hkind : kind call)
      (hsent : queries run.2 = queries state ++ [call]) (houtcome : run.1 = .ok (valueOf call))

/-- The offset that the client makes of a reply. -/
def replyValue : OffsetReply → ℤ
  | .success offset => offset
  | .error _ _ => -1
  | .noReply => 0

/-- A query whose exceptions are caught: one from before the query gives `failure`, and an error in
the reply minus one. -/
theorem ValueRun.of_tryCatch {exceptionClass : ExceptionClass} {record : OffsetReply → ClientCall}
    {state : ClientState} {body : Client ℤ} {handler : MQException → Client ℤ} {failure : ℤ}
    {kind : ClientCall → Prop} (hbody : QueryRun exceptionClass record state (body state))
    (hfailure : ∀ error : MQException, error.exceptionClass = .client →
      handler error = pure failure)
    (herror : ∀ error : MQException, error.exceptionClass = exceptionClass →
      handler error = pure (-1))
    (hkind : ∀ reply, kind (record reply))
    (hvalue : ∀ reply, valueOf (record reply) = replyValue reply) :
    ValueRun failure kind state (Session.tryCatch body handler state) := by
  cases hbody with
  | stuck hsame houtcome =>
    rw [Session.tryCatch_stuck (Prod.ext houtcome rfl)]
    exact .stuck hsame rfl
  | failed error hsame hclient houtcome =>
    rw [Session.tryCatch_thrown (Prod.ext houtcome rfl), hfailure error hclient]
    exact .failed hsame rfl
  | replied reply hsent houtcome =>
    cases reply with
    | success offset =>
      rw [Session.tryCatch_ok (Prod.ext houtcome rfl)]
      exact .asked _ (hkind _) hsent (by rw [hvalue, replyValue])
    | error remark code =>
      obtain ⟨error, hclass, hthrown⟩ := houtcome
      rw [Session.tryCatch_thrown (Prod.ext hthrown rfl), herror error hclass]
      exact .asked _ (hkind _) hsent (by rw [hvalue, replyValue]; rfl)
    | noReply =>
      rw [Session.tryCatch_ok (Prod.ext houtcome rfl)]
      exact .asked _ (hkind _) hsent (by rw [hvalue, replyValue])

/-- The offset of a queue from its broker. -/
theorem readFromBroker_run (group : ByteString) (queue : MessageQueue) (state : ClientState) :
    ValueRun (-2) (isStoreQuery · = true) state
      (RemoteBrokerOffsetStore.readFromBroker group queue state) := by
  have hkeep : QueryRun .broker (.consumerOffset queue) state
      (RemoteBrokerOffsetStore.fetchAndKeep group queue state) := by
    have hfetch := fetchConsumeOffsetFromBroker_run group queue state
    rw [RemoteBrokerOffsetStore.fetchAndKeep]
    rcases hrun : RemoteBrokerOffsetStore.fetchConsumeOffsetFromBroker group queue state with
      ⟨offset | error | -, after⟩
    · rw [hrun] at hfetch
      rw [Session.bind_ok hrun]
      cases hfetch with
      | stuck _ houtcome => exact absurd houtcome nofun
      | failed _ _ _ houtcome => exact absurd houtcome nofun
      | replied reply hsent houtcome => exact .replied reply hsent houtcome
    · rw [Session.bind_thrown hrun, ← hrun]
      exact hfetch
    · rw [Session.bind_stuck hrun, ← hrun]
      exact hfetch
  refine ValueRun.of_tryCatch hkeep ?_ ?_ (fun _ ↦ rfl) fun reply ↦ ?_
  · intro error hclient
    simp only [hclient]
  · intro error hbroker
    simp only [hbroker]
  · cases reply <;> rfl

/-- The offset of a queue from the local file. -/
theorem readFromFile_run (group : ByteString) (queue : MessageQueue) (state : ClientState) :
    ValueRun (-2) (isStoreQuery · = true) state
      (LocalFileOffsetStore.readFromFile group queue state) := by
  have hask : ask (fun answers ↦ answers.localOffset queue)
      (fun found ↦ [.localOffset queue found]) state =
      (.ok ((state.environment state.asked).localOffset queue), { state with
        asked := state.asked + 1
        calls := state.calls ++
          [.localOffset queue ((state.environment state.asked).localOffset queue)] }) := rfl
  have hsent : ∀ found, (state.calls ++ [ClientCall.localOffset queue found]).filter isQuery =
      queries state ++ [.localOffset queue found] := by
    intro found
    rw [List.filter_append, queries]
    rfl
  rw [LocalFileOffsetStore.readFromFile, Session.bind_ok hask]
  cases (state.environment state.asked).localOffset queue with
  | none => exact .asked (.localOffset queue none) rfl (hsent none) rfl
  | some offset => exact .asked (.localOffset queue (some offset)) rfl (hsent (some offset)) rfl

/-- The offset that a store has for a queue. -/
theorem readOffset_run (consumer : ConsumerInner) (group : ByteString) (queue : MessageQueue)
    (state : ClientState) : ValueRun (-2) (isStoreQuery · = true) state
      (readOffset consumer group queue .readFromStore state) := by
  rw [readOffset]
  split_ifs
  · exact readFromBroker_run group queue state
  · exact readFromFile_run group queue state

/-- A request to the master of a queue, with minus one for an exception. -/
theorem catchClient_invokeMaster_run (queue : MessageQueue)
    (question : ByteString → Answers → OffsetReply) (record : OffsetReply → ClientCall)
    (hrecord : ∀ reply, isQuery (record reply) = true)
    (hvalue : ∀ reply, valueOf (record reply) = replyValue reply) (state : ClientState) :
    ValueRun (-1) (fun _ ↦ True) state
      (catchClient (MQAdminImpl.invokeMaster queue
        fun addr ↦ invokeForOffset .client (question addr) record) (fun _ ↦ pure (-1)) state) := by
  refine ValueRun.of_tryCatch (invokeMaster_run queue question record hrecord state) ?_ ?_
    (fun _ ↦ trivial) hvalue
  · intro error hclient
    simp only [hclient]
  · intro error hclient
    simp only [hclient]

theorem maxOffset_run (queue : MessageQueue) (state : ClientState) :
    ValueRun (-1) (fun _ ↦ True) state
      (catchClient (MQAdminImpl.maxOffset queue) (fun _ ↦ pure (-1)) state) :=
  catchClient_invokeMaster_run queue (fun addr answers ↦ answers.maxOffset addr queue)
    (.maxOffset queue) (fun _ ↦ rfl) (fun reply ↦ by cases reply <;> rfl) state

theorem searchOffset_run (queue : MessageQueue) (timestamp : ℤ) (state : ClientState) :
    ValueRun (-1) (fun _ ↦ True) state
      (catchClient (MQAdminImpl.searchOffset queue timestamp) (fun _ ↦ pure (-1)) state) :=
  catchClient_invokeMaster_run queue (fun addr answers ↦ answers.searchOffset addr queue timestamp)
    (.searchOffset queue timestamp) (fun _ ↦ rfl) (fun reply ↦ by cases reply <;> rfl) state

/-! ### Calls and their answers -/

theorem isRefused_of_isStoreQuery {call : ClientCall} (hstore : isStoreQuery call = true)
    (hanswered : isUnanswered call = false) (hnone : answerOf call = none) :
    isRefused call = true := by
  unfold isStoreQuery at hstore
  split at hstore
  · rename_i queue reply
    cases reply with
    | success offset => exact absurd hnone nofun
    | error remark code => rfl
    | noReply => exact absurd hanswered nofun
  · rename_i queue found
    cases found with
    | none => rfl
    | some offset => exact absurd hnone nofun
  · exact absurd hstore Bool.false_ne_true

theorem answerOf_of_isRefused {call : ClientCall} (hcall : isRefused call = true) :
    answerOf call = none := by
  unfold isRefused at hcall
  split at hcall <;> first | rfl | exact absurd hcall Bool.false_ne_true

theorem answerOf_of_storedMinusOne {call : ClientCall} (hcall : storedMinusOne call = true) :
    answerOf call = some (-1) := by
  unfold storedMinusOne at hcall
  split at hcall
  · rw [of_decide_eq_true hcall]
    rfl
  · rw [of_decide_eq_true hcall]
    rfl
  · exact absurd hcall Bool.false_ne_true

theorem storedMinusOne_of_isStoreQuery {call : ClientCall} (hstore : isStoreQuery call = true)
    (hanswer : answerOf call = some (-1)) : storedMinusOne call = true := by
  unfold isStoreQuery at hstore
  split at hstore
  · rename_i queue reply
    cases reply with
    | success offset =>
      rw [answerOf, Option.some.injEq] at hanswer
      rw [hanswer]
      rfl
    | error remark code => exact absurd hanswer nofun
    | noReply => exact absurd hanswer nofun
  · rename_i queue found
    rw [answerOf] at hanswer
    rw [hanswer]
    rfl
  · exact absurd hstore Bool.false_ne_true

theorem valueOf_of_isUnanswered {call : ClientCall} (hcall : isUnanswered call = true) :
    valueOf call = 0 :=
  if_pos hcall

theorem valueOf_of_answered {call : ClientCall} (hcall : isUnanswered call = false) :
    valueOf call = (answerOf call).getD (-1) :=
  if_neg (by rw [hcall]; exact Bool.false_ne_true)

/-- A value that is not negative is the answer. -/
theorem answerOf_of_nonneg {call : ClientCall} (hcall : isUnanswered call = false)
    (hvalue : 0 ≤ valueOf call) : answerOf call = some (valueOf call) := by
  rw [valueOf_of_answered hcall] at hvalue ⊢
  cases hanswer : answerOf call with
  | none =>
    rw [hanswer] at hvalue
    exact absurd hvalue (by decide)
  | some offset => rfl

/-! ### When an offset has a source -/

/-- Every query is answered. -/
def Answered (sent : List ClientCall) : Prop := ∀ call ∈ sent, isUnanswered call = false

/-- Every query is answered, and in a setting that starts at zero none with the stored offset minus
one. -/
def AnsweredWell (consumer : ConsumerInner) (queue : MessageQueue) (sent : List ClientCall) :
    Prop :=
  Answered sent ∧
    (StartsAtZero consumer queue → ∀ call ∈ sent, storedMinusOne call = false)

/-- One query is answered well when its value is not minus one. -/
theorem answeredWell_singleton (consumer : ConsumerInner) (queue : MessageQueue)
    {call : ClientCall} (hanswered : isUnanswered call = false) (hvalue : valueOf call ≠ -1) :
    AnsweredWell consumer queue [call] := by
  refine ⟨List.forall_mem_singleton.mpr hanswered, fun _ ↦ List.forall_mem_singleton.mpr ?_⟩
  rw [← Bool.not_eq_true]
  intro hstored
  rw [valueOf_of_answered hanswered, answerOf_of_storedMinusOne hstored] at hvalue
  exact hvalue rfl

/-- The ways in which the computation of an offset ends, with the condition on the queries that
makes the good ones good. -/
inductive StartRun (well : List ClientCall → Prop) (consumer : ConsumerInner)
    (queue : MessageQueue) (state : ClientState) (run : Outcome MQException ℤ × ClientState) :
    Prop where
  | silent (sent : List ClientCall) (hsent : queries run.2 = queries state ++ sent)
      (hwell : well sent) (houtcome : ∀ offset, run.1 = .ok offset → offset < 0)
  | found (sent : List ClientCall) (offset : ℤ) (hsent : queries run.2 = queries state ++ sent)
      (hwell : well sent) (houtcome : run.1 = .ok offset)
      (hfound : ∃ call ∈ sent, answerOf call = some offset)
  | first (sent : List ClientCall) (hsent : queries run.2 = queries state ++ sent)
      (hwell : well sent) (houtcome : run.1 = .ok 0) (hfirst : FirstStart consumer queue)
      (hrefused : ∃ call ∈ sent, isRefused call = true)
  | missing (sent : List ClientCall) (hsent : queries run.2 = queries state ++ sent)
      (houtcome : run.1 = .ok 0) (hmissing : ∃ call ∈ sent, isUnanswered call = true)
  | minusOne (call : ClientCall) (hsent : queries run.2 = queries state ++ [call])
      (houtcome : run.1 = .ok 0) (hstored : storedMinusOne call = true) (hnot : ¬ well [call])

theorem queriesOf_eq {Result : Type} {session : Client Result} {state : ClientState}
    {sent : List ClientCall} (hsent : queries (session state).2 = queries state ++ sent) :
    queriesOf session state = sent := by
  rw [queriesOf, hsent, List.drop_left]

/-- A session that ends in one of these ways gives offsets with a source exactly when the condition
holds of its queries. -/
theorem StartRun.hasSource_iff {well : List ClientCall → Prop} {consumer : ConsumerInner}
    {group : ByteString} {queue : MessageQueue} {session : Client ℤ} {state : ClientState}
    (hrun : StartRun well consumer queue state (session state))
    (hanswered : ∀ sent, well sent → Answered sent) :
    HasSource consumer group queue session state ↔ well (queriesOf session state) := by
  have hnever : ∀ {sent}, well sent → ¬ ∃ call ∈ sent, isUnanswered call = true := by
    rintro sent hwell ⟨call, hcall, hmissing⟩
    rw [hanswered sent hwell call hcall] at hmissing
    exact Bool.false_ne_true hmissing
  unfold HasSource
  cases hrun with
  | silent sent hsent hwell houtcome =>
    rw [queriesOf_eq hsent]
    refine iff_of_true (fun offset hoffset ↦ ⟨fun hnonneg ↦ ?_, fun hmissing ↦ ?_⟩) hwell
    · exact absurd (houtcome offset hoffset) (not_lt.mpr hnonneg)
    · exact absurd hmissing (hnever hwell)
  | found sent offset hsent hwell houtcome hfound =>
    rw [queriesOf_eq hsent]
    refine iff_of_true (fun other hother ↦ ⟨fun _ ↦ Or.inl ?_, fun hmissing ↦ ?_⟩) hwell
    · rw [houtcome, Outcome.ok.injEq] at hother
      rw [← hother]
      exact hfound
    · exact absurd hmissing (hnever hwell)
  | first sent hsent hwell houtcome hfirst hrefused =>
    rw [queriesOf_eq hsent]
    refine iff_of_true (fun other hother ↦ ⟨fun _ ↦ Or.inr ?_, fun hmissing ↦ ?_⟩) hwell
    · rw [houtcome, Outcome.ok.injEq] at hother
      exact ⟨hother.symm, hfirst, hrefused⟩
    · exact absurd hmissing (hnever hwell)
  | missing sent hsent houtcome hmissing =>
    rw [queriesOf_eq hsent]
    refine iff_of_false (fun hsource ↦ ?_) fun hwell ↦ hnever hwell hmissing
    exact lt_irrefl _ ((hsource 0 houtcome).2 hmissing).1
  | minusOne call hsent houtcome hstored hnot =>
    rw [queriesOf_eq hsent]
    have hanswer := answerOf_of_storedMinusOne hstored
    refine iff_of_false (fun hsource ↦ ?_) hnot
    rcases (hsource 0 houtcome).1 le_rfl with
      ⟨other, hother, hfound⟩ | ⟨-, -, other, hother, hrefused⟩
    · rw [List.mem_singleton.mp hother, hanswer] at hfound
      exact absurd hfound (by decide)
    · rw [List.mem_singleton.mp hother] at hrefused
      rw [answerOf_of_isRefused hrefused] at hanswer
      exact absurd hanswer nofun

/-- A run with at most one query after others that meet the condition, with a negative value for an
exception. -/
theorem ValueRun.startRun {well : List ClientCall → Prop} {failure : ℤ}
    {kind : ClientCall → Prop} {consumer : ConsumerInner} {queue : MessageQueue}
    {state before : ClientState} {run : Outcome MQException ℤ × ClientState}
    (hrun : ValueRun failure kind before run) (hfailure : failure < 0) {sent : List ClientCall}
    (hbefore : queries before = queries state ++ sent) (hwell : well sent)
    (hmore : ∀ call, isUnanswered call = false → well (sent ++ [call])) :
    StartRun well consumer queue state run := by
  cases hrun with
  | stuck hsame houtcome =>
    refine .silent sent (Eq.trans hsame hbefore) hwell fun offset hoffset ↦ ?_
    rw [houtcome] at hoffset
    exact absurd hoffset nofun
  | failed hsame houtcome =>
    refine .silent sent (Eq.trans hsame hbefore) hwell fun offset hoffset ↦ ?_
    rw [houtcome, Outcome.ok.injEq] at hoffset
    omega
  | asked call _ hsent houtcome =>
    rw [hbefore, List.append_assoc] at hsent
    have hcall : call ∈ sent ++ [call] := List.mem_append_right _ (List.mem_singleton_self _)
    cases hmissing : isUnanswered call with
    | true =>
      rw [valueOf_of_isUnanswered hmissing] at houtcome
      exact .missing _ hsent houtcome ⟨call, hcall, hmissing⟩
    | false =>
      by_cases hnonneg : 0 ≤ valueOf call
      · exact .found _ _ hsent (hmore call hmissing) houtcome
          ⟨call, hcall, answerOf_of_nonneg hmissing hnonneg⟩
      · refine .silent _ hsent (hmore call hmissing) fun offset hoffset ↦ ?_
        rw [houtcome, Outcome.ok.injEq] at hoffset
        omega

/-- The read of a stored offset ends in one of these ways. -/
theorem readFromBroker_startRun (consumer : ConsumerInner) (group : ByteString)
    (queue : MessageQueue) (state : ClientState) : StartRun Answered consumer queue state
      (RemoteBrokerOffsetStore.readFromBroker group queue state) := by
  refine (readFromBroker_run group queue state).startRun (by omega) (List.append_nil _).symm ?_ ?_
  · exact fun _ hcall ↦ absurd hcall List.not_mem_nil
  · exact fun call hanswered ↦ List.forall_mem_singleton.mpr hanswered

/-- The rule for a first start: zero, the largest offset, or the offset of a point in time. -/
def firstStart (consumer : ConsumerInner) (queue : MessageQueue) : Client ℤ :=
  match consumer.consumeFromWhere with
  | .consumeFromLastOffset =>
    if isRetryTopic queue.topic then pure 0
    else catchClient (MQAdminImpl.maxOffset queue) fun _ ↦ pure (-1)
  | .consumeFromFirstOffset => pure 0
  | .consumeFromTimestamp =>
    if isRetryTopic queue.topic then
      catchClient (MQAdminImpl.maxOffset queue) fun _ ↦ pure (-1)
    else catchClient (MQAdminImpl.searchOffset queue consumer.consumeTimestamp) fun _ ↦ pure (-1)

theorem computePullFromWhere_eq (consumer : ConsumerInner) (group : ByteString)
    (queue : MessageQueue) :
    RebalancePushImpl.computePullFromWhere consumer group queue = (do
      let lastOffset ← readOffset consumer group queue .readFromStore
      RebalancePushImpl.startFrom lastOffset (firstStart consumer queue)) := by
  unfold RebalancePushImpl.computePullFromWhere firstStart
  cases consumer.consumeFromWhere <;> rfl

/-- A first start is at zero in the settings that say so, and asks the master in the others. -/
theorem firstStart_cases (consumer : ConsumerInner) (queue : MessageQueue) :
    (StartsAtZero consumer queue ∧ FirstStart consumer queue ∧
      firstStart consumer queue = pure 0) ∨
    (¬ StartsAtZero consumer queue ∧ ∀ state, ValueRun (-1) (fun _ ↦ True) state
      (firstStart consumer queue state)) := by
  unfold StartsAtZero FirstStart firstStart
  cases consumer.consumeFromWhere with
  | consumeFromLastOffset =>
    by_cases hretry : isRetryTopic queue.topic = true
    · exact Or.inl ⟨Or.inr ⟨rfl, hretry⟩, Or.inl hretry, if_pos hretry⟩
    · refine Or.inr ⟨fun hzero ↦ ?_, fun state ↦ ?_⟩
      · exact hzero.elim nofun fun hlast ↦ hretry hlast.2
      · simp only [if_neg hretry]
        exact maxOffset_run queue state
  | consumeFromFirstOffset => exact Or.inl ⟨Or.inl rfl, Or.inr rfl, rfl⟩
  | consumeFromTimestamp =>
    refine Or.inr ⟨fun hzero ↦ hzero.elim nofun fun hlast ↦ absurd hlast.1 nofun, fun state ↦ ?_⟩
    by_cases hretry : isRetryTopic queue.topic = true
    · simp only [if_pos hretry]
      exact maxOffset_run queue state
    · simp only [if_neg hretry]
      exact searchOffset_run queue consumer.consumeTimestamp state

/-- The value minus one of a store query leads to a first start. -/
theorem startRun_of_minusOne {consumer : ConsumerInner} {queue : MessageQueue}
    {state before : ClientState} {call : ClientCall}
    (hbefore : queries before = queries state ++ [call]) (hstore : isStoreQuery call = true)
    (hanswered : isUnanswered call = false) (hvalue : valueOf call = -1) :
    StartRun (AnsweredWell consumer queue) consumer queue state
      (firstStart consumer queue before) := by
  rcases firstStart_cases consumer queue with ⟨hzero, hfirst, hpure⟩ | ⟨hnonzero, hrun⟩
  · rw [hpure]
    rw [valueOf_of_answered hanswered] at hvalue
    cases hanswer : answerOf call with
    | none =>
      have hrefused := isRefused_of_isStoreQuery hstore hanswered hanswer
      refine .first [call] hbefore ⟨List.forall_mem_singleton.mpr hanswered, fun _ ↦ ?_⟩ rfl hfirst
        ⟨call, List.mem_singleton_self call, hrefused⟩
      refine List.forall_mem_singleton.mpr ((Bool.not_eq_true _).mp fun hstored ↦ ?_)
      rw [answerOf_of_storedMinusOne hstored] at hanswer
      exact absurd hanswer nofun
    | some offset =>
      rw [hanswer, Option.getD_some] at hvalue
      rw [hvalue] at hanswer
      have hstored := storedMinusOne_of_isStoreQuery hstore hanswer
      refine .minusOne call hbefore rfl hstored fun hwell ↦ ?_
      rw [hwell.2 hzero call (List.mem_singleton_self call)] at hstored
      exact Bool.false_ne_true hstored
  · refine (hrun before).startRun (by omega) hbefore
      ⟨List.forall_mem_singleton.mpr hanswered, fun hzero ↦ absurd hzero hnonzero⟩ ?_
    intro other hother
    refine ⟨List.forall_mem_append.mpr ⟨List.forall_mem_singleton.mpr hanswered, ?_⟩,
      fun hzero ↦ absurd hzero hnonzero⟩
    exact List.forall_mem_singleton.mpr hother

/-- The computation of a start offset ends in one of the known ways. -/
theorem computePullFromWhere_run (consumer : ConsumerInner) (group : ByteString)
    (queue : MessageQueue) (state : ClientState) :
    StartRun (AnsweredWell consumer queue) consumer queue state
      (RebalancePushImpl.computePullFromWhere consumer group queue state) := by
  have hnone : AnsweredWell consumer queue [] :=
    ⟨fun _ hcall ↦ absurd hcall List.not_mem_nil,
      fun _ _ hcall ↦ absurd hcall List.not_mem_nil⟩
  have hread := readOffset_run consumer group queue state
  rw [computePullFromWhere_eq]
  cases hread with
  | stuck hsame houtcome =>
    rw [Session.bind_stuck (Prod.ext houtcome rfl)]
    exact .silent [] (Eq.trans hsame (List.append_nil _).symm) hnone nofun
  | failed hsame houtcome =>
    rw [Session.bind_ok (Prod.ext houtcome rfl)]
    refine .silent [] (Eq.trans hsame (List.append_nil _).symm) hnone fun offset hoffset ↦ ?_
    have hvalue : (-1 : ℤ) = offset := Outcome.ok.inj hoffset
    omega
  | asked call hstore hsent houtcome =>
    rw [Session.bind_ok (Prod.ext houtcome rfl), RebalancePushImpl.startFrom]
    cases hmissing : isUnanswered call with
    | true =>
      rw [valueOf_of_isUnanswered hmissing, if_pos le_rfl]
      exact .missing [call] hsent rfl ⟨call, List.mem_singleton_self call, hmissing⟩
    | false =>
      by_cases hnonneg : valueOf call ≥ 0
      · rw [if_pos hnonneg]
        exact .found [call] _ hsent (answeredWell_singleton consumer queue hmissing (by omega)) rfl
          ⟨call, List.mem_singleton_self call, answerOf_of_nonneg hmissing hnonneg⟩
      · rw [if_neg hnonneg]
        by_cases hminus : valueOf call = -1
        · rw [if_pos hminus]
          exact startRun_of_minusOne hsent hstore hmissing hminus
        · rw [if_neg hminus]
          refine .silent [call] hsent (answeredWell_singleton consumer queue hmissing hminus)
            fun offset hoffset ↦ ?_
          have hvalue : (-1 : ℤ) = offset := Outcome.ok.inj hoffset
          omega

/-- The offsets that the remote store and the computation of a start offset give have a source
exactly when the queries are answered: the store query, and for the start offset also the query of
the largest offset or of a point in time; and a setting that starts at zero needs a store that does
not answer with the offset minus one. -/
theorem start_offset_has_source_iff (consumer : ConsumerInner) (group : ByteString)
    (queue : MessageQueue) (state : ClientState) :
    (HasSource consumer group queue
        (RemoteBrokerOffsetStore.readOffset group queue .readFromStore) state ↔
      Answered (queriesOf (RemoteBrokerOffsetStore.readOffset group queue .readFromStore) state)) ∧
    (HasSource consumer group queue
        (RebalancePushImpl.computePullFromWhere consumer group queue) state ↔
      AnsweredWell consumer queue
        (queriesOf (RebalancePushImpl.computePullFromWhere consumer group queue) state)) := by
  refine ⟨(readFromBroker_startRun consumer group queue state).hasSource_iff fun _ hsent ↦ hsent,
    (computePullFromWhere_run consumer group queue state).hasSource_iff fun _ hwell ↦ hwell.1⟩

/-! ### A lost reply -/

/-- A broker with one queue. -/
def lostQueue : MessageQueue := ⟨ofString "t", ofString "b", 0⟩

/-- A push consumer with the remote store that starts at the last offset. -/
def lostConsumer : ConsumerInner where
  pushConsumer := true
  messageModel := .clustering
  remoteOffsetStore := true
  consumeFromWhere := .consumeFromLastOffset
  consumeTimestamp := 0
  strategy := fun _ _ _ ↦ .ok none
  uninitialized := none
  now := 0

/-- No request is answered. -/
def silentAnswers : Answers where
  lockNamesrv := true
  topicRoute := fun _ ↦ .noReply
  consumerIdList := fun _ _ ↦ none
  consumerOffset := fun _ _ _ ↦ .noReply
  maxOffset := fun _ _ ↦ .noReply
  searchOffset := fun _ _ _ ↦ .noReply
  localOffset := fun _ ↦ none

/-- The address of the broker is known, and the group has consumed the queue up to seven. -/
def lostReplyState : ClientState where
  clientId := ofString "c"
  topicRouteTable := OrderedMap.empty
  brokerAddrTable := OrderedMap.empty.assign (ofString "b")
    (OrderedMap.empty.assign masterId (ofString "a"))
  producerTable := OrderedMap.empty
  consumerTable := OrderedMap.empty
  serviceRunning := fun _ ↦ true
  subscriptionInner := fun _ ↦ []
  topicSubscribeInfoTable := fun _ ↦ OrderedMap.empty
  rebalanceImpl := fun _ ↦ ⟨OrderedMap.empty, fun _ ↦ ProcessQueue.new 0, 0, OrderedMap.empty, []⟩
  offsetTable := fun _ ↦ OrderedMap.empty.assign lostQueue 7
  pullRequestQueue := []
  consumerTableLocked := false
  environment := fun _ ↦ silentAnswers
  asked := 0
  calls := []

/-- The broker does not answer: the stored offset and the start offset are zero, and the table of
the group forgets that it had consumed the queue up to seven. -/
theorem lost_reply_read_as_offset :
    (RemoteBrokerOffsetStore.readOffset (ofString "g") lostQueue .readFromStore
        lostReplyState).1 = .ok 0 ∧
      (RebalancePushImpl.computePullFromWhere lostConsumer (ofString "g") lostQueue
        lostReplyState).1 = .ok 0 ∧
      ((RebalancePushImpl.computePullFromWhere lostConsumer (ofString "g") lostQueue
        lostReplyState).2.offsetTable (ofString "g")).readOffset lostQueue = some 0 ∧
      (lostReplyState.offsetTable (ofString "g")).readOffset lostQueue = some 7 ∧
      ¬ HasSource lostConsumer (ofString "g") lostQueue
        (RemoteBrokerOffsetStore.readOffset (ofString "g") lostQueue .readFromStore)
        lostReplyState ∧
      ¬ HasSource lostConsumer (ofString "g") lostQueue
        (RebalancePushImpl.computePullFromWhere lostConsumer (ofString "g") lostQueue)
        lostReplyState := by
  refine ⟨by decide, by decide, by decide, by decide, fun hsource ↦ ?_, fun hsource ↦ ?_⟩
  · have hnegative := ((hsource 0 (by decide)).2 ⟨.consumerOffset lostQueue .noReply, by decide⟩).1
    exact absurd hnegative (by decide)
  · have hnegative := ((hsource 0 (by decide)).2 ⟨.consumerOffset lostQueue .noReply, by decide⟩).1
    exact absurd hnegative (by decide)

end RocketMQClient.Consumer
