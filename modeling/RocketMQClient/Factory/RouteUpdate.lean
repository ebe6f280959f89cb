import RocketMQClient.Factory.ClientFactory

/-!
# Who gets a new route

`updateTopicRouteInfoFromNameServer` hands a route to all producers and consumers, or to none. It
hands it on when the route is new or differs from the one it has; otherwise it asks
`isNeedUpdateTopicRouteInfo` whether some party still lacks information on the topic. That goes
through the producers and then the consumers, and each of them overwrites the result of those
before, so that only the party that comes last counts.

`route_update_reaches_iff` says when a refresh that got a route leaves every party with information
derived from it: when the route is new or differs, when the last party lacks information, or when
there was nothing to do. `route_update_misses_consumer` has a client with two consumers, of which
only the second one has its queues.

A refresh may get stuck, throw, or return without an answer of the name server; what is stated is
about those that return after they got a route. Being asked and being informed are kept apart: the
check asks every party, and its last answer decides for all of them
(`isNeedUpdateTopicRouteInfo_eq`).
-/

set_option autoImplicit false
set_option relaxedAutoImplicit false

namespace RocketMQClient.Factory

open Library Messages Consumer

/-! ### Informed parties -/

/-- Every producer that publishes the topic, and every consumer that has subscribed to it, holds the
information derived from a route. -/
structure Informed (topic : ByteString) (route : TopicRouteData) (state : ClientState) : Prop where
  producers : ∀ producer ∈ state.producerTable.entries, topic ∈ producer.2 →
    producer.2.find? topic = some (topicRouteData2TopicPublishInfo topic route)
  consumers : ∀ group ∈ state.consumerTable, topic ∈ state.subscriptionInner group →
    (state.topicSubscribeInfoTable group).find? topic =
      some (topicRouteData2TopicSubscribeInfo topic route)

/-- Some registered producer or consumer lacks information on the topic. -/
def SomeLacks (topic : ByteString) (state : ClientState) : Prop :=
  (∃ producer ∈ state.producerTable.entries, isPublishTopicNeedUpdate producer.2 topic = true) ∨
    ∃ group ∈ state.consumerTable, isSubscribeTopicNeedUpdate state group topic = true

/-- The last consumer, or the last producer of a client without consumers, lacks information on the
topic. -/
def lastLacks (topic : ByteString) (state : ClientState) : Bool :=
  match state.consumerTable.last?, state.producerTable.last? with
  | some consumer, _ => isSubscribeTopicNeedUpdate state consumer.1 topic
  | none, some producer => isPublishTopicNeedUpdate producer.2 topic
  | none, none => false

/-- The route is new, or differs from the one known. -/
def IsNew (topic : ByteString) (route : TopicRouteData) (state : ClientState) : Prop :=
  ∀ old ∈ state.topicRouteTable.find? topic, topicRouteDataIsChange old route = true

instance (topic : ByteString) (route : TopicRouteData) (state : ClientState) :
    Decidable (IsNew topic route state) :=
  inferInstanceAs (Decidable (∀ old ∈ _, _))

/-- A refresh that got a route leaves every party informed, and for a route that is known the check
for missing information finds out whether some party lacks it. -/
structure Reaches (topic : ByteString) (bLocked : Bool) (route : TopicRouteData)
    (state : ClientState) : Prop where
  informed : Informed topic route (updateTopicRouteInfoFromNameServer topic bLocked state).2
  noticed : ¬ IsNew topic route state →
    ((isNeedUpdateTopicRouteInfo topic state).1 = .ok true ↔ SomeLacks topic state)

/-! ### The check for missing information -/

theorem foldl_last {Item Value : Type} (value : Item → Value) (items : List Item)
    (start : Value) :
    items.foldl (fun _ item ↦ value item) start = (items.getLast?.map value).getD start := by
  induction items using List.reverseRecOn with
  | nil => rfl
  | append_singleton earlier last _ => simp

/-- The result of the check is that of the last party. -/
theorem isNeedUpdateTopicRouteInfo_eq (topic : ByteString) {state : ClientState}
    (hfree : state.consumerTableLocked = false) :
    isNeedUpdateTopicRouteInfo topic state = (.ok (lastLacks topic state), state) := by
  have hresult : state.consumerTable.keys.foldl
      (fun _ group ↦ isSubscribeTopicNeedUpdate state group topic)
      (state.producerTable.values.foldl (fun _ info ↦ isPublishTopicNeedUpdate info topic) false) =
      lastLacks topic state := by
    rw [foldl_last, foldl_last, OrderedMap.keys, OrderedMap.values, List.getLast?_map,
      List.getLast?_map]
    unfold lastLacks OrderedMap.last?
    cases state.consumerTable.entries.getLast? with
    | none =>
      cases state.producerTable.entries.getLast? with
      | none => rfl
      | some producer => rfl
    | some consumer => rfl
  have hunlock : { state with consumerTableLocked := false } = state := by rw [← hfree]
  rw [isNeedUpdateTopicRouteInfo, Session.bind_read, lockConsumerTable, hfree]
  simp only [Bool.false_eq_true, if_false, Session.read]
  rw [← hresult, hunlock]
  rfl

/-- The last party is one of them. -/
theorem someLacks_of_lastLacks {topic : ByteString} {state : ClientState}
    (hlast : lastLacks topic state = true) : SomeLacks topic state := by
  unfold lastLacks at hlast
  cases hconsumer : state.consumerTable.last? with
  | some consumer =>
    rw [hconsumer] at hlast
    exact Or.inr ⟨consumer.1, OrderedMap.mem_of_last? hconsumer, hlast⟩
  | none =>
    cases hproducer : state.producerTable.last? with
    | some producer =>
      rw [hconsumer, hproducer] at hlast
      exact Or.inl ⟨producer, List.mem_of_getLast? hproducer, hlast⟩
    | none =>
      rw [hconsumer, hproducer] at hlast
      exact absurd hlast Bool.false_ne_true

/-! ### Handing on a route -/

/-- The producers after the loop that hands them the queues of a topic. -/
def assignProducers (topic : ByteString) (info : List MessageQueue) (keys : List ByteString)
    (table : OrderedMap ByteString (OrderedMap ByteString (List MessageQueue))) :
    OrderedMap ByteString (OrderedMap ByteString (List MessageQueue)) :=
  keys.foldl (fun table group ↦ table.assign group
    (((table.find? group).getD OrderedMap.empty).assign topic info)) table

/-- The loop gives the queues to each of the groups that it goes through, and takes them from none.
-/
theorem find?_assignProducers {topic group : ByteString} {info : List MessageQueue}
    {keys : List ByteString}
    {table : OrderedMap ByteString (OrderedMap ByteString (List MessageQueue))}
    (hstart : group ∈ keys ∨ ∃ held ∈ table.find? group, held.find? topic = some info) :
    ∃ held ∈ (assignProducers topic info keys table).find? group,
      held.find? topic = some info := by
  induction keys generalizing table with
  | nil => exact hstart.resolve_left List.not_mem_nil
  | cons head rest ih =>
    refine ih ?_
    by_cases hhead : group = head
    · subst hhead
      exact Or.inr ⟨_, OrderedMap.find?_assign_self table group _,
        OrderedMap.find?_assign_self _ topic info⟩
    · rcases hstart with hmem | ⟨held, hheld, hinfo⟩
      · exact Or.inl ((List.mem_cons.mp hmem).resolve_left hhead)
      · refine Or.inr ⟨held, ?_, hinfo⟩
        rw [OrderedMap.find?_assign_of_ne table _ hhead]
        exact hheld

/-- The loop registers no new producer. -/
theorem mem_assignProducers {topic group : ByteString} {info : List MessageQueue}
    {keys : List ByteString}
    {table : OrderedMap ByteString (OrderedMap ByteString (List MessageQueue))}
    (hmem : group ∈ assignProducers topic info keys table) : group ∈ keys ∨ group ∈ table := by
  induction keys generalizing table with
  | nil => exact Or.inr hmem
  | cons head rest ih =>
    rcases ih hmem with hrest | hassigned
    · exact Or.inl (List.mem_cons_of_mem head hrest)
    · rcases OrderedMap.mem_assign.mp hassigned with rfl | hbefore
      · exact Or.inl List.mem_cons_self
      · exact Or.inr hbefore

/-- The tables after a route has been handed on without getting stuck. -/
theorem applyTopicRoute_tables {topic : ByteString} {route : TopicRouteData} {bLocked : Bool}
    {state : ClientState} (hdone : (applyTopicRoute topic route bLocked state).1 ≠ .stuck) :
    (applyTopicRoute topic route bLocked state).2.producerTable =
        assignProducers topic (topicRouteData2TopicPublishInfo topic route)
          state.producerTable.keys state.producerTable ∧
      (applyTopicRoute topic route bLocked state).2.consumerTable = state.consumerTable ∧
      (applyTopicRoute topic route bLocked state).2.subscriptionInner = state.subscriptionInner ∧
      (applyTopicRoute topic route bLocked state).2.topicSubscribeInfoTable = fun group ↦
        if group ∈ state.consumerTable ∧ topic ∈ state.subscriptionInner group then
          (state.topicSubscribeInfoTable group).assign topic
            (topicRouteData2TopicSubscribeInfo topic route)
        else state.topicSubscribeInfoTable group := by
  cases bLocked with
  | true => exact ⟨rfl, rfl, rfl, rfl⟩
  | false =>
    cases hheld : state.consumerTableLocked with
    | true =>
      refine absurd ?_ hdone
      rw [applyTopicRoute, updateTopicPublishInfo, Session.bind_modify]
      have hhand : ∀ other : ClientState, other.consumerTableLocked = true →
          handToConsumers topic route false other = (.stuck, other) := by
        intro other hother
        simp only [handToConsumers, Bool.false_eq_true, if_false]
        exact lockConsumerTable_of_locked hother _
      rw [Session.bind_stuck (hhand _ ?_)]
      exact hheld
    | false =>
      rw [applyTopicRoute, updateTopicPublishInfo, Session.bind_modify, Session.bind_def]
      simp only [handToConsumers, Bool.false_eq_true, if_false, lockConsumerTable, hheld,
        updateTopicSubscribeInfo, Session.modify]
      exact ⟨rfl, trivial, trivial, trivial⟩

/-- When a route is handed on without getting stuck, every party is informed. -/
theorem informed_applyTopicRoute {topic : ByteString} {route : TopicRouteData} {bLocked : Bool}
    {state : ClientState} (hdone : (applyTopicRoute topic route bLocked state).1 ≠ .stuck) :
    Informed topic route (applyTopicRoute topic route bLocked state).2 := by
  obtain ⟨hproducers, hconsumers, hsubscriptions, hinfo⟩ := applyTopicRoute_tables hdone
  refine ⟨fun producer hproducer _ ↦ ?_, fun group hgroup htopic ↦ ?_⟩
  · rw [hproducers] at hproducer
    have hkey : producer.1 ∈ state.producerTable.keys :=
      (mem_assignProducers (OrderedMap.key_mem hproducer)).elim id id
    obtain ⟨held, hheld, hfind⟩ := @find?_assignProducers topic producer.1
      (topicRouteData2TopicPublishInfo topic route) state.producerTable.keys state.producerTable
      (Or.inl hkey)
    have hsame := (OrderedMap.find?_eq_some.mpr hproducer).symm.trans hheld
    rw [Option.some.inj hsame]
    exact hfind
  · rw [hconsumers] at hgroup
    rw [hsubscriptions] at htopic
    rw [hinfo]
    simp only [hgroup, htopic, and_self, if_true]
    exact OrderedMap.find?_assign_self _ topic _

/-! ### The whole refresh -/

/-- The client after the name server has been asked and has answered with a route. -/
def answeredWith (topic : ByteString) (bLocked : Bool) (route : TopicRouteData)
    (state : ClientState) : ClientState :=
  { state with
    asked := state.asked + 1 + 1
    calls := state.calls ++ [] ++
      [.topicRoute topic bLocked (state.topicRouteTable.find? topic) (.route route)] }

section Answered

variable {topic : ByteString} {bLocked : Bool} {route : TopicRouteData} {state : ClientState}

theorem updateTopicRouteInfoFromNameServer_of_route
    (hlock : (state.environment state.asked).lockNamesrv = true)
    (hreply : (state.environment (state.asked + 1)).topicRoute topic = .route route) :
    updateTopicRouteInfoFromNameServer topic bLocked state =
      (receiveTopicRoute topic route bLocked >>= fun _ ↦ pure true)
        (answeredWith topic bLocked route state) := by
  have hask : ask Answers.lockNamesrv (fun _ ↦ []) state =
      (.ok true, { state with asked := state.asked + 1, calls := state.calls ++ [] }) := by
    simp only [ask, hlock]
  have hquestion : getTopicRouteInfoFromNameServer topic bLocked
      { state with asked := state.asked + 1, calls := state.calls ++ [] } =
      (.ok (.route route), answeredWith topic bLocked route state) := by
    rw [getTopicRouteInfoFromNameServer, Session.bind_read]
    simp only [ask, hreply, answeredWith]
  rw [updateTopicRouteInfoFromNameServer, Session.bind_ok hask, if_pos rfl,
    Session.bind_ok hquestion]

/-- A new route is handed on. -/
theorem receiveTopicRoute_of_isNew (hnew : IsNew topic route state) :
    receiveTopicRoute topic route bLocked state = applyTopicRoute topic route bLocked state := by
  have hchanged : isRouteChanged topic route state = (.ok true, state) := by
    rw [isRouteChanged, Session.bind_read]
    cases hknown : state.topicRouteTable.find? topic with
    | none => rfl
    | some old =>
      simp only [hnew old hknown, if_true]
      rfl
  rw [receiveTopicRoute, Session.bind_ok hchanged, if_pos rfl]

/-- A route that is known is handed on when the last party lacks information. -/
theorem receiveTopicRoute_of_known (hfree : state.consumerTableLocked = false)
    (hknown : ¬ IsNew topic route state) :
    receiveTopicRoute topic route bLocked state =
      if lastLacks topic state then applyTopicRoute topic route bLocked state
      else (.ok (), state) := by
  unfold IsNew at hknown
  push Not at hknown
  obtain ⟨old, hold, hsame⟩ := hknown
  have hchanged : isRouteChanged topic route state = (.ok (lastLacks topic state), state) := by
    rw [isRouteChanged, Session.bind_read, hold]
    simp only [hsame]
    exact isNeedUpdateTopicRouteInfo_eq topic hfree
  rw [receiveTopicRoute, Session.bind_ok hchanged]
  cases lastLacks topic state with
  | true => rfl
  | false => rfl

/-- A refresh of a known route under the lock gets stuck. -/
theorem free_of_returned (hknown : ¬ IsNew topic route state)
    (hreturned : (receiveTopicRoute topic route bLocked state).1 ≠ .stuck) :
    state.consumerTableLocked = false := by
  rw [← Bool.not_eq_true]
  intro hlocked
  have hboth := (receiveTopicRoute_of_locked hlocked topic route bLocked).2.2.mp hreturned
  exact hknown hboth.2

/-- A refresh that hands its route on informs every party. -/
theorem informed_of_applied (happly : receiveTopicRoute topic route bLocked state =
      applyTopicRoute topic route bLocked state)
    (hreturned : (receiveTopicRoute topic route bLocked state).1 ≠ .stuck) :
    Informed topic route (receiveTopicRoute topic route bLocked state).2 := by
  rw [happly] at hreturned ⊢
  exact informed_applyTopicRoute hreturned

/-- Being asked and answered informs nobody. -/
theorem informed_answeredWith_iff :
    Informed topic route (answeredWith topic bLocked route state) ↔ Informed topic route state :=
  ⟨fun hinformed ↦ ⟨hinformed.producers, hinformed.consumers⟩,
    fun hinformed ↦ ⟨hinformed.producers, hinformed.consumers⟩⟩

end Answered

/-- A refresh that returns after it got a route reaches every party, and the check for missing
information is right, exactly when the route is new or differs from the one known, or the last party
lacks information on the topic, or every party is informed already and none lacks information. -/
theorem route_update_reaches_iff (state : ClientState) (topic : ByteString) (bLocked : Bool)
    (route : TopicRouteData) (hlock : (state.environment state.asked).lockNamesrv = true)
    (hreply : (state.environment (state.asked + 1)).topicRoute topic = .route route)
    (hreturned : (updateTopicRouteInfoFromNameServer topic bLocked state).1 ≠ .stuck) :
    Reaches topic bLocked route state ↔
      IsNew topic route state ∨ lastLacks topic state = true ∨
        (Informed topic route state ∧ ¬ SomeLacks topic state) := by
  have hupdate :=
    @updateTopicRouteInfoFromNameServer_of_route topic bLocked route state hlock hreply
  obtain ⟨hafter, houtcome⟩ := Session.bind_pure_ne_stuck (receiveTopicRoute topic route bLocked)
    (fun _ ↦ true) (answeredWith topic bLocked route state)
  have hreceived := houtcome.mp (hupdate ▸ hreturned)
  have hstate : (updateTopicRouteInfoFromNameServer topic bLocked state).2 =
      (receiveTopicRoute topic route bLocked (answeredWith topic bLocked route state)).2 := by
    rw [hupdate, hafter]
  by_cases hnew : IsNew topic route state
  · have happly := @receiveTopicRoute_of_isNew topic bLocked route
      (answeredWith topic bLocked route state) hnew
    refine iff_of_true ⟨?_, fun hknown ↦ absurd hnew hknown⟩ (Or.inl hnew)
    rw [hstate]
    exact informed_of_applied happly hreceived
  · have hfree : state.consumerTableLocked = false :=
      @free_of_returned topic bLocked route (answeredWith topic bLocked route state) hnew hreceived
    have hreceive := @receiveTopicRoute_of_known topic bLocked route
      (answeredWith topic bLocked route state) hfree hnew
    have hcheck := isNeedUpdateTopicRouteInfo_eq topic hfree
    by_cases hlast : lastLacks topic state = true
    · refine iff_of_true ⟨?_, fun _ ↦ ?_⟩ (Or.inr (Or.inl hlast))
      · rw [hstate]
        exact informed_of_applied (hreceive.trans (if_pos hlast)) hreceived
      · rw [hcheck, hlast]
        exact iff_of_true rfl (someLacks_of_lastLacks hlast)
    · have hkeep : receiveTopicRoute topic route bLocked (answeredWith topic bLocked route state) =
          (.ok (), answeredWith topic bLocked route state) := hreceive.trans (if_neg hlast)
      rw [hkeep] at hstate
      have hmissed : (isNeedUpdateTopicRouteInfo topic state).1 ≠ .ok true := by
        rw [hcheck]
        exact fun hfound ↦ hlast (Outcome.ok.inj hfound)
      constructor
      · intro hreaches
        have hinformed := hreaches.informed
        rw [hstate] at hinformed
        exact Or.inr (Or.inr ⟨informed_answeredWith_iff.mp hinformed,
          fun hlacks ↦ hmissed ((hreaches.noticed hnew).mpr hlacks)⟩)
      · rintro (hisNew | hlacks | ⟨hinformed, hnone⟩)
        · exact absurd hisNew hnew
        · exact absurd hlacks hlast
        · refine ⟨?_, fun _ ↦ iff_of_false hmissed hnone⟩
          rw [hstate]
          exact informed_answeredWith_iff.mpr hinformed

/-- A route of one queue on the broker 98. -/
def oneQueueRoute : TopicRouteData :=
  ⟨[], [⟨[98], 1, 1, 6⟩], [⟨[98], OrderedMap.empty.assign masterId [49]⟩]⟩

/-- A push consumer. -/
def clusteringConsumer : ConsumerInner where
  pushConsumer := true
  messageModel := .clustering
  remoteOffsetStore := true
  consumeFromWhere := .consumeFromLastOffset
  consumeTimestamp := 0
  strategy := allocate
  uninitialized := none
  now := 0

/-- A client with the consumers 1 and 2 of the topic 116, of which the second one has its queues,
and a name server that answers with the route above. -/
def twoConsumers (known : OrderedMap ByteString TopicRouteData) : ClientState where
  clientId := [99]
  topicRouteTable := known
  brokerAddrTable := OrderedMap.empty
  producerTable := OrderedMap.empty
  consumerTable := (OrderedMap.empty.assign [1] clusteringConsumer).assign [2] clusteringConsumer
  serviceRunning := fun _ ↦ true
  subscriptionInner := fun _ ↦ [[116]]
  topicSubscribeInfoTable := fun group ↦
    if group = [2] then OrderedMap.empty.assign [116]
      (topicRouteData2TopicSubscribeInfo [116] oneQueueRoute)
    else OrderedMap.empty
  rebalanceImpl := fun _ ↦ ⟨OrderedMap.empty, fun _ ↦ ProcessQueue.new 0, 0, OrderedMap.empty, []⟩
  offsetTable := fun _ ↦ OrderedMap.empty
  pullRequestQueue := []
  consumerTableLocked := false
  environment := fun _ ↦
    { lockNamesrv := true
      topicRoute := fun _ ↦ .route oneQueueRoute
      consumerIdList := fun _ _ ↦ none
      consumerOffset := fun _ _ _ ↦ .noReply
      maxOffset := fun _ _ ↦ .noReply
      searchOffset := fun _ _ _ ↦ .noReply
      localOffset := fun _ ↦ none }
  asked := 0
  calls := []

/-- A route that is new reaches both consumers. -/
theorem route_update_reaches_new_route :
    Reaches [116] false oneQueueRoute (twoConsumers OrderedMap.empty) :=
  (route_update_reaches_iff (twoConsumers OrderedMap.empty) [116] false oneQueueRoute rfl rfl
    (by decide)).mpr (Or.inl (by decide))

/-- A route that is known already does not reach the first consumer, because the second one has its
queues. -/
theorem route_update_misses_consumer :
    ¬ ∀ (state : ClientState) (topic : ByteString) (bLocked : Bool) (route : TopicRouteData),
      (state.environment state.asked).lockNamesrv = true →
      (state.environment (state.asked + 1)).topicRoute topic = .route route →
      (updateTopicRouteInfoFromNameServer topic bLocked state).1 ≠ .stuck →
      Reaches topic bLocked route state := by
  intro hclaim
  have hreaches := hclaim (twoConsumers (OrderedMap.empty.assign [116] oneQueueRoute)) [116] false
    oneQueueRoute rfl rfl (by decide)
  have hmissed : ((updateTopicRouteInfoFromNameServer [116] false (twoConsumers
      (OrderedMap.empty.assign [116] oneQueueRoute))).2.topicSubscribeInfoTable [1]).find? [116] =
      none := by decide
  have hinformed := hreaches.informed.consumers [1] (by decide) (by decide)
  exact absurd (hmissed.symm.trans hinformed) (Option.some_ne_none _).symm

end RocketMQClient.Factory
