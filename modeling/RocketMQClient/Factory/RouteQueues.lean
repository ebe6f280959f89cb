import Mathlib.Data.List.Flatten
import RocketMQClient.Factory.RouteChange
import RocketMQClient.Messages.MessageQueueOrder

/-!
# The queues of a route

A route without an order configuration gives the queues to publish to, in a list that is sorted by
broker name and then by id, and the queues to subscribe to, in a set. `PublishesExactly` and
`SubscribesExactly` say which queues these are, and `route_queues_exact` that the two functions of
the source compute them, whatever the order of the two lists in the route.

The set compares broker names as C strings. The names of a route from the name server have no zero
byte, since the JSON library hands them out as C strings.

Sorting and inserting into a set lose the order of the route, so that two routes with the same
entries in different orders give the same queues (`topicPublishInfo_congr`,
`topicSubscribeInfo_congr`); for the list this needs that the elements are sorted and occur once,
which the distinct broker names give.
-/

set_option autoImplicit false
set_option relaxedAutoImplicit false

namespace RocketMQClient.Factory

open Library Messages

/-! ### What a route says -/

/-- A route without an order configuration, with distinct broker names in each of its lists. -/
structure Unordered (route : TopicRouteData) : Prop where
  noOrder : route.orderTopicConf = []
  names : route.DistinctNames

/-- The broker names are C strings and the counts of queues to read are values of an `int`. -/
def FromNameServer (route : TopicRouteData) : Prop :=
  ∀ data ∈ route.queueDatas, 0 ∉ data.brokerName ∧ data.readQueueNums ≤ 2147483647

instance (route : TopicRouteData) : Decidable (FromNameServer route) :=
  inferInstanceAs (Decidable (∀ data ∈ _, _))

/-- A broker has data with an address for the master. -/
def HasMaster (route : TopicRouteData) (brokerName : ByteString) : Prop :=
  ∃ broker ∈ route.brokerDatas, broker.brokerName = brokerName ∧ masterId ∈ broker.brokerAddrs

/-- The list has exactly the queues of the writeable brokers with a master, once each, sorted by
broker name and then by id. -/
structure PublishesExactly (topic : ByteString) (route : TopicRouteData)
    (info : List MessageQueue) : Prop where
  mem_iff : ∀ queue, queue ∈ info ↔ queue.topic = topic ∧ ∃ data ∈ route.queueDatas,
    data.brokerName = queue.brokerName ∧ isWriteable data.perm = true ∧
      HasMaster route data.brokerName ∧ 0 ≤ queue.queueId ∧ queue.queueId < data.writeQueueNums
  sorted : info.Pairwise fun earlier later ↦ earlier.brokerName < later.brokerName ∨
    earlier.brokerName = later.brokerName ∧ earlier.queueId < later.queueId
  nodup : info.Nodup

/-- The set has exactly the queues of the readable brokers. -/
structure SubscribesExactly (topic : ByteString) (route : TopicRouteData)
    (set : List MessageQueue) : Prop where
  mem_iff : ∀ queue, queue ∈ set ↔ queue.topic = topic ∧ ∃ data ∈ route.queueDatas,
    data.brokerName = queue.brokerName ∧ isReadable data.perm = true ∧
      0 ≤ queue.queueId ∧ queue.queueId < data.readQueueNums
  sorted : set.Pairwise MessageQueue.operatorLt
  nodup : set.Nodup

/-! ### The queues to publish to -/

variable {topic : ByteString} {route other : TopicRouteData}

theorem queuesBelow_eq (topic brokerName : ByteString) (count : ℤ) :
    queuesBelow topic brokerName count =
      (List.range count.toNat).map fun index : ℕ ↦ ⟨topic, brokerName, (index : ℤ)⟩ := by
  simp only [queuesBelow, List.bind_eq_flatMap, List.pure_def, List.map_flatMap, List.map_cons,
    List.map_nil]
  rw [← List.map_eq_flatMap]

theorem mem_queuesBelow {brokerName : ByteString} {count : ℤ} {queue : MessageQueue} :
    queue ∈ queuesBelow topic brokerName count ↔
      queue.topic = topic ∧ queue.brokerName = brokerName ∧ 0 ≤ queue.queueId ∧
        queue.queueId < count := by
  obtain ⟨queueTopic, queueName, queueId⟩ := queue
  simp only [queuesBelow_eq, List.mem_map, List.mem_range, MessageQueue.mk.injEq]
  constructor
  · rintro ⟨index, hindex, rfl, rfl, rfl⟩
    exact ⟨rfl, rfl, by omega, by omega⟩
  · rintro ⟨rfl, rfl, hlower, hupper⟩
    exact ⟨queueId.toNat, by omega, rfl, rfl, by omega⟩

theorem pairwise_queuesBelow (brokerName : ByteString) (count : ℤ) :
    (queuesBelow topic brokerName count).Pairwise fun earlier later ↦
      earlier.brokerName = later.brokerName ∧ earlier.queueId < later.queueId := by
  rw [queuesBelow_eq]
  refine List.pairwise_map.mpr (List.pairwise_lt_range.imp fun hlt ↦ ?_)
  exact ⟨rfl, Int.ofNat_lt.mpr hlt⟩

/-- The queues of the data of one broker. -/
def publishQueues (topic : ByteString) (route : TopicRouteData) (data : QueueData) :
    List MessageQueue :=
  if isWriteable data.perm then
    match route.brokerDatas.find? fun broker ↦ broker.brokerName = data.brokerName with
    | none => []
    | some broker =>
      if masterId ∈ broker.brokerAddrs then queuesBelow topic data.brokerName data.writeQueueNums
      else []
  else []

theorem topicPublishInfo_eq (hroute : Unordered route) :
    topicRouteData2TopicPublishInfo topic route =
      (sortQueueDatas route.queueDatas).flatMap (publishQueues topic route) := by
  rw [topicRouteData2TopicPublishInfo, if_neg (not_not.mpr hroute.noOrder)]
  rfl

/-- The broker data that the loop finds has an address for the master exactly when some have. -/
theorem publishQueues_eq (hroute : Unordered route) (data : QueueData) :
    (isWriteable data.perm = true ∧ HasMaster route data.brokerName ∧
        publishQueues topic route data = queuesBelow topic data.brokerName data.writeQueueNums) ∨
      ¬ (isWriteable data.perm = true ∧ HasMaster route data.brokerName) ∧
        publishQueues topic route data = [] := by
  unfold publishQueues
  by_cases hwrite : isWriteable data.perm = true
  · rw [if_pos hwrite]
    cases hfind : route.brokerDatas.find? fun broker ↦ broker.brokerName = data.brokerName with
    | none =>
      refine Or.inr ⟨?_, rfl⟩
      rintro ⟨-, broker, hbroker, hname, -⟩
      exact absurd (List.find?_eq_none.mp hfind broker hbroker) (by simpa using hname)
    | some broker =>
      obtain ⟨hbroker, hname⟩ := (find?_key_eq_some_iff hroute.names.brokerDatas).mp hfind
      by_cases hmaster : masterId ∈ broker.brokerAddrs
      · exact Or.inl ⟨hwrite, ⟨broker, hbroker, hname, hmaster⟩, if_pos hmaster⟩
      · refine Or.inr ⟨?_, if_neg hmaster⟩
        rintro ⟨-, found, hfound, hfoundName, hfoundMaster⟩
        have hsame : found = broker := List.inj_on_of_nodup_map hroute.names.brokerDatas hfound
          hbroker (hfoundName.trans hname.symm)
        exact hmaster (hsame ▸ hfoundMaster)
  · exact Or.inr ⟨fun hboth ↦ hwrite hboth.1, if_neg hwrite⟩

theorem mem_publishQueues (hroute : Unordered route) {data : QueueData} {queue : MessageQueue} :
    queue ∈ publishQueues topic route data ↔
      isWriteable data.perm = true ∧ HasMaster route data.brokerName ∧
        queue ∈ queuesBelow topic data.brokerName data.writeQueueNums := by
  rcases @publishQueues_eq topic route hroute data with ⟨hwrite, hmaster, heq⟩ | ⟨hnot, heq⟩
  · rw [heq]
    exact ⟨fun hmem ↦ ⟨hwrite, hmaster, hmem⟩, fun hall ↦ hall.2.2⟩
  · rw [heq]
    exact iff_of_false List.not_mem_nil fun hall ↦ hnot ⟨hall.1, hall.2.1⟩

/-- The list has the queues that the route says. -/
theorem publishes_exactly (hroute : Unordered route) :
    PublishesExactly topic route (topicRouteData2TopicPublishInfo topic route) := by
  rw [topicPublishInfo_eq hroute]
  have hsorted : ((sortQueueDatas route.queueDatas).flatMap (publishQueues topic route)).Pairwise
      fun earlier later ↦ earlier.brokerName < later.brokerName ∨
        earlier.brokerName = later.brokerName ∧ earlier.queueId < later.queueId := by
    rw [List.pairwise_flatMap]
    refine ⟨fun data _ ↦ ?_, (pairwise_lt_sortByKey hroute.names.queueDatas).imp ?_⟩
    · rcases @publishQueues_eq topic route hroute data with ⟨-, -, heq⟩ | ⟨-, heq⟩
      · exact heq ▸ (pairwise_queuesBelow data.brokerName data.writeQueueNums).imp Or.inr
      · exact heq ▸ List.Pairwise.nil
    · intro first second hlt earlier hearlier later hlater
      have hfirst := (mem_queuesBelow.mp ((mem_publishQueues hroute).mp hearlier).2.2).2.1
      have hsecond := (mem_queuesBelow.mp ((mem_publishQueues hroute).mp hlater).2.2).2.1
      rw [hfirst, hsecond]
      exact Or.inl hlt
  refine ⟨fun queue ↦ ?_, hsorted, hsorted.imp ?_⟩
  · simp only [List.mem_flatMap, mem_publishQueues hroute, mem_queuesBelow]
    constructor
    · rintro ⟨data, hdata, hwrite, hmaster, htopic, hname, hlower, hupper⟩
      have hmem := (sortByKey_perm QueueData.brokerName route.queueDatas).mem_iff.mp hdata
      exact ⟨htopic, data, hmem, hname.symm, hwrite, hmaster, hlower, hupper⟩
    · rintro ⟨htopic, data, hdata, hname, hwrite, hmaster, hlower, hupper⟩
      have hmem := (sortByKey_perm QueueData.brokerName route.queueDatas).mem_iff.mpr hdata
      exact ⟨data, hmem, hwrite, hmaster, htopic, hname.symm, hlower, hupper⟩
  · rintro earlier later (hlt | ⟨-, hlt⟩) rfl
    · exact lt_irrefl _ hlt
    · exact lt_irrefl _ hlt

/-! ### The queues to subscribe to -/

/-- The queues that the loops insert. -/
def subscribeQueues (topic : ByteString) (route : TopicRouteData) : List MessageQueue :=
  route.queueDatas.flatMap fun data ↦
    if isReadable data.perm then queuesBelow topic data.brokerName data.readQueueNums else []

theorem mem_subscribeQueues {queue : MessageQueue} :
    queue ∈ subscribeQueues topic route ↔ queue.topic = topic ∧ ∃ data ∈ route.queueDatas,
      data.brokerName = queue.brokerName ∧ isReadable data.perm = true ∧
        0 ≤ queue.queueId ∧ queue.queueId < data.readQueueNums := by
  simp only [subscribeQueues, List.mem_flatMap, List.mem_ite_nil_right, mem_queuesBelow]
  constructor
  · rintro ⟨data, hdata, hread, htopic, hname, hlower, hupper⟩
    exact ⟨htopic, data, hdata, hname.symm, hread, hlower, hupper⟩
  · rintro ⟨htopic, data, hdata, hname, hread, hlower, hupper⟩
    exact ⟨data, hdata, hread, htopic, hname.symm, hlower, hupper⟩

/-- The queues of a topic with plain broker names and ids from zero on. -/
def queuesOfTopic (topic : ByteString) : Set MessageQueue :=
  {queue | queue.topic = topic ∧ 0 ∉ queue.brokerName ∧ 0 ≤ queue.queueId ∧
    queue.queueId ≤ 2147483647}

/-- The queues of a topic are in order, also when its name has a zero byte. -/
theorem strictTotalOn_queuesOfTopic (topic : ByteString) :
    StrictTotalOn MessageQueue.operatorLt (queuesOfTopic topic) := by
  have hplain : ∀ queue : MessageQueue, queue.cName.HasPlainNames :=
    fun queue ↦ ⟨zero_not_mem_cString _, zero_not_mem_cString _⟩
  have hfits : ∀ queue ∈ queuesOfTopic topic, (queue.queueId - 0) % 4294967296 < 2147483648 := by
    rintro queue ⟨-, -, hlower, hupper⟩
    omega
  have hint : ∀ queue ∈ queuesOfTopic topic, queue.cName.IsInt := by
    rintro queue ⟨-, -, hlower, hupper⟩
    exact ⟨by show -2147483648 ≤ queue.queueId; omega, hupper⟩
  refine @StrictTotalOn.of_rank _ _ _ _ _ (fun queue ↦ queue.cName.rank fun _ _ ↦ 0)
    (fun first hfirst second hsecond ↦ ?_) fun first hfirst second hsecond hrank ↦ ?_
  · rw [MessageQueue.operatorLt, ← MessageQueue.compareTo_cName]
    exact MessageQueue.operatorLt_iff_rank (hplain first) (hplain second) (hfits first hfirst)
      (hfits second hsecond)
  · have hsame := MessageQueue.eq_of_rank_eq (hint first hfirst) (hint second hsecond) hrank
    obtain ⟨topic, brokerName, queueId⟩ := first
    obtain ⟨topic', brokerName', queueId'⟩ := second
    obtain ⟨rfl, hname, -⟩ := hfirst
    obtain ⟨rfl, hname', -⟩ := hsecond
    simp only [MessageQueue.cName, MessageQueue.mk.injEq, cString_eq_self hname,
      cString_eq_self hname'] at hsame
    rw [hsame.2.1, hsame.2.2]

/-- The set has the queues that the route says. -/
theorem subscribes_exactly (hserver : FromNameServer route) :
    SubscribesExactly topic route (topicRouteData2TopicSubscribeInfo topic route) := by
  have hadded : ∀ queue ∈ subscribeQueues topic route, queue ∈ queuesOfTopic topic := by
    intro queue hqueue
    obtain ⟨htopic, data, hdata, hname, -, hlower, hupper⟩ := mem_subscribeQueues.mp hqueue
    obtain ⟨hplain, hcount⟩ := hserver data hdata
    exact ⟨htopic, hname ▸ hplain, hlower, by omega⟩
  obtain ⟨hsorted, hmem⟩ := MessageQueue.foldl_insertQueue_spec (strictTotalOn_queuesOfTopic topic)
    hadded (fun queue hqueue ↦ absurd hqueue List.not_mem_nil) List.Pairwise.nil
  refine ⟨fun queue ↦ ?_, hsorted, (MessageQueueSet.mk _ hsorted).nodup⟩
  rw [← mem_subscribeQueues]
  exact (hmem queue).trans (or_iff_left List.not_mem_nil)

/-! ### The order of the lists -/

theorem Unordered.of_sameUpToOrder (hroute : Unordered route)
    (hsame : route.SameUpToOrder other) : Unordered other where
  noOrder := hsame.orderTopicConf ▸ hroute.noOrder
  names := ⟨(hsame.queueDatas.map _).nodup_iff.mp hroute.names.queueDatas,
    (hsame.brokerDatas.map _).nodup_iff.mp hroute.names.brokerDatas⟩

theorem FromNameServer.of_sameUpToOrder (hserver : FromNameServer route)
    (hsame : route.SameUpToOrder other) : FromNameServer other :=
  fun data hdata ↦ hserver data (hsame.queueDatas.mem_iff.mpr hdata)

theorem hasMaster_congr (hsame : route.SameUpToOrder other) (brokerName : ByteString) :
    HasMaster route brokerName ↔ HasMaster other brokerName :=
  exists_congr fun _ ↦ and_congr_left fun _ ↦ hsame.brokerDatas.mem_iff

/-- Lists without repetition that have the same queues and are sorted are the same. -/
theorem eq_of_sorted {less : MessageQueue → MessageQueue → Prop} {first second : List MessageQueue}
    (hasymm : ∀ queue ∈ first, ∀ queue' ∈ second, less queue queue' → ¬ less queue' queue)
    (hnodup : first.Nodup) (hnodup' : second.Nodup) (hsorted : first.Pairwise less)
    (hsorted' : second.Pairwise less) (hmem : ∀ queue, queue ∈ first ↔ queue ∈ second) :
    first = second :=
  List.Perm.eq_of_pairwise
    (fun queue queue' hqueue hqueue' hless hless' ↦
      absurd hless' (hasymm queue hqueue queue' hqueue' hless))
    hsorted hsorted' ((List.perm_ext_iff_of_nodup hnodup hnodup').mpr hmem)

/-- The list does not depend on the order of the lists in the route. -/
theorem topicPublishInfo_congr (hroute : Unordered route) (hsame : route.SameUpToOrder other) :
    topicRouteData2TopicPublishInfo topic route = topicRouteData2TopicPublishInfo topic other := by
  have hinfo := @publishes_exactly topic route hroute
  have hinfo' := @publishes_exactly topic other (hroute.of_sameUpToOrder hsame)
  refine eq_of_sorted (fun queue _ queue' _ hless hless' ↦ ?_) hinfo.nodup hinfo'.nodup
    hinfo.sorted hinfo'.sorted fun queue ↦ ?_
  · rcases hless with hlt | ⟨heq, hlt⟩ <;> rcases hless' with hlt' | ⟨heq', hlt'⟩
    · exact lt_asymm hlt hlt'
    · exact hlt.ne heq'.symm
    · exact hlt'.ne heq.symm
    · exact lt_asymm hlt hlt'
  · simp only [hinfo.mem_iff, hinfo'.mem_iff, hsame.queueDatas.mem_iff, hasMaster_congr hsame]

/-- The set does not depend on the order of the lists in the route. -/
theorem topicSubscribeInfo_congr (hserver : FromNameServer route)
    (hsame : route.SameUpToOrder other) :
    topicRouteData2TopicSubscribeInfo topic route =
      topicRouteData2TopicSubscribeInfo topic other := by
  have hinfo := @subscribes_exactly topic route hserver
  have hinfo' := @subscribes_exactly topic other (hserver.of_sameUpToOrder hsame)
  have hmem : ∀ queue, queue ∈ topicRouteData2TopicSubscribeInfo topic route ↔
      queue ∈ topicRouteData2TopicSubscribeInfo topic other := fun queue ↦ by
    simp only [hinfo.mem_iff, hinfo'.mem_iff, hsame.queueDatas.mem_iff]
  have hids : ∀ queue ∈ topicRouteData2TopicSubscribeInfo topic route,
      0 ≤ queue.queueId ∧ queue.queueId ≤ 2147483647 := by
    intro queue hqueue
    obtain ⟨-, data, hdata, -, -, hlower, hupper⟩ := (hinfo.mem_iff queue).mp hqueue
    exact ⟨hlower, by have hcount := (hserver data hdata).2; omega⟩
  refine eq_of_sorted (fun queue hqueue queue' hqueue' ↦ ?_) hinfo.nodup hinfo'.nodup
    hinfo.sorted hinfo'.sorted hmem
  exact MessageQueue.operatorLt_asymm (hids queue hqueue) (hids queue' ((hmem queue').mpr hqueue'))

/-- Assumes: a route of the name server without an order configuration, with distinct broker names
in each of its lists. Its queues to publish to and to subscribe to are those that it says, and are
the same for every reordering of its lists. -/
theorem route_queues_exact (topic : ByteString) (hroute : Unordered route)
    (hserver : FromNameServer route) :
    PublishesExactly topic route (topicRouteData2TopicPublishInfo topic route) ∧
      SubscribesExactly topic route (topicRouteData2TopicSubscribeInfo topic route) ∧
      ∀ other, route.SameUpToOrder other →
        topicRouteData2TopicPublishInfo topic route = topicRouteData2TopicPublishInfo topic other ∧
        topicRouteData2TopicSubscribeInfo topic route =
          topicRouteData2TopicSubscribeInfo topic other :=
  ⟨publishes_exactly hroute, subscribes_exactly hserver, fun _ hsame ↦
    ⟨topicPublishInfo_congr hroute hsame, topicSubscribeInfo_congr hserver hsame⟩⟩

/-- A route of a broker that can only be read and one with a master that can be written to. -/
theorem route_queues_exact_of_two_brokers :
    let route : TopicRouteData := ⟨[], [⟨[98], 1, 1, 6⟩, ⟨[97], 1, 1, 4⟩],
      [⟨[98], OrderedMap.empty.assign 0 [49]⟩]⟩
    PublishesExactly [84] route (topicRouteData2TopicPublishInfo [84] route) ∧
      SubscribesExactly [84] route (topicRouteData2TopicSubscribeInfo [84] route) ∧
      topicRouteData2TopicPublishInfo [84] route = [⟨[84], [98], 0⟩] ∧
      topicRouteData2TopicSubscribeInfo [84] route = [⟨[84], [97], 0⟩, ⟨[84], [98], 0⟩] := by
  intro route
  have hroute : Unordered route := ⟨rfl, ⟨by decide, by decide⟩⟩
  obtain ⟨hpublish, hsubscribe, -⟩ := route_queues_exact [84] hroute (by decide)
  exact ⟨hpublish, hsubscribe, by decide, by decide⟩

end RocketMQClient.Factory
