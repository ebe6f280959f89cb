import RocketMQClient.Factory.TopicRoute
import RocketMQClient.Library.KeySort

/-!
# When a route has changed

`topicRouteDataIsChange` copies both routes, sorts the lists of the copies by broker name, and
compares all fields. When the names in each list are distinct the sorted list depends only on which
records there are, so the comparison finds every change of a record and none of the order
(`topicRouteDataIsChange_iff`).
-/

set_option autoImplicit false
set_option relaxedAutoImplicit false

namespace RocketMQClient.Factory

open Library Messages

/-! ### The comparison of the source -/

namespace TopicRouteData

/-- `getQueueDatas().sort()`. -/
def sortQueues (route : TopicRouteData) : TopicRouteData :=
  { route with queueDatas := sortQueueDatas route.queueDatas }

/-- `getBrokerDatas().sort()`. -/
def sortBrokers (route : TopicRouteData) : TopicRouteData :=
  { route with brokerDatas := sortBrokerDatas route.brokerDatas }

/-- `operator==`. -/
def operatorEq (route other : TopicRouteData) : Bool :=
  if route.brokerDatas ≠ other.brokerDatas then false
  else if route.orderTopicConf ≠ other.orderTopicConf then false
  else if route.queueDatas ≠ other.queueDatas then false
  else true

/-- The broker names of the queue data are distinct, and those of the broker data. -/
structure DistinctNames (route : TopicRouteData) : Prop where
  queueDatas : (route.queueDatas.map QueueData.brokerName).Nodup
  brokerDatas : (route.brokerDatas.map BrokerData.brokerName).Nodup

/-- The routes have the same fields, up to the order of the two lists. -/
structure SameUpToOrder (route other : TopicRouteData) : Prop where
  orderTopicConf : route.orderTopicConf = other.orderTopicConf
  queueDatas : route.queueDatas.Perm other.queueDatas
  brokerDatas : route.brokerDatas.Perm other.brokerDatas

end TopicRouteData

/-- The arguments and the local copies of a call. -/
structure RouteComparison where
  olddata : TopicRouteData
  nowdata : TopicRouteData
  old : TopicRouteData
  now : TopicRouteData

/-- The call with its variables at the end. -/
def compareTopicRouteData (olddata nowdata : TopicRouteData) : Bool × RouteComparison :=
  let copied : RouteComparison := ⟨olddata, nowdata, olddata, nowdata⟩
  let oldSorted := { copied with old := copied.old.sortQueues.sortBrokers }
  let sorted := { oldSorted with now := oldSorted.now.sortQueues.sortBrokers }
  (!sorted.old.operatorEq sorted.now, sorted)

/-! ### What it finds -/

variable {olddata nowdata : TopicRouteData}

theorem operatorEq_iff {route other : TopicRouteData} :
    route.operatorEq other = true ↔ route = other := by
  obtain ⟨orderTopicConf, queueDatas, brokerDatas⟩ := route
  obtain ⟨orderTopicConf', queueDatas', brokerDatas'⟩ := other
  rw [TopicRouteData.operatorEq, TopicRouteData.mk.injEq]
  split_ifs with hbrokers hconf hqueues <;> simp_all

/-- The sorted copies are the same exactly when the routes are, up to the order of their lists. -/
theorem sorted_eq_iff (hold : olddata.DistinctNames) :
    olddata.sortQueues.sortBrokers = nowdata.sortQueues.sortBrokers ↔
      olddata.SameUpToOrder nowdata := by
  have hqueues := @sortByKey_eq_iff _ _ _ QueueData.brokerName _ nowdata.queueDatas hold.queueDatas
  have hbrokers :=
    @sortByKey_eq_iff _ _ _ BrokerData.brokerName _ nowdata.brokerDatas hold.brokerDatas
  constructor
  · intro hsame
    simp only [TopicRouteData.sortQueues, TopicRouteData.sortBrokers,
      TopicRouteData.mk.injEq] at hsame
    exact ⟨hsame.1, hqueues.mp hsame.2.1, hbrokers.mp hsame.2.2⟩
  · rintro ⟨hconf, hqueuePerm, hbrokerPerm⟩
    have hqueueSort : sortQueueDatas olddata.queueDatas = sortQueueDatas nowdata.queueDatas :=
      hqueues.mpr hqueuePerm
    have hbrokerSort : sortBrokerDatas olddata.brokerDatas = sortBrokerDatas nowdata.brokerDatas :=
      hbrokers.mpr hbrokerPerm
    simp only [TopicRouteData.sortQueues, TopicRouteData.sortBrokers, hconf, hqueueSort,
      hbrokerSort]

/-- The result is the one of the function without its variables. -/
theorem compareTopicRouteData_fst (olddata nowdata : TopicRouteData) :
    (compareTopicRouteData olddata nowdata).1 = topicRouteDataIsChange olddata nowdata := by
  show (!olddata.sortQueues.sortBrokers.operatorEq nowdata.sortQueues.sortBrokers) = _
  rw [topicRouteDataIsChange, Bool.eq_iff_iff, Bool.not_eq_true', Bool.eq_false_iff, ne_eq,
    operatorEq_iff, decide_eq_true_eq, TopicRouteData.mk.injEq]
  simp only [TopicRouteData.sortQueues, TopicRouteData.sortBrokers]
  tauto

/-- Assumes: the broker names in each list of the old route are distinct. A route has not changed
exactly when it is the same up to the order of its two lists, and the comparison leaves both routes
as they are. -/
theorem topicRouteDataIsChange_iff (hold : olddata.DistinctNames) :
    (topicRouteDataIsChange olddata nowdata = false ↔ olddata.SameUpToOrder nowdata) ∧
      (compareTopicRouteData olddata nowdata).1 = topicRouteDataIsChange olddata nowdata ∧
      (compareTopicRouteData olddata nowdata).2.olddata = olddata ∧
      (compareTopicRouteData olddata nowdata).2.nowdata = nowdata := by
  refine ⟨?_, compareTopicRouteData_fst olddata nowdata, rfl, rfl⟩
  rw [← sorted_eq_iff hold, ← operatorEq_iff, ← compareTopicRouteData_fst]
  show (!olddata.sortQueues.sortBrokers.operatorEq nowdata.sortQueues.sortBrokers) = false ↔ _
  rw [Bool.not_eq_false']

/-- Two routes with the same two brokers in another order. -/
theorem topicRouteDataIsChange_of_reordering :
    let first : TopicRouteData := ⟨[], [⟨[97], 1, 1, 6⟩, ⟨[98], 2, 2, 6⟩], []⟩
    let second : TopicRouteData := ⟨[], [⟨[98], 2, 2, 6⟩, ⟨[97], 1, 1, 6⟩], []⟩
    first.DistinctNames ∧ topicRouteDataIsChange first second = false := by
  intro first second
  have hfirst : first.DistinctNames := ⟨by decide, by decide⟩
  have hsame : first.SameUpToOrder second := ⟨rfl, List.Perm.swap _ _ _, List.Perm.nil⟩
  exact ⟨hfirst, (topicRouteDataIsChange_iff hfirst).1.mpr hsame⟩

end RocketMQClient.Factory
