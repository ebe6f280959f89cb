import RocketMQClient.Common.FilterAPI

/-!
# The subscriptions of a pull consumer

A pull consumer has its registered topics in two places. `copySubscription` puts them into the table
of the rebalance, and `subscriptions` returns them for the heartbeat and for the refresh of the
routes. The second one gives its two strings to `buildSubscriptionData` the other way round, so that
each of its entries has the group as its topic and a topic as its expression.

`ViewsAgree` is what the two places are for. They agree exactly when every registered topic is the
name of the group and one of the two expressions for all messages (`viewsAgree_iff`).
-/

set_option autoImplicit false
set_option relaxedAutoImplicit false

namespace RocketMQClient.Consumer

open Library Factory Common

/-- A set of subscriptions. -/
abbrev SubscriptionSet := OrderedMap SubscriptionData.Key SubscriptionData

/-- The table of a rebalance: the subscription of each topic. -/
abbrev SubscriptionInner := OrderedMap ByteString SubscriptionData

namespace DefaultMQPullConsumerImpl

/-- One round of the loop of `subscriptions`. An exception leaves the pointer NULL, and the next
statement writes through it; `memory` is the version of a new subscription. -/
def addSubscription (memory : ByteString → ℤ) (groupName : ByteString) (result : SubscriptionSet)
    (topic : ByteString) : Option SubscriptionSet :=
  match FilterAPI.buildSubscriptionData (memory topic) groupName topic with
  | .error _ => none
  | .ok ms =>
    let ms := { ms with subVersion := 0 }
    some (result.insert ms.key ms)

/-- The subscriptions for the heartbeat and the routes, or none for a write through NULL. -/
def subscriptions (memory : ByteString → ℤ) (groupName : ByteString)
    (topics : OrderedSet ByteString) : Option SubscriptionSet :=
  topics.toList.foldlM (addSubscription memory groupName) OrderedMap.empty

/-- One round of the loop of `copySubscription`. -/
def copyTopic (memory : ByteString → ℤ) (inner : SubscriptionInner) (topic : ByteString) :
    Except MQException SubscriptionInner :=
  match FilterAPI.buildSubscriptionData (memory topic) topic SubscriptionData.subAll with
  | .error _ => .error ⟨.client, ofString "subscription exception", -1⟩
  | .ok subscriptionData => .ok (inner.assign topic subscriptionData)

/-- Puts the registered topics into the table of the rebalance. -/
def copySubscription (memory : ByteString → ℤ) (registerTopics : OrderedSet ByteString)
    (inner : SubscriptionInner) : Except MQException SubscriptionInner :=
  registerTopics.toList.foldlM (copyTopic memory) inner

end DefaultMQPullConsumerImpl

open DefaultMQPullConsumerImpl

/-- The topics whose routes `updateTopicRouteInfoFromNameServer` refreshes: those of the
subscriptions of each consumer, and those that each producer publishes. -/
def MQClientFactory.updateTopicRouteInfoFromNameServer
    (consumerTable : OrderedMap ByteString SubscriptionSet)
    (producerTable : OrderedMap ByteString (OrderedSet ByteString)) : OrderedSet ByteString :=
  let topicList := consumerTable.values.foldl (fun topicList subList ↦
    OrderedSet.insertAll topicList (subList.values.map SubscriptionData.topic)) OrderedSet.empty
  producerTable.values.foldl (fun topicList pubList ↦
    OrderedSet.insertAll topicList pubList.toList) topicList

/-- The topic and the expression of a subscription. -/
def topicAndExpression (data : SubscriptionData) : ByteString × ByteString :=
  (data.topic, data.subString)

/-- Each registered topic has one entry, with the expression for all messages, among the
subscriptions and in the table of the rebalance, and its route is refreshed whatever other consumers
and producers there are. -/
structure ViewsAgree (memory : ByteString → ℤ) (groupName : ByteString)
    (topics : OrderedSet ByteString) : Prop where
  views : ∃ result inner, subscriptions memory groupName topics = some result ∧
    copySubscription memory topics OrderedMap.empty = .ok inner ∧
    (result.values.map topicAndExpression).Perm
      (topics.toList.map fun topic ↦ (topic, SubscriptionData.subAll)) ∧
    (result.values.map topicAndExpression).Perm (inner.values.map topicAndExpression)
  polled : ∀ result, subscriptions memory groupName topics = some result →
    ∀ (consumerTable : OrderedMap ByteString SubscriptionSet)
      (producerTable : OrderedMap ByteString (OrderedSet ByteString)),
      result ∈ consumerTable.values →
        ∀ topic ∈ topics,
          topic ∈ MQClientFactory.updateTopicRouteInfoFromNameServer consumerTable producerTable

/-! ### The table of the rebalance -/

section

variable {memory : ByteString → ℤ} {groupName topic : ByteString} {topics : OrderedSet ByteString}

/-- The table gets every topic, with the expression for all messages. -/
theorem exists_copySubscription (memory : ByteString → ℤ) (topics : OrderedSet ByteString) :
    ∃ inner, copySubscription memory topics OrderedMap.empty = .ok inner ∧
      inner.values.map topicAndExpression =
        topics.toList.map fun topic ↦ (topic, SubscriptionData.subAll) := by
  choose data hbuild hdata using fun topic ↦
    FilterAPI.exists_buildSubscriptionData (memory topic) topic SubscriptionData.subAll
  have hstep : copyTopic memory = fun inner topic ↦
      (pure (inner.assign topic (data topic)) : Except MQException SubscriptionInner) := by
    funext inner topic
    simp only [copyTopic, hbuild]
    rfl
  refine ⟨OrderedMap.empty.assignPairs (topics.toList.map fun topic ↦ (topic, data topic)), ?_, ?_⟩
  · rw [copySubscription, hstep, List.foldlM_pure, OrderedMap.assignPairs, List.foldl_map]
    rfl
  · have hsorted : ((OrderedMap.empty : SubscriptionInner).entries ++
        topics.toList.map fun topic ↦ (topic, data topic)).Pairwise
          fun (earlier later : ByteString × SubscriptionData) ↦ earlier.1 < later.1 :=
      List.pairwise_map.mpr topics.toList_sorted
    rw [OrderedMap.values, OrderedMap.entries_assignPairs_above hsorted, List.map_map]
    refine (List.map_map).trans (List.map_congr_left fun topic _ ↦ ?_)
    have hexpression : (data topic).subString = SubscriptionData.subAll :=
      (hdata topic).subString_eq
    exact Prod.ext (hdata topic).topic_eq hexpression

/-! ### The subscriptions -/

/-- The expression that a topic becomes. -/
def expressionOf (topic : ByteString) : ByteString :=
  if topic = [] then SubscriptionData.subAll else topic

theorem expressionOf_eq_subAll_iff :
    expressionOf topic = SubscriptionData.subAll ↔
      topic = [] ∨ topic = SubscriptionData.subAll := by
  unfold expressionOf
  split_ifs with hempty
  · exact iff_of_true rfl (Or.inl hempty)
  · simp [hempty]

/-- The loop inserts an entry of the group for each topic. -/
theorem exists_subscriptions (memory : ByteString → ℤ) (groupName : ByteString)
    (topics : OrderedSet ByteString) :
    ∃ entryOf : ByteString → SubscriptionData,
      subscriptions memory groupName topics =
        some (OrderedMap.empty.insertAll SubscriptionData.key (topics.toList.map entryOf)) ∧
      ∀ topic, topicAndExpression (entryOf topic) = (groupName, expressionOf topic) := by
  choose data hbuild hdata using fun topic ↦
    FilterAPI.exists_buildSubscriptionData (memory topic) groupName topic
  have hstep : addSubscription memory groupName = fun result topic ↦
      (pure (result.insert { data topic with subVersion := 0 }.key
        { data topic with subVersion := 0 }) : Option SubscriptionSet) := by
    funext result topic
    simp only [addSubscription, hbuild]
    rfl
  refine ⟨fun topic ↦ { data topic with subVersion := 0 }, ?_, fun topic ↦ ?_⟩
  · rw [subscriptions, hstep, List.foldlM_pure, OrderedMap.insertAll, List.foldl_map]
    rfl
  · exact Prod.ext (hdata topic).topic_eq (hdata topic).subString_eq

/-- The topics and expressions of the subscriptions are distinct, and the topic of each is the
group. -/
theorem map_subscriptions {result : SubscriptionSet}
    (hresult : subscriptions memory groupName topics = some result) :
    (result.values.map topicAndExpression).Nodup ∧
      ∀ pair, pair ∈ result.values.map topicAndExpression ↔
        ∃ topic ∈ topics, (groupName, expressionOf topic) = pair := by
  obtain ⟨entryOf, hsubscriptions, hentry⟩ := exists_subscriptions memory groupName topics
  obtain rfl := Option.some.inj (hresult.symm.trans hsubscriptions)
  have hkeyed := (OrderedMap.keyed_empty SubscriptionData.key).insertAll (topics.toList.map entryOf)
  have hvalues : (OrderedMap.insertAll SubscriptionData.key OrderedMap.empty
      (topics.toList.map entryOf)).values.map topicAndExpression =
        (OrderedMap.insertAll SubscriptionData.key OrderedMap.empty
          (topics.toList.map entryOf)).keys.map ofLex := by
    rw [← hkeyed.map_values, List.map_map]
    rfl
  rw [hvalues]
  refine ⟨?_, fun pair ↦ ?_⟩
  · refine List.Nodup.map ofLex.injective ?_
    exact List.pairwise_map.mpr ((OrderedMap.sorted _).imp fun hlt ↦ hlt.ne)
  · have hmem : pair ∈ (OrderedMap.insertAll SubscriptionData.key OrderedMap.empty
        (topics.toList.map entryOf)).keys.map ofLex ↔
          toLex pair ∈ OrderedMap.insertAll SubscriptionData.key OrderedMap.empty
            (topics.toList.map entryOf) := by
      rw [List.mem_map]
      exact ⟨fun ⟨key, hkey, heq⟩ ↦ heq ▸ hkey, fun hkey ↦ ⟨toLex pair, hkey, rfl⟩⟩
    rw [hmem, OrderedMap.mem_insertAll]
    constructor
    · rintro (hnone | ⟨value, hvalue, hkey⟩)
      · exact absurd hnone List.not_mem_nil
      · obtain ⟨topic, htopic, rfl⟩ := List.mem_map.mp hvalue
        exact ⟨topic, htopic, (hentry topic).symm.trans (toLex.injective hkey)⟩
    · rintro ⟨topic, htopic, rfl⟩
      exact Or.inr ⟨entryOf topic, List.mem_map_of_mem htopic, congrArg toLex (hentry topic)⟩

/-! ### The routes -/

/-- The topics of the consumers are refreshed. -/
theorem mem_updateTopicRouteInfoFromNameServer
    {consumerTable : OrderedMap ByteString SubscriptionSet}
    {result : SubscriptionSet} (hresult : result ∈ consumerTable.values) {data : SubscriptionData}
    (hdata : data ∈ result.values)
    (producerTable : OrderedMap ByteString (OrderedSet ByteString)) :
    data.topic ∈
      MQClientFactory.updateTopicRouteInfoFromNameServer consumerTable producerTable := by
  have hloop : ∀ {Item : Type} (topicsOf : Item → List ByteString) (items : List Item)
      (topicList : OrderedSet ByteString) (topic : ByteString),
      topic ∈ items.foldl (fun topicList item ↦
        OrderedSet.insertAll topicList (topicsOf item)) topicList ↔
        topic ∈ topicList ∨ ∃ item ∈ items, topic ∈ topicsOf item := by
    intro Item topicsOf items
    induction items with
    | nil => simp
    | cons item rest ih =>
      intro topicList topic
      rw [List.foldl_cons, ih, OrderedSet.mem_insertAll, List.exists_mem_cons_iff, or_assoc]
  unfold MQClientFactory.updateTopicRouteInfoFromNameServer
  simp only
  rw [hloop]
  refine Or.inl ((hloop _ _ _ _).mpr (Or.inr ⟨result, hresult, ?_⟩))
  exact List.mem_map_of_mem hdata

/-! ### When the views agree -/

/-- Topics that are all the group, which is one of the expressions for all messages, are seen alike
in both places. -/
theorem perm_of_group (htopics : ∀ topic ∈ topics,
      topic = groupName ∧ (groupName = [] ∨ groupName = SubscriptionData.subAll))
    {result : SubscriptionSet} (hresult : subscriptions memory groupName topics = some result) :
    (result.values.map topicAndExpression).Perm
      (topics.toList.map fun topic ↦ (topic, SubscriptionData.subAll)) := by
  obtain ⟨hnodup, hmem⟩ := map_subscriptions hresult
  have hinjective : Function.Injective fun topic : ByteString ↦ (topic, SubscriptionData.subAll) :=
    fun first second hsame ↦ congrArg Prod.fst hsame
  refine (List.perm_ext_iff_of_nodup hnodup (topics.toList_nodup.map hinjective)).mpr fun pair ↦ ?_
  rw [hmem, List.mem_map]
  refine exists_congr fun topic ↦ and_congr_right fun htopic ↦ ?_
  obtain ⟨rfl, hgroup⟩ := htopics topic htopic
  rw [expressionOf_eq_subAll_iff.mpr hgroup]

theorem viewsAgree_iff :
    ViewsAgree memory groupName topics ↔ ∀ topic ∈ topics,
      topic = groupName ∧ (groupName = [] ∨ groupName = SubscriptionData.subAll) := by
  constructor
  · rintro ⟨⟨result, -, hresult, -, hperm, -⟩, -⟩ topic htopic
    obtain ⟨-, hmem⟩ := map_subscriptions hresult
    have hentry : (topic, SubscriptionData.subAll) ∈ result.values.map topicAndExpression :=
      hperm.mem_iff.mpr (List.mem_map.mpr ⟨topic, htopic, rfl⟩)
    obtain ⟨_, -, hpair⟩ := (hmem _).mp hentry
    have hgroup : groupName = topic := congrArg Prod.fst hpair
    obtain ⟨other, -, hother⟩ := List.mem_map.mp
      (hperm.mem_iff.mp ((hmem _).mpr ⟨topic, htopic, rfl⟩))
    have hexpression := congrArg Prod.snd hother
    rw [hgroup]
    exact ⟨rfl, expressionOf_eq_subAll_iff.mp hexpression.symm⟩
  · intro htopics
    obtain ⟨inner, hinner, hvalues⟩ := exists_copySubscription memory topics
    obtain ⟨entryOf, hsubscriptions, -⟩ := exists_subscriptions memory groupName topics
    refine ⟨⟨_, inner, hsubscriptions, hinner, perm_of_group htopics hsubscriptions,
      hvalues ▸ perm_of_group htopics hsubscriptions⟩, ?_⟩
    intro result hresult consumerTable producerTable hconsumer topic htopic
    have hentry := (perm_of_group htopics hresult).mem_iff.mpr
      (List.mem_map.mpr ⟨topic, htopic, rfl⟩)
    obtain ⟨data, hdata, hpair⟩ := List.mem_map.mp hentry
    have hsame : data.topic = topic := congrArg Prod.fst hpair
    exact hsame ▸ mem_updateTopicRouteInfoFromNameServer hconsumer hdata producerTable

end

/-- The topic `T` of the group `G`: the heartbeat and the routes get the topic `G`. -/
theorem not_viewsAgree_topic :
    ¬ ViewsAgree (fun _ ↦ 0) (ofString "G") (OrderedSet.empty.insert (ofString "T")) := by
  rintro ⟨⟨result, -, hresult, -, hperm, -⟩, -⟩
  obtain ⟨-, hmem⟩ := map_subscriptions hresult
  have hentry := hperm.mem_iff.mpr
    (List.mem_map.mpr ⟨ofString "T", OrderedSet.mem_insert.mpr (Or.inl rfl), rfl⟩)
  obtain ⟨_, -, hpair⟩ := (hmem _).mp hentry
  have hgroup : ofString "G" = ofString "T" := congrArg Prod.fst hpair
  exact absurd hgroup (by decide)

end RocketMQClient.Consumer
