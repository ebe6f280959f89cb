import RocketMQClient.Consumer.ProcessQueueTable
import RocketMQClient.Consumer.RebalanceStability

/-!
# A failed allocation

In clustering mode `rebalanceByTopic` asks the strategy for the queues of this client and catches an
`MQException`, but goes on with the pointer `allocateResult`, which it has not initialized. What the
pointer holds is an argument of the model here: nothing for NULL, or the queues of the vector that
it points to. Where the result of `RebalanceView.rebalanceByTopic` is defined, the pointer makes no
difference (`rebalanceByTopic_eq_of_defined`).

`applies_allocation_iff` says when a rebalance applies the allocation of the same call and nothing
else. The averaging strategy throws when the client has no id or the topic has no queue, and then
the process queues of the topic are dropped even if the pointer is NULL.

The pointer is an argument and not a choice of the model, so that a statement for every value of it
covers whatever the memory held. Only the catch of an `MQException` leads on with it: an index that
`at` rejects leaves the function, and then nothing is applied.
-/

set_option autoImplicit false
set_option relaxedAutoImplicit false

namespace RocketMQClient.Consumer

open Library Messages Factory

namespace RebalanceView

/-! ### The operations of the source -/

/-- The queues that `rebalanceByTopic` hands to the update of the table, for what the uninitialized
pointer holds; nothing when it does not get that far. -/
def handedOver (view : RebalanceView) (uninitialized : Option (List MessageQueue))
    (topic : ByteString) : Option (List MessageQueue) :=
  match view.messageModel, view.topicSubscribeInfoTable.find? topic with
  | _, none => none
  | .broadcasting, some mqSet => some mqSet
  | .clustering, some mqSet =>
    if view.consumerIdList topic = [] then none
    else
      match view.allocation topic mqSet with
      | .error .outOfRange => none
      | .error .divisionFault => none
      | .error (.clientException _) => some (allocateResultSet uninitialized)
      | .ok allocateResult => some (allocateResultSet allocateResult)

/-- Rebalances one topic, for what the uninitialized pointer holds. -/
def rebalanceByTopicWith (view : RebalanceView) (uninitialized : Option (List MessageQueue))
    (computePullFromWhere : MessageQueue → ℤ) (now : ℤ) (run : RebalanceRun) (topic : ByteString) :
    RebalanceRun :=
  match view.handedOver uninitialized topic with
  | none => run
  | some mqSet => view.updateWith computePullFromWhere now run topic mqSet

/-- What a rebalance of a topic promises: it hands over only queues that the strategy has returned,
and when the strategy throws it leaves the table as it is. -/
structure AppliesAllocation (view : RebalanceView) (uninitialized : Option (List MessageQueue))
    (computePullFromWhere : MessageQueue → ℤ) (now : ℤ) (run : RebalanceRun) (topic : ByteString)
    (mqSet : List MessageQueue) : Prop where
  allocated : ∀ handed ∈ view.handedOver uninitialized topic, ∀ queue ∈ handed,
    ∃ result, view.allocation topic mqSet = .ok (some result) ∧ queue ∈ result
  unchanged : ∀ error, view.allocation topic mqSet = .error error →
    (view.rebalanceByTopicWith uninitialized computePullFromWhere now run
      topic).rebalanceImpl.processQueueTable = run.rebalanceImpl.processQueueTable

/-! ### The set of queues -/

theorem insertQueue_ne_nil (queue : MessageQueue) (queues : List MessageQueue) :
    insertQueue queue queues ≠ [] := by
  cases queues with
  | nil => exact List.cons_ne_nil _ _
  | cons head rest =>
    rw [insertQueue]
    split_ifs <;> exact List.cons_ne_nil _ _

/-- The set is empty exactly when there is no vector or an empty one. -/
theorem allocateResultSet_eq_nil {allocateResult : Option (List MessageQueue)} :
    allocateResultSet allocateResult = [] ↔ allocateResult.getD [] = [] := by
  rw [allocateResultSet]
  induction allocateResult.getD [] using List.reverseRecOn with
  | nil => simp
  | append_singleton queues last =>
    rw [List.foldl_append, List.foldl_cons, List.foldl_nil]
    exact iff_of_false (insertQueue_ne_nil last _) (by simp)

/-! ### One topic -/

section Topic

variable {view : RebalanceView} {uninitialized : Option (List MessageQueue)}
  {computePullFromWhere : MessageQueue → ℤ} {now : ℤ} {run : RebalanceRun} {topic : ByteString}
  {mqSet : List MessageQueue}

/-- A rebalance of a topic with a defined result does not depend on what the pointer holds. -/
theorem rebalanceByTopic_eq_of_defined (hdefined : view.topicOutcome topic ≠ .undefined) :
    view.rebalanceByTopic computePullFromWhere now run topic =
      some (view.rebalanceByTopicWith uninitialized computePullFromWhere now run topic) := by
  unfold topicOutcome at hdefined
  unfold rebalanceByTopic rebalanceByTopicWith topicOutcome handedOver
  cases hfind : view.topicSubscribeInfoTable.find? topic with
  | none => rfl
  | some mqSet =>
    cases hmodel : view.messageModel with
    | broadcasting => rfl
    | clustering =>
      simp only [hfind, hmodel] at hdefined ⊢
      split_ifs at hdefined ⊢
      · rfl
      · cases hallocation : view.allocation topic mqSet with
        | ok allocateResult => rfl
        | error error =>
          cases error with
          | outOfRange => rfl
          | divisionFault => exact absurd (by rw [hallocation]) hdefined
          | clientException message => exact absurd (by rw [hallocation]) hdefined

/-- An update with no queue leaves the table as it is exactly when it has no entry of the topic. -/
theorem processQueueTable_of_no_queue {impl : RebalanceImpl} {input : RebalanceInput}
    (hnone : input.mqSet = []) :
    (impl.updateProcessQueueTableInRebalance input).rebalanceImpl.processQueueTable =
        impl.processQueueTable ↔
      ∀ entry ∈ impl.processQueueTable.entries, entry.1.topic ≠ input.topic := by
  have hloop : impl.updateProcessQueueTableInRebalance input = impl.removalLoop input := by
    rw [RebalanceImpl.updateProcessQueueTableInRebalance_eq, hnone, List.foldl_nil]
  rw [hloop]
  have hremoved := RebalanceImpl.removed_removalLoop impl input
  constructor
  · intro hsame entry hentry htopic
    have hmem := OrderedMap.key_mem hentry
    rw [← hsame] at hmem
    have hallocated := RebalanceImpl.mem_mqSet_of_mem_removalLoop htopic hmem
    rw [hnone] at hallocated
    exact absurd hallocated List.not_mem_nil
  · intro hother
    refine OrderedMap.ext_mem fun entry ↦ ⟨hremoved.shrinks.entries entry, fun hentry ↦ ?_⟩
    exact hremoved.otherTopic entry hentry (hother entry hentry)

/-- What is handed over in clustering mode. -/
theorem handedOver_clustering (hmodel : view.messageModel = .clustering)
    (hinfo : view.topicSubscribeInfoTable.find? topic = some mqSet)
    (hcids : view.consumerIdList topic ≠ []) :
    view.handedOver uninitialized topic = match view.allocation topic mqSet with
      | .error .outOfRange => none
      | .error .divisionFault => none
      | .error (.clientException _) => some (allocateResultSet uninitialized)
      | .ok allocateResult => some (allocateResultSet allocateResult) := by
  unfold handedOver
  rw [hmodel, hinfo]
  dsimp only
  rw [if_neg hcids]

/-- A call that returns is applied. -/
theorem appliesAllocation_of_ok (hmodel : view.messageModel = .clustering)
    (hinfo : view.topicSubscribeInfoTable.find? topic = some mqSet)
    (hcids : view.consumerIdList topic ≠ []) {allocateResult : Option (List MessageQueue)}
    (hallocation : view.allocation topic mqSet = .ok allocateResult) :
    view.AppliesAllocation uninitialized computePullFromWhere now run topic mqSet := by
  refine ⟨fun handed hhanded queue hqueue ↦ ?_, fun error herror ↦ ?_⟩
  · rw [handedOver_clustering hmodel hinfo hcids, hallocation] at hhanded
    obtain rfl := Option.some.inj hhanded
    obtain ⟨result, rfl, hmem⟩ := mem_of_mem_allocateResultSet hqueue
    exact ⟨result, hallocation, hmem⟩
  · rw [hallocation] at herror
    exact absurd herror (by simp)

/-- An error that is no `MQException` leaves the rebalance of the topic. -/
theorem appliesAllocation_of_error (hmodel : view.messageModel = .clustering)
    (hinfo : view.topicSubscribeInfoTable.find? topic = some mqSet)
    (hcids : view.consumerIdList topic ≠ []) {error : AllocateError}
    (hallocation : view.allocation topic mqSet = .error error)
    (hother : ∀ message, error ≠ .clientException message) :
    view.AppliesAllocation uninitialized computePullFromWhere now run topic mqSet := by
  have hnone : view.handedOver uninitialized topic = none := by
    rw [handedOver_clustering hmodel hinfo hcids, hallocation]
    cases error with
    | outOfRange => rfl
    | divisionFault => rfl
    | clientException message => exact absurd rfl (hother message)
  refine ⟨fun handed hhanded ↦ ?_, fun error _ ↦ ?_⟩
  · rw [hnone] at hhanded
    exact absurd hhanded (by simp)
  · rw [rebalanceByTopicWith, hnone]

/-- A caught exception: whatever the pointer holds is applied. -/
theorem appliesAllocation_of_exception_iff (hmodel : view.messageModel = .clustering)
    (hinfo : view.topicSubscribeInfoTable.find? topic = some mqSet)
    (hcids : view.consumerIdList topic ≠ []) {message : String}
    (hallocation : view.allocation topic mqSet = .error (.clientException message)) :
    view.AppliesAllocation uninitialized computePullFromWhere now run topic mqSet ↔
      uninitialized.getD [] = [] ∧
        ∀ entry ∈ run.rebalanceImpl.processQueueTable.entries, entry.1.topic ≠ topic := by
  have hhanded : view.handedOver uninitialized topic = some (allocateResultSet uninitialized) := by
    rw [handedOver_clustering hmodel hinfo hcids, hallocation]
  have htable : allocateResultSet uninitialized = [] →
      ((view.rebalanceByTopicWith uninitialized computePullFromWhere now run
          topic).rebalanceImpl.processQueueTable = run.rebalanceImpl.processQueueTable ↔
        ∀ entry ∈ run.rebalanceImpl.processQueueTable.entries, entry.1.topic ≠ topic) := by
    intro hnil
    rw [rebalanceByTopicWith, hhanded, hnil]
    exact processQueueTable_of_no_queue rfl
  rw [← allocateResultSet_eq_nil]
  constructor
  · intro happlies
    have hnil : allocateResultSet uninitialized = [] := by
      refine List.eq_nil_iff_forall_not_mem.mpr fun queue hqueue ↦ ?_
      obtain ⟨result, hok, -⟩ := happlies.allocated _ hhanded queue hqueue
      rw [hallocation] at hok
      exact absurd hok (by simp)
    exact ⟨hnil, (htable hnil).mp (happlies.unchanged _ hallocation)⟩
  · rintro ⟨hnil, hother⟩
    refine ⟨fun handed hmem queue hqueue ↦ ?_, fun _ _ ↦ (htable hnil).mpr hother⟩
    rw [hhanded, hnil] at hmem
    obtain rfl := Option.some.inj hmem
    exact absurd hqueue List.not_mem_nil

/-- The access to a queue throws no client exception. -/
theorem queueAt_ne_clientException (mqAll : List MessageQueue) (position : ℤ) (message : String) :
    queueAt mqAll position ≠ .error (.clientException message) := by
  unfold queueAt vectorAt
  dsimp only
  split_ifs
  · simp
  · split <;> simp
  · simp

/-- Nor does the loop of the averaging strategy. -/
theorem collect_ne_clientException (mqAll : List MessageQueue) (start : ℤ) (count : ℕ)
    (message : String) : collect mqAll start count ≠ .error (.clientException message) := by
  induction count with
  | zero => simp [collect]
  | succ count ih =>
    have hlast := queueAt_ne_clientException mqAll (toInt32 (start + count)) message
    rw [collect]
    generalize queueAt mqAll (toInt32 (start + count)) = next at hlast ⊢
    intro herror
    cases hearlier : collect mqAll start count with
    | error error =>
      rw [hearlier] at herror ih
      exact ih herror
    | ok earlier =>
      cases next with
      | error error =>
        rw [hearlier] at herror
        obtain rfl : error = .clientException message := Except.error.inj herror
        exact hlast rfl
      | ok queue =>
        rw [hearlier] at herror
        exact absurd herror (by simp [bind, Except.bind, pure, Except.pure])

theorem allocateAt_ne_clientException (mqAll : List MessageQueue) (cidAllSize index : ℤ)
    (message : String) : allocateAt mqAll cidAllSize index ≠ .error (.clientException message) := by
  unfold allocateAt
  dsimp only
  split_ifs
  · exact collect_ne_clientException _ _ _ message
  · simp

/-- The averaging strategy throws when the client has no id or the topic no queue. -/
theorem allocate_clientException_iff {currentCID : ByteString} {cidAll : List ByteString}
    (hcids : cidAll ≠ []) :
    (∃ message, allocate currentCID mqSet cidAll = .error (.clientException message)) ↔
      currentCID = [] ∨ mqSet = [] := by
  unfold allocate
  split_ifs with hid hqueues hcidAll
  · simp [List.isEmpty_iff.mp hid]
  · simp [List.isEmpty_iff.mp hqueues]
  · exact absurd (List.isEmpty_iff.mp hcidAll) hcids
  · refine iff_of_false ?_ (by simp_all)
    rintro ⟨message, herror⟩
    cases hposition : cidAll.findIdx? (· == currentCID) with
    | none => simp [hposition] at herror
    | some position =>
      simp only [hposition] at herror
      split_ifs at herror
      have hat := allocateAt_ne_clientException mqSet (toInt32 cidAll.length) (toInt32 position)
        message
      generalize allocateAt mqSet (toInt32 cidAll.length) (toInt32 position) = allocated
        at herror hat
      cases allocated with
      | ok result => exact absurd herror (by simp [Except.map])
      | error error =>
        obtain rfl : error = .clientException message := Except.error.inj herror
        exact hat rfl

/-- Assumes: clustering mode, queues known for the topic, and a list of client ids. A rebalance of
the topic applies the allocation of the same call and nothing else exactly when the strategy throws
no `MQException`, or the uninitialized pointer leads to no queue and the table has no entry of the
topic; the averaging strategy throws when the client has no id or the topic no queue. -/
theorem applies_allocation_iff (hmodel : view.messageModel = .clustering)
    (hinfo : view.topicSubscribeInfoTable.find? topic = some mqSet)
    (hcids : view.consumerIdList topic ≠ []) :
    (view.AppliesAllocation uninitialized computePullFromWhere now run topic mqSet ↔
      (∀ message, view.allocation topic mqSet ≠ .error (.clientException message)) ∨
        uninitialized.getD [] = [] ∧
          ∀ entry ∈ run.rebalanceImpl.processQueueTable.entries, entry.1.topic ≠ topic) ∧
      (view.strategy = allocateMessageQueueAveragely →
        ((∃ message, view.allocation topic mqSet = .error (.clientException message)) ↔
          view.clientId = [] ∨ mqSet = [])) := by
  constructor
  · cases hallocation : view.allocation topic mqSet with
    | ok allocateResult =>
      exact iff_of_true (appliesAllocation_of_ok hmodel hinfo hcids hallocation)
        (Or.inl (by simp))
    | error error =>
      cases error with
      | outOfRange =>
        exact iff_of_true (appliesAllocation_of_error hmodel hinfo hcids hallocation (by simp))
          (Or.inl (by simp))
      | divisionFault =>
        exact iff_of_true (appliesAllocation_of_error hmodel hinfo hcids hallocation (by simp))
          (Or.inl (by simp))
      | clientException message =>
        rw [appliesAllocation_of_exception_iff hmodel hinfo hcids hallocation]
        exact (or_iff_right fun hnone ↦ hnone message rfl).symm
  · intro hstrategy
    rw [allocation, hstrategy]
    refine allocate_clientException_iff fun hnil ↦ hcids ?_
    exact (List.mergeSort_perm _ _).symm.trans (List.Perm.of_eq hnil) |>.eq_nil

end Topic

/-! ### A topic without queues -/

/-- A client of a group of its own, for a topic with these queues. -/
def oneClientView (mqSet : List MessageQueue) (ofTopic : ∀ queue ∈ mqSet, queue.topic = [1]) :
    RebalanceView where
  messageModel := .clustering
  subTable := [[1]]
  topicSubscribeInfoTable := OrderedMap.empty.assign [1] mqSet
  ofTopic := by
    intro entry hentry
    rcases OrderedMap.mem_entries_assign.mp hentry with rfl | ⟨hbefore, -⟩
    · exact ofTopic
    · exact absurd hbefore List.not_mem_nil
  consumerIdList := fun _ ↦ [[7]]
  clientId := [7]
  strategy := allocateMessageQueueAveragely
  topicRouteTable := OrderedMap.empty

/-- A table with one process queue of the topic. -/
def oneQueueRun : RebalanceRun where
  rebalanceImpl := { RebalanceImpl.initial with
    processQueueTable := OrderedMap.empty.assign ⟨[1], [2], 0⟩ 0, allocated := 1 }
  dispatched := []
  reports := []

/-- One queue for one client: the strategy does not throw, so that it does not matter that the
pointer led to a queue of another topic. -/
theorem applies_allocation_of_one_queue :
    (oneClientView [⟨[1], [2], 0⟩] (by decide)).AppliesAllocation (some [⟨[9], [2], 0⟩])
      (fun _ ↦ 0) 0 oneQueueRun [1] [⟨[1], [2], 0⟩] := by
  have hboth := @applies_allocation_iff (oneClientView [⟨[1], [2], 0⟩] (by decide))
    (some [⟨[9], [2], 0⟩]) (fun _ ↦ 0) 0 oneQueueRun [1] [⟨[1], [2], 0⟩] rfl rfl (by decide)
  refine hboth.1.mpr (Or.inl fun message hthrows ↦ ?_)
  exact absurd ((hboth.2 rfl).mp ⟨message, hthrows⟩) (by decide)

/-- The queues of a topic are no longer readable: whatever the pointer holds, the process queue of
the topic is dropped or a queue is handed over that the strategy has not returned. -/
theorem empty_topic_applied :
    ¬ ∃ uninitialized : Option (List MessageQueue),
      (oneClientView [] (by simp)).AppliesAllocation uninitialized (fun _ ↦ 0) 0 oneQueueRun
        [1] [] := by
  rintro ⟨uninitialized, happlies⟩
  have hthrows : (oneClientView [] (by simp)).allocation [1] [] =
      .error (.clientException "mqAll is empty") := rfl
  have hother := ((appliesAllocation_of_exception_iff rfl rfl (by decide) hthrows).mp happlies).2
  exact hother (⟨[1], [2], 0⟩, 0) (by decide) rfl

end RebalanceView

end RocketMQClient.Consumer
