import RocketMQClient.Consumer.Allocation
import RocketMQClient.Consumer.OffsetStore
import RocketMQClient.Consumer.ProcessQueueTable
import RocketMQClient.Factory.TopicRoute

/-!
# Two rebalances in a row

`doRebalance` forgets which brokers changed their master, rebalances one subscribed topic after
another, and drops the entries of topics without a subscription. A second run that sees the same
routes and the same consumer ids, and whose offset queries succeed, should find nothing to do.

The client remembers one master address for each broker, but compares it with the address that the
route of each topic gives, and it never remembers an empty address. And where the strategy throws,
the rebalance of the topic goes on with a pointer that has no value, so that its result is not
defined. `doRebalance_quiet_iff` says that two runs have a result and the second is quiet exactly
when the strategy returns for every topic (`Returns`) and the first one starts from a `Settled`
state: the routes give each broker one address that is not empty, or nothing that disagrees with
them is or gets remembered. `doRebalance_not_quiet` has two topics whose routes disagree on a
broker.

The proof works with the updates of the topics whose queues are known (`updateAndTruncate`), of
which a defined rebalance consists (`mem_doRebalance_iff_returns`): the remembered addresses agree
with the routes after one rebalance (`agreed_updateAndTruncate_iff`), and where they do the next one
finds every topic in place.

What a topic hands over is settled before the table is touched (`topicOutcome`), which separates the
strategy from the update. The addresses are then followed through the loop over the topics: once
known an address stays known (`find?_brokerMaster_foldl_ne_none`), and the first queue of a broker
that is missing makes it known.
-/

set_option autoImplicit false
set_option relaxedAutoImplicit false

namespace RocketMQClient.Consumer

open Library Messages Factory

/-! ### The operations of the source -/

/-- An allocation strategy. It divides the queues it is given among the clients, so that what a
client gets is among them. -/
structure AllocateStrategy where
  allocate : ByteString → List MessageQueue → List ByteString →
    Except AllocateError (Option (List MessageQueue))
  mem_of_allocate : ∀ {currentCID mqAll cidAll result},
    allocate currentCID mqAll cidAll = .ok (some result) → ∀ queue ∈ result, queue ∈ mqAll

/-- What a rebalance reads: the message model, the subscribed topics, the queues of each topic, the
ids of the consumers of the group, the id of this client, its strategy, and the routes. -/
structure RebalanceView where
  messageModel : MessageModel
  subTable : List ByteString
  topicSubscribeInfoTable : OrderedMap ByteString (List MessageQueue)
  ofTopic : ∀ entry ∈ topicSubscribeInfoTable.entries, ∀ queue ∈ entry.2, queue.topic = entry.1
  consumerIdList : ByteString → List ByteString
  clientId : ByteString
  strategy : AllocateStrategy
  topicRouteTable : OrderedMap ByteString TopicRouteData

/-- The pull requests dispatched by a rebalance, and what each topic reported. -/
structure RebalanceRun where
  rebalanceImpl : RebalanceImpl
  dispatched : List PullRequest
  reports : List Bool

namespace RebalanceView

/-- The address of the broker of a queue in the route of its topic. -/
def findMasterBrokerAddrByTopicAndName (view : RebalanceView) (topic brokerName : ByteString) :
    ByteString :=
  match (view.topicRouteTable.find? topic).bind fun route ↦
    route.brokerDatas.find? fun data ↦ data.brokerName = brokerName with
  | none => []
  | some data => selectBrokerAddr data

/-- The address that a pass sees for a queue. -/
def masterAddr (view : RebalanceView) (queue : MessageQueue) : ByteString :=
  view.findMasterBrokerAddrByTopicAndName queue.topic queue.brokerName

/-- The call of the strategy for the queues of a topic. -/
def allocation (view : RebalanceView) (topic : ByteString) (mqSet : List MessageQueue) :
    Except AllocateError (Option (List MessageQueue)) :=
  view.strategy.allocate view.clientId mqSet (sortCids (view.consumerIdList topic))

/-- How far `rebalanceByTopic` gets with a topic: the topic is left as it is, a set of queues is
handed to the update of the table, or what happens is undefined. -/
inductive TopicOutcome where
  | skipped
  | handed (mqSet : List MessageQueue)
  | undefined
  deriving DecidableEq

/-- A client exception is caught, and then the pointer to the result is read, which has no value. An
index that `at` rejects leaves the topic, and a division without a quotient ends the process. -/
def topicOutcome (view : RebalanceView) (topic : ByteString) : TopicOutcome :=
  match view.messageModel, view.topicSubscribeInfoTable.find? topic with
  | _, none => .skipped
  | .broadcasting, some mqSet => .handed mqSet
  | .clustering, some mqSet =>
    if view.consumerIdList topic = [] then .skipped
    else
      match view.allocation topic mqSet with
      | .error .outOfRange => .skipped
      | .error (.clientException _) => .undefined
      | .error .divisionFault => .undefined
      | .ok allocateResult => .handed (allocateResultSet allocateResult)

/-- The arguments of the update of the table. -/
def input (view : RebalanceView) (computePullFromWhere : MessageQueue → ℤ) (now : ℤ)
    (topic : ByteString) (mqSet : List MessageQueue) : RebalanceInput where
  topic := topic
  mqSet := mqSet
  masterAddrOfHeld := view.masterAddr
  masterAddrOfAdded := view.masterAddr
  computePullFromWhere := computePullFromWhere
  now := now

/-- The update of the table with the queues handed over for a topic. -/
def updateWith (view : RebalanceView) (computePullFromWhere : MessageQueue → ℤ) (now : ℤ)
    (run : RebalanceRun) (topic : ByteString) (mqSet : List MessageQueue) : RebalanceRun :=
  let pass := run.rebalanceImpl.updateProcessQueueTableInRebalance
    (view.input computePullFromWhere now topic mqSet)
  { rebalanceImpl := pass.rebalanceImpl
    dispatched := run.dispatched ++ pass.pullRequestList
    reports := run.reports ++ [pass.changed] }

/-- Rebalances one topic; nothing where the source does not define what happens. -/
def rebalanceByTopic (view : RebalanceView) (computePullFromWhere : MessageQueue → ℤ) (now : ℤ)
    (run : RebalanceRun) (topic : ByteString) : Option RebalanceRun :=
  match view.topicOutcome topic with
  | .skipped => some run
  | .handed mqSet => some (view.updateWith computePullFromWhere now run topic mqSet)
  | .undefined => none

/-- A whole rebalance, one topic after another. -/
def doRebalance (view : RebalanceView) (computePullFromWhere : MessageQueue → ℤ) (now : ℤ)
    (impl : RebalanceImpl) : Option RebalanceRun := do
  let run ← view.subTable.foldlM (view.rebalanceByTopic computePullFromWhere now)
    ⟨{ impl with downBrokerName := [] }, [], []⟩
  return { run with
    rebalanceImpl := run.rebalanceImpl.truncateMessageQueueNotMyTopic view.subTable }

/-! ### Stability -/

/-- The strategy returns for every topic for which it is called. -/
def Returns (view : RebalanceView) : Prop :=
  ∀ topic ∈ view.subTable, ∀ mqSet ∈ view.topicSubscribeInfoTable.find? topic,
    view.messageModel = .clustering → view.consumerIdList topic ≠ [] →
      (∀ message, view.allocation topic mqSet ≠ .error (.clientException message)) ∧
        view.allocation topic mqSet ≠ .error .divisionFault

/-- The queues that are handed over for a topic. -/
def allocatedQueues (view : RebalanceView) (topic : ByteString) : Option (List MessageQueue) :=
  match view.topicOutcome topic with
  | .handed mqSet => some mqSet
  | _ => none

/-- A queue that a rebalance allocates to this client. -/
def Allocated (view : RebalanceView) (queue : MessageQueue) : Prop :=
  queue.topic ∈ view.subTable ∧ ∃ mqSet ∈ view.allocatedQueues queue.topic, queue ∈ mqSet

/-- A rebalance that drops no process queue, inserts none, dispatches no pull request and reports no
change. -/
structure Quiet (impl : RebalanceImpl) (run : RebalanceRun) : Prop where
  processQueueTable : run.rebalanceImpl.processQueueTable = impl.processQueueTable
  droped : ∀ address, (run.rebalanceImpl.processQueues address).droped =
    (impl.processQueues address).droped
  dispatched : run.dispatched = []
  reports : ∀ report ∈ run.reports, report = false

/-- For each broker, nothing is remembered and each allocated queue with an address is in the table;
or the routes agree on one address of the broker, which is not empty unless nothing else is
remembered. -/
def Settled (view : RebalanceView) (impl : RebalanceImpl) : Prop :=
  ∀ brokerName,
    (impl.brokerMaster.find? brokerName = none ∧
      ∀ queue, view.Allocated queue → queue.brokerName = brokerName →
        view.masterAddr queue ≠ [] → queue ∈ impl.processQueueTable) ∨
    ∃ addr, (∀ queue, view.Allocated queue → queue.brokerName = brokerName →
        view.masterAddr queue = addr) ∧
      (addr ≠ [] ∨ impl.brokerMaster.find? brokerName = none ∨
        impl.brokerMaster.find? brokerName = some addr)

/-- No remembered address differs from the one that the route of an allocated queue gives. -/
def Agreed (view : RebalanceView) (brokerMaster : OrderedMap ByteString ByteString) : Prop :=
  ∀ queue, view.Allocated queue → ∀ known ∈ brokerMaster.find? queue.brokerName,
    known = view.masterAddr queue

end RebalanceView

/-! ### The strategies of the source -/

theorem mem_of_vectorAt {mqAll : List MessageQueue} {index : ℤ} {queue : MessageQueue}
    (hat : vectorAt mqAll index = .ok queue) : queue ∈ mqAll := by
  unfold vectorAt at hat
  split_ifs at hat
  cases hget : mqAll[index.toNat]? with
  | none => simp [hget] at hat
  | some found =>
    simp only [hget, Except.ok.injEq] at hat
    rw [← hat]
    exact List.mem_of_getElem? hget

theorem mem_of_queueAt {mqAll : List MessageQueue} {position : ℤ} {queue : MessageQueue}
    (hat : queueAt mqAll position = .ok queue) : queue ∈ mqAll := by
  unfold queueAt at hat
  dsimp only at hat
  split_ifs at hat
  exact mem_of_vectorAt hat

/-- The last round of the loop. -/
theorem exists_of_collect_succ {mqAll : List MessageQueue} {start : ℤ} {count : ℕ}
    {result : List MessageQueue} (hcollect : collect mqAll start (count + 1) = .ok result) :
    ∃ earlier last, collect mqAll start count = .ok earlier ∧
      queueAt mqAll (toInt32 (start + count)) = .ok last ∧ earlier ++ [last] = result := by
  rw [collect] at hcollect
  generalize queueAt mqAll (toInt32 (start + count)) = next at hcollect ⊢
  cases hearlier : collect mqAll start count with
  | error error => simp [hearlier, bind, Except.bind] at hcollect
  | ok earlier =>
    cases next with
    | error error => simp [hearlier, bind, Except.bind] at hcollect
    | ok last =>
      refine ⟨earlier, last, rfl, rfl, ?_⟩
      simpa [hearlier, bind, Except.bind, pure, Except.pure] using hcollect

theorem mem_of_collect {mqAll : List MessageQueue} {start : ℤ} {count : ℕ}
    {result : List MessageQueue} (hcollect : collect mqAll start count = .ok result) :
    ∀ queue ∈ result, queue ∈ mqAll := by
  induction count generalizing result with
  | zero =>
    simp only [collect, Except.ok.injEq] at hcollect
    simp [← hcollect]
  | succ count ih =>
    obtain ⟨earlier, last, hearlier, hlast, rfl⟩ := exists_of_collect_succ hcollect
    intro queue hqueue
    rcases List.mem_append.mp hqueue with hbefore | hnew
    · exact ih hearlier queue hbefore
    · rw [List.mem_singleton.mp hnew]
      exact mem_of_queueAt hlast

theorem mem_of_allocateAt {mqAll : List MessageQueue} {cidAllSize index : ℤ}
    {result : List MessageQueue} (hallocate : allocateAt mqAll cidAllSize index = .ok result) :
    ∀ queue ∈ result, queue ∈ mqAll := by
  unfold allocateAt at hallocate
  dsimp only at hallocate
  split_ifs at hallocate
  exact mem_of_collect hallocate

/-- The strategy that divides the queues evenly. -/
def allocateMessageQueueAveragely : AllocateStrategy where
  allocate := allocate
  mem_of_allocate := by
    intro currentCID mqAll cidAll result hallocate
    unfold allocate at hallocate
    split_ifs at hallocate
    cases hposition : cidAll.findIdx? (· == currentCID) with
    | none => simp [hposition] at hallocate
    | some position =>
      simp only [hposition] at hallocate
      split_ifs at hallocate with hfound
      · exact absurd (Except.ok.inj hallocate) (by simp)
      · generalize hat : allocateAt mqAll (toInt32 cidAll.length) (toInt32 position) = allocated
          at hallocate
        cases allocated with
        | error error => simp [Except.map] at hallocate
        | ok collected =>
          simp only [Except.map, Except.ok.injEq, Option.some.injEq] at hallocate
          rw [← hallocate]
          exact mem_of_allocateAt hat

namespace RebalanceImpl

/-! ### The removal loop and the master addresses -/

/-- A broker whose known address differs is noted as down. -/
theorem mem_downBrokerName_noteMaster (impl : RebalanceImpl)
    {brokerName known masterAddr : ByteString} (hne : known ≠ masterAddr) :
    brokerName ∈ (impl.noteMaster brokerName known masterAddr).downBrokerName := by
  unfold noteMaster
  split_ifs with hnew
  · exact List.mem_append_right _ (List.mem_singleton_self brokerName)
  · exact not_not.mp fun hdown ↦ hnew ⟨hne, hdown⟩

/-- The removal loop drops a queue whose broker has an address that differs from the known one. -/
theorem not_mem_removalLoop_of_newMaster {impl : RebalanceImpl} {input : RebalanceInput}
    {queue : MessageQueue} {known : ByteString} (htopic : queue.topic = input.topic)
    (hknown : impl.brokerMaster.find? queue.brokerName = some known)
    (hne : known ≠ input.masterAddrOfHeld queue) :
    queue ∉ (impl.removalLoop input).rebalanceImpl.processQueueTable := by
  by_cases hallocated : queue ∈ input.mqSet
  · refine not_mem_removalLoop fun pass address hmaster ↦ ?_
    rw [← hmaster] at hknown
    unfold removeUnnecessary
    rw [if_neg (not_not.mpr htopic), if_neg (not_not.mpr hallocated)]
    simp only [hknown]
    rw [if_pos (mem_downBrokerName_noteMaster pass.rebalanceImpl hne)]
    exact fun hmem ↦ (OrderedMap.mem_erase.mp hmem).1 rfl
  · exact fun hmem ↦ hallocated (mem_mqSet_of_mem_removalLoop htopic hmem)

/-- The removal loop keeps an allocated queue of a broker without a known address. -/
theorem mem_removalLoop_of_unknown {impl : RebalanceImpl} {input : RebalanceInput}
    {queue : MessageQueue} (hheld : queue ∈ impl.processQueueTable)
    (hallocated : queue ∈ input.mqSet)
    (hunknown : impl.brokerMaster.find? queue.brokerName = none) :
    queue ∈ (impl.removalLoop input).rebalanceImpl.processQueueTable := by
  have hboth : (impl.removalLoop input).rebalanceImpl.brokerMaster = impl.brokerMaster ∧
      queue ∈ (impl.removalLoop input).rebalanceImpl.processQueueTable := by
    unfold removalLoop
    refine List.foldlRecOn (motive := fun pass : RebalancePass ↦ pass.rebalanceImpl.brokerMaster =
      impl.brokerMaster ∧ queue ∈ pass.rebalanceImpl.processQueueTable) _ _ ⟨rfl, hheld⟩ ?_
    rintro pass ⟨hmaster, hmem⟩ entry -
    by_cases hkey : entry.1 = queue
    · unfold removeUnnecessary
      rw [hkey, hmaster, hunknown, if_neg (not_not.mpr hallocated)]
      split_ifs <;> exact ⟨hmaster, hmem⟩
    · rcases removeUnnecessary_cases input pass entry with ⟨-, down, hkeep⟩ | ⟨-, down, hdrop⟩
      · rw [hkeep]
        exact ⟨hmaster, hmem⟩
      · rw [hdrop]
        exact ⟨hmaster, OrderedMap.mem_erase.mpr ⟨fun heq ↦ hkey heq.symm, hmem⟩⟩
  exact hboth.2

/-- The queues of a topic are as a pass wants them: all allocated, and none with another master. -/
structure InPlace (input : RebalanceInput) (impl : RebalanceImpl) : Prop where
  allocated : ∀ queue ∈ impl.processQueueTable, queue.topic = input.topic → queue ∈ input.mqSet
  master : ∀ queue ∈ impl.processQueueTable, queue.topic = input.topic →
    ∀ known ∈ impl.brokerMaster.find? queue.brokerName, known = input.masterAddrOfHeld queue
  held : ∀ queue ∈ input.mqSet, queue ∈ impl.processQueueTable

/-- A pass over queues that are in place changes nothing. -/
theorem updateProcessQueueTableInRebalance_of_inPlace {impl : RebalanceImpl}
    {input : RebalanceInput} (hdown : impl.downBrokerName = []) (hplace : InPlace input impl) :
    impl.updateProcessQueueTableInRebalance input = ⟨impl, [], false⟩ := by
  have hremoval : impl.removalLoop input = ⟨impl, [], false⟩ := by
    unfold removalLoop
    refine List.foldlRecOn (motive := fun pass : RebalancePass ↦ pass = ⟨impl, [], false⟩)
      _ _ rfl ?_
    rintro pass rfl entry hentry
    have hmem := OrderedMap.key_mem hentry
    unfold removeUnnecessary
    by_cases htopic : entry.1.topic = input.topic
    · have hallocated := hplace.allocated entry.1 hmem htopic
      rw [if_neg (not_not.mpr htopic), if_neg (not_not.mpr hallocated)]
      dsimp only
      cases hknown : impl.brokerMaster.find? entry.1.brokerName with
      | none => rfl
      | some known =>
        have hsame := hplace.master entry.1 hmem htopic known hknown
        simp [noteMaster, hsame, hdown]
    · rw [if_pos htopic]
  rw [updateProcessQueueTableInRebalance_eq, hremoval]
  refine List.foldlRecOn (motive := fun pass : RebalancePass ↦ pass = ⟨impl, [], false⟩) _ _ rfl ?_
  rintro pass rfl queue hqueue
  exact if_pos (hplace.held queue hqueue)

/-- A pass that reports no change found the queues of its topic in place. -/
theorem inPlace_of_unchanged {impl : RebalanceImpl} {input : RebalanceInput}
    (hoffset : ∀ queue ∈ input.mqSet, 0 ≤ input.computePullFromWhere queue)
    (hunchanged : (impl.updateProcessQueueTableInRebalance input).changed = false) :
    InPlace input impl := by
  have hremoved := removed_removalLoop impl input
  have hextended := extended_updateProcessQueueTableInRebalance impl input
  rw [hextended.changed, Bool.or_eq_false_iff, Bool.not_eq_false', List.isEmpty_iff] at hunchanged
  have hkept : ∀ queue ∈ impl.processQueueTable,
      queue ∈ (impl.removalLoop input).rebalanceImpl.processQueueTable := by
    intro queue hqueue
    obtain ⟨entry, hentry, rfl⟩ := OrderedMap.mem_iff.mp hqueue
    refine OrderedMap.key_mem (not_not.mp fun hgone ↦ ?_)
    have hchanged := hremoved.changed.mpr ⟨entry, hentry, hgone⟩
    rw [hunchanged.1] at hchanged
    exact Bool.false_ne_true hchanged
  refine ⟨fun queue hqueue htopic ↦ ?_, fun queue hqueue htopic known hknown ↦ ?_,
    fun queue hqueue ↦ ?_⟩
  · exact mem_mqSet_of_mem_removalLoop htopic (hkept queue hqueue)
  · by_contra hne
    exact not_mem_removalLoop_of_newMaster htopic hknown hne (hkept queue hqueue)
  · have hadded := (mem_foldl_addMissing input input.mqSet (impl.removalLoop input) queue).mpr
      (Or.inr ⟨hqueue, hoffset queue hqueue⟩)
    obtain ⟨entry, hentry, rfl⟩ := OrderedMap.mem_iff.mp hadded
    have hbefore := (hextended.entries entry).mp hentry
    rw [hunchanged.2] at hbefore
    exact OrderedMap.key_mem (hremoved.shrinks.entries entry (hbefore.resolve_right (by simp)))

/-! ### The addition loop and the master addresses -/

/-- What one iteration of the addition loop does to the known address of a broker. -/
theorem find?_brokerMaster_addMissing (input : RebalanceInput) (pass : RebalancePass)
    (queue : MessageQueue) (brokerName : ByteString) :
    (addMissing input pass queue).rebalanceImpl.brokerMaster.find? brokerName =
      if queue ∉ pass.rebalanceImpl.processQueueTable ∧ 0 ≤ input.computePullFromWhere queue ∧
        input.masterAddrOfAdded queue ≠ [] ∧ queue.brokerName = brokerName then
        some (input.masterAddrOfAdded queue)
      else pass.rebalanceImpl.brokerMaster.find? brokerName := by
  unfold addMissing
  by_cases hheld : queue ∈ pass.rebalanceImpl.processQueueTable
  · rw [if_pos hheld, if_neg fun hall ↦ hall.1 hheld]
  · rw [if_neg hheld]
    by_cases hoffset : 0 ≤ input.computePullFromWhere queue
    · by_cases haddr : input.masterAddrOfAdded queue = []
      · simp [hoffset, haddr, addEntry, newProcessQueue, setProcessQueue]
      · by_cases hname : queue.brokerName = brokerName
        · simp [hheld, hoffset, haddr, hname, addEntry, OrderedMap.find?_assign_self]
        · simp [hoffset, haddr, hname, addEntry, newProcessQueue, setProcessQueue,
            OrderedMap.find?_assign_of_ne _ _ (Ne.symm hname)]
    · simp [hoffset, newProcessQueue, setProcessQueue]

/-- The known address of a broker after the addition loop is the one before, or that of a queue of
the broker that was missing. -/
theorem find?_brokerMaster_foldl_addMissing (input : RebalanceInput) (queues : List MessageQueue)
    (pass : RebalancePass) (brokerName : ByteString) :
    (queues.foldl (addMissing input) pass).rebalanceImpl.brokerMaster.find? brokerName =
        pass.rebalanceImpl.brokerMaster.find? brokerName ∨
      ∃ queue ∈ queues, queue.brokerName = brokerName ∧
        queue ∉ pass.rebalanceImpl.processQueueTable ∧ input.masterAddrOfAdded queue ≠ [] ∧
        (queues.foldl (addMissing input) pass).rebalanceImpl.brokerMaster.find? brokerName =
          some (input.masterAddrOfAdded queue) := by
  induction queues generalizing pass with
  | nil => exact Or.inl rfl
  | cons head rest ih =>
    rw [List.foldl_cons]
    rcases ih (addMissing input pass head) with
      hsame | ⟨queue, hqueue, hname, habsent, haddr, hfind⟩
    · rw [hsame, find?_brokerMaster_addMissing]
      split_ifs with hadded
      · exact Or.inr ⟨head, List.mem_cons_self, hadded.2.2.2, hadded.1, hadded.2.2.1, rfl⟩
      · exact Or.inl rfl
    · refine Or.inr ⟨queue, List.mem_cons_of_mem head hqueue, hname, fun hmem ↦ habsent ?_, haddr,
        hfind⟩
      obtain ⟨entry, hentry, hkey⟩ := OrderedMap.mem_iff.mp hmem
      refine OrderedMap.mem_iff.mpr ⟨entry, ?_, hkey⟩
      exact ((extended_addMissing input pass head).entries entry).mpr (Or.inl hentry)

/-- A missing queue with an offset and an address makes the address of its broker known. -/
theorem find?_brokerMaster_of_missing {input : RebalanceInput} {queues : List MessageQueue}
    {pass : RebalancePass} {queue : MessageQueue} (hqueue : queue ∈ queues)
    (habsent : queue ∉ pass.rebalanceImpl.processQueueTable)
    (hoffset : 0 ≤ input.computePullFromWhere queue) (haddr : input.masterAddrOfAdded queue ≠ []) :
    ∃ other ∈ queues, other.brokerName = queue.brokerName ∧
      (queues.foldl (addMissing input) pass).rebalanceImpl.brokerMaster.find? queue.brokerName =
        some (input.masterAddrOfAdded other) := by
  induction queues generalizing pass with
  | nil => exact absurd hqueue List.not_mem_nil
  | cons head rest ih =>
    rw [List.foldl_cons]
    by_cases hhead : queue = head
    · have hnow : (addMissing input pass head).rebalanceImpl.brokerMaster.find? queue.brokerName =
          some (input.masterAddrOfAdded queue) := by
        rw [find?_brokerMaster_addMissing, ← hhead, if_pos ⟨habsent, hoffset, haddr, rfl⟩]
      rcases find?_brokerMaster_foldl_addMissing input rest (addMissing input pass head)
        queue.brokerName with hsame | ⟨other, hother, hname, -, -, hfind⟩
      · exact ⟨queue, hqueue, rfl, hsame.trans hnow⟩
      · exact ⟨other, List.mem_cons_of_mem head hother, hname, hfind⟩
    · have hrest := (List.mem_cons.mp hqueue).resolve_left hhead
      have hstill : queue ∉ (addMissing input pass head).rebalanceImpl.processQueueTable := by
        intro hmem
        have hiff := mem_foldl_addMissing input [head] pass queue
        rcases hiff.mp hmem with hbefore | ⟨hsingle, -⟩
        · exact habsent hbefore
        · exact hhead (List.mem_singleton.mp hsingle)
      obtain ⟨other, hother, hname, hfind⟩ := ih hrest hstill
      exact ⟨other, List.mem_cons_of_mem head hother, hname, hfind⟩

/-! ### Dropping the topics without a subscription -/

theorem truncateMessageQueueNotMyTopic_of_all {impl : RebalanceImpl} {subTable : List ByteString}
    (hall : ∀ queue ∈ impl.processQueueTable, queue.topic ∈ subTable) :
    impl.truncateMessageQueueNotMyTopic subTable = impl := by
  unfold truncateMessageQueueNotMyTopic
  refine List.foldlRecOn (motive := fun current : RebalanceImpl ↦ current = impl) _ _ rfl ?_
  rintro current rfl entry hentry
  exact if_pos (hall entry.1 (OrderedMap.key_mem hentry))

theorem mem_truncateMessageQueueNotMyTopic (impl : RebalanceImpl) (subTable : List ByteString)
    (queue : MessageQueue) :
    queue ∈ (impl.truncateMessageQueueNotMyTopic subTable).processQueueTable ↔
      queue ∈ impl.processQueueTable ∧ queue.topic ∈ subTable := by
  have hloop : ∀ (entries : List (MessageQueue × ℕ)) (current : RebalanceImpl),
      queue ∈ (entries.foldl (fun current entry ↦ if entry.1.topic ∈ subTable then current
          else current.dropEntry entry) current).processQueueTable ↔
        queue ∈ current.processQueueTable ∧
          ∀ entry ∈ entries, entry.1 = queue → queue.topic ∈ subTable := by
    intro entries
    induction entries with
    | nil => simp
    | cons entry rest ih =>
      intro current
      rw [List.foldl_cons, ih, List.forall_mem_cons]
      split_ifs with hsubscribed
      · refine and_congr_right fun _ ↦ ⟨fun hrest ↦ ⟨fun heq ↦ heq ▸ hsubscribed, hrest⟩, And.right⟩
      · have herase : queue ∈ (current.dropEntry entry).processQueueTable ↔
            queue ≠ entry.1 ∧ queue ∈ current.processQueueTable := OrderedMap.mem_erase
        rw [herase]
        constructor
        · rintro ⟨⟨hne, hmem⟩, hrest⟩
          exact ⟨hmem, fun heq ↦ absurd heq.symm hne, hrest⟩
        · rintro ⟨hmem, hhead, hrest⟩
          exact ⟨⟨fun heq ↦ hsubscribed (heq ▸ hhead heq.symm), hmem⟩, hrest⟩
  rw [truncateMessageQueueNotMyTopic, hloop]
  refine and_congr_right fun hmem ↦ ⟨fun hall ↦ ?_, fun hsubscribed _ _ _ ↦ hsubscribed⟩
  obtain ⟨entry, hentry, hkey⟩ := OrderedMap.mem_iff.mp hmem
  exact hall entry hentry hkey

theorem brokerMaster_truncateMessageQueueNotMyTopic (impl : RebalanceImpl)
    (subTable : List ByteString) :
    (impl.truncateMessageQueueNotMyTopic subTable).brokerMaster = impl.brokerMaster := by
  unfold truncateMessageQueueNotMyTopic
  refine List.foldlRecOn
    (motive := fun current : RebalanceImpl ↦ current.brokerMaster = impl.brokerMaster) _ _
    rfl fun current hcurrent entry _ ↦ ?_
  split_ifs
  · exact hcurrent
  · exact hcurrent

end RebalanceImpl

namespace RebalanceView

/-! ### One topic -/

theorem allocatedQueues_eq_some {view : RebalanceView} {topic : ByteString}
    {mqSet : List MessageQueue} :
    view.allocatedQueues topic = some mqSet ↔ view.topicOutcome topic = .handed mqSet := by
  unfold allocatedQueues
  cases view.topicOutcome topic <;> simp

/-- The set has no other queues than the vector. -/
theorem mem_of_mem_allocateResultSet {allocateResult : Option (List MessageQueue)}
    {queue : MessageQueue} (hmem : queue ∈ allocateResultSet allocateResult) :
    ∃ result, allocateResult = some result ∧ queue ∈ result := by
  have hvector := (mem_of_mem_foldl_insertQueue hmem).resolve_right List.not_mem_nil
  cases allocateResult with
  | none => exact absurd hvector List.not_mem_nil
  | some result => exact ⟨result, rfl, hvector⟩

/-- A rebalance allocates queues of the topic only. -/
theorem topic_of_mem_allocatedQueues {view : RebalanceView} {topic : ByteString}
    {mqSet : List MessageQueue} (hallocated : view.allocatedQueues topic = some mqSet)
    {queue : MessageQueue} (hqueue : queue ∈ mqSet) : queue.topic = topic := by
  rw [allocatedQueues_eq_some, topicOutcome] at hallocated
  cases hfind : view.topicSubscribeInfoTable.find? topic with
  | none => simp [hfind] at hallocated
  | some mqAll =>
    have hall := view.ofTopic _ (OrderedMap.find?_eq_some.mp hfind)
    cases hmodel : view.messageModel with
    | broadcasting =>
      simp only [hmodel, hfind, TopicOutcome.handed.injEq] at hallocated
      exact hall queue (hallocated ▸ hqueue)
    | clustering =>
      simp only [hmodel, hfind] at hallocated
      split_ifs at hallocated
      cases hallocation : view.allocation topic mqAll with
      | error error => cases error <;> simp [hallocation] at hallocated
      | ok allocateResult =>
        simp only [hallocation, TopicOutcome.handed.injEq] at hallocated
        rw [← hallocated] at hqueue
        obtain ⟨result, rfl, hresult⟩ := mem_of_mem_allocateResultSet hqueue
        exact hall queue (view.strategy.mem_of_allocate hallocation queue hresult)

/-- The outcome of a topic is undefined exactly when the strategy is called and does not return. -/
theorem topicOutcome_eq_undefined {view : RebalanceView} {topic : ByteString} :
    view.topicOutcome topic = .undefined ↔
      ∃ mqSet ∈ view.topicSubscribeInfoTable.find? topic, view.messageModel = .clustering ∧
        view.consumerIdList topic ≠ [] ∧
        ((∃ message, view.allocation topic mqSet = .error (.clientException message)) ∨
          view.allocation topic mqSet = .error .divisionFault) := by
  unfold topicOutcome
  cases hfind : view.topicSubscribeInfoTable.find? topic with
  | none => simp
  | some mqSet =>
    cases hmodel : view.messageModel with
    | broadcasting => simp
    | clustering =>
      dsimp only
      split_ifs with hcids
      · simp [hcids]
      · cases hallocation : view.allocation topic mqSet with
        | error error => cases error <;> simp [hcids, hallocation]
        | ok allocateResult => simp [hallocation]

/-- The update of a topic for which something is handed over. -/
def updateTopic (view : RebalanceView) (computePullFromWhere : MessageQueue → ℤ) (now : ℤ)
    (run : RebalanceRun) (topic : ByteString) : RebalanceRun :=
  match view.allocatedQueues topic with
  | none => run
  | some mqSet => view.updateWith computePullFromWhere now run topic mqSet

/-- The updates of the subscribed topics. -/
def updateTopics (view : RebalanceView) (computePullFromWhere : MessageQueue → ℤ) (now : ℤ)
    (impl : RebalanceImpl) : RebalanceRun :=
  view.subTable.foldl (view.updateTopic computePullFromWhere now)
    ⟨{ impl with downBrokerName := [] }, [], []⟩

/-- The updates of the subscribed topics, and the drop of the other topics. -/
def updateAndTruncate (view : RebalanceView) (computePullFromWhere : MessageQueue → ℤ) (now : ℤ)
    (impl : RebalanceImpl) : RebalanceRun :=
  let run := view.updateTopics computePullFromWhere now impl
  { run with
    rebalanceImpl := run.rebalanceImpl.truncateMessageQueueNotMyTopic view.subTable }

/-- A topic with a defined outcome is rebalanced by its update. -/
theorem rebalanceByTopic_eq_some {view : RebalanceView} {topic : ByteString}
    (hdefined : view.topicOutcome topic ≠ .undefined) (computePullFromWhere : MessageQueue → ℤ)
    (now : ℤ) (run : RebalanceRun) :
    view.rebalanceByTopic computePullFromWhere now run topic =
      some (view.updateTopic computePullFromWhere now run topic) := by
  unfold rebalanceByTopic updateTopic allocatedQueues
  cases houtcome : view.topicOutcome topic with
  | skipped => rfl
  | handed mqSet => rfl
  | undefined => exact absurd houtcome hdefined

theorem rebalanceByTopic_eq_none {view : RebalanceView} {topic : ByteString}
    (hundefined : view.topicOutcome topic = .undefined) (computePullFromWhere : MessageQueue → ℤ)
    (now : ℤ) (run : RebalanceRun) :
    view.rebalanceByTopic computePullFromWhere now run topic = none := by
  rw [rebalanceByTopic, hundefined]

/-- The topics are rebalanced by their updates, or one of them has no defined outcome. -/
theorem foldlM_rebalanceByTopic (view : RebalanceView) (computePullFromWhere : MessageQueue → ℤ)
    (now : ℤ) (topics : List ByteString) (run : RebalanceRun) :
    topics.foldlM (view.rebalanceByTopic computePullFromWhere now) run =
      if ∀ topic ∈ topics, view.topicOutcome topic ≠ .undefined then
        some (topics.foldl (view.updateTopic computePullFromWhere now) run)
      else none := by
  induction topics generalizing run with
  | nil => simp
  | cons topic rest ih =>
    rw [List.foldlM_cons, List.foldl_cons]
    by_cases hundefined : view.topicOutcome topic = .undefined
    · rw [rebalanceByTopic_eq_none hundefined, if_neg fun hall ↦
        hall topic List.mem_cons_self hundefined]
      rfl
    · rw [rebalanceByTopic_eq_some hundefined]
      refine (ih _).trans (if_congr ?_ rfl rfl)
      rw [List.forall_mem_cons]
      exact (and_iff_right hundefined).symm

/-- A rebalance has a defined result exactly when the strategy returns for every topic. -/
theorem mem_doRebalance_iff_returns {view : RebalanceView}
    {computePullFromWhere : MessageQueue → ℤ} {now : ℤ} {impl : RebalanceImpl}
    {run : RebalanceRun} :
    run ∈ view.doRebalance computePullFromWhere now impl ↔
      view.Returns ∧ view.updateAndTruncate computePullFromWhere now impl = run := by
  have hreturns : (∀ topic ∈ view.subTable, view.topicOutcome topic ≠ .undefined) ↔
      view.Returns := by
    refine forall_congr' fun topic ↦ forall_congr' fun _ ↦ ?_
    rw [Ne, topicOutcome_eq_undefined]
    push Not
    rfl
  rw [doRebalance, foldlM_rebalanceByTopic, ← hreturns]
  split_ifs with hall
  · exact ⟨fun hrun ↦ ⟨hall, Option.some.inj hrun⟩, fun hrun ↦ congrArg some hrun.2⟩
  · exact ⟨fun hrun ↦ absurd hrun (by simp), fun hrun ↦ absurd hrun.1 hall⟩

section Topic

variable {view : RebalanceView} {offsets : MessageQueue → ℤ} {now : ℤ} {topic : ByteString}

/-- Rebalancing a topic leaves the queues of the other topics in the table. -/
theorem mem_updateTopic_of_ne {queue : MessageQueue} (hne : queue.topic ≠ topic)
    (run : RebalanceRun) :
    queue ∈ (view.updateTopic offsets now run topic).rebalanceImpl.processQueueTable ↔
      queue ∈ run.rebalanceImpl.processQueueTable := by
  unfold updateTopic
  cases hallocated : view.allocatedQueues topic with
  | none => rfl
  | some mqSet =>
    have hremoved := RebalanceImpl.removed_removalLoop run.rebalanceImpl
      (view.input offsets now topic mqSet)
    refine (RebalanceImpl.mem_foldl_addMissing (view.input offsets now topic mqSet) mqSet _
      queue).trans ?_
    constructor
    · rintro (hremains | ⟨hqueue, -⟩)
      · obtain ⟨entry, hentry, hkey⟩ := OrderedMap.mem_iff.mp hremains
        exact OrderedMap.mem_iff.mpr ⟨entry, hremoved.shrinks.entries entry hentry, hkey⟩
      · exact absurd (topic_of_mem_allocatedQueues hallocated hqueue) hne
    · intro hheld
      obtain ⟨entry, hentry, rfl⟩ := OrderedMap.mem_iff.mp hheld
      exact Or.inl (OrderedMap.key_mem (hremoved.otherTopic entry hentry hne))

/-- The known address of a broker after a topic is the one before, or that of an allocated queue of
the topic that was missing or that was dropped for a known address. -/
theorem find?_brokerMaster_updateTopic (hsubscribed : topic ∈ view.subTable)
    (run : RebalanceRun) (brokerName : ByteString) :
    (view.updateTopic offsets now run topic).rebalanceImpl.brokerMaster.find? brokerName =
        run.rebalanceImpl.brokerMaster.find? brokerName ∨
      ∃ queue, view.Allocated queue ∧ queue.brokerName = brokerName ∧
        (queue ∉ run.rebalanceImpl.processQueueTable ∨
          run.rebalanceImpl.brokerMaster.find? brokerName ≠ none) ∧
        view.masterAddr queue ≠ [] ∧
        (view.updateTopic offsets now run topic).rebalanceImpl.brokerMaster.find? brokerName =
          some (view.masterAddr queue) := by
  unfold updateTopic
  cases hallocated : view.allocatedQueues topic with
  | none => exact Or.inl rfl
  | some mqSet =>
    have hremoved := RebalanceImpl.removed_removalLoop run.rebalanceImpl
      (view.input offsets now topic mqSet)
    have hloop := RebalanceImpl.find?_brokerMaster_foldl_addMissing
      (view.input offsets now topic mqSet) mqSet (run.rebalanceImpl.removalLoop
        (view.input offsets now topic mqSet)) brokerName
    rw [hremoved.brokerMaster] at hloop
    refine hloop.imp_right ?_
    rintro ⟨queue, hqueue, hname, habsent, haddr, hfind⟩
    have htopic := topic_of_mem_allocatedQueues hallocated hqueue
    refine ⟨queue, ⟨htopic ▸ hsubscribed, mqSet, htopic ▸ hallocated, hqueue⟩, hname, ?_, haddr,
      hfind⟩
    by_contra hneither
    rw [not_or, not_not, not_not] at hneither
    exact habsent (RebalanceImpl.mem_removalLoop_of_unknown hneither.1 hqueue
      (hname ▸ hneither.2))

variable (hoffset : ∀ queue, view.Allocated queue → 0 ≤ offsets queue)

include hoffset

/-- Rebalancing a topic leaves exactly the allocated queues of the topic in the table. -/
theorem mem_updateTopic_of_eq {queue : MessageQueue} {mqSet : List MessageQueue}
    (hsubscribed : queue.topic ∈ view.subTable)
    (hallocated : view.allocatedQueues queue.topic = some mqSet) (run : RebalanceRun) :
    queue ∈ (view.updateTopic offsets now run queue.topic).rebalanceImpl.processQueueTable ↔
      queue ∈ mqSet := by
  unfold updateTopic
  rw [hallocated]
  refine (RebalanceImpl.mem_foldl_addMissing (view.input offsets now queue.topic mqSet) mqSet _
    queue).trans ?_
  constructor
  · rintro (hremains | ⟨hqueue, -⟩)
    · exact RebalanceImpl.mem_mqSet_of_mem_removalLoop rfl hremains
    · exact hqueue
  · exact fun hqueue ↦ Or.inr ⟨hqueue, hoffset queue ⟨hsubscribed, mqSet, hallocated, hqueue⟩⟩

/-- An allocated queue with an address that is missing, or whose broker has another known address,
makes the address of its broker known. -/
theorem find?_brokerMaster_of_allocated {queue : MessageQueue} (hqueue : view.Allocated queue)
    (haddr : view.masterAddr queue ≠ []) (run : RebalanceRun)
    (hchange : queue ∉ run.rebalanceImpl.processQueueTable ∨
      ∃ known ∈ run.rebalanceImpl.brokerMaster.find? queue.brokerName,
        known ≠ view.masterAddr queue) :
    ∃ other, view.Allocated other ∧ other.brokerName = queue.brokerName ∧
      (view.updateTopic offsets now run queue.topic).rebalanceImpl.brokerMaster.find?
        queue.brokerName = some (view.masterAddr other) := by
  obtain ⟨hsubscribed, mqSet, hallocated, hmem⟩ := hqueue
  have habsent : queue ∉ (run.rebalanceImpl.removalLoop
      (view.input offsets now queue.topic mqSet)).rebalanceImpl.processQueueTable := by
    rcases hchange with hmissing | ⟨known, hknown, hne⟩
    · intro hremains
      obtain ⟨entry, hentry, hkey⟩ := OrderedMap.mem_iff.mp hremains
      have hbefore := (RebalanceImpl.removed_removalLoop run.rebalanceImpl
        (view.input offsets now queue.topic mqSet)).shrinks.entries entry hentry
      exact hmissing (OrderedMap.mem_iff.mpr ⟨entry, hbefore, hkey⟩)
    · exact RebalanceImpl.not_mem_removalLoop_of_newMaster rfl hknown hne
  obtain ⟨other, hother, hname, hfind⟩ := @RebalanceImpl.find?_brokerMaster_of_missing
    (view.input offsets now queue.topic mqSet) mqSet _ queue hmem habsent
    (hoffset queue ⟨hsubscribed, mqSet, hallocated, hmem⟩) haddr
  have htopic := topic_of_mem_allocatedQueues hallocated hother
  refine ⟨other, ⟨htopic ▸ hsubscribed, mqSet, htopic ▸ hallocated, hother⟩, hname, ?_⟩
  unfold updateTopic
  rw [hallocated]
  exact hfind

end Topic

/-! ### All topics -/

section Topics

variable {view : RebalanceView} {offsets : MessageQueue → ℤ} {now : ℤ} {topics : List ByteString}

theorem mem_foldl_of_not_mem {queue : MessageQueue} (hnot : queue.topic ∉ topics)
    (run : RebalanceRun) :
    queue ∈ (topics.foldl (view.updateTopic offsets now)
        run).rebalanceImpl.processQueueTable ↔
      queue ∈ run.rebalanceImpl.processQueueTable := by
  induction topics generalizing run with
  | nil => rfl
  | cons topic rest ih =>
    rw [List.mem_cons, not_or] at hnot
    rw [List.foldl_cons, ih hnot.2, mem_updateTopic_of_ne hnot.1]

/-- A known address stays known. -/
theorem find?_brokerMaster_foldl_ne_none (hsubset : topics ⊆ view.subTable) {run : RebalanceRun}
    {brokerName : ByteString}
    (hknown : run.rebalanceImpl.brokerMaster.find? brokerName ≠ none) :
    (topics.foldl (view.updateTopic offsets now)
      run).rebalanceImpl.brokerMaster.find? brokerName ≠ none := by
  induction topics generalizing run with
  | nil => exact hknown
  | cons topic rest ih =>
    have hparts := List.cons_subset.mp hsubset
    refine ih hparts.2 ?_
    rcases @find?_brokerMaster_updateTopic view offsets now topic hparts.1 run brokerName with
      hsame | ⟨queue, -, -, -, -, hfind⟩
    · rwa [hsame]
    · rw [hfind]
      exact Option.some_ne_none _

/-- The known address of a broker after some topics is the one before, or that of an allocated
queue. -/
theorem find?_brokerMaster_foldl (hsubset : topics ⊆ view.subTable) (run : RebalanceRun)
    (brokerName : ByteString) :
    (topics.foldl (view.updateTopic offsets now)
        run).rebalanceImpl.brokerMaster.find? brokerName =
        run.rebalanceImpl.brokerMaster.find? brokerName ∨
      ∃ queue, view.Allocated queue ∧ queue.brokerName = brokerName ∧
        view.masterAddr queue ≠ [] := by
  induction topics generalizing run with
  | nil => exact Or.inl rfl
  | cons topic rest ih =>
    have hparts := List.cons_subset.mp hsubset
    rcases ih hparts.2 (view.updateTopic offsets now run topic) with hsame | hother
    · rcases @find?_brokerMaster_updateTopic view offsets now topic hparts.1 run brokerName
        with hbefore | ⟨queue, hqueue, hname, -, haddr, -⟩
      · exact Or.inl (hsame.trans hbefore)
      · exact Or.inr ⟨queue, hqueue, hname, haddr⟩
    · exact Or.inr hother

variable (hoffset : ∀ queue, view.Allocated queue → 0 ≤ offsets queue)

include hoffset

theorem mem_foldl_of_mem {queue : MessageQueue} {mqSet : List MessageQueue}
    (hmem : queue.topic ∈ topics) (hsubscribed : queue.topic ∈ view.subTable)
    (hallocated : view.allocatedQueues queue.topic = some mqSet) (run : RebalanceRun) :
    queue ∈ (topics.foldl (view.updateTopic offsets now)
        run).rebalanceImpl.processQueueTable ↔ queue ∈ mqSet := by
  induction topics generalizing run with
  | nil => exact absurd hmem List.not_mem_nil
  | cons topic rest ih =>
    rw [List.foldl_cons]
    by_cases hrest : queue.topic ∈ rest
    · exact ih hrest _
    · rw [mem_foldl_of_not_mem hrest, ← (List.mem_cons.mp hmem).resolve_right hrest]
      exact mem_updateTopic_of_eq hoffset hsubscribed hallocated run

/-- When the routes agree on an address of a broker, nothing else is known once a queue of it has
been looked at. -/
theorem find?_brokerMaster_foldl_of_agree {brokerName addr : ByteString} (hne : addr ≠ [])
    (hagree : ∀ queue, view.Allocated queue → queue.brokerName = brokerName →
      view.masterAddr queue = addr) (hsubset : topics ⊆ view.subTable) {run : RebalanceRun}
    (hstart : (∃ queue, view.Allocated queue ∧ queue.brokerName = brokerName ∧
        queue.topic ∈ topics) ∨
      ∀ known ∈ run.rebalanceImpl.brokerMaster.find? brokerName, known = addr) :
    ∀ known ∈ (topics.foldl (view.updateTopic offsets now)
      run).rebalanceImpl.brokerMaster.find? brokerName, known = addr := by
  induction topics generalizing run with
  | nil =>
    rcases hstart with ⟨queue, -, -, hmem⟩ | hknown
    · exact absurd hmem List.not_mem_nil
    · exact hknown
  | cons topic rest ih =>
    have hparts := List.cons_subset.mp hsubset
    refine ih hparts.2 ?_
    by_cases hknown : ∀ known ∈ run.rebalanceImpl.brokerMaster.find? brokerName, known = addr
    · right
      rcases @find?_brokerMaster_updateTopic view offsets now topic hparts.1 run brokerName
        with hsame | ⟨queue, hqueue, hname, -, -, hfind⟩
      · rwa [hsame]
      · rw [hfind]
        intro known hsome
        rw [← Option.some.inj hsome]
        exact hagree queue hqueue hname
    · obtain ⟨queue, hqueue, hname, hmem⟩ := hstart.resolve_right hknown
      rcases List.mem_cons.mp hmem with rfl | hrest
      · right
        have hchange : ∃ known ∈ run.rebalanceImpl.brokerMaster.find? queue.brokerName,
            known ≠ view.masterAddr queue := by
          rw [hname, hagree queue hqueue hname]
          push Not at hknown
          exact hknown
        have haddr : view.masterAddr queue ≠ [] := by
          rwa [hagree queue hqueue hname]
        obtain ⟨other, hother, hotherName, hfind⟩ := @find?_brokerMaster_of_allocated view offsets
          now hoffset queue hqueue haddr run (Or.inr hchange)
        rw [hname] at hotherName hfind
        rw [hfind]
        intro known hsome
        rw [← Option.some.inj hsome]
        exact hagree other hother hotherName
      · exact Or.inl ⟨queue, hqueue, hname, hrest⟩

/-- A broker of which nothing is known stays so while its queues with an address are held. -/
theorem find?_brokerMaster_foldl_of_held {brokerName : ByteString}
    (hsubset : topics ⊆ view.subTable) {run : RebalanceRun}
    (hunknown : run.rebalanceImpl.brokerMaster.find? brokerName = none)
    (hheld : ∀ queue, view.Allocated queue → queue.brokerName = brokerName →
      view.masterAddr queue ≠ [] → queue ∈ run.rebalanceImpl.processQueueTable) :
    (topics.foldl (view.updateTopic offsets now)
      run).rebalanceImpl.brokerMaster.find? brokerName = none := by
  induction topics generalizing run with
  | nil => exact hunknown
  | cons topic rest ih =>
    have hparts := List.cons_subset.mp hsubset
    refine ih hparts.2 ?_ fun queue hqueue hname haddr ↦ ?_
    · rcases @find?_brokerMaster_updateTopic view offsets now topic hparts.1 run brokerName
        with hsame | ⟨queue, hqueue, hname, hchange, haddr, -⟩
      · rwa [hsame]
      · rcases hchange with hmissing | hknown
        · exact absurd (hheld queue hqueue hname haddr) hmissing
        · exact absurd hunknown hknown
    · by_cases htopic : queue.topic = topic
      · obtain ⟨hsubscribed, mqSet, hallocated, hmem⟩ := hqueue
        rw [← htopic]
        exact (mem_updateTopic_of_eq hoffset hsubscribed hallocated run).mpr hmem
      · exact (mem_updateTopic_of_ne htopic run).mpr (hheld queue hqueue hname haddr)

/-- A missing queue with an address makes the address of its broker known. -/
theorem find?_brokerMaster_foldl_of_missing {queue : MessageQueue} (hqueue : view.Allocated queue)
    (haddr : view.masterAddr queue ≠ []) (hsubset : topics ⊆ view.subTable)
    (hmem : queue.topic ∈ topics) {run : RebalanceRun}
    (habsent : queue ∉ run.rebalanceImpl.processQueueTable) :
    (topics.foldl (view.updateTopic offsets now)
      run).rebalanceImpl.brokerMaster.find? queue.brokerName ≠ none := by
  induction topics generalizing run with
  | nil => exact absurd hmem List.not_mem_nil
  | cons topic rest ih =>
    have hparts := List.cons_subset.mp hsubset
    by_cases htopic : queue.topic = topic
    · rw [List.foldl_cons, ← htopic]
      refine find?_brokerMaster_foldl_ne_none hparts.2 ?_
      obtain ⟨other, -, -, hfind⟩ := @find?_brokerMaster_of_allocated view offsets now hoffset queue
        hqueue haddr run (Or.inl habsent)
      rw [hfind]
      exact Option.some_ne_none _
    · refine ih hparts.2 ((List.mem_cons.mp hmem).resolve_left htopic) ?_
      rwa [mem_updateTopic_of_ne htopic]

end Topics

/-! ### The first rebalance -/

section First

variable {view : RebalanceView} {offsets : MessageQueue → ℤ} {now : ℤ}

/-- After a rebalance the table has queues of subscribed topics only. -/
theorem topic_of_mem_updateAndTruncate {impl : RebalanceImpl} {queue : MessageQueue}
    (hmem : queue ∈ (view.updateAndTruncate offsets now impl).rebalanceImpl.processQueueTable) :
    queue.topic ∈ view.subTable :=
  ((RebalanceImpl.mem_truncateMessageQueueNotMyTopic _ view.subTable queue).mp hmem).2

variable (hoffset : ∀ queue, view.Allocated queue → 0 ≤ offsets queue)

include hoffset

/-- After a rebalance the queues of a topic in the table are those allocated. -/
theorem mem_updateAndTruncate_iff {impl : RebalanceImpl} {queue : MessageQueue}
    {mqSet : List MessageQueue} (hsubscribed : queue.topic ∈ view.subTable)
    (hallocated : view.allocatedQueues queue.topic = some mqSet) :
    queue ∈ (view.updateAndTruncate offsets now impl).rebalanceImpl.processQueueTable ↔
      queue ∈ mqSet := by
  have hloop := @mem_foldl_of_mem view offsets now view.subTable hoffset queue mqSet hsubscribed
    hsubscribed hallocated ⟨{ impl with downBrokerName := [] }, [], []⟩
  rw [← hloop]
  refine (RebalanceImpl.mem_truncateMessageQueueNotMyTopic _ view.subTable queue).trans ?_
  exact and_iff_left hsubscribed

/-- The known addresses agree with the routes after a rebalance exactly when it starts from a
settled state. -/
theorem agreed_updateAndTruncate_iff (impl : RebalanceImpl) :
    view.Agreed (view.updateAndTruncate offsets now impl).rebalanceImpl.brokerMaster ↔
      view.Settled impl := by
  have hmaster : (view.updateAndTruncate offsets now impl).rebalanceImpl.brokerMaster =
      (view.updateTopics offsets now impl).rebalanceImpl.brokerMaster :=
    RebalanceImpl.brokerMaster_truncateMessageQueueNotMyTopic _ view.subTable
  rw [hmaster]
  have hsubset : view.subTable ⊆ view.subTable := fun _ htopic ↦ htopic
  constructor
  · intro hagreed brokerName
    cases hafter : (view.updateTopics offsets now impl).rebalanceImpl.brokerMaster.find?
      brokerName with
    | none =>
      left
      have hbefore : impl.brokerMaster.find? brokerName = none := by
        by_contra hknown
        exact find?_brokerMaster_foldl_ne_none hsubset hknown hafter
      refine ⟨hbefore, fun queue hqueue hname haddr ↦ ?_⟩
      by_contra habsent
      subst hname
      exact find?_brokerMaster_foldl_of_missing hoffset hqueue haddr hsubset hqueue.1 habsent hafter
    | some addr =>
      right
      have hagree : ∀ queue, view.Allocated queue → queue.brokerName = brokerName →
          view.masterAddr queue = addr := by
        intro queue hqueue hname
        subst hname
        exact (hagreed queue hqueue addr hafter).symm
      refine ⟨addr, hagree, ?_⟩
      rcases find?_brokerMaster_foldl hsubset ⟨{ impl with downBrokerName := [] }, [], []⟩
        brokerName with hsame | ⟨queue, hqueue, hname, haddr⟩
      · exact Or.inr (Or.inr (hsame.symm.trans hafter))
      · exact Or.inl (hagree queue hqueue hname ▸ haddr)
  · intro hsettled queue hqueue known hknown
    rcases hsettled queue.brokerName with ⟨hunknown, hheld⟩ | ⟨addr, hagree, haddr⟩
    · have hstill := @find?_brokerMaster_foldl_of_held view offsets now view.subTable hoffset
        queue.brokerName hsubset ⟨{ impl with downBrokerName := [] }, [], []⟩ hunknown hheld
      rw [updateTopics, hstill] at hknown
      exact absurd hknown.symm (Option.some_ne_none known)
    · rw [hagree queue hqueue rfl]
      by_cases hne : addr = []
      · have hsame := (@find?_brokerMaster_foldl view offsets now view.subTable hsubset
          ⟨{ impl with downBrokerName := [] }, [], []⟩ queue.brokerName).resolve_right ?_
        · rw [updateTopics, hsame] at hknown
          rcases haddr with hnonempty | hnone | hsome
          · exact absurd hne hnonempty
          · exact absurd (hknown.symm.trans hnone) (Option.some_ne_none known)
          · exact Option.some.inj (hknown.symm.trans hsome)
        · rintro ⟨other, hother, hname, hnonempty⟩
          exact hnonempty ((hagree other hother hname).trans hne)
      · exact find?_brokerMaster_foldl_of_agree hoffset hne hagree hsubset
          (Or.inl ⟨queue, hqueue, rfl, hqueue.1⟩) known hknown

end First

/-! ### The second rebalance -/

section Second

variable {view : RebalanceView} {offsets : MessageQueue → ℤ} {now : ℤ} {topics : List ByteString}

/-- Every topic is in place. -/
def AllInPlace (view : RebalanceView) (offsets : MessageQueue → ℤ) (now : ℤ)
    (topics : List ByteString) (impl : RebalanceImpl) : Prop :=
  ∀ topic ∈ topics, ∀ mqSet ∈ view.allocatedQueues topic,
    RebalanceImpl.InPlace (view.input offsets now topic mqSet) impl

/-- Topics in place are rebalanced without a change. -/
theorem foldl_of_allInPlace {run : RebalanceRun} (hdown : run.rebalanceImpl.downBrokerName = [])
    (hplace : AllInPlace view offsets now topics run.rebalanceImpl)
    (hreports : ∀ report ∈ run.reports, report = false) :
    (topics.foldl (view.updateTopic offsets now) run).rebalanceImpl = run.rebalanceImpl ∧
      (topics.foldl (view.updateTopic offsets now) run).dispatched = run.dispatched ∧
      ∀ report ∈ (topics.foldl (view.updateTopic offsets now) run).reports,
        report = false := by
  induction topics generalizing run with
  | nil => exact ⟨rfl, rfl, hreports⟩
  | cons topic rest ih =>
    have hrest : AllInPlace view offsets now rest run.rebalanceImpl :=
      fun other hother ↦ hplace other (List.mem_cons_of_mem topic hother)
    rw [List.foldl_cons]
    cases hallocated : view.allocatedQueues topic with
    | none =>
      have hskip : view.updateTopic offsets now run topic = run := by
        simp [updateTopic, hallocated]
      rw [hskip]
      exact ih hdown hrest hreports
    | some mqSet =>
      have hpass := RebalanceImpl.updateProcessQueueTableInRebalance_of_inPlace hdown
        (hplace topic List.mem_cons_self mqSet hallocated)
      have hquiet : view.updateTopic offsets now run topic =
          { run with reports := run.reports ++ [false] } := by
        simp [updateTopic, updateWith, hallocated, hpass]
      rw [hquiet]
      refine ih hdown hrest fun report hreport ↦ ?_
      rcases List.mem_append.mp hreport with hbefore | hnew
      · exact hreports report hbefore
      · exact List.mem_singleton.mp hnew

theorem reports_subset_foldl (run : RebalanceRun) :
    run.reports ⊆ (topics.foldl (view.updateTopic offsets now) run).reports := by
  induction topics generalizing run with
  | nil => exact fun _ hreport ↦ hreport
  | cons topic rest ih =>
    refine List.Subset.trans ?_ (ih (view.updateTopic offsets now run topic))
    unfold updateTopic
    split
    · exact fun _ hreport ↦ hreport
    · exact List.subset_append_left _ _

variable (hoffset : ∀ queue, view.Allocated queue → 0 ≤ offsets queue)

include hoffset

/-- Topics that report no change are in place. -/
theorem allInPlace_of_foldl (hsubset : topics ⊆ view.subTable) {run : RebalanceRun}
    (hdown : run.rebalanceImpl.downBrokerName = [])
    (hreports : ∀ report ∈ (topics.foldl (view.updateTopic offsets now) run).reports,
      report = false) : AllInPlace view offsets now topics run.rebalanceImpl := by
  induction topics generalizing run with
  | nil => exact fun topic htopic ↦ absurd htopic List.not_mem_nil
  | cons topic rest ih =>
    have hparts := List.cons_subset.mp hsubset
    rw [List.foldl_cons] at hreports
    cases hallocated : view.allocatedQueues topic with
    | none =>
      have hskip : view.updateTopic offsets now run topic = run := by
        simp [updateTopic, hallocated]
      rw [hskip] at hreports
      refine List.forall_mem_cons.mpr ⟨fun mqSet hsome ↦ ?_, ih hparts.2 hdown hreports⟩
      exact absurd (hallocated.symm.trans hsome).symm (Option.some_ne_none mqSet)
    | some mqSet =>
      have hreport : ((run.rebalanceImpl.updateProcessQueueTableInRebalance
          (view.input offsets now topic mqSet)).changed) = false := by
        refine hreports _ (reports_subset_foldl _ ?_)
        simp [updateTopic, updateWith, hallocated]
      have hplace := RebalanceImpl.inPlace_of_unchanged (fun queue hqueue ↦ ?_) hreport
      · have hpass := RebalanceImpl.updateProcessQueueTableInRebalance_of_inPlace hdown hplace
        have hquiet : view.updateTopic offsets now run topic =
            { run with reports := run.reports ++ [false] } := by
          simp [updateTopic, updateWith, hallocated, hpass]
        rw [hquiet] at hreports
        refine List.forall_mem_cons.mpr ⟨fun other hother ↦ ?_,
          @ih hparts.2 { run with reports := run.reports ++ [false] } hdown hreports⟩
        rw [← Option.some.inj (hallocated.symm.trans hother)]
        exact hplace
      · have htopic := topic_of_mem_allocatedQueues hallocated hqueue
        exact hoffset queue ⟨htopic ▸ hparts.1, mqSet, htopic ▸ hallocated, hqueue⟩

/-- A rebalance of subscribed topics is quiet exactly when they are all in place. -/
theorem quiet_updateAndTruncate_iff {impl : RebalanceImpl}
    (hall : ∀ queue ∈ impl.processQueueTable, queue.topic ∈ view.subTable) :
    Quiet impl (view.updateAndTruncate offsets now impl) ↔
      AllInPlace view offsets now view.subTable { impl with downBrokerName := [] } := by
  have hsubset : view.subTable ⊆ view.subTable := fun _ htopic ↦ htopic
  constructor
  · intro hquiet
    exact @allInPlace_of_foldl view offsets now view.subTable hoffset hsubset
      ⟨{ impl with downBrokerName := [] }, [], []⟩ rfl hquiet.reports
  · intro hplace
    obtain ⟨himpl, hdispatched, hreports⟩ := @foldl_of_allInPlace view offsets now view.subTable
      ⟨{ impl with downBrokerName := [] }, [], []⟩ rfl hplace
      fun report hreport ↦ absurd hreport List.not_mem_nil
    have hsame : (view.updateAndTruncate offsets now impl).rebalanceImpl =
        { impl with downBrokerName := [] } := by
      refine Eq.trans ?_ (@RebalanceImpl.truncateMessageQueueNotMyTopic_of_all
        { impl with downBrokerName := [] } view.subTable hall)
      exact congrArg (fun impl ↦ impl.truncateMessageQueueNotMyTopic view.subTable) himpl
    refine ⟨?_, fun address ↦ ?_, hdispatched, hreports⟩
    · rw [hsame]
    · rw [hsame]

end Second

/-- From a settled state, and only from one, the second of two rebalances in a row has nothing to
do. -/
theorem quiet_updateAndTruncate_iff_settled (view : RebalanceView)
    (offsets offsets' : MessageQueue → ℤ) (now now' : ℤ) (impl : RebalanceImpl)
    (hoffset : ∀ queue, view.Allocated queue → 0 ≤ offsets queue)
    (hoffset' : ∀ queue, view.Allocated queue → 0 ≤ offsets' queue) :
    Quiet (view.updateAndTruncate offsets now impl).rebalanceImpl
        (view.updateAndTruncate offsets' now'
          (view.updateAndTruncate offsets now impl).rebalanceImpl) ↔
      view.Settled impl := by
  rw [← @agreed_updateAndTruncate_iff view offsets now hoffset,
    @quiet_updateAndTruncate_iff view offsets' now' hoffset' _
      fun queue ↦ topic_of_mem_updateAndTruncate]
  constructor
  · rintro hplace queue ⟨hsubscribed, mqSet, hallocated, hmem⟩
    have hheld := (@mem_updateAndTruncate_iff view offsets now hoffset impl queue mqSet hsubscribed
      hallocated).mpr hmem
    exact (hplace queue.topic hsubscribed mqSet hallocated).master queue hheld rfl
  · intro hagreed topic hsubscribed mqSet hallocated
    have hheld : ∀ queue, queue.topic = topic →
        (queue ∈ (view.updateAndTruncate offsets now impl).rebalanceImpl.processQueueTable ↔
          queue ∈ mqSet) := by
      rintro queue rfl
      exact mem_updateAndTruncate_iff hoffset hsubscribed hallocated
    refine ⟨fun queue hmem htopic ↦ (hheld queue htopic).mp hmem, ?_, fun queue hqueue ↦ ?_⟩
    · rintro queue hmem rfl
      exact hagreed queue ⟨hsubscribed, mqSet, hallocated, (hheld queue rfl).mp hmem⟩
    · exact (hheld queue (topic_of_mem_allocatedQueues hallocated hqueue)).mpr hqueue

/-- Of two rebalances in a row, with the same view and successful offset queries, both have a
defined result and the second is quiet, exactly when the strategy returns for every topic and the
first one starts from a settled state. -/
theorem doRebalance_quiet_iff (view : RebalanceView) (offsets offsets' : MessageQueue → ℤ)
    (now now' : ℤ) (impl : RebalanceImpl)
    (hoffset : ∀ queue, view.Allocated queue → 0 ≤ offsets queue)
    (hoffset' : ∀ queue, view.Allocated queue → 0 ≤ offsets' queue) :
    (∃ first ∈ view.doRebalance offsets now impl,
      ∃ second ∈ view.doRebalance offsets' now' first.rebalanceImpl,
        Quiet first.rebalanceImpl second) ↔
      view.Returns ∧ view.Settled impl := by
  rw [← quiet_updateAndTruncate_iff_settled view offsets offsets' now now' impl hoffset hoffset']
  simp only [mem_doRebalance_iff_returns]
  constructor
  · rintro ⟨first, ⟨hreturns, rfl⟩, second, ⟨-, rfl⟩, hquiet⟩
    exact ⟨hreturns, hquiet⟩
  · rintro ⟨hreturns, hquiet⟩
    exact ⟨_, ⟨hreturns, rfl⟩, _, ⟨hreturns, rfl⟩, hquiet⟩

/-- A route with one broker, named 120, and its master. -/
def routeTo (addr : ByteString) : TopicRouteData :=
  ⟨[], [⟨[120], 1, 1, 6⟩], [⟨[120], OrderedMap.empty.assign masterId addr⟩]⟩

/-- A broadcasting consumer of topics with one queue each on broker 120. -/
def broadcastingView (topics : List ByteString)
    (routes : OrderedMap ByteString TopicRouteData) : RebalanceView where
  messageModel := .broadcasting
  subTable := topics
  topicSubscribeInfoTable := OrderedMap.empty.assignPairs
    (topics.map fun topic ↦ (topic, [⟨topic, [120], 0⟩]))
  ofTopic := by
    intro entry hentry queue hqueue
    have hpair := (OrderedMap.mem_entries_of_assignPairs hentry).resolve_left List.not_mem_nil
    obtain ⟨topic, -, rfl⟩ := List.mem_map.mp hpair
    rw [List.mem_singleton.mp hqueue]
  consumerIdList := fun _ ↦ []
  clientId := [99]
  strategy := allocateMessageQueueAveragely
  topicRouteTable := routes

/-- With one topic, whose route gives the broker an address, the first rebalance inserts the queue
and the second has nothing to do. -/
theorem doRebalance_quiet_of_one_topic :
    ∃ first ∈ (broadcastingView [[97]] (OrderedMap.empty.assign [97] (routeTo [49]))).doRebalance
        (fun _ ↦ 0) 0 RebalanceImpl.initial,
      first.reports = [true] ∧
      ∃ second ∈ (broadcastingView [[97]] (OrderedMap.empty.assign [97]
          (routeTo [49]))).doRebalance (fun _ ↦ 0) 1 first.rebalanceImpl,
        Quiet first.rebalanceImpl second := by
  have hboth := (doRebalance_quiet_iff (broadcastingView [[97]] (OrderedMap.empty.assign [97]
    (routeTo [49]))) (fun _ ↦ 0) (fun _ ↦ 0) 0 1 RebalanceImpl.initial (fun _ _ ↦ le_rfl)
    fun _ _ ↦ le_rfl).mpr ?_
  · obtain ⟨first, hfirst, hsecond⟩ := hboth
    refine ⟨first, hfirst, ?_, hsecond⟩
    obtain rfl := Option.some.inj hfirst
    decide
  · refine ⟨fun topic _ mqSet _ hmodel ↦ absurd hmodel (by decide),
      fun brokerName ↦ Or.inr ⟨[49], ?_, Or.inl (List.cons_ne_nil _ _)⟩⟩
    rintro ⟨topic, broker, queueId⟩ ⟨htopic, mqSet, hallocated, hqueue⟩ -
    obtain rfl : topic = [97] := List.mem_singleton.mp htopic
    obtain rfl : [⟨[97], [120], 0⟩] = mqSet := Option.some.inj hallocated
    rw [List.mem_singleton.mp hqueue]
    decide

/-- Two topics whose routes give the master of broker 120 the addresses 49 and 50. -/
def disagreeingView : RebalanceView :=
  broadcastingView [[97], [98]]
    ((OrderedMap.empty.assign [97] (routeTo [49])).assign [98] (routeTo [50]))

/-- The second rebalance of two topics whose routes disagree reports a change for both. -/
theorem doRebalance_not_quiet :
    ∃ first ∈ disagreeingView.doRebalance (fun _ ↦ 0) 0 RebalanceImpl.initial,
      ∃ second ∈ disagreeingView.doRebalance (fun _ ↦ 0) 1 first.rebalanceImpl,
        second.reports = [true, true] ∧ ¬ Quiet first.rebalanceImpl second := by
  refine ⟨_, rfl, _, rfl, by decide, fun hquiet ↦ ?_⟩
  exact Bool.noConfusion (hquiet.reports true (by decide))

end RebalanceView

end RocketMQClient.Consumer
