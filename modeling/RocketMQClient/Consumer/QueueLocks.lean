import RocketMQClient.Consumer.OrderlyRequest
import RocketMQClient.Consumer.ProcessQueueTable
import RocketMQClient.Consumer.PullKernel
import RocketMQClient.Library.OrderedSet

/-!
# Locking the queues of the table

A client that consumes in order locks all queues of its table again and again. `lockAll` groups the
queues by broker, sends one request to the master of each broker, marks the queues of the answer as
locked and the others of that broker as not locked; `unlockAll` gives the queues back in the same
groups. A broker without a known master is skipped, and so is one whose request fails.

`lock_requests` says what the two loops do to each queue of any table that rebalances can leave: the
queue is in one request at most, which holds all queues of its broker and goes to its master, and
its flag is what the answer says about it, or what it was. `lock` for one queue sets the flag when
the queue is granted and never takes it back.

The loop over the brokers is seen from one entry of the table: the iteration of its own broker
decides (`lockBroker_own`), and all others leave it alone (`lockBroker_other`), provided that no two
entries share a process queue (`Separate`), which every sequence of table operations keeps. That a
broker grants only what it was asked for is what is assumed of it (`LockCalls.Honest`).
-/

set_option autoImplicit false
set_option relaxedAutoImplicit false

namespace RocketMQClient.Consumer

open Library Messages

/-- What the calls find outside: the addresses of the brokers, the queues that a broker grants
unless the request fails, whether an unlock request goes through, and the clock when a queue is
marked. -/
structure LockCalls where
  brokerAddrTable : BrokerAddrTable
  lockBatchMQ : ByteString → OrderedSet MessageQueue → Option (OrderedSet MessageQueue)
  unlockBatchMQ : ByteString → OrderedSet MessageQueue → Bool
  now : MessageQueue → ℤ

namespace LockCalls

/-- The address of the master of a broker, unless it is empty. -/
def masterAddr (calls : LockCalls) (brokerName : ByteString) : Option ByteString :=
  (findBrokerAddressInSubscribe calls.brokerAddrTable brokerName Factory.masterId true).bind
    fun result ↦ if result.findBrokerResult.brokerAddr.isEmpty then none
      else some result.findBrokerResult.brokerAddr

/-- The answer to a lock request for queues of a broker. -/
def lockAnswer (calls : LockCalls) (brokerName : ByteString) (mqs : OrderedSet MessageQueue) :
    Option (OrderedSet MessageQueue) :=
  (calls.masterAddr brokerName).bind fun addr ↦ calls.lockBatchMQ addr mqs

/-- Whether an unlock request for queues of a broker is sent and goes through. -/
def unlockAnswer (calls : LockCalls) (brokerName : ByteString) (mqs : OrderedSet MessageQueue) :
    Bool :=
  (calls.masterAddr brokerName).any fun addr ↦ calls.unlockBatchMQ addr mqs

/-- A broker grants only queues that it is asked for. -/
def Honest (calls : LockCalls) : Prop :=
  ∀ addr mqs granted, calls.lockBatchMQ addr mqs = some granted → ∀ queue ∈ granted, queue ∈ mqs

end LockCalls

namespace RebalanceImpl

/-! ### The operations of the source -/

/-- Marks the process queue of a message queue, if the table has one. -/
def setLocked (impl : RebalanceImpl) (mq : MessageQueue) (locked : Bool) (now : ℤ) :
    RebalanceImpl :=
  match impl.processQueueTable.find? mq with
  | none => impl
  | some address =>
    impl.setProcessQueue address ((impl.processQueues address).setLocked locked now)

/-- Puts a queue into the set of its broker. -/
def addToBroker (result : OrderedMap ByteString (OrderedSet MessageQueue)) (mq : MessageQueue) :
    OrderedMap ByteString (OrderedSet MessageQueue) :=
  match result.find? mq.brokerName with
  | none => result.assign mq.brokerName (OrderedSet.insert OrderedSet.empty mq)
  | some mqs => result.assign mq.brokerName (OrderedSet.insert mqs mq)

/-- The queues of the table by the names of their brokers. -/
def buildProcessQueueTableByBrokerName (impl : RebalanceImpl) :
    OrderedMap ByteString (OrderedSet MessageQueue) :=
  impl.processQueueTable.keys.foldl addToBroker OrderedMap.empty

/-- Marks the queues of an answer. -/
def markLocked (calls : LockCalls) (impl : RebalanceImpl) (mqs : List MessageQueue) :
    RebalanceImpl :=
  mqs.foldl (fun current mq ↦ current.setLocked mq true (calls.now mq)) impl

/-- Takes the marks of queues. -/
def markUnlocked (calls : LockCalls) (impl : RebalanceImpl) (mqs : List MessageQueue) :
    RebalanceImpl :=
  mqs.foldl (fun current mq ↦ current.setLocked mq false (calls.now mq)) impl

/-- `lock`: whether the queue is granted, and the table after that. -/
def lock (calls : LockCalls) (impl : RebalanceImpl) (mq : MessageQueue) : Bool × RebalanceImpl :=
  match calls.lockAnswer mq.brokerName (OrderedSet.insert OrderedSet.empty mq) with
  | none => (false, impl)
  | some lockedMq => (mq ∈ lockedMq, impl.markLocked calls (OrderedSet.toList lockedMq))

/-- The body of the loop of `lockAll`. -/
def lockBroker (calls : LockCalls) (impl : RebalanceImpl)
    (entry : ByteString × OrderedSet MessageQueue) : RebalanceImpl :=
  if entry.2.isEmpty then impl
  else
    match calls.lockAnswer entry.1 entry.2 with
    | none => impl
    | some lockOKMQSet =>
      (impl.markLocked calls (OrderedSet.toList lockOKMQSet)).markUnlocked calls
        ((OrderedSet.toList entry.2).filter fun mq ↦ mq ∉ lockOKMQSet)

/-- `lockAll`. -/
def lockAll (calls : LockCalls) (impl : RebalanceImpl) : RebalanceImpl :=
  impl.buildProcessQueueTableByBrokerName.entries.foldl (lockBroker calls) impl

/-- The body of the loop of `unlockAll`. -/
def unlockBroker (calls : LockCalls) (impl : RebalanceImpl)
    (entry : ByteString × OrderedSet MessageQueue) : RebalanceImpl :=
  if entry.2.isEmpty then impl
  else if calls.unlockAnswer entry.1 entry.2 then
    impl.markUnlocked calls (OrderedSet.toList entry.2)
  else impl

/-- `unlockAll`. -/
def unlockAll (calls : LockCalls) (impl : RebalanceImpl) : RebalanceImpl :=
  impl.buildProcessQueueTableByBrokerName.entries.foldl (unlockBroker calls) impl

/-- The request for the queues of a broker. -/
def sendRequest (calls : LockCalls) (sent : List (ByteString × OrderedSet MessageQueue))
    (entry : ByteString × OrderedSet MessageQueue) : List (ByteString × OrderedSet MessageQueue) :=
  if entry.2.isEmpty then sent
  else
    match calls.masterAddr entry.1 with
    | none => sent
    | some addr => sent ++ [(addr, entry.2)]

/-- The requests that `lockAll` or `unlockAll` sends, each with its address. -/
def lockRequests (calls : LockCalls) (impl : RebalanceImpl) :
    List (ByteString × OrderedSet MessageQueue) :=
  impl.buildProcessQueueTableByBrokerName.entries.foldl (sendRequest calls) []

/-! ### One process queue for each entry -/

/-- No two entries share a process queue, and the next one is new. -/
structure Separate (impl : RebalanceImpl) : Prop where
  bounded : impl.Bounded
  distinct : ∀ first ∈ impl.processQueueTable.entries, ∀ second ∈ impl.processQueueTable.entries,
    first.2 = second.2 → first = second

theorem Separate.of_shrinks {impl next : RebalanceImpl} (hseparate : impl.Separate)
    (hshrinks : impl.Shrinks next) : next.Separate where
  bounded := fun entry hentry ↦
    hshrinks.allocated ▸ hseparate.bounded entry (hshrinks.entries entry hentry)
  distinct := fun first hfirst second hsecond ↦
    hseparate.distinct first (hshrinks.entries first hfirst) second
      (hshrinks.entries second hsecond)

theorem Separate.of_extended {pass next : RebalancePass} {added : List PullRequest}
    (hseparate : pass.rebalanceImpl.Separate) (hextended : Extended pass next added) :
    next.rebalanceImpl.Separate := by
  refine ⟨hextended.supersedes.bounded hseparate.bounded,
    fun first hfirst second hsecond hsame ↦ ?_⟩
  rcases (hextended.entries first).mp hfirst with hold | hnew <;>
    rcases (hextended.entries second).mp hsecond with hold' | hnew'
  · exact hseparate.distinct first hold second hold' hsame
  · obtain ⟨request, hrequest, rfl⟩ := List.mem_map.mp hnew'
    have hlt := hseparate.bounded first hold
    rw [hsame] at hlt
    exact absurd hlt (not_lt.mpr (hextended.fresh request hrequest).1)
  · obtain ⟨request, hrequest, rfl⟩ := List.mem_map.mp hnew
    have hlt := hseparate.bounded second hold'
    rw [← hsame] at hlt
    exact absurd hlt (not_lt.mpr (hextended.fresh request hrequest).1)
  · obtain ⟨request, hrequest, rfl⟩ := List.mem_map.mp hnew
    obtain ⟨request', hrequest', rfl⟩ := List.mem_map.mp hnew'
    exact congrArg PullRequest.entry (List.inj_on_of_nodup_map hextended.distinct hrequest
      hrequest' hsame)

theorem separate_apply {impl : RebalanceImpl} (hseparate : impl.Separate)
    (operation : TableOperation) : (operation.apply impl).Separate := by
  cases operation with
  | doRebalance => exact ⟨hseparate.bounded, hseparate.distinct⟩
  | updateProcessQueueTableInRebalance input =>
    have hremoved : impl.Shrinks (impl.removalLoop input).rebalanceImpl :=
      (shrinks_foldl_removeUnnecessary input _ ⟨impl, [], false⟩).1
    exact (hseparate.of_shrinks hremoved).of_extended
      (extended_foldl_addMissing input input.mqSet (impl.removalLoop input))
  | truncateMessageQueueNotMyTopic subTable =>
    exact hseparate.of_shrinks (shrinks_truncateMessageQueueNotMyTopic impl subTable)
  | removeProcessQueue queue => exact hseparate.of_shrinks (shrinks_removeProcessQueue impl queue)
  | useProcessQueue address queue => exact ⟨hseparate.bounded, hseparate.distinct⟩

/-- In every table that operations leave, each entry has a process queue of its own. -/
theorem separate_run (operations : List TableOperation) :
    (TableOperation.run initial operations).Separate := by
  unfold TableOperation.run
  refine List.foldlRecOn _ _ ⟨fun entry hentry ↦ absurd hentry List.not_mem_nil,
    fun first hfirst ↦ absurd hfirst List.not_mem_nil⟩ fun current hcurrent operation _ ↦ ?_
  exact separate_apply hcurrent operation

/-! ### What the marks do to one entry -/

section Marks

variable {calls : LockCalls} {impl current : RebalanceImpl} {entry : MessageQueue × ℕ}

theorem setLocked_table (mq : MessageQueue) (locked : Bool) (now : ℤ) :
    (impl.setLocked mq locked now).processQueueTable = impl.processQueueTable := by
  unfold setLocked
  split <;> rfl

/-- A mark goes to the process queue of its own entry only. -/
theorem setLocked_processQueues (hseparate : impl.Separate)
    (hentry : entry ∈ impl.processQueueTable.entries)
    (hcurrent : current.processQueueTable = impl.processQueueTable) (mq : MessageQueue)
    (locked : Bool) (now : ℤ) :
    (current.setLocked mq locked now).processQueues entry.2 =
      if entry.1 = mq then (current.processQueues entry.2).setLocked locked now
      else current.processQueues entry.2 := by
  unfold setLocked
  rw [hcurrent]
  by_cases hsame : entry.1 = mq
  · subst hsame
    rw [OrderedMap.find?_eq_some.mpr hentry, if_pos rfl]
    exact if_pos rfl
  · rw [if_neg hsame]
    cases hfind : impl.processQueueTable.find? mq with
    | none => rfl
    | some address =>
      refine if_neg fun haddress ↦ hsame ?_
      exact congrArg Prod.fst (hseparate.distinct entry hentry (mq, address)
        (OrderedMap.find?_eq_some.mp hfind) haddress)

theorem setLocked_twice (queue : ProcessQueue) (locked : Bool) (now : ℤ) :
    (queue.setLocked locked now).setLocked locked now = queue.setLocked locked now := by
  cases locked <;> rfl

theorem foldl_setLocked_table (locked : Bool) (mqs : List MessageQueue) :
    (mqs.foldl (fun marked mq ↦ marked.setLocked mq locked (calls.now mq))
      current).processQueueTable = current.processQueueTable := by
  induction mqs generalizing current with
  | nil => rfl
  | cons mq rest ih => exact ih.trans (setLocked_table mq locked _)

/-- A loop of marks. -/
theorem foldl_setLocked_processQueues (hseparate : impl.Separate)
    (hentry : entry ∈ impl.processQueueTable.entries)
    (hcurrent : current.processQueueTable = impl.processQueueTable) (locked : Bool)
    (mqs : List MessageQueue) :
    (mqs.foldl (fun marked mq ↦ marked.setLocked mq locked (calls.now mq)) current).processQueues
        entry.2 =
      if entry.1 ∈ mqs then (current.processQueues entry.2).setLocked locked (calls.now entry.1)
      else current.processQueues entry.2 := by
  induction mqs generalizing current with
  | nil => rfl
  | cons mq rest ih =>
    rw [List.foldl_cons, ih ((setLocked_table mq locked _).trans hcurrent),
      setLocked_processQueues hseparate hentry hcurrent]
    by_cases hsame : entry.1 = mq
    · subst hsame
      rw [if_pos rfl, if_pos List.mem_cons_self]
      split_ifs
      · exact setLocked_twice _ _ _
      · rfl
    · rw [if_neg hsame]
      simp [hsame]

end Marks

/-! ### The queues of a broker -/

section Groups

variable {impl : RebalanceImpl}

/-- What a map of sets by broker names holds of some queues. -/
def GroupsBroker (result : OrderedMap ByteString (OrderedSet MessageQueue))
    (queues : List MessageQueue) : Prop :=
  ∀ brokerName queue, (∃ mqs, result.find? brokerName = some mqs ∧ queue ∈ mqs) ↔
    queue ∈ queues ∧ queue.brokerName = brokerName

theorem groupsBroker_add {result : OrderedMap ByteString (OrderedSet MessageQueue)}
    {queues : List MessageQueue} (hgroups : GroupsBroker result queues) (mq : MessageQueue) :
    GroupsBroker (addToBroker result mq) (queues ++ [mq]) := by
  intro brokerName queue
  have hbefore := hgroups brokerName queue
  rw [List.mem_append, List.mem_singleton, or_and_right, ← hbefore]
  unfold addToBroker
  by_cases hname : brokerName = mq.brokerName
  · subst hname
    cases hfind : result.find? mq.brokerName with
    | none =>
      dsimp only
      rw [OrderedMap.find?_assign_self]
      simp only [Option.some.injEq, exists_eq_left', reduceCtorEq, false_and, exists_false,
        OrderedSet.mem_insert, OrderedSet.not_mem_empty, or_false, false_or]
      exact ⟨fun hsame ↦ ⟨hsame, congrArg _ hsame⟩, And.left⟩
    | some mqs =>
      dsimp only
      rw [OrderedMap.find?_assign_self]
      simp only [Option.some.injEq, exists_eq_left', OrderedSet.mem_insert, or_comm]
      refine or_congr_left ⟨fun hsame ↦ ⟨hsame, congrArg _ hsame⟩, And.left⟩
  · have hother : ∀ mqs, (result.assign mq.brokerName mqs).find? brokerName =
        result.find? brokerName := fun mqs ↦ OrderedMap.find?_assign_of_ne result mqs hname
    have hnew : ¬ (queue = mq ∧ queue.brokerName = brokerName) := by
      rintro ⟨rfl, hsame⟩
      exact hname hsame.symm
    split <;> rw [hother, or_iff_left hnew]

/-- The groups hold the queues of the table, each under the name of its broker. -/
theorem groupsBroker_build (impl : RebalanceImpl) :
    GroupsBroker impl.buildProcessQueueTableByBrokerName impl.processQueueTable.keys := by
  unfold buildProcessQueueTableByBrokerName
  induction impl.processQueueTable.keys using List.reverseRecOn with
  | nil =>
    intro brokerName queue
    simp [OrderedMap.find?, OrderedMap.empty]
  | append_singleton queues mq ih =>
    rw [List.foldl_append]
    exact groupsBroker_add ih mq

/-- Every queue of the table is in the group of its broker, with the other queues of that broker. -/
theorem exists_group {entry : MessageQueue × ℕ} (hentry : entry ∈ impl.processQueueTable.entries) :
    ∃ mqs, impl.buildProcessQueueTableByBrokerName.find? entry.1.brokerName = some mqs ∧
      ∀ queue, queue ∈ mqs ↔
        queue ∈ impl.processQueueTable ∧ queue.brokerName = entry.1.brokerName := by
  have hgroups := groupsBroker_build impl entry.1.brokerName
  obtain ⟨mqs, hfind, -⟩ := (hgroups entry.1).mpr ⟨OrderedMap.key_mem hentry, rfl⟩
  refine ⟨mqs, hfind, fun queue ↦ ?_⟩
  refine Iff.trans ⟨fun hmem ↦ ⟨mqs, hfind, hmem⟩, ?_⟩ (hgroups queue)
  rintro ⟨found, hfound, hmem⟩
  rw [hfind] at hfound
  exact Option.some.inj hfound ▸ hmem

theorem brokerName_of_mem {group : ByteString × OrderedSet MessageQueue}
    (hgroup : group ∈ impl.buildProcessQueueTableByBrokerName.entries) {queue : MessageQueue}
    (hqueue : queue ∈ group.2) : queue.brokerName = group.1 :=
  ((groupsBroker_build impl group.1 queue).mp
    ⟨group.2, OrderedMap.find?_eq_some.mpr hgroup, hqueue⟩).2

theorem isEmpty_eq_false {mqs : OrderedSet MessageQueue} {queue : MessageQueue}
    (hqueue : queue ∈ mqs) : mqs.isEmpty = false :=
  Bool.eq_false_of_not_eq_true fun hempty ↦ OrderedSet.isEmpty_iff.mp hempty queue hqueue

end Groups

/-! ### The loops over the brokers -/

section Loops

variable {calls : LockCalls} {impl current : RebalanceImpl} {entry : MessageQueue × ℕ}
  {group : ByteString × OrderedSet MessageQueue}

theorem lockBroker_table :
    (lockBroker calls current group).processQueueTable = current.processQueueTable := by
  unfold lockBroker
  split_ifs
  · rfl
  · split
    · rfl
    · exact (foldl_setLocked_table false _).trans (foldl_setLocked_table true _)

theorem unlockBroker_table :
    (unlockBroker calls current group).processQueueTable = current.processQueueTable := by
  unfold unlockBroker
  split_ifs
  · rfl
  · exact foldl_setLocked_table false _
  · rfl

/-- The process queue of a queue after the answer of its broker. -/
def afterLock (calls : LockCalls) (queue : MessageQueue) (mqs : OrderedSet MessageQueue)
    (processQueue : ProcessQueue) : ProcessQueue :=
  match calls.lockAnswer queue.brokerName mqs with
  | none => processQueue
  | some granted => processQueue.setLocked (queue ∈ granted) (calls.now queue)

/-- The process queue of a queue after the unlock request to its broker. -/
def afterUnlock (calls : LockCalls) (queue : MessageQueue) (mqs : OrderedSet MessageQueue)
    (processQueue : ProcessQueue) : ProcessQueue :=
  if calls.unlockAnswer queue.brokerName mqs then
    processQueue.setLocked false (calls.now queue)
  else processQueue

/-- The broker of an entry. -/
theorem lockBroker_own (hseparate : impl.Separate)
    (hentry : entry ∈ impl.processQueueTable.entries)
    (hcurrent : current.processQueueTable = impl.processQueueTable)
    {mqs : OrderedSet MessageQueue} (hmem : entry.1 ∈ mqs) :
    (lockBroker calls current (entry.1.brokerName, mqs)).processQueues entry.2 =
      afterLock calls entry.1 mqs (current.processQueues entry.2) := by
  unfold lockBroker afterLock
  rw [isEmpty_eq_false hmem, if_neg Bool.false_ne_true]
  cases calls.lockAnswer entry.1.brokerName mqs with
  | none => rfl
  | some granted =>
    have hmarked : (current.markLocked calls (OrderedSet.toList granted)).processQueueTable =
        impl.processQueueTable := (foldl_setLocked_table true _).trans hcurrent
    refine (foldl_setLocked_processQueues hseparate hentry hmarked false _).trans ?_
    rw [markLocked, foldl_setLocked_processQueues hseparate hentry hcurrent]
    by_cases hgranted : entry.1 ∈ granted
    · simp [hgranted]
    · simp [hgranted, hmem]

/-- Another broker, which grants only its own queues. -/
theorem lockBroker_other (hhonest : calls.Honest) (hseparate : impl.Separate)
    (hentry : entry ∈ impl.processQueueTable.entries)
    (hcurrent : current.processQueueTable = impl.processQueueTable) (hmem : entry.1 ∉ group.2) :
    (lockBroker calls current group).processQueues entry.2 = current.processQueues entry.2 := by
  unfold lockBroker
  split_ifs
  · rfl
  · split
    · rfl
    · rename_i granted hanswer
      have hnot : entry.1 ∉ granted := by
        obtain ⟨addr, -, hanswered⟩ := Option.bind_eq_some_iff.mp hanswer
        exact fun hgranted ↦ hmem (hhonest addr _ granted hanswered entry.1 hgranted)
      have hmarked : (current.markLocked calls (OrderedSet.toList granted)).processQueueTable =
          impl.processQueueTable := (foldl_setLocked_table true _).trans hcurrent
      refine (foldl_setLocked_processQueues hseparate hentry hmarked false _).trans ?_
      rw [markLocked, foldl_setLocked_processQueues hseparate hentry hcurrent, if_neg, if_neg]
      · exact hnot
      · exact fun hin ↦ hmem (List.mem_filter.mp hin).1

theorem unlockBroker_own (hseparate : impl.Separate)
    (hentry : entry ∈ impl.processQueueTable.entries)
    (hcurrent : current.processQueueTable = impl.processQueueTable)
    {mqs : OrderedSet MessageQueue} (hmem : entry.1 ∈ mqs) :
    (unlockBroker calls current (entry.1.brokerName, mqs)).processQueues entry.2 =
      afterUnlock calls entry.1 mqs (current.processQueues entry.2) := by
  unfold unlockBroker afterUnlock
  rw [isEmpty_eq_false hmem, if_neg Bool.false_ne_true]
  split_ifs
  · refine (foldl_setLocked_processQueues hseparate hentry hcurrent false _).trans ?_
    exact if_pos hmem
  · rfl

theorem unlockBroker_other (hseparate : impl.Separate)
    (hentry : entry ∈ impl.processQueueTable.entries)
    (hcurrent : current.processQueueTable = impl.processQueueTable) (hmem : entry.1 ∉ group.2) :
    (unlockBroker calls current group).processQueues entry.2 = current.processQueues entry.2 := by
  unfold unlockBroker
  split_ifs
  · rfl
  · refine (foldl_setLocked_processQueues hseparate hentry hcurrent false _).trans ?_
    exact if_neg hmem
  · rfl

/-- A loop over the brokers, seen from one entry of the table. -/
theorem foldl_brokers {body : RebalanceImpl → ByteString × OrderedSet MessageQueue → RebalanceImpl}
    {after : OrderedSet MessageQueue → ProcessQueue → ProcessQueue}
    (htable : ∀ state group, (body state group).processQueueTable = state.processQueueTable)
    (hown : ∀ state mqs, state.processQueueTable = impl.processQueueTable → entry.1 ∈ mqs →
      (body state (entry.1.brokerName, mqs)).processQueues entry.2 =
        after mqs (state.processQueues entry.2))
    (hother : ∀ state group, state.processQueueTable = impl.processQueueTable →
      entry.1 ∉ group.2 → (body state group).processQueues entry.2 = state.processQueues entry.2)
    {mqs : OrderedSet MessageQueue}
    (hfind : impl.buildProcessQueueTableByBrokerName.find? entry.1.brokerName = some mqs)
    (hmem : entry.1 ∈ mqs) :
    (impl.buildProcessQueueTableByBrokerName.entries.foldl body impl).processQueues entry.2 =
      after mqs (impl.processQueues entry.2) := by
  have hloop := @OrderedMap.foldl_entries _ _ _ _ _ impl.buildProcessQueueTableByBrokerName body
    (fun state ↦ state.processQueueTable = impl.processQueueTable)
    (fun state ↦ state.processQueues entry.2) entry.1.brokerName after
    (fun state group hstate ↦ (htable state group).trans hstate) ?_ ?_ impl rfl
  · rwa [hfind] at hloop
  · intro state value hvalue hstate
    obtain rfl := Option.some.inj (hfind.symm.trans (OrderedMap.find?_eq_some.mpr hvalue))
    exact hown state mqs hstate hmem
  · intro state group hgroup hname hstate
    exact hother state group hstate fun hin ↦ hname (brokerName_of_mem hgroup hin).symm

/-- The requests that have a queue in them. -/
theorem filter_lockRequests {mqs : OrderedSet MessageQueue}
    (hfind : impl.buildProcessQueueTableByBrokerName.find? entry.1.brokerName = some mqs)
    (hmem : entry.1 ∈ mqs) :
    (impl.lockRequests calls).filter (fun request ↦ entry.1 ∈ request.2) =
      ((calls.masterAddr entry.1.brokerName).map fun addr ↦ (addr, mqs)).toList := by
  have hloop := @OrderedMap.foldl_entries _ _ _ _ _ impl.buildProcessQueueTableByBrokerName
    (sendRequest calls) (fun _ ↦ True)
    (fun sent ↦ sent.filter fun request ↦ entry.1 ∈ request.2) entry.1.brokerName
    (fun group before ↦ before ++
      ((calls.masterAddr entry.1.brokerName).map fun addr ↦ (addr, group)).toList)
    (fun _ _ _ ↦ trivial) ?_ ?_ [] trivial
  · rw [hfind] at hloop
    exact hloop
  · intro sent value hvalue _
    obtain rfl := Option.some.inj (hfind.symm.trans (OrderedMap.find?_eq_some.mpr hvalue))
    unfold sendRequest
    rw [isEmpty_eq_false hmem, if_neg Bool.false_ne_true]
    cases calls.masterAddr entry.1.brokerName with
    | none => simp
    | some addr => simp [hmem]
  · intro sent group hgroup hname _
    have hnot : entry.1 ∉ group.2 := fun hin ↦ hname (brokerName_of_mem hgroup hin).symm
    unfold sendRequest
    split_ifs
    · rfl
    · split
      · rfl
      · simp [hnot]

end Loops

/-- `lock` leaves the marks of all queues that the broker does not grant. -/
theorem lock_processQueues {calls : LockCalls} {impl : RebalanceImpl} (hhonest : calls.Honest)
    (hseparate : impl.Separate) {entry : MessageQueue × ℕ}
    (hentry : entry ∈ impl.processQueueTable.entries) (mq : MessageQueue) :
    (impl.lock calls mq).2.processQueues entry.2 =
      if entry.1 = mq ∧ (impl.lock calls mq).1 = true then
        (impl.processQueues entry.2).setLocked true (calls.now mq)
      else impl.processQueues entry.2 := by
  unfold lock
  cases hanswer : calls.lockAnswer mq.brokerName (OrderedSet.insert OrderedSet.empty mq) with
  | none => simp
  | some granted =>
    obtain ⟨addr, -, hanswered⟩ := Option.bind_eq_some_iff.mp hanswer
    have honly : ∀ queue ∈ granted, queue = mq := by
      intro queue hqueue
      simpa using hhonest addr _ granted hanswered queue hqueue
    dsimp only
    refine (foldl_setLocked_processQueues hseparate hentry rfl true _).trans ?_
    by_cases hsame : entry.1 = mq
    · simp [hsame]
    · rw [if_neg fun hin : entry.1 ∈ OrderedSet.toList granted ↦ hsame (honly _ hin),
        if_neg fun hboth ↦ hsame hboth.1]

end RebalanceImpl

open RebalanceImpl

/-- Assumes: a broker grants only queues that it is asked for. For every table that rebalances
leave, and each of its queues: `lockAll` and `unlockAll` have the queue in one request, to the
master of its broker with all queues of that broker, or in none when no master is known; after
`lockAll` the queue is locked exactly when it is granted, and as before when the request is not sent
or fails; after `unlockAll` it is not locked, or as before; `lock` changes it only when it is the
one to be locked and is granted. -/
theorem lock_requests {calls : LockCalls} {operations : List TableOperation} {impl : RebalanceImpl}
    (hhonest : calls.Honest) (hrun : TableOperation.run initial operations = impl) :
    ∀ entry ∈ impl.processQueueTable.entries,
      (∃ mqs : OrderedSet MessageQueue,
        (∀ queue, queue ∈ mqs ↔
          queue ∈ impl.processQueueTable ∧ queue.brokerName = entry.1.brokerName) ∧
        (impl.lockRequests calls).filter (fun request ↦ entry.1 ∈ request.2) =
          ((calls.masterAddr entry.1.brokerName).map fun addr ↦ (addr, mqs)).toList ∧
        (impl.lockAll calls).processQueues entry.2 =
          afterLock calls entry.1 mqs (impl.processQueues entry.2) ∧
        (impl.unlockAll calls).processQueues entry.2 =
          afterUnlock calls entry.1 mqs (impl.processQueues entry.2)) ∧
      ∀ mq, (impl.lock calls mq).2.processQueues entry.2 =
        if entry.1 = mq ∧ (impl.lock calls mq).1 = true then
          (impl.processQueues entry.2).setLocked true (calls.now mq)
        else impl.processQueues entry.2 := by
  intro entry hentry
  have hseparate : impl.Separate := hrun ▸ separate_run operations
  obtain ⟨mqs, hfind, hmqs⟩ := exists_group hentry
  have hmem : entry.1 ∈ mqs := (hmqs entry.1).mpr ⟨OrderedMap.key_mem hentry, rfl⟩
  refine ⟨⟨mqs, hmqs, filter_lockRequests hfind hmem, ?_, ?_⟩,
    lock_processQueues hhonest hseparate hentry⟩
  · exact foldl_brokers (fun _ _ ↦ lockBroker_table)
      (fun _ _ hcurrent hin ↦ lockBroker_own hseparate hentry hcurrent hin)
      (fun _ _ hcurrent hnot ↦ lockBroker_other hhonest hseparate hentry hcurrent hnot) hfind hmem
  · exact foldl_brokers (fun _ _ ↦ unlockBroker_table)
      (fun _ _ hcurrent hin ↦ unlockBroker_own hseparate hentry hcurrent hin)
      (fun _ _ hcurrent hnot ↦ unlockBroker_other hseparate hentry hcurrent hnot) hfind hmem

/-- A rebalance that allocates two queues of one broker and a queue of another one. -/
def allocateThree : TableOperation :=
  .updateProcessQueueTableInRebalance
    { topic := [1]
      mqSet := [⟨[1], [2], 0⟩, ⟨[1], [2], 1⟩, ⟨[1], [3], 0⟩]
      masterAddrOfHeld := fun _ ↦ []
      masterAddrOfAdded := fun _ ↦ []
      computePullFromWhere := fun _ ↦ 0
      now := 5 }

/-- The first broker has a master, which grants the queue 0 of those it is asked for. -/
def firstQueueOnly : LockCalls where
  brokerAddrTable := OrderedMap.empty.assign [2] (OrderedMap.empty.assign 0 [9])
  lockBatchMQ := fun _ mqs ↦
    if (⟨[1], [2], 0⟩ : MessageQueue) ∈ mqs then
      some (OrderedSet.insert OrderedSet.empty ⟨[1], [2], 0⟩)
    else some OrderedSet.empty
  unlockBatchMQ := fun _ _ ↦ true
  now := fun _ ↦ 7

theorem honest_firstQueueOnly : firstQueueOnly.Honest := by
  intro addr mqs granted hanswer queue hqueue
  unfold firstQueueOnly at hanswer
  dsimp only at hanswer
  split_ifs at hanswer with hasked
  · obtain rfl := Option.some.inj hanswer
    rw [OrderedSet.mem_insert] at hqueue
    rcases hqueue with rfl | hnone
    · exact hasked
    · exact absurd hnone (OrderedSet.not_mem_empty queue)
  · obtain rfl := Option.some.inj hanswer
    exact absurd hqueue (OrderedSet.not_mem_empty queue)

theorem lockAnswer_firstQueueOnly {mqs : OrderedSet MessageQueue}
    (hasked : (⟨[1], [2], 0⟩ : MessageQueue) ∈ mqs) :
    firstQueueOnly.lockAnswer [2] mqs =
      some (OrderedSet.insert OrderedSet.empty ⟨[1], [2], 0⟩) :=
  if_pos hasked

/-- The two queues of the first broker are asked for in one request, of which one is granted; the
queue of the other broker is in no request. -/
theorem lock_requests_three :
    let impl := TableOperation.run initial [allocateThree]
    impl.processQueueTable.entries.map Prod.snd = [0, 1, 2] ∧
      (∃ mqs : OrderedSet MessageQueue, ⟨[1], [2], 0⟩ ∈ mqs ∧ ⟨[1], [2], 1⟩ ∈ mqs ∧
        ⟨[1], [3], 0⟩ ∉ mqs ∧ (impl.lockRequests firstQueueOnly).filter
          (fun request ↦ (⟨[1], [2], 0⟩ : MessageQueue) ∈ request.2) = [([9], mqs)]) ∧
      (impl.lockRequests firstQueueOnly).filter
        (fun request ↦ (⟨[1], [3], 0⟩ : MessageQueue) ∈ request.2) = [] ∧
      (impl.lockAll firstQueueOnly).processQueues 0 =
        (impl.processQueues 0).setLocked true 7 ∧
      (impl.lockAll firstQueueOnly).processQueues 1 =
        (impl.processQueues 1).setLocked false 7 ∧
      (impl.lockAll firstQueueOnly).processQueues 2 = impl.processQueues 2 ∧
      (impl.unlockAll firstQueueOnly).processQueues 0 =
        (impl.processQueues 0).setLocked false 7 ∧
      (impl.lock firstQueueOnly ⟨[1], [2], 0⟩).2.processQueues 1 = impl.processQueues 1 := by
  intro impl
  have hlocks := @lock_requests firstQueueOnly [allocateThree] impl honest_firstQueueOnly rfl
  obtain ⟨⟨mqs, hmqs, hrequests, hlocked, hunlocked⟩, -⟩ := hlocks (⟨[1], [2], 0⟩, 0) (by decide)
  obtain ⟨⟨same, hsame, -, hrefused, -⟩, hother⟩ := hlocks (⟨[1], [2], 1⟩, 1) (by decide)
  obtain ⟨⟨others, -, hnone, hkept, -⟩, -⟩ := hlocks (⟨[1], [3], 0⟩, 2) (by decide)
  have hfirst : (⟨[1], [2], 0⟩ : MessageQueue) ∈ mqs := (hmqs _).mpr (by decide)
  rw [afterLock, lockAnswer_firstQueueOnly hfirst] at hlocked
  rw [afterLock, lockAnswer_firstQueueOnly ((hsame _).mpr (by decide))] at hrefused
  exact ⟨by decide, ⟨mqs, hfirst, (hmqs _).mpr (by decide), mt (hmqs _).mp (by decide),
    hrequests⟩, hnone, hlocked, hrefused, hkept, hunlocked, hother ⟨[1], [2], 0⟩⟩

end RocketMQClient.Consumer
