import RocketMQClient.Consumer.ProcessQueue
import RocketMQClient.Library.TokenCustody
import RocketMQClient.Messages.MessageQueue

/-!
# The process queue table

A rebalance decides which message queues this client consumes. `updateProcessQueueTableInRebalance`
drops the entries of the table that are no longer allocated to the client, and those whose broker
has a new master, and then adds an entry with a new process queue and a new pull request for each
allocated queue that has none. The new pull requests leave the pass in a list and are dispatched to
the pull service at its end. `truncateMessageQueueNotMyTopic` and `removeProcessQueue` drop entries
as well.

Process queues are objects: the table holds their addresses, and `processQueues` their contents. A
process queue stays marked as dropped, so an entry is `Active` from the pass that adds it until it
is dropped. `Custody` says that every active entry has one pull request among the live ones, and
`custody_updateProcessQueueTableInRebalance` that a pass keeps it.
-/

set_option autoImplicit false
set_option relaxedAutoImplicit false

namespace RocketMQClient.Consumer

open Library Messages

/-- A pull request: the message queue, the address of its process queue and the next offset. -/
structure PullRequest where
  messageQueue : MessageQueue
  processQueue : ℕ
  nextOffset : ℤ
  deriving DecidableEq

/-- The table of process queues, the process queues by address, the next free address, the master
address of each known broker, and the brokers that changed their master in the current rebalance. -/
structure RebalanceImpl where
  processQueueTable : OrderedMap MessageQueue ℕ
  processQueues : ℕ → ProcessQueue
  allocated : ℕ
  brokerMaster : OrderedMap ByteString ByteString
  downBrokerName : List ByteString

/-- A rebalance pass under way: the pull requests created so far, and whether the table changed. -/
structure RebalancePass where
  rebalanceImpl : RebalanceImpl
  pullRequestList : List PullRequest
  changed : Bool

/-- What a pass reads from the client: the allocated queues, the master addresses at the removal and
at the addition of a queue, the offset to start from, and the clock. -/
structure RebalanceInput where
  topic : ByteString
  mqSet : List MessageQueue
  masterAddrOfHeld : MessageQueue → ByteString
  masterAddrOfAdded : MessageQueue → ByteString
  computePullFromWhere : MessageQueue → ℤ
  now : ℤ

/-- The live pull requests while a pass is under way: those of the client and those of the list. -/
def RebalancePass.live (pass : RebalancePass) (live : List ℕ) : List ℕ :=
  live ++ pass.pullRequestList.map PullRequest.processQueue

namespace RebalanceImpl

/-! ### The operations of the source -/

/-- The process queue at an address is replaced. -/
def setProcessQueue (impl : RebalanceImpl) (address : ℕ) (queue : ProcessQueue) : RebalanceImpl :=
  { impl with
    processQueues := fun other ↦ if other = address then queue else impl.processQueues other }

/-- Marks the process queue at an address as dropped. -/
def setDroped (impl : RebalanceImpl) (address : ℕ) : RebalanceImpl :=
  impl.setProcessQueue address ((impl.processQueues address).setDroped true)

/-- Drops an entry: marks its process queue and erases it from the table. -/
def dropEntry (impl : RebalanceImpl) (entry : MessageQueue × ℕ) : RebalanceImpl :=
  { impl.setDroped entry.2 with processQueueTable := impl.processQueueTable.erase entry.1 }

/-- The broker of a queue is noted as down when its master address is not the known one. -/
def noteMaster (impl : RebalanceImpl) (brokerName known masterAddr : ByteString) :
    RebalanceImpl :=
  if known ≠ masterAddr ∧ brokerName ∉ impl.downBrokerName then
    { impl with downBrokerName := impl.downBrokerName ++ [brokerName] }
  else impl

/-- The body of the removal loop. -/
def removeUnnecessary (input : RebalanceInput) (pass : RebalancePass) (entry : MessageQueue × ℕ) :
    RebalancePass :=
  if entry.1.topic ≠ input.topic then pass
  else if entry.1 ∉ input.mqSet then
    { pass with rebalanceImpl := pass.rebalanceImpl.dropEntry entry, changed := true }
  else
    match pass.rebalanceImpl.brokerMaster.find? entry.1.brokerName with
    | none => pass
    | some known =>
      let noted := pass.rebalanceImpl.noteMaster entry.1.brokerName known
        (input.masterAddrOfHeld entry.1)
      if entry.1.brokerName ∈ noted.downBrokerName then
        { pass with rebalanceImpl := noted.dropEntry entry, changed := true }
      else { pass with rebalanceImpl := noted }

/-- A new process queue, at the next free address. -/
def newProcessQueue (impl : RebalanceImpl) (now : ℤ) : RebalanceImpl :=
  { impl.setProcessQueue impl.allocated (ProcessQueue.new now) with
    allocated := impl.allocated + 1 }

/-- The entry of a new queue, and its master address when there is one. -/
def addEntry (impl : RebalanceImpl) (queue : MessageQueue) (address : ℕ)
    (masterAddr : ByteString) : RebalanceImpl :=
  { impl with
    processQueueTable := impl.processQueueTable.assign queue address
    brokerMaster := if masterAddr ≠ [] then impl.brokerMaster.assign queue.brokerName masterAddr
      else impl.brokerMaster }

/-- The body of the addition loop. -/
def addMissing (input : RebalanceInput) (pass : RebalancePass) (queue : MessageQueue) :
    RebalancePass :=
  if queue ∈ pass.rebalanceImpl.processQueueTable then pass
  else
    let address := pass.rebalanceImpl.allocated
    let created := pass.rebalanceImpl.newProcessQueue input.now
    let nextOffset := input.computePullFromWhere queue
    if nextOffset ≥ 0 then
      { rebalanceImpl := created.addEntry queue address (input.masterAddrOfAdded queue)
        pullRequestList := pass.pullRequestList ++ [⟨queue, address, nextOffset⟩]
        changed := true }
    else { pass with rebalanceImpl := created }

/-- One pass for a topic: the removal loop, then the addition loop. The pull requests of the result
are those to dispatch. -/
def updateProcessQueueTableInRebalance (impl : RebalanceImpl) (input : RebalanceInput) :
    RebalancePass :=
  input.mqSet.foldl (addMissing input)
    (impl.processQueueTable.entries.foldl (removeUnnecessary input) ⟨impl, [], false⟩)

/-- Drops the entries of topics that are not subscribed any more. -/
def truncateMessageQueueNotMyTopic (impl : RebalanceImpl) (subTable : List ByteString) :
    RebalanceImpl :=
  impl.processQueueTable.entries.foldl
    (fun current entry ↦ if entry.1.topic ∈ subTable then current else current.dropEntry entry) impl

/-- Drops the entry of a message queue. -/
def removeProcessQueue (impl : RebalanceImpl) (queue : MessageQueue) : RebalanceImpl :=
  match impl.processQueueTable.find? queue with
  | none => impl
  | some address => impl.dropEntry (queue, address)

/-! ### Active entries -/

/-- The process queue of an entry of the table that is not dropped. -/
def Active (impl : RebalanceImpl) (address : ℕ) : Prop :=
  ∃ entry ∈ impl.processQueueTable.entries, entry.2 = address ∧
    (impl.processQueues address).droped = false

/-- Every active entry has one pull request among the live ones, and addresses in use lie below the
next free one. -/
structure Custody (impl : RebalanceImpl) (live : List ℕ) : Prop where
  table_lt : ∀ entry ∈ impl.processQueueTable.entries, entry.2 < impl.allocated
  live_lt : ∀ address ∈ live, address < impl.allocated
  oneEach : OneEach impl.Active live

/-- A change of the table and the process queues that adds no active entry. -/
structure Shrinks (impl next : RebalanceImpl) : Prop where
  entries : ∀ entry ∈ next.processQueueTable.entries, entry ∈ impl.processQueueTable.entries
  droped : ∀ address, (impl.processQueues address).droped = true →
    (next.processQueues address).droped = true
  allocated : next.allocated = impl.allocated

namespace Shrinks

theorem refl (impl : RebalanceImpl) : impl.Shrinks impl :=
  ⟨fun _ hentry ↦ hentry, fun _ hdroped ↦ hdroped, rfl⟩

theorem trans {first second third : RebalanceImpl} (hfirst : first.Shrinks second)
    (hsecond : second.Shrinks third) : first.Shrinks third :=
  ⟨fun entry hentry ↦ hfirst.entries entry (hsecond.entries entry hentry),
    fun address hdroped ↦ hsecond.droped address (hfirst.droped address hdroped),
    hsecond.allocated.trans hfirst.allocated⟩

theorem active {impl next : RebalanceImpl} (hshrinks : impl.Shrinks next) (address : ℕ)
    (hactive : next.Active address) : impl.Active address := by
  obtain ⟨entry, hentry, haddress, hdroped⟩ := hactive
  refine ⟨entry, hshrinks.entries entry hentry, haddress, ?_⟩
  rw [← Bool.not_eq_true] at hdroped ⊢
  exact fun hbefore ↦ hdroped (hshrinks.droped address hbefore)

end Shrinks

/-- Pull requests that only move keep the custody when no entry becomes active. -/
theorem Custody.move {impl next : RebalanceImpl} {live live' : List ℕ}
    (hcustody : impl.Custody live) (hshrinks : impl.Shrinks next) (hmove : live'.Perm live) :
    next.Custody live' where
  table_lt := fun entry hentry ↦
    hshrinks.allocated ▸ hcustody.table_lt entry (hshrinks.entries entry hentry)
  live_lt := fun address haddress ↦
    hshrinks.allocated ▸ hcustody.live_lt address (hmove.mem_iff.mp haddress)
  oneEach := hcustody.oneEach.move hshrinks.active hmove

/-- A pull request is thrown away when its process queue is dropped. -/
theorem Custody.discard {impl next : RebalanceImpl} {live live' : List ℕ} {gone : ℕ}
    (hcustody : impl.Custody live) (hshrinks : impl.Shrinks next)
    (hgone : (next.processQueues gone).droped = true) (hdiscard : live.Perm (gone :: live')) :
    next.Custody live' where
  table_lt := fun entry hentry ↦
    hshrinks.allocated ▸ hcustody.table_lt entry (hshrinks.entries entry hentry)
  live_lt := fun address haddress ↦
    hshrinks.allocated ▸ hcustody.live_lt address
      (hdiscard.mem_iff.mpr (List.mem_cons_of_mem gone haddress))
  oneEach := by
    refine hcustody.oneEach.discard hshrinks.active ?_ hdiscard
    rintro ⟨-, -, -, hactive⟩
    rw [hgone] at hactive
    exact Bool.noConfusion hactive

/-! ### Dropping entries -/

/-- Replacing a process queue by one that is dropped if it was. -/
theorem shrinks_setProcessQueue (impl : RebalanceImpl) (address : ℕ) {queue : ProcessQueue}
    (hdroped : (impl.processQueues address).droped = true → queue.droped = true) :
    impl.Shrinks (impl.setProcessQueue address queue) := by
  refine ⟨fun _ hentry ↦ hentry, fun other hother ↦ ?_, rfl⟩
  simp only [setProcessQueue]
  split_ifs with heq
  · rw [heq] at hother
    exact hdroped hother
  · exact hother

theorem shrinks_setDroped (impl : RebalanceImpl) (address : ℕ) :
    impl.Shrinks (impl.setDroped address) :=
  impl.shrinks_setProcessQueue address fun _ ↦ rfl

theorem setDroped_droped (impl : RebalanceImpl) (address : ℕ) :
    ((impl.setDroped address).processQueues address).droped = true := by
  simp [setDroped, setProcessQueue, ProcessQueue.setDroped]

theorem shrinks_dropEntry (impl : RebalanceImpl) (entry : MessageQueue × ℕ) :
    impl.Shrinks (impl.dropEntry entry) := by
  refine ⟨fun other hother ↦ (OrderedMap.mem_entries_erase.mp hother).1, ?_, rfl⟩
  exact (impl.shrinks_setDroped entry.2).droped

theorem shrinks_noteMaster (impl : RebalanceImpl) (brokerName known masterAddr : ByteString) :
    impl.Shrinks (impl.noteMaster brokerName known masterAddr) := by
  unfold noteMaster
  split_ifs
  · exact ⟨fun _ hentry ↦ hentry, fun _ hdroped ↦ hdroped, rfl⟩
  · exact Shrinks.refl impl

theorem shrinks_removeUnnecessary (input : RebalanceInput) (pass : RebalancePass)
    (entry : MessageQueue × ℕ) :
    pass.rebalanceImpl.Shrinks (removeUnnecessary input pass entry).rebalanceImpl ∧
      (removeUnnecessary input pass entry).pullRequestList = pass.pullRequestList := by
  unfold removeUnnecessary
  split
  · exact ⟨Shrinks.refl _, rfl⟩
  · split
    · exact ⟨shrinks_dropEntry _ entry, rfl⟩
    split
    · exact ⟨Shrinks.refl _, rfl⟩
    · dsimp only
      split
      · exact ⟨(shrinks_noteMaster _ _ _ _).trans (shrinks_dropEntry _ entry), rfl⟩
      · exact ⟨shrinks_noteMaster _ _ _ _, rfl⟩

/-- The removal loop adds no active entry and no pull request. -/
theorem shrinks_foldl_removeUnnecessary (input : RebalanceInput) (entries : List (MessageQueue × ℕ))
    (pass : RebalancePass) :
    pass.rebalanceImpl.Shrinks (entries.foldl (removeUnnecessary input) pass).rebalanceImpl ∧
      (entries.foldl (removeUnnecessary input) pass).pullRequestList = pass.pullRequestList := by
  induction entries generalizing pass with
  | nil => exact ⟨Shrinks.refl _, rfl⟩
  | cons entry rest ih =>
    obtain ⟨hshrinks, hlist⟩ := shrinks_removeUnnecessary input pass entry
    obtain ⟨hrest, hlistRest⟩ := ih (removeUnnecessary input pass entry)
    exact ⟨hshrinks.trans hrest, hlistRest.trans hlist⟩

theorem shrinks_truncateMessageQueueNotMyTopic (impl : RebalanceImpl)
    (subTable : List ByteString) :
    impl.Shrinks (impl.truncateMessageQueueNotMyTopic subTable) := by
  unfold truncateMessageQueueNotMyTopic
  refine List.foldlRecOn _ _ (Shrinks.refl impl) fun current hcurrent entry _ ↦ ?_
  split_ifs
  · exact hcurrent
  · exact hcurrent.trans (shrinks_dropEntry current entry)

theorem shrinks_removeProcessQueue (impl : RebalanceImpl) (queue : MessageQueue) :
    impl.Shrinks (impl.removeProcessQueue queue) := by
  unfold removeProcessQueue
  split
  · exact Shrinks.refl impl
  · exact impl.shrinks_dropEntry _

/-! ### Adding entries -/

/-- A new process queue is at an address that was not in use. -/
theorem custody_newProcessQueue {impl : RebalanceImpl} {live : List ℕ} (now : ℤ)
    (hcustody : impl.Custody live) : (impl.newProcessQueue now).Custody live where
  table_lt := fun entry hentry ↦ Nat.lt_succ_of_lt (hcustody.table_lt entry hentry)
  live_lt := fun address haddress ↦ Nat.lt_succ_of_lt (hcustody.live_lt address haddress)
  oneEach := by
    refine hcustody.oneEach.move ?_ (List.Perm.refl live)
    rintro address ⟨entry, hentry, rfl, hdroped⟩
    refine ⟨entry, hentry, rfl, ?_⟩
    have hne : entry.2 ≠ impl.allocated := (hcustody.table_lt entry hentry).ne
    simpa [newProcessQueue, setProcessQueue, hne] using hdroped

/-- The body of the addition loop keeps the custody: the new entry and its pull request appear
together. -/
theorem custody_addMissing {input : RebalanceInput} {pass : RebalancePass} {live : List ℕ}
    (hcustody : pass.rebalanceImpl.Custody (pass.live live)) (queue : MessageQueue) :
    (addMissing input pass queue).rebalanceImpl.Custody
      ((addMissing input pass queue).live live) := by
  have hcreated := custody_newProcessQueue input.now hcustody
  unfold addMissing
  split_ifs with hheld
  · exact hcustody
  · dsimp only
    split_ifs with hoffset
    · have hissued : RebalancePass.live (addMissing input pass queue) live =
          pass.live live ++ [pass.rebalanceImpl.allocated] := by
        simp [addMissing, hheld, hoffset, RebalancePass.live]
      simp only [addMissing, hheld, hoffset, if_true, if_false] at hissued
      rw [hissued]
      refine ⟨fun entry hentry ↦ ?_, fun address haddress ↦ ?_, ?_⟩
      · rcases OrderedMap.mem_entries_assign.mp hentry with rfl | ⟨hbefore, -⟩
        · exact Nat.lt_succ_self _
        · exact hcreated.table_lt entry hbefore
      · rcases List.mem_append.mp haddress with hbefore | hnew
        · exact hcreated.live_lt address hbefore
        · rw [List.mem_singleton.mp hnew]
          exact Nat.lt_succ_self _
      · refine hcreated.oneEach.issue ?_ ?_ List.perm_append_comm
        · exact fun hmem ↦ lt_irrefl _ (hcustody.live_lt _ hmem)
        · rintro address ⟨entry, hentry, rfl, hdroped⟩
          rcases OrderedMap.mem_entries_assign.mp hentry with rfl | ⟨hbefore, -⟩
          · exact Or.inl rfl
          · exact Or.inr ⟨entry, hbefore, rfl, hdroped⟩
    · exact hcreated

/-- The addition loop keeps the custody. -/
theorem custody_foldl_addMissing {input : RebalanceInput} {live : List ℕ}
    (queues : List MessageQueue) {pass : RebalancePass}
    (hcustody : pass.rebalanceImpl.Custody (pass.live live)) :
    (queues.foldl (addMissing input) pass).rebalanceImpl.Custody
      ((queues.foldl (addMissing input) pass).live live) := by
  induction queues generalizing pass with
  | nil => exact hcustody
  | cons queue rest ih => exact ih (custody_addMissing hcustody queue)

/-- A rebalance pass keeps the custody, with the pull requests it returns counted as live. -/
theorem custody_updateProcessQueueTableInRebalance {impl : RebalanceImpl} {live : List ℕ}
    (hcustody : impl.Custody live) (input : RebalanceInput) :
    (impl.updateProcessQueueTableInRebalance input).rebalanceImpl.Custody
      ((impl.updateProcessQueueTableInRebalance input).live live) := by
  unfold updateProcessQueueTableInRebalance
  obtain ⟨hshrinks, hlist⟩ :=
    shrinks_foldl_removeUnnecessary input impl.processQueueTable.entries ⟨impl, [], false⟩
  have hremoved := hcustody.move hshrinks (List.Perm.refl live)
  refine custody_foldl_addMissing input.mqSet ?_
  simpa [RebalancePass.live, hlist] using hremoved

end RebalanceImpl

end RocketMQClient.Consumer
