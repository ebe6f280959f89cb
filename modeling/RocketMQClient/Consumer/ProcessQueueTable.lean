import RocketMQClient.Consumer.PullRequest

/-!
# What a rebalance leaves in the process queue table

Only the addition loop of `updateProcessQueueTableInRebalance` puts an entry into the table, and
three operations take entries out: the removal loop, `truncateMessageQueueNotMyTopic` and
`removeProcessQueue`. A `TableOperation` is one of them run to its end, or a change of a process
queue by another thread, which never takes back the mark of a dropped queue.

`Supersedes` relates the table before and after: an entry is still there, or its process queue is
dropped. `Extended` says what the addition loop adds to a pass, one pull request for each new entry.
From the two follows `process_queue_table_contract`: over every sequence of operations each process
queue that was ever inserted is current or dropped, and each pass leaves the entries and the flag
that its arguments ask for, and dispatches the pull requests of the new entries to the pull service.

Process queues have addresses, since a pull request and a consume request refer to one by a pointer:
an entry that is replaced by another one of its message queue is not the same entry. New process
queues get the next free address, which lies above all in the table (`Bounded`), so that an
insertion supersedes nothing silently.
-/

set_option autoImplicit false
set_option relaxedAutoImplicit false

namespace RocketMQClient.Consumer

open Library Messages

/-- The entry of the table that a pull request belongs to. -/
def PullRequest.entry (request : PullRequest) : MessageQueue × ℕ :=
  (request.messageQueue, request.processQueue)

namespace RebalanceImpl

/-! ### Operations and insertions -/

/-- A consumer whose table is still empty. -/
def initial : RebalanceImpl where
  processQueueTable := OrderedMap.empty
  processQueues := fun _ ↦ ProcessQueue.new 0
  allocated := 0
  brokerMaster := OrderedMap.empty
  downBrokerName := []

/-- The removal loop of a pass. -/
def removalLoop (impl : RebalanceImpl) (input : RebalanceInput) : RebalancePass :=
  impl.processQueueTable.entries.foldl (removeUnnecessary input) ⟨impl, [], false⟩

/-- The entries that one iteration of the addition loop after another puts into the table. -/
def insertedByLoop (input : RebalanceInput) :
    RebalancePass → List MessageQueue → List (MessageQueue × ℕ)
  | _, [] => []
  | pass, queue :: rest =>
    let next := addMissing input pass queue
    next.rebalanceImpl.processQueueTable.entries.filter
      (· ∉ pass.rebalanceImpl.processQueueTable.entries) ++ insertedByLoop input next rest

end RebalanceImpl

/-- What happens to the table, each operation run to its end. -/
inductive TableOperation where
  /-- `doRebalance` forgets which brokers changed their master. -/
  | doRebalance
  | updateProcessQueueTableInRebalance (input : RebalanceInput)
  | truncateMessageQueueNotMyTopic (subTable : List ByteString)
  | removeProcessQueue (queue : MessageQueue)
  /-- Another thread changes a process queue; the mark of a dropped queue stays. -/
  | useProcessQueue (address : ℕ) (queue : ProcessQueue)

namespace TableOperation

open RebalanceImpl

/-- The table after an operation. -/
def apply (impl : RebalanceImpl) : TableOperation → RebalanceImpl
  | .doRebalance => { impl with downBrokerName := [] }
  | .updateProcessQueueTableInRebalance input =>
    (impl.updateProcessQueueTableInRebalance input).rebalanceImpl
  | .truncateMessageQueueNotMyTopic subTable => impl.truncateMessageQueueNotMyTopic subTable
  | .removeProcessQueue queue => impl.removeProcessQueue queue
  | .useProcessQueue address queue =>
    impl.setProcessQueue address
      { queue with droped := (impl.processQueues address).droped || queue.droped }

/-- The table after a sequence of operations. -/
def run (impl : RebalanceImpl) (operations : List TableOperation) : RebalanceImpl :=
  operations.foldl apply impl

/-- The entries that an operation inserts. -/
def inserted (impl : RebalanceImpl) : TableOperation → List (MessageQueue × ℕ)
  | .updateProcessQueueTableInRebalance input =>
    insertedByLoop input (impl.removalLoop input) input.mqSet
  | _ => []

/-- The entries that a sequence of operations ever inserts. -/
def everInserted (impl : RebalanceImpl) : List TableOperation → List (MessageQueue × ℕ)
  | [] => []
  | operation :: rest => operation.inserted impl ++ everInserted (operation.apply impl) rest

end TableOperation

namespace RebalanceImpl

/-! ### Entries that leave the table -/

/-- The addresses in the table lie below the next free one. -/
def Bounded (impl : RebalanceImpl) : Prop :=
  ∀ entry ∈ impl.processQueueTable.entries, entry.2 < impl.allocated

/-- A change of the table that lets no entry go whose process queue is not dropped. -/
structure Supersedes (impl next : RebalanceImpl) : Prop where
  allocated : impl.allocated ≤ next.allocated
  droped : ∀ address < impl.allocated, (impl.processQueues address).droped = true →
    (next.processQueues address).droped = true
  entries : ∀ entry ∈ impl.processQueueTable.entries, entry.2 < impl.allocated →
    entry ∈ next.processQueueTable.entries ∨ (next.processQueues entry.2).droped = true
  bounded : impl.Bounded → next.Bounded

namespace Supersedes

theorem refl (impl : RebalanceImpl) : impl.Supersedes impl :=
  ⟨le_rfl, fun _ _ hdroped ↦ hdroped, fun _ hentry _ ↦ Or.inl hentry, fun hbounded ↦ hbounded⟩

theorem trans {first second third : RebalanceImpl} (hfirst : first.Supersedes second)
    (hsecond : second.Supersedes third) : first.Supersedes third where
  allocated := hfirst.allocated.trans hsecond.allocated
  droped := fun address hlt hdroped ↦
    hsecond.droped address (hlt.trans_le hfirst.allocated) (hfirst.droped address hlt hdroped)
  entries := by
    intro entry hentry hlt
    have hlt' : entry.2 < second.allocated := hlt.trans_le hfirst.allocated
    rcases hfirst.entries entry hentry hlt with hkept | hdroped
    · exact hsecond.entries entry hkept hlt'
    · exact Or.inr (hsecond.droped entry.2 hlt' hdroped)
  bounded := fun hbounded ↦ hsecond.bounded (hfirst.bounded hbounded)

/-- A fact about an entry that was in the table at some time. -/
theorem current_or_droped {impl next : RebalanceImpl} (hsupersedes : impl.Supersedes next)
    {entry : MessageQueue × ℕ} (hlt : entry.2 < impl.allocated)
    (hentry : entry ∈ impl.processQueueTable.entries ∨
      (impl.processQueues entry.2).droped = true) :
    entry ∈ next.processQueueTable.entries ∨ (next.processQueues entry.2).droped = true := by
  rcases hentry with hkept | hdroped
  · exact hsupersedes.entries entry hkept hlt
  · exact Or.inr (hsupersedes.droped entry.2 hlt hdroped)

end Supersedes

/-- Losing entries only, each with its process queue dropped. -/
theorem Shrinks.supersedes {impl next : RebalanceImpl} (hshrinks : impl.Shrinks next)
    (hentries : ∀ entry ∈ impl.processQueueTable.entries,
      entry ∈ next.processQueueTable.entries ∨ (next.processQueues entry.2).droped = true) :
    impl.Supersedes next where
  allocated := hshrinks.allocated.ge
  droped := fun address _ hdroped ↦ hshrinks.droped address hdroped
  entries := fun entry hentry _ ↦ hentries entry hentry
  bounded := fun hbounded entry hentry ↦
    hshrinks.allocated ▸ hbounded entry (hshrinks.entries entry hentry)

/-- Dropping an entry of the table. Other entries of its address would be dropped with it. -/
theorem supersedes_dropEntry {impl : RebalanceImpl} {entry : MessageQueue × ℕ}
    (hfind : ∀ address, (entry.1, address) ∈ impl.processQueueTable.entries → address = entry.2) :
    impl.Supersedes (impl.dropEntry entry) := by
  refine (impl.shrinks_dropEntry entry).supersedes fun other hother ↦ ?_
  by_cases hkey : other.1 = entry.1
  · have haddress : other.2 = entry.2 := hfind other.2 (hkey ▸ hother)
    rw [haddress]
    exact Or.inr (impl.setDroped_droped entry.2)
  · exact Or.inl (OrderedMap.mem_entries_erase.mpr ⟨hother, hkey⟩)

/-- Changing the list of brokers that are down leaves the table as it is. -/
theorem supersedes_downBrokerName (impl : RebalanceImpl) (down : List ByteString) :
    impl.Supersedes { impl with downBrokerName := down } :=
  ⟨le_rfl, fun _ _ hdroped ↦ hdroped, fun _ hentry _ ↦ Or.inl hentry, fun hbounded ↦ hbounded⟩

theorem noteMaster_eq (impl : RebalanceImpl) (brokerName known masterAddr : ByteString) :
    ∃ down, impl.noteMaster brokerName known masterAddr = { impl with downBrokerName := down } := by
  unfold noteMaster
  split_ifs
  · exact ⟨_, rfl⟩
  · exact ⟨impl.downBrokerName, rfl⟩

/-- What the removal loop does with an entry: it keeps it, and then it is one of another topic or an
allocated one; or it drops it, and notes the change. -/
theorem removeUnnecessary_cases (input : RebalanceInput) (pass : RebalancePass)
    (entry : MessageQueue × ℕ) :
    ((entry.1.topic = input.topic → entry.1 ∈ input.mqSet) ∧ ∃ down,
      removeUnnecessary input pass entry =
        { pass with rebalanceImpl := { pass.rebalanceImpl with downBrokerName := down } }) ∨
    (entry.1.topic = input.topic ∧ ∃ down,
      removeUnnecessary input pass entry =
        { pass with
          rebalanceImpl := { pass.rebalanceImpl.dropEntry entry with downBrokerName := down }
          changed := true }) := by
  unfold removeUnnecessary
  by_cases htopic : entry.1.topic = input.topic
  · rw [if_neg (not_not.mpr htopic)]
    by_cases hallocated : entry.1 ∈ input.mqSet
    · rw [if_neg (not_not.mpr hallocated)]
      cases pass.rebalanceImpl.brokerMaster.find? entry.1.brokerName with
      | none => exact Or.inl ⟨fun _ ↦ hallocated, pass.rebalanceImpl.downBrokerName, rfl⟩
      | some known =>
        obtain ⟨down, hnoted⟩ := noteMaster_eq pass.rebalanceImpl entry.1.brokerName known
          (input.masterAddrOfHeld entry.1)
        dsimp only
        rw [hnoted]
        split_ifs
        · exact Or.inr ⟨htopic, down, rfl⟩
        · exact Or.inl ⟨fun _ ↦ hallocated, down, rfl⟩
    · rw [if_pos hallocated]
      exact Or.inr ⟨htopic, pass.rebalanceImpl.downBrokerName, rfl⟩
  · rw [if_pos htopic]
    exact Or.inl ⟨fun hsame ↦ absurd hsame htopic, pass.rebalanceImpl.downBrokerName, rfl⟩

/-- An entry of the topic that is not allocated is dropped. -/
theorem not_mem_removeUnnecessary {input : RebalanceInput} {entry : MessageQueue × ℕ}
    (htopic : entry.1.topic = input.topic) (hallocated : entry.1 ∉ input.mqSet)
    (pass : RebalancePass) :
    entry.1 ∉ (removeUnnecessary input pass entry).rebalanceImpl.processQueueTable := by
  rcases removeUnnecessary_cases input pass entry with ⟨hkept, -⟩ | ⟨-, down, hdrop⟩
  · exact absurd (hkept htopic) hallocated
  · rw [hdrop]
    exact fun hmem ↦ (OrderedMap.mem_erase.mp hmem).1 rfl

/-! ### The removal loop -/

/-- What the removal loop has done after some entries of the table `start`. -/
structure Removed (input : RebalanceInput) (start : RebalanceImpl) (pass : RebalancePass) :
    Prop where
  supersedes : start.Supersedes pass.rebalanceImpl
  shrinks : start.Shrinks pass.rebalanceImpl
  otherTopic : ∀ entry ∈ start.processQueueTable.entries, entry.1.topic ≠ input.topic →
    entry ∈ pass.rebalanceImpl.processQueueTable.entries
  pullRequestList : pass.pullRequestList = []
  brokerMaster : pass.rebalanceImpl.brokerMaster = start.brokerMaster
  changed : pass.changed = true ↔ ∃ entry ∈ start.processQueueTable.entries,
    entry ∉ pass.rebalanceImpl.processQueueTable.entries

/-- The removal loop goes on. -/
theorem Removed.step {input : RebalanceInput} {start : RebalanceImpl} {pass : RebalancePass}
    (hremoved : Removed input start pass) {entry : MessageQueue × ℕ}
    (hentry : entry ∈ start.processQueueTable.entries) :
    Removed input start (removeUnnecessary input pass entry) := by
  obtain ⟨hshrinks, hlist⟩ := shrinks_removeUnnecessary input pass entry
  rcases removeUnnecessary_cases input pass entry with ⟨-, down, hkeep⟩ | ⟨htopic, down, hdrop⟩
  · rw [hkeep] at hshrinks hlist ⊢
    exact ⟨hremoved.supersedes.trans (supersedes_downBrokerName _ down),
      hremoved.shrinks.trans hshrinks, hremoved.otherTopic, hremoved.pullRequestList,
      hremoved.brokerMaster, hremoved.changed⟩
  · rw [hdrop] at hshrinks hlist ⊢
    refine ⟨?_, hremoved.shrinks.trans hshrinks, fun other hother hne ↦ ?_,
      hremoved.pullRequestList, hremoved.brokerMaster, fun _ ↦ ⟨entry, hentry, ?_⟩, fun _ ↦ rfl⟩
    · refine hremoved.supersedes.trans (Supersedes.trans (supersedes_dropEntry ?_)
        (supersedes_downBrokerName _ down))
      intro address haddress
      have hsame := OrderedMap.entry_unique (hremoved.shrinks.entries _ haddress) hentry rfl
      exact congrArg Prod.snd hsame
    · have hkey : other.1 ≠ entry.1 := fun heq ↦ hne (heq ▸ htopic)
      exact OrderedMap.mem_entries_erase.mpr ⟨hremoved.otherTopic other hother hne, hkey⟩
    · exact fun hmem ↦ (OrderedMap.mem_entries_erase.mp hmem).2 rfl

theorem Removed.refl (input : RebalanceInput) (impl : RebalanceImpl) :
    Removed input impl ⟨impl, [], false⟩ where
  supersedes := Supersedes.refl impl
  shrinks := Shrinks.refl impl
  otherTopic := fun _ hentry _ ↦ hentry
  pullRequestList := rfl
  brokerMaster := rfl
  changed := ⟨fun hfalse ↦ absurd hfalse Bool.false_ne_true,
    fun ⟨_, hentry, hgone⟩ ↦ absurd hentry hgone⟩

/-- What the whole removal loop does. -/
theorem removed_removalLoop (impl : RebalanceImpl) (input : RebalanceInput) :
    Removed input impl (impl.removalLoop input) := by
  unfold removalLoop
  refine List.foldlRecOn _ _ (Removed.refl input impl) fun pass hpass entry hentry ↦ ?_
  exact hpass.step hentry

/-- A queue is gone after the removal loop if each iteration for an entry of it drops the entry. -/
theorem not_mem_removalLoop {impl : RebalanceImpl} {input : RebalanceInput} {queue : MessageQueue}
    (hdrops : ∀ (pass : RebalancePass) (address : ℕ),
      pass.rebalanceImpl.brokerMaster = impl.brokerMaster →
      queue ∉ (removeUnnecessary input pass (queue, address)).rebalanceImpl.processQueueTable) :
    queue ∉ (impl.removalLoop input).rebalanceImpl.processQueueTable := by
  intro hmem
  obtain ⟨⟨other, address⟩, hentry, rfl⟩ := OrderedMap.mem_iff.mp hmem
  have hstart := (removed_removalLoop impl input).shrinks.entries _ hentry
  obtain ⟨earlier, later, hsplit⟩ := List.append_of_mem hstart
  have hearlier : Removed input impl
      (earlier.foldl (removeUnnecessary input) ⟨impl, [], false⟩) := by
    refine List.foldlRecOn _ _ (Removed.refl input impl) fun pass hpass entry hin ↦ ?_
    exact hpass.step (hsplit ▸ List.mem_append_left _ hin)
  have hgone := hdrops _ address hearlier.brokerMaster
  have hlater := (shrinks_foldl_removeUnnecessary input later (removeUnnecessary input
    (earlier.foldl (removeUnnecessary input) ⟨impl, [], false⟩) (other, address))).1.entries
  rw [removalLoop, hsplit, List.foldl_append, List.foldl_cons] at hentry
  exact hgone (OrderedMap.key_mem (hlater (other, address) hentry))

/-- The removal loop leaves only allocated queues of the topic. -/
theorem mem_mqSet_of_mem_removalLoop {impl : RebalanceImpl} {input : RebalanceInput}
    {queue : MessageQueue} (htopic : queue.topic = input.topic)
    (hmem : queue ∈ (impl.removalLoop input).rebalanceImpl.processQueueTable) :
    queue ∈ input.mqSet := by
  by_contra hallocated
  refine not_mem_removalLoop (fun pass address _ ↦ ?_) hmem
  exact not_mem_removeUnnecessary htopic hallocated pass

/-! ### The addition loop -/

/-- What the addition loop adds to a pass. -/
structure Extended (pass next : RebalancePass) (added : List PullRequest) : Prop where
  pullRequestList : next.pullRequestList = pass.pullRequestList ++ added
  entries : ∀ entry, entry ∈ next.rebalanceImpl.processQueueTable.entries ↔
    entry ∈ pass.rebalanceImpl.processQueueTable.entries ∨ entry ∈ added.map PullRequest.entry
  absent : ∀ request ∈ added, request.messageQueue ∉ pass.rebalanceImpl.processQueueTable
  fresh : ∀ request ∈ added, pass.rebalanceImpl.allocated ≤ request.processQueue ∧
    request.processQueue < next.rebalanceImpl.allocated
  distinct : (added.map PullRequest.processQueue).Nodup
  changed : next.changed = (pass.changed || !added.isEmpty)
  allocated : pass.rebalanceImpl.allocated ≤ next.rebalanceImpl.allocated
  processQueues : ∀ address < pass.rebalanceImpl.allocated,
    next.rebalanceImpl.processQueues address = pass.rebalanceImpl.processQueues address

namespace Extended

theorem refl (pass : RebalancePass) : Extended pass pass [] := by
  constructor <;> simp

theorem trans {first second third : RebalancePass} {earlier later : List PullRequest}
    (hfirst : Extended first second earlier) (hsecond : Extended second third later) :
    Extended first third (earlier ++ later) where
  pullRequestList := by
    rw [hsecond.pullRequestList, hfirst.pullRequestList, List.append_assoc]
  entries := by
    intro entry
    rw [hsecond.entries, hfirst.entries, List.map_append, List.mem_append, or_assoc]
  absent := by
    intro request hrequest hmem
    rcases List.mem_append.mp hrequest with hearlier | hlater
    · exact hfirst.absent request hearlier hmem
    · obtain ⟨entry, hentry, hkey⟩ := OrderedMap.mem_iff.mp hmem
      refine hsecond.absent request hlater (OrderedMap.mem_iff.mpr ⟨entry, ?_, hkey⟩)
      exact (hfirst.entries entry).mpr (Or.inl hentry)
  fresh := by
    intro request hrequest
    have hfirstLe := hfirst.allocated
    have hsecondLe := hsecond.allocated
    rcases List.mem_append.mp hrequest with hearlier | hlater
    · have hbounds := hfirst.fresh request hearlier
      omega
    · have hbounds := hsecond.fresh request hlater
      omega
  distinct := by
    rw [List.map_append, List.nodup_append]
    refine ⟨hfirst.distinct, hsecond.distinct, ?_⟩
    intro address hearlier other hlater heq
    obtain ⟨request, hrequest, rfl⟩ := List.mem_map.mp hearlier
    obtain ⟨request', hrequest', rfl⟩ := List.mem_map.mp hlater
    have hbelow := (hfirst.fresh request hrequest).2
    have habove := (hsecond.fresh request' hrequest').1
    omega
  changed := by
    rw [hsecond.changed, hfirst.changed]
    cases earlier <;> simp
  allocated := hfirst.allocated.trans hsecond.allocated
  processQueues := by
    intro address hlt
    rw [hsecond.processQueues address (hlt.trans_le hfirst.allocated),
      hfirst.processQueues address hlt]

/-- New entries get new process queues, so that no entry is lost and no mark. -/
theorem supersedes {pass next : RebalancePass} {added : List PullRequest}
    (hextended : Extended pass next added) :
    pass.rebalanceImpl.Supersedes next.rebalanceImpl where
  allocated := hextended.allocated
  droped := by
    intro address hlt hdroped
    rwa [hextended.processQueues address hlt]
  entries := fun entry hentry _ ↦ Or.inl ((hextended.entries entry).mpr (Or.inl hentry))
  bounded := by
    intro hbounded entry hentry
    rcases (hextended.entries entry).mp hentry with hbefore | hadded
    · exact (hbounded entry hbefore).trans_le hextended.allocated
    · obtain ⟨request, hrequest, rfl⟩ := List.mem_map.mp hadded
      exact (hextended.fresh request hrequest).2

end Extended

/-- The pull request that one iteration of the addition loop creates. -/
def addedRequest (input : RebalanceInput) (pass : RebalancePass) (queue : MessageQueue) :
    List PullRequest :=
  if queue ∉ pass.rebalanceImpl.processQueueTable ∧ 0 ≤ input.computePullFromWhere queue then
    [⟨queue, pass.rebalanceImpl.allocated, input.computePullFromWhere queue⟩]
  else []

/-- The pull requests that the addition loop creates. -/
def addedRequests (input : RebalanceInput) : RebalancePass → List MessageQueue → List PullRequest
  | _, [] => []
  | pass, queue :: rest =>
    addedRequest input pass queue ++ addedRequests input (addMissing input pass queue) rest

theorem newProcessQueue_processQueues (impl : RebalanceImpl) (now : ℤ) {address : ℕ}
    (hlt : address < impl.allocated) :
    (impl.newProcessQueue now).processQueues address = impl.processQueues address :=
  if_neg hlt.ne

/-- One iteration of the addition loop. -/
theorem extended_addMissing (input : RebalanceInput) (pass : RebalancePass)
    (queue : MessageQueue) :
    Extended pass (addMissing input pass queue) (addedRequest input pass queue) := by
  have hle : pass.rebalanceImpl.allocated ≤ pass.rebalanceImpl.allocated + 1 := Nat.le_succ _
  unfold addMissing addedRequest
  by_cases hheld : queue ∈ pass.rebalanceImpl.processQueueTable
  · rw [if_pos hheld, if_neg fun hboth ↦ hboth.1 hheld]
    exact Extended.refl pass
  · rw [if_neg hheld]
    by_cases hoffset : 0 ≤ input.computePullFromWhere queue
    · dsimp only
      rw [if_pos hoffset, if_pos ⟨hheld, hoffset⟩]
      refine ⟨rfl, fun entry ↦ ?_, ?_, ?_, List.nodup_singleton _, ?_, hle, fun address hlt ↦ ?_⟩
      · have hassign := @OrderedMap.mem_entries_assign _ _ _ pass.rebalanceImpl.processQueueTable
          queue pass.rebalanceImpl.allocated entry
        refine hassign.trans ?_
        rw [List.map_singleton, List.mem_singleton, or_comm]
        refine or_congr_left ⟨And.left, fun hentry ↦ ⟨hentry, fun hkey ↦ ?_⟩⟩
        exact hheld (hkey ▸ OrderedMap.key_mem hentry)
      · intro request hrequest
        rw [List.mem_singleton.mp hrequest]
        exact hheld
      · intro request hrequest
        rw [List.mem_singleton.mp hrequest]
        exact ⟨le_rfl, Nat.lt_succ_self _⟩
      · simp
      · exact newProcessQueue_processQueues _ _ hlt
    · dsimp only
      rw [if_neg hoffset, if_neg fun hboth ↦ hoffset hboth.2]
      exact ⟨by simp, by simp [newProcessQueue, setProcessQueue], by simp, by simp, by simp,
        by simp, hle, fun address hlt ↦ newProcessQueue_processQueues _ _ hlt⟩

/-- The addition loop. -/
theorem extended_foldl_addMissing (input : RebalanceInput) (queues : List MessageQueue)
    (pass : RebalancePass) :
    Extended pass (queues.foldl (addMissing input) pass) (addedRequests input pass queues) := by
  induction queues generalizing pass with
  | nil => exact Extended.refl pass
  | cons queue rest ih =>
    exact (extended_addMissing input pass queue).trans (ih (addMissing input pass queue))

/-- The entries that one iteration adds are those of its pull requests. -/
theorem Extended.filter_entries {pass next : RebalancePass} {added : List PullRequest}
    (hextended : Extended pass next added) (entry : MessageQueue × ℕ) :
    entry ∈ next.rebalanceImpl.processQueueTable.entries.filter
        (· ∉ pass.rebalanceImpl.processQueueTable.entries) ↔
      entry ∈ added.map PullRequest.entry := by
  rw [List.mem_filter, decide_eq_true_eq, hextended.entries]
  refine ⟨fun hboth ↦ hboth.1.resolve_left hboth.2, fun hadded ↦ ⟨Or.inr hadded, fun hbefore ↦ ?_⟩⟩
  obtain ⟨request, hrequest, rfl⟩ := List.mem_map.mp hadded
  exact hextended.absent request hrequest (OrderedMap.key_mem hbefore)

theorem mem_insertedByLoop (input : RebalanceInput) (queues : List MessageQueue)
    (pass : RebalancePass) (entry : MessageQueue × ℕ) :
    entry ∈ insertedByLoop input pass queues ↔
      entry ∈ (addedRequests input pass queues).map PullRequest.entry := by
  induction queues generalizing pass with
  | nil => rfl
  | cons queue rest ih =>
    rw [insertedByLoop, addedRequests, List.map_append, List.mem_append, List.mem_append, ih,
      (extended_addMissing input pass queue).filter_entries]

/-- The addition loop adds the queues that are missing and have a start offset. -/
theorem mem_foldl_addMissing (input : RebalanceInput) (queues : List MessageQueue)
    (pass : RebalancePass) (queue : MessageQueue) :
    queue ∈ (queues.foldl (addMissing input) pass).rebalanceImpl.processQueueTable ↔
      queue ∈ pass.rebalanceImpl.processQueueTable ∨
        (queue ∈ queues ∧ 0 ≤ input.computePullFromWhere queue) := by
  induction queues generalizing pass with
  | nil => simp
  | cons head rest ih =>
    have hstep : queue ∈ (addMissing input pass head).rebalanceImpl.processQueueTable ↔
        queue ∈ pass.rebalanceImpl.processQueueTable ∨
          (queue = head ∧ 0 ≤ input.computePullFromWhere queue) := by
      unfold addMissing
      by_cases hheld : head ∈ pass.rebalanceImpl.processQueueTable
      · rw [if_pos hheld]
        refine ⟨Or.inl, ?_⟩
        rintro (hmem | ⟨rfl, -⟩)
        · exact hmem
        · exact hheld
      · rw [if_neg hheld]
        by_cases hoffset : 0 ≤ input.computePullFromWhere head
        · simp only [ge_iff_le, hoffset, if_true, addEntry, newProcessQueue, setProcessQueue,
            OrderedMap.mem_assign]
          constructor
          · rintro (rfl | hmem)
            · exact Or.inr ⟨rfl, hoffset⟩
            · exact Or.inl hmem
          · rintro (hmem | ⟨rfl, -⟩)
            · exact Or.inr hmem
            · exact Or.inl rfl
        · simp only [ge_iff_le, hoffset, if_false, newProcessQueue, setProcessQueue]
          refine ⟨Or.inl, ?_⟩
          rintro (hmem | ⟨rfl, habove⟩)
          · exact hmem
          · exact absurd habove hoffset
    rw [List.foldl_cons, ih, hstep, List.mem_cons]
    tauto

/-! ### A whole pass -/

theorem updateProcessQueueTableInRebalance_eq (impl : RebalanceImpl) (input : RebalanceInput) :
    impl.updateProcessQueueTableInRebalance input =
      input.mqSet.foldl (addMissing input) (impl.removalLoop input) := rfl

/-- What a pass adds to the table that its removal loop leaves. -/
theorem extended_updateProcessQueueTableInRebalance (impl : RebalanceImpl)
    (input : RebalanceInput) :
    Extended (impl.removalLoop input) (impl.updateProcessQueueTableInRebalance input)
      (impl.updateProcessQueueTableInRebalance input).pullRequestList := by
  have hextended := extended_foldl_addMissing input input.mqSet (impl.removalLoop input)
  rw [updateProcessQueueTableInRebalance_eq]
  rw [hextended.pullRequestList, (removed_removalLoop impl input).pullRequestList]
  exact hextended

theorem supersedes_updateProcessQueueTableInRebalance (impl : RebalanceImpl)
    (input : RebalanceInput) :
    impl.Supersedes (impl.updateProcessQueueTableInRebalance input).rebalanceImpl :=
  (removed_removalLoop impl input).supersedes.trans
    (extended_updateProcessQueueTableInRebalance impl input).supersedes

/-- What a pass for a topic with a set of queues leaves behind, and what `dispatchPullRequest` puts
into the queue of the pull service at its end. -/
structure PassContract (impl : RebalanceImpl) (input : RebalanceInput) (after : RebalancePass) :
    Prop where
  subset : ∀ queue ∈ after.rebalanceImpl.processQueueTable, queue.topic = input.topic →
    queue ∈ input.mqSet
  kept : ∀ entry ∈ (impl.removalLoop input).rebalanceImpl.processQueueTable.entries,
    entry ∈ impl.processQueueTable.entries ∧
      entry ∈ after.rebalanceImpl.processQueueTable.entries
  present : ∀ queue ∈ input.mqSet, queue ∈ after.rebalanceImpl.processQueueTable ↔
    queue ∈ (impl.removalLoop input).rebalanceImpl.processQueueTable ∨
      0 ≤ input.computePullFromWhere queue
  otherTopic : ∀ entry : MessageQueue × ℕ, entry.1.topic ≠ input.topic →
    (entry ∈ after.rebalanceImpl.processQueueTable.entries ↔
      entry ∈ impl.processQueueTable.entries)
  dispatched : ∀ service : PullState, ∃ requests : List PullRequest,
    service.dispatchPullRequest after.pullRequestList =
        { service with pullRequestQueue := service.pullRequestQueue ++ requests } ∧
      ∀ entry, (requests.map PullRequest.entry).count entry =
        if entry ∈ after.rebalanceImpl.processQueueTable.entries ∧
          entry ∉ impl.processQueueTable.entries then 1 else 0
  changed : after.changed = true ↔ ∃ queue, after.rebalanceImpl.processQueueTable.find? queue ≠
    impl.processQueueTable.find? queue

section Pass

variable {impl : RebalanceImpl} {input : RebalanceInput}

/-- The new entries of a pass are those of its pull requests. -/
theorem new_entry_iff (hbounded : impl.Bounded) (entry : MessageQueue × ℕ) :
    entry ∈ (impl.updateProcessQueueTableInRebalance input).pullRequestList.map
        PullRequest.entry ↔
      entry ∈
          (impl.updateProcessQueueTableInRebalance input).rebalanceImpl.processQueueTable.entries ∧
        entry ∉ impl.processQueueTable.entries := by
  have hremoved := removed_removalLoop impl input
  have hextended := extended_updateProcessQueueTableInRebalance impl input
  rw [hextended.entries]
  constructor
  · intro hadded
    refine ⟨Or.inr hadded, fun hbefore ↦ ?_⟩
    obtain ⟨request, hrequest, rfl⟩ := List.mem_map.mp hadded
    have hfresh := (hextended.fresh request hrequest).1
    rw [hremoved.shrinks.allocated] at hfresh
    exact absurd (hbounded _ hbefore) hfresh.not_gt
  · rintro ⟨hremains | hadded, hnew⟩
    · exact absurd (hremoved.shrinks.entries entry hremains) hnew
    · exact hadded

/-- A pass reports a change exactly when some entry was removed, replaced or inserted. -/
theorem changed_iff (hbounded : impl.Bounded) :
    (impl.updateProcessQueueTableInRebalance input).changed = true ↔
      ∃ queue, (impl.updateProcessQueueTableInRebalance
          input).rebalanceImpl.processQueueTable.find? queue ≠
        impl.processQueueTable.find? queue := by
  have hremoved := removed_removalLoop impl input
  have hextended := extended_updateProcessQueueTableInRebalance impl input
  have hdiffer : ∀ entry : MessageQueue × ℕ,
      ¬ (entry ∈ (impl.updateProcessQueueTableInRebalance
          input).rebalanceImpl.processQueueTable.entries ↔
        entry ∈ impl.processQueueTable.entries) →
      ∃ queue, (impl.updateProcessQueueTableInRebalance
          input).rebalanceImpl.processQueueTable.find? queue ≠
        impl.processQueueTable.find? queue := by
    intro entry hentry
    refine ⟨entry.1, fun heq ↦ hentry ?_⟩
    rw [← OrderedMap.find?_eq_some, ← OrderedMap.find?_eq_some, heq]
  rw [hextended.changed, Bool.or_eq_true, hremoved.changed, Bool.not_eq_true',
    List.isEmpty_eq_false_iff_exists_mem]
  constructor
  · rintro (⟨entry, hentry, hgone⟩ | ⟨request, hrequest⟩)
    · refine hdiffer entry fun hiff ↦ ?_
      rcases (hextended.entries entry).mp (hiff.mpr hentry) with hremains | hadded
      · exact hgone hremains
      · exact ((new_entry_iff hbounded entry).mp hadded).2 hentry
    · have hnew := (new_entry_iff hbounded _).mp (List.mem_map_of_mem hrequest)
      exact hdiffer request.entry fun hiff ↦ hnew.2 (hiff.mp hnew.1)
  · rintro ⟨queue, hqueue⟩
    by_contra hnone
    rw [not_or, not_exists, not_exists] at hnone
    have hsame : (impl.updateProcessQueueTableInRebalance input).rebalanceImpl.processQueueTable =
        impl.processQueueTable := by
      refine OrderedMap.ext_mem fun entry ↦ ?_
      rw [hextended.entries]
      constructor
      · rintro (hremains | hadded)
        · exact hremoved.shrinks.entries entry hremains
        · obtain ⟨request, hrequest, -⟩ := List.mem_map.mp hadded
          exact absurd hrequest (hnone.2 request)
      · intro hentry
        exact Or.inl (not_not.mp fun hgone ↦ hnone.1 entry ⟨hentry, hgone⟩)
    exact hqueue (by rw [hsame])

/-- Every pass keeps its contract. -/
theorem passContract (hbounded : impl.Bounded)
    (htopic : ∀ queue ∈ input.mqSet, queue.topic = input.topic) :
    PassContract impl input (impl.updateProcessQueueTableInRebalance input) := by
  have hremoved := removed_removalLoop impl input
  have hextended := extended_updateProcessQueueTableInRebalance impl input
  have hmem := mem_foldl_addMissing input input.mqSet (impl.removalLoop input)
  rw [← updateProcessQueueTableInRebalance_eq] at hmem
  refine ⟨fun queue hqueue hsame ↦ ?_, fun entry hentry ↦ ?_, fun queue hqueue ↦ ?_,
    fun entry hother ↦ ?_, fun service ↦ ⟨_, service.dispatchPullRequest_eq _, fun entry ↦ ?_⟩,
    changed_iff hbounded⟩
  · rcases (hmem queue).mp hqueue with hremains | ⟨hallocated, -⟩
    · exact mem_mqSet_of_mem_removalLoop hsame hremains
    · exact hallocated
  · exact ⟨hremoved.shrinks.entries entry hentry, (hextended.entries entry).mpr (Or.inl hentry)⟩
  · rw [hmem, and_iff_right hqueue]
  · rw [hextended.entries]
    constructor
    · rintro (hremains | hadded)
      · exact hremoved.shrinks.entries entry hremains
      · have hnew := (new_entry_iff hbounded entry).mp hadded
        have hallocated := (hmem entry.1).mp (OrderedMap.key_mem hnew.1)
        obtain ⟨request, hrequest, rfl⟩ := List.mem_map.mp hadded
        have hin := hallocated.resolve_left (hextended.absent request hrequest)
        exact absurd (htopic _ hin.1) hother
    · exact fun hentry ↦ Or.inl (hremoved.otherTopic entry hentry hother)
  · have hnodup : ((impl.updateProcessQueueTableInRebalance input).pullRequestList.map
        PullRequest.entry).Nodup := by
      refine List.Nodup.of_map Prod.snd ?_
      rw [List.map_map]
      exact hextended.distinct
    rw [hnodup.count, if_congr (new_entry_iff hbounded entry) rfl rfl]

end Pass

theorem supersedes_truncateMessageQueueNotMyTopic (impl : RebalanceImpl)
    (subTable : List ByteString) :
    impl.Supersedes (impl.truncateMessageQueueNotMyTopic subTable) := by
  have hboth : impl.Supersedes (impl.truncateMessageQueueNotMyTopic subTable) ∧
      impl.Shrinks (impl.truncateMessageQueueNotMyTopic subTable) := by
    unfold truncateMessageQueueNotMyTopic
    refine List.foldlRecOn (motive := fun current ↦ impl.Supersedes current ∧ impl.Shrinks current)
      _ _ ⟨Supersedes.refl impl, Shrinks.refl impl⟩ ?_
    rintro current ⟨hsupersedes, hshrinks⟩ entry hentry
    split_ifs
    · exact ⟨hsupersedes, hshrinks⟩
    · refine ⟨hsupersedes.trans (supersedes_dropEntry fun address haddress ↦ ?_),
        hshrinks.trans (shrinks_dropEntry current entry)⟩
      exact congrArg Prod.snd (OrderedMap.entry_unique (hshrinks.entries _ haddress) hentry rfl)
  exact hboth.1

theorem supersedes_removeProcessQueue (impl : RebalanceImpl) (queue : MessageQueue) :
    impl.Supersedes (impl.removeProcessQueue queue) := by
  unfold removeProcessQueue
  cases hfind : impl.processQueueTable.find? queue with
  | none => exact Supersedes.refl impl
  | some address =>
    refine supersedes_dropEntry fun other hother ↦ ?_
    have hentry := OrderedMap.find?_eq_some.mp hfind
    exact congrArg Prod.snd (OrderedMap.entry_unique hother hentry rfl)

end RebalanceImpl

namespace TableOperation

open RebalanceImpl

/-! ### Runs -/

/-- No operation lets an entry go whose process queue is not dropped. -/
theorem supersedes_apply (impl : RebalanceImpl) (operation : TableOperation) :
    impl.Supersedes (operation.apply impl) := by
  cases operation with
  | doRebalance => exact supersedes_downBrokerName impl []
  | updateProcessQueueTableInRebalance input =>
    exact supersedes_updateProcessQueueTableInRebalance impl input
  | truncateMessageQueueNotMyTopic subTable =>
    exact supersedes_truncateMessageQueueNotMyTopic impl subTable
  | removeProcessQueue queue => exact supersedes_removeProcessQueue impl queue
  | useProcessQueue address queue =>
    refine (impl.shrinks_setProcessQueue address fun hdroped ↦ ?_).supersedes fun _ hentry ↦
      Or.inl hentry
    simp [hdroped]

theorem supersedes_run (impl : RebalanceImpl) (operations : List TableOperation) :
    impl.Supersedes (run impl operations) := by
  unfold run
  refine List.foldlRecOn _ _ (Supersedes.refl impl) fun current hcurrent operation _ ↦ ?_
  exact hcurrent.trans (supersedes_apply current operation)

/-- What an operation inserts is in the table after it, at an address in use. -/
theorem inserted_current {impl : RebalanceImpl} {operation : TableOperation}
    {entry : MessageQueue × ℕ} (hinserted : entry ∈ operation.inserted impl) :
    entry ∈ (operation.apply impl).processQueueTable.entries ∧
      entry.2 < (operation.apply impl).allocated := by
  cases operation with
  | updateProcessQueueTableInRebalance input =>
    have hextended := extended_foldl_addMissing input input.mqSet (impl.removalLoop input)
    have hadded := (mem_insertedByLoop input input.mqSet (impl.removalLoop input) entry).mp
      hinserted
    refine ⟨(hextended.entries entry).mpr (Or.inr hadded), ?_⟩
    obtain ⟨request, hrequest, rfl⟩ := List.mem_map.mp hadded
    exact (hextended.fresh request hrequest).2
  | doRebalance => exact absurd hinserted List.not_mem_nil
  | truncateMessageQueueNotMyTopic subTable => exact absurd hinserted List.not_mem_nil
  | removeProcessQueue queue => exact absurd hinserted List.not_mem_nil
  | useProcessQueue address queue => exact absurd hinserted List.not_mem_nil

/-- Every entry ever inserted is in the table at the end, or its process queue is dropped. -/
theorem everInserted_current_or_droped {impl : RebalanceImpl} {operations : List TableOperation}
    {entry : MessageQueue × ℕ} (hinserted : entry ∈ everInserted impl operations) :
    entry ∈ (run impl operations).processQueueTable.entries ∨
      ((run impl operations).processQueues entry.2).droped = true := by
  induction operations generalizing impl with
  | nil => exact absurd hinserted List.not_mem_nil
  | cons operation rest ih =>
    rcases List.mem_append.mp hinserted with hnow | hlater
    · obtain ⟨hentry, hlt⟩ := inserted_current hnow
      exact (supersedes_run (operation.apply impl) rest).current_or_droped hlt (Or.inl hentry)
    · exact ih hlater

theorem bounded_run (operations : List TableOperation) : (run initial operations).Bounded :=
  (supersedes_run initial operations).bounded fun _ hentry ↦ absurd hentry List.not_mem_nil

/-- Over every sequence of operations, a process queue that was ever inserted is the current one of
its message queue or is dropped; and a pass for a topic with queues of that topic keeps its
contract in every state reached. -/
theorem process_queue_table_contract (operations : List TableOperation) :
    (∀ entry ∈ everInserted initial operations,
      (run initial operations).processQueueTable.find? entry.1 = some entry.2 ∨
        ((run initial operations).processQueues entry.2).droped = true) ∧
    ∀ input : RebalanceInput, (∀ queue ∈ input.mqSet, queue.topic = input.topic) →
      PassContract (run initial operations) input
        ((run initial operations).updateProcessQueueTableInRebalance input) := by
  refine ⟨fun entry hinserted ↦ ?_, fun input htopic ↦ passContract (bounded_run operations) htopic⟩
  rcases everInserted_current_or_droped hinserted with hcurrent | hdroped
  · exact Or.inl (OrderedMap.find?_eq_some.mpr hcurrent)
  · exact Or.inr hdroped

/-- A pass for topic 1 with the queue 0 of broker 2, whose master has an address and an offset. -/
def passForOneQueue (masterAddr : ByteString) : RebalanceInput where
  topic := [1]
  mqSet := [⟨[1], [2], 0⟩]
  masterAddrOfHeld := fun _ ↦ masterAddr
  masterAddrOfAdded := fun _ ↦ masterAddr
  computePullFromWhere := fun _ ↦ 5
  now := 0

/-- After a pass that adds a queue, one that finds a new master replaces it. -/
theorem process_queue_table_contract_of_new_master :
    everInserted initial [.updateProcessQueueTableInRebalance (passForOneQueue [7])] =
        [(⟨[1], [2], 0⟩, 0)] ∧
      PassContract
        (run initial [.updateProcessQueueTableInRebalance (passForOneQueue [7])])
        (passForOneQueue [8])
        ((run initial [.updateProcessQueueTableInRebalance
          (passForOneQueue [7])]).updateProcessQueueTableInRebalance (passForOneQueue [8])) := by
  refine ⟨by decide, (process_queue_table_contract _).2 (passForOneQueue [8]) ?_⟩
  intro queue hqueue
  rw [List.mem_singleton.mp hqueue]
  rfl

end TableOperation

end RocketMQClient.Consumer
