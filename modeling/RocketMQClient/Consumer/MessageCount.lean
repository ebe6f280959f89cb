import RocketMQClient.Consumer.OffsetStore
import RocketMQClient.Consumer.ProcessQueue
import RocketMQClient.Consumer.PullRequest
import RocketMQClient.Library.EventSystem

/-!
# The message count of a process queue

`msgCount` is kept by hand: a put adds the length of the batch, a removal subtracts it when the tree
map is not empty, a commit subtracts the size of the temporary map, and the operations that move
messages between the two maps leave it alone. `ProcessQueue.Counted` is the invariant that makes
this right: the counter is the sum of the two sizes and no offset is in both maps. Each operation
keeps it under the conditions its callers meet.

`countSystem` runs the operations in any order, together with `correctTagsOffset`, which tests the
counter and stores the next offset in a later step. The pull callback both stores batches and
corrects the offset, so no batch is stored between the test and the update.
`msgCount_eq_held` is the statement about whole runs, with what the flow control of `pullMessage`
and `correctTagsOffset` therefore test.
-/

set_option autoImplicit false
set_option relaxedAutoImplicit false

namespace RocketMQClient.Consumer

open Library Messages

namespace ProcessQueue

/-- The number of messages in the two maps. -/
def heldCount (queue : ProcessQueue) : ℕ := queue.msgTreeMap.size + queue.msgTreeMapTemp.size

/-- The counter is the number of messages held, and no offset is in both maps. -/
structure Counted (queue : ProcessQueue) : Prop where
  count : queue.msgCount = queue.heldCount
  disjoint : ∀ offset ∈ queue.msgTreeMap, offset ∉ queue.msgTreeMapTemp

/-- A batch with distinct offsets, none of which is held. -/
def Fresh (queue : ProcessQueue) (msgs : List MessageExt) : Prop :=
  (msgs.map MessageExt.queueOffset).Nodup ∧ ∀ msg ∈ msgs,
    msg.queueOffset ∉ queue.msgTreeMap ∧ msg.queueOffset ∉ queue.msgTreeMapTemp

instance (queue : ProcessQueue) (msgs : List MessageExt) : Decidable (queue.Fresh msgs) :=
  inferInstanceAs (Decidable (_ ∧ _))

/-- Distinct messages of the tree map. -/
def Removable (queue : ProcessQueue) (msgs : List MessageExt) : Prop :=
  (msgs.map MessageExt.queueOffset).Nodup ∧ ∀ msg ∈ msgs, msg.queueOffset ∈ queue.msgTreeMap

instance (queue : ProcessQueue) (msgs : List MessageExt) : Decidable (queue.Removable msgs) :=
  inferInstanceAs (Decidable (_ ∧ _))

/-- Messages of the temporary map. -/
def Taken (queue : ProcessQueue) (msgs : List MessageExt) : Prop :=
  ∀ msg ∈ msgs, msg.queueOffset ∈ queue.msgTreeMapTemp

instance (queue : ProcessQueue) (msgs : List MessageExt) : Decidable (queue.Taken msgs) :=
  inferInstanceAs (Decidable (∀ _ ∈ _, _))

/-! ### One operation -/

section Operations

variable {queue : ProcessQueue} {msgs : List MessageExt}

theorem counted_new (now : ℤ) : (new now).Counted :=
  ⟨rfl, fun offset hoffset ↦ absurd hoffset (OrderedMap.not_mem_empty offset)⟩

theorem counted_putMessage (hcounted : queue.Counted) (hfresh : queue.Fresh msgs) :
    (queue.putMessage msgs).2.Counted := by
  constructor
  · have hsize := OrderedMap.size_assignAll hfresh.1 fun msg hmsg ↦ (hfresh.2 msg hmsg).1
    have hcount := hcounted.count
    rw [heldCount] at hcount
    rw [heldCount, putMessage_msgCount, putMessage_msgTreeMap, putMessage_msgTreeMapTemp, hsize]
    omega
  · intro offset hoffset
    rw [putMessage_msgTreeMap, OrderedMap.mem_assignAll] at hoffset
    rw [putMessage_msgTreeMapTemp]
    rcases hoffset with hbefore | ⟨msg, hmsg, rfl⟩
    · exact hcounted.disjoint offset hbefore
    · exact (hfresh.2 msg hmsg).2

@[simp] theorem removeMessage_msgTreeMapTemp (queue : ProcessQueue) (msgs : List MessageExt) :
    (queue.removeMessage msgs).2.msgTreeMapTemp = queue.msgTreeMapTemp := by
  rw [removeMessage_queue]
  split <;> rfl

theorem counted_removeMessage (hcounted : queue.Counted) (hremovable : queue.Removable msgs) :
    (queue.removeMessage msgs).2.Counted := by
  constructor
  · have hsize := removeMessage_msgCount_sub_size hremovable.1 hremovable.2
    have hcount := hcounted.count
    rw [heldCount] at hcount
    rw [heldCount, removeMessage_msgTreeMapTemp]
    omega
  · intro offset hoffset
    rw [removeMessage_msgTreeMapTemp]
    exact hcounted.disjoint offset (removeMessage_keys.mp hoffset).1

theorem takeMessags_msgCount (queue : ProcessQueue) (batchSize : ℤ) :
    (queue.takeMessags batchSize).2.msgCount = queue.msgCount := by
  rw [takeMessags_queue]

theorem counted_takeMessags (hcounted : queue.Counted) (batchSize : ℤ) :
    (queue.takeMessags batchSize).2.Counted := by
  constructor
  · have hfresh : ∀ entry ∈ queue.msgTreeMap.entries.take batchSize.toNat,
        entry.1 ∉ queue.msgTreeMapTemp := fun entry hentry ↦
      hcounted.disjoint entry.1 (OrderedMap.key_mem (List.mem_of_mem_take hentry))
    have hsize := OrderedMap.size_assignPairs (queue.nodup_keys_take batchSize.toNat) hfresh
    have hcount := hcounted.count
    rw [heldCount] at hcount
    rw [heldCount, takeMessags_msgCount, takeMessags_msgTreeMap, takeMessags_msgTreeMapTemp, hsize,
      hcount]
    simp only [OrderedMap.size, OrderedMap.entries_dropFirst, List.length_drop, List.length_take]
    omega
  · intro offset hoffset htemp
    obtain ⟨left, hleft, rfl⟩ := OrderedMap.mem_iff.mp hoffset
    obtain ⟨taken, htaken, hsame⟩ := OrderedMap.mem_iff.mp htemp
    have hdrop := tree_entry_of_takeMessags hleft
    rcases temp_entry_of_takeMessags htaken with hbefore | htake
    · have htree := OrderedMap.key_mem (List.mem_of_mem_drop hdrop)
      exact hcounted.disjoint left.1 htree (hsame ▸ OrderedMap.key_mem hbefore)
    · have heq := OrderedMap.entry_unique (List.mem_of_mem_take htake) (List.mem_of_mem_drop hdrop)
        hsame
      exact not_taken_and_left (heq ▸ htake) hdrop

theorem counted_commit (hcounted : queue.Counted) : queue.commit.2.Counted := by
  obtain ⟨-, htemp, htree⟩ := queue.commit_eq
  constructor
  · have hcount := hcounted.count
    rw [heldCount] at hcount ⊢
    rw [htemp, htree]
    unfold commit
    cases hlast : queue.msgTreeMapTemp.last? with
    | none =>
      have hzero := OrderedMap.size_eq_zero.mpr (OrderedMap.last?_eq_none.mp hlast)
      rw [hzero] at hcount
      exact hcount
    | some last =>
      show queue.msgCount - queue.msgTreeMapTemp.size = _
      rw [hcount]
      simp [OrderedMap.size, OrderedMap.empty]
  · intro offset _
    rw [htemp]
    exact OrderedMap.not_mem_empty offset

theorem counted_rollback (hcounted : queue.Counted) : queue.rollback.Counted := by
  constructor
  · have hdistinct : (queue.msgTreeMapTemp.entries.map Prod.fst).Nodup :=
      List.pairwise_map.mpr (queue.msgTreeMapTemp.sorted.imp fun hlt ↦ hlt.ne)
    have hfresh : ∀ entry ∈ queue.msgTreeMapTemp.entries, entry.1 ∉ queue.msgTreeMap :=
      fun entry hentry htree ↦ hcounted.disjoint entry.1 htree (OrderedMap.key_mem hentry)
    have hsize := OrderedMap.size_assignPairs hdistinct hfresh
    show queue.msgCount = ((queue.msgTreeMap.assignPairs queue.msgTreeMapTemp.entries).size + 0 : ℕ)
    rw [hsize, hcounted.count]
    rfl
  · intro offset _
    exact OrderedMap.not_mem_empty offset

theorem counted_giveBack {msg : MessageExt} (hcounted : queue.Counted)
    (htaken : msg.queueOffset ∈ queue.msgTreeMapTemp) : (queue.giveBack msg).Counted := by
  have hfresh : msg.queueOffset ∉ queue.msgTreeMap := fun htree ↦
    hcounted.disjoint msg.queueOffset htree htaken
  constructor
  · have hassign : (queue.msgTreeMap.assign msg.queueOffset msg).size =
        queue.msgTreeMap.size + 1 := OrderedMap.size_assign_of_not_mem hfresh
    have herase := OrderedMap.size_erase_of_mem htaken
    have hcount := hcounted.count
    rw [heldCount] at hcount
    show queue.msgCount = ((queue.msgTreeMap.assign msg.queueOffset msg).size +
      (queue.msgTreeMapTemp.erase msg.queueOffset).size : ℕ)
    omega
  · intro offset hoffset htemp
    obtain ⟨hne, hbefore⟩ := OrderedMap.mem_erase.mp htemp
    rcases OrderedMap.mem_assign.mp hoffset with heq | htree
    · exact hne heq
    · exact hcounted.disjoint offset htree hbefore

/-- Giving back a message that the tree map holds already changes neither size. -/
theorem counted_giveBack_again {msg : MessageExt} (hcounted : queue.Counted)
    (hgiven : msg.queueOffset ∈ queue.msgTreeMap) : (queue.giveBack msg).Counted := by
  have hassign : (queue.msgTreeMap.assign msg.queueOffset msg).size = queue.msgTreeMap.size :=
    OrderedMap.size_assign_of_mem hgiven
  have herase := OrderedMap.erase_of_not_mem (hcounted.disjoint msg.queueOffset hgiven)
  constructor
  · have hcount := hcounted.count
    rw [heldCount] at hcount
    show queue.msgCount = ((queue.msgTreeMap.assign msg.queueOffset msg).size +
      (queue.msgTreeMapTemp.erase msg.queueOffset).size : ℕ)
    rw [hassign, herase]
    exact hcount
  · intro offset hoffset htemp
    have hbefore := (OrderedMap.mem_erase.mp htemp).2
    rcases OrderedMap.mem_assign.mp hoffset with rfl | htree
    · exact hcounted.disjoint _ hgiven hbefore
    · exact hcounted.disjoint offset htree hbefore

/-- Giving a batch back keeps the counter right, also when the batch names a message twice. -/
theorem counted_makeMessageToCosumeAgain (hcounted : queue.Counted)
    (hheld : ∀ msg ∈ msgs, msg.queueOffset ∈ queue.msgTreeMap ∨
      msg.queueOffset ∈ queue.msgTreeMapTemp) :
    (queue.makeMessageToCosumeAgain msgs).Counted := by
  unfold makeMessageToCosumeAgain
  induction msgs generalizing queue with
  | nil => exact hcounted
  | cons msg rest ih =>
    rw [List.foldl_cons]
    refine ih ?_ ?_
    · rcases hheld msg List.mem_cons_self with htree | htemp
      · exact counted_giveBack_again hcounted htree
      · exact counted_giveBack hcounted htemp
    · intro other hother
      show other.queueOffset ∈ queue.msgTreeMap.assign msg.queueOffset msg ∨
        other.queueOffset ∈ queue.msgTreeMapTemp.erase msg.queueOffset
      rw [OrderedMap.mem_assign, OrderedMap.mem_erase]
      rcases hheld other (List.mem_cons_of_mem msg hother) with htree | htemp
      · exact Or.inl (Or.inr htree)
      · by_cases hsame : other.queueOffset = msg.queueOffset
        · exact Or.inl (Or.inl hsame)
        · exact Or.inr ⟨hsame, htemp⟩

/-! Only a put raises the counter. -/

theorem removeMessage_msgCount_le (queue : ProcessQueue) (msgs : List MessageExt) :
    (queue.removeMessage msgs).2.msgCount ≤ queue.msgCount := by
  rw [removeMessage_queue]
  split
  · exact le_refl _
  · dsimp only
    omega

theorem commit_msgCount_le (queue : ProcessQueue) : queue.commit.2.msgCount ≤ queue.msgCount := by
  unfold commit
  split
  · exact le_refl _
  · dsimp only
    omega

end Operations

end ProcessQueue

/-! ### Any sequence of operations -/

/-- A process queue and the offset table, and the next offset that `correctTagsOffset` has found to
be storable and not yet stored. -/
structure CountState where
  processQueue : ProcessQueue
  offsetTable : OffsetTable
  correcting : Option ℤ
  deriving DecidableEq

/-- The operations on the process queue, and the two steps of `correctTagsOffset`. -/
inductive CountEvent where
  | putMessage (msgs : List MessageExt)
  | removeMessage (msgs : List MessageExt)
  | takeMessags (batchSize : ℤ)
  | commit
  | rollback
  | makeMessageToCosumeAgain (msgs : List MessageExt)
  | correctTagsOffset (nextOffset : ℤ)
  | updateOffset
  deriving DecidableEq

namespace CountState

/-- A new process queue over an offset table. -/
def initial (now : ℤ) (offsetTable : OffsetTable) : CountState where
  processQueue := ProcessQueue.new now
  offsetTable := offsetTable
  correcting := none

/-- One operation. The pull callback stores batches and corrects the offset, one after the other. -/
def step (queue : MessageQueue) (state : CountState) : CountEvent → Option CountState
  | .putMessage msgs =>
    if state.processQueue.Fresh msgs ∧ state.correcting = none then
      some { state with processQueue := (state.processQueue.putMessage msgs).2 }
    else none
  | .removeMessage msgs =>
    if state.processQueue.Removable msgs then
      some { state with processQueue := (state.processQueue.removeMessage msgs).2 }
    else none
  | .takeMessags batchSize =>
    some { state with processQueue := (state.processQueue.takeMessags batchSize).2 }
  | .commit => some { state with processQueue := state.processQueue.commit.2 }
  | .rollback => some { state with processQueue := state.processQueue.rollback }
  | .makeMessageToCosumeAgain msgs =>
    if state.processQueue.Taken msgs then
      some { state with processQueue := state.processQueue.makeMessageToCosumeAgain msgs }
    else none
  | .correctTagsOffset nextOffset =>
    if state.correcting = none then
      some { state with
        correcting := if state.processQueue.msgCount = 0 then some nextOffset else none }
    else none
  | .updateOffset =>
    match state.correcting with
    | none => none
    | some nextOffset =>
      some { state with
        offsetTable := state.offsetTable.updateOffset queue nextOffset true
        correcting := none }

end CountState

/-- The operations on one process queue in any order. -/
def countSystem (queue : MessageQueue) : EventSystem CountState CountEvent :=
  ⟨CountState.step queue⟩

/-- The counter is right, and a correction under way has found both maps empty. -/
structure CountState.Invariant (state : CountState) : Prop where
  counted : state.processQueue.Counted
  empty_of_correcting : state.correcting ≠ none → state.processQueue.heldCount = 0

section Runs

variable {queue : MessageQueue} {state next : CountState}

/-- An operation that keeps the counter right and does not raise it keeps the invariant. -/
theorem CountState.Invariant.of_processQueue {processQueue : ProcessQueue}
    (hinvariant : state.Invariant) (hcounted : processQueue.Counted)
    (hcount : processQueue.msgCount ≤ state.processQueue.msgCount) :
    ({ state with processQueue := processQueue } : CountState).Invariant := by
  refine ⟨hcounted, fun hcorrecting ↦ ?_⟩
  have hbefore := hinvariant.counted.count
  have hafter := hcounted.count
  rw [hinvariant.empty_of_correcting hcorrecting] at hbefore
  show processQueue.heldCount = 0
  omega

theorem countState_invariant_step {event : CountEvent}
    (hstep : (countSystem queue).step state event = some next) (hinvariant : state.Invariant) :
    next.Invariant := by
  have hcounted := hinvariant.counted
  cases event with
  | putMessage msgs =>
    simp only [countSystem, CountState.step, Option.ite_none_right_eq_some,
      Option.some.injEq] at hstep
    obtain ⟨⟨hfresh, hcorrecting⟩, rfl⟩ := hstep
    exact ⟨ProcessQueue.counted_putMessage hcounted hfresh, fun hsome ↦ absurd hcorrecting hsome⟩
  | removeMessage msgs =>
    simp only [countSystem, CountState.step, Option.ite_none_right_eq_some,
      Option.some.injEq] at hstep
    obtain ⟨hremovable, rfl⟩ := hstep
    exact hinvariant.of_processQueue (ProcessQueue.counted_removeMessage hcounted hremovable)
      (ProcessQueue.removeMessage_msgCount_le _ msgs)
  | takeMessags batchSize =>
    rw [← Option.some.inj hstep]
    exact hinvariant.of_processQueue (ProcessQueue.counted_takeMessags hcounted batchSize)
      (ProcessQueue.takeMessags_msgCount _ batchSize).le
  | commit =>
    rw [← Option.some.inj hstep]
    exact hinvariant.of_processQueue (ProcessQueue.counted_commit hcounted)
      (ProcessQueue.commit_msgCount_le _)
  | rollback =>
    rw [← Option.some.inj hstep]
    exact hinvariant.of_processQueue (ProcessQueue.counted_rollback hcounted) (le_refl _)
  | makeMessageToCosumeAgain msgs =>
    simp only [countSystem, CountState.step, Option.ite_none_right_eq_some,
      Option.some.injEq] at hstep
    obtain ⟨htaken, rfl⟩ := hstep
    refine hinvariant.of_processQueue ?_ ?_
    · exact ProcessQueue.counted_makeMessageToCosumeAgain hcounted
        fun msg hmsg ↦ Or.inr (htaken msg hmsg)
    · rw [ProcessQueue.makeMessageToCosumeAgain_eq]
  | correctTagsOffset nextOffset =>
    simp only [countSystem, CountState.step, Option.ite_none_right_eq_some,
      Option.some.injEq] at hstep
    obtain ⟨-, rfl⟩ := hstep
    refine ⟨hcounted, fun hcorrecting ↦ ?_⟩
    have hcount := hcounted.count
    by_cases hzero : state.processQueue.msgCount = 0
    · show state.processQueue.heldCount = 0
      omega
    · exact absurd (if_neg hzero) hcorrecting
  | updateOffset =>
    simp only [countSystem, CountState.step] at hstep
    split at hstep
    · exact absurd hstep (Option.some_ne_none next).symm
    · rw [← Option.some.inj hstep]
      exact ⟨hcounted, fun hcorrecting ↦ absurd rfl hcorrecting⟩

/-- The offset table changes only when a correction under way is stored. -/
theorem correcting_of_offsetTable_changed {event : CountEvent}
    (hstep : (countSystem queue).step state event = some next)
    (hchanged : next.offsetTable ≠ state.offsetTable) : state.correcting ≠ none := by
  intro hnone
  cases event with
  | updateOffset => simp [countSystem, CountState.step, hnone] at hstep
  | putMessage msgs | removeMessage msgs | makeMessageToCosumeAgain msgs
  | correctTagsOffset nextOffset =>
    simp only [countSystem, CountState.step, Option.ite_none_right_eq_some,
      Option.some.injEq] at hstep
    rw [← hstep.2] at hchanged
    exact hchanged rfl
  | takeMessags batchSize | commit | rollback =>
    rw [← Option.some.inj hstep] at hchanged
    exact hchanged rfl

end Runs

/-- After any sequence of operations the counter is the number of messages in the two maps. Hence
the flow control of `pullMessage` postpones a pull exactly by the number of messages held, and
`correctTagsOffset` stores an offset only while no message is held. -/
theorem msgCount_eq_held {queue : MessageQueue} {now : ℤ} {offsetTable : OffsetTable}
    {events : List CountEvent} {state : CountState}
    (hrun : (countSystem queue).run (CountState.initial now offsetTable) events = some state) :
    state.processQueue.msgCount =
        state.processQueue.msgTreeMap.size + state.processQueue.msgTreeMapTemp.size ∧
      (∀ (config : PullConfig) (environment : PullEnvironment),
        environment.serviceRunning = true → environment.pause = false →
        config.pullThresholdForQueue <
          state.processQueue.msgTreeMap.size + state.processQueue.msgTreeMapTemp.size →
        pullPostponed config environment state.processQueue =
          some pullTimeDelayMillsWhenFlowControl) ∧
      (∀ (config : PullConfig) (environment : PullEnvironment),
        pullPostponed config environment state.processQueue = none →
        state.processQueue.msgTreeMap.size + state.processQueue.msgTreeMapTemp.size ≤
          config.pullThresholdForQueue) ∧
      ∀ (event : CountEvent) (next : CountState),
        (countSystem queue).step state event = some next →
        next.offsetTable ≠ state.offsetTable →
        state.processQueue.msgTreeMap.isEmpty ∧ state.processQueue.msgTreeMapTemp.isEmpty := by
  have hinvariant : state.Invariant := by
    refine EventSystem.run_invariant ?_ hrun ?_
    · exact fun _ _ _ hstep hbefore ↦ countState_invariant_step hstep hbefore
    · exact ⟨ProcessQueue.counted_new now, fun hcorrecting ↦ absurd rfl hcorrecting⟩
  have hcount := hinvariant.counted.count
  rw [ProcessQueue.heldCount, Int.natCast_add] at hcount
  refine ⟨hcount, ?_, ?_, ?_⟩
  · intro config environment hrunning hpause hlarge
    have hflow : state.processQueue.msgCount > config.pullThresholdForQueue := by omega
    simp [pullPostponed, hrunning, hpause, hflow]
  · intro config environment hnone
    by_contra hlarge
    have hflow : state.processQueue.msgCount > config.pullThresholdForQueue := by omega
    unfold pullPostponed at hnone
    split_ifs at hnone
  · intro event next hstep hchanged
    have hheld := hinvariant.empty_of_correcting (correcting_of_offsetTable_changed hstep hchanged)
    rw [ProcessQueue.heldCount, Nat.add_eq_zero_iff] at hheld
    exact ⟨OrderedMap.size_eq_zero.mp hheld.1, OrderedMap.size_eq_zero.mp hheld.2⟩

/-- Two messages of which one is taken are counted as two. -/
theorem msgCount_of_one_taken :
    ∃ state, (countSystem ⟨[], [], 0⟩).run (CountState.initial 0 OrderedMap.empty)
        [.putMessage [⟨0, 3⟩, ⟨1, 4⟩], .takeMessags 1] = some state ∧
      state.processQueue.msgTreeMap.size = 1 ∧ state.processQueue.msgTreeMapTemp.size = 1 ∧
      state.processQueue.msgCount =
        state.processQueue.msgTreeMap.size + state.processQueue.msgTreeMapTemp.size := by
  refine ⟨_, rfl, by decide, by decide, ?_⟩
  exact (@msgCount_eq_held ⟨[], [], 0⟩ 0 OrderedMap.empty
    [.putMessage [⟨0, 3⟩, ⟨1, 4⟩], .takeMessags 1] _ rfl).1

end RocketMQClient.Consumer
