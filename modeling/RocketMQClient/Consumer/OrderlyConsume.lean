import RocketMQClient.Consumer.OffsetStore
import RocketMQClient.Consumer.ProcessQueue
import RocketMQClient.Library.EventSystem

/-!
# The orderly consume loop

`ConsumeOrderlyRequest::Do` takes a batch, gives it to the listener, lets `processConsumeResult`
act on the process queue, and deletes the messages of the batch when consumption continues. The
requests of one message queue are serialised by the lock of that queue, so one batch is under way at
a time; the pull callback may store batches between any two steps. `orderlyConsumeSystem` has one
event for each step, and keeps the messages allocated and the messages deleted as history. A message
object is identified by its address, and the addresses of the objects ever allocated are distinct.

A queue must not refer to a deleted message (`NoReleasedReference`). This fails for a batch that
returns `SUCCESS` with `autoCommit` off: `processConsumeResult` leaves the batch in the temporary
map and lets consumption continue, so the batch is deleted and stays referenced
(`released_message_taken_again`). It holds in every run in which no batch does so, and such a batch
always breaks it (`no_released_reference`).

Messages are told apart by their addresses, and the invariant ties the batch in the hands of the
listener to the temporary map: what leaves that map by a commit is what the loop deletes, and what
goes back to the tree map is not deleted. An uncommitted success does neither, which is why the
condition is on the result of the listener and nothing else.
-/

set_option autoImplicit false
set_option relaxedAutoImplicit false

namespace RocketMQClient.Consumer

open Library Messages

/-! ### The operations of the source -/

/-- What the listener of orderly consumption returns. -/
inductive ConsumeOrderlyStatus where
  | success
  | rollback
  | commit
  | suspendCurrentQueueAMoment
  deriving DecidableEq, Repr

/-- The result of `processConsumeResult`: whether consumption continues, the offset to store, the
process queue, and whether the queue is submitted again later. -/
structure ConsumeOrderlyOutcome where
  continueConsume : Bool
  commitOffset : ℤ
  processQueue : ProcessQueue
  submitLater : Bool

/-- Acts on the process queue as the status of a batch asks for. -/
def processConsumeResult (msgs : List MessageExt) (status : ConsumeOrderlyStatus)
    (autoCommit : Bool) (queue : ProcessQueue) : ConsumeOrderlyOutcome :=
  if autoCommit then
    match status with
    | .commit | .rollback | .success => ⟨true, queue.commit.1, queue.commit.2, false⟩
    | .suspendCurrentQueueAMoment => ⟨false, -1, queue.makeMessageToCosumeAgain msgs, true⟩
  else
    match status with
    | .success => ⟨true, -1, queue, false⟩
    | .commit => ⟨true, queue.commit.1, queue.commit.2, false⟩
    | .rollback => ⟨false, -1, queue.rollback, true⟩
    | .suspendCurrentQueueAMoment => ⟨false, -1, queue.makeMessageToCosumeAgain msgs, true⟩

/-- The status of a batch; a listener that throws suspends the queue. -/
def listenerStatus (returned : Option ConsumeOrderlyStatus) : ConsumeOrderlyStatus :=
  returned.getD .suspendCurrentQueueAMoment

/-! ### The event system -/

/-- Where the request that holds the lock of the message queue is. -/
inductive OrderlyPhase where
  /-- Between two batches, or no request runs. -/
  | idle
  /-- The listener has the batch. -/
  | listening (msgs : List MessageExt)
  /-- The batch is being deleted. -/
  | deleting (msgs : List MessageExt)
  deriving DecidableEq

/-- A process queue, the offset table and the running request, with the messages allocated and
deleted so far. -/
structure OrderlyConsumeState where
  processQueue : ProcessQueue
  offsetTable : OffsetTable
  phase : OrderlyPhase
  allocated : List MessageExt
  released : List MessageExt
  deriving DecidableEq

/-- The steps of the pull callback and of the running request. -/
inductive OrderlyConsumeEvent where
  | putMessage (msgs : List MessageExt)
  | takeMessags (batchSize : ℤ)
  | consumeMessage (returned : Option ConsumeOrderlyStatus) (autoCommit : Bool)
  | deleteMessage
  deriving DecidableEq

namespace OrderlyConsumeState

/-- A new process queue without messages. -/
def initial (now : ℤ) (offsetTable : OffsetTable) : OrderlyConsumeState where
  processQueue := ProcessQueue.new now
  offsetTable := offsetTable
  phase := .idle
  allocated := []
  released := []

/-- New objects: their addresses differ from each other and from those allocated before. -/
def Fresh (state : OrderlyConsumeState) (msgs : List MessageExt) : Prop :=
  ((state.allocated ++ msgs).map MessageExt.address).Nodup

instance (state : OrderlyConsumeState) (msgs : List MessageExt) : Decidable (state.Fresh msgs) :=
  inferInstanceAs (Decidable (List.Nodup _))

/-- The state after the listener returned on a batch and `processConsumeResult` has run. -/
def afterListener (queue : MessageQueue) (state : OrderlyConsumeState) (msgs : List MessageExt)
    (returned : Option ConsumeOrderlyStatus) (autoCommit : Bool) : OrderlyConsumeState :=
  let outcome := processConsumeResult msgs (listenerStatus returned) autoCommit state.processQueue
  { state with
    processQueue := outcome.processQueue
    offsetTable := if outcome.commitOffset ≥ 0 then
      state.offsetTable.updateOffset queue outcome.commitOffset false else state.offsetTable
    phase := if outcome.continueConsume then .deleting msgs else .idle }

/-- One step. -/
def step (queue : MessageQueue) (state : OrderlyConsumeState) :
    OrderlyConsumeEvent → Option OrderlyConsumeState
  | .putMessage msgs =>
    if state.Fresh msgs then
      some { state with
        processQueue := (state.processQueue.putMessage msgs).2
        allocated := state.allocated ++ msgs }
    else none
  | .takeMessags batchSize =>
    match state.phase with
    | .idle =>
      let taken := state.processQueue.takeMessags batchSize
      some { state with
        processQueue := taken.2
        phase := if taken.1.isEmpty then .idle else .listening taken.1 }
    | _ => none
  | .consumeMessage returned autoCommit =>
    match state.phase with
    | .listening msgs => some (state.afterListener queue msgs returned autoCommit)
    | _ => none
  | .deleteMessage =>
    match state.phase with
    | .deleting [] => some { state with phase := .idle }
    | .deleting (msg :: rest) =>
      some { state with phase := .deleting rest, released := state.released ++ [msg] }
    | _ => none

end OrderlyConsumeState

/-- Orderly consumption of one message queue. -/
def orderlyConsumeSystem (queue : MessageQueue) :
    EventSystem OrderlyConsumeState OrderlyConsumeEvent :=
  ⟨OrderlyConsumeState.step queue⟩

/-- No deleted message is an element of the tree map or of the temporary map. -/
def NoReleasedReference (state : OrderlyConsumeState) : Prop :=
  ∀ released ∈ state.released,
    ∀ held ∈ state.processQueue.msgTreeMap.values ++ state.processQueue.msgTreeMapTemp.values,
      held.address ≠ released.address

instance (state : OrderlyConsumeState) : Decidable (NoReleasedReference state) :=
  inferInstanceAs (Decidable (∀ released ∈ state.released, _))

/-- The event is not a batch that returns `SUCCESS` with `autoCommit` off. -/
def NotUncommittedSuccess (_ : OrderlyConsumeState) : OrderlyConsumeEvent → Prop
  | .consumeMessage returned autoCommit => ¬ (returned = some .success ∧ autoCommit = false)
  | _ => True

/-! ### The invariant -/

/-- The messages of the batch that is being deleted. -/
def OrderlyPhase.condemned : OrderlyPhase → List MessageExt
  | .deleting msgs => msgs
  | _ => []

/-- Held messages lie under their own offset in one of the two maps, the batch of the listener lies
in the temporary map, and no map holds a message that is deleted or about to be. -/
structure ReleaseInvariant (state : OrderlyConsumeState) : Prop where
  unique : (state.allocated.map MessageExt.address).Nodup
  keyed : ∀ entry, entry ∈ state.processQueue.msgTreeMap.entries ∨
    entry ∈ state.processQueue.msgTreeMapTemp.entries →
      entry.2.queueOffset = entry.1 ∧ entry.2 ∈ state.allocated
  disjoint : ∀ entry ∈ state.processQueue.msgTreeMap.entries,
    entry ∉ state.processQueue.msgTreeMapTemp.entries
  listening : ∀ msgs, state.phase = .listening msgs → msgs ≠ [] ∧
    ∀ msg ∈ msgs, (msg.queueOffset, msg) ∈ state.processQueue.msgTreeMapTemp.entries
  gone : ∀ msg ∈ state.released ++ state.phase.condemned, msg ∈ state.allocated ∧
    (msg.queueOffset, msg) ∉ state.processQueue.msgTreeMap.entries ∧
    (msg.queueOffset, msg) ∉ state.processQueue.msgTreeMapTemp.entries

theorem releaseInvariant_initial (now : ℤ) (offsetTable : OffsetTable) :
    ReleaseInvariant (OrderlyConsumeState.initial now offsetTable) where
  unique := List.nodup_nil
  keyed := by simp [OrderlyConsumeState.initial, ProcessQueue.new, OrderedMap.empty]
  disjoint := by simp [OrderlyConsumeState.initial, ProcessQueue.new, OrderedMap.empty]
  listening := by simp [OrderlyConsumeState.initial]
  gone := by simp [OrderlyConsumeState.initial, OrderlyPhase.condemned]

namespace ReleaseInvariant

variable {state : OrderlyConsumeState}

/-- The invariant rules out references to deleted messages. -/
theorem noReleasedReference (hinvariant : ReleaseInvariant state) : NoReleasedReference state := by
  intro released hreleased held hheld haddress
  obtain ⟨hallocated, htree, htemp⟩ := hinvariant.gone released (List.mem_append_left _ hreleased)
  have hentry : ∃ entry, (entry ∈ state.processQueue.msgTreeMap.entries ∨
      entry ∈ state.processQueue.msgTreeMapTemp.entries) ∧ entry.2 = held := by
    rcases List.mem_append.mp hheld with hvalue | hvalue
    · obtain ⟨entry, hentry, heq⟩ := List.mem_map.mp hvalue
      exact ⟨entry, Or.inl hentry, heq⟩
    · obtain ⟨entry, hentry, heq⟩ := List.mem_map.mp hvalue
      exact ⟨entry, Or.inr hentry, heq⟩
  obtain ⟨entry, hmem, rfl⟩ := hentry
  obtain ⟨hkey, hentryAllocated⟩ := hinvariant.keyed entry hmem
  have hsame : entry.2 = released :=
    List.inj_on_of_nodup_map hinvariant.unique hentryAllocated hallocated haddress
  have hpair : entry = (released.queueOffset, released) := by
    rw [← hsame]
    exact Prod.ext hkey.symm rfl
  rw [hpair] at hmem
  exact hmem.elim htree htemp

end ReleaseInvariant

/-! ### One step -/

/-- Unless a batch succeeds uncommitted, `processConsumeResult` lets consumption continue after a
commit only, and otherwise returns the batch or everything taken. -/
theorem processConsumeResult_cases (msgs : List MessageExt) {status : ConsumeOrderlyStatus}
    {autoCommit : Bool} (queue : ProcessQueue)
    (hstatus : ¬ (status = .success ∧ autoCommit = false)) :
    let outcome := processConsumeResult msgs status autoCommit queue
    (outcome.continueConsume = true ∧ outcome.processQueue = queue.commit.2) ∨
      (outcome.continueConsume = false ∧
        (outcome.processQueue = queue.makeMessageToCosumeAgain msgs ∨
          outcome.processQueue = queue.rollback)) := by
  cases autoCommit with
  | true =>
    cases status with
    | suspendCurrentQueueAMoment => exact Or.inr ⟨rfl, Or.inl rfl⟩
    | _ => exact Or.inl ⟨rfl, rfl⟩
  | false =>
    cases status with
    | success => exact absurd ⟨rfl, rfl⟩ hstatus
    | commit => exact Or.inl ⟨rfl, rfl⟩
    | rollback => exact Or.inr ⟨rfl, Or.inr rfl⟩
    | suspendCurrentQueueAMoment => exact Or.inr ⟨rfl, Or.inl rfl⟩

section Steps

variable (queue : MessageQueue) {state next : OrderlyConsumeState}

theorem releaseInvariant_putMessage {msgs : List MessageExt} (hinvariant : ReleaseInvariant state)
    (hstep : state.step queue (.putMessage msgs) = some next) : ReleaseInvariant next := by
  simp only [OrderlyConsumeState.step, Option.ite_none_right_eq_some, Option.some.injEq] at hstep
  obtain ⟨hfresh, rfl⟩ := hstep
  have hnew : ∀ msg ∈ msgs, msg ∉ state.allocated := by
    intro msg hmsg hallocated
    rw [OrderlyConsumeState.Fresh, List.map_append, List.nodup_append] at hfresh
    exact hfresh.2.2 _ (List.mem_map_of_mem hallocated) _ (List.mem_map_of_mem hmsg) rfl
  have htree : ∀ entry ∈ (state.processQueue.putMessage msgs).2.msgTreeMap.entries,
      entry ∈ state.processQueue.msgTreeMap.entries ∨
        ∃ msg ∈ msgs, entry = (msg.queueOffset, msg) := by
    intro entry hentry
    rw [ProcessQueue.putMessage_msgTreeMap, OrderedMap.assignAll_eq_assignPairs] at hentry
    rcases OrderedMap.mem_entries_of_assignPairs hentry with hbefore | hpair
    · exact Or.inl hbefore
    · obtain ⟨msg, hmsg, heq⟩ := List.mem_map.mp hpair
      exact Or.inr ⟨msg, hmsg, heq.symm⟩
  refine ⟨hfresh, ?_, ?_, ?_, ?_⟩
  · intro entry hentry
    simp only [ProcessQueue.putMessage_msgTreeMapTemp] at hentry
    rcases hentry with hentry | hentry
    · rcases htree entry hentry with hbefore | ⟨msg, hmsg, rfl⟩
      · obtain ⟨hkey, hallocated⟩ := hinvariant.keyed entry (Or.inl hbefore)
        exact ⟨hkey, List.mem_append_left _ hallocated⟩
      · exact ⟨rfl, List.mem_append_right _ hmsg⟩
    · obtain ⟨hkey, hallocated⟩ := hinvariant.keyed entry (Or.inr hentry)
      exact ⟨hkey, List.mem_append_left _ hallocated⟩
  · intro entry hentry
    simp only [ProcessQueue.putMessage_msgTreeMapTemp]
    rcases htree entry hentry with hbefore | ⟨msg, hmsg, rfl⟩
    · exact hinvariant.disjoint entry hbefore
    · exact fun htemp ↦ hnew msg hmsg (hinvariant.keyed _ (Or.inr htemp)).2
  · intro batch hphase
    simp only [ProcessQueue.putMessage_msgTreeMapTemp]
    exact hinvariant.listening batch hphase
  · intro msg hgone
    obtain ⟨hallocated, hnotTree, hnotTemp⟩ := hinvariant.gone msg hgone
    simp only [ProcessQueue.putMessage_msgTreeMapTemp]
    refine ⟨List.mem_append_left _ hallocated, fun hentry ↦ ?_, hnotTemp⟩
    rcases htree _ hentry with hbefore | ⟨other, hother, heq⟩
    · exact hnotTree hbefore
    · exact hnew other hother ((Prod.mk.inj heq).2 ▸ hallocated)

theorem releaseInvariant_takeMessags {batchSize : ℤ} (hinvariant : ReleaseInvariant state)
    (hstep : state.step queue (.takeMessags batchSize) = some next) : ReleaseInvariant next := by
  simp only [OrderlyConsumeState.step] at hstep
  cases hphase : state.phase with
  | listening msgs => simp [hphase] at hstep
  | deleting msgs => simp [hphase] at hstep
  | idle =>
    simp only [hphase, Option.some.injEq] at hstep
    subst hstep
    have htaken : ∀ entry ∈ state.processQueue.msgTreeMap.entries.take batchSize.toNat,
        entry ∈ state.processQueue.msgTreeMap.entries := fun entry ↦ List.mem_of_mem_take
    refine ⟨hinvariant.unique, ?_, ?_, ?_, ?_⟩
    · rintro entry (hentry | hentry)
      · have hleft := ProcessQueue.tree_entry_of_takeMessags hentry
        exact hinvariant.keyed entry (Or.inl (List.mem_of_mem_drop hleft))
      · rcases ProcessQueue.temp_entry_of_takeMessags hentry with hbefore | hmoved
        · exact hinvariant.keyed entry (Or.inr hbefore)
        · exact hinvariant.keyed entry (Or.inl (htaken entry hmoved))
    · intro entry hentry hmoved
      have hleft := ProcessQueue.tree_entry_of_takeMessags hentry
      rcases ProcessQueue.temp_entry_of_takeMessags hmoved with hbefore | hmoved
      · exact hinvariant.disjoint entry (List.mem_of_mem_drop hleft) hbefore
      · exact ProcessQueue.not_taken_and_left hmoved hleft
    · intro msgs hlistening
      dsimp only at hlistening
      split_ifs at hlistening with hempty
      obtain rfl := OrderlyPhase.listening.inj hlistening
      refine ⟨fun hnil ↦ hempty (by rw [hnil]; rfl), fun msg hmsg ↦ ?_⟩
      rw [ProcessQueue.takeMessags_result] at hmsg
      obtain ⟨entry, hentry, rfl⟩ := List.mem_map.mp hmsg
      have hkey := (hinvariant.keyed entry (Or.inl (htaken entry hentry))).1
      have hpair : (entry.2.queueOffset, entry.2) = entry := Prod.ext hkey rfl
      rw [hpair]
      exact ProcessQueue.mem_temp_takeMessags hentry
    · intro msg hgone
      have hcondemned : OrderlyPhase.condemned
          (if (state.processQueue.takeMessags batchSize).1.isEmpty then OrderlyPhase.idle
            else .listening (state.processQueue.takeMessags batchSize).1) = [] := by
        split_ifs <;> rfl
      dsimp only at hgone
      rw [hcondemned, List.append_nil] at hgone
      obtain ⟨hallocated, hnotTree, hnotTemp⟩ :=
        hinvariant.gone msg (List.mem_append_left _ hgone)
      refine ⟨hallocated, fun hentry ↦ ?_, fun hentry ↦ ?_⟩
      · exact hnotTree (List.mem_of_mem_drop (ProcessQueue.tree_entry_of_takeMessags hentry))
      · rcases ProcessQueue.temp_entry_of_takeMessags hentry with hbefore | hmoved
        · exact hnotTemp hbefore
        · exact hnotTree (htaken _ hmoved)

/-- A commit forgets the batch of the listener, which may then be deleted. -/
theorem releaseInvariant_commit {msgs : List MessageExt} (hinvariant : ReleaseInvariant state)
    (hphase : state.phase = .listening msgs) (offsetTable : OffsetTable) :
    ReleaseInvariant { state with
      processQueue := state.processQueue.commit.2
      offsetTable := offsetTable
      phase := .deleting msgs } := by
  obtain ⟨-, htemp, htree⟩ := state.processQueue.commit_eq
  have hnone : ∀ entry, entry ∉ (OrderedMap.empty : MessageMap).entries :=
    fun entry ↦ List.not_mem_nil
  refine ⟨hinvariant.unique, ?_, ?_, ?_, ?_⟩
  · intro entry hentry
    rw [htemp, htree] at hentry
    exact hinvariant.keyed entry (Or.inl (hentry.resolve_right (hnone entry)))
  · intro entry _
    rw [htemp]
    exact hnone entry
  · intro batch hlistening
    exact absurd hlistening OrderlyPhase.noConfusion
  · intro msg hgone
    rw [htemp, htree]
    rcases List.mem_append.mp hgone with hreleased | hcondemned
    · obtain ⟨hallocated, hnotTree, -⟩ := hinvariant.gone msg (List.mem_append_left _ hreleased)
      exact ⟨hallocated, hnotTree, hnone _⟩
    · have hentry := (hinvariant.listening msgs hphase).2 msg hcondemned
      exact ⟨(hinvariant.keyed _ (Or.inr hentry)).2,
        fun htree ↦ hinvariant.disjoint _ htree hentry, hnone _⟩

/-- Returning messages from the temporary map to the tree map keeps the invariant when every entry
of the new tree map was held before and every entry left in the temporary map is not in the new
tree map. -/
theorem releaseInvariant_return {processQueue : ProcessQueue}
    (hinvariant : ReleaseInvariant state)
    (htree : ∀ entry ∈ processQueue.msgTreeMap.entries,
      (entry ∈ state.processQueue.msgTreeMap.entries ∨
        entry ∈ state.processQueue.msgTreeMapTemp.entries) ∧
      entry ∉ processQueue.msgTreeMapTemp.entries)
    (htemp : ∀ entry ∈ processQueue.msgTreeMapTemp.entries,
      entry ∈ state.processQueue.msgTreeMapTemp.entries) (offsetTable : OffsetTable) :
    ReleaseInvariant { state with
      processQueue := processQueue
      offsetTable := offsetTable
      phase := .idle } := by
  refine ⟨hinvariant.unique, ?_, fun entry hentry ↦ (htree entry hentry).2, ?_, ?_⟩
  · rintro entry (hentry | hentry)
    · exact hinvariant.keyed entry (htree entry hentry).1
    · exact hinvariant.keyed entry (Or.inr (htemp entry hentry))
  · intro batch hlistening
    exact absurd hlistening OrderlyPhase.noConfusion
  · intro msg hgone
    have hreleased : msg ∈ state.released := by simpa [OrderlyPhase.condemned] using hgone
    obtain ⟨hallocated, hnotTree, hnotTemp⟩ :=
      hinvariant.gone msg (List.mem_append_left _ hreleased)
    exact ⟨hallocated, fun hentry ↦ (htree _ hentry).1.elim hnotTree hnotTemp,
      fun hentry ↦ hnotTemp (htemp _ hentry)⟩

theorem releaseInvariant_consumeMessage {returned : Option ConsumeOrderlyStatus}
    {autoCommit : Bool} (hinvariant : ReleaseInvariant state)
    (hgood : ¬ (returned = some .success ∧ autoCommit = false))
    (hstep : state.step queue (.consumeMessage returned autoCommit) = some next) :
    ReleaseInvariant next := by
  simp only [OrderlyConsumeState.step] at hstep
  cases hphase : state.phase with
  | idle => simp [hphase] at hstep
  | deleting msgs => simp [hphase] at hstep
  | listening msgs =>
    simp only [hphase, Option.some.injEq] at hstep
    subst hstep
    have hstatus : ¬ (listenerStatus returned = .success ∧ autoCommit = false) := by
      rintro ⟨hsuccess, hmanual⟩
      cases returned with
      | none => exact absurd hsuccess (by decide)
      | some status => exact hgood ⟨congrArg some hsuccess, hmanual⟩
    unfold OrderlyConsumeState.afterListener
    rcases processConsumeResult_cases msgs state.processQueue hstatus with
      ⟨hcontinue, hqueue⟩ | ⟨hcontinue, hqueue⟩
    · simp only [hcontinue, hqueue, ↓reduceIte]
      exact releaseInvariant_commit hinvariant hphase _
    · simp only [hcontinue, Bool.false_eq_true, ↓reduceIte]
      rcases hqueue with hqueue | hqueue
      · rw [hqueue, ProcessQueue.makeMessageToCosumeAgain_eq]
        refine releaseInvariant_return hinvariant ?_ ?_ _
        · intro entry hentry
          rw [OrderedMap.assignAll_eq_assignPairs] at hentry
          rw [OrderedMap.mem_entries_eraseAll]
          rcases OrderedMap.mem_entries_of_assignPairs hentry with hbefore | hpair
          · exact ⟨Or.inl hbefore, fun htemp ↦ hinvariant.disjoint entry hbefore htemp.1⟩
          · obtain ⟨msg, hmsg, rfl⟩ := List.mem_map.mp hpair
            exact ⟨Or.inr ((hinvariant.listening msgs hphase).2 msg hmsg),
              fun htemp ↦ htemp.2 (List.mem_map_of_mem hmsg)⟩
        · exact fun entry hentry ↦ (OrderedMap.mem_entries_eraseAll.mp hentry).1
      · rw [hqueue]
        refine releaseInvariant_return hinvariant ?_ ?_ _
        · exact fun entry hentry ↦
            ⟨OrderedMap.mem_entries_of_assignPairs hentry, List.not_mem_nil⟩
        · exact fun entry hentry ↦ absurd hentry List.not_mem_nil

theorem releaseInvariant_deleteMessage (hinvariant : ReleaseInvariant state)
    (hstep : state.step queue .deleteMessage = some next) : ReleaseInvariant next := by
  simp only [OrderlyConsumeState.step] at hstep
  cases hphase : state.phase with
  | idle => simp [hphase] at hstep
  | listening msgs => simp [hphase] at hstep
  | deleting msgs =>
    have hgone := hinvariant.gone
    rw [hphase] at hgone
    cases msgs with
    | nil =>
      simp only [hphase, Option.some.injEq] at hstep
      subst hstep
      exact ⟨hinvariant.unique, hinvariant.keyed, hinvariant.disjoint,
        fun batch hlistening ↦ absurd hlistening OrderlyPhase.noConfusion, hgone⟩
    | cons msg rest =>
      simp only [hphase, Option.some.injEq] at hstep
      subst hstep
      refine ⟨hinvariant.unique, hinvariant.keyed, hinvariant.disjoint,
        fun batch hlistening ↦ absurd hlistening OrderlyPhase.noConfusion, fun other hother ↦ ?_⟩
      refine hgone other ?_
      simpa [OrderlyPhase.condemned] using hother

end Steps

/-- Every step other than an uncommitted success keeps the invariant. -/
theorem releaseInvariant_step (queue : MessageQueue) (state : OrderlyConsumeState)
    (event : OrderlyConsumeEvent) (next : OrderlyConsumeState)
    (hgood : NotUncommittedSuccess state event)
    (hstep : (orderlyConsumeSystem queue).step state event = some next)
    (hinvariant : ReleaseInvariant state) : ReleaseInvariant next := by
  cases event with
  | putMessage msgs => exact releaseInvariant_putMessage queue hinvariant hstep
  | takeMessags batchSize => exact releaseInvariant_takeMessags queue hinvariant hstep
  | consumeMessage returned autoCommit =>
    exact releaseInvariant_consumeMessage queue hinvariant hgood hstep
  | deleteMessage => exact releaseInvariant_deleteMessage queue hinvariant hstep

/-! ### Whole runs -/

/-- An uncommitted success leaves the batch in the temporary map and starts to delete it. -/
theorem uncommitted_success_breaks (queue : MessageQueue) {state : OrderlyConsumeState}
    (hinvariant : ReleaseInvariant state) {msgs : List MessageExt}
    (hphase : state.phase = .listening msgs) :
    ∃ next, (orderlyConsumeSystem queue).run state
        [.consumeMessage (some .success) false, .deleteMessage] = some next ∧
      ¬ NoReleasedReference next := by
  obtain ⟨hnonempty, hheld⟩ := hinvariant.listening msgs hphase
  obtain ⟨msg, rest, rfl⟩ := List.exists_cons_of_ne_nil hnonempty
  refine ⟨{ state with phase := .deleting rest, released := state.released ++ [msg] }, ?_, ?_⟩
  · simp [EventSystem.run, orderlyConsumeSystem, OrderlyConsumeState.step, hphase,
      OrderlyConsumeState.afterListener, processConsumeResult, listenerStatus]
  · intro hnone
    refine hnone msg (List.mem_append_right _ (List.mem_singleton_self msg)) msg ?_ rfl
    refine List.mem_append_right _ (List.mem_map.mpr ⟨(msg.queueOffset, msg), ?_, rfl⟩)
    exact hheld msg List.mem_cons_self

/-- In every run in which no batch returns `SUCCESS` with `autoCommit` off, no deleted message is an
element of a map; and in every state of such a run in which the listener has a batch, returning
`SUCCESS` with `autoCommit` off leads to a state that refers to a deleted message. -/
theorem no_released_reference {queue : MessageQueue} {now : ℤ} {offsetTable : OffsetTable}
    {events : List OrderlyConsumeEvent} {state : OrderlyConsumeState}
    (hrun : (orderlyConsumeSystem queue).run (OrderlyConsumeState.initial now offsetTable) events =
      some state)
    (halong : (orderlyConsumeSystem queue).Along NotUncommittedSuccess
      (OrderlyConsumeState.initial now offsetTable) events) :
    NoReleasedReference state ∧
      ∀ msgs, state.phase = .listening msgs →
        ∃ next, (orderlyConsumeSystem queue).run state
            [.consumeMessage (some .success) false, .deleteMessage] = some next ∧
          ¬ NoReleasedReference next := by
  have hinvariant : ReleaseInvariant state :=
    EventSystem.run_invariant_of_along (releaseInvariant_step queue) halong hrun
      (releaseInvariant_initial now offsetTable)
  exact ⟨hinvariant.noReleasedReference,
    fun msgs hphase ↦ uncommitted_success_breaks queue hinvariant hphase⟩

/-- A run that commits its first batch by hand and suspends on its second. -/
theorem no_released_reference_of_commit :
    ∃ state, (orderlyConsumeSystem ⟨[], [], 0⟩).run
        (OrderlyConsumeState.initial 0 OrderedMap.empty)
        [.putMessage [⟨0, 5⟩, ⟨1, 6⟩], .takeMessags 1, .consumeMessage (some .commit) false,
          .deleteMessage, .deleteMessage, .takeMessags 1, .consumeMessage none true] =
        some state ∧ NoReleasedReference state := by
  obtain ⟨state, hrun⟩ := Option.isSome_iff_exists.mp
    (by decide : ((orderlyConsumeSystem ⟨[], [], 0⟩).run
        (OrderlyConsumeState.initial 0 OrderedMap.empty)
        [.putMessage [⟨0, 5⟩, ⟨1, 6⟩], .takeMessags 1, .consumeMessage (some .commit) false,
          .deleteMessage, .deleteMessage, .takeMessags 1, .consumeMessage none true]).isSome = true)
  refine ⟨state, hrun, (no_released_reference hrun ?_).1⟩
  simp [EventSystem.Along, NotUncommittedSuccess]

/-- A batch succeeds uncommitted and is deleted; when the next batch is rolled back, the deleted
message is taken and given to the listener again. -/
theorem released_message_taken_again :
    ∃ events state, (orderlyConsumeSystem ⟨[], [], 0⟩).run
        (OrderlyConsumeState.initial 0 OrderedMap.empty) events = some state ∧
      ¬ NoReleasedReference state ∧
      ∃ msg ∈ state.released, state.phase = .listening [msg] := by
  have hrun : ((orderlyConsumeSystem ⟨[], [], 0⟩).run
      (OrderlyConsumeState.initial 0 OrderedMap.empty)
      [.putMessage [⟨0, 5⟩, ⟨1, 6⟩], .takeMessags 1, .consumeMessage (some .success) false,
        .deleteMessage, .deleteMessage, .takeMessags 1, .consumeMessage (some .rollback) false,
        .takeMessags 1]).map (fun state ↦
          (decide (NoReleasedReference state), state.released, state.phase)) =
      some (false, [⟨0, 5⟩], .listening [⟨0, 5⟩]) := by decide
  obtain ⟨state, hstate, hvalues⟩ := Option.map_eq_some_iff.mp hrun
  simp only [Prod.mk.injEq, decide_eq_false_iff_not] at hvalues
  obtain ⟨hreference, hreleased, hphase⟩ := hvalues
  exact ⟨_, state, hstate, hreference, ⟨0, 5⟩, by rw [hreleased]; exact List.mem_singleton_self _,
    hphase⟩

end RocketMQClient.Consumer
