import Mathlib.Data.List.Perm.Basic
import RocketMQClient.Consumer.CommitOffset

/-!
# Dropping a queue in concurrent mode

The messages of a pull are cut into consume requests. A request that starts on a process queue that
is not dropped gives its messages to the listener, and `processConsumeResult` removes them and
stores the offset that `removeMessage` returns; messages that could not be sent back stay in the
queue and are submitted again by a timer. A request that starts on a dropped queue removes its
messages without giving them to the listener and ignores the offset. `droppedSystem` interleaves the
requests, the pull callback, the rebalance thread, which marks the queue, persists its offset and
removes it from the table, and the task that corrects an illegal offset. The queue, the waiting
updates and their guards are those of `CommitState`.

A message discarded without having been given to the listener is `discarded` for good, so no offset
of the consume service or of `correctTagsOffset` may pass it. This fails: the discarded message does
not hold the offset back any more, so a request that was running when the queue was dropped commits
past it (`discarded_message_passed`). It holds in every run in which each result is processed while
a message at or below the discarded ones stays held, and `correctTagsOffset` does not find the queue
empty after a discard (`discarded_message_not_passed`).

Besides the queue the state keeps what was discarded, for the statements. `Tracked` is the bound
that every offset on its way has to respect. The steps that look harmless are many, and most of them
only move a list of messages from one place to another (`Invariant.move`).
-/

set_option autoImplicit false
set_option relaxedAutoImplicit false

namespace RocketMQClient.Consumer

open Library Messages

/-! ### The operations of the source -/

/-- What the listener of concurrent consumption returns; a listener that throws asks for a later
consumption. -/
inductive ConsumeConcurrentlyStatus where
  | consumeSuccess
  | reconsumeLater
  deriving DecidableEq, Repr

/-- The result of a listener and the outcome of sending each message back to the broker. -/
structure ConsumeConcurrentlyResult where
  status : ConsumeConcurrentlyStatus
  ackIndex : ℤ
  sendMessageBack : MessageExt → Bool

namespace ConsumeConcurrentlyResult

/-- The index of the last acknowledged message. -/
def lastAcked (result : ConsumeConcurrentlyResult) (msgsSize : ℕ) : ℤ :=
  match result.status with
  | .consumeSuccess => if result.ackIndex ≥ msgsSize then msgsSize - 1 else result.ackIndex
  | .reconsumeLater => -1

/-- The messages that were not acknowledged and could not be sent back. -/
def msgBackFailed (result : ConsumeConcurrentlyResult) (messageModel : MessageModel)
    (msgs : List MessageExt) : List MessageExt :=
  match messageModel with
  | .broadcasting => []
  | .clustering => (msgs.drop (result.lastAcked msgs.length + 1).toNat).filter fun msg ↦
      !result.sendMessageBack msg

/-- The messages that leave the process queue. -/
def removedMsgs (result : ConsumeConcurrentlyResult) (messageModel : MessageModel)
    (msgs : List MessageExt) : List MessageExt :=
  msgs.filter fun msg ↦ msg ∉ result.msgBackFailed messageModel msgs

end ConsumeConcurrentlyResult

/-! ### The event system -/

/-- The queue with its waiting updates, the messages being submitted, the requests by what they do,
the lists that wait for a timer, and the history: offsets given to the listener, discarded without
having been given, written by the consume service and `correctTagsOffset`, written by the correction
of an illegal offset, and sent to the broker. -/
structure DroppedState where
  commit : CommitState
  submitting : List (List MessageExt)
  queued : List (List MessageExt)
  discarding : List (List MessageExt)
  running : List (List MessageExt)
  later : List (List MessageExt)
  given : List ℤ
  discarded : List ℤ
  written : List ℤ
  corrected : List ℤ
  sent : List ℤ

/-- The steps of the pull callback, the workers, the timers and the rebalance thread. -/
inductive DroppedEvent where
  | putMessage (msgs : List MessageExt)
  | correctTagsOffset (nextOffset : ℤ)
  | updateOffset (offset : ℤ)
  | setDroped
  /-- One round of the loop of `submitConsumeRequest`. -/
  | submitConsumeRequest (msgs : List MessageExt)
  /-- A worker starts a request and looks whether the queue is dropped. -/
  | start (msgs : List MessageExt)
  /-- The dropped branch removes the messages of its request. -/
  | discard (msgs : List MessageExt)
  | processConsumeResult (msgs : List MessageExt) (result : ConsumeConcurrentlyResult)
  | submitConsumeRequestLater (msgs : List MessageExt)
  | persist
  | removeOffset
  | executePullTaskLater (nextOffset : ℤ)

namespace DroppedState

/-- A new process queue over an offset table. -/
def initial (now : ℤ) (queue : MessageQueue) (offsetTable : OffsetTable) : DroppedState where
  commit := CommitState.initial now queue offsetTable
  submitting := []
  queued := []
  discarding := []
  running := []
  later := []
  given := []
  discarded := []
  written := []
  corrected := []
  sent := []

/-- The removal of messages whose offset is ignored. -/
def removeIgnored (commit : CommitState) (msgs : List MessageExt) : CommitState :=
  { commit with
    processQueue := (commit.processQueue.removeMessage msgs).2
    removedOffsets := commit.removedOffsets ++ msgs.map MessageExt.queueOffset }

/-- The removal of messages whose offset, when there is one, is to be stored. -/
def removeCounted (commit : CommitState) (msgs : List MessageExt) : CommitState :=
  { removeIgnored commit msgs with
    pendingUpdates := if (commit.processQueue.removeMessage msgs).1 ≥ 0 then
      (commit.processQueue.removeMessage msgs).1 :: commit.pendingUpdates
      else commit.pendingUpdates }

/-- `processConsumeResult` on a request that is not empty. -/
def processConsumeResult (messageModel : MessageModel) (state : DroppedState)
    (msgs : List MessageExt) (result : ConsumeConcurrentlyResult) : DroppedState :=
  { state with
    commit := removeCounted state.commit (result.removedMsgs messageModel msgs)
    later := if (result.msgBackFailed messageModel msgs).isEmpty then state.later
      else state.later ++ [result.msgBackFailed messageModel msgs] }

/-- One step, for a batch size and a message model. -/
def step (queue : MessageQueue) (batchSize : ℕ) (messageModel : MessageModel)
    (state : DroppedState) : DroppedEvent → Option DroppedState
  | .putMessage msgs =>
    (state.commit.step queue (.putMessage msgs)).map fun commit ↦
      { state with commit := commit, submitting := state.submitting ++ [msgs] }
  | .correctTagsOffset nextOffset =>
    (state.commit.step queue (.correctTagsOffset nextOffset)).map fun commit ↦
      { state with commit := commit }
  | .updateOffset offset =>
    (state.commit.step queue (.updateOffset offset)).map fun commit ↦
      { state with commit := commit, written := state.written ++ [offset] }
  | .setDroped =>
    some { state with
      commit := { state.commit with
        processQueue := state.commit.processQueue.setDroped true } }
  | .submitConsumeRequest msgs =>
    if msgs ∈ state.submitting ∧ msgs ≠ [] then
      some { state with
        submitting := state.submitting.erase msgs ++ [msgs.drop batchSize]
        queued := state.queued ++ [msgs.take batchSize] }
    else none
  | .start msgs =>
    if msgs ∈ state.queued then
      if state.commit.processQueue.droped then
        some { state with
          queued := state.queued.erase msgs
          discarding := state.discarding ++ [msgs] }
      else
        some { state with
          queued := state.queued.erase msgs
          running := state.running ++ [msgs]
          given := state.given ++ msgs.map MessageExt.queueOffset }
    else none
  | .discard msgs =>
    if msgs ∈ state.discarding then
      some { state with
        commit := removeIgnored state.commit msgs
        discarding := state.discarding.erase msgs
        discarded := state.discarded ++
          (msgs.map MessageExt.queueOffset).filter fun offset ↦ offset ∉ state.given }
    else none
  | .processConsumeResult msgs result =>
    if msgs ∈ state.running then
      let ended := { state with running := state.running.erase msgs }
      some (if msgs.isEmpty then ended else processConsumeResult messageModel ended msgs result)
    else none
  | .submitConsumeRequestLater msgs =>
    if msgs ∈ state.later then
      some { state with
        later := state.later.erase msgs
        submitting := state.submitting ++ [msgs] }
    else none
  | .persist =>
    some { state with
      sent := state.sent ++ (state.commit.offsetTable.readOffset queue).toList }
  | .removeOffset =>
    some { state with
      commit := { state.commit with
        offsetTable := state.commit.offsetTable.removeOffset queue } }
  | .executePullTaskLater nextOffset =>
    some { state with
      commit := { state.commit with
        offsetTable := state.commit.offsetTable.updateOffset queue nextOffset false }
      corrected := state.corrected ++ [nextOffset] }

end DroppedState

/-- The threads that work on one process queue in concurrent mode, with the drop of the queue. -/
def droppedSystem (queue : MessageQueue) (batchSize : ℕ) (messageModel : MessageModel) :
    EventSystem DroppedState DroppedEvent where
  step := DroppedState.step queue batchSize messageModel

namespace DroppedState

/-! ### Messages under way -/

/-- The messages of all lists and requests that are under way. -/
def inFlight (state : DroppedState) : List MessageExt :=
  state.submitting.flatten ++ state.queued.flatten ++ state.discarding.flatten ++
    state.running.flatten ++ state.later.flatten

/-- Messages under way have distinct offsets and are held. -/
structure Flying (queue : ProcessQueue) (msgs : List MessageExt) : Prop where
  distinct : (msgs.map MessageExt.queueOffset).Nodup
  held : ∀ msg ∈ msgs, msg.queueOffset ∈ queue.msgTreeMap

theorem Flying.move {queue : ProcessQueue} {msgs moved : List MessageExt}
    (hflying : Flying queue msgs) (hmove : moved.Perm msgs) : Flying queue moved where
  distinct := (hmove.map MessageExt.queueOffset).nodup_iff.mpr hflying.distinct
  held := fun msg hmsg ↦ hflying.held msg (hmove.mem_iff.mp hmsg)

/-- The messages that stay under way are held after the removal of the others. -/
theorem Flying.remove {queue : ProcessQueue} {removed left : List MessageExt}
    (hflying : Flying queue (removed ++ left)) : Flying (queue.removeMessage removed).2 left where
  distinct := by
    have hdistinct := hflying.distinct
    rw [List.map_append] at hdistinct
    exact (List.nodup_append.mp hdistinct).2.1
  held := by
    intro msg hmsg
    have hdistinct := hflying.distinct
    rw [List.map_append] at hdistinct
    refine ProcessQueue.removeMessage_keys.mpr ⟨hflying.held msg (List.mem_append_right _ hmsg), ?_⟩
    intro hremoved
    exact (List.nodup_append.mp hdistinct).2.2 _ hremoved _ (List.mem_map_of_mem hmsg) rfl

theorem Flying.removable {state : CommitState} {removed left : List MessageExt}
    (hflying : Flying state.processQueue (removed ++ left)) : state.Removable removed := by
  have hdistinct := hflying.distinct
  rw [List.map_append] at hdistinct
  exact ⟨(List.nodup_append.mp hdistinct).1,
    fun msg hmsg ↦ hflying.held msg (List.mem_append_left _ hmsg)⟩

/-- A batch that is put is under way besides the messages held before. -/
theorem Flying.putMessage {state : CommitState} {msgs flying : List MessageExt}
    (hinvariant : HeldInvariant state) (hadmissible : state.Admissible msgs)
    (hflying : Flying state.processQueue flying) :
    Flying (state.processQueue.putMessage msgs).2 (msgs ++ flying) where
  distinct := by
    have hparts := List.pairwise_append.mp hadmissible.1
    rw [List.map_append]
    refine List.nodup_append.mpr ⟨hparts.2.1.imp fun hlt ↦ hlt.ne, hflying.distinct, ?_⟩
    rintro added hadded other hother rfl
    obtain ⟨msg, hmsg, rfl⟩ := List.mem_map.mp hother
    have hput := ((hinvariant.held_iff _).mp (hflying.held msg hmsg)).1
    exact lt_irrefl _ (hparts.2.2 _ hput _ hadded)
  held := by
    intro msg hmsg
    rw [ProcessQueue.putMessage_msgTreeMap, OrderedMap.mem_assignAll]
    rcases List.mem_append.mp hmsg with hadded | hbefore
    · exact Or.inr ⟨msg, hadded, rfl⟩
    · exact Or.inl (hflying.held msg hbefore)

/-- Taking a list out of its place takes its messages out of that place. -/
theorem flatten_perm_erase {batches : List (List MessageExt)} {msgs : List MessageExt}
    (hmem : msgs ∈ batches) : batches.flatten.Perm (msgs ++ (batches.erase msgs).flatten) :=
  (List.perm_cons_erase hmem).flatten

/-- The removed messages and those that could not be sent back are the messages of the request. -/
theorem removedMsgs_append_msgBackFailed (result : ConsumeConcurrentlyResult)
    (messageModel : MessageModel) (msgs : List MessageExt) (hdistinct : msgs.Nodup) :
    msgs.Perm (result.removedMsgs messageModel msgs ++
      result.msgBackFailed messageModel msgs) := by
  have hsub : (result.msgBackFailed messageModel msgs).Sublist msgs := by
    unfold ConsumeConcurrentlyResult.msgBackFailed
    split
    · exact List.nil_sublist msgs
    · exact List.filter_sublist.trans (List.drop_sublist _ msgs)
  rw [List.perm_ext_iff_of_nodup hdistinct]
  · intro msg
    simp only [ConsumeConcurrentlyResult.removedMsgs, List.mem_append, List.mem_filter,
      decide_eq_true_eq]
    constructor
    · intro hmsg
      by_cases hfailed : msg ∈ result.msgBackFailed messageModel msgs
      · exact Or.inr hfailed
      · exact Or.inl ⟨hmsg, hfailed⟩
    · rintro (⟨hmsg, -⟩ | hfailed)
      · exact hmsg
      · exact hsub.subset hfailed
  · refine List.nodup_append.mpr ⟨hdistinct.filter _, hsub.nodup hdistinct, ?_⟩
    rintro msg hremoved other hfailed rfl
    simp only [ConsumeConcurrentlyResult.removedMsgs, List.mem_filter,
      decide_eq_true_eq] at hremoved
    exact hremoved.2 hfailed

/-! ### The invariant -/

/-- Two states of the queue that differ at most in the offset table, in flags and by updates that
are no longer waiting. -/
structure SameQueue (commit next : CommitState) : Prop where
  msgTreeMap : next.processQueue.msgTreeMap = commit.processQueue.msgTreeMap
  msgCount : next.processQueue.msgCount = commit.processQueue.msgCount
  queueOffsetMax : next.processQueue.queueOffsetMax = commit.processQueue.queueOffsetMax
  putOffsets : next.putOffsets = commit.putOffsets
  removedOffsets : next.removedOffsets = commit.removedOffsets
  bounds : next.bounds = commit.bounds
  pendingUpdates : ∀ offset ∈ next.pendingUpdates, offset ∈ commit.pendingUpdates

theorem SameQueue.safe {commit next : CommitState} (hsame : SameQueue commit next) {offset : ℤ}
    (hsafe : commit.Safe offset) : next.Safe offset where
  le_held := by
    rw [hsame.msgTreeMap]
    exact hsafe.le_held
  le_bound := by
    rw [hsame.bounds]
    exact hsafe.le_bound

theorem SameQueue.heldInvariant {commit next : CommitState} (hsame : SameQueue commit next)
    (hinvariant : HeldInvariant commit) : HeldInvariant next where
  increasing := hsame.putOffsets ▸ hinvariant.increasing
  held_iff := by
    rw [hsame.msgTreeMap, hsame.putOffsets, hsame.removedOffsets]
    exact hinvariant.held_iff
  counted := by
    rw [hsame.msgTreeMap, hsame.msgCount]
    exact hinvariant.counted
  removed_put := by
    rw [hsame.putOffsets, hsame.removedOffsets]
    exact hinvariant.removed_put
  offsetMax := by
    rw [hsame.queueOffsetMax, hsame.putOffsets]
    exact hinvariant.offsetMax
  pending_safe := fun offset hoffset ↦
    hsame.safe (hinvariant.pending_safe offset (hsame.pendingUpdates offset hoffset))

/-- An offset that no message that is held or was discarded lies below. -/
structure Tracked (state : DroppedState) (offset : ℤ) : Prop where
  safe : state.commit.Safe offset
  le_discarded : ∀ lost ∈ state.discarded, offset ≤ lost

/-- The offsets that are waiting, were written, or were stored at the start. -/
def offsets (state : DroppedState) : List ℤ :=
  state.commit.pendingUpdates ++ state.written ++ state.commit.initialOffset.toList

/-- The queue is as its history says, messages under way are held, no offset is above a message held
or discarded, and what is stored or was sent is such an offset or a correction. -/
structure Invariant (queue : MessageQueue) (state : DroppedState) : Prop where
  held : HeldInvariant state.commit
  flying : Flying state.commit.processQueue state.inFlight
  tracked : ∀ offset ∈ state.offsets, state.Tracked offset
  source : ∀ offset ∈ state.sent ++ (state.commit.offsetTable.readOffset queue).toList,
    offset ∈ state.written ++ state.commit.initialOffset.toList ++ state.corrected

theorem invariant_initial (now : ℤ) (queue : MessageQueue) (offsetTable : OffsetTable) :
    (initial now queue offsetTable).Invariant queue where
  held := heldInvariant_initial now queue offsetTable
  flying := ⟨List.Pairwise.nil, fun _ hmsg ↦ absurd hmsg List.not_mem_nil⟩
  tracked := by
    intro offset hoffset
    simp only [offsets, initial, CommitState.initial, List.nil_append, Option.mem_toList] at hoffset
    exact ⟨safe_initial hoffset, fun _ hlost ↦ absurd hlost List.not_mem_nil⟩
  source := by
    intro offset hoffset
    simpa [initial, CommitState.initial] using hoffset

/-! ### One step -/

/-- The condition under which a step commits no offset past a discarded message: a result removes
messages only while the smallest message, or one that is not above a discarded one, stays held; and
`correctTagsOffset` does not find the queue without messages after a message was discarded. -/
def HoldsBack (messageModel : MessageModel) (state : DroppedState) : DroppedEvent → Prop
  | .processConsumeResult msgs result => ∀ lost ∈ state.discarded,
    (∃ first ∈ state.commit.processQueue.msgTreeMap.first?,
      first.1 ∉ (result.removedMsgs messageModel msgs).map MessageExt.queueOffset) ∨
    ∃ held ∈ state.commit.processQueue.msgTreeMap.keys,
      held ∉ (result.removedMsgs messageModel msgs).map MessageExt.queueOffset ∧ held ≤ lost
  | .correctTagsOffset _ => state.commit.processQueue.msgCount = 0 → state.discarded = []
  | _ => True

instance (messageModel : MessageModel) (state : DroppedState) :
    ∀ event, Decidable (state.HoldsBack messageModel event)
  | .processConsumeResult _ _ => inferInstanceAs (Decidable (∀ lost ∈ _, _ ∨ _))
  | .correctTagsOffset _ => inferInstanceAs (Decidable (_ → _))
  | .putMessage _ | .updateOffset _ | .setDroped | .submitConsumeRequest _ | .start _ | .discard _
  | .submitConsumeRequestLater _ | .persist | .removeOffset | .executePullTaskLater _ =>
    inferInstanceAs (Decidable True)

section Steps

variable (queue : MessageQueue) {state : DroppedState}

/-- A step that changes neither the messages held nor the offsets. -/
theorem Invariant.sameQueue {next : DroppedState} (hinvariant : state.Invariant queue)
    (hsame : SameQueue state.commit next.commit) (hflight : next.inFlight.Perm state.inFlight)
    (hinitial : next.commit.initialOffset = state.commit.initialOffset)
    (hwritten : next.written = state.written) (hdiscarded : next.discarded = state.discarded)
    (hsource : ∀ offset ∈ next.sent ++ (next.commit.offsetTable.readOffset queue).toList,
      offset ∈ state.sent ++ (state.commit.offsetTable.readOffset queue).toList ∨
        offset ∈ next.corrected)
    (hcorrected : ∀ offset ∈ state.corrected, offset ∈ next.corrected) :
    next.Invariant queue where
  held := hsame.heldInvariant hinvariant.held
  flying := by
    refine ⟨(hinvariant.flying.move hflight).distinct, fun msg hmsg ↦ ?_⟩
    rw [hsame.msgTreeMap]
    exact (hinvariant.flying.move hflight).held msg hmsg
  tracked := by
    intro offset hoffset
    have hbefore : offset ∈ state.offsets := by
      simp only [offsets, hwritten, hinitial, List.mem_append] at hoffset ⊢
      rcases hoffset with (hpending | hwritten) | hinitial
      · exact Or.inl (Or.inl (hsame.pendingUpdates offset hpending))
      · exact Or.inl (Or.inr hwritten)
      · exact Or.inr hinitial
    obtain ⟨hsafe, hdiscard⟩ := hinvariant.tracked offset hbefore
    exact ⟨hsame.safe hsafe, hdiscarded ▸ hdiscard⟩
  source := by
    intro offset hoffset
    rw [hwritten, hinitial]
    rcases hsource offset hoffset with hbefore | hnew
    · rcases List.mem_append.mp (hinvariant.source offset hbefore) with hold | hold
      · exact List.mem_append_left _ hold
      · exact List.mem_append_right _ (hcorrected offset hold)
    · exact List.mem_append_right _ hnew

theorem invariant_putMessage {msgs : List MessageExt} {commit : CommitState}
    (hinvariant : state.Invariant queue)
    (hcommit : state.commit.step queue (.putMessage msgs) = some commit) :
    ({ state with commit := commit, submitting := state.submitting ++ [msgs] } :
      DroppedState).Invariant queue := by
  have hheld := heldInvariant_putMessage queue hinvariant.held hcommit
  have hsafe := fun offset ↦ @safe_putMessage queue state.commit commit msgs hcommit offset
  simp only [CommitState.step, Option.ite_none_right_eq_some, Option.some.injEq] at hcommit
  obtain ⟨hadmissible, rfl⟩ := hcommit
  refine ⟨hheld, ?_, fun offset hoffset ↦ ?_, hinvariant.source⟩
  · refine (hinvariant.flying.putMessage hinvariant.held hadmissible).move ?_
    refine List.perm_iff_count.mpr fun msg ↦ ?_
    simp only [inFlight, List.flatten_append, List.flatten_singleton, List.count_append]
    omega
  · obtain ⟨hold, hdiscarded⟩ := hinvariant.tracked offset hoffset
    exact ⟨hsafe offset hold, hdiscarded⟩

theorem invariant_correctTagsOffset {nextOffset : ℤ} {commit : CommitState}
    (hinvariant : state.Invariant queue)
    (hempty : state.commit.processQueue.msgCount = 0 → state.discarded = [])
    (hcommit : state.commit.step queue (.correctTagsOffset nextOffset) = some commit) :
    ({ state with commit := commit } : DroppedState).Invariant queue := by
  have hheld := heldInvariant_correctTagsOffset queue hinvariant.held hcommit
  have hsafe := fun offset ↦
    @safe_correctTagsOffset queue state.commit commit nextOffset hcommit offset
  simp only [CommitState.step, Option.ite_none_right_eq_some, Option.some.injEq] at hcommit
  obtain ⟨-, rfl⟩ := hcommit
  refine ⟨hheld, hinvariant.flying, fun offset hoffset ↦ ?_, hinvariant.source⟩
  by_cases hbefore : offset ∈ state.offsets
  · obtain ⟨hold, hdiscarded⟩ := hinvariant.tracked offset hbefore
    exact ⟨hsafe offset hold, hdiscarded⟩
  · simp only [offsets, List.mem_append, not_or] at hoffset hbefore
    have hpending := (hoffset.resolve_right hbefore.2).resolve_right hbefore.1.2
    refine ⟨hheld.pending_safe offset hpending, ?_⟩
    split_ifs at hpending with hzero
    · intro lost hlost
      rw [hempty hzero] at hlost
      exact absurd hlost List.not_mem_nil
    · exact absurd hpending hbefore.1.1

theorem invariant_updateOffset {offset : ℤ} {commit : CommitState}
    (hinvariant : state.Invariant queue)
    (hcommit : state.commit.step queue (.updateOffset offset) = some commit) :
    ({ state with commit := commit, written := state.written ++ [offset] } :
      DroppedState).Invariant queue := by
  have hheld := heldInvariant_updateOffset queue hinvariant.held hcommit
  have hsafe := fun other ↦ @safe_updateOffset queue state.commit commit offset hcommit other
  have hstored := fun stored ↦
    @stored_of_updateOffset queue state.commit commit offset stored hcommit
  simp only [CommitState.step, Option.ite_none_right_eq_some, Option.some.injEq] at hcommit
  obtain ⟨hpending, rfl⟩ := hcommit
  refine ⟨hheld, hinvariant.flying, fun other hother ↦ ?_, fun other hother ↦ ?_⟩
  · have hbefore : other ∈ state.offsets := by
      simp only [offsets, List.mem_append, List.mem_singleton] at hother ⊢
      rcases hother with (herased | hwritten | rfl) | hinitial
      · exact Or.inl (Or.inl (List.mem_of_mem_erase herased))
      · exact Or.inl (Or.inr hwritten)
      · exact Or.inl (Or.inl hpending)
      · exact Or.inr hinitial
    obtain ⟨hold, hdiscarded⟩ := hinvariant.tracked other hbefore
    exact ⟨hsafe other hold, hdiscarded⟩
  · have hsource := hinvariant.source other
    simp only [List.mem_append, Option.mem_toList, List.mem_singleton] at hsource hother ⊢
    rcases hother with hsent | hread
    · rcases hsource (Or.inl hsent) with (hwritten | hinitial) | hcorrected
      · exact Or.inl (Or.inl (Or.inl hwritten))
      · exact Or.inl (Or.inr hinitial)
      · exact Or.inr hcorrected
    · rcases hstored other hread with rfl | hbefore
      · exact Or.inl (Or.inl (Or.inr rfl))
      · rcases hsource (Or.inr hbefore) with (hwritten | hinitial) | hcorrected
        · exact Or.inl (Or.inl (Or.inl hwritten))
        · exact Or.inl (Or.inr hinitial)
        · exact Or.inr hcorrected

/-- The removal with a waiting update is the step of the queue. -/
theorem step_removeMessage {commit : CommitState} {removed : List MessageExt}
    (hremovable : commit.Removable removed) :
    commit.step queue (.removeMessage removed) = some (removeCounted commit removed) := by
  simp [CommitState.step, removeCounted, removeIgnored, hremovable]

theorem heldInvariant_removeCounted (queue : MessageQueue) {commit : CommitState}
    {removed : List MessageExt} (hinvariant : HeldInvariant commit)
    (hremovable : commit.Removable removed) :
    HeldInvariant (removeCounted commit removed) :=
  heldInvariant_removeMessage queue hinvariant (step_removeMessage queue hremovable)

theorem safe_removeCounted (queue : MessageQueue) {commit : CommitState}
    {removed : List MessageExt} (hremovable : commit.Removable removed) {offset : ℤ}
    (hsafe : commit.Safe offset) :
    (removeCounted commit removed).Safe offset :=
  safe_removeMessage queue (step_removeMessage queue hremovable) hsafe

/-- The removal whose offset is ignored leaves the queue as the other removal does. -/
theorem sameQueue_removeIgnored (commit : CommitState) (removed : List MessageExt) :
    SameQueue (removeCounted commit removed) (removeIgnored commit removed) := by
  refine ⟨rfl, rfl, rfl, rfl, rfl, rfl, fun offset hoffset ↦ ?_⟩
  simp only [removeCounted]
  split_ifs
  · exact List.mem_cons_of_mem _ hoffset
  · exact hoffset

/-- The dropped branch: what it discards was held, so no offset is above it. -/
theorem invariant_discard {msgs : List MessageExt} (hinvariant : state.Invariant queue)
    (hmem : msgs ∈ state.discarding) :
    ({ state with
        commit := removeIgnored state.commit msgs
        discarding := state.discarding.erase msgs
        discarded := state.discarded ++
          (msgs.map MessageExt.queueOffset).filter fun offset ↦ offset ∉ state.given } :
      DroppedState).Invariant queue := by
  have hflight : state.inFlight.Perm (msgs ++
      ({ state with discarding := state.discarding.erase msgs } : DroppedState).inFlight) := by
    refine List.perm_iff_count.mpr fun msg ↦ ?_
    have hcount := (flatten_perm_erase hmem).count_eq msg
    simp only [inFlight, List.count_append] at hcount ⊢
    omega
  have hflying := hinvariant.flying.move hflight.symm
  have hremovable := hflying.removable
  have hsame := sameQueue_removeIgnored state.commit msgs
  have hheld := heldInvariant_removeCounted queue hinvariant.held hremovable
  refine ⟨hsame.heldInvariant hheld, hflying.remove, fun offset hoffset ↦ ?_, hinvariant.source⟩
  obtain ⟨hold, hdiscarded⟩ := hinvariant.tracked offset hoffset
  refine ⟨hsame.safe (safe_removeCounted queue hremovable hold), fun lost hlost ↦ ?_⟩
  rcases List.mem_append.mp hlost with hbefore | hnew
  · exact hdiscarded lost hbefore
  · obtain ⟨msg, hmsg, rfl⟩ := List.mem_map.mp (List.mem_filter.mp hnew).1
    exact hold.le_held _ (hremovable.2 msg hmsg)

/-- A result that is held back commits no offset above a discarded message. -/
theorem removeMessage_le_discarded {removed : List MessageExt} (hinvariant : state.Invariant queue)
    (hholds : ∀ lost ∈ state.discarded,
      (∃ first ∈ state.commit.processQueue.msgTreeMap.first?,
        first.1 ∉ removed.map MessageExt.queueOffset) ∨
      ∃ held ∈ state.commit.processQueue.msgTreeMap.keys,
        held ∉ removed.map MessageExt.queueOffset ∧ held ≤ lost)
    (hoffset : 0 ≤ (state.commit.processQueue.removeMessage removed).1) :
    ∀ lost ∈ state.discarded, (state.commit.processQueue.removeMessage removed).1 ≤ lost := by
  intro lost hlost
  rcases hholds lost hlost with ⟨first, hfirst, hleft⟩ | ⟨held, hheld, hleft, hle⟩
  · rw [ProcessQueue.removeMessage_of_first_left hfirst hleft] at hoffset
    exact absurd hoffset (by decide)
  · have hbelow := (ProcessQueue.removeMessage_le
      (fun key ↦ hinvariant.held.held_le_offsetMax) hoffset).1
    exact (hbelow held (ProcessQueue.removeMessage_keys.mpr ⟨hheld, hleft⟩)).trans hle

theorem invariant_processConsumeResult {messageModel : MessageModel} {msgs : List MessageExt}
    {result : ConsumeConcurrentlyResult} (hinvariant : state.Invariant queue)
    (hholds : state.HoldsBack messageModel (.processConsumeResult msgs result))
    (hmem : msgs ∈ state.running) :
    (processConsumeResult messageModel { state with running := state.running.erase msgs } msgs
      result).Invariant queue := by
  have hrequest : msgs.Nodup := by
    have hall : state.inFlight.Nodup := hinvariant.flying.distinct.of_map _
    have hrunning : msgs.Sublist state.inFlight := by
      refine (List.sublist_flatten_of_mem hmem).trans ?_
      simp only [inFlight]
      exact (List.sublist_append_right _ _).trans (List.sublist_append_left _ _)
    exact hrunning.nodup hall
  have hparts := removedMsgs_append_msgBackFailed result messageModel msgs hrequest
  have hflight : state.inFlight.Perm (result.removedMsgs messageModel msgs ++
      (processConsumeResult messageModel { state with running := state.running.erase msgs } msgs
        result).inFlight) := by
    refine List.perm_iff_count.mpr fun msg ↦ ?_
    have hcount := (flatten_perm_erase hmem).count_eq msg
    have hsplit := hparts.count_eq msg
    simp only [inFlight, processConsumeResult, List.count_append] at hcount hsplit ⊢
    split_ifs with hnone
    · rw [List.isEmpty_iff.mp hnone, List.count_nil] at hsplit
      omega
    · simp only [List.flatten_append, List.flatten_singleton, List.count_append]
      omega
  have hflying := hinvariant.flying.move hflight.symm
  have hremovable := hflying.removable
  have hheld := heldInvariant_removeCounted queue hinvariant.held hremovable
  refine ⟨hheld, hflying.remove, fun offset hoffset ↦ ?_, hinvariant.source⟩
  by_cases hbefore : offset ∈ state.offsets
  · obtain ⟨hold, hdiscarded⟩ := hinvariant.tracked offset hbefore
    exact ⟨safe_removeCounted queue hremovable hold, hdiscarded⟩
  · simp only [offsets, processConsumeResult, List.mem_append, not_or] at hoffset hbefore
    have hpending := (hoffset.resolve_right hbefore.2).resolve_right hbefore.1.2
    refine ⟨hheld.pending_safe offset hpending, ?_⟩
    simp only [removeCounted] at hpending
    split_ifs at hpending with hnonneg
    · rcases List.mem_cons.mp hpending with rfl | hwaiting
      · exact removeMessage_le_discarded queue hinvariant hholds hnonneg
      · exact absurd hwaiting hbefore.1.1
    · exact absurd hpending hbefore.1.1

/-- A step that moves a list of messages from one place to another. -/
theorem Invariant.move {next : DroppedState} (hinvariant : state.Invariant queue)
    (hcommit : next.commit = state.commit) (hflight : next.inFlight.Perm state.inFlight)
    (hwritten : next.written = state.written) (hdiscarded : next.discarded = state.discarded)
    (hcorrected : next.corrected = state.corrected) (hsent : next.sent = state.sent) :
    next.Invariant queue := by
  refine hinvariant.sameQueue queue ?_ hflight (by rw [hcommit]) hwritten hdiscarded ?_ ?_
  · rw [hcommit]
    exact ⟨rfl, rfl, rfl, rfl, rfl, rfl, fun _ hoffset ↦ hoffset⟩
  · rw [hsent, hcommit]
    exact fun _ hoffset ↦ Or.inl hoffset
  · rw [hcorrected]
    exact fun _ hoffset ↦ hoffset

theorem invariant_submitConsumeRequest {msgs : List MessageExt} (batchSize : ℕ)
    (hinvariant : state.Invariant queue) (hmem : msgs ∈ state.submitting) :
    ({ state with
        submitting := state.submitting.erase msgs ++ [msgs.drop batchSize]
        queued := state.queued ++ [msgs.take batchSize] } : DroppedState).Invariant queue := by
  refine hinvariant.move queue rfl (List.perm_iff_count.mpr fun msg ↦ ?_) rfl rfl rfl rfl
  have hcount := (flatten_perm_erase hmem).count_eq msg
  have hsplit := congrArg (List.count msg) (List.take_append_drop batchSize msgs)
  simp only [inFlight, List.flatten_append, List.flatten_singleton, List.count_append]
    at hcount hsplit ⊢
  omega

/-- A request that starts moves to those that discard their messages or to those that run. -/
theorem invariant_start {msgs : List MessageExt} {next : DroppedState}
    (hinvariant : state.Invariant queue) (hmem : msgs ∈ state.queued)
    (hstarted : next = { state with
        queued := state.queued.erase msgs
        discarding := state.discarding ++ [msgs] } ∨
      next = { state with
        queued := state.queued.erase msgs
        running := state.running ++ [msgs]
        given := state.given ++ msgs.map MessageExt.queueOffset }) : next.Invariant queue := by
  have hcounts := fun msg ↦ (flatten_perm_erase hmem).count_eq msg
  rcases hstarted with rfl | rfl
  · refine hinvariant.move queue rfl (List.perm_iff_count.mpr fun msg ↦ ?_) rfl rfl rfl rfl
    have hcount := hcounts msg
    simp only [inFlight, List.flatten_append, List.flatten_singleton, List.count_append]
      at hcount ⊢
    omega
  · refine hinvariant.move queue rfl (List.perm_iff_count.mpr fun msg ↦ ?_) rfl rfl rfl rfl
    have hcount := hcounts msg
    simp only [inFlight, List.flatten_append, List.flatten_singleton, List.count_append]
      at hcount ⊢
    omega

/-- The correction of an illegal offset stores an offset that counts as corrected. -/
theorem invariant_executePullTaskLater {next : DroppedState} {nextOffset : ℤ}
    (hinvariant : state.Invariant queue)
    (hnext : next = { state with
        commit := { state.commit with
          offsetTable := state.commit.offsetTable.updateOffset queue nextOffset false }
        corrected := state.corrected ++ [nextOffset] }) : next.Invariant queue := by
  subst hnext
  refine hinvariant.sameQueue queue ⟨rfl, rfl, rfl, rfl, rfl, rfl, fun _ hoffset ↦ hoffset⟩
    (List.Perm.refl _) rfl rfl rfl (fun offset hoffset ↦ ?_)
    fun _ hoffset ↦ List.mem_append_left _ hoffset
  rcases List.mem_append.mp hoffset with hsent | hstored
  · exact Or.inl (List.mem_append_left _ hsent)
  · right
    dsimp only at hstored
    rw [OffsetTable.readOffset_updateOffset] at hstored
    have hcorrection : offset = nextOffset := by
      cases hbefore : state.commit.offsetTable.readOffset queue <;>
        simpa [hbefore, eq_comm] using hstored
    rw [hcorrection]
    exact List.mem_append_right _ (List.mem_singleton_self nextOffset)

end Steps

/-- A step that is held back keeps the invariant. -/
theorem step_invariant {queue : MessageQueue} {batchSize : ℕ} {messageModel : MessageModel}
    {state next : DroppedState} {event : DroppedEvent} (hholds : state.HoldsBack messageModel event)
    (hstep : state.step queue batchSize messageModel event = some next)
    (hinvariant : state.Invariant queue) : next.Invariant queue := by
  cases event with
  | putMessage msgs =>
    obtain ⟨commit, hcommit, rfl⟩ := Option.map_eq_some_iff.mp hstep
    exact invariant_putMessage queue hinvariant hcommit
  | correctTagsOffset nextOffset =>
    obtain ⟨commit, hcommit, rfl⟩ := Option.map_eq_some_iff.mp hstep
    exact invariant_correctTagsOffset queue hinvariant hholds hcommit
  | updateOffset offset =>
    obtain ⟨commit, hcommit, rfl⟩ := Option.map_eq_some_iff.mp hstep
    exact invariant_updateOffset queue hinvariant hcommit
  | setDroped =>
    obtain rfl := Option.some.inj hstep
    exact hinvariant.sameQueue queue ⟨rfl, rfl, rfl, rfl, rfl, rfl, fun _ hoffset ↦ hoffset⟩
      (List.Perm.refl _) rfl rfl rfl (fun _ hoffset ↦ Or.inl hoffset) fun _ hoffset ↦ hoffset
  | submitConsumeRequest msgs =>
    simp only [step, Option.ite_none_right_eq_some, Option.some.injEq] at hstep
    obtain ⟨⟨hmem, -⟩, rfl⟩ := hstep
    exact invariant_submitConsumeRequest queue batchSize hinvariant hmem
  | start msgs =>
    simp only [step, Option.ite_none_right_eq_some] at hstep
    obtain ⟨hmem, hstarted⟩ := hstep
    split_ifs at hstarted with hdroped
    · exact invariant_start queue hinvariant hmem (Or.inl (Option.some.inj hstarted).symm)
    · exact invariant_start queue hinvariant hmem (Or.inr (Option.some.inj hstarted).symm)
  | discard msgs =>
    simp only [step, Option.ite_none_right_eq_some, Option.some.injEq] at hstep
    obtain ⟨hmem, rfl⟩ := hstep
    exact invariant_discard queue hinvariant hmem
  | processConsumeResult msgs result =>
    simp only [step, Option.ite_none_right_eq_some, Option.some.injEq] at hstep
    obtain ⟨hmem, hended⟩ := hstep
    split_ifs at hended with hnone
    · subst hended
      refine hinvariant.move queue rfl (List.perm_iff_count.mpr fun msg ↦ ?_) rfl rfl rfl rfl
      have hcount := (flatten_perm_erase hmem).count_eq msg
      rw [List.isEmpty_iff.mp hnone] at hcount
      simp only [inFlight, List.isEmpty_iff.mp hnone, List.count_append, List.count_nil]
        at hcount ⊢
      omega
    · subst hended
      exact invariant_processConsumeResult queue hinvariant hholds hmem
  | submitConsumeRequestLater msgs =>
    simp only [step, Option.ite_none_right_eq_some, Option.some.injEq] at hstep
    obtain ⟨hmem, rfl⟩ := hstep
    refine hinvariant.move queue rfl (List.perm_iff_count.mpr fun msg ↦ ?_) rfl rfl rfl rfl
    have hcount := (flatten_perm_erase hmem).count_eq msg
    simp only [inFlight, List.flatten_append, List.flatten_singleton, List.count_append]
      at hcount ⊢
    omega
  | persist =>
    obtain rfl := Option.some.inj hstep
    refine hinvariant.sameQueue queue ⟨rfl, rfl, rfl, rfl, rfl, rfl, fun _ hoffset ↦ hoffset⟩
      (List.Perm.refl _) rfl rfl rfl (fun offset hoffset ↦ Or.inl ?_) fun _ hoffset ↦ hoffset
    simpa only [List.mem_append, or_assoc, or_self] using hoffset
  | removeOffset =>
    obtain rfl := Option.some.inj hstep
    refine hinvariant.sameQueue queue ⟨rfl, rfl, rfl, rfl, rfl, rfl, fun _ hoffset ↦ hoffset⟩
      (List.Perm.refl _) rfl rfl rfl (fun offset hoffset ↦ Or.inl ?_) fun _ hoffset ↦ hoffset
    rw [OffsetTable.readOffset_removeOffset, Option.toList_none, List.append_nil] at hoffset
    exact List.mem_append_left _ hoffset
  | executePullTaskLater nextOffset =>
    exact invariant_executePullTaskLater queue hinvariant (Option.some.inj hstep).symm

end DroppedState

/-- In every run whose steps are all held back: no offset written by the consume service or by
`correctTagsOffset` is above a message that was discarded without having been given to the listener,
and no offset sent to the broker is, unless the correction of an illegal offset wrote it. -/
theorem discarded_message_not_passed {now : ℤ} {queue : MessageQueue} {offsetTable : OffsetTable}
    {batchSize : ℕ} {messageModel : MessageModel} {events : List DroppedEvent}
    {last : DroppedState}
    (halong : (droppedSystem queue batchSize messageModel).Along
      (DroppedState.HoldsBack messageModel) (DroppedState.initial now queue offsetTable) events)
    (hrun : (droppedSystem queue batchSize messageModel).run
      (DroppedState.initial now queue offsetTable) events = some last) :
    ∀ lost ∈ last.discarded, (∀ offset ∈ last.written, offset ≤ lost) ∧
      ∀ offset ∈ last.sent, offset ∉ last.corrected → offset ≤ lost := by
  have hinvariant : last.Invariant queue := by
    refine EventSystem.run_invariant_of_along ?_ halong hrun
      (DroppedState.invariant_initial now queue offsetTable)
    intro state event next hholds hstep hinvariant
    exact DroppedState.step_invariant hholds hstep hinvariant
  intro lost hlost
  have htracked : ∀ offset ∈ last.written ++ last.commit.initialOffset.toList, offset ≤ lost := by
    intro offset hoffset
    refine (hinvariant.tracked offset ?_).le_discarded lost hlost
    rw [DroppedState.offsets, List.append_assoc]
    exact List.mem_append_right _ hoffset
  refine ⟨fun offset hoffset ↦ htracked offset (List.mem_append_left _ hoffset), ?_⟩
  intro offset hsent hcorrected
  have hsource := hinvariant.source offset (List.mem_append_left _ hsent)
  exact htracked offset ((List.mem_append.mp hsource).resolve_right hcorrected)

/-- Two messages are put and submitted; the first is running when the queue is dropped, the second
is discarded, and the offset of the first removal does not pass it. -/
theorem discarded_message_not_passed_of_two :
    ∃ last, (droppedSystem ⟨[], [], 0⟩ 1 .clustering).run
        (DroppedState.initial 0 ⟨[], [], 0⟩ OrderedMap.empty)
        [.putMessage [⟨0, 4⟩, ⟨1, 5⟩], .submitConsumeRequest [⟨0, 4⟩, ⟨1, 5⟩],
          .submitConsumeRequest [⟨1, 5⟩], .start [⟨0, 4⟩], .setDroped, .start [⟨1, 5⟩],
          .processConsumeResult [⟨0, 4⟩] ⟨.consumeSuccess, 2147483647, fun _ ↦ true⟩,
          .discard [⟨1, 5⟩], .updateOffset 5, .persist] = some last ∧
      last.discarded = [5] ∧ last.sent = [5] ∧ ∀ lost ∈ last.discarded,
        (∀ offset ∈ last.written, offset ≤ lost) ∧
          ∀ offset ∈ last.sent, offset ∉ last.corrected → offset ≤ lost := by
  have hrun : ((droppedSystem ⟨[], [], 0⟩ 1 .clustering).run
      (DroppedState.initial 0 ⟨[], [], 0⟩ OrderedMap.empty)
      [.putMessage [⟨0, 4⟩, ⟨1, 5⟩], .submitConsumeRequest [⟨0, 4⟩, ⟨1, 5⟩],
        .submitConsumeRequest [⟨1, 5⟩], .start [⟨0, 4⟩], .setDroped, .start [⟨1, 5⟩],
        .processConsumeResult [⟨0, 4⟩] ⟨.consumeSuccess, 2147483647, fun _ ↦ true⟩,
        .discard [⟨1, 5⟩], .updateOffset 5, .persist]).map
      (fun last ↦ (last.discarded, last.sent)) = some ([5], [5]) := by decide
  obtain ⟨last, hlast, hvalues⟩ := Option.map_eq_some_iff.mp hrun
  simp only [Prod.mk.injEq] at hvalues
  refine ⟨last, hlast, hvalues.1, hvalues.2, discarded_message_not_passed ?_ hlast⟩
  decide

/-- The same two messages, with the second running: the first is discarded after the drop, and the
result of the second commits and sends the offset after it. -/
theorem discarded_message_passed :
    ¬ ∀ (now : ℤ) (queue : MessageQueue) (offsetTable : OffsetTable) (batchSize : ℕ)
      (messageModel : MessageModel) (events : List DroppedEvent) (last : DroppedState),
      (droppedSystem queue batchSize messageModel).run
        (DroppedState.initial now queue offsetTable) events = some last →
      ∀ lost ∈ last.discarded, (∀ offset ∈ last.written, offset ≤ lost) ∧
        ∀ offset ∈ last.sent, offset ∉ last.corrected → offset ≤ lost := by
  intro hnever
  have hrun : ((droppedSystem ⟨[], [], 0⟩ 1 .clustering).run
      (DroppedState.initial 0 ⟨[], [], 0⟩ OrderedMap.empty)
      [.putMessage [⟨0, 4⟩, ⟨1, 5⟩], .submitConsumeRequest [⟨0, 4⟩, ⟨1, 5⟩],
        .submitConsumeRequest [⟨1, 5⟩], .start [⟨1, 5⟩], .setDroped, .start [⟨0, 4⟩],
        .discard [⟨0, 4⟩],
        .processConsumeResult [⟨1, 5⟩] ⟨.consumeSuccess, 2147483647, fun _ ↦ true⟩,
        .updateOffset 6, .persist]).map
      (fun last ↦ (last.discarded, last.written, last.sent)) = some ([4], [6], [6]) := by decide
  obtain ⟨last, hlast, hvalues⟩ := Option.map_eq_some_iff.mp hrun
  simp only [Prod.mk.injEq] at hvalues
  obtain ⟨hdiscarded, hwritten, -⟩ := hvalues
  have hle := (hnever 0 ⟨[], [], 0⟩ OrderedMap.empty 1 .clustering _ last hlast 4
    (by rw [hdiscarded]; decide)).1 6 (by rw [hwritten]; decide)
  exact absurd hle (by decide)

end RocketMQClient.Consumer
