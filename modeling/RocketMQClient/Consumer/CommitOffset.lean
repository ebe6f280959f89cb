import RocketMQClient.Consumer.OffsetStore
import RocketMQClient.Consumer.ProcessQueue
import RocketMQClient.Library.EventSystem

/-!
# The offset committed in concurrent mode

In concurrent mode a worker thread removes the messages of a finished request from the process
queue, and only later stores the offset that `removeMessage` returned; the pull callback stores the
next offset of a pull when it finds the process queue without messages (`correctTagsOffset`), again
in a step of its own. `commitSystem` interleaves these steps for one process queue that is never
dropped: an update that a thread has computed and not yet stored waits in `pendingUpdates`, and any
waiting update may be stored next.

The guards state what the broker guarantees: the offsets of a batch increase and are above all
earlier ones, a next offset is above every offset put so far and not above a later one, and the
offset stored at the start is not above an offset put.

`HeldInvariant` relates every waiting update to the tree map: none of them is above a message that
is held, nor above all of `bounds`, the offsets that later batches start from. `CommitInvariant`
says the same of the stored offset, and `commitInvariant_step` keeps it across every step.
`stored_offset_safe` is the statement about whole runs: the stored offset never decreases, never
passes a message put and not removed, and never passes its initial value, the offset after the last
message put, and the next offsets. `stored_offset_passes_last_nextOffset` shows that the last next
offset alone is no bound.
-/

set_option autoImplicit false
set_option relaxedAutoImplicit false

namespace RocketMQClient.Consumer

open Library Messages

/-! ### The event system -/

/-- A process queue and the offset table, the updates computed and not yet stored, and the history
of the run. -/
structure CommitState where
  processQueue : ProcessQueue
  offsetTable : OffsetTable
  pendingUpdates : List ℤ
  initialOffset : Option ℤ
  putOffsets : List ℤ
  removedOffsets : List ℤ
  nextOffsets : List ℤ
  deriving DecidableEq

/-- The atomic steps of the threads that work on the process queue. -/
inductive CommitEvent where
  /-- The pull callback stores a batch. -/
  | putMessage (msgs : List MessageExt)
  /-- A worker removes acknowledged messages. -/
  | removeMessage (msgs : List MessageExt)
  /-- The pull callback runs `correctTagsOffset` up to its test of the message count. -/
  | correctTagsOffset (nextOffset : ℤ)
  /-- A thread stores an offset that it has computed. -/
  | updateOffset (offset : ℤ)
  deriving DecidableEq

namespace CommitState

/-- A new process queue over an offset table. -/
def initial (now : ℤ) (queue : MessageQueue) (offsetTable : OffsetTable) : CommitState where
  processQueue := ProcessQueue.new now
  offsetTable := offsetTable
  pendingUpdates := []
  initialOffset := offsetTable.readOffset queue
  putOffsets := []
  removedOffsets := []
  nextOffsets := []

/-- The batch guarantee of the broker: offsets increase, lie above every offset put before, and are
not below an earlier next offset or the initial offset. -/
def Admissible (state : CommitState) (msgs : List MessageExt) : Prop :=
  (state.putOffsets ++ msgs.map MessageExt.queueOffset).Pairwise (· < ·) ∧
    ∀ lower ∈ state.initialOffset.toList ++ state.nextOffsets, ∀ msg ∈ msgs,
      lower ≤ msg.queueOffset

instance (state : CommitState) (msgs : List MessageExt) : Decidable (state.Admissible msgs) :=
  inferInstanceAs (Decidable (_ ∧ _))

/-- Distinct messages that the process queue holds. -/
def Removable (state : CommitState) (msgs : List MessageExt) : Prop :=
  (msgs.map MessageExt.queueOffset).Nodup ∧
    ∀ msg ∈ msgs, msg.queueOffset ∈ state.processQueue.msgTreeMap

instance (state : CommitState) (msgs : List MessageExt) : Decidable (state.Removable msgs) :=
  inferInstanceAs (Decidable (_ ∧ _))

/-- One atomic step. -/
def step (queue : MessageQueue) (state : CommitState) : CommitEvent → Option CommitState
  | .putMessage msgs =>
    if state.Admissible msgs then
      some { state with
        processQueue := (state.processQueue.putMessage msgs).2
        putOffsets := state.putOffsets ++ msgs.map MessageExt.queueOffset }
    else none
  | .removeMessage msgs =>
    if state.Removable msgs then
      let offset := (state.processQueue.removeMessage msgs).1
      some { state with
        processQueue := (state.processQueue.removeMessage msgs).2
        removedOffsets := state.removedOffsets ++ msgs.map MessageExt.queueOffset
        pendingUpdates := if offset ≥ 0 then offset :: state.pendingUpdates
          else state.pendingUpdates }
    else none
  | .correctTagsOffset nextOffset =>
    if ∀ offset ∈ state.putOffsets, offset < nextOffset then
      some { state with
        nextOffsets := state.nextOffsets ++ [nextOffset]
        pendingUpdates := if state.processQueue.msgCount = 0 then
          nextOffset :: state.pendingUpdates else state.pendingUpdates }
    else none
  | .updateOffset offset =>
    if offset ∈ state.pendingUpdates then
      some { state with
        offsetTable := state.offsetTable.updateOffset queue offset true
        pendingUpdates := state.pendingUpdates.erase offset }
    else none

end CommitState

/-- The threads that consume one message queue in concurrent mode. -/
def commitSystem (queue : MessageQueue) : EventSystem CommitState CommitEvent :=
  ⟨CommitState.step queue⟩

/-! ### The invariant -/

/-- The offsets that bound every update: the initial one, the one after the last message put, and
the next offsets. -/
def CommitState.bounds (state : CommitState) : List ℤ :=
  state.initialOffset.toList ++ (state.putOffsets.getLast?.map (· + 1)).toList ++
    state.nextOffsets

/-- An offset that may be stored: not above a message held, and not above all bounds. -/
structure CommitState.Safe (state : CommitState) (offset : ℤ) : Prop where
  le_held : ∀ held ∈ state.processQueue.msgTreeMap, offset ≤ held
  le_bound : ∃ bound ∈ state.bounds, offset ≤ bound

/-- The process queue holds the messages put and not removed, and every waiting update is safe. -/
structure HeldInvariant (state : CommitState) : Prop where
  increasing : state.putOffsets.Pairwise (· < ·)
  held_iff : ∀ offset, offset ∈ state.processQueue.msgTreeMap ↔
    offset ∈ state.putOffsets ∧ offset ∉ state.removedOffsets
  counted : state.processQueue.msgCount = state.processQueue.msgTreeMap.size
  removed_put : ∀ offset ∈ state.removedOffsets, offset ∈ state.putOffsets
  offsetMax : state.processQueue.queueOffsetMax = state.putOffsets.getLastD 0
  pending_safe : ∀ offset ∈ state.pendingUpdates, state.Safe offset

/-- The invariant of the queue and its waiting updates, and a stored offset that is safe. -/
structure CommitInvariant (queue : MessageQueue) (state : CommitState) : Prop where
  held : HeldInvariant state
  stored_safe : ∀ offset, state.offsetTable.readOffset queue = some offset → state.Safe offset

theorem heldInvariant_initial (now : ℤ) (queue : MessageQueue) (offsetTable : OffsetTable) :
    HeldInvariant (CommitState.initial now queue offsetTable) where
  increasing := List.Pairwise.nil
  held_iff := by simp [CommitState.initial, ProcessQueue.new]
  counted := rfl
  removed_put := by simp [CommitState.initial]
  offsetMax := rfl
  pending_safe := by simp [CommitState.initial]

/-- The offset stored before the first message is safe. -/
theorem safe_initial {now : ℤ} {queue : MessageQueue} {offsetTable : OffsetTable} {offset : ℤ}
    (hstored : offsetTable.readOffset queue = some offset) :
    (CommitState.initial now queue offsetTable).Safe offset := by
  refine ⟨fun held hheld ↦ absurd hheld (OrderedMap.not_mem_empty held), offset, ?_, le_refl _⟩
  simpa [CommitState.initial, CommitState.bounds] using hstored

/-- In an increasing list the last element is the largest. -/
theorem le_of_getLast? {offsets : List ℤ} (hincreasing : offsets.Pairwise (· < ·)) {last : ℤ}
    (hlast : offsets.getLast? = some last) {offset : ℤ} (hoffset : offset ∈ offsets) :
    offset ≤ last := by
  obtain ⟨earlier, rfl⟩ := List.getLast?_eq_some_iff.mp hlast
  rcases List.mem_append.mp hoffset with hearlier | hsame
  · exact ((List.pairwise_append.mp hincreasing).2.2 offset hearlier last
      (List.mem_singleton_self last)).le
  · rw [List.mem_singleton.mp hsame]

namespace HeldInvariant

variable {state : CommitState}

/-- While a message is held, the maximum offset is that of the last message put. -/
theorem exists_last (hinvariant : HeldInvariant state) {held : ℤ}
    (hheld : held ∈ state.processQueue.msgTreeMap) :
    ∃ last, state.putOffsets.getLast? = some last ∧ state.processQueue.queueOffsetMax = last := by
  have hput := ((hinvariant.held_iff held).mp hheld).1
  cases hlast : state.putOffsets.getLast? with
  | none =>
    rw [List.getLast?_eq_none_iff.mp hlast] at hput
    exact absurd hput List.not_mem_nil
  | some last =>
    refine ⟨last, rfl, ?_⟩
    rw [hinvariant.offsetMax, List.getLastD_eq_getLast?, hlast, Option.getD_some]

/-- No message is held above the maximum offset. -/
theorem held_le_offsetMax (hinvariant : HeldInvariant state) {held : ℤ}
    (hheld : held ∈ state.processQueue.msgTreeMap) :
    held ≤ state.processQueue.queueOffsetMax := by
  obtain ⟨last, hlast, hmax⟩ := hinvariant.exists_last hheld
  rw [hmax]
  exact le_of_getLast? hinvariant.increasing hlast ((hinvariant.held_iff held).mp hheld).1

end HeldInvariant

/-! ### One step -/

section Steps

variable (queue : MessageQueue) {state next : CommitState}

/-- Every bound is at most an offset of an admissible batch. -/
theorem bound_le_of_admissible {msgs : List MessageExt} (hadmissible : state.Admissible msgs)
    {bound : ℤ} (hbound : bound ∈ state.bounds) {msg : MessageExt} (hmsg : msg ∈ msgs) :
    bound ≤ msg.queueOffset := by
  obtain ⟨hincreasing, hlower⟩ := hadmissible
  simp only [CommitState.bounds, List.mem_append] at hbound
  rcases hbound with (hinitial | hput) | hnext
  · exact hlower bound (List.mem_append_left _ hinitial) msg hmsg
  · obtain ⟨last, hlast, rfl⟩ := Option.map_eq_some_iff.mp (Option.mem_toList.mp hput)
    have hlt := (List.pairwise_append.mp hincreasing).2.2 last (List.mem_of_getLast? hlast)
      msg.queueOffset (List.mem_map_of_mem hmsg)
    omega
  · exact hlower bound (List.mem_append_right _ hnext) msg hmsg

/-- A batch lowers no bound: each old bound is at most a new one. -/
theorem exists_bound_putMessage {msgs : List MessageExt}
    (hincreasing : (state.putOffsets ++ msgs.map MessageExt.queueOffset).Pairwise (· < ·))
    (hput : next.putOffsets = state.putOffsets ++ msgs.map MessageExt.queueOffset)
    (hinitial : next.initialOffset = state.initialOffset)
    (hnext : next.nextOffsets = state.nextOffsets) {bound : ℤ} (hbound : bound ∈ state.bounds) :
    ∃ larger ∈ next.bounds, bound ≤ larger := by
  simp only [CommitState.bounds, List.mem_append] at hbound
  simp only [CommitState.bounds, List.mem_append, hput, hinitial, hnext]
  rcases hbound with (hbound | hbound) | hbound
  · exact ⟨bound, Or.inl (Or.inl hbound), le_refl bound⟩
  · obtain ⟨last, hlast, rfl⟩ := Option.map_eq_some_iff.mp (Option.mem_toList.mp hbound)
    have hmem := List.mem_append_left (msgs.map MessageExt.queueOffset)
      (List.mem_of_getLast? hlast)
    cases hlarger : (state.putOffsets ++ msgs.map MessageExt.queueOffset).getLast? with
    | none =>
      rw [List.getLast?_eq_none_iff.mp hlarger] at hmem
      exact absurd hmem List.not_mem_nil
    | some larger =>
      have hle := le_of_getLast? hincreasing hlarger hmem
      refine ⟨larger + 1, Or.inl (Or.inr (by simp)), by omega⟩
  · exact ⟨bound, Or.inr hbound, le_refl bound⟩

/-- When a step keeps safe offsets safe, an update that it computes has only to be safe itself. -/
theorem pending_safe_of_computed {computes : Prop} [Decidable computes] {computed : ℤ}
    (hinvariant : HeldInvariant state) (hsafe : ∀ offset, state.Safe offset → next.Safe offset)
    (hpending : next.pendingUpdates =
      if computes then computed :: state.pendingUpdates else state.pendingUpdates)
    (hcomputed : computes → next.Safe computed) :
    ∀ offset ∈ next.pendingUpdates, next.Safe offset := by
  intro offset hoffset
  rw [hpending] at hoffset
  split_ifs at hoffset with hcomputes
  · rcases List.mem_cons.mp hoffset with rfl | hbefore
    · exact hcomputed hcomputes
    · exact hsafe offset (hinvariant.pending_safe offset hbefore)
  · exact hsafe offset (hinvariant.pending_safe offset hoffset)

/-! Offsets that are safe stay safe, whatever the step. -/

theorem safe_putMessage {msgs : List MessageExt}
    (hstep : state.step queue (.putMessage msgs) = some next) {offset : ℤ}
    (hold : state.Safe offset) : next.Safe offset := by
  simp only [CommitState.step, Option.ite_none_right_eq_some, Option.some.injEq] at hstep
  obtain ⟨hadmissible, hnext⟩ := hstep
  obtain ⟨bound, hbound, hle⟩ := hold.le_bound
  refine ⟨fun held hheld ↦ ?_, ?_⟩
  · rw [← hnext] at hheld
    simp only [ProcessQueue.putMessage_msgTreeMap, OrderedMap.mem_assignAll] at hheld
    rcases hheld with hheld | ⟨msg, hmsg, rfl⟩
    · exact hold.le_held held hheld
    · exact hle.trans (bound_le_of_admissible hadmissible hbound hmsg)
  · obtain ⟨larger, hlarger, hbelow⟩ := @exists_bound_putMessage state next msgs hadmissible.1
      (by rw [← hnext]) (by rw [← hnext]) (by rw [← hnext]) bound hbound
    exact ⟨larger, hlarger, hle.trans hbelow⟩

theorem safe_removeMessage {msgs : List MessageExt}
    (hstep : state.step queue (.removeMessage msgs) = some next) {offset : ℤ}
    (hold : state.Safe offset) : next.Safe offset := by
  simp only [CommitState.step, Option.ite_none_right_eq_some, Option.some.injEq] at hstep
  obtain ⟨-, rfl⟩ := hstep
  refine ⟨fun held hleft ↦ ?_, hold.le_bound⟩
  exact hold.le_held held (ProcessQueue.removeMessage_keys.mp hleft).1

theorem safe_correctTagsOffset {nextOffset : ℤ}
    (hstep : state.step queue (.correctTagsOffset nextOffset) = some next) {offset : ℤ}
    (hold : state.Safe offset) : next.Safe offset := by
  simp only [CommitState.step, Option.ite_none_right_eq_some, Option.some.injEq] at hstep
  obtain ⟨-, rfl⟩ := hstep
  obtain ⟨bound, hbound, hle⟩ := hold.le_bound
  refine ⟨hold.le_held, bound, ?_, hle⟩
  simp only [CommitState.bounds, ← List.append_assoc]
  exact List.mem_append_left _ hbound

theorem safe_updateOffset {updated : ℤ}
    (hstep : state.step queue (.updateOffset updated) = some next) {offset : ℤ}
    (hold : state.Safe offset) : next.Safe offset := by
  simp only [CommitState.step, Option.ite_none_right_eq_some, Option.some.injEq] at hstep
  obtain ⟨-, rfl⟩ := hstep
  exact ⟨hold.le_held, hold.le_bound⟩

theorem heldInvariant_putMessage {msgs : List MessageExt}
    (hinvariant : HeldInvariant state)
    (hstep : state.step queue (.putMessage msgs) = some next) : HeldInvariant next := by
  have hsafe := fun offset ↦ @safe_putMessage queue state next msgs hstep offset
  simp only [CommitState.step, Option.ite_none_right_eq_some, Option.some.injEq] at hstep
  obtain ⟨hadmissible, hnext⟩ := hstep
  have hincreasing := hadmissible.1
  have hparts := List.pairwise_append.mp hincreasing
  have hfresh : ∀ msg ∈ msgs, msg.queueOffset ∉ state.putOffsets := by
    intro msg hmsg hput
    exact absurd (hparts.2.2 _ hput _ (List.mem_map_of_mem hmsg)) (lt_irrefl _)
  subst hnext
  refine ⟨hincreasing, ?_, ?_, ?_, ?_, ?_⟩
  · intro offset
    simp only [ProcessQueue.putMessage_msgTreeMap, OrderedMap.mem_assignAll, List.mem_append,
      hinvariant.held_iff, List.mem_map]
    constructor
    · rintro (⟨hput, hremoved⟩ | ⟨msg, hmsg, rfl⟩)
      · exact ⟨Or.inl hput, hremoved⟩
      · exact ⟨Or.inr ⟨msg, hmsg, rfl⟩,
          fun hremoved ↦ hfresh msg hmsg (hinvariant.removed_put _ hremoved)⟩
    · rintro ⟨hput | hnew, hremoved⟩
      · exact Or.inl ⟨hput, hremoved⟩
      · exact Or.inr hnew
  · have hheld : ∀ msg ∈ msgs, msg.queueOffset ∉ state.processQueue.msgTreeMap :=
      fun msg hmsg hheld ↦ hfresh msg hmsg ((hinvariant.held_iff _).mp hheld).1
    have hsize := OrderedMap.size_assignAll (hparts.2.1.imp fun hlt ↦ hlt.ne) hheld
    have hcounted := hinvariant.counted
    simp only [ProcessQueue.putMessage_msgCount, ProcessQueue.putMessage_msgTreeMap, hsize]
    omega
  · exact fun offset hremoved ↦ List.mem_append_left _ (hinvariant.removed_put offset hremoved)
  · simp only [ProcessQueue.putMessage_queueOffsetMax, hinvariant.offsetMax,
      List.getLastD_eq_getLast?, List.getLast?_append]
    cases (msgs.map MessageExt.queueOffset).getLast? <;> rfl
  · exact fun offset hpending ↦ hsafe offset (hinvariant.pending_safe offset hpending)

theorem heldInvariant_removeMessage {msgs : List MessageExt}
    (hinvariant : HeldInvariant state)
    (hstep : state.step queue (.removeMessage msgs) = some next) :
    HeldInvariant next := by
  have hsafe := fun offset ↦ @safe_removeMessage queue state next msgs hstep offset
  simp only [CommitState.step, Option.ite_none_right_eq_some, Option.some.injEq] at hstep
  obtain ⟨⟨hdistinct, hheld⟩, hnext⟩ := hstep
  have hkeys := fun key ↦ @ProcessQueue.removeMessage_keys state.processQueue msgs key
  have hresult : 0 ≤ (state.processQueue.removeMessage msgs).1 →
      next.Safe (state.processQueue.removeMessage msgs).1 := by
    intro hnonneg
    obtain ⟨hleft, hmax⟩ := ProcessQueue.removeMessage_le
      (fun held ↦ hinvariant.held_le_offsetMax) hnonneg
    obtain ⟨held, hsome⟩ := ProcessQueue.exists_held_of_removeMessage hnonneg
    obtain ⟨last, hlast, hmaxEq⟩ := hinvariant.exists_last hsome
    subst hnext
    refine ⟨hleft, last + 1, ?_, hmaxEq ▸ hmax⟩
    simp [CommitState.bounds, hlast]
  have hpending := pending_safe_of_computed hinvariant hsafe (by rw [← hnext]) hresult
  subst hnext
  refine ⟨hinvariant.increasing, ?_, ?_, ?_, ?_, hpending⟩
  · intro offset
    dsimp only
    rw [hkeys, hinvariant.held_iff, List.mem_append]
    tauto
  · have hsame := ProcessQueue.removeMessage_msgCount_sub_size hdistinct hheld
    have hcounted := hinvariant.counted
    dsimp only
    omega
  · intro offset hremoved
    rcases List.mem_append.mp hremoved with hbefore | hnew
    · exact hinvariant.removed_put offset hbefore
    · obtain ⟨msg, hmsg, rfl⟩ := List.mem_map.mp hnew
      exact ((hinvariant.held_iff _).mp (hheld msg hmsg)).1
  · dsimp only
    rw [ProcessQueue.removeMessage_queueOffsetMax, hinvariant.offsetMax]

theorem heldInvariant_correctTagsOffset {nextOffset : ℤ}
    (hinvariant : HeldInvariant state)
    (hstep : state.step queue (.correctTagsOffset nextOffset) = some next) :
    HeldInvariant next := by
  have hsafe := fun offset ↦ @safe_correctTagsOffset queue state next nextOffset hstep offset
  simp only [CommitState.step, Option.ite_none_right_eq_some, Option.some.injEq] at hstep
  obtain ⟨-, hnext⟩ := hstep
  have hresult : state.processQueue.msgCount = 0 → next.Safe nextOffset := by
    intro hzero
    have hsize : state.processQueue.msgTreeMap.size = 0 := by
      have := hinvariant.counted
      omega
    have hnone := OrderedMap.isEmpty_iff.mp (OrderedMap.size_eq_zero.mp hsize)
    subst hnext
    refine ⟨fun held hheld ↦ absurd hheld (hnone held), nextOffset, ?_, le_refl _⟩
    simp [CommitState.bounds]
  have hpending := pending_safe_of_computed hinvariant hsafe (by rw [← hnext]) hresult
  subst hnext
  exact ⟨hinvariant.increasing, hinvariant.held_iff, hinvariant.counted, hinvariant.removed_put,
    hinvariant.offsetMax, hpending⟩

theorem heldInvariant_updateOffset {offset : ℤ} (hinvariant : HeldInvariant state)
    (hstep : state.step queue (.updateOffset offset) = some next) : HeldInvariant next := by
  have hsafe := fun other ↦ @safe_updateOffset queue state next offset hstep other
  simp only [CommitState.step, Option.ite_none_right_eq_some, Option.some.injEq] at hstep
  obtain ⟨-, rfl⟩ := hstep
  exact ⟨hinvariant.increasing, hinvariant.held_iff, hinvariant.counted, hinvariant.removed_put,
    hinvariant.offsetMax,
    fun other hother ↦ hsafe other (hinvariant.pending_safe other (List.mem_of_mem_erase hother))⟩

/-- The stored offset after an update is the update or the offset stored before. -/
theorem stored_of_updateOffset {offset stored : ℤ}
    (hstep : state.step queue (.updateOffset offset) = some next)
    (hstored : next.offsetTable.readOffset queue = some stored) :
    stored = offset ∨ state.offsetTable.readOffset queue = some stored := by
  simp only [CommitState.step, Option.ite_none_right_eq_some, Option.some.injEq] at hstep
  obtain ⟨-, rfl⟩ := hstep
  dsimp only at hstored
  rw [OffsetTable.readOffset_updateOffset, Option.some.injEq] at hstored
  cases hbefore : state.offsetTable.readOffset queue with
  | none =>
    simp only [hbefore] at hstored
    exact Or.inl hstored.symm
  | some before =>
    simp only [hbefore, ↓reduceIte] at hstored
    rcases le_total before offset with hle | hle
    · exact Or.inl (by rw [← hstored, max_eq_right hle])
    · exact Or.inr (by rw [← hstored, max_eq_left hle])

end Steps

/-- Every step keeps the invariant of the queue. -/
theorem heldInvariant_step (queue : MessageQueue) (state : CommitState) (event : CommitEvent)
    (next : CommitState) (hstep : (commitSystem queue).step state event = some next)
    (hinvariant : HeldInvariant state) : HeldInvariant next := by
  cases event with
  | putMessage msgs => exact heldInvariant_putMessage queue hinvariant hstep
  | removeMessage msgs => exact heldInvariant_removeMessage queue hinvariant hstep
  | correctTagsOffset nextOffset => exact heldInvariant_correctTagsOffset queue hinvariant hstep
  | updateOffset offset => exact heldInvariant_updateOffset queue hinvariant hstep

/-- Only a waiting update writes the offset table. -/
theorem offsetTable_of_step {queue : MessageQueue} {state next : CommitState} {event : CommitEvent}
    (hother : ∀ offset, event ≠ .updateOffset offset)
    (hstep : (commitSystem queue).step state event = some next) :
    next.offsetTable = state.offsetTable := by
  cases event with
  | updateOffset offset => exact absurd rfl (hother offset)
  | _ =>
    obtain ⟨-, rfl⟩ := Option.ite_some_none_eq_some.mp hstep
    rfl

/-- Every step keeps the invariant. -/
theorem commitInvariant_step (queue : MessageQueue) (state : CommitState) (event : CommitEvent)
    (next : CommitState) (hstep : (commitSystem queue).step state event = some next)
    (hinvariant : CommitInvariant queue state) : CommitInvariant queue next := by
  refine ⟨heldInvariant_step queue state event next hstep hinvariant.held, fun stored hstored ↦ ?_⟩
  cases event with
  | updateOffset offset =>
    have hpending : offset ∈ state.pendingUpdates := by
      simp only [commitSystem, CommitState.step, Option.ite_none_right_eq_some] at hstep
      exact hstep.1
    refine safe_updateOffset queue hstep ?_
    rcases stored_of_updateOffset queue hstep hstored with rfl | hbefore
    · exact hinvariant.held.pending_safe stored hpending
    · exact hinvariant.stored_safe stored hbefore
  | putMessage msgs =>
    refine safe_putMessage queue hstep (hinvariant.stored_safe stored ?_)
    rwa [← offsetTable_of_step (by simp) hstep]
  | removeMessage msgs =>
    refine safe_removeMessage queue hstep (hinvariant.stored_safe stored ?_)
    rwa [← offsetTable_of_step (by simp) hstep]
  | correctTagsOffset nextOffset =>
    refine safe_correctTagsOffset queue hstep (hinvariant.stored_safe stored ?_)
    rwa [← offsetTable_of_step (by simp) hstep]

/-- The stored offset of a later state is not below that of an earlier one. -/
def StoredOffsetGrows (queue : MessageQueue) (earlier later : CommitState) : Prop :=
  ∀ stored, earlier.offsetTable.readOffset queue = some stored →
    ∃ grown, later.offsetTable.readOffset queue = some grown ∧ stored ≤ grown

/-- No step lowers the stored offset. -/
theorem storedOffsetGrows_step (queue : MessageQueue) (state : CommitState) (event : CommitEvent)
    (next : CommitState) (hstep : (commitSystem queue).step state event = some next) :
    StoredOffsetGrows queue state next := by
  intro stored hstored
  cases event with
  | updateOffset offset =>
    simp only [commitSystem, CommitState.step, Option.ite_none_right_eq_some,
      Option.some.injEq] at hstep
    obtain ⟨-, rfl⟩ := hstep
    refine ⟨max stored offset, ?_, le_max_left stored offset⟩
    rw [OffsetTable.readOffset_updateOffset, hstored]
    rfl
  | _ =>
    rw [offsetTable_of_step (by simp) hstep]
    exact ⟨stored, hstored, le_refl stored⟩

/-- The initial offset is part of the history and never changes. -/
theorem initialOffset_step (queue : MessageQueue) (state : CommitState) (event : CommitEvent)
    (next : CommitState) (hstep : (commitSystem queue).step state event = some next) :
    next.initialOffset = state.initialOffset := by
  cases event <;>
    · simp only [commitSystem, CommitState.step, Option.ite_none_right_eq_some,
        Option.some.injEq] at hstep
      obtain ⟨-, rfl⟩ := hstep
      rfl

/-! ### Whole runs -/

/-- A value in a list without descents is at most its last value. -/
theorem exists_getLast?_of_mem {values : List ℤ} (hascending : values.Pairwise (· ≤ ·)) {value : ℤ}
    (hvalue : value ∈ values) : ∃ last, values.getLast? = some last ∧ value ≤ last := by
  obtain ⟨earlier, last, rfl⟩ := (List.eq_nil_or_concat' values).resolve_left
    (List.ne_nil_of_mem hvalue)
  refine ⟨last, List.getLast?_concat, ?_⟩
  rcases List.mem_append.mp hvalue with hearlier | hsame
  · exact (List.pairwise_append.mp hascending).2.2 value hearlier last
      (List.mem_singleton_self last)
  · rw [List.mem_singleton.mp hsame]

/-- In every run on a queue that is never dropped, from any offset table: the stored offset never
decreases, is never above a message put and not removed, and is never above its initial value, the
offset after the last message put, and all next offsets; when the next offsets do not decrease, the
last of them is enough. -/
theorem stored_offset_safe {now : ℤ} {queue : MessageQueue} {offsetTable : OffsetTable}
    {events more : List CommitEvent} {state later : CommitState}
    (hrun : (commitSystem queue).run (CommitState.initial now queue offsetTable) events =
      some state)
    (hmore : (commitSystem queue).run state more = some later) :
    StoredOffsetGrows queue state later ∧
      ∀ stored, later.offsetTable.readOffset queue = some stored →
        (∀ offset ∈ later.putOffsets, offset ∉ later.removedOffsets → stored ≤ offset) ∧
        (∃ bound ∈ (offsetTable.readOffset queue).toList ++
          (later.putOffsets.getLast?.map (· + 1)).toList ++ later.nextOffsets, stored ≤ bound) ∧
        (later.nextOffsets.Pairwise (· ≤ ·) →
          ∃ bound ∈ (offsetTable.readOffset queue).toList ++
            (later.putOffsets.getLast?.map (· + 1)).toList ++ later.nextOffsets.getLast?.toList,
            stored ≤ bound) := by
  have hwhole : (commitSystem queue).run (CommitState.initial now queue offsetTable)
      (events ++ more) = some later := EventSystem.run_append.mpr ⟨state, hrun, hmore⟩
  have hinvariant : CommitInvariant queue later :=
    EventSystem.run_invariant (commitInvariant_step queue) hwhole
      ⟨heldInvariant_initial now queue offsetTable, fun _ ↦ safe_initial⟩
  have hinitial : later.initialOffset = offsetTable.readOffset queue :=
    @EventSystem.run_relation _ _ _
      (fun earlier later : CommitState ↦ later.initialOffset = earlier.initialOffset) (fun _ ↦ rfl)
      (fun _ _ _ hfirst hsecond ↦ hsecond.trans hfirst) (initialOffset_step queue) _ _ _ hwhole
  refine ⟨?_, fun stored hstored ↦ ?_⟩
  · refine EventSystem.run_relation (fun _ stored hstored ↦ ⟨stored, hstored, le_refl stored⟩) ?_
      (storedOffsetGrows_step queue) hmore
    intro first second third hfirst hsecond stored hstored
    obtain ⟨middle, hmiddle, hle⟩ := hfirst stored hstored
    obtain ⟨last, hlast, hle'⟩ := hsecond middle hmiddle
    exact ⟨last, hlast, hle.trans hle'⟩
  · obtain ⟨hheld, bound, hbound, hle⟩ := hinvariant.stored_safe stored hstored
    rw [CommitState.bounds, hinitial] at hbound
    refine ⟨fun offset hput hremoved ↦ ?_, ⟨bound, hbound, hle⟩, fun hascending ↦ ?_⟩
    · exact hheld offset ((hinvariant.held.held_iff offset).mpr ⟨hput, hremoved⟩)
    · rcases List.mem_append.mp hbound with hearlier | hnext
      · exact ⟨bound, List.mem_append_left _ hearlier, hle⟩
      · obtain ⟨last, hlast, hbelow⟩ := exists_getLast?_of_mem hascending hnext
        exact ⟨last, List.mem_append_right _ (Option.mem_toList.mpr hlast), hle.trans hbelow⟩

/-- Two messages put, the second removed first, the offset of the first removal stored last. -/
theorem stored_offset_safe_of_two :
    ∃ state later : CommitState, StoredOffsetGrows ⟨[], [], 0⟩ state later ∧
      later.offsetTable.readOffset ⟨[], [], 0⟩ = some 7 := by
  have hrun : ((commitSystem ⟨[], [], 0⟩).run (CommitState.initial 0 ⟨[], [], 0⟩ OrderedMap.empty)
      [.putMessage [⟨0, 5⟩, ⟨1, 6⟩], .removeMessage [⟨1, 6⟩], .removeMessage [⟨0, 5⟩]]).isSome =
        true := by decide
  obtain ⟨state, hstate⟩ := Option.isSome_iff_exists.mp hrun
  have hmore : (((commitSystem ⟨[], [], 0⟩).run (CommitState.initial 0 ⟨[], [], 0⟩ OrderedMap.empty)
      ([.putMessage [⟨0, 5⟩, ⟨1, 6⟩], .removeMessage [⟨1, 6⟩], .removeMessage [⟨0, 5⟩]] ++
        [.updateOffset 7])).bind fun later ↦ later.offsetTable.readOffset ⟨[], [], 0⟩) =
          some 7 := by
    decide
  obtain ⟨later, hlater, hstored⟩ := Option.bind_eq_some_iff.mp hmore
  obtain ⟨middle, hmiddle, hrest⟩ := EventSystem.run_append.mp hlater
  obtain rfl := Option.some.inj (hstate.symm.trans hmiddle)
  exact ⟨state, later, (stored_offset_safe hstate hrest).1, hstored⟩

/-- The last next offset is no bound: a message is put, removed and committed, the next offset `10`
of a pull is stored, and a later pull has the next offset `6`. -/
theorem stored_offset_passes_last_nextOffset :
    ∃ events state, (commitSystem ⟨[], [], 0⟩).run
        (CommitState.initial 0 ⟨[], [], 0⟩ OrderedMap.empty) events = some state ∧
      ∃ stored, state.offsetTable.readOffset ⟨[], [], 0⟩ = some stored ∧
        ∀ bound ∈ state.initialOffset.toList ++ (state.putOffsets.getLast?.map (· + 1)).toList ++
          state.nextOffsets.getLast?.toList, bound < stored := by
  have hrun : (((commitSystem ⟨[], [], 0⟩).run
      (CommitState.initial 0 ⟨[], [], 0⟩ OrderedMap.empty)
      [.putMessage [⟨0, 3⟩], .removeMessage [⟨0, 3⟩], .updateOffset 4, .correctTagsOffset 10,
        .updateOffset 10, .correctTagsOffset 6]).map fun state ↦
          (state.offsetTable.readOffset ⟨[], [], 0⟩, state.initialOffset,
            state.putOffsets.getLast?, state.nextOffsets.getLast?)) =
      some (some 10, none, some 3, some 6) := by decide
  obtain ⟨state, hstate, hvalues⟩ := Option.map_eq_some_iff.mp hrun
  simp only [Prod.mk.injEq] at hvalues
  obtain ⟨hstored, hinitial, hput, hnext⟩ := hvalues
  refine ⟨_, state, hstate, 10, hstored, ?_⟩
  rw [hinitial, hput, hnext]
  decide

end RocketMQClient.Consumer
