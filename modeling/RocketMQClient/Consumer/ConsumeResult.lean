import RocketMQClient.Consumer.DroppedQueue

/-!
# The result of a concurrent consume request

`processConsumeResult` skips the acknowledged messages of a request, sends the others back to the
broker, takes those that could not be sent back out of the request and hands them to
`submitConsumeRequestLater`, and removes what is left in the request from the process queue. The
destructor of the request then releases what is left. `submitConsumeRequest` cuts a list of messages
into requests.

The loops of the source are `skipAcked`, `sendBackLoop` and `eraseFailed`; `submittedLater_eq` and
`msgs_eq` say that they find the messages that `msgBackFailed` and `removedMsgs` describe, on which
the models of whole runs rest. `consume_result_conserves` says that a batch of messages held by the
process queue is divided: each message is released and removed, or held and submitted later.

The loops are those of the source, with positions and an erased list, and the descriptions as
filters are proved equal to them. The result is stated for one message at a time
(`removed_or_kept`), since each message of a batch goes one of two ways by its position and by
whether the broker took it back.
-/

set_option autoImplicit false
set_option relaxedAutoImplicit false

namespace RocketMQClient.Consumer

open Library Messages

/-! ### The operations of the source -/

/-- What `processConsumeResult` leaves: the messages of the request, the process queue, the lists
handed to `submitConsumeRequestLater`, the offset handed to `updateOffset`, and what is added to the
statistics. -/
structure ConsumeOutcome where
  msgs : List MessageExt
  processQueue : ProcessQueue
  submittedLater : List (List MessageExt)
  updatedOffset : Option ℤ
  consumeMsgOK : ℤ
  consumeMsgFailed : ℤ

/-- The loop over the messages already consumed; the result is the rest. -/
def skipAcked (ackIndex : ℤ) : ℤ → List MessageExt → List MessageExt
  | _, [] => []
  | i, msg :: rest => if i < ackIndex + 1 then skipAcked ackIndex (i + 1) rest else msg :: rest

/-- The loop that sends messages back; the result is `msgBackFailed`. -/
def sendBackLoop (sendMessageBack : MessageExt → Bool) (msgBackFailed : List MessageExt) :
    List MessageExt → List MessageExt
  | [] => msgBackFailed
  | msg :: rest => sendBackLoop sendMessageBack
      (if sendMessageBack msg then msgBackFailed else msgBackFailed ++ [msg]) rest

/-- The loop that takes the messages of `msgBackFailed` out of the request; it compares pointers. -/
def eraseFailed (msgBackFailed : List MessageExt) : List MessageExt → List MessageExt
  | [] => []
  | msg :: rest =>
    if msgBackFailed.any fun failed ↦ failed.address = msg.address then
      eraseFailed msgBackFailed rest
    else msg :: eraseFailed msgBackFailed rest

namespace ConsumeConcurrentlyResult

/-- The messages that are acknowledged and those that are not, as the statistics count them. -/
def counted (result : ConsumeConcurrentlyResult) (msgsSize : ℕ) : ℤ × ℤ :=
  match result.status with
  | .consumeSuccess =>
    let ok := result.lastAcked msgsSize + 1
    (ok, msgsSize - ok)
  | .reconsumeLater => (0, msgsSize)

/-- Processes the result of a listener. -/
def processConsumeResult (result : ConsumeConcurrentlyResult) (messageModel : MessageModel)
    (queue : ProcessQueue) (msgs : List MessageExt) : ConsumeOutcome :=
  if msgs.isEmpty then ⟨msgs, queue, [], none, 0, 0⟩
  else
    let unacked := skipAcked (result.lastAcked msgs.length) 0 msgs
    let msgBackFailed := match messageModel with
      | .broadcasting => []
      | .clustering => sendBackLoop result.sendMessageBack [] unacked
    let left := if msgBackFailed.isEmpty then msgs else eraseFailed msgBackFailed msgs
    let removed := queue.removeMessage left
    { msgs := left
      processQueue := removed.2
      submittedLater := if msgBackFailed.isEmpty then [] else [msgBackFailed]
      updatedOffset := if removed.1 ≥ 0 then some removed.1 else none
      consumeMsgOK := (result.counted msgs.length).1
      consumeMsgFailed := (result.counted msgs.length).2 }

end ConsumeConcurrentlyResult

/-- The inner loop of `submitConsumeRequest`: the messages of one request, and the rest. -/
def takeBatch : ℕ → List MessageExt → List MessageExt × List MessageExt
  | 0, msgs => ([], msgs)
  | _ + 1, [] => ([], [])
  | count + 1, msg :: rest => (msg :: (takeBatch count rest).1, (takeBatch count rest).2)

/-- The outer loop of `submitConsumeRequest`, at most `fuel` times; nothing when it does not end. -/
def submitLoop (consumeBatchSize : ℕ) : ℕ → List MessageExt → Option (List (List MessageExt))
  | _, [] => some []
  | 0, _ :: _ => none
  | fuel + 1, msg :: rest =>
    (submitLoop consumeBatchSize fuel (takeBatch consumeBatchSize (msg :: rest)).2).map fun later ↦
      (takeBatch consumeBatchSize (msg :: rest)).1 :: later

/-- Submits messages; the result is the messages of each request. -/
def submitConsumeRequest (consumeBatchSize : ℕ) (msgs : List MessageExt) :
    Option (List (List MessageExt)) := submitLoop consumeBatchSize msgs.length msgs

/-! ### The loops -/

variable {msgs : List MessageExt}

theorem skipAcked_eq_drop (ackIndex : ℤ) (i : ℤ) (msgs : List MessageExt) :
    skipAcked ackIndex i msgs = msgs.drop (ackIndex + 1 - i).toNat := by
  induction msgs generalizing i with
  | nil => rw [skipAcked, List.drop_nil]
  | cons msg rest ih =>
    rw [skipAcked]
    split_ifs with hacked
    · have hcount : (ackIndex + 1 - i).toNat = (ackIndex + 1 - (i + 1)).toNat + 1 := by omega
      rw [ih, hcount, List.drop_succ_cons]
    · rw [Int.toNat_of_nonpos (by omega), List.drop_zero]

theorem sendBackLoop_eq_filter (sendMessageBack : MessageExt → Bool)
    (msgBackFailed msgs : List MessageExt) :
    sendBackLoop sendMessageBack msgBackFailed msgs =
      msgBackFailed ++ msgs.filter fun msg ↦ !sendMessageBack msg := by
  induction msgs generalizing msgBackFailed with
  | nil => rw [sendBackLoop, List.filter_nil, List.append_nil]
  | cons msg rest ih =>
    rw [sendBackLoop, ih, List.filter_cons]
    cases sendMessageBack msg with
    | true => simp
    | false => simp

/-- Assumes: the failed messages are among those of a request, which have distinct addresses. -/
theorem eraseFailed_eq_filter {msgBackFailed : List MessageExt}
    (hdistinct : (msgs.map MessageExt.address).Nodup) (hfailed : msgBackFailed ⊆ msgs)
    {part : List MessageExt} (hpart : part ⊆ msgs) :
    eraseFailed msgBackFailed part = part.filter fun msg ↦ msg ∉ msgBackFailed := by
  induction part with
  | nil => rfl
  | cons msg rest ih =>
    have hmsg : msg ∈ msgs := hpart List.mem_cons_self
    have hsame : (msgBackFailed.any fun failed ↦ failed.address = msg.address) = true ↔
        msg ∈ msgBackFailed := by
      rw [List.any_eq_true]
      constructor
      · rintro ⟨failed, hmem, haddress⟩
        rw [List.inj_on_of_nodup_map hdistinct (hfailed hmem) hmsg
          (of_decide_eq_true haddress)] at hmem
        exact hmem
      · exact fun hmem ↦ ⟨msg, hmem, decide_eq_true rfl⟩
    rw [eraseFailed, List.filter_cons, ih fun _ hmem ↦ hpart (List.mem_cons_of_mem msg hmem)]
    by_cases hmem : msg ∈ msgBackFailed
    · simp [hsame.mpr hmem, hmem]
    · simp [mt hsame.mp hmem, hmem]

theorem takeBatch_eq (count : ℕ) (msgs : List MessageExt) :
    takeBatch count msgs = (msgs.take count, msgs.drop count) := by
  induction count generalizing msgs with
  | zero => rfl
  | succ count ih =>
    cases msgs with
    | nil => rfl
    | cons msg rest => rw [takeBatch, ih, List.take_succ_cons, List.drop_succ_cons]

/-- Consecutive parts of a list, none of them empty and none longer than a size. -/
structure CutInto (size : ℕ) (msgs : List MessageExt) (batches : List (List MessageExt)) :
    Prop where
  flatten : batches.flatten = msgs
  nonempty : ∀ batch ∈ batches, batch ≠ []
  length_le : ∀ batch ∈ batches, batch.length ≤ size

/-- The outer loop ends, since each round takes at least one message. -/
theorem submitLoop_cuts {size : ℕ} (hsize : 1 ≤ size) {fuel : ℕ} (hfuel : msgs.length ≤ fuel) :
    ∃ batches, submitLoop size fuel msgs = some batches ∧ CutInto size msgs batches := by
  induction fuel generalizing msgs with
  | zero =>
    obtain rfl := List.length_eq_zero_iff.mp (Nat.le_zero.mp hfuel)
    exact ⟨[], rfl, rfl, by simp, by simp⟩
  | succ fuel ih =>
    cases msgs with
    | nil => exact ⟨[], rfl, rfl, by simp, by simp⟩
    | cons msg rest =>
      have hrest : ((msg :: rest).drop size).length ≤ fuel := by
        rw [List.length_drop]
        omega
      obtain ⟨later, hlater, hflatten, hnonempty, hlength⟩ := ih hrest
      refine ⟨(msg :: rest).take size :: later, ?_, ?_, ?_, ?_⟩
      · rw [submitLoop, takeBatch_eq]
        dsimp only
        rw [hlater, Option.map_some]
      · rw [List.flatten_cons, hflatten, List.take_append_drop]
      · intro batch hbatch
        rcases List.mem_cons.mp hbatch with rfl | hmem
        · obtain ⟨count, rfl⟩ := Nat.exists_eq_add_of_le' hsize
          simp
        · exact hnonempty batch hmem
      · intro batch hbatch
        rcases List.mem_cons.mp hbatch with rfl | hmem
        · exact List.length_take_le _ _
        · exact hlength batch hmem

theorem submitConsumeRequest_cuts {size : ℕ} (hsize : 1 ≤ size) (msgs : List MessageExt) :
    ∃ batches, submitConsumeRequest size msgs = some batches ∧ CutInto size msgs batches :=
  submitLoop_cuts hsize (le_refl _)

/-! ### The outcome -/

section Outcome

variable {result : ConsumeConcurrentlyResult} {messageModel : MessageModel} {queue : ProcessQueue}

/-- The messages of a request that are found in the lists handed to `submitConsumeRequestLater`. -/
def ConsumeOutcome.kept (outcome : ConsumeOutcome) : List MessageExt :=
  outcome.submittedLater.flatten

theorem msgBackFailed_sublist (result : ConsumeConcurrentlyResult) (messageModel : MessageModel)
    (msgs : List MessageExt) : (result.msgBackFailed messageModel msgs).Sublist msgs := by
  unfold ConsumeConcurrentlyResult.msgBackFailed
  split
  · exact List.nil_sublist msgs
  · exact List.filter_sublist.trans (List.drop_sublist _ msgs)

/-- The loops find the messages that could not be sent back. -/
theorem msgBackFailed_eq (result : ConsumeConcurrentlyResult) (messageModel : MessageModel)
    (msgs : List MessageExt) :
    (match messageModel with
      | .broadcasting => []
      | .clustering => sendBackLoop result.sendMessageBack []
          (skipAcked (result.lastAcked msgs.length) 0 msgs)) =
      result.msgBackFailed messageModel msgs := by
  cases messageModel with
  | broadcasting => rfl
  | clustering =>
    dsimp only
    rw [sendBackLoop_eq_filter, skipAcked_eq_drop, List.nil_append, Int.sub_zero]
    rfl

/-- The lists handed to `submitConsumeRequestLater`: one with the messages that could not be sent
back, if there are any. -/
theorem submittedLater_eq (hnonempty : msgs ≠ []) :
    (result.processConsumeResult messageModel queue msgs).submittedLater =
      if (result.msgBackFailed messageModel msgs).isEmpty then []
      else [result.msgBackFailed messageModel msgs] := by
  unfold ConsumeConcurrentlyResult.processConsumeResult
  rw [if_neg (by simpa using hnonempty)]
  dsimp only
  rw [msgBackFailed_eq]

theorem kept_eq (hnonempty : msgs ≠ []) :
    (result.processConsumeResult messageModel queue msgs).kept =
      result.msgBackFailed messageModel msgs := by
  rw [ConsumeOutcome.kept, submittedLater_eq hnonempty]
  split_ifs with hempty
  · exact (List.isEmpty_iff.mp hempty).symm
  · exact List.flatten_singleton

/-- The messages left in the request are the others. -/
theorem msgs_eq (hnonempty : msgs ≠ []) (hdistinct : (msgs.map MessageExt.address).Nodup) :
    (result.processConsumeResult messageModel queue msgs).msgs =
      result.removedMsgs messageModel msgs := by
  unfold ConsumeConcurrentlyResult.processConsumeResult
  rw [if_neg (by simpa using hnonempty)]
  dsimp only
  rw [msgBackFailed_eq]
  split_ifs with hempty
  · simp [ConsumeConcurrentlyResult.removedMsgs, List.isEmpty_iff.mp hempty]
  · exact eraseFailed_eq_filter hdistinct (msgBackFailed_sublist result messageModel msgs).subset
      (List.Subset.refl msgs)

/-- The request removes from the process queue what is left in it. -/
theorem processQueue_eq (hnonempty : msgs ≠ []) :
    (result.processConsumeResult messageModel queue msgs).processQueue =
      (queue.removeMessage (result.processConsumeResult messageModel queue msgs).msgs).2 := by
  unfold ConsumeConcurrentlyResult.processConsumeResult
  rw [if_neg (by simpa using hnonempty)]

/-- What a removal leaves of the tree map. -/
theorem entries_removeMessage {entry : ℤ × MessageExt} :
    entry ∈ (queue.removeMessage msgs).2.msgTreeMap.entries ↔
      entry ∈ queue.msgTreeMap.entries ∧ entry.1 ∉ msgs.map MessageExt.queueOffset := by
  rw [ProcessQueue.removeMessage_queue]
  split
  · rename_i hempty
    have hnone : entry ∉ queue.msgTreeMap.entries := fun hentry ↦
      OrderedMap.isEmpty_iff.mp hempty entry.1 (OrderedMap.key_mem hentry)
    exact iff_of_false hnone fun hboth ↦ hnone hboth.1
  · exact OrderedMap.mem_entries_eraseAll

/-- The messages of a batch are objects of their own, and the process queue holds each of them under
its offset. -/
structure HeldBatch (queue : ProcessQueue) (msgs : List MessageExt) : Prop where
  distinct : (msgs.map MessageExt.address).Nodup
  held : ∀ msg ∈ msgs, queue.msgTreeMap.find? msg.queueOffset = some msg

namespace HeldBatch

theorem nodup (hbatch : HeldBatch queue msgs) : msgs.Nodup := hbatch.distinct.of_map _

/-- Two messages that are held under one offset are the same. -/
theorem eq_of_queueOffset (hbatch : HeldBatch queue msgs) {first second : MessageExt}
    (hfirst : first ∈ msgs) (hsecond : second ∈ msgs)
    (hoffset : first.queueOffset = second.queueOffset) : first = second := by
  have hheld := hbatch.held first hfirst
  rw [hoffset, hbatch.held second hsecond] at hheld
  exact (Option.some.inj hheld).symm

/-- A message stays held exactly when it is not among those removed. -/
theorem find?_removeMessage (hbatch : HeldBatch queue msgs) {removed : List MessageExt}
    (hremoved : removed ⊆ msgs) {msg : MessageExt} (hmsg : msg ∈ msgs) :
    (queue.removeMessage removed).2.msgTreeMap.find? msg.queueOffset =
      if msg ∈ removed then none else some msg := by
  split_ifs with hmem
  · rw [OrderedMap.find?_eq_none, ProcessQueue.removeMessage_keys]
    exact fun hboth ↦ hboth.2 (List.mem_map_of_mem hmem)
  · rw [OrderedMap.find?_eq_some, entries_removeMessage]
    refine ⟨OrderedMap.find?_eq_some.mp (hbatch.held msg hmsg), fun hoffset ↦ ?_⟩
    obtain ⟨other, hother, hsame⟩ := List.mem_map.mp hoffset
    exact hmem (hbatch.eq_of_queueOffset (hremoved hother) hmsg hsame ▸ hother)

end HeldBatch

/-- A message is out of the process queue and released once, and not submitted later. -/
structure RemovedAndReleased (outcome : ConsumeOutcome) (msg : MessageExt) : Prop where
  removed : outcome.processQueue.msgTreeMap.find? msg.queueOffset = none
  released : outcome.msgs.count msg = 1
  notKept : msg ∉ outcome.kept

/-- A message is held and submitted later once, and not released. -/
structure HeldAndKept (outcome : ConsumeOutcome) (msg : MessageExt) : Prop where
  held : outcome.processQueue.msgTreeMap.find? msg.queueOffset = some msg
  kept : outcome.kept.count msg = 1
  notReleased : msg ∉ outcome.msgs

/-- A message of the batch is in one of the two states. -/
theorem removed_or_kept (hbatch : HeldBatch queue msgs) {msg : MessageExt} (hmsg : msg ∈ msgs) :
    Xor (RemovedAndReleased (result.processConsumeResult messageModel queue msgs) msg)
      (HeldAndKept (result.processConsumeResult messageModel queue msgs) msg) := by
  have hnonempty : msgs ≠ [] := List.ne_nil_of_mem hmsg
  have hleft : (result.processConsumeResult messageModel queue msgs).msgs =
      msgs.filter fun msg ↦ msg ∉ result.msgBackFailed messageModel msgs :=
    msgs_eq hnonempty hbatch.distinct
  have hsub : (result.processConsumeResult messageModel queue msgs).msgs ⊆ msgs := by
    rw [hleft]
    exact List.filter_subset_self _
  have hfind := hbatch.find?_removeMessage hsub hmsg
  rw [← processQueue_eq hnonempty] at hfind
  have hkept : (result.processConsumeResult messageModel queue msgs).kept =
      result.msgBackFailed messageModel msgs := kept_eq hnonempty
  by_cases hfailed : msg ∈ result.msgBackFailed messageModel msgs
  · have habsent : msg ∉ (result.processConsumeResult messageModel queue msgs).msgs := by
      simp [hleft, hfailed]
    refine Or.inr ⟨⟨?_, ?_, habsent⟩, fun hreleased ↦ hreleased.notKept (hkept ▸ hfailed)⟩
    · rw [hfind, if_neg habsent]
    · rw [hkept]
      exact List.count_eq_one_of_mem
        ((msgBackFailed_sublist result messageModel msgs).nodup hbatch.nodup) hfailed
  · have hpresent : msg ∈ (result.processConsumeResult messageModel queue msgs).msgs := by
      simp [hleft, hfailed, hmsg]
    refine Or.inl ⟨⟨?_, ?_, hkept ▸ hfailed⟩, fun hheld ↦ hheld.notReleased hpresent⟩
    · rw [hfind, if_pos hpresent]
    · refine List.count_eq_one_of_mem ?_ hpresent
      rw [hleft]
      exact hbatch.nodup.filter _

/-- The messages submitted later by their positions. -/
theorem kept_iff_position (hbatch : HeldBatch queue msgs) {index : ℕ}
    (hindex : index < msgs.length) :
    msgs.get ⟨index, hindex⟩ ∈ (result.processConsumeResult messageModel queue msgs).kept ↔
      messageModel = .clustering ∧
        (result.status = .consumeSuccess → min result.ackIndex (msgs.length - 1) < index) ∧
        result.sendMessageBack (msgs.get ⟨index, hindex⟩) = false := by
  have hnonempty : msgs ≠ [] := List.ne_nil_of_length_pos (Nat.zero_lt_of_lt hindex)
  rw [kept_eq hnonempty]
  cases messageModel with
  | broadcasting => simp [ConsumeConcurrentlyResult.msgBackFailed]
  | clustering =>
    have hposition : msgs.get ⟨index, hindex⟩ ∈ msgs.drop (result.lastAcked msgs.length + 1).toNat ↔
        result.lastAcked msgs.length < index := by
      rw [List.mem_drop_iff_getElem]
      constructor
      · rintro ⟨other, hother, hsame⟩
        have hequal := (List.Nodup.getElem_inj_iff hbatch.nodup).mp hsame
        omega
      · intro hafter
        have hle : (result.lastAcked msgs.length + 1).toNat ≤ index := by omega
        refine ⟨index - (result.lastAcked msgs.length + 1).toNat, by omega, ?_⟩
        simp [Nat.add_sub_of_le hle]
    have hacked : result.lastAcked msgs.length < index ↔
        (result.status = .consumeSuccess → min result.ackIndex (msgs.length - 1) < index) := by
      unfold ConsumeConcurrentlyResult.lastAcked
      cases result.status with
      | consumeSuccess =>
        dsimp only
        split_ifs <;> simp <;> omega
      | reconsumeLater =>
        simp
        omega
    rw [ConsumeConcurrentlyResult.msgBackFailed, List.mem_filter, hposition, hacked]
    simp

/-- A batch is divided: each message is removed and released, or held and submitted later; those
submitted later, at most one list in the order of the batch, are the messages behind the last
acknowledged one that could not be sent back in clustering mode. -/
structure Divides (result : ConsumeConcurrentlyResult) (messageModel : MessageModel)
    (msgs : List MessageExt) (outcome : ConsumeOutcome) : Prop where
  each : ∀ msg ∈ msgs, Xor (RemovedAndReleased outcome msg) (HeldAndKept outcome msg)
  once : outcome.submittedLater.length ≤ 1
  order : outcome.kept.Sublist msgs
  behind : ∀ (index : ℕ) (hindex : index < msgs.length),
    msgs.get ⟨index, hindex⟩ ∈ outcome.kept ↔ messageModel = .clustering ∧
      (result.status = .consumeSuccess → min result.ackIndex (msgs.length - 1) < index) ∧
      result.sendMessageBack (msgs.get ⟨index, hindex⟩) = false

/-- Processing a result divides every batch that the process queue holds, and every list that is
submitted is cut into requests. -/
theorem consume_result_conserves (hbatch : HeldBatch queue msgs) (hnonempty : msgs ≠ []) :
    Divides result messageModel msgs (result.processConsumeResult messageModel queue msgs) ∧
      ∀ (size : ℕ), 1 ≤ size → ∀ list, ∃ batches,
        submitConsumeRequest size list = some batches ∧ CutInto size list batches := by
  refine ⟨⟨fun msg hmsg ↦ removed_or_kept hbatch hmsg, ?_, ?_, fun index hindex ↦
    kept_iff_position hbatch hindex⟩, fun size hsize list ↦ submitConsumeRequest_cuts hsize list⟩
  · rw [submittedLater_eq hnonempty]
    split_ifs
    · exact Nat.zero_le 1
    · exact le_refl 1
  · rw [kept_eq hnonempty]
    exact msgBackFailed_sublist result messageModel msgs

end Outcome

/-- Two messages of which the second could not be sent back. -/
theorem consume_result_conserves_of_two :
    Divides ⟨.consumeSuccess, 0, fun _ ↦ false⟩ .clustering [⟨0, 5⟩, ⟨1, 6⟩]
      (ConsumeConcurrentlyResult.processConsumeResult ⟨.consumeSuccess, 0, fun _ ↦ false⟩
        .clustering ((ProcessQueue.new 0).putMessage [⟨0, 5⟩, ⟨1, 6⟩]).2 [⟨0, 5⟩, ⟨1, 6⟩]) ∧
      submitConsumeRequest 1 [⟨0, 5⟩, ⟨1, 6⟩] = some [[⟨0, 5⟩], [⟨1, 6⟩]] := by
  have hbatch : HeldBatch ((ProcessQueue.new 0).putMessage [⟨0, 5⟩, ⟨1, 6⟩]).2
      [⟨0, 5⟩, ⟨1, 6⟩] := ⟨by decide, by decide⟩
  exact ⟨(consume_result_conserves hbatch (by decide)).1, rfl⟩

/-- A listener that asks for a later consumption: the only message is behind no acknowledged one,
whatever its acknowledged index is. -/
theorem reconsume_later_ignores_ackIndex :
    ∃ (result : ConsumeConcurrentlyResult) (queue : ProcessQueue) (msgs : List MessageExt),
      HeldBatch queue msgs ∧ msgs ≠ [] ∧
      ¬ ∀ (index : ℕ) (hindex : index < msgs.length),
        msgs.get ⟨index, hindex⟩ ∈ (result.processConsumeResult .clustering queue msgs).kept ↔
          min result.ackIndex (msgs.length - 1) < index ∧
            result.sendMessageBack (msgs.get ⟨index, hindex⟩) = false := by
  refine ⟨⟨.reconsumeLater, 0, fun _ ↦ false⟩, ((ProcessQueue.new 0).putMessage [⟨0, 5⟩]).2,
    [⟨0, 5⟩], ⟨by decide, by decide⟩, by decide, fun hall ↦ ?_⟩
  exact absurd (hall 0 (by decide)) (by decide)

end RocketMQClient.Consumer
