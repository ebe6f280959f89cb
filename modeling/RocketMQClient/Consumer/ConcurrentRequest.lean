import RocketMQClient.Consumer.DroppedQueue
import RocketMQClient.Library.TaskPool

/-!
# Concurrent consume requests

`ConsumeConcurrentlyRequest::Do` looks whether its process queue is dropped; it removes its messages
without giving them to the listener, or gives them to the listener and processes the result:
messages that could not be sent back wait in a timer for a later request, the others are removed,
and the offset that `removeMessage` returned is stored under the message queue.
`ConcurrentPhase.advance` is one step of a request or of a timer; a timer submits its messages in
batches, one batch a step.

`ConcurrentPhase.advance_flying` says that the messages of all requests and timers stay distinct and
held by the process queue.
-/

set_option autoImplicit false
set_option relaxedAutoImplicit false

namespace RocketMQClient.Consumer

open Library Messages

/-- Where a request or a timer is. -/
inductive ConcurrentPhase where
  | queued (msgs : List MessageExt)
  /-- `isDroped` was true. -/
  | discarding (msgs : List MessageExt)
  | listening (msgs : List MessageExt)
  /-- The messages that could not be sent back are out of the request. -/
  | removing (msgs : List MessageExt)
  /-- `removeMessage` has returned an offset, which is to be stored under the message queue. -/
  | updating (offset : ℤ)
  /-- The request has itself to delete. -/
  | ending
  | finished
  /-- A `SubmitConsumeRequestLater` in the timer. -/
  | later (msgs : List MessageExt)
  /-- The timer is inside `submitConsumeRequest`. -/
  | submitting (msgs : List MessageExt)
  deriving DecidableEq

/-- The process queue after a step of a request, its next phase and what it submits. -/
structure ConcurrentOutcome where
  processQueue : ProcessQueue
  phase : ConcurrentPhase
  submitted : List ConcurrentPhase

namespace ConcurrentPhase

/-- One step of a request or of a timer, with the result of the listener. -/
def advance (messageModel : MessageModel) (batchSize : ℕ) (queue : ProcessQueue)
    (result : ConsumeConcurrentlyResult) : ConcurrentPhase → ConcurrentOutcome
  | .queued msgs => ⟨queue, if queue.droped then .discarding msgs else .listening msgs, []⟩
  | .discarding msgs => ⟨(queue.removeMessage msgs).2, .ending, []⟩
  | .listening msgs =>
    if msgs.isEmpty then ⟨queue, .ending, []⟩
    else ⟨queue, .removing (result.removedMsgs messageModel msgs),
      if (result.msgBackFailed messageModel msgs).isEmpty then []
      else [.later (result.msgBackFailed messageModel msgs)]⟩
  | .removing msgs =>
    let removed := queue.removeMessage msgs
    ⟨removed.2, if removed.1 ≥ 0 then .updating removed.1 else .ending, []⟩
  | .updating _ => ⟨queue, .ending, []⟩
  | .ending => ⟨queue, .finished, []⟩
  | .finished => ⟨queue, .finished, []⟩
  | .later msgs => ⟨queue, .submitting msgs, []⟩
  | .submitting msgs =>
    if msgs.isEmpty then ⟨queue, .finished, []⟩
    else ⟨queue, .submitting (msgs.drop batchSize), [.queued (msgs.take batchSize)]⟩

/-- The messages of a request or timer that it has not removed yet. -/
def held : ConcurrentPhase → List MessageExt
  | .queued msgs | .discarding msgs | .listening msgs | .removing msgs | .later msgs
  | .submitting msgs => msgs
  | .updating _ | .ending | .finished => []

variable (messageModel : MessageModel) (batchSize : ℕ) (queue : ProcessQueue)
  (result : ConsumeConcurrentlyResult)

/-- No request drops the queue. -/
theorem advance_droped (phase : ConcurrentPhase) :
    (phase.advance messageModel batchSize queue result).processQueue.droped = queue.droped := by
  cases phase with
  | discarding msgs => exact ProcessQueue.removeMessage_droped queue msgs
  | removing msgs => exact ProcessQueue.removeMessage_droped queue msgs
  | listening msgs =>
    simp only [advance]
    split <;> rfl
  | submitting msgs =>
    simp only [advance]
    split <;> rfl
  | _ => rfl

/-- The messages of the requests stay distinct and held. -/
theorem advance_flying {phase : ConcurrentPhase} {others : List MessageExt}
    (hflying : DroppedState.Flying queue (phase.held ++ others)) :
    DroppedState.Flying (phase.advance messageModel batchSize queue result).processQueue
      ((phase.advance messageModel batchSize queue result).phase.held ++
        (phase.advance messageModel batchSize queue result).submitted.flatMap held ++ others) := by
  cases phase with
  | queued msgs =>
    simp only [advance]
    split <;> simpa [held] using hflying
  | discarding msgs => simpa [advance, held] using hflying.remove
  | listening msgs =>
    simp only [advance]
    split
    · rename_i hempty
      obtain rfl := List.isEmpty_iff.mp hempty
      simpa [held] using hflying
    · have hdistinct : msgs.Nodup := by
        have hall := hflying.distinct
        rw [List.map_append] at hall
        exact (List.nodup_append.mp hall).1.of_map _
      have hparts := DroppedState.removedMsgs_append_msgBackFailed result messageModel msgs
        hdistinct
      have hsubmitted : ((if (result.msgBackFailed messageModel msgs).isEmpty then []
          else [later (result.msgBackFailed messageModel msgs)]) : List ConcurrentPhase).flatMap
            held = result.msgBackFailed messageModel msgs := by
        split
        · rename_i hempty
          rw [List.isEmpty_iff.mp hempty]
          rfl
        · simp [held]
      rw [hsubmitted]
      exact hflying.move (hparts.symm.append_right others)
  | removing msgs =>
    simp only [advance]
    split <;> simpa [held] using hflying.remove
  | updating offset => simpa [advance, held] using hflying
  | ending => simpa [advance, held] using hflying
  | finished => simpa [advance, held] using hflying
  | later msgs => simpa [advance, held] using hflying
  | submitting msgs =>
    simp only [advance]
    split
    · rename_i hempty
      obtain rfl := List.isEmpty_iff.mp hempty
      simpa [held] using hflying
    · have hcut : (msgs.drop batchSize ++ msgs.take batchSize).Perm msgs := by
        have happend : (msgs.drop batchSize ++ msgs.take batchSize).Perm
            (msgs.take batchSize ++ msgs.drop batchSize) := List.perm_append_comm
        rwa [List.take_append_drop] at happend
      simpa [held] using hflying.move (hcut.append_right others)

end ConcurrentPhase

end RocketMQClient.Consumer
