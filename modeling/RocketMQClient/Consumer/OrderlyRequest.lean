import Mathlib.Algebra.Ring.Int.Defs
import Mathlib.Tactic.Common
import RocketMQClient.Consumer.OrderlyConsume
import RocketMQClient.Library.TaskPool

/-!
# Orderly consume requests

`ConsumeOrderlyRequest::Do` takes the lock of its message queue, looks whether the queue is locked
at the broker, and loops: it looks whether the queue is dropped, whether it is still locked and for
how long, takes a batch, gives it to the listener and acts on the result. A request that has to wait
hands over to a timer, either one that asks the broker for the lock first
(`TryLockLaterAndReconsume`) or one that submits a new request (`SubmitConsumeRequestLaterOrderly`).

`RequestPhase.advance` is one step of a request or of a timer: every check of the source reads the
queue in a step of its own, and `takeMessags` is its locked section and, when it took nothing, the
step that clears the consuming flag. `orderlyRequestSystem` interleaves the requests of one process
queue with the pull callback, which stores messages and submits a request when `putMessage` says so,
the rebalance thread and the locking of the queue.
-/

set_option autoImplicit false
set_option relaxedAutoImplicit false

namespace RocketMQClient.Consumer

open Library Messages

/-! ### The operations of the source -/

/-- How long a client trusts a lock of the broker, in milliseconds. -/
def rebalanceLockMaxLiveTime : ℤ := 30000

/-- How long a request consumes without a break, in milliseconds. -/
def maxTimeConsumeContinuously : ℤ := 60000

namespace ProcessQueue

/-- Whether the lock is too old; the difference is one of unsigned 64-bit numbers. -/
def isLockExpired (queue : ProcessQueue) (now : ℤ) : Bool :=
  decide ((now - queue.lastLockTimestamp) % 2 ^ 64 > rebalanceLockMaxLiveTime)

/-- What `lock`, `lockAll` and `unlockAll` write. -/
def setLocked (queue : ProcessQueue) (locked : Bool) (now : ℤ) : ProcessQueue :=
  { queue with
    locked := locked
    lastLockTimestamp := if locked then now else queue.lastLockTimestamp }

/-- The second step of a `takeMessags` that took nothing. -/
def clearConsuming (queue : ProcessQueue) : ProcessQueue := { queue with consuming := false }

end ProcessQueue

/-- Where a request or a timer is. The time in a phase of the loop is `beginTime`. -/
inductive RequestPhase where
  /-- In the executor, or waiting for the lock of the message queue. -/
  | queued
  | entered
  /-- `isLocked` was true before the loop. -/
  | entering
  | looping (beginTime : ℤ)
  /-- `isDroped` was false. -/
  | notDroped (beginTime : ℤ)
  /-- `isLocked` was true, or the consumption is broadcast. -/
  | locked (beginTime : ℤ)
  /-- `isLockExpired` was false, or the consumption is broadcast. -/
  | unexpired (beginTime : ℤ)
  | taking (beginTime : ℤ)
  | listening (beginTime : ℤ) (msgs : List MessageExt)
  /-- `takeMessags` took nothing and has the consuming flag to clear. -/
  | clearing
  /-- Out of the loop, with the lock of the message queue to release. -/
  | leaving
  | finished
  /-- A `TryLockLaterAndReconsume` in the timer. -/
  | tryLockLater
  /-- A `SubmitConsumeRequestLaterOrderly` in the timer. -/
  | submitLater
  deriving DecidableEq

/-- What a step reads from outside: the clock, what the listener returned and its `autoCommit`. -/
structure RequestInput where
  now : ℤ
  returned : Option ConsumeOrderlyStatus
  autoCommit : Bool

/-- The process queue after a step of a request, its next phase and what it submits. -/
structure RequestOutcome where
  processQueue : ProcessQueue
  phase : RequestPhase
  submitted : List RequestPhase

namespace RequestPhase

/-- One step of a request or of a timer. -/
def advance (messageModel : MessageModel) (batchSize : ℤ) (queue : ProcessQueue)
    (input : RequestInput) : RequestPhase → RequestOutcome
  | .queued => ⟨queue, .entered, []⟩
  | .entered =>
    if messageModel = .broadcasting then ⟨queue, .looping input.now, []⟩
    else if queue.locked then ⟨queue, .entering, []⟩
    else ⟨queue, .leaving, [.tryLockLater]⟩
  | .entering =>
    if queue.isLockExpired input.now then ⟨queue, .leaving, [.tryLockLater]⟩
    else ⟨queue, .looping input.now, []⟩
  | .looping beginTime =>
    if queue.droped then ⟨queue, .leaving, []⟩ else ⟨queue, .notDroped beginTime, []⟩
  | .notDroped beginTime =>
    if messageModel = .clustering ∧ queue.locked = false then
      ⟨queue, .leaving, [.tryLockLater]⟩
    else ⟨queue, .locked beginTime, []⟩
  | .locked beginTime =>
    if messageModel = .clustering ∧ queue.isLockExpired input.now = true then
      ⟨queue, .leaving, [.tryLockLater]⟩
    else ⟨queue, .unexpired beginTime, []⟩
  | .unexpired beginTime =>
    if input.now - beginTime > maxTimeConsumeContinuously then
      ⟨queue, .leaving, [.submitLater]⟩
    else ⟨queue, .taking beginTime, []⟩
  | .taking beginTime =>
    let taken := queue.takeLocked batchSize
    ⟨taken.2, if taken.1.isEmpty then .clearing else .listening beginTime taken.1, []⟩
  | .listening beginTime msgs =>
    let outcome :=
      processConsumeResult msgs (listenerStatus input.returned) input.autoCommit queue
    ⟨outcome.processQueue, if outcome.continueConsume then .looping beginTime else .leaving,
      if outcome.submitLater then [.submitLater] else []⟩
  | .clearing => ⟨queue.clearConsuming, .leaving, []⟩
  | .leaving => ⟨queue, .finished, []⟩
  | .finished => ⟨queue, .finished, []⟩
  | .tryLockLater => ⟨queue, .submitLater, []⟩
  | .submitLater => ⟨queue, .queued, []⟩

/-- The request holds the lock of its message queue. -/
def holdsLock : RequestPhase → Bool
  | .queued | .finished | .tryLockLater | .submitLater => false
  | _ => true

/-- The request or timer is still to consume: it has neither ended nor handed over. -/
def carries : RequestPhase → Bool
  | .leaving | .finished => false
  | _ => true

/-- The request finds the queue dropped in its next step. -/
def leavesDroped (queue : ProcessQueue) : RequestPhase → Bool
  | .looping _ => queue.droped
  | _ => false

end RequestPhase

/-! ### The event system -/

/-- A process queue with its requests and timers, and the number of pull callbacks whose
`putMessage` asked for a request that they have not submitted yet. -/
structure OrderlyRequestState where
  processQueue : ProcessQueue
  requests : List RequestPhase
  submitting : ℕ
  deriving DecidableEq

/-- The steps of the pull callback, of the requests and timers, and of the threads that drop the
queue and lock it. -/
inductive OrderlyRequestEvent where
  | putMessage (msgs : List MessageExt)
  | submitConsumeRequest
  | request (index : ℕ) (input : RequestInput)
  | setDroped
  | setLocked (locked : Bool) (now : ℤ)

namespace OrderlyRequestState

/-- A new process queue without requests. -/
def initial (now : ℤ) : OrderlyRequestState := ⟨ProcessQueue.new now, [], 0⟩

/-- The state after a step of a request. -/
def afterRequest (messageModel : MessageModel) (batchSize : ℤ) (state : OrderlyRequestState)
    (index : ℕ) (phase : RequestPhase) (input : RequestInput) : OrderlyRequestState :=
  let outcome := phase.advance messageModel batchSize state.processQueue input
  { state with
    processQueue := outcome.processQueue
    requests := advanceTask state.requests index outcome.phase outcome.submitted }

/-- One step, for a message model and a batch size. A queued request starts when nobody holds the
lock of the message queue. -/
def step (messageModel : MessageModel) (batchSize : ℤ) (state : OrderlyRequestState) :
    OrderlyRequestEvent → Option OrderlyRequestState
  | .putMessage msgs =>
    some { state with
      processQueue := (state.processQueue.putMessage msgs).2
      submitting := if (state.processQueue.putMessage msgs).1 then state.submitting + 1
        else state.submitting }
  | .submitConsumeRequest =>
    if 0 < state.submitting then
      some { state with
        submitting := state.submitting - 1
        requests := state.requests ++ [.queued] }
    else none
  | .request index input =>
    (state.requests[index]?).bind fun phase ↦
      if phase = .queued ∧ state.requests.any RequestPhase.holdsLock = true then none
      else some (state.afterRequest messageModel batchSize index phase input)
  | .setDroped => some { state with processQueue := state.processQueue.setDroped true }
  | .setLocked locked now =>
    some { state with processQueue := state.processQueue.setLocked locked now }

/-- The tokens of the queue: the requests and timers still to consume, and those to be submitted. -/
def tokens (state : OrderlyRequestState) : ℕ :=
  state.submitting + state.requests.countP RequestPhase.carries

end OrderlyRequestState

/-- The requests of one process queue. -/
def orderlyRequestSystem (messageModel : MessageModel) (batchSize : ℤ) :
    EventSystem OrderlyRequestState OrderlyRequestEvent :=
  ⟨OrderlyRequestState.step messageModel batchSize⟩

/-! ### One step of a request -/

/-- `processConsumeResult` does not touch the flags of the queue. -/
theorem processConsumeResult_flags (msgs : List MessageExt) (status : ConsumeOrderlyStatus)
    (autoCommit : Bool) (queue : ProcessQueue) :
    let outcome := processConsumeResult msgs status autoCommit queue
    outcome.processQueue.consuming = queue.consuming ∧
      outcome.processQueue.droped = queue.droped ∧
      outcome.processQueue.locked = queue.locked := by
  have hcommit : queue.commit.2.consuming = queue.consuming ∧
      queue.commit.2.droped = queue.droped ∧ queue.commit.2.locked = queue.locked := by
    unfold ProcessQueue.commit
    cases queue.msgTreeMapTemp.last? <;> exact ⟨rfl, rfl, rfl⟩
  have hagain : (queue.makeMessageToCosumeAgain msgs).consuming = queue.consuming ∧
      (queue.makeMessageToCosumeAgain msgs).droped = queue.droped ∧
      (queue.makeMessageToCosumeAgain msgs).locked = queue.locked := by
    rw [ProcessQueue.makeMessageToCosumeAgain_eq]
    exact ⟨rfl, rfl, rfl⟩
  cases autoCommit <;> cases status <;>
    first
      | exact hcommit
      | exact hagain
      | exact ⟨rfl, rfl, rfl⟩

/-- A batch continues or is submitted again later. -/
theorem processConsumeResult_submitLater (msgs : List MessageExt) (status : ConsumeOrderlyStatus)
    (autoCommit : Bool) (queue : ProcessQueue) :
    (processConsumeResult msgs status autoCommit queue).submitLater =
      !(processConsumeResult msgs status autoCommit queue).continueConsume := by
  cases autoCommit <;> cases status <;> rfl

namespace RequestPhase

variable (messageModel : MessageModel) (batchSize : ℤ) (queue : ProcessQueue) (input : RequestInput)

/-- The steps that touch the process queue. -/
theorem advance_processQueue (phase : RequestPhase) :
    (phase.advance messageModel batchSize queue input).processQueue =
      match phase with
      | .taking _ => (queue.takeLocked batchSize).2
      | .listening _ msgs => (processConsumeResult msgs (listenerStatus input.returned)
          input.autoCommit queue).processQueue
      | .clearing => queue.clearConsuming
      | _ => queue := by
  cases phase <;> simp only [advance] <;> (repeat' split) <;> rfl

/-- No request drops the queue, and only one that took nothing clears the consuming flag. -/
theorem advance_flags (phase : RequestPhase) :
    (phase.advance messageModel batchSize queue input).processQueue.droped = queue.droped ∧
      (phase.advance messageModel batchSize queue input).processQueue.locked = queue.locked ∧
      (phase ≠ .clearing →
        (phase.advance messageModel batchSize queue input).processQueue.consuming =
          queue.consuming) := by
  rw [advance_processQueue]
  cases phase with
  | listening beginTime msgs =>
    obtain ⟨hconsuming, hdroped, hlocked⟩ := processConsumeResult_flags msgs
      (listenerStatus input.returned) input.autoCommit queue
    exact ⟨hdroped, hlocked, fun _ ↦ hconsuming⟩
  | taking beginTime =>
    show (queue.takeLocked batchSize).2.droped = _ ∧ (queue.takeLocked batchSize).2.locked = _ ∧
      (_ → (queue.takeLocked batchSize).2.consuming = _)
    rw [ProcessQueue.takeLocked_eq]
    exact ⟨rfl, rfl, fun _ ↦ rfl⟩
  | clearing => exact ⟨rfl, rfl, fun hne ↦ absurd rfl hne⟩
  | _ => exact ⟨rfl, rfl, fun _ ↦ rfl⟩

/-- A step neither makes nor loses a token, unless the request finds the queue dropped. -/
theorem advance_balance {phase : RequestPhase} (hclearing : phase ≠ .clearing)
    (hleaves : phase.leavesDroped queue = false) :
    (phase.advance messageModel batchSize queue input).phase.carries.toNat +
        (phase.advance messageModel batchSize queue input).submitted.countP carries =
      phase.carries.toNat := by
  cases phase with
  | clearing => exact absurd rfl hclearing
  | looping beginTime =>
    have hlive : queue.droped = false := hleaves
    simp only [advance, hlive]
    rfl
  | listening beginTime msgs =>
    have hlater := processConsumeResult_submitLater msgs (listenerStatus input.returned)
      input.autoCommit queue
    simp only [advance, hlater]
    cases (processConsumeResult msgs (listenerStatus input.returned) input.autoCommit
      queue).continueConsume <;> rfl
  | _ =>
    simp only [advance]
    (repeat' split) <;> rfl

/-- Only a step of the listener gives messages back to the tree map. -/
theorem advance_tree {phase : RequestPhase}
    (hlistening : ∀ beginTime msgs, phase ≠ .listening beginTime msgs)
    (hempty : queue.msgTreeMap.isEmpty = true) :
    (phase.advance messageModel batchSize queue input).processQueue.msgTreeMap.isEmpty = true := by
  rw [advance_processQueue]
  cases phase with
  | listening beginTime msgs => exact absurd rfl (hlistening beginTime msgs)
  | taking beginTime =>
    have hnil : queue.msgTreeMap.entries = [] := List.isEmpty_iff.mp hempty
    show (queue.takeLocked batchSize).2.msgTreeMap.isEmpty = true
    rw [ProcessQueue.takeLocked_eq, OrderedMap.isEmpty, OrderedMap.entries_dropFirst, hnil,
      List.drop_nil]
    rfl
  | _ => exact hempty

/-- A batch of at least one message is taken unless the tree map is empty. -/
theorem advance_clearing {phase : RequestPhase} (hbatch : 1 ≤ batchSize)
    (hclearing : (phase.advance messageModel batchSize queue input).phase = .clearing) :
    (phase.advance messageModel batchSize queue input).processQueue.msgTreeMap.isEmpty = true := by
  cases phase with
  | taking beginTime =>
    simp only [advance, ProcessQueue.takeLocked_eq] at hclearing ⊢
    split at hclearing
    · rename_i hempty
      have hpos : batchSize.toNat ≠ 0 := by omega
      have hnil : queue.msgTreeMap.entries = [] := by
        rw [List.isEmpty_iff, List.map_eq_nil_iff, List.take_eq_nil_iff] at hempty
        exact hempty.resolve_left hpos
      rw [OrderedMap.isEmpty, OrderedMap.entries_dropFirst, hnil, List.drop_nil]
      rfl
    · exact absurd hclearing (by simp)
  | _ =>
    simp only [advance] at hclearing
    (repeat' split at hclearing) <;> simp at hclearing

/-- A request submits timers only. -/
theorem advance_submitted {phase submitted : RequestPhase}
    (hsubmitted : submitted ∈ (phase.advance messageModel batchSize queue input).submitted) :
    submitted = .tryLockLater ∨ submitted = .submitLater := by
  cases phase <;> simp only [advance] at hsubmitted <;> (repeat' split at hsubmitted) <;>
    simp_all

end RequestPhase

/-- The step of a request, taken apart. -/
theorem orderlyRequest_cases {messageModel : MessageModel} {batchSize : ℤ}
    {state next : OrderlyRequestState} {index : ℕ} {input : RequestInput}
    (hstep : (orderlyRequestSystem messageModel batchSize).step state (.request index input) =
      some next) :
    ∃ phase, state.requests[index]? = some phase ∧
      (phase = .queued → state.requests.any RequestPhase.holdsLock = false) ∧
      next = state.afterRequest messageModel batchSize index phase input := by
  obtain ⟨phase, hget, hphase⟩ := Option.bind_eq_some_iff.mp hstep
  obtain ⟨hfree, hnext⟩ := Option.ite_none_left_eq_some.mp hphase
  refine ⟨phase, hget, fun hqueued ↦ ?_, (Option.some.inj hnext).symm⟩
  exact Bool.eq_false_of_not_eq_true fun hheld ↦ hfree ⟨hqueued, hheld⟩

end RocketMQClient.Consumer
