import RocketMQClient.Consumer.ConcurrentRequest
import RocketMQClient.Consumer.OrderlyToken
import RocketMQClient.Consumer.PullRequest

/-!
# The release of a queue

A pull request owns its message queue and its process queue: `pullMessage` deletes all three when
the process queue is dropped and its tree map is empty. `queueLifeSystem` is the life of one pull
request: the rebalance thread, which marks the process queue as dropped and erases its entry from
the table some steps later, the pull service, the asynchronous pull with its callback, the timers,
and the consume requests of either service. Messages that a pull returns have offsets that are
distinct and not held, since a pull asks for the offset after the last message of the one before.

The tree map says little about who still uses the queues (`queue_released_while_listening`): the
entry may still be in the table, a batch in order lies in the temporary map while the listener has
it, and a concurrent request still has to store its offset under the message queue when it has
emptied the tree map. A delete leaves no reference exactly when the pass of the rebalance is over,
the loop of orderly consumption has come to an end, and no concurrent request lives without messages
(`Releasable`, `released_queue_unreferenced`).

Each consume service has an invariant of its own. Orderly consumption has one token for the queue
while the consuming flag is on (`OrderlyLife`); in concurrent consumption every message of a
request, a timer or the callback is held in the tree map (`ConcurrentLife`). What a delete leaves is
computed from them at the state before it (`LifeInvariant.unreferenced_iff`), so that `Releasable`
is a condition on that state and not on what happens later.
-/

set_option autoImplicit false
set_option relaxedAutoImplicit false

namespace RocketMQClient.Consumer

open Library Messages

/-! ### The event system -/

/-- The settings of the consumer that the life of a queue depends on. -/
structure LifeConfig where
  pull : PullConfig
  messageModel : MessageModel
  consumeMessageBatchMaxSize : ℤ

/-- Where the pull request is. -/
inductive PullPlace where
  /-- In the queue of the pull service. -/
  | queued
  /-- `pullMessage` has been called. -/
  | entered
  /-- `pullMessage` has found the process queue not dropped. -/
  | checked
  /-- In a timer that puts it back into the queue of the pull service. -/
  | later
  /-- With the callback of an asynchronous pull. -/
  | registered
  /-- With the callback, which has stored messages and is inside `submitConsumeRequest`. -/
  | submitting (msgs : List MessageExt) (dispathToConsume : Bool)
  /-- In the timer that corrects an illegal offset. -/
  | correcting
  /-- Nowhere, and not deleted. -/
  | lost
  | deleted
  deriving DecidableEq

/-- The process queue with its orderly requests, the concurrent requests, the place of the pull
request, whether the entry is in the table, whether a rebalance is between `setDroped` and the erase
of the entry, and whether an orderly request has left because the queue was dropped. -/
structure QueueLifeState where
  orderly : OrderlyRequestState
  concurrent : List ConcurrentPhase
  place : PullPlace
  inTable : Bool
  removing : Bool
  discarded : Bool

/-- The steps of the rebalance thread, pull service, network, timers and requests. -/
inductive QueueLifeEvent where
  | setDroped
  | eraseEntry
  | setLocked (locked : Bool) (now : ℤ)
  | takeFront
  | checkDroped
  | pullMessage (environment : PullEnvironment)
  | pullMessageLater
  | operationComplete (response : Option PullResponse)
  /-- One round of the loop of `submitConsumeRequest` in the callback. -/
  | submitConsumeRequest
  | executePullTaskLater
  | orderlyRequest (index : ℕ) (input : RequestInput)
  | concurrentRequest (index : ℕ) (result : ConsumeConcurrentlyResult)

namespace QueueLifeState

/-- A pull request that a rebalance has just created. -/
def initial (now : ℤ) : QueueLifeState where
  orderly := OrderlyRequestState.initial now
  concurrent := []
  place := .queued
  inTable := true
  removing := false
  discarded := false

/-- The process queue of the pull request. -/
def processQueue (state : QueueLifeState) : ProcessQueue := state.orderly.processQueue

/-- The process queue is overwritten. -/
def setProcessQueue (state : QueueLifeState) (queue : ProcessQueue) : QueueLifeState :=
  { state with orderly := { state.orderly with processQueue := queue } }

/-- Messages that a pull may return: distinct and not held. -/
def Fresh (state : QueueLifeState) (msgs : List MessageExt) : Prop :=
  (msgs.map MessageExt.queueOffset).Nodup ∧
    ∀ msg ∈ msgs, msg.queueOffset ∉ state.processQueue.msgTreeMap

instance (state : QueueLifeState) (msgs : List MessageExt) : Decidable (state.Fresh msgs) :=
  inferInstanceAs (Decidable (_ ∧ _))

/-- The pull request goes back to the pull service after a pull that found messages. -/
def afterFound (config : LifeConfig) : PullPlace :=
  if config.pull.pullInterval > 0 then .later else .queued

/-- The messages of a pull are stored. Orderly consumption counts the request that `putMessage` asks
for, concurrent consumption ignores it. -/
def found (config : LifeConfig) (state : QueueLifeState) (msgs : List MessageExt) :
    QueueLifeState :=
  let put := state.processQueue.putMessage msgs
  { state with
    orderly := { state.orderly with
      processQueue := put.2
      submitting := if config.pull.consumeOrderly && put.1 then state.orderly.submitting + 1
        else state.orderly.submitting }
    place := .submitting msgs put.1 }

/-- The callback of an asynchronous pull, up to the storing of messages. -/
def operationComplete (config : LifeConfig) (state : QueueLifeState)
    (response : Option PullResponse) : Option QueueLifeState :=
  match response.bind fun reply ↦ (processPullResponse reply).map fun status ↦ (status, reply) with
  | none => some { state with place := .later }
  | some (.found, reply) =>
    if state.Fresh reply.msgFoundList then some (state.found config reply.msgFoundList) else none
  | some (.noNewMsg, _) | some (.noMatchedMsg, _) => some { state with place := .queued }
  | some (.offsetIllegal, _) =>
    some { state.setProcessQueue (state.processQueue.setDroped true) with place := .correcting }

/-- `submitConsumeRequest` of the orderly service, or one round of the concurrent one. -/
def submitConsumeRequest (config : LifeConfig) (state : QueueLifeState) (msgs : List MessageExt)
    (dispathToConsume : Bool) : QueueLifeState :=
  if config.pull.consumeOrderly then
    { state with
      place := afterFound config
      orderly := if dispathToConsume then { state.orderly with
          submitting := state.orderly.submitting - 1
          requests := state.orderly.requests ++ [.queued] }
        else state.orderly }
  else if msgs.isEmpty then { state with place := afterFound config }
  else
    { state with
      place := .submitting (msgs.drop config.consumeMessageBatchMaxSize.toNat) dispathToConsume
      concurrent := state.concurrent ++
        [.queued (msgs.take config.consumeMessageBatchMaxSize.toNat)] }

/-- Where `pullMessage` takes a pull request whose process queue is not dropped. -/
def pullMessage (config : LifeConfig) (state : QueueLifeState) (environment : PullEnvironment) :
    PullPlace :=
  match pullPostponed config.pull environment state.processQueue with
  | some _ => .later
  | none =>
    match pullKernelImpl environment.network with
    | none => .later
    | some .unused => .lost
    | some .executed => .later
    | some .registered => .registered

/-- One step. -/
def step (config : LifeConfig) (state : QueueLifeState) : QueueLifeEvent → Option QueueLifeState
  | .setDroped =>
    if state.inTable = true ∧ state.removing = false then
      some { state.setProcessQueue (state.processQueue.setDroped true) with removing := true }
    else none
  | .eraseEntry =>
    if state.removing then some { state with inTable := false, removing := false } else none
  | .setLocked locked now =>
    if state.inTable then some (state.setProcessQueue (state.processQueue.setLocked locked now))
    else none
  | .takeFront => if state.place = .queued then some { state with place := .entered } else none
  | .checkDroped =>
    if state.place = .entered then
      some { state with place :=
        if state.processQueue.droped then
          if state.processQueue.msgTreeMap.isEmpty then .deleted else .later
        else .checked }
    else none
  | .pullMessage environment =>
    if state.place = .checked then some { state with place := state.pullMessage config environment }
    else none
  | .pullMessageLater => if state.place = .later then some { state with place := .queued } else none
  | .operationComplete response =>
    if state.place = .registered then state.operationComplete config response else none
  | .submitConsumeRequest =>
    match state.place with
    | .submitting msgs dispathToConsume =>
      some (state.submitConsumeRequest config msgs dispathToConsume)
    | _ => none
  | .executePullTaskLater =>
    if state.place = .correcting then some { state with place := .lost, inTable := false } else none
  | .orderlyRequest index input =>
    (state.orderly.requests[index]?).bind fun phase ↦
      if phase = .queued ∧ state.orderly.requests.any RequestPhase.holdsLock = true then none
      else some { state with
        orderly := state.orderly.afterRequest config.messageModel
          config.consumeMessageBatchMaxSize index phase input
        discarded := state.discarded || phase.leavesDroped state.processQueue }
  | .concurrentRequest index result =>
    (state.concurrent[index]?).map fun phase ↦
      let outcome := phase.advance config.messageModel
        config.consumeMessageBatchMaxSize.toNat state.processQueue result
      { state.setProcessQueue outcome.processQueue with
        concurrent := advanceTask state.concurrent index outcome.phase outcome.submitted }

end QueueLifeState

/-- The life of a pull request and its queues. -/
def queueLifeSystem (config : LifeConfig) : EventSystem QueueLifeState QueueLifeEvent :=
  ⟨QueueLifeState.step config⟩

/-! ### References -/

namespace QueueLifeState

/-- No request is running, queued or in a timer, no callback has the pull request, and no entry of
the table leads to the process queue. -/
structure Unreferenced (state : QueueLifeState) : Prop where
  orderly : ∀ phase ∈ state.orderly.requests, phase = .finished
  concurrent : ∀ phase ∈ state.concurrent, phase = .finished
  callback : state.place ≠ .registered ∧
    ∀ msgs dispathToConsume, state.place ≠ .submitting msgs dispathToConsume
  table : state.inTable = false

/-- The pass of the rebalance is over; orderly consumption has cleared the consuming flag or left at
its look at the dropped flag, and nobody holds the lock of the message queue; and no concurrent
request or timer lives that has no message to remove. -/
structure Releasable (config : LifeConfig) (state : QueueLifeState) : Prop where
  pass : state.removing = false
  loop : config.pull.consumeOrderly = true →
    (state.processQueue.consuming = false ∨ state.discarded = true) ∧
      state.orderly.requests.any RequestPhase.holdsLock = false
  tail : config.pull.consumeOrderly = false →
    ∀ phase ∈ state.concurrent, phase.held = [] → phase = .finished

instance (config : LifeConfig) (state : QueueLifeState) : Decidable (state.Releasable config) :=
  decidable_of_iff
    (state.removing = false ∧
      (config.pull.consumeOrderly = true →
        (state.processQueue.consuming = false ∨ state.discarded = true) ∧
          state.orderly.requests.any RequestPhase.holdsLock = false) ∧
      (config.pull.consumeOrderly = false →
        ∀ phase ∈ state.concurrent, phase.held = [] → phase = .finished))
    ⟨fun hall ↦ ⟨hall.1, hall.2.1, hall.2.2⟩, fun hall ↦ ⟨hall.pass, hall.loop, hall.tail⟩⟩

/-- The dropped branch of `pullMessage` deletes only what is releasable. -/
def DeletesReleasable (config : LifeConfig) (state : QueueLifeState) : QueueLifeEvent → Prop
  | .checkDroped => state.processQueue.droped = true →
      state.processQueue.msgTreeMap.isEmpty = true → state.Releasable config
  | _ => True

instance (config : LifeConfig) (state : QueueLifeState) (event : QueueLifeEvent) :
    Decidable (state.DeletesReleasable config event) :=
  match event with
  | .checkDroped => inferInstanceAs (Decidable (_ → _))
  | .setDroped | .eraseEntry | .setLocked _ _ | .takeFront | .pullMessage _ | .pullMessageLater
  | .operationComplete _ | .submitConsumeRequest | .executePullTaskLater | .orderlyRequest _ _
  | .concurrentRequest _ _ => isTrue trivial

end QueueLifeState

/-! ### The invariant -/

/-- The messages that the callback has not submitted yet. -/
def PullPlace.held : PullPlace → List MessageExt
  | .submitting msgs _ => msgs
  | _ => []

/-- The callback is to submit an orderly request. -/
def PullPlace.dispatches : PullPlace → Bool
  | .submitting _ dispathToConsume => dispathToConsume
  | _ => false

/-- Orderly consumption: one token while the flag is on, until a dropped queue throws it away. -/
structure OrderlyLife (state : QueueLifeState) : Prop where
  concurrent : state.concurrent = []
  token : TokenInvariant state.orderly
  submitting : state.orderly.submitting = state.place.dispatches.toNat
  discarded : state.discarded = true → state.orderly.tokens = 0 ∧
    state.processQueue.consuming = true ∧ state.processQueue.droped = true
  carried : state.discarded = false → state.processQueue.consuming = true →
    state.orderly.tokens = 1

/-- Concurrent consumption: the messages of the requests, timers and callback are held. -/
structure ConcurrentLife (state : QueueLifeState) : Prop where
  requests : state.orderly.requests = []
  flying : DroppedState.Flying state.processQueue
    (state.concurrent.flatMap ConcurrentPhase.held ++ state.place.held)

/-- The invariant of the life of a queue. -/
structure LifeInvariant (config : LifeConfig) (state : QueueLifeState) : Prop where
  orderly : config.pull.consumeOrderly = true → OrderlyLife state
  concurrent : config.pull.consumeOrderly = false → ConcurrentLife state
  droped : state.processQueue.droped = true → state.removing = true ∨ state.inTable = false ∨
    state.place = .correcting ∨ state.place = .lost
  removing : state.removing = true → state.inTable = true ∨ state.place = .lost
  released : state.place = .deleted → state.Unreferenced

section Moves

variable {config : LifeConfig} {state next : QueueLifeState}

theorem OrderlyLife.of_same (hlife : OrderlyLife state) (horderly : next.orderly = state.orderly)
    (hconcurrent : next.concurrent = state.concurrent)
    (hdiscarded : next.discarded = state.discarded)
    (hplace : next.place.dispatches = state.place.dispatches) : OrderlyLife next where
  concurrent := hconcurrent.trans hlife.concurrent
  token := horderly ▸ hlife.token
  submitting := by rw [horderly, hplace, hlife.submitting]
  discarded := by
    rw [hdiscarded, QueueLifeState.processQueue, horderly]
    exact hlife.discarded
  carried := by
    rw [hdiscarded, QueueLifeState.processQueue, horderly]
    exact hlife.carried

theorem ConcurrentLife.of_same (hlife : ConcurrentLife state)
    (horderly : next.orderly = state.orderly) (hconcurrent : next.concurrent = state.concurrent)
    (hplace : next.place.held = state.place.held) : ConcurrentLife next where
  requests := horderly ▸ hlife.requests
  flying := by
    rw [QueueLifeState.processQueue, horderly, hconcurrent, hplace]
    exact hlife.flying

/-- The lock flags of the process queue change. -/
theorem OrderlyLife.of_lock (hlife : OrderlyLife state) (locked : Bool) (now : ℤ) :
    OrderlyLife (state.setProcessQueue (state.processQueue.setLocked locked now)) where
  concurrent := hlife.concurrent
  token := ⟨hlife.token.atMostOne, hlife.token.resting, hlife.token.present⟩
  submitting := hlife.submitting
  discarded := hlife.discarded
  carried := hlife.carried

/-- The process queue is dropped. -/
theorem OrderlyLife.of_drop (hlife : OrderlyLife state) {place : PullPlace} (removing : Bool)
    (hplace : place.dispatches = state.place.dispatches) :
    OrderlyLife { state.setProcessQueue (state.processQueue.setDroped true) with
      place := place, removing := removing } where
  concurrent := hlife.concurrent
  token := ⟨hlife.token.atMostOne, hlife.token.resting, fun hlive ↦ absurd hlive (by
    simp [QueueLifeState.setProcessQueue, ProcessQueue.setDroped])⟩
  submitting := hlife.submitting.trans (congrArg Bool.toNat hplace.symm)
  discarded := fun hdiscarded ↦
    ⟨(hlife.discarded hdiscarded).1, (hlife.discarded hdiscarded).2.1, rfl⟩
  carried := hlife.carried

/-- A place of the pull request in which no callback is inside `submitConsumeRequest`. -/
def PullPlace.Quiet (place : PullPlace) : Prop := place.held = [] ∧ place.dispatches = false

/-- The pull request has not been given up. -/
def PullPlace.Kept (place : PullPlace) : Prop := place ≠ .correcting ∧ place ≠ .lost

instance (place : PullPlace) : Decidable place.Kept := inferInstanceAs (Decidable (_ ∧ _))

/-- The queue of a kept pull request is dropped by a rebalance only. -/
theorem LifeInvariant.of_droped (hinvariant : LifeInvariant config state)
    (hkept : state.place.Kept) (hdroped : state.processQueue.droped = true) :
    state.removing = true ∨ state.inTable = false := by
  rcases hinvariant.droped hdroped with hremoving | habsent | hcorrecting | hlost
  · exact Or.inl hremoving
  · exact Or.inr habsent
  · exact absurd hcorrecting hkept.1
  · exact absurd hlost hkept.2

/-- A rebalance that has dropped the queue of a kept pull request finds its entry. -/
theorem LifeInvariant.of_removing (hinvariant : LifeInvariant config state)
    (hkept : state.place.Kept) (hremoving : state.removing = true) : state.inTable = true :=
  (hinvariant.removing hremoving).resolve_right hkept.2

/-- The pull request moves between two places, neither of which is its end. -/
theorem LifeInvariant.move (hinvariant : LifeInvariant config state) {before after : PullPlace}
    (hbefore : state.place = before) (hquiet : before.Quiet) (hkept : before.Kept)
    (hafter : after.Quiet) (hdeleted : after ≠ .deleted) :
    LifeInvariant config { state with place := after } := by
  subst hbefore
  refine ⟨fun hmode ↦ ?_, fun hmode ↦ ?_, fun hdroped ↦ ?_, fun hremoving ↦ ?_,
    fun hreleased ↦ absurd hreleased hdeleted⟩
  · exact (hinvariant.orderly hmode).of_same rfl rfl rfl (hafter.2.trans hquiet.2.symm)
  · exact (hinvariant.concurrent hmode).of_same rfl rfl (hafter.1.trans hquiet.1.symm)
  · exact (hinvariant.of_droped hkept hdroped).imp_right Or.inl
  · exact Or.inl (hinvariant.of_removing hkept hremoving)

/-- The lock flags of a process queue in the table change. -/
theorem LifeInvariant.of_lock (hinvariant : LifeInvariant config state) (hin : state.inTable = true)
    (locked : Bool) (now : ℤ) :
    LifeInvariant config
      (state.setProcessQueue (state.processQueue.setLocked locked now)) where
  orderly hmode := (hinvariant.orderly hmode).of_lock locked now
  concurrent hmode :=
    have hlife := hinvariant.concurrent hmode
    ⟨hlife.requests, ⟨hlife.flying.distinct, hlife.flying.held⟩⟩
  droped := hinvariant.droped
  removing := hinvariant.removing
  released hreleased := absurd ((hinvariant.released hreleased).table) (by simp [hin])

/-- The process queue is dropped, by a rebalance or by the callback of an illegal offset. -/
theorem LifeInvariant.of_drop (hinvariant : LifeInvariant config state) {place : PullPlace}
    {removing : Bool} (hplace : place.held = state.place.held)
    (hdispatches : place.dispatches = state.place.dispatches) (hdeleted : place ≠ .deleted)
    (hreason : removing = true ∨ place = .correcting)
    (hin : removing = true → state.inTable = true) :
    LifeInvariant config { state.setProcessQueue (state.processQueue.setDroped true) with
      place := place, removing := removing } where
  orderly hmode := (hinvariant.orderly hmode).of_drop removing hdispatches
  concurrent hmode := by
    have hlife := hinvariant.concurrent hmode
    refine ⟨hlife.requests, ?_⟩
    show DroppedState.Flying (state.processQueue.setDroped true)
      (state.concurrent.flatMap ConcurrentPhase.held ++ place.held)
    rw [hplace]
    exact ⟨hlife.flying.distinct, hlife.flying.held⟩
  droped _ := by
    rcases hreason with hremoving | hcorrecting
    · exact Or.inl hremoving
    · exact Or.inr (Or.inr (Or.inl hcorrecting))
  removing hremoving := Or.inl (hin hremoving)
  released hreleased := absurd hreleased hdeleted

end Moves

/-! ### The delete -/

/-- With the tree map empty no request of the concurrent service has a message. -/
theorem ConcurrentLife.held_eq_nil {state : QueueLifeState} (hlife : ConcurrentLife state)
    (hempty : state.processQueue.msgTreeMap.isEmpty = true) {phase : ConcurrentPhase}
    (hphase : phase ∈ state.concurrent) : phase.held = [] := by
  rw [List.eq_nil_iff_forall_not_mem]
  intro msg hmsg
  have hheld : msg ∈ state.concurrent.flatMap ConcurrentPhase.held ++ state.place.held :=
    List.mem_append_left _ (List.mem_flatMap.mpr ⟨phase, hphase, hmsg⟩)
  exact OrderedMap.isEmpty_iff.mp hempty _ (hlife.flying.held msg hheld)

/-- A request that neither carries the token nor holds the lock has ended. -/
theorem RequestPhase.finished_of_idle {phase : RequestPhase} (hcarries : phase.carries = false)
    (hlock : phase.holdsLock = false) : phase = .finished := by
  cases phase with
  | finished => rfl
  | leaving => exact absurd hlock (by decide)
  | _ => exact absurd hcarries (by simp [RequestPhase.carries])

/-- With nothing that refers to it, a queue that is being entered is releasable. -/
theorem LifeInvariant.releasable {config : LifeConfig} {state : QueueLifeState}
    (hinvariant : LifeInvariant config state) (hplace : state.place = .entered)
    (hfree : ({ state with place := .deleted } : QueueLifeState).Unreferenced) :
    state.Releasable config := by
  refine ⟨?_, fun hmode ↦ ?_, fun _ phase hphase _ ↦ hfree.concurrent phase hphase⟩
  · by_contra hremoving
    have hin := hinvariant.of_removing (hplace ▸ by decide) (Bool.eq_true_of_not_eq_false hremoving)
    exact absurd (hfree.table.symm.trans hin) (by decide)
  · have hlife := hinvariant.orderly hmode
    have hnone : state.orderly.requests.countP RequestPhase.carries = 0 := by
      refine List.countP_eq_zero.mpr fun phase hphase ↦ ?_
      rw [hfree.orderly phase hphase]
      decide
    have hzero : state.orderly.tokens = 0 := by
      rw [OrderlyRequestState.tokens, hnone, hlife.submitting, hplace]
      rfl
    refine ⟨?_, List.any_eq_false.mpr fun phase hphase ↦ ?_⟩
    · by_contra hbusy
      rw [not_or] at hbusy
      have hone := hlife.carried (Bool.eq_false_of_not_eq_true hbusy.2)
        (Bool.eq_true_of_not_eq_false hbusy.1)
      omega
    · rw [hfree.orderly phase hphase]
      decide

/-- The orderly requests of a releasable queue have ended. -/
theorem OrderlyLife.finished {config : LifeConfig} {state : QueueLifeState}
    (hlife : OrderlyLife state) (hmode : config.pull.consumeOrderly = true)
    (hreleasable : state.Releasable config) {phase : RequestPhase}
    (hphase : phase ∈ state.orderly.requests) : phase = .finished := by
  obtain ⟨hended, hlock⟩ := hreleasable.loop hmode
  have hzero : state.orderly.tokens = 0 := by
    rcases hended with hoff | hdiscarded
    · exact hlife.token.resting hoff
    · exact (hlife.discarded hdiscarded).1
  have hnone : state.orderly.requests.countP RequestPhase.carries = 0 := by
    rw [OrderlyRequestState.tokens] at hzero
    omega
  exact RequestPhase.finished_of_idle
    (Bool.eq_false_of_not_eq_true (List.countP_eq_zero.mp hnone phase hphase))
    (Bool.eq_false_of_not_eq_true (List.any_eq_false.mp hlock phase hphase))

/-- A delete leaves no reference exactly when the queues are releasable. -/
theorem LifeInvariant.unreferenced_iff {config : LifeConfig} {state : QueueLifeState}
    (hinvariant : LifeInvariant config state) (hplace : state.place = .entered)
    (hdroped : state.processQueue.droped = true)
    (hempty : state.processQueue.msgTreeMap.isEmpty = true) :
    ({ state with place := .deleted } : QueueLifeState).Unreferenced ↔
      state.Releasable config := by
  refine ⟨hinvariant.releasable hplace, fun hreleasable ↦ ?_⟩
  refine ⟨fun phase hphase ↦ ?_, fun phase hphase ↦ ?_, ⟨by simp, by simp⟩, ?_⟩
  · cases hmode : config.pull.consumeOrderly with
    | false =>
      have hnil : state.orderly.requests = [] := (hinvariant.concurrent hmode).requests
      exact absurd (hnil ▸ hphase) List.not_mem_nil
    | true => exact (hinvariant.orderly hmode).finished hmode hreleasable hphase
  · cases hmode : config.pull.consumeOrderly with
    | false =>
      exact hreleasable.tail hmode phase hphase
        ((hinvariant.concurrent hmode).held_eq_nil hempty hphase)
    | true =>
      have hnil : state.concurrent = [] := (hinvariant.orderly hmode).concurrent
      exact absurd (hnil ▸ hphase) List.not_mem_nil
  · refine (hinvariant.of_droped (hplace ▸ by decide) hdroped).resolve_left fun hremoving ↦ ?_
    exact absurd (hreleasable.pass.symm.trans hremoving) (by decide)

/-! ### The steps -/

section Steps

variable {config : LifeConfig} {state next : QueueLifeState}

/-- Distinct messages that are not held join those under way. -/
theorem flying_putMessage {queue : ProcessQueue} {msgs others : List MessageExt}
    (hflying : DroppedState.Flying queue others)
    (hdistinct : (msgs.map MessageExt.queueOffset).Nodup)
    (hfresh : ∀ msg ∈ msgs, msg.queueOffset ∉ queue.msgTreeMap) :
    DroppedState.Flying (queue.putMessage msgs).2 (others ++ msgs) where
  distinct := by
    rw [List.map_append]
    refine List.nodup_append.mpr ⟨hflying.distinct, hdistinct, ?_⟩
    rintro offset hother added hadded rfl
    obtain ⟨other, hmem, hoffset⟩ := List.mem_map.mp hother
    obtain ⟨msg, hmsg, rfl⟩ := List.mem_map.mp hadded
    exact hfresh msg hmsg (hoffset ▸ hflying.held other hmem)
  held := by
    intro msg hmsg
    rw [ProcessQueue.putMessage_msgTreeMap, OrderedMap.mem_assignAll]
    rcases List.mem_append.mp hmsg with hbefore | hadded
    · exact Or.inl (hflying.held msg hbefore)
    · exact Or.inr ⟨msg, hadded, rfl⟩

theorem OrderlyLife.found (hlife : OrderlyLife state) (hmode : config.pull.consumeOrderly = true)
    (hquiet : state.place.Quiet) (msgs : List MessageExt) :
    OrderlyLife (state.found config msgs) := by
  have hstep : (orderlyRequestSystem config.messageModel
      config.consumeMessageBatchMaxSize).step state.orderly (.putMessage msgs) =
      some (state.found config msgs).orderly := by
    rw [QueueLifeState.found, hmode, Bool.true_and]
    rfl
  have htoken := tokenInvariant_putMessage msgs hlife.token hstep
  have hzero : state.orderly.submitting = 0 := by
    rw [hlife.submitting, hquiet.2]
    rfl
  have hsubmitting : (state.found config msgs).orderly.submitting =
      (state.processQueue.putMessage msgs).1.toNat := by
    simp only [QueueLifeState.found, hmode, Bool.true_and, hzero]
    cases (state.processQueue.putMessage msgs).1 <;> rfl
  have htokens : (state.found config msgs).orderly.tokens =
      state.orderly.tokens + (state.processQueue.putMessage msgs).1.toNat := by
    rw [OrderlyRequestState.tokens, OrderlyRequestState.tokens, hsubmitting, hzero]
    exact (Nat.add_comm _ _).trans (congrArg (· + _) (Nat.zero_add _).symm)
  refine ⟨hlife.concurrent, htoken, hsubmitting, fun hdiscarded ↦ ?_, fun hkept hon ↦ ?_⟩
  · obtain ⟨hnone, hon, hdroped⟩ := hlife.discarded hdiscarded
    rcases putMessage_consuming state.processQueue msgs with ⟨-, hoff, -⟩ | ⟨hkeep, hsame, -⟩
    · exact absurd (hoff.symm.trans hon) (by decide)
    · refine ⟨?_, hsame.trans hon, (ProcessQueue.putMessage_droped _ msgs).trans hdroped⟩
      rw [htokens, hkeep, hnone]
      rfl
  · rcases putMessage_consuming state.processQueue msgs with
      ⟨hdispatch, hoff, -⟩ | ⟨hkeep, hsame, -⟩
    · rw [htokens, hdispatch, hlife.token.resting hoff]
      rfl
    · rw [htokens, hkeep, hlife.carried hkept (hsame.symm.trans hon)]
      rfl

/-- The callback stores the messages of a pull. -/
theorem LifeInvariant.found (hinvariant : LifeInvariant config state)
    (hplace : state.place = .registered) {msgs : List MessageExt} (hfresh : state.Fresh msgs) :
    LifeInvariant config (state.found config msgs) := by
  have hkept : state.place.Kept := by
    rw [hplace]
    decide
  refine ⟨fun hmode ↦ ?_, fun hmode ↦ ?_, fun hdroped ↦ ?_, fun hremoving ↦ ?_,
    fun hreleased ↦ absurd hreleased (by simp [QueueLifeState.found])⟩
  · exact (hinvariant.orderly hmode).found hmode (hplace ▸ ⟨rfl, rfl⟩) msgs
  · have hlife := hinvariant.concurrent hmode
    have hbefore : DroppedState.Flying state.processQueue
        (state.concurrent.flatMap ConcurrentPhase.held) := by
      have hflying := hlife.flying
      rw [hplace] at hflying
      simpa [PullPlace.held] using hflying
    exact ⟨hlife.requests, flying_putMessage hbefore hfresh.1 hfresh.2⟩
  · have hold : state.processQueue.droped = true :=
      (ProcessQueue.putMessage_droped state.processQueue msgs).symm.trans hdroped
    exact (hinvariant.of_droped hkept hold).imp_right Or.inl
  · exact Or.inl (hinvariant.of_removing hkept hremoving)

theorem OrderlyLife.submit (hlife : OrderlyLife state) {msgs : List MessageExt}
    {dispathToConsume : Bool} (hplace : state.place = .submitting msgs dispathToConsume)
    {place : PullPlace} (hquiet : place.Quiet) :
    OrderlyLife { state with
      place := place
      orderly := if dispathToConsume then { state.orderly with
          submitting := state.orderly.submitting - 1
          requests := state.orderly.requests ++ [.queued] }
        else state.orderly } := by
  have hsubmitting := hlife.submitting
  rw [hplace] at hsubmitting
  cases dispathToConsume with
  | false =>
    refine hlife.of_same rfl rfl rfl (hquiet.2.trans ?_)
    rw [hplace]
    rfl
  | true =>
    have hone : state.orderly.submitting = 1 := hsubmitting
    have htokens := tokens_submit (hone ▸ Nat.one_pos : 0 < state.orderly.submitting)
    refine ⟨hlife.concurrent, hlife.token.of_tokens rfl htokens, ?_, fun hdiscarded ↦ ?_,
      fun hkept hon ↦ ?_⟩
    · rw [hquiet.2]
      show state.orderly.submitting - 1 = 0
      omega
    · obtain ⟨hnone, hflags⟩ := hlife.discarded hdiscarded
      exact ⟨htokens.trans hnone, hflags⟩
    · exact htokens.trans (hlife.carried hkept hon)

theorem ConcurrentLife.submit (hlife : ConcurrentLife state) {msgs : List MessageExt}
    {dispathToConsume : Bool} (hplace : state.place = .submitting msgs dispathToConsume)
    (batchSize : ℕ) :
    ConcurrentLife { state with
      place := .submitting (msgs.drop batchSize) dispathToConsume
      concurrent := state.concurrent ++ [.queued (msgs.take batchSize)] } := by
  refine ⟨hlife.requests, ?_⟩
  have hflying := hlife.flying
  rw [hplace] at hflying
  refine hflying.move (List.Perm.of_eq ?_)
  simp [ConcurrentPhase.held, PullPlace.held]

/-- The callback submits the messages it has stored. -/
theorem LifeInvariant.submit (hinvariant : LifeInvariant config state) {msgs : List MessageExt}
    {dispathToConsume : Bool} (hplace : state.place = .submitting msgs dispathToConsume) :
    LifeInvariant config (state.submitConsumeRequest config msgs dispathToConsume) := by
  have hquiet : (QueueLifeState.afterFound config).Quiet := by
    rw [QueueLifeState.afterFound]
    split <;> exact ⟨rfl, rfl⟩
  have hafter : QueueLifeState.afterFound config ≠ .deleted := by
    rw [QueueLifeState.afterFound]
    split <;> simp
  have hkept : state.place.Kept := by
    rw [hplace]
    exact ⟨by simp, by simp⟩
  cases hmode : config.pull.consumeOrderly with
  | true =>
    simp only [QueueLifeState.submitConsumeRequest, hmode, if_true]
    refine ⟨fun _ ↦ (hinvariant.orderly hmode).submit hplace hquiet,
      fun hother ↦ absurd (hmode.symm.trans hother) (by decide), fun hdrop ↦ ?_,
      fun hpass ↦ Or.inl (hinvariant.of_removing hkept hpass),
      fun hdeleted ↦ absurd hdeleted hafter⟩
    have hold : state.processQueue.droped = true := by
      cases dispathToConsume <;> exact hdrop
    exact (hinvariant.of_droped hkept hold).imp_right Or.inl
  | false =>
    have hlife := hinvariant.concurrent hmode
    have hother : ¬ config.pull.consumeOrderly = true := by simp [hmode]
    by_cases hempty : msgs.isEmpty = true
    · simp only [QueueLifeState.submitConsumeRequest, hmode, hempty, if_true, Bool.false_eq_true,
        if_false]
      refine ⟨fun horderly ↦ absurd horderly hother, fun _ ↦ hlife.of_same rfl rfl ?_,
        fun hdrop ↦ (hinvariant.of_droped hkept hdrop).imp_right Or.inl,
        fun hpass ↦ Or.inl (hinvariant.of_removing hkept hpass),
        fun hdeleted ↦ absurd hdeleted hafter⟩
      rw [hquiet.1, hplace]
      exact (List.isEmpty_iff.mp hempty).symm
    · simp only [QueueLifeState.submitConsumeRequest, hmode, hempty, Bool.false_eq_true, if_false]
      exact ⟨fun horderly ↦ absurd horderly hother, fun _ ↦ hlife.submit hplace _,
        fun hdrop ↦ (hinvariant.of_droped hkept hdrop).imp_right Or.inl,
        fun hpass ↦ Or.inl (hinvariant.of_removing hkept hpass),
        fun hdeleted ↦ absurd hdeleted (by simp)⟩

/-- A request takes its token away when it clears the flag or leaves a dropped queue. -/
theorem OrderlyLife.request (hlife : OrderlyLife state) {index : ℕ} {phase : RequestPhase}
    (messageModel : MessageModel) (batchSize : ℤ) (input : RequestInput)
    (hget : state.orderly.requests[index]? = some phase) :
    OrderlyLife { state with
      orderly := state.orderly.afterRequest messageModel batchSize index phase input
      discarded := state.discarded || phase.leavesDroped state.processQueue } := by
  have hdroped := (RequestPhase.advance_flags messageModel batchSize state.processQueue input
    phase).1
  have hone := hlife.token.atMostOne
  refine ⟨hlife.concurrent, tokenInvariant_afterRequest input hlife.token hget,
    hlife.submitting, fun hdiscarded ↦ ?_, fun hkept hon ↦ ?_⟩
  · rcases afterRequest_cases messageModel batchSize input hget with
      ⟨rfl, htokens, -⟩ | ⟨hleaves, htokens, hflag⟩ | ⟨-, hstays, htokens, hflag⟩
    · have hbefore : state.discarded = true := by
        simpa [RequestPhase.leavesDroped] using hdiscarded
      have hnone := (hlife.discarded hbefore).1
      omega
    · have hon : state.processQueue.consuming = true := by
        by_contra hoff
        have hnone := hlife.token.resting (Bool.eq_false_of_not_eq_true hoff)
        omega
      have hnone : (state.orderly.afterRequest messageModel batchSize index phase input).tokens =
          0 := by omega
      refine ⟨hnone, hflag.trans hon, hdroped.trans ?_⟩
      cases phase with
      | looping beginTime => exact hleaves
      | _ => exact absurd hleaves (by simp [RequestPhase.leavesDroped])
    · have hbefore : state.discarded = true := by
        have hstays' : phase.leavesDroped state.processQueue = false := hstays
        simpa [hstays'] using hdiscarded
      obtain ⟨hnone, hon, hdrop⟩ := hlife.discarded hbefore
      exact ⟨htokens.trans hnone, hflag.trans hon, hdroped.trans hdrop⟩
  · obtain ⟨hbefore, hstays⟩ := Bool.or_eq_false_iff.mp hkept
    rcases afterRequest_cases messageModel batchSize input hget with
      ⟨-, -, hoff⟩ | ⟨hleaves, -, -⟩ | ⟨-, -, htokens, hflag⟩
    · exact absurd (hoff.symm.trans hon) (by decide)
    · exact absurd (hstays.symm.trans hleaves) (by decide)
    · exact htokens.trans (hlife.carried hbefore (hflag.symm.trans hon))

/-- A step of an orderly request. -/
theorem LifeInvariant.orderlyRequest (hinvariant : LifeInvariant config state) {index : ℕ}
    {phase : RequestPhase} (input : RequestInput)
    (hget : state.orderly.requests[index]? = some phase) :
    LifeInvariant config { state with
      orderly := state.orderly.afterRequest config.messageModel
        config.consumeMessageBatchMaxSize index phase input
      discarded := state.discarded || phase.leavesDroped state.processQueue } := by
  have hflags := RequestPhase.advance_flags config.messageModel config.consumeMessageBatchMaxSize
    state.processQueue input phase
  refine ⟨fun hmode ↦ ?_, fun hmode ↦ ?_, fun hdrop ↦ ?_, hinvariant.removing, fun hdeleted ↦ ?_⟩
  · exact (hinvariant.orderly hmode).request _ _ input hget
  · have hnil := (hinvariant.concurrent hmode).requests
    simp [hnil] at hget
  · exact hinvariant.droped (hflags.1.symm.trans hdrop)
  · have hfree := hinvariant.released hdeleted
    obtain rfl := hfree.orderly phase (List.mem_of_getElem? hget)
    refine ⟨fun found hfound ↦ ?_, hfree.concurrent, hfree.callback, hfree.table⟩
    rcases mem_advanceTask hfound with hbefore | hnext | hsubmitted
    · exact hfree.orderly found hbefore
    · exact hnext
    · exact absurd hsubmitted List.not_mem_nil

/-- A step of a concurrent request. -/
theorem LifeInvariant.concurrentRequest (hinvariant : LifeInvariant config state) {index : ℕ}
    {phase : ConcurrentPhase} (result : ConsumeConcurrentlyResult)
    (hget : state.concurrent[index]? = some phase) :
    let outcome := phase.advance config.messageModel config.consumeMessageBatchMaxSize.toNat
      state.processQueue result
    LifeInvariant config { state.setProcessQueue outcome.processQueue with
      concurrent := advanceTask state.concurrent index outcome.phase outcome.submitted } := by
  intro outcome
  have hdroped := phase.advance_droped config.messageModel
    config.consumeMessageBatchMaxSize.toNat state.processQueue result
  refine ⟨fun hmode ↦ ?_, fun hmode ↦ ?_, fun hdrop ↦ ?_, hinvariant.removing, fun hdeleted ↦ ?_⟩
  · have hnil := (hinvariant.orderly hmode).concurrent
    simp [hnil] at hget
  · have hlife := hinvariant.concurrent hmode
    obtain ⟨others, hbefore, hafter⟩ := flatMap_advanceTask_perm ConcurrentPhase.held outcome.phase
      outcome.submitted hget
    have hflying : DroppedState.Flying state.processQueue
        (phase.held ++ (others ++ state.place.held)) := by
      refine hlife.flying.move ?_
      rw [← List.append_assoc]
      exact (hbefore.append_right _).symm
    refine ⟨hlife.requests, (phase.advance_flying config.messageModel
      config.consumeMessageBatchMaxSize.toNat state.processQueue result hflying).move ?_⟩
    rw [← List.append_assoc]
    exact hafter.append_right _
  · exact hinvariant.droped (hdroped.symm.trans hdrop)
  · have hfree := hinvariant.released hdeleted
    obtain rfl := hfree.concurrent phase (List.mem_of_getElem? hget)
    refine ⟨hfree.orderly, fun found hfound ↦ ?_, hfree.callback, hfree.table⟩
    rcases mem_advanceTask hfound with hbefore | hnext | hsubmitted
    · exact hfree.concurrent found hbefore
    · exact hnext
    · exact absurd hsubmitted List.not_mem_nil

/-- `pullMessage` keeps the pull request, loses it or gives it to a callback. -/
theorem QueueLifeState.pullMessage_quiet (environment : PullEnvironment) :
    (state.pullMessage config environment).Quiet ∧
      state.pullMessage config environment ≠ .deleted := by
  rw [QueueLifeState.pullMessage]
  split
  · exact ⟨⟨rfl, rfl⟩, by simp⟩
  · split <;> exact ⟨⟨rfl, rfl⟩, by simp⟩

/-- The callback of an asynchronous pull. -/
theorem LifeInvariant.operationComplete (hinvariant : LifeInvariant config state)
    (hplace : state.place = .registered) {response : Option PullResponse}
    (hstep : state.operationComplete config response = some next) : LifeInvariant config next := by
  have hmove : ∀ after : PullPlace, after.Quiet → after ≠ .deleted →
      LifeInvariant config { state with place := after } := fun after ↦
    hinvariant.move hplace ⟨rfl, rfl⟩ (by decide)
  rw [QueueLifeState.operationComplete] at hstep
  split at hstep
  · exact Option.some.inj hstep ▸ hmove .later ⟨rfl, rfl⟩ (by simp)
  · obtain ⟨hfresh, rfl⟩ := Option.ite_some_none_eq_some.mp hstep
    exact hinvariant.found hplace hfresh
  · exact Option.some.inj hstep ▸ hmove .queued ⟨rfl, rfl⟩ (by simp)
  · exact Option.some.inj hstep ▸ hmove .queued ⟨rfl, rfl⟩ (by simp)
  · obtain rfl := Option.some.inj hstep
    refine hinvariant.of_drop ?_ ?_ (by simp) (Or.inr rfl) fun hremoving ↦ ?_
    · rw [hplace]
      rfl
    · rw [hplace]
      rfl
    · exact hinvariant.of_removing (hplace ▸ by decide) hremoving

/-- The look of `pullMessage` at the dropped flag. -/
theorem LifeInvariant.checkDroped (hinvariant : LifeInvariant config state)
    (hgood : state.DeletesReleasable config .checkDroped) (hplace : state.place = .entered) :
    LifeInvariant config { state with place :=
      if state.processQueue.droped then
        if state.processQueue.msgTreeMap.isEmpty then .deleted else .later
      else .checked } := by
  have hmove : ∀ after : PullPlace, after.Quiet → after ≠ .deleted →
      LifeInvariant config { state with place := after } := fun after ↦
    hinvariant.move hplace ⟨rfl, rfl⟩ (by decide)
  split
  · rename_i hdroped
    split
    · rename_i hempty
      have hfree := (hinvariant.unreferenced_iff hplace hdroped hempty).mpr (hgood hdroped hempty)
      have hquiet : state.place.Quiet := hplace ▸ ⟨rfl, rfl⟩
      refine ⟨fun hmode ↦ ?_, fun hmode ↦ ?_, fun _ ↦ Or.inr (Or.inl hfree.table),
        fun hremoving ↦ ?_, fun _ ↦ hfree⟩
      · exact (hinvariant.orderly hmode).of_same rfl rfl rfl hquiet.2.symm
      · exact (hinvariant.concurrent hmode).of_same rfl rfl hquiet.1.symm
      · exact Or.inl (hinvariant.of_removing (hplace ▸ by decide) hremoving)
    · exact hmove .later ⟨rfl, rfl⟩ (by simp)
  · exact hmove .checked ⟨rfl, rfl⟩ (by simp)

/-- Every step whose delete is releasable keeps the invariant. -/
theorem LifeInvariant.step (hinvariant : LifeInvariant config state) {event : QueueLifeEvent}
    (hgood : state.DeletesReleasable config event)
    (hstep : (queueLifeSystem config).step state event = some next) :
    LifeInvariant config next := by
  cases event with
  | setDroped =>
    obtain ⟨⟨hin, -⟩, rfl⟩ := Option.ite_some_none_eq_some.mp hstep
    refine hinvariant.of_drop rfl rfl (fun hdeleted ↦ ?_) (Or.inl rfl) fun _ ↦ hin
    exact absurd ((hinvariant.released hdeleted).table.symm.trans hin) (by decide)
  | eraseEntry =>
    obtain ⟨hremoving, rfl⟩ := Option.ite_some_none_eq_some.mp hstep
    refine ⟨fun hmode ↦ (hinvariant.orderly hmode).of_same rfl rfl rfl rfl,
      fun hmode ↦ (hinvariant.concurrent hmode).of_same rfl rfl rfl, fun _ ↦ Or.inr (Or.inl rfl),
      fun hpass ↦ absurd hpass (by simp), fun hdeleted ↦ ?_⟩
    have hfree := hinvariant.released hdeleted
    exact ⟨hfree.orderly, hfree.concurrent, hfree.callback, rfl⟩
  | setLocked locked now =>
    obtain ⟨hin, rfl⟩ := Option.ite_some_none_eq_some.mp hstep
    exact hinvariant.of_lock hin locked now
  | takeFront =>
    obtain ⟨hplace, rfl⟩ := Option.ite_some_none_eq_some.mp hstep
    exact hinvariant.move hplace ⟨rfl, rfl⟩ (by decide) ⟨rfl, rfl⟩ (by decide)
  | checkDroped =>
    obtain ⟨hplace, rfl⟩ := Option.ite_some_none_eq_some.mp hstep
    exact hinvariant.checkDroped hgood hplace
  | pullMessage environment =>
    obtain ⟨hplace, rfl⟩ := Option.ite_some_none_eq_some.mp hstep
    obtain ⟨hquiet, hdeleted⟩ := QueueLifeState.pullMessage_quiet environment
    exact hinvariant.move hplace ⟨rfl, rfl⟩ (by decide) hquiet hdeleted
  | pullMessageLater =>
    obtain ⟨hplace, rfl⟩ := Option.ite_some_none_eq_some.mp hstep
    exact hinvariant.move hplace ⟨rfl, rfl⟩ (by decide) ⟨rfl, rfl⟩ (by decide)
  | operationComplete response =>
    obtain ⟨hplace, hcomplete⟩ := Option.ite_none_right_eq_some.mp hstep
    exact hinvariant.operationComplete hplace hcomplete
  | submitConsumeRequest =>
    simp only [queueLifeSystem, QueueLifeState.step] at hstep
    split at hstep
    · rename_i msgs dispathToConsume hplace
      exact Option.some.inj hstep ▸ hinvariant.submit hplace
    · exact absurd hstep (Option.some_ne_none next).symm
  | executePullTaskLater =>
    obtain ⟨hplace, rfl⟩ := Option.ite_some_none_eq_some.mp hstep
    refine ⟨fun hmode ↦ (hinvariant.orderly hmode).of_same rfl rfl rfl ?_,
      fun hmode ↦ (hinvariant.concurrent hmode).of_same rfl rfl ?_,
      fun _ ↦ Or.inr (Or.inl rfl), fun _ ↦ Or.inr rfl, fun hdeleted ↦ absurd hdeleted (by simp)⟩
    · rw [hplace]
      rfl
    · rw [hplace]
      rfl
  | orderlyRequest index input =>
    obtain ⟨phase, hget, hphase⟩ := Option.bind_eq_some_iff.mp hstep
    obtain ⟨-, hsome⟩ := Option.ite_none_left_eq_some.mp hphase
    exact Option.some.inj hsome ▸ hinvariant.orderlyRequest input hget
  | concurrentRequest index result =>
    obtain ⟨phase, hget, rfl⟩ := Option.map_eq_some_iff.mp hstep
    exact hinvariant.concurrentRequest result hget

end Steps

theorem initial_processQueue (now : ℤ) :
    (QueueLifeState.initial now).processQueue = ProcessQueue.new now := rfl

theorem orderlyLife_initial (now : ℤ) : OrderlyLife (QueueLifeState.initial now) where
  concurrent := rfl
  token := tokenInvariant_initial now
  submitting := rfl
  discarded := fun hdiscarded ↦ absurd hdiscarded (by simp [QueueLifeState.initial])
  carried := fun _ hon ↦ absurd hon (by simp [initial_processQueue, ProcessQueue.new])

theorem lifeInvariant_initial (config : LifeConfig) (now : ℤ) :
    LifeInvariant config (QueueLifeState.initial now) where
  orderly _ := orderlyLife_initial now
  concurrent _ := ⟨rfl, ⟨List.nodup_nil, fun msg hmsg ↦ absurd hmsg List.not_mem_nil⟩⟩
  droped hdroped := absurd hdroped (by simp [initial_processQueue, ProcessQueue.new])
  removing hremoving := absurd hremoving (by simp [QueueLifeState.initial])
  released hreleased := absurd hreleased (by simp [QueueLifeState.initial])

/-- In every run whose deletes are releasable, a deleted pull request has queues that nothing refers
to any more; in the states of such runs a delete leaves no reference only if it is releasable. -/
theorem released_queue_unreferenced {config : LifeConfig} {now : ℤ}
    {events : List QueueLifeEvent} {last : QueueLifeState}
    (halong : (queueLifeSystem config).Along (QueueLifeState.DeletesReleasable config)
      (QueueLifeState.initial now) events)
    (hrun : (queueLifeSystem config).run (QueueLifeState.initial now) events = some last) :
    (last.place = .deleted → last.Unreferenced) ∧
      ∀ next, (queueLifeSystem config).step last .checkDroped = some next →
        next.place = .deleted → (next.Unreferenced ↔ last.Releasable config) := by
  have hpreserved : ∀ state event next, state.DeletesReleasable config event →
      (queueLifeSystem config).step state event = some next → LifeInvariant config state →
      LifeInvariant config next :=
    fun state event next hgood hstep hinvariant ↦ hinvariant.step hgood hstep
  have hinvariant := EventSystem.run_invariant_of_along hpreserved halong hrun
    (lifeInvariant_initial config now)
  refine ⟨hinvariant.released, fun next hstep hdeleted ↦ ?_⟩
  obtain ⟨hplace, rfl⟩ := Option.ite_some_none_eq_some.mp hstep
  by_cases hdroped : last.processQueue.droped = true
  · by_cases hempty : last.processQueue.msgTreeMap.isEmpty = true
    · simp only [hdroped, hempty, if_true]
      exact hinvariant.unreferenced_iff hplace hdroped hempty
    · simp [hdroped, hempty] at hdeleted
  · simp [hdroped] at hdeleted

/-- A pull that finds one message. -/
def samplePullFound : List QueueLifeEvent :=
  [.takeFront, .checkDroped, .pullMessage ⟨true, false, true, .sent⟩,
    .operationComplete (some ⟨0, 6, [⟨1, 5⟩]⟩)]

/-- A rebalance that takes the queue away, and the next round of the pull service. -/
def sampleRelease : List QueueLifeEvent := [.setDroped, .eraseEntry, .takeFront, .checkDroped]

/-- A concurrent request consumes its message and ends before the queue is taken away. -/
theorem released_queue_unreferenced_consumed :
    let config : LifeConfig := ⟨sampleConfig, .clustering, 1⟩
    let events : List QueueLifeEvent := samplePullFound ++
      [.submitConsumeRequest, .submitConsumeRequest] ++
      List.replicate 5 (.concurrentRequest 0 ⟨.consumeSuccess, 0, fun _ ↦ true⟩) ++ sampleRelease
    ∃ last, (queueLifeSystem config).run (QueueLifeState.initial 0) events = some last ∧
      last.place = .deleted ∧ last.Unreferenced := by
  intro config events
  have hplace : ((queueLifeSystem config).run (QueueLifeState.initial 0) events).map
      QueueLifeState.place = some .deleted := by decide
  obtain ⟨last, hrun, hdeleted⟩ := Option.map_eq_some_iff.mp hplace
  exact ⟨last, hrun, hdeleted, (released_queue_unreferenced (by decide) hrun).1 hdeleted⟩

/-- The listener has a batch in order, which lies in the temporary map, when the pull service
deletes the queues. -/
theorem queue_released_while_listening :
    let config : LifeConfig := ⟨{ sampleConfig with consumeOrderly := true }, .clustering, 1⟩
    let events : List QueueLifeEvent := [.setLocked true 0] ++ samplePullFound ++
      [.submitConsumeRequest] ++
      List.replicate 8 (.orderlyRequest 0 ⟨0, some .success, true⟩) ++ sampleRelease
    ∃ last, (queueLifeSystem config).run (QueueLifeState.initial 0) events = some last ∧
      last.place = .deleted ∧ last.processQueue.msgTreeMapTemp.keys = [5] ∧
      .listening 0 [⟨1, 5⟩] ∈ last.orderly.requests ∧ ¬ last.Unreferenced := by
  intro config events
  have hview : ((queueLifeSystem config).run (QueueLifeState.initial 0) events).map
      (fun last ↦ (last.place, last.processQueue.msgTreeMapTemp.keys, last.orderly.requests)) =
      some (.deleted, [5], [.listening 0 [⟨1, 5⟩]]) := by decide
  obtain ⟨last, hrun, hlast⟩ := Option.map_eq_some_iff.mp hview
  obtain ⟨hplace, hkeys, hrequests⟩ : last.place = .deleted ∧
      last.processQueue.msgTreeMapTemp.keys = [5] ∧
      last.orderly.requests = [.listening 0 [⟨1, 5⟩]] := by simpa using hlast
  have hlistening : .listening 0 [⟨1, 5⟩] ∈ last.orderly.requests := by simp [hrequests]
  refine ⟨last, hrun, hplace, hkeys, hlistening, fun hfree ↦ ?_⟩
  exact absurd (hfree.orderly _ hlistening) (by decide)

end RocketMQClient.Consumer
