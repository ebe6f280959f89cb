import RocketMQClient.Consumer.QueueRelease

/-!
# The drain of a dropped queue

`pullMessage` deletes a pull request whose process queue is dropped when the tree map is empty, and
puts it off when it is not: the consume service is to empty it. `queueDrainSystem` is the life of a
pull request whatever offsets the messages of a pull have, so that every step of the life with fresh
messages is one of its steps (`drainStep_of_step`).

A concurrent request that finds the queue dropped removes its messages, and every message of the
tree map is with a request, a timer or the callback that has stored it (`Covered`), so that a queue
at rest is empty (`concurrent_queue_drains`). An orderly request that finds the queue dropped leaves
with the messages in the tree map and the consuming flag on, and messages that come later get no
request either. The queue of orderly consumption drains in the runs in which no step leaves messages
of a dropped queue without a request, and in no others (`dropped_queue_drains`).

The orderly half goes by the token of the queue. While a request with the token is still to look at
the dropped flag the messages are `Attended`; the step that gives them up leaves a state that is
`Clogged`, in which every later request looks at the flag first, and no step leads out of it
(`Clogged.of_move`). So the condition on the steps is exact, and not only enough.
-/

set_option autoImplicit false
set_option relaxedAutoImplicit false

namespace RocketMQClient.Consumer

open Library Messages

/-! ### The event system -/

/-- The messages that a reply makes the callback store. -/
def storedMsgs : Option PullResponse → List MessageExt
  | none => []
  | some reply => if processPullResponse reply = some .found then reply.msgFoundList else []

namespace QueueLifeState

/-- The callback of an asynchronous pull, up to the storing of messages of any offsets. -/
def receive (config : LifeConfig) (state : QueueLifeState) (response : Option PullResponse) :
    Option QueueLifeState :=
  if response.bind processPullResponse = some .found then
    some (state.found config (storedMsgs response))
  else state.operationComplete config response

/-- One step. -/
def drainStep (config : LifeConfig) (state : QueueLifeState) :
    QueueLifeEvent → Option QueueLifeState
  | .operationComplete response =>
    if state.place = .registered then state.receive config response else none
  | event => state.step config event

end QueueLifeState

/-- The life of a pull request and its queues, without an assumption on offsets. -/
def queueDrainSystem (config : LifeConfig) : EventSystem QueueLifeState QueueLifeEvent :=
  ⟨QueueLifeState.drainStep config⟩

/-- A step of the life with fresh messages is a step of the life with any messages. -/
theorem drainStep_of_step {config : LifeConfig} {state next : QueueLifeState}
    {event : QueueLifeEvent} (hstep : (queueLifeSystem config).step state event = some next) :
    (queueDrainSystem config).step state event = some next := by
  cases event with
  | operationComplete response =>
    obtain ⟨hplace, hcomplete⟩ := Option.ite_none_right_eq_some.mp hstep
    refine Option.ite_none_right_eq_some.mpr ⟨hplace, ?_⟩
    rw [QueueLifeState.receive]
    split
    · rename_i hfound
      obtain ⟨reply, rfl, hstatus⟩ := Option.bind_eq_some_iff.mp hfound
      simp only [QueueLifeState.operationComplete, Option.bind_some, hstatus,
        Option.map_some] at hcomplete
      obtain ⟨-, hnext⟩ := Option.ite_none_right_eq_some.mp hcomplete
      rwa [storedMsgs, if_pos hstatus]
    · exact hcomplete
  | _ => exact hstep

/-- The callback stores messages, gives the pull request up for now, or drops the queue. -/
theorem receive_cases {config : LifeConfig} {state next : QueueLifeState}
    {response : Option PullResponse} (hstep : state.receive config response = some next) :
    response.bind processPullResponse = some .found ∧
        next = state.found config (storedMsgs response) ∨
      storedMsgs response = [] ∧ response.bind processPullResponse ≠ some .offsetIllegal ∧
        (∃ place : PullPlace, place.Quiet ∧ next = { state with place := place }) ∨
      storedMsgs response = [] ∧ response.bind processPullResponse = some .offsetIllegal ∧
        next = { state.setProcessQueue (state.processQueue.setDroped true) with
          place := .correcting } := by
  rw [QueueLifeState.receive] at hstep
  split at hstep
  · rename_i hfound
    exact Or.inl ⟨hfound, (Option.some.inj hstep).symm⟩
  · rename_i hother
    have hstored : storedMsgs response = [] := by
      cases response with
      | none => rfl
      | some reply => exact if_neg hother
    have hstatus : ∀ pair, (response.bind fun reply ↦
        (processPullResponse reply).map fun status ↦ (status, reply)) = some pair →
        response.bind processPullResponse = some pair.1 := by
      intro pair hpair
      obtain ⟨reply, rfl, hmap⟩ := Option.bind_eq_some_iff.mp hpair
      obtain ⟨status, hcode, rfl⟩ := Option.map_eq_some_iff.mp hmap
      exact hcode
    rw [QueueLifeState.operationComplete] at hstep
    refine Or.inr ?_
    split at hstep
    · rename_i hnone
      refine Or.inl ⟨hstored, fun hillegal ↦ ?_, .later, ⟨rfl, rfl⟩, (Option.some.inj hstep).symm⟩
      obtain ⟨reply, rfl, hcode⟩ := Option.bind_eq_some_iff.mp hillegal
      simp [hcode] at hnone
    · rename_i reply hfound
      exact absurd (hstatus _ hfound) hother
    · rename_i reply hlegal
      exact Or.inl ⟨hstored, by simp [hstatus _ hlegal], .queued, ⟨rfl, rfl⟩,
        (Option.some.inj hstep).symm⟩
    · rename_i reply hlegal
      exact Or.inl ⟨hstored, by simp [hstatus _ hlegal], .queued, ⟨rfl, rfl⟩,
        (Option.some.inj hstep).symm⟩
    · rename_i reply hillegal
      exact Or.inr ⟨hstored, hstatus _ hillegal, (Option.some.inj hstep).symm⟩

/-! ### The drain -/

namespace QueueLifeState

/-- No request is running, queued or in a timer, and no pull is in flight. -/
structure AtRest (state : QueueLifeState) : Prop where
  orderly : ∀ phase ∈ state.orderly.requests, phase = .finished
  concurrent : ∀ phase ∈ state.concurrent, phase = .finished
  pull : state.place ≠ .registered ∧
    ∀ msgs dispathToConsume, state.place ≠ .submitting msgs dispathToConsume

/-- A dropped queue at rest is empty, and `pullMessage` deletes its pull request. -/
def Drains (config : LifeConfig) (state : QueueLifeState) : Prop :=
  state.processQueue.droped = true → state.AtRest →
    state.processQueue.msgTreeMap.isEmpty = true ∧
      ∀ next, (queueDrainSystem config).step state .checkDroped = some next → next.place = .deleted

/-- The queue is dropped and has messages, and `pullMessage` puts its pull request off. -/
def PutsOff (config : LifeConfig) (state : QueueLifeState) : Prop :=
  state.processQueue.droped = true ∧ state.processQueue.msgTreeMap.isEmpty = false ∧
    ∀ next, (queueDrainSystem config).step state .checkDroped = some next → next.place = .later

/-- Messages of the tree map have a request or a timer that is still to consume, or one that the
callback is to submit. -/
def Attended (state : QueueLifeState) : Prop :=
  state.processQueue.msgTreeMap.isEmpty = true ∨ 0 < state.orderly.tokens

instance (state : QueueLifeState) : Decidable state.Attended :=
  inferInstanceAs (Decidable (_ ∨ _))

end QueueLifeState

/-- The next step of the request is its last look at a dropped queue: it leaves at the dropped flag,
or clears the consuming flag. -/
def RequestPhase.givesUp : RequestPhase → Bool
  | .looping _ | .clearing => true
  | _ => false

namespace QueueLifeState

/-- The step leaves no messages of a dropped queue without an orderly request: a queue is dropped
while its messages are attended, a request that gives up a dropped queue finds the tree map empty,
and no messages are stored after a request has left because the queue was dropped. -/
def LeavesAttended (state : QueueLifeState) : QueueLifeEvent → Prop
  | .setDroped => state.Attended
  | .operationComplete response =>
    (response.bind processPullResponse = some .offsetIllegal → state.Attended) ∧
      (state.discarded = true → storedMsgs response = [])
  | .orderlyRequest index _ => state.processQueue.droped = true →
      (state.orderly.requests[index]?).any RequestPhase.givesUp = true →
      state.processQueue.msgTreeMap.isEmpty = true
  | _ => True

instance (state : QueueLifeState) (event : QueueLifeEvent) :
    Decidable (state.LeavesAttended event) :=
  match event with
  | .setDroped => inferInstanceAs (Decidable state.Attended)
  | .operationComplete _ => inferInstanceAs (Decidable ((_ → _) ∧ (_ → _)))
  | .orderlyRequest _ _ => inferInstanceAs (Decidable (_ → _ → _))
  | .eraseEntry | .setLocked _ _ | .takeFront | .checkDroped | .pullMessage _ | .pullMessageLater
  | .submitConsumeRequest | .executePullTaskLater | .concurrentRequest _ _ => isTrue trivial

/-- In orderly consumption the step leaves no messages of a dropped queue without a request. -/
def KeepsAttended (config : LifeConfig) (state : QueueLifeState) (event : QueueLifeEvent) : Prop :=
  config.pull.consumeOrderly = true → state.LeavesAttended event

instance (config : LifeConfig) (state : QueueLifeState) (event : QueueLifeEvent) :
    Decidable (state.KeepsAttended config event) :=
  inferInstanceAs (Decidable (_ → _))

end QueueLifeState

/-! ### Concurrent consumption -/

/-- Every message of the tree map is one of a list. -/
def Covered (queue : ProcessQueue) (msgs : List MessageExt) : Prop :=
  ∀ key ∈ queue.msgTreeMap, ∃ msg ∈ msgs, msg.queueOffset = key

section Covering

variable {queue : ProcessQueue} {msgs others : List MessageExt}

theorem Covered.mono (hcovered : Covered queue msgs) (hmore : ∀ msg ∈ msgs, msg ∈ others) :
    Covered queue others := by
  intro key hkey
  obtain ⟨msg, hmsg, hoffset⟩ := hcovered key hkey
  exact ⟨msg, hmore msg hmsg, hoffset⟩

/-- The messages of one list are divided into two. -/
theorem Covered.divide {first second : List MessageExt} (hcovered : Covered queue (msgs ++ others))
    (hparts : ∀ msg ∈ msgs, msg ∈ first ∨ msg ∈ second) :
    Covered queue (first ++ second ++ others) := by
  refine hcovered.mono fun msg hmsg ↦ ?_
  rcases List.mem_append.mp hmsg with hown | hother
  · exact List.mem_append_left others (List.mem_append.mpr (hparts msg hown))
  · exact List.mem_append_right _ hother

/-- A removal takes the messages of the removed ones away. -/
theorem Covered.remove (hcovered : Covered queue (msgs ++ others)) :
    Covered (queue.removeMessage msgs).2 others := by
  intro key hkey
  obtain ⟨hheld, hleft⟩ := ProcessQueue.removeMessage_keys.mp hkey
  obtain ⟨msg, hmsg, rfl⟩ := hcovered key hheld
  refine ⟨msg, (List.mem_append.mp hmsg).resolve_left fun hremoved ↦ ?_, rfl⟩
  exact hleft (List.mem_map_of_mem hremoved)

theorem Covered.put (hcovered : Covered queue others) :
    Covered (queue.putMessage msgs).2 (others ++ msgs) := by
  intro key hkey
  rw [ProcessQueue.putMessage_msgTreeMap, OrderedMap.mem_assignAll] at hkey
  rcases hkey with hheld | ⟨msg, hmsg, hoffset⟩
  · obtain ⟨msg, hmsg, hoffset⟩ := hcovered key hheld
    exact ⟨msg, List.mem_append_left msgs hmsg, hoffset⟩
  · exact ⟨msg, List.mem_append_right others hmsg, hoffset⟩

/-- With nobody who has messages the tree map is empty. -/
theorem Covered.isEmpty (hcovered : Covered queue []) : queue.msgTreeMap.isEmpty = true := by
  refine OrderedMap.isEmpty_iff.mpr fun key hkey ↦ ?_
  obtain ⟨msg, hmsg, -⟩ := hcovered key hkey
  exact absurd hmsg List.not_mem_nil

/-- A message of a request is removed or could not be sent back. -/
theorem mem_removedMsgs_or_msgBackFailed (result : ConsumeConcurrentlyResult)
    (messageModel : MessageModel) {msg : MessageExt} (hmsg : msg ∈ msgs) :
    msg ∈ result.removedMsgs messageModel msgs ∨ msg ∈ result.msgBackFailed messageModel msgs := by
  by_cases hfailed : msg ∈ result.msgBackFailed messageModel msgs
  · exact Or.inr hfailed
  · exact Or.inl (List.mem_filter.mpr ⟨hmsg, decide_eq_true hfailed⟩)

variable (messageModel : MessageModel) (batchSize : ℕ) (result : ConsumeConcurrentlyResult)

/-- A step of a request or timer gives away the messages that it does not remove. -/
theorem ConcurrentPhase.advance_covered {phase : ConcurrentPhase}
    (hcovered : Covered queue (phase.held ++ others)) :
    Covered (phase.advance messageModel batchSize queue result).processQueue
      ((phase.advance messageModel batchSize queue result).phase.held ++
        (phase.advance messageModel batchSize queue result).submitted.flatMap held ++ others) := by
  cases phase with
  | discarding msgs => exact hcovered.remove
  | removing msgs =>
    simp only [advance]
    split <;> exact hcovered.remove
  | listening msgs =>
    simp only [advance]
    split
    · rename_i hempty
      exact hcovered.mono (by simp [held, List.isEmpty_iff.mp hempty])
    · refine hcovered.divide fun msg hmsg ↦ ?_
      refine (mem_removedMsgs_or_msgBackFailed result messageModel hmsg).imp_right fun hfailed ↦ ?_
      have hsome : ¬ (result.msgBackFailed messageModel msgs).isEmpty = true := fun hempty ↦
        absurd (List.isEmpty_iff.mp hempty ▸ hfailed) List.not_mem_nil
      simpa [hsome, held] using hfailed
  | submitting msgs =>
    simp only [advance]
    split
    · rename_i hempty
      exact hcovered.mono (by simp [held, List.isEmpty_iff.mp hempty])
    · refine hcovered.divide fun msg hmsg ↦ ?_
      have hcut : msg ∈ msgs.take batchSize ∨ msg ∈ msgs.drop batchSize :=
        List.mem_append.mp ((List.take_append_drop batchSize msgs).symm ▸ hmsg)
      simpa [held] using hcut.symm
  | queued msgs =>
    simp only [advance]
    split <;> exact hcovered.mono (by simp [held])
  | _ => exact hcovered.mono (by simp [advance, held])

end Covering

/-- Concurrent consumption: the messages of the tree map are with the requests, the timers and the
callback. -/
structure ConcurrentCover (state : QueueLifeState) : Prop where
  requests : state.orderly.requests = []
  covered : Covered state.processQueue
    (state.concurrent.flatMap ConcurrentPhase.held ++ state.place.held)

section ConcurrentSteps

variable {config : LifeConfig} {state next : QueueLifeState}

/-- A step that leaves the messages where they are. -/
theorem ConcurrentCover.of_same (hcover : ConcurrentCover state)
    (hrequests : next.orderly.requests = state.orderly.requests)
    (htree : next.processQueue.msgTreeMap = state.processQueue.msgTreeMap)
    (hconcurrent : next.concurrent = state.concurrent)
    (hplace : next.place.held = state.place.held) : ConcurrentCover next where
  requests := hrequests.trans hcover.requests
  covered := by
    rw [hconcurrent, hplace, Covered, htree]
    exact hcover.covered

/-- The pull request moves from a place without messages to another. -/
theorem ConcurrentCover.move (hcover : ConcurrentCover state) {before after : PullPlace}
    (hbefore : state.place = before) (hnone : before.held = []) (hafter : after.held = []) :
    ConcurrentCover { state with place := after } :=
  hcover.of_same rfl rfl rfl (by rw [hafter, hbefore, hnone])

/-- The callback stores the messages of a pull. -/
theorem ConcurrentCover.found (hcover : ConcurrentCover state) (hplace : state.place = .registered)
    (msgs : List MessageExt) : ConcurrentCover (state.found config msgs) where
  requests := hcover.requests
  covered := by
    have hbefore := hcover.covered
    rw [hplace] at hbefore
    have hput : Covered (state.processQueue.putMessage msgs).2
        (state.concurrent.flatMap ConcurrentPhase.held ++ [] ++ msgs) := hbefore.put
    rwa [List.append_nil] at hput

/-- The callback of an asynchronous pull. -/
theorem ConcurrentCover.receive (hcover : ConcurrentCover state)
    (hplace : state.place = .registered) {response : Option PullResponse}
    (hstep : state.receive config response = some next) : ConcurrentCover next := by
  rcases receive_cases hstep with ⟨-, rfl⟩ | ⟨-, -, place, hquiet, rfl⟩ | ⟨-, -, rfl⟩
  · exact hcover.found hplace (storedMsgs response)
  · exact hcover.move hplace rfl hquiet.1
  · exact hcover.of_same rfl rfl rfl (by rw [hplace]; rfl)

/-- The callback submits a batch of the messages it has stored, or has submitted all. -/
theorem ConcurrentCover.submit (hcover : ConcurrentCover state)
    (hmode : config.pull.consumeOrderly = false) {msgs : List MessageExt} {dispathToConsume : Bool}
    (hplace : state.place = .submitting msgs dispathToConsume) :
    ConcurrentCover (state.submitConsumeRequest config msgs dispathToConsume) := by
  have hbefore := hcover.covered
  rw [hplace] at hbefore
  simp only [QueueLifeState.submitConsumeRequest, hmode, Bool.false_eq_true, if_false]
  split
  · rename_i hempty
    have hafter : (QueueLifeState.afterFound config).held = [] := by
      rw [QueueLifeState.afterFound]
      split <;> rfl
    obtain rfl := List.isEmpty_iff.mp hempty
    exact hcover.move hplace rfl hafter
  · refine ⟨hcover.requests, hbefore.mono fun msg hmsg ↦ ?_⟩
    simpa [ConcurrentPhase.held, PullPlace.held] using hmsg

/-- A step of a concurrent request. -/
theorem ConcurrentCover.request (hcover : ConcurrentCover state) {index : ℕ}
    {phase : ConcurrentPhase} (result : ConsumeConcurrentlyResult)
    (hget : state.concurrent[index]? = some phase) :
    let outcome := phase.advance config.messageModel config.consumeMessageBatchMaxSize.toNat
      state.processQueue result
    ConcurrentCover { state.setProcessQueue outcome.processQueue with
      concurrent := advanceTask state.concurrent index outcome.phase outcome.submitted } := by
  intro outcome
  obtain ⟨others, hbefore, hafter⟩ := flatMap_advanceTask_perm ConcurrentPhase.held outcome.phase
    outcome.submitted hget
  have hcovered : Covered state.processQueue (phase.held ++ (others ++ state.place.held)) := by
    refine hcover.covered.mono fun msg hmsg ↦ ?_
    rw [← List.append_assoc]
    exact ((hbefore.append_right state.place.held).mem_iff).mp hmsg
  refine ⟨hcover.requests, (phase.advance_covered config.messageModel
    config.consumeMessageBatchMaxSize.toNat result hcovered).mono fun msg hmsg ↦ ?_⟩
  rw [← List.append_assoc] at hmsg
  exact ((hafter.append_right state.place.held).mem_iff).mpr hmsg

/-- Every step leaves the messages of the tree map with somebody. -/
theorem ConcurrentCover.step (hmode : config.pull.consumeOrderly = false)
    {event : QueueLifeEvent}
    (hstep : (queueDrainSystem config).step state event = some next)
    (hcover : ConcurrentCover state) : ConcurrentCover next := by
  cases event with
  | setDroped =>
    obtain ⟨-, rfl⟩ := Option.ite_some_none_eq_some.mp hstep
    exact hcover.of_same rfl rfl rfl rfl
  | eraseEntry =>
    obtain ⟨-, rfl⟩ := Option.ite_some_none_eq_some.mp hstep
    exact hcover.of_same rfl rfl rfl rfl
  | setLocked locked now =>
    obtain ⟨-, rfl⟩ := Option.ite_some_none_eq_some.mp hstep
    exact hcover.of_same rfl rfl rfl rfl
  | takeFront =>
    obtain ⟨hplace, rfl⟩ := Option.ite_some_none_eq_some.mp hstep
    exact hcover.move hplace rfl rfl
  | checkDroped =>
    obtain ⟨hplace, rfl⟩ := Option.ite_some_none_eq_some.mp hstep
    refine hcover.move hplace rfl ?_
    (repeat' split) <;> rfl
  | pullMessage environment =>
    obtain ⟨hplace, rfl⟩ := Option.ite_some_none_eq_some.mp hstep
    exact hcover.move hplace rfl (QueueLifeState.pullMessage_quiet environment).1.1
  | pullMessageLater =>
    obtain ⟨hplace, rfl⟩ := Option.ite_some_none_eq_some.mp hstep
    exact hcover.move hplace rfl rfl
  | operationComplete response =>
    obtain ⟨hplace, hreceive⟩ := Option.ite_none_right_eq_some.mp hstep
    exact hcover.receive hplace hreceive
  | submitConsumeRequest =>
    simp only [queueDrainSystem, QueueLifeState.drainStep, QueueLifeState.step] at hstep
    split at hstep
    · rename_i msgs dispathToConsume hplace
      exact Option.some.inj hstep ▸ hcover.submit hmode hplace
    · exact absurd hstep (Option.some_ne_none next).symm
  | executePullTaskLater =>
    obtain ⟨hplace, rfl⟩ := Option.ite_some_none_eq_some.mp hstep
    exact hcover.of_same rfl rfl rfl (by rw [hplace]; rfl)
  | orderlyRequest index input =>
    obtain ⟨phase, hget, -⟩ := Option.bind_eq_some_iff.mp hstep
    simp [hcover.requests] at hget
  | concurrentRequest index result =>
    obtain ⟨phase, hget, rfl⟩ := Option.map_eq_some_iff.mp hstep
    exact hcover.request result hget

end ConcurrentSteps

theorem QueueLifeState.AtRest.quiet {state : QueueLifeState} (hrest : state.AtRest) :
    state.place.Quiet := by
  cases hplace : state.place with
  | submitting msgs dispathToConsume => exact absurd hplace (hrest.pull.2 msgs dispathToConsume)
  | _ => exact ⟨rfl, rfl⟩

/-- A dropped queue that is empty at rest drains. -/
theorem QueueLifeState.drains_of_isEmpty {config : LifeConfig} {state : QueueLifeState}
    (hempty : state.processQueue.droped = true → state.AtRest →
      state.processQueue.msgTreeMap.isEmpty = true) : state.Drains config := by
  intro hdroped hrest
  refine ⟨hempty hdroped hrest, fun next hstep ↦ ?_⟩
  obtain ⟨-, rfl⟩ := Option.ite_some_none_eq_some.mp hstep
  simp [hdroped, hempty hdroped hrest]

/-- In every run of concurrent consumption a dropped queue at rest is empty. -/
theorem concurrent_queue_drains {config : LifeConfig} (hmode : config.pull.consumeOrderly = false)
    {now : ℤ} {events : List QueueLifeEvent} {last : QueueLifeState}
    (hrun : (queueDrainSystem config).run (QueueLifeState.initial now) events = some last) :
    last.Drains config := by
  have hinitial : ConcurrentCover (QueueLifeState.initial now) :=
    ⟨rfl, fun key hkey ↦ absurd hkey (OrderedMap.not_mem_empty key)⟩
  have hcover := EventSystem.run_invariant
    (fun state event next hstep ↦ ConcurrentCover.step hmode hstep) hrun hinitial
  refine QueueLifeState.drains_of_isEmpty fun _ hrest ↦ ?_
  have hnone : last.concurrent.flatMap ConcurrentPhase.held ++ last.place.held = [] := by
    rw [hrest.quiet.1, List.append_nil, List.flatMap_eq_nil_iff]
    intro phase hphase
    rw [hrest.concurrent phase hphase]
    rfl
  exact Covered.isEmpty (hnone ▸ hcover.covered)

/-! ### One step of orderly consumption -/

/-- What a step of orderly consumption can do, with the condition under which it leaves no messages
of a dropped queue without a request. -/
inductive DrainMove (config : LifeConfig) (state : QueueLifeState) :
    Prop → QueueLifeState → Prop where
  | keep {next : QueueLifeState} (horderly : next.orderly = state.orderly)
      (hconcurrent : next.concurrent = state.concurrent)
      (hdiscarded : next.discarded = state.discarded)
      (hplace : next.place.dispatches = state.place.dispatches) :
      DrainMove config state True next
  | drop {place : PullPlace} {removing : Bool}
      (hplace : place.dispatches = state.place.dispatches) :
      DrainMove config state state.Attended
        { state.setProcessQueue (state.processQueue.setDroped true) with
          place := place, removing := removing }
  | lock (locked : Bool) (now : ℤ) :
      DrainMove config state True
        (state.setProcessQueue (state.processQueue.setLocked locked now))
  | found (hplace : state.place = .registered) (msgs : List MessageExt) :
      DrainMove config state (state.discarded = true → msgs = []) (state.found config msgs)
  | submit {place : PullPlace} {msgs : List MessageExt} {dispathToConsume : Bool}
      (hplace : state.place = .submitting msgs dispathToConsume) (hquiet : place.Quiet) :
      DrainMove config state True { state with
        place := place
        orderly := if dispathToConsume then { state.orderly with
            submitting := state.orderly.submitting - 1
            requests := state.orderly.requests ++ [.queued] }
          else state.orderly }
  | request {index : ℕ} {phase : RequestPhase} (input : RequestInput)
      (hget : state.orderly.requests[index]? = some phase) :
      DrainMove config state
        (state.processQueue.droped = true → phase.givesUp = true →
          state.processQueue.msgTreeMap.isEmpty = true)
        { state with
          orderly := state.orderly.afterRequest config.messageModel
            config.consumeMessageBatchMaxSize index phase input
          discarded := state.discarded || phase.leavesDroped state.processQueue }

section OrderlySteps

variable {config : LifeConfig} {state next : QueueLifeState} {condition : Prop}

/-- The pull request moves from a place that dispatches nothing to another. -/
theorem DrainMove.move {before after : PullPlace} (hbefore : state.place = before)
    (hnone : before.dispatches = false) (hafter : after.dispatches = false) :
    DrainMove config state True { state with place := after } :=
  .keep rfl rfl rfl (by rw [hafter, hbefore, hnone])

/-- The callback of an asynchronous pull. -/
theorem receive_move (hplace : state.place = .registered) {response : Option PullResponse}
    (hstep : state.receive config response = some next) :
    ∃ condition, (state.LeavesAttended (.operationComplete response) ↔ condition) ∧
      DrainMove config state condition next := by
  rcases receive_cases hstep with
    ⟨hfound, rfl⟩ | ⟨hstored, hlegal, place, hquiet, rfl⟩ | ⟨hstored, hillegal, rfl⟩
  · refine ⟨_, ⟨fun hleaves ↦ hleaves.2, fun hnone ↦ ⟨fun hillegal ↦ ?_, hnone⟩⟩,
      .found hplace (storedMsgs response)⟩
    exact absurd (hfound.symm.trans hillegal) (by decide)
  · refine ⟨True, iff_true_intro ⟨fun hillegal ↦ absurd hillegal hlegal, fun _ ↦ hstored⟩, ?_⟩
    exact .move hplace rfl hquiet.2
  · refine ⟨state.Attended, ⟨fun hleaves ↦ hleaves.1 hillegal,
      fun hattended ↦ ⟨fun _ ↦ hattended, fun _ ↦ hstored⟩⟩, ?_⟩
    exact @DrainMove.drop config state .correcting state.removing (by rw [hplace]; rfl)

/-- Every step of orderly consumption is one of the moves. -/
theorem drainStep_move (hmode : config.pull.consumeOrderly = true) (hnone : state.concurrent = [])
    {event : QueueLifeEvent} (hstep : (queueDrainSystem config).step state event = some next) :
    ∃ condition, (state.LeavesAttended event ↔ condition) ∧
      DrainMove config state condition next := by
  cases event with
  | setDroped =>
    obtain ⟨-, rfl⟩ := Option.ite_some_none_eq_some.mp hstep
    exact ⟨_, Iff.rfl, @DrainMove.drop config state state.place true rfl⟩
  | eraseEntry =>
    obtain ⟨-, rfl⟩ := Option.ite_some_none_eq_some.mp hstep
    exact ⟨_, Iff.rfl, .keep rfl rfl rfl rfl⟩
  | setLocked locked now =>
    obtain ⟨-, rfl⟩ := Option.ite_some_none_eq_some.mp hstep
    exact ⟨_, Iff.rfl, .lock locked now⟩
  | takeFront =>
    obtain ⟨hplace, rfl⟩ := Option.ite_some_none_eq_some.mp hstep
    exact ⟨_, Iff.rfl, .move hplace rfl rfl⟩
  | checkDroped =>
    obtain ⟨hplace, rfl⟩ := Option.ite_some_none_eq_some.mp hstep
    refine ⟨_, Iff.rfl, .move hplace rfl ?_⟩
    (repeat' split) <;> rfl
  | pullMessage environment =>
    obtain ⟨hplace, rfl⟩ := Option.ite_some_none_eq_some.mp hstep
    exact ⟨_, Iff.rfl, .move hplace rfl (QueueLifeState.pullMessage_quiet environment).1.2⟩
  | pullMessageLater =>
    obtain ⟨hplace, rfl⟩ := Option.ite_some_none_eq_some.mp hstep
    exact ⟨_, Iff.rfl, .move hplace rfl rfl⟩
  | operationComplete response =>
    obtain ⟨hplace, hreceive⟩ := Option.ite_none_right_eq_some.mp hstep
    exact receive_move hplace hreceive
  | submitConsumeRequest =>
    simp only [queueDrainSystem, QueueLifeState.drainStep, QueueLifeState.step] at hstep
    split at hstep
    · rename_i msgs dispathToConsume hplace
      obtain rfl := Option.some.inj hstep
      simp only [QueueLifeState.submitConsumeRequest, hmode, if_true]
      refine ⟨_, Iff.rfl, .submit hplace ?_⟩
      rw [QueueLifeState.afterFound]
      split <;> exact ⟨rfl, rfl⟩
    · exact absurd hstep (Option.some_ne_none next).symm
  | executePullTaskLater =>
    obtain ⟨hplace, rfl⟩ := Option.ite_some_none_eq_some.mp hstep
    exact ⟨_, Iff.rfl, .keep rfl rfl rfl (by rw [hplace]; rfl)⟩
  | orderlyRequest index input =>
    obtain ⟨phase, hget, hphase⟩ := Option.bind_eq_some_iff.mp hstep
    obtain ⟨-, hsome⟩ := Option.ite_none_left_eq_some.mp hphase
    obtain rfl := Option.some.inj hsome
    refine ⟨_, ?_, .request input hget⟩
    rw [QueueLifeState.LeavesAttended, hget]
    rfl
  | concurrentRequest index result =>
    obtain ⟨phase, hget, -⟩ := Option.map_eq_some_iff.mp hstep
    simp [hnone] at hget

/-- Every move keeps the token of the queue. -/
theorem OrderlyLife.of_move (hlife : OrderlyLife state) (hmode : config.pull.consumeOrderly = true)
    (hmove : DrainMove config state condition next) : OrderlyLife next := by
  cases hmove with
  | keep horderly hconcurrent hdiscarded hplace =>
    exact hlife.of_same horderly hconcurrent hdiscarded hplace
  | drop hplace => exact hlife.of_drop _ hplace
  | lock locked now => exact hlife.of_lock locked now
  | found hplace msgs => exact hlife.found hmode (hplace ▸ ⟨rfl, rfl⟩) msgs
  | submit hplace hquiet => exact hlife.submit hplace hquiet
  | request input hget => exact hlife.request _ _ input hget

/-! ### Messages with a request -/

/-- The tree map is empty after a batch when it was empty before and the batch is. -/
theorem putMessage_isEmpty (queue : ProcessQueue) (msgs : List MessageExt) :
    (queue.putMessage msgs).2.msgTreeMap.isEmpty = (queue.msgTreeMap.isEmpty && msgs.isEmpty) := by
  rw [Bool.eq_iff_iff, Bool.and_eq_true, OrderedMap.isEmpty_iff, OrderedMap.isEmpty_iff,
    List.isEmpty_iff, ProcessQueue.putMessage_msgTreeMap]
  constructor
  · intro hnone
    refine ⟨fun key hkey ↦ hnone key (OrderedMap.mem_assignAll.mpr (Or.inl hkey)), ?_⟩
    refine List.eq_nil_iff_forall_not_mem.mpr fun msg hmsg ↦ ?_
    exact hnone msg.queueOffset (OrderedMap.mem_assignAll.mpr (Or.inr ⟨msg, hmsg, rfl⟩))
  · rintro ⟨hnone, rfl⟩ key hkey
    rcases OrderedMap.mem_assignAll.mp hkey with hheld | ⟨msg, hmsg, -⟩
    · exact hnone key hheld
    · exact absurd hmsg List.not_mem_nil

/-- A request that gives up leaves the messages where they are. -/
theorem RequestPhase.advance_givesUp (messageModel : MessageModel) (batchSize : ℤ)
    (queue : ProcessQueue) (input : RequestInput) {phase : RequestPhase}
    (hgives : phase.givesUp = true) :
    (phase.advance messageModel batchSize queue input).processQueue.msgTreeMap =
      queue.msgTreeMap := by
  rw [advance_processQueue]
  cases phase with
  | looping beginTime => rfl
  | clearing => rfl
  | _ => exact absurd hgives (by simp [givesUp])

/-- Messages under a consuming flag that is on, before a request has left for the drop, have a
request. -/
theorem OrderlyLife.attended_of_kept (hlife : OrderlyLife state) (hkept : state.discarded = false)
    (hresting : state.processQueue.consuming = false →
      state.processQueue.msgTreeMap.isEmpty = true) : state.Attended := by
  cases hconsuming : state.processQueue.consuming with
  | false => exact Or.inl (hresting hconsuming)
  | true => exact Or.inr (by rw [hlife.carried hkept hconsuming]; exact Nat.one_pos)

theorem QueueLifeState.Attended.found (hlife : OrderlyLife state)
    (hmode : config.pull.consumeOrderly = true) (hplace : state.place = .registered)
    {msgs : List MessageExt} (hgood : state.discarded = true → msgs = [])
    (hattended : state.processQueue.droped = true → state.Attended) :
    (state.found config msgs).Attended := by
  have hafter : (state.found config msgs).processQueue.msgTreeMap.isEmpty =
      (state.processQueue.msgTreeMap.isEmpty && msgs.isEmpty) :=
    putMessage_isEmpty state.processQueue msgs
  cases hdiscarded : state.discarded with
  | true =>
    obtain ⟨hzero, -, hdroped⟩ := hlife.discarded hdiscarded
    have hempty : state.processQueue.msgTreeMap.isEmpty = true :=
      (hattended hdroped).resolve_right (by omega)
    exact Or.inl (by rw [hafter, hempty, hgood hdiscarded]; rfl)
  | false =>
    refine (hlife.found hmode (hplace ▸ ⟨rfl, rfl⟩) msgs).attended_of_kept hdiscarded fun hoff ↦ ?_
    rcases putMessage_consuming state.processQueue msgs with ⟨-, -, hon⟩ | ⟨-, hsame, hempty⟩
    · exact absurd (hon.symm.trans hoff) (by decide)
    · exact hempty (hsame.symm.trans hoff)

/-- A request that does not give up a dropped queue with messages leaves them attended. -/
theorem QueueLifeState.Attended.request {index : ℕ} {phase : RequestPhase} (input : RequestInput)
    (hget : state.orderly.requests[index]? = some phase) (hattended : state.Attended)
    (hgood : phase.givesUp = true → state.processQueue.msgTreeMap.isEmpty = true)
    (discarded : Bool) :
    QueueLifeState.Attended { state with
      orderly := state.orderly.afterRequest config.messageModel
        config.consumeMessageBatchMaxSize index phase input
      discarded := discarded } := by
  have hgivesUp : phase.givesUp = true →
      (phase.advance config.messageModel config.consumeMessageBatchMaxSize state.processQueue
        input).processQueue.msgTreeMap.isEmpty = true := fun hgives ↦ by
    rw [RequestPhase.advance_givesUp _ _ _ _ hgives]
    exact hgood hgives
  rcases afterRequest_cases config.messageModel config.consumeMessageBatchMaxSize input hget with
    ⟨rfl, -, -⟩ | ⟨hleaves, -, -⟩ | ⟨-, -, htokens, -⟩
  · exact Or.inl (hgivesUp rfl)
  · cases phase with
    | looping beginTime => exact Or.inl (hgivesUp rfl)
    | _ => exact absurd hleaves (by simp [RequestPhase.leavesDroped])
  · rcases Nat.eq_zero_or_pos state.orderly.tokens with hzero | hpos
    · -- without a token the request is past its loop and touches no message
      have hempty : state.processQueue.msgTreeMap.isEmpty = true :=
        hattended.resolve_right (by omega)
      refine Or.inl (RequestPhase.advance_tree _ _ _ _ ?_ hempty)
      rintro beginTime msgs rfl
      have hone := carries_le_tokens hget
      rw [hzero] at hone
      simp [RequestPhase.carries] at hone
    · exact Or.inr (htokens ▸ hpos)

/-- A move under its condition leaves the messages of a dropped queue attended. -/
theorem QueueLifeState.Attended.of_move (hlife : OrderlyLife state)
    (hmode : config.pull.consumeOrderly = true) (hmove : DrainMove config state condition next)
    (hgood : condition) (hattended : state.processQueue.droped = true → state.Attended) :
    next.processQueue.droped = true → next.Attended := by
  intro hdroped
  cases hmove with
  | keep horderly hconcurrent hdiscarded hplace =>
    rw [QueueLifeState.processQueue, horderly] at hdroped
    rw [QueueLifeState.Attended, QueueLifeState.processQueue, horderly]
    exact hattended hdroped
  | drop hplace => exact hgood
  | lock locked now => exact hattended hdroped
  | found hplace msgs => exact QueueLifeState.Attended.found hlife hmode hplace hgood hattended
  | @submit place msgs dispathToConsume hplace hquiet =>
    cases dispathToConsume with
    | false => exact hattended hdroped
    | true =>
      have hone : state.orderly.submitting = 1 := by
        rw [hlife.submitting, hplace]
        rfl
      refine (hattended hdroped).imp_right fun hpos ↦ ?_
      exact hpos.trans_eq (tokens_submit (hone ▸ Nat.one_pos)).symm
  | @request index phase input hget =>
    have hbefore : state.processQueue.droped = true :=
      (RequestPhase.advance_flags _ _ _ _ phase).1.symm.trans hdroped
    exact QueueLifeState.Attended.request input hget (hattended hbefore) (hgood hbefore) _

end OrderlySteps

/-! ### Messages without a request -/

/-- The request has found the queue not dropped and has not come back to look again. -/
def RequestPhase.pastCheck : RequestPhase → Bool
  | .notDroped _ | .locked _ | .unexpired _ | .taking _ | .listening _ _ | .clearing => true
  | _ => false

/-- A dropped queue with messages that no request is going to take: every request that still comes
looks at the dropped flag first. -/
structure Clogged (state : QueueLifeState) : Prop where
  droped : state.processQueue.droped = true
  messages : state.processQueue.msgTreeMap.isEmpty = false
  requests : ∀ phase ∈ state.orderly.requests, phase.pastCheck = false

section Clogging

variable {config : LifeConfig} {state next : QueueLifeState} {condition : Prop}

/-- A request that is to look at the flag of a dropped queue first does not touch the queue. -/
theorem RequestPhase.advance_pastCheck (messageModel : MessageModel) (batchSize : ℤ)
    {queue : ProcessQueue} (input : RequestInput) {phase : RequestPhase}
    (hdroped : queue.droped = true) (hbefore : phase.pastCheck = false) :
    (phase.advance messageModel batchSize queue input).processQueue = queue ∧
      (phase.advance messageModel batchSize queue input).phase.pastCheck = false := by
  cases phase with
  | queued => exact ⟨rfl, rfl⟩
  | entered =>
    simp only [advance]
    (repeat' split) <;> exact ⟨rfl, rfl⟩
  | entering =>
    simp only [advance]
    split <;> exact ⟨rfl, rfl⟩
  | looping beginTime =>
    simp only [advance, hdroped, if_true]
    exact ⟨trivial, rfl⟩
  | leaving => exact ⟨rfl, rfl⟩
  | finished => exact ⟨rfl, rfl⟩
  | tryLockLater => exact ⟨rfl, rfl⟩
  | submitLater => exact ⟨rfl, rfl⟩
  | _ => exact absurd hbefore (by simp [pastCheck])

/-- Without a token no request is past its look at the flag. -/
theorem not_pastCheck_of_tokens {orderly : OrderlyRequestState} (hzero : orderly.tokens = 0)
    {phase : RequestPhase} (hphase : phase ∈ orderly.requests) : phase.pastCheck = false := by
  have hnone : orderly.requests.countP RequestPhase.carries = 0 := by
    rw [OrderlyRequestState.tokens] at hzero
    omega
  have hidle := List.countP_eq_zero.mp hnone phase hphase
  cases phase with
  | leaving => rfl
  | finished => rfl
  | _ => exact absurd rfl hidle

/-- What is not attended is clogged once the queue is dropped. -/
theorem clogged_of_not_attended (hdroped : state.processQueue.droped = true)
    (hbad : ¬ state.Attended) : Clogged state := by
  rw [QueueLifeState.Attended, not_or] at hbad
  exact ⟨hdroped, Bool.eq_false_of_not_eq_true hbad.1, fun phase hphase ↦
    not_pastCheck_of_tokens (Nat.eq_zero_of_not_pos hbad.2) hphase⟩

/-- A move that does not meet its condition clogs the queue. -/
theorem clogged_of_move (hlife : OrderlyLife state) (hmove : DrainMove config state condition next)
    (hbad : ¬ condition) : Clogged next := by
  cases hmove with
  | keep horderly hconcurrent hdiscarded hplace => exact absurd trivial hbad
  | lock locked now => exact absurd trivial hbad
  | submit hplace hquiet => exact absurd trivial hbad
  | drop hplace => exact clogged_of_not_attended rfl hbad
  | found hplace msgs =>
    obtain ⟨hdiscarded, hsome⟩ := Classical.not_imp.mp hbad
    obtain ⟨hzero, -, hdroped⟩ := hlife.discarded hdiscarded
    refine ⟨(ProcessQueue.putMessage_droped _ msgs).trans hdroped, ?_,
      fun phase hphase ↦ not_pastCheck_of_tokens hzero hphase⟩
    refine (putMessage_isEmpty state.processQueue msgs).trans ?_
    rw [Bool.eq_false_of_not_eq_true (fun hnil ↦ hsome (List.isEmpty_iff.mp hnil)), Bool.and_false]
  | @request index phase input hget =>
    obtain ⟨hdroped, hgives, hmessages⟩ : state.processQueue.droped = true ∧
        phase.givesUp = true ∧ state.processQueue.msgTreeMap.isEmpty = false := by
      simpa using hbad
    have hone := hlife.token.atMostOne
    have hzero : (state.orderly.afterRequest config.messageModel config.consumeMessageBatchMaxSize
        index phase input).tokens = 0 := by
      rcases afterRequest_cases config.messageModel config.consumeMessageBatchMaxSize input hget
        with ⟨-, htokens, -⟩ | ⟨-, htokens, -⟩ | ⟨hclearing, hstays, -, -⟩
      · omega
      · omega
      · cases phase with
        | looping beginTime => exact absurd (hstays.symm.trans hdroped) (by decide)
        | clearing => exact absurd rfl hclearing
        | _ => exact absurd hgives (by simp [RequestPhase.givesUp])
    refine ⟨(RequestPhase.advance_flags _ _ _ _ phase).1.trans hdroped, ?_,
      fun found hfound ↦ not_pastCheck_of_tokens hzero hfound⟩
    show (phase.advance _ _ state.processQueue input).processQueue.msgTreeMap.isEmpty = false
    rw [RequestPhase.advance_givesUp _ _ _ _ hgives]
    exact hmessages

/-- A clogged queue stays clogged. -/
theorem Clogged.of_move (hclogged : Clogged state) (hmove : DrainMove config state condition next) :
    Clogged next := by
  cases hmove with
  | keep horderly hconcurrent hdiscarded hplace =>
    have hqueue : next.processQueue = state.processQueue :=
      congrArg OrderlyRequestState.processQueue horderly
    exact ⟨hqueue ▸ hclogged.droped, hqueue ▸ hclogged.messages, horderly ▸ hclogged.requests⟩
  | drop hplace => exact ⟨rfl, hclogged.messages, hclogged.requests⟩
  | lock locked now => exact ⟨hclogged.droped, hclogged.messages, hclogged.requests⟩
  | found hplace msgs =>
    refine ⟨(ProcessQueue.putMessage_droped _ msgs).trans hclogged.droped, ?_, hclogged.requests⟩
    refine (putMessage_isEmpty state.processQueue msgs).trans ?_
    rw [hclogged.messages, Bool.false_and]
  | @submit place msgs dispathToConsume hplace hquiet =>
    cases dispathToConsume with
    | false => exact ⟨hclogged.droped, hclogged.messages, hclogged.requests⟩
    | true =>
      refine ⟨hclogged.droped, hclogged.messages, fun phase hphase ↦ ?_⟩
      rcases List.mem_append.mp hphase with hbefore | hsubmitted
      · exact hclogged.requests phase hbefore
      · rw [List.mem_singleton.mp hsubmitted]
        rfl
  | @request index phase input hget =>
    obtain ⟨hqueue, hafter⟩ := phase.advance_pastCheck config.messageModel
      config.consumeMessageBatchMaxSize input hclogged.droped
      (hclogged.requests phase (List.mem_of_getElem? hget))
    have hsame : (state.orderly.afterRequest config.messageModel config.consumeMessageBatchMaxSize
        index phase input).processQueue = state.processQueue := hqueue
    refine ⟨(congrArg ProcessQueue.droped hsame).trans hclogged.droped, ?_, fun found hfound ↦ ?_⟩
    · exact (congrArg (·.msgTreeMap.isEmpty) hsame).trans hclogged.messages
    · rcases mem_advanceTask hfound with hbefore | hmoved | hsubmitted
      · exact hclogged.requests found hbefore
      · exact hmoved ▸ hafter
      · rcases RequestPhase.advance_submitted _ _ _ _ hsubmitted with rfl | rfl <;> rfl

/-- `pullMessage` puts the pull request of a clogged queue off. -/
theorem Clogged.putsOff (hclogged : Clogged state) : state.PutsOff config := by
  refine ⟨hclogged.droped, hclogged.messages, fun next hstep ↦ ?_⟩
  obtain ⟨-, rfl⟩ := Option.ite_some_none_eq_some.mp hstep
  simp [hclogged.droped, hclogged.messages]

end Clogging

/-! ### Runs -/

/-- The invariant of orderly consumption while no step leaves messages without a request. -/
structure OrderlyDrain (state : QueueLifeState) : Prop where
  life : OrderlyLife state
  attended : state.processQueue.droped = true → state.Attended

/-- A dropped queue at rest has no token, so that its messages are attended when there are none. -/
theorem OrderlyDrain.isEmpty {state : QueueLifeState} (hdrain : OrderlyDrain state)
    (hdroped : state.processQueue.droped = true) (hrest : state.AtRest) :
    state.processQueue.msgTreeMap.isEmpty = true := by
  refine (hdrain.attended hdroped).resolve_right (Nat.not_lt.mpr (Nat.le_of_eq ?_))
  have hnone : state.orderly.requests.countP RequestPhase.carries = 0 := by
    refine List.countP_eq_zero.mpr fun phase hphase ↦ ?_
    rw [hrest.orderly phase hphase]
    decide
  rw [OrderlyRequestState.tokens, hnone, hdrain.life.submitting, hrest.quiet.2]
  rfl

section Runs

variable {config : LifeConfig}

theorem OrderlyDrain.step (hmode : config.pull.consumeOrderly = true)
    (state : QueueLifeState) (event : QueueLifeEvent) (next : QueueLifeState)
    (hdrain : OrderlyDrain state) (hgood : state.KeepsAttended config event)
    (hstep : (queueDrainSystem config).step state event = some next) : OrderlyDrain next := by
  obtain ⟨condition, hiff, hmove⟩ := drainStep_move hmode hdrain.life.concurrent hstep
  exact ⟨hdrain.life.of_move hmode hmove, QueueLifeState.Attended.of_move hdrain.life hmode hmove
    (hiff.mp (hgood hmode)) hdrain.attended⟩

/-- In every run of a pull request of either consume service: a dropped queue of concurrent
consumption at rest is empty and its pull request deleted; so is one of orderly consumption when no
step leaves messages of a dropped queue without a request; and when some step does, the queue is
left dropped with messages and `pullMessage` puts the pull request off. -/
theorem dropped_queue_drains {now : ℤ} {events : List QueueLifeEvent} {last : QueueLifeState}
    (hrun : (queueDrainSystem config).run (QueueLifeState.initial now) events = some last) :
    (config.pull.consumeOrderly = false → last.Drains config) ∧
      ((queueDrainSystem config).Along (QueueLifeState.KeepsAttended config)
        (QueueLifeState.initial now) events → last.Drains config) ∧
      (¬ (queueDrainSystem config).Along (QueueLifeState.KeepsAttended config)
        (QueueLifeState.initial now) events → last.PutsOff config) := by
  cases hmode : config.pull.consumeOrderly with
  | false =>
    have hdrains := concurrent_queue_drains hmode hrun
    refine ⟨fun _ ↦ hdrains, fun _ ↦ hdrains, fun hbad ↦ absurd ?_ hbad⟩
    refine EventSystem.along_mono (fun state event _ horderly ↦ ?_)
      (EventSystem.along_true (QueueLifeState.initial now) events)
    exact absurd (horderly.symm.trans hmode) (by decide)
  | true =>
    have hinitial : OrderlyDrain (QueueLifeState.initial now) :=
      ⟨orderlyLife_initial now, fun _ ↦ Or.inl rfl⟩
    refine ⟨fun hother ↦ absurd hother (by decide), fun halong ↦ ?_, fun hbad ↦ ?_⟩
    · have hdrain := EventSystem.run_invariant_of_along
        (fun state event next hgood hstep hinvariant ↦
          OrderlyDrain.step hmode state event next hinvariant hgood hstep) halong hrun hinitial
      exact QueueLifeState.drains_of_isEmpty hdrain.isEmpty
    · have hclogged : OrderlyLife last ∧ Clogged last := by
        refine @EventSystem.broken_of_not_along _ _ _ _ OrderlyDrain
          (fun state ↦ OrderlyLife state ∧ Clogged state) (OrderlyDrain.step hmode) ?_ ?_ _ _ _
          hrun hinitial hbad
        · intro state event next hdrain hbad hstep
          obtain ⟨condition, hiff, hmove⟩ := drainStep_move hmode hdrain.life.concurrent hstep
          exact ⟨hdrain.life.of_move hmode hmove,
            clogged_of_move hdrain.life hmove fun hgood ↦ hbad fun _ ↦ hiff.mpr hgood⟩
        · intro state event next hstep hbroken
          obtain ⟨condition, -, hmove⟩ := drainStep_move hmode hbroken.1.concurrent hstep
          exact ⟨hbroken.1.of_move hmode hmove, hbroken.2.of_move hmove⟩
      exact hclogged.2.putsOff

end Runs

/-- An orderly consumer of the sample run. -/
def sampleOrderly : LifeConfig := ⟨{ sampleConfig with consumeOrderly := true }, .clustering, 1⟩

/-- A pull of one message whose orderly request is submitted. -/
def sampleOrderlyPull : List QueueLifeEvent :=
  [.setLocked true 0] ++ samplePullFound ++ [.submitConsumeRequest]

/-- The next step of the only request. -/
def sampleRequest : QueueLifeEvent := .orderlyRequest 0 ⟨0, some .success, true⟩

/-- The request consumes its message and finds no other before the queue is dropped. -/
theorem dropped_queue_drains_consumed :
    ∃ last, (queueDrainSystem sampleOrderly).run (QueueLifeState.initial 0)
        (sampleOrderlyPull ++ List.replicate 16 sampleRequest ++
          [.setDroped, .eraseEntry, .takeFront]) = some last ∧
      last.processQueue.droped = true ∧ last.AtRest ∧ last.Drains sampleOrderly := by
  have hview : ((queueDrainSystem sampleOrderly).run (QueueLifeState.initial 0)
      (sampleOrderlyPull ++ List.replicate 16 sampleRequest ++
        [.setDroped, .eraseEntry, .takeFront])).map (fun last ↦
          (last.processQueue.droped, last.orderly.requests, last.concurrent, last.place)) =
      some (true, [.finished], [], .entered) := by decide
  obtain ⟨last, hrun, hlast⟩ := Option.map_eq_some_iff.mp hview
  obtain ⟨hdroped, hrequests, hconcurrent, hplace⟩ : last.processQueue.droped = true ∧
      last.orderly.requests = [.finished] ∧ last.concurrent = [] ∧ last.place = .entered := by
    simpa using hlast
  refine ⟨last, hrun, hdroped, ⟨?_, ?_, ?_, ?_⟩, (dropped_queue_drains hrun).2.1 (by decide)⟩
  · simp [hrequests]
  · simp [hconcurrent]
  · simp [hplace]
  · simp [hplace]

/-- The queue is dropped while the request of its message is queued: the request leaves with the
message in the tree map, and the pull request is never deleted. -/
theorem dropped_queue_keeps_messages :
    ¬ ∀ (config : LifeConfig) (now : ℤ) (events : List QueueLifeEvent) (last : QueueLifeState),
      (queueDrainSystem config).run (QueueLifeState.initial now) events = some last →
        last.Drains config := by
  intro hdrains
  have hview : ((queueDrainSystem sampleOrderly).run (QueueLifeState.initial 0)
      (sampleOrderlyPull ++ [.setDroped, .eraseEntry] ++ List.replicate 5 sampleRequest)).map
        (fun last ↦ ((last.processQueue.droped, last.processQueue.msgTreeMap.isEmpty),
          last.orderly.requests, last.concurrent, last.place)) =
      some ((true, false), [.finished], [], .queued) := by decide
  obtain ⟨last, hrun, hlast⟩ := Option.map_eq_some_iff.mp hview
  obtain ⟨⟨hdroped, hmessages⟩, hrequests, hconcurrent, hplace⟩ :
      (last.processQueue.droped = true ∧ last.processQueue.msgTreeMap.isEmpty = false) ∧
        last.orderly.requests = [.finished] ∧ last.concurrent = [] ∧ last.place = .queued := by
    simpa using hlast
  have hrest : last.AtRest := by
    refine ⟨?_, ?_, ?_, ?_⟩
    · simp [hrequests]
    · simp [hconcurrent]
    · simp [hplace]
    · simp [hplace]
  have hempty := (hdrains sampleOrderly 0 _ last hrun hdroped hrest).1
  exact absurd (hmessages.symm.trans hempty) (by decide)

end RocketMQClient.Consumer
