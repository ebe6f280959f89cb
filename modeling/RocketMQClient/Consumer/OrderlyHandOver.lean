import RocketMQClient.Consumer.OrderlyRequest

/-!
# Handing an orderly queue over

In clustering mode a queue that is consumed in order belongs to the client that the broker has
granted it to. A rebalance that takes the queue away from a client marks its process queue as
dropped and sends the unlock request, in `removeUnnecessaryMessageQueue`, without the lock of the
message queue that a consume request holds while it runs. `handOverSystem` has any number of clients
with the process queues they have had for one message queue, and a broker that grants the queue to
one client at a time. A grant travels to its client: it is applied to the process queue in the table
of the client when the answer arrives.

A consume request looks at the dropped flag once per round, so it may take a batch and be inside the
listener when the unlock is sent, and the next client starts to consume (`two_clients_listen`). In
every run in which no request is past its look at the flag when the unlock is sent, and in which a
grant arrives while it is valid, no batch is inside the listener once the unlock has been sent, and
listeners of two clients never run at once (`orderly_hand_over`).

The broker is the only one who knows which client has the queue; a client knows the answers it got.
So the invariant is about the answers on their way as well as about the process queues, and the two
ways to go wrong are a request that looked before the drop and an answer that arrives after the
queue has gone to somebody else.
-/

set_option autoImplicit false
set_option relaxedAutoImplicit false

namespace RocketMQClient.Consumer

open Library Messages

/-- How far a rebalance has removed a process queue. -/
inductive RemovalStage where
  | inTable
  /-- `removeUnnecessaryMessageQueue` has sent the unlock request. -/
  | unlocked
  /-- The entry is out of the table. -/
  | erased
  deriving DecidableEq

/-- A process queue that a client has or had for the message queue, with its consume requests. -/
structure Assignment where
  client : ℕ
  consumption : OrderlyRequestState
  stage : RemovalStage
  deriving DecidableEq

/-- The process queues of all clients, the client the broker has granted the queue to, and the
grants on their way to clients. -/
structure HandOverState where
  assignments : List Assignment
  holder : Option ℕ
  grants : List ℕ
  deriving DecidableEq

/-- The steps of the clients and of the broker. -/
inductive HandOverEvent where
  /-- A rebalance of a client creates a process queue. -/
  | assign (client : ℕ) (now : ℤ)
  /-- A step of the pull callback, of a consume request or of `setDroped`, or a lost lock. -/
  | consume (index : ℕ) (event : OrderlyRequestEvent)
  /-- The broker answers a lock request of a client. -/
  | lockBatchMQ (client : ℕ)
  /-- `lock` or `lockAll` of a client applies a grant. -/
  | setLocked (client : ℕ) (now : ℤ)
  /-- `removeUnnecessaryMessageQueue` sends the unlock request. -/
  | unlock (index : ℕ)
  | erase (index : ℕ)

/-- The event sets the lock flag of a process queue. -/
def OrderlyRequestEvent.grantsLock : OrderlyRequestEvent → Bool
  | .setLocked locked _ => locked
  | _ => false

namespace RequestPhase

/-- The request has found the queue not dropped in this round. -/
def pastDropCheck : RequestPhase → Bool
  | .notDroped _ | .locked _ | .unexpired _ | .taking _ | .listening _ _ => true
  | _ => false

/-- The request has found the queue locked in this round. -/
def pastLockCheck : RequestPhase → Bool
  | .locked _ | .unexpired _ | .taking _ | .listening _ _ => true
  | _ => false

/-- The listener has the batch of the request. -/
def listens : RequestPhase → Bool
  | .listening _ _ => true
  | _ => false

end RequestPhase

namespace Assignment

/-- A batch of the process queue is inside the listener. -/
def listens (assignment : Assignment) : Bool :=
  assignment.consumption.requests.any RequestPhase.listens

/-- A grant that arrives is written into the process queue in the table of the client. -/
def applyGrant (client : ℕ) (now : ℤ) (assignment : Assignment) : Assignment :=
  if assignment.client = client ∧ assignment.stage ≠ .erased then
    { assignment with consumption := { assignment.consumption with
        processQueue := assignment.consumption.processQueue.setLocked true now } }
  else assignment

end Assignment

namespace HandOverState

/-- No client has the queue. -/
def initial : HandOverState := ⟨[], none, []⟩

/-- A process queue is overwritten. -/
def replace (state : HandOverState) (index : ℕ) (assignment : Assignment) : HandOverState :=
  { state with assignments := state.assignments.set index assignment }

/-- One step in clustering mode, for a batch size. A rebalance creates a process queue when the
table has none, sends the unlock request after `setDroped`, and erases the entry after that. -/
def step (batchSize : ℤ) (state : HandOverState) : HandOverEvent → Option HandOverState
  | .assign client now =>
    if ∀ assignment ∈ state.assignments,
        assignment.client = client → assignment.stage = .erased then
      some { state with assignments :=
        state.assignments ++ [⟨client, OrderlyRequestState.initial now, .inTable⟩] }
    else none
  | .consume index event =>
    if event.grantsLock then none
    else (state.assignments[index]?).bind fun assignment ↦
      ((orderlyRequestSystem .clustering batchSize).step assignment.consumption event).map
        fun consumption ↦ state.replace index { assignment with consumption := consumption }
  | .lockBatchMQ client =>
    if state.holder = none ∨ state.holder = some client then
      some { state with holder := some client, grants := state.grants ++ [client] }
    else some state
  | .setLocked client now =>
    if client ∈ state.grants then
      some { state with
        grants := state.grants.erase client
        assignments := state.assignments.map (Assignment.applyGrant client now) }
    else none
  | .unlock index =>
    (state.assignments[index]?).bind fun assignment ↦
      if assignment.stage = .inTable ∧
          assignment.consumption.processQueue.droped = true then
        some { state.replace index { assignment with stage := .unlocked } with
          holder := if state.holder = some assignment.client then none else state.holder }
      else none
  | .erase index =>
    (state.assignments[index]?).bind fun assignment ↦
      if assignment.stage = .unlocked then
        some (state.replace index { assignment with stage := .erased })
      else none

end HandOverState

/-- The clients that share one message queue. -/
def handOverSystem (batchSize : ℤ) : EventSystem HandOverState HandOverEvent :=
  ⟨HandOverState.step batchSize⟩

/-- When the unlock request is sent no request is past its look at the dropped flag, and a grant is
applied while the broker still has the queue for that client. -/
def HandsOver (state : HandOverState) : HandOverEvent → Prop
  | .unlock index => ∀ assignment ∈ state.assignments[index]?,
      assignment.consumption.requests.any RequestPhase.pastDropCheck = false
  | .setLocked client _ => state.holder = some client
  | _ => True

instance (state : HandOverState) (event : HandOverEvent) : Decidable (HandsOver state event) :=
  match event with
  | .unlock index => inferInstanceAs (Decidable (∀ assignment ∈ state.assignments[index]?, _))
  | .setLocked _ _ => inferInstanceAs (Decidable (_ = _))
  | .assign _ _ => isTrue trivial
  | .consume _ _ => isTrue trivial
  | .lockBatchMQ _ => isTrue trivial
  | .erase _ => isTrue trivial

/-- No batch is inside the listener of a process queue whose unlock request has been sent, and only
one client listens. -/
structure Exclusive (state : HandOverState) : Prop where
  afterUnlock : ∀ assignment ∈ state.assignments, assignment.stage ≠ .inTable →
    assignment.listens = false
  oneClient : ∀ first ∈ state.assignments, ∀ second ∈ state.assignments,
    first.listens = true → second.listens = true → first.client = second.client

/-! ### The invariant -/

/-- A process queue whose unlock has been sent is dropped and no request of it is past its look at
the flag; one in the table that is locked, or has a request that found it locked, is granted. -/
structure Assignment.Sound (holder : Option ℕ) (assignment : Assignment) : Prop where
  gone : assignment.stage ≠ .inTable → assignment.consumption.processQueue.droped = true ∧
    ∀ phase ∈ assignment.consumption.requests, phase.pastDropCheck = false
  locked : assignment.stage = .inTable → assignment.consumption.processQueue.locked = true →
    holder = some assignment.client
  checked : assignment.stage = .inTable → ∀ phase ∈ assignment.consumption.requests,
    phase.pastLockCheck = true → holder = some assignment.client

/-- Every process queue is sound, and a client has at most one in its table. -/
structure HandOverInvariant (state : HandOverState) : Prop where
  sound : ∀ assignment ∈ state.assignments, assignment.Sound state.holder
  single : ∀ (first second : ℕ) (firstAssignment secondAssignment : Assignment),
    state.assignments[first]? = some firstAssignment →
    state.assignments[second]? = some secondAssignment →
    firstAssignment.client = secondAssignment.client →
    firstAssignment.stage ≠ .erased → secondAssignment.stage ≠ .erased → first = second

theorem RequestPhase.pastLockCheck_of_listens {phase : RequestPhase}
    (hlistens : phase.listens = true) : phase.pastLockCheck = true := by
  cases phase <;> first | rfl | exact hlistens

theorem RequestPhase.pastDropCheck_of_pastLockCheck {phase : RequestPhase}
    (hpast : phase.pastLockCheck = true) : phase.pastDropCheck = true := by
  cases phase <;> first | rfl | exact hpast

theorem HandOverInvariant.exclusive {state : HandOverState} (hinvariant : HandOverInvariant state) :
    Exclusive state := by
  have hafter : ∀ assignment ∈ state.assignments, assignment.stage ≠ .inTable →
      assignment.listens = false := by
    intro assignment hmem hstage
    by_contra hlistens
    obtain ⟨phase, hphase, hlistening⟩ :=
      List.any_eq_true.mp (Bool.eq_true_of_not_eq_false hlistens)
    have hpast := RequestPhase.pastDropCheck_of_pastLockCheck
      (RequestPhase.pastLockCheck_of_listens hlistening)
    exact absurd (((hinvariant.sound assignment hmem).gone hstage).2 phase hphase) (by simp [hpast])
  have hholder : ∀ assignment ∈ state.assignments, assignment.listens = true →
      state.holder = some assignment.client := by
    intro assignment hmem hlistens
    have hstage : assignment.stage = .inTable := by
      by_contra hstage
      exact absurd (hafter assignment hmem hstage) (by simp [hlistens])
    obtain ⟨phase, hphase, hlistening⟩ := List.any_eq_true.mp hlistens
    exact (hinvariant.sound assignment hmem).checked hstage phase hphase
      (RequestPhase.pastLockCheck_of_listens hlistening)
  refine ⟨hafter, fun first hfirst second hsecond hlistens hlistens' ↦ ?_⟩
  exact Option.some.inj ((hholder first hfirst hlistens).symm.trans
    (hholder second hsecond hlistens'))

/-! ### The steps of one client -/

section Phases

variable {batchSize : ℤ} {queue : ProcessQueue} {input : RequestInput} {phase : RequestPhase}

/-- A request gets past its look at the dropped flag when the queue is not dropped. -/
theorem advance_pastDropCheck
    (hpast : (phase.advance .clustering batchSize queue input).phase.pastDropCheck = true) :
    phase.pastDropCheck = true ∨ queue.droped = false := by
  cases phase with
  | looping beginTime =>
    simp only [RequestPhase.advance] at hpast
    split at hpast
    · exact absurd hpast (by simp [RequestPhase.pastDropCheck])
    · rename_i hlive
      exact Or.inr (Bool.eq_false_of_not_eq_true hlive)
  | notDroped _ | locked _ | unexpired _ | taking _ | listening _ _ => exact Or.inl rfl
  | _ =>
    simp only [RequestPhase.advance] at hpast
    (repeat' split at hpast) <;> exact absurd hpast (by simp [RequestPhase.pastDropCheck])

/-- A request gets past its look at the lock when the queue is locked. -/
theorem advance_pastLockCheck
    (hpast : (phase.advance .clustering batchSize queue input).phase.pastLockCheck = true) :
    phase.pastLockCheck = true ∨ phase.pastDropCheck = true ∧ queue.locked = true := by
  cases phase with
  | notDroped beginTime =>
    simp only [RequestPhase.advance] at hpast
    split at hpast
    · exact absurd hpast (by simp [RequestPhase.pastLockCheck])
    · rename_i hlocked
      refine Or.inr ⟨rfl, ?_⟩
      by_contra hunlocked
      exact hlocked ⟨trivial, Bool.eq_false_of_not_eq_true hunlocked⟩
  | locked _ | unexpired _ | taking _ | listening _ _ => exact Or.inl rfl
  | _ =>
    simp only [RequestPhase.advance] at hpast
    (repeat' split at hpast) <;> exact absurd hpast (by simp [RequestPhase.pastLockCheck])

/-- What a request submits is past nothing. -/
theorem submitted_past {submitted : RequestPhase}
    (hmem : submitted ∈ (phase.advance .clustering batchSize queue input).submitted) :
    submitted.pastDropCheck = false ∧ submitted.pastLockCheck = false := by
  rcases RequestPhase.advance_submitted .clustering batchSize queue input hmem with rfl | rfl
  · exact ⟨rfl, rfl⟩
  · exact ⟨rfl, rfl⟩

end Phases

namespace Assignment.Sound

variable {batchSize : ℤ} {holder : Option ℕ} {assignment : Assignment}

/-- A change of the process queue that does not lift the drop or set the lock. -/
theorem of_queue (hsound : assignment.Sound holder) {processQueue : ProcessQueue}
    (submitting : ℕ)
    (hdroped : assignment.consumption.processQueue.droped = true → processQueue.droped = true)
    (hlocked : processQueue.locked = true → assignment.consumption.processQueue.locked = true) :
    Sound holder { assignment with consumption := { assignment.consumption with
      processQueue := processQueue, submitting := submitting } } where
  gone hstage := ⟨hdroped (hsound.gone hstage).1, (hsound.gone hstage).2⟩
  locked hstage hnext := hsound.locked hstage (hlocked hnext)
  checked := hsound.checked

/-- A step of a consume request. -/
theorem request (hsound : assignment.Sound holder) {index : ℕ} {phase : RequestPhase}
    (input : RequestInput) (hget : assignment.consumption.requests[index]? = some phase) :
    Sound holder { assignment with consumption :=
      assignment.consumption.afterRequest .clustering batchSize index phase input } := by
  obtain ⟨hdroped, hlocked, -⟩ := RequestPhase.advance_flags .clustering batchSize
    assignment.consumption.processQueue input phase
  have hmem := List.mem_of_getElem? hget
  refine ⟨fun hstage ↦ ⟨hdroped.trans (hsound.gone hstage).1, fun found hfound ↦ ?_⟩,
    fun hstage hnext ↦ hsound.locked hstage (hlocked.symm.trans hnext),
    fun hstage found hfound hpast ↦ ?_⟩
  · obtain ⟨hdrop, hnone⟩ := hsound.gone hstage
    rcases mem_advanceTask hfound with hbefore | rfl | hsubmitted
    · exact hnone found hbefore
    · by_contra hpast
      rcases advance_pastDropCheck (Bool.eq_true_of_not_eq_false hpast) with hphase | hlive
      · exact absurd (hnone phase hmem) (by simp [hphase])
      · exact absurd hdrop (by simp [hlive])
    · exact (submitted_past hsubmitted).1
  · rcases mem_advanceTask hfound with hbefore | rfl | hsubmitted
    · exact hsound.checked hstage found hbefore hpast
    · rcases advance_pastLockCheck hpast with hphase | ⟨-, hnext⟩
      · exact hsound.checked hstage phase hmem hphase
      · exact hsound.locked hstage hnext
    · exact absurd hpast (by simp [(submitted_past hsubmitted).2])

/-- Every step of a client on a process queue, except the arrival of a grant. -/
theorem consume (hsound : assignment.Sound holder) {event : OrderlyRequestEvent}
    {consumption : OrderlyRequestState} (hevent : ¬ event.grantsLock = true)
    (hstep : (orderlyRequestSystem .clustering batchSize).step assignment.consumption event =
      some consumption) :
    Sound holder { assignment with consumption := consumption } := by
  cases event with
  | putMessage msgs =>
    obtain rfl := Option.some.inj hstep
    refine hsound.of_queue _ (fun hdrop ↦ ?_) (fun hnext ↦ ?_)
    · rwa [ProcessQueue.putMessage_droped]
    · rwa [ProcessQueue.putMessage_locked] at hnext
  | submitConsumeRequest =>
    obtain ⟨-, rfl⟩ := Option.ite_some_none_eq_some.mp hstep
    have hold : ∀ phase ∈ assignment.consumption.requests ++ [RequestPhase.queued],
        phase ∈ assignment.consumption.requests ∨ phase = .queued := by simp
    refine ⟨fun hstage ↦ ⟨(hsound.gone hstage).1, fun phase hphase ↦ ?_⟩, hsound.locked,
      fun hstage phase hphase hpast ↦ ?_⟩
    · rcases hold phase hphase with hbefore | rfl
      · exact (hsound.gone hstage).2 phase hbefore
      · rfl
    · rcases hold phase hphase with hbefore | rfl
      · exact hsound.checked hstage phase hbefore hpast
      · exact absurd hpast (by decide)
  | request index input =>
    obtain ⟨phase, hget, -, rfl⟩ := orderlyRequest_cases hstep
    exact hsound.request input hget
  | setDroped =>
    obtain rfl := Option.some.inj hstep
    exact hsound.of_queue _ (fun _ ↦ rfl) id
  | setLocked locked now =>
    cases locked with
    | true => exact absurd rfl hevent
    | false =>
      obtain rfl := Option.some.inj hstep
      exact hsound.of_queue _ id (fun hnext ↦ absurd hnext (by simp [ProcessQueue.setLocked]))

end Assignment.Sound

/-! ### The steps of the system -/

namespace HandOverInvariant

variable {state : HandOverState}

/-- A process queue is overwritten by one of the same client that is no longer in the table or was
in it before, while the broker changes its holder. -/
theorem replace (hinvariant : HandOverInvariant state) {index : ℕ} {old new : Assignment}
    {holder : Option ℕ} (hget : state.assignments[index]? = some old)
    (hclient : new.client = old.client) (hstage : new.stage ≠ .erased → old.stage ≠ .erased)
    (hnew : new.Sound holder)
    (hothers : ∀ (other : ℕ) (assignment : Assignment), other ≠ index →
      state.assignments[other]? = some assignment → assignment.Sound state.holder →
      assignment.Sound holder) :
    HandOverInvariant { state.replace index new with holder := holder } := by
  refine ⟨fun assignment hmem ↦ ?_, ?_⟩
  · obtain ⟨other, hother⟩ := List.mem_iff_getElem?.mp hmem
    rcases getElem?_set_cases hget hother with ⟨-, rfl⟩ | ⟨hne, hbefore⟩
    · exact hnew
    · exact hothers other assignment hne hbefore
        (hinvariant.sound assignment (List.mem_of_getElem? hbefore))
  · intro first second firstAssignment secondAssignment hfirst hsecond hclients hlive hlive'
    rcases getElem?_set_cases hget hfirst with ⟨hindex, rfl⟩ | ⟨-, hold⟩
    · rcases getElem?_set_cases hget hsecond with ⟨hindex', -⟩ | ⟨-, hold'⟩
      · exact hindex.trans hindex'.symm
      · exact hindex.trans (hinvariant.single index second old secondAssignment hget hold'
          (hclient.symm.trans hclients) (hstage hlive) hlive')
    · rcases getElem?_set_cases hget hsecond with ⟨hindex', rfl⟩ | ⟨-, hold'⟩
      · exact (hinvariant.single first index firstAssignment old hold hget
          (hclients.trans hclient) hlive (hstage hlive')).trans hindex'.symm
      · exact hinvariant.single first second firstAssignment secondAssignment hold hold' hclients
          hlive hlive'

theorem assign (hinvariant : HandOverInvariant state) {client : ℕ} {now : ℤ}
    (hfree : ∀ assignment ∈ state.assignments,
      assignment.client = client → assignment.stage = .erased) :
    HandOverInvariant { state with assignments :=
      state.assignments ++ [⟨client, OrderlyRequestState.initial now, .inTable⟩] } := by
  refine ⟨fun assignment hmem ↦ ?_, ?_⟩
  · rcases List.mem_append.mp hmem with hbefore | hnew
    · exact hinvariant.sound assignment hbefore
    · obtain rfl := List.mem_singleton.mp hnew
      exact ⟨fun hstage ↦ absurd rfl hstage,
        fun _ hlocked ↦ absurd hlocked (by simp [OrderlyRequestState.initial, ProcessQueue.new]),
        fun _ phase hphase ↦ absurd hphase List.not_mem_nil⟩
  · intro first second firstAssignment secondAssignment hfirst hsecond hclients hlive hlive'
    rcases getElem?_concat_cases hfirst with hold | ⟨hindex, rfl⟩
    · rcases getElem?_concat_cases hsecond with hold' | ⟨hindex', rfl⟩
      · exact hinvariant.single first second firstAssignment secondAssignment hold hold' hclients
          hlive hlive'
      · exact absurd (hfree firstAssignment (List.mem_of_getElem? hold)
          hclients) hlive
    · rcases getElem?_concat_cases hsecond with hold' | ⟨hindex', rfl⟩
      · exact absurd (hfree secondAssignment (List.mem_of_getElem? hold')
          hclients.symm) hlive'
      · exact hindex.trans hindex'.symm

/-- The broker answers a lock request. -/
theorem lockBatchMQ (hinvariant : HandOverInvariant state) {client : ℕ}
    (hfree : state.holder = none ∨ state.holder = some client) (grants : List ℕ) :
    HandOverInvariant { state with holder := some client, grants := grants } := by
  have hkept : ∀ assignment : Assignment, state.holder = some assignment.client →
      some client = some assignment.client := by
    intro assignment hholder
    rcases hfree with hnone | hsome
    · exact absurd (hnone.symm.trans hholder) (Option.some_ne_none _).symm
    · exact hsome.symm.trans hholder
  refine ⟨fun assignment hmem ↦ ?_, hinvariant.single⟩
  have hsound := hinvariant.sound assignment hmem
  exact ⟨hsound.gone, fun hstage hlocked ↦ hkept assignment (hsound.locked hstage hlocked),
    fun hstage phase hphase hpast ↦ hkept assignment (hsound.checked hstage phase hphase hpast)⟩

/-- A grant arrives while the broker has the queue for the client. -/
theorem setLocked (hinvariant : HandOverInvariant state) {client : ℕ} (now : ℤ)
    (hholder : state.holder = some client) (grants : List ℕ) :
    HandOverInvariant { state with
      grants := grants
      assignments := state.assignments.map (Assignment.applyGrant client now) } := by
  have hkept : ∀ assignment : Assignment,
      (assignment.applyGrant client now).client = assignment.client ∧
        (assignment.applyGrant client now).stage = assignment.stage := by
    intro assignment
    unfold Assignment.applyGrant
    split <;> exact ⟨rfl, rfl⟩
  refine ⟨fun granted hmem ↦ ?_, ?_⟩
  · obtain ⟨assignment, hassignment, rfl⟩ := List.mem_map.mp hmem
    have hsound := hinvariant.sound assignment hassignment
    unfold Assignment.applyGrant
    split
    · rename_i hclient
      exact ⟨hsound.gone, fun _ _ ↦ hclient.1 ▸ hholder, hsound.checked⟩
    · exact hsound
  · intro first second firstAssignment secondAssignment hfirst hsecond hclients hlive hlive'
    rw [List.getElem?_map] at hfirst hsecond
    obtain ⟨firstBefore, hfirstBefore, rfl⟩ := Option.map_eq_some_iff.mp hfirst
    obtain ⟨secondBefore, hsecondBefore, rfl⟩ := Option.map_eq_some_iff.mp hsecond
    rw [(hkept firstBefore).1, (hkept secondBefore).1] at hclients
    rw [(hkept firstBefore).2] at hlive
    rw [(hkept secondBefore).2] at hlive'
    exact hinvariant.single first second firstBefore secondBefore hfirstBefore hsecondBefore
      hclients hlive hlive'

/-- The unlock request is sent while no request is past its look at the flag. -/
theorem unlock (hinvariant : HandOverInvariant state) {index : ℕ} {assignment : Assignment}
    (hget : state.assignments[index]? = some assignment) (hstage : assignment.stage = .inTable)
    (hdroped : assignment.consumption.processQueue.droped = true)
    (hnone : assignment.consumption.requests.any RequestPhase.pastDropCheck = false) :
    HandOverInvariant { state.replace index { assignment with stage := .unlocked } with
      holder := if state.holder = some assignment.client then none else state.holder } := by
  refine hinvariant.replace hget rfl (fun _ ↦ by simp [hstage]) ?_ ?_
  · refine ⟨fun _ ↦ ⟨hdroped, fun phase hphase ↦ ?_⟩, fun hin ↦ absurd hin (by simp),
      fun hin ↦ absurd hin (by simp)⟩
    simpa using List.any_eq_false.mp hnone phase hphase
  · intro other found hne hfound hsound
    have hkept : found.stage = .inTable → state.holder = some found.client →
        (if state.holder = some assignment.client then none else state.holder) =
          some found.client := by
      intro hin hholder
      have hother : ¬ state.holder = some assignment.client := by
        intro hsame
        have hclients : found.client = assignment.client :=
          Option.some.inj (hholder.symm.trans hsame)
        exact hne (hinvariant.single other index found assignment hfound hget hclients
          (by simp [hin]) (by simp [hstage]))
      rw [if_neg hother]
      exact hholder
    exact ⟨hsound.gone, fun hin hlocked ↦ hkept hin (hsound.locked hin hlocked),
      fun hin phase hphase hpast ↦ hkept hin (hsound.checked hin phase hphase hpast)⟩

/-- Every step that hands over keeps the invariant. -/
theorem step (hinvariant : HandOverInvariant state) {batchSize : ℤ} {next : HandOverState}
    {event : HandOverEvent} (hgood : HandsOver state event)
    (hstep : (handOverSystem batchSize).step state event = some next) :
    HandOverInvariant next := by
  cases event with
  | assign client now =>
    obtain ⟨hfree, rfl⟩ := Option.ite_some_none_eq_some.mp hstep
    exact hinvariant.assign hfree
  | consume index event =>
    obtain ⟨hevent, hbind⟩ := Option.ite_none_left_eq_some.mp hstep
    obtain ⟨assignment, hget, hmap⟩ := Option.bind_eq_some_iff.mp hbind
    obtain ⟨consumption, hconsume, rfl⟩ := Option.map_eq_some_iff.mp hmap
    have hsound := hinvariant.sound assignment (List.mem_of_getElem? hget)
    exact hinvariant.replace hget rfl id (hsound.consume hevent hconsume)
      fun _ _ _ _ hother ↦ hother
  | lockBatchMQ client =>
    simp only [handOverSystem, HandOverState.step] at hstep
    split at hstep
    · rename_i hfree
      obtain rfl := Option.some.inj hstep
      exact hinvariant.lockBatchMQ hfree _
    · exact Option.some.inj hstep ▸ hinvariant
  | setLocked client now =>
    obtain ⟨-, rfl⟩ := Option.ite_some_none_eq_some.mp hstep
    exact hinvariant.setLocked now hgood _
  | unlock index =>
    obtain ⟨assignment, hget, hunlock⟩ := Option.bind_eq_some_iff.mp hstep
    obtain ⟨⟨hstage, hdroped⟩, rfl⟩ := Option.ite_some_none_eq_some.mp hunlock
    exact hinvariant.unlock hget hstage hdroped (hgood assignment hget)
  | erase index =>
    obtain ⟨assignment, hget, herase⟩ := Option.bind_eq_some_iff.mp hstep
    obtain ⟨hstage, rfl⟩ := Option.ite_some_none_eq_some.mp herase
    have hsound := hinvariant.sound assignment (List.mem_of_getElem? hget)
    refine hinvariant.replace hget rfl (fun hlive ↦ absurd rfl hlive) ?_
      fun _ _ _ _ hother ↦ hother
    exact ⟨fun _ ↦ hsound.gone (by simp [hstage]), fun hin ↦ absurd hin (by simp),
      fun hin ↦ absurd hin (by simp)⟩

end HandOverInvariant

end RocketMQClient.Consumer
