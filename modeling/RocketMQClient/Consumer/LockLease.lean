import RocketMQClient.Consumer.OrderlyHandOver
import RocketMQClient.Library.Lease

/-!
# The lock of an orderly queue runs out

A client that has stopped cannot give its queues back, so the lock of a message queue is a lease.
The broker gives a queue to a client, and to another one when it was not locked again for
`maxLiveTime`. The client notes its own clock when the answer of the broker arrives, and a consume
request trusts the lock for `rebalanceLockMaxLiveTime` from then on: it looks at the flags and at
the clock before every batch.

`lockLeaseSystem` is `handOverSystem` with time: clients with clocks of their own, a broker whose
locks run out, answers and unlock requests on their way. `Timely` asks that an answer arrives within
`delay`, that unlock requests are not overtaken by later lock requests, and that none is sent while
a request is past its look at the dropped flag. Then, whichever clients stop and whenever, a request
that passes the looks belongs to the client that has the lock, and requests of two clients never
pass them at the same time (`lock_lease`). `late_answer_two_clients` is a run in which an answer
arrives late and two clients start a batch at once. What `lock` and `lockAll` do to the process
queue of one message queue is shown with the requests they send.

The clocks of the clients differ from that of the broker by constants only, so that a time that a
client notes can be compared with the time of the run. `Lease` of the library says when a note
vouches for the lock; a lock that has been given to another client in between would have run out
(`Lease.Vouched`), and this is where the bound on the delay is used.
-/

set_option autoImplicit false
set_option relaxedAutoImplicit false

namespace RocketMQClient.Consumer

open Library Messages

/-- An answer of the broker on its way: to which client, when the broker gave it, and whether the
client has sent an unlock request since. -/
structure LockGrant where
  client : ℕ
  grantedAt : ℤ
  revoked : Bool
  deriving DecidableEq

/-- The time since the run began, the process queues of all clients, the lock at the broker, and the
answers and unlock requests on their way. -/
structure LockLeaseState where
  now : ℤ
  assignments : List Assignment
  lock : Option (Lease ℕ)
  grants : List LockGrant
  unlocks : List ℕ
  deriving DecidableEq

/-- The steps of the clients and of the broker. -/
inductive LockLeaseEvent where
  | pass (millis : ℕ)
  /-- A rebalance of a client creates a process queue. -/
  | assign (client : ℕ)
  /-- A step of the pull callback, of a consume request or of `setDroped`, or a lost lock. -/
  | consume (index : ℕ) (event : OrderlyRequestEvent)
  /-- The broker answers a lock request of a client. -/
  | lockBatchMQ (client : ℕ)
  /-- `lock` or `lockAll` applies an answer. -/
  | setLocked (answer : ℕ)
  /-- `removeUnnecessaryMessageQueue` sends the unlock request. -/
  | unlock (index : ℕ)
  | erase (index : ℕ)
  /-- An unlock request arrives at the broker. -/
  | unlockBatchMQ (position : ℕ)

/-- The time that a request reads is the one of its client. -/
def OrderlyRequestEvent.readsClock (now : ℤ) : OrderlyRequestEvent → Bool
  | .request _ input => input.now = now
  | .putMessage _ | .submitConsumeRequest | .setDroped | .setLocked _ _ => true

/-- An unlock request of a client makes the answers to it worthless that are on their way. -/
def LockGrant.revoke (client : ℕ) (grant : LockGrant) : LockGrant :=
  if grant.client = client then { grant with revoked := true } else grant

/-- A request that looks at the flags and at the clock goes on to the messages. -/
def Assignment.mayConsume (now : ℤ) (assignment : Assignment) : Bool :=
  assignment.consumption.processQueue.locked &&
    !assignment.consumption.processQueue.isLockExpired now &&
    (!assignment.consumption.processQueue.droped ||
      assignment.consumption.requests.any RequestPhase.pastDropCheck)

namespace LockLeaseState

/-- No client has the queue. -/
def initial : LockLeaseState := ⟨0, [], none, [], []⟩

/-- A process queue is overwritten. -/
def replace (state : LockLeaseState) (index : ℕ) (assignment : Assignment) : LockLeaseState :=
  { state with assignments := state.assignments.set index assignment }

/-- One step in clustering mode, for the duration of a lock at the broker, what the clocks of the
clients show at the beginning, and a batch size. -/
def step (maxLiveTime : ℤ) (clockOf : ℕ → ℤ) (batchSize : ℤ) (state : LockLeaseState) :
    LockLeaseEvent → Option LockLeaseState
  | .pass millis => some { state with now := state.now + millis }
  | .assign client =>
    if ∀ assignment ∈ state.assignments,
        assignment.client = client → assignment.stage = .erased then
      some { state with assignments := state.assignments ++
        [⟨client, OrderlyRequestState.initial (clockOf client + state.now), .inTable⟩] }
    else none
  | .consume index event =>
    if event.grantsLock then none
    else (state.assignments[index]?).bind fun assignment ↦
      if event.readsClock (clockOf assignment.client + state.now) then
        ((orderlyRequestSystem .clustering batchSize).step assignment.consumption event).map
          fun consumption ↦ state.replace index { assignment with consumption := consumption }
      else none
  | .lockBatchMQ client =>
    if Lease.Free maxLiveTime state.now state.lock client then
      some { state with
        lock := some ⟨client, state.now⟩
        grants := state.grants ++ [⟨client, state.now, false⟩] }
    else some state
  | .setLocked answer =>
    (state.grants[answer]?).map fun grant ↦
      { state with
        grants := state.grants.eraseIdx answer
        assignments := state.assignments.map
          (Assignment.applyGrant grant.client (clockOf grant.client + state.now)) }
  | .unlock index =>
    (state.assignments[index]?).bind fun assignment ↦
      if assignment.stage = .inTable ∧
          assignment.consumption.processQueue.droped = true then
        some { state.replace index { assignment with stage := .unlocked } with
          grants := state.grants.map (LockGrant.revoke assignment.client)
          unlocks := state.unlocks ++ [assignment.client] }
      else none
  | .erase index =>
    (state.assignments[index]?).bind fun assignment ↦
      if assignment.stage = .unlocked then
        some (state.replace index { assignment with stage := .erased })
      else none
  | .unlockBatchMQ position =>
    (state.unlocks[position]?).map fun client ↦
      { state with
        lock := Lease.release state.lock client
        unlocks := state.unlocks.eraseIdx position }

end LockLeaseState

/-- The clients that share one message queue, with time. -/
def lockLeaseSystem (maxLiveTime : ℤ) (clockOf : ℕ → ℤ) (batchSize : ℤ) :
    EventSystem LockLeaseState LockLeaseEvent :=
  ⟨LockLeaseState.step maxLiveTime clockOf batchSize⟩

/-- An answer that is applied was given at most `delay` before, and no unlock request was sent
since; no unlock request is on its way when the broker answers, and none is sent while a request is
past its look at the dropped flag. The run ends before a clock has come round. -/
def Timely (delay : ℤ) (state : LockLeaseState) : LockLeaseEvent → Prop
  | .pass millis => state.now + millis < 2 ^ 64
  | .lockBatchMQ client => client ∉ state.unlocks
  | .setLocked answer => ∀ grant ∈ state.grants[answer]?,
      grant.revoked = false ∧ state.now ≤ grant.grantedAt + delay
  | .unlock index => ∀ assignment ∈ state.assignments[index]?,
      assignment.consumption.requests.any RequestPhase.pastDropCheck = false
  | .assign _ | .consume _ _ | .erase _ | .unlockBatchMQ _ => True

instance (delay : ℤ) (state : LockLeaseState) : ∀ event, Decidable (Timely delay state event)
  | .pass _ => inferInstanceAs (Decidable (_ < _))
  | .lockBatchMQ _ => inferInstanceAs (Decidable (_ ∉ _))
  | .setLocked answer => inferInstanceAs (Decidable (∀ grant ∈ state.grants[answer]?, _))
  | .unlock index => inferInstanceAs (Decidable (∀ assignment ∈ state.assignments[index]?, _))
  | .assign _ | .consume _ _ | .erase _ | .unlockBatchMQ _ => isTrue trivial

/-! ### The invariant -/

/-- A process queue whose unlock has been sent is dropped, and no request of it is past its look at
the flag; one in the table that is locked has noted a time that is vouched for. -/
structure Assignment.Leased (maxLiveTime delay now : ℤ) (clockOf : ℕ → ℤ) (lock : Option (Lease ℕ))
    (assignment : Assignment) : Prop where
  gone : assignment.stage ≠ .inTable → assignment.consumption.processQueue.droped = true ∧
    ∀ phase ∈ assignment.consumption.requests, phase.pastDropCheck = false
  noted : clockOf assignment.client ≤ assignment.consumption.processQueue.lastLockTimestamp ∧
    assignment.consumption.processQueue.lastLockTimestamp ≤ clockOf assignment.client + now
  vouched : assignment.stage = .inTable → assignment.consumption.processQueue.locked = true →
    Lease.Vouched maxLiveTime delay now lock assignment.client
      (assignment.consumption.processQueue.lastLockTimestamp - clockOf assignment.client)

/-- A client has at most one process queue in its table. -/
def SinglyAssigned (assignments : List Assignment) : Prop :=
  ∀ (first second : ℕ) (firstAssignment secondAssignment : Assignment),
    assignments[first]? = some firstAssignment → assignments[second]? = some secondAssignment →
    firstAssignment.client = secondAssignment.client →
    firstAssignment.stage ≠ .erased → secondAssignment.stage ≠ .erased → first = second

/-- Every process queue is leased, every answer on its way is backed unless it is revoked, and a
client whose unlock request is on its way has neither a lock nor an answer. -/
structure LockLeaseInvariant (maxLiveTime delay : ℤ) (clockOf : ℕ → ℤ) (state : LockLeaseState) :
    Prop where
  time : 0 ≤ state.now ∧ state.now < 2 ^ 64
  leased : ∀ assignment ∈ state.assignments,
    assignment.Leased maxLiveTime delay state.now clockOf state.lock
  backed : ∀ grant ∈ state.grants, grant.revoked = false →
    Lease.Backed maxLiveTime state.now state.lock grant.client grant.grantedAt
  unlocked : ∀ assignment ∈ state.assignments, assignment.client ∈ state.unlocks →
    assignment.stage = .inTable → assignment.consumption.processQueue.locked = false
  revoked : ∀ grant ∈ state.grants, grant.client ∈ state.unlocks → grant.revoked = true
  single : SinglyAssigned state.assignments

namespace SinglyAssigned

variable {assignments : List Assignment}

theorem set (hsingle : SinglyAssigned assignments) {index : ℕ} {old new : Assignment}
    (hget : assignments[index]? = some old) (hclient : new.client = old.client)
    (hstage : new.stage ≠ .erased → old.stage ≠ .erased) :
    SinglyAssigned (assignments.set index new) := by
  have hbefore : ∀ (other : ℕ) (found : Assignment),
      (assignments.set index new)[other]? = some found →
      ∃ before, assignments[other]? = some before ∧ found.client = before.client ∧
        (found.stage ≠ .erased → before.stage ≠ .erased) := by
    intro other found hfound
    rcases getElem?_set_cases hget hfound with ⟨rfl, rfl⟩ | ⟨-, hold⟩
    · exact ⟨old, hget, hclient, hstage⟩
    · exact ⟨found, hold, rfl, id⟩
  intro first second firstFound secondFound hfirst hsecond hclients hlive hlive'
  obtain ⟨firstBefore, hfirstGet, hfirstClient, hfirstLive⟩ := hbefore first _ hfirst
  obtain ⟨secondBefore, hsecondGet, hsecondClient, hsecondLive⟩ := hbefore second _ hsecond
  exact hsingle first second _ _ hfirstGet hsecondGet
    (hfirstClient.symm.trans (hclients.trans hsecondClient)) (hfirstLive hlive)
    (hsecondLive hlive')

theorem append (hsingle : SinglyAssigned assignments) {new : Assignment}
    (hfree : ∀ assignment ∈ assignments,
      assignment.client = new.client → assignment.stage = .erased) :
    SinglyAssigned (assignments ++ [new]) := by
  intro first second firstFound secondFound hfirst hsecond hclients hlive hlive'
  rcases getElem?_concat_cases hfirst with hold | ⟨hindex, rfl⟩
  · rcases getElem?_concat_cases hsecond with hold' | ⟨-, rfl⟩
    · exact hsingle first second _ _ hold hold' hclients hlive hlive'
    · exact absurd (hfree _ (List.mem_of_getElem? hold) hclients) hlive
  · rcases getElem?_concat_cases hsecond with hold' | ⟨hindex', -⟩
    · exact absurd (hfree _ (List.mem_of_getElem? hold') hclients.symm) hlive'
    · exact hindex.trans hindex'.symm

end SinglyAssigned

/-! ### The steps of one client -/

section Requests

variable {batchSize : ℤ} {queue : ProcessQueue} {input : RequestInput}

theorem putMessage_lastLockTimestamp (msgs : List MessageExt) :
    (queue.putMessage msgs).2.lastLockTimestamp = queue.lastLockTimestamp := by
  rw [ProcessQueue.putMessage_queue]

theorem processConsumeResult_lastLockTimestamp (msgs : List MessageExt)
    (status : ConsumeOrderlyStatus) (autoCommit : Bool) :
    (processConsumeResult msgs status autoCommit queue).processQueue.lastLockTimestamp =
      queue.lastLockTimestamp := by
  have hcommit : queue.commit.2.lastLockTimestamp = queue.lastLockTimestamp := by
    unfold ProcessQueue.commit
    cases queue.msgTreeMapTemp.last? <;> rfl
  have hagain : (queue.makeMessageToCosumeAgain msgs).lastLockTimestamp =
      queue.lastLockTimestamp := by
    rw [ProcessQueue.makeMessageToCosumeAgain_eq]
  cases autoCommit <;> cases status <;> first | exact hcommit | exact hagain | rfl

/-- No step of a request changes the note of the lock. -/
theorem advance_lastLockTimestamp (phase : RequestPhase) :
    (phase.advance .clustering batchSize queue input).processQueue.lastLockTimestamp =
      queue.lastLockTimestamp := by
  rw [RequestPhase.advance_processQueue]
  cases phase with
  | listening beginTime msgs => exact processConsumeResult_lastLockTimestamp msgs _ _
  | taking beginTime =>
    change (queue.takeLocked batchSize).2.lastLockTimestamp = _
    rw [ProcessQueue.takeLocked_eq]
  | _ => rfl

end Requests

/-- What a step of a client leaves of a process queue: the drop, the note of the lock, no lock that
was not there, and no request past its look at the flag once the queue is dropped. -/
structure OrderlyRequestState.Keeps (before after : OrderlyRequestState) : Prop where
  droped : before.processQueue.droped = true → after.processQueue.droped = true
  noted : after.processQueue.lastLockTimestamp = before.processQueue.lastLockTimestamp
  locked : after.processQueue.locked = true → before.processQueue.locked = true
  requests : before.processQueue.droped = true →
    (∀ phase ∈ before.requests, phase.pastDropCheck = false) →
    ∀ phase ∈ after.requests, phase.pastDropCheck = false

theorem keeps_request {batchSize : ℤ} {consumption : OrderlyRequestState} {index : ℕ}
    {phase : RequestPhase} {input : RequestInput}
    (hget : consumption.requests[index]? = some phase) :
    consumption.Keeps (consumption.afterRequest .clustering batchSize index phase input) := by
  obtain ⟨hdroped, hlocked, -⟩ := RequestPhase.advance_flags .clustering batchSize
    consumption.processQueue input phase
  refine ⟨hdroped.trans, advance_lastLockTimestamp phase, hlocked.symm.trans,
    fun hdrop hnone found hfound ↦ ?_⟩
  rcases mem_advanceTask hfound with hbefore | rfl | hsubmitted
  · exact hnone found hbefore
  · by_contra hpast
    rcases advance_pastDropCheck (Bool.eq_true_of_not_eq_false hpast) with hphase | hlive
    · exact absurd (hnone phase (List.mem_of_getElem? hget)) (by simp [hphase])
    · exact absurd hdrop (by simp [hlive])
  · exact (submitted_past hsubmitted).1

/-- Every step of a client on a process queue, except the arrival of an answer. -/
theorem keeps_step {batchSize : ℤ} {consumption next : OrderlyRequestState}
    {event : OrderlyRequestEvent} (hevent : ¬ event.grantsLock = true)
    (hstep : (orderlyRequestSystem .clustering batchSize).step consumption event = some next) :
    consumption.Keeps next := by
  cases event with
  | putMessage msgs =>
    obtain rfl := Option.some.inj hstep
    refine ⟨fun hdrop ↦ ?_, putMessage_lastLockTimestamp msgs, fun hlock ↦ ?_, fun _ ↦ id⟩
    · rwa [ProcessQueue.putMessage_droped]
    · rwa [ProcessQueue.putMessage_locked] at hlock
  | submitConsumeRequest =>
    obtain ⟨-, rfl⟩ := Option.ite_some_none_eq_some.mp hstep
    refine ⟨id, rfl, id, fun _ hnone phase hphase ↦ ?_⟩
    rcases List.mem_append.mp hphase with hbefore | hnew
    · exact hnone phase hbefore
    · rw [List.mem_singleton.mp hnew]
      rfl
  | request index input =>
    obtain ⟨phase, hget, -, rfl⟩ := orderlyRequest_cases hstep
    exact keeps_request hget
  | setDroped =>
    obtain rfl := Option.some.inj hstep
    exact ⟨fun _ ↦ rfl, rfl, id, fun _ ↦ id⟩
  | setLocked locked now =>
    cases locked with
    | true => exact absurd rfl hevent
    | false =>
      obtain rfl := Option.some.inj hstep
      exact ⟨id, rfl, fun hlock ↦ absurd hlock Bool.false_ne_true, fun _ ↦ id⟩

namespace Assignment.Leased

variable {maxLiveTime delay now later : ℤ} {clockOf : ℕ → ℤ} {lock : Option (Lease ℕ)}
  {assignment : Assignment}

theorem pass (hleased : assignment.Leased maxLiveTime delay now clockOf lock)
    (hlater : now ≤ later) : assignment.Leased maxLiveTime delay later clockOf lock :=
  ⟨hleased.gone, hleased.noted.imp_right fun hnoted ↦ by omega,
    fun hstage hlocked ↦ (hleased.vouched hstage hlocked).pass hlater⟩

theorem consume (hleased : assignment.Leased maxLiveTime delay now clockOf lock)
    {consumption : OrderlyRequestState} (hkeeps : assignment.consumption.Keeps consumption) :
    Leased maxLiveTime delay now clockOf lock
      { assignment with consumption := consumption } where
  gone hstage := ⟨hkeeps.droped (hleased.gone hstage).1,
    hkeeps.requests (hleased.gone hstage).1 (hleased.gone hstage).2⟩
  noted := by
    change _ ≤ consumption.processQueue.lastLockTimestamp ∧
      consumption.processQueue.lastLockTimestamp ≤ _
    rw [hkeeps.noted]
    exact hleased.noted
  vouched hstage hlocked := by
    change Lease.Vouched _ _ _ _ _ (consumption.processQueue.lastLockTimestamp - _)
    rw [hkeeps.noted]
    exact hleased.vouched hstage (hkeeps.locked hlocked)

theorem grant (hleased : assignment.Leased maxLiveTime delay now clockOf lock) {client : ℕ}
    (hfree : Lease.Free maxLiveTime now lock client) :
    assignment.Leased maxLiveTime delay now clockOf (some ⟨client, now⟩) :=
  ⟨hleased.gone, hleased.noted,
    fun hstage hlocked ↦ (hleased.vouched hstage hlocked).grant hfree⟩

/-- The lock is released by a client; a process queue of it in the table is not locked. -/
theorem release (hleased : assignment.Leased maxLiveTime delay now clockOf lock) {client : ℕ}
    (hunlocked : assignment.client = client → assignment.stage = .inTable →
      assignment.consumption.processQueue.locked = false) :
    assignment.Leased maxLiveTime delay now clockOf (Lease.release lock client) := by
  refine ⟨hleased.gone, hleased.noted, fun hstage hlocked ↦
    (hleased.vouched hstage hlocked).release fun hsame ↦ ?_⟩
  exact Bool.false_ne_true ((hunlocked hsame hstage).symm.trans hlocked)

/-- An answer arrives that is backed and not late. -/
theorem applyGrant (hleased : assignment.Leased maxLiveTime delay now clockOf lock) {client : ℕ}
    {granted : ℤ} (hnow : 0 ≤ now) (hbacked : Lease.Backed maxLiveTime now lock client granted)
    (htimely : now ≤ granted + delay) :
    (assignment.applyGrant client (clockOf client + now)).Leased maxLiveTime delay now clockOf
      lock := by
  unfold Assignment.applyGrant
  split
  · rename_i hclient
    obtain ⟨rfl, -⟩ := hclient
    refine ⟨hleased.gone, ⟨?_, le_rfl⟩, fun _ _ ↦ ?_⟩
    · change clockOf assignment.client ≤ clockOf assignment.client + now
      exact Int.le_add_of_nonneg_right hnow
    · change Lease.Vouched _ _ _ _ _ (clockOf assignment.client + now - _)
      rw [add_sub_cancel_left]
      exact Lease.Vouched.note hbacked htimely
  · exact hleased

end Assignment.Leased

/-! ### The steps of the system -/

namespace LockLeaseInvariant

variable {maxLiveTime delay : ℤ} {clockOf : ℕ → ℤ} {state : LockLeaseState}

theorem initial : LockLeaseInvariant maxLiveTime delay clockOf LockLeaseState.initial where
  time := ⟨le_rfl, by decide⟩
  leased := fun _ hmem ↦ absurd hmem List.not_mem_nil
  backed := fun _ hmem ↦ absurd hmem List.not_mem_nil
  unlocked := fun _ hmem ↦ absurd hmem List.not_mem_nil
  revoked := fun _ hmem ↦ absurd hmem List.not_mem_nil
  single := fun _ _ _ _ hfirst ↦ by simp [LockLeaseState.initial] at hfirst

theorem pass (hinvariant : LockLeaseInvariant maxLiveTime delay clockOf state) {millis : ℕ}
    (hbefore : state.now + millis < 2 ^ 64) :
    LockLeaseInvariant maxLiveTime delay clockOf { state with now := state.now + millis } := by
  have hlater : state.now ≤ state.now + millis := Int.le_add_of_nonneg_right (Int.natCast_nonneg _)
  exact { hinvariant with
    time := ⟨hinvariant.time.1.trans hlater, hbefore⟩
    leased := fun assignment hmem ↦ (hinvariant.leased assignment hmem).pass hlater
    backed := fun grant hmem hvalid ↦ (hinvariant.backed grant hmem hvalid).pass hlater }

theorem assign (hinvariant : LockLeaseInvariant maxLiveTime delay clockOf state) {client : ℕ}
    (hfree : ∀ assignment ∈ state.assignments,
      assignment.client = client → assignment.stage = .erased) :
    LockLeaseInvariant maxLiveTime delay clockOf { state with assignments := state.assignments ++
      [⟨client, OrderlyRequestState.initial (clockOf client + state.now), .inTable⟩] } := by
  refine { hinvariant with leased := ?_, unlocked := ?_, single := hinvariant.single.append hfree }
  · intro assignment hmem
    rcases List.mem_append.mp hmem with hbefore | hnew
    · exact hinvariant.leased assignment hbefore
    · obtain rfl := List.mem_singleton.mp hnew
      refine ⟨fun hstage ↦ absurd rfl hstage, ⟨?_, le_rfl⟩,
        fun _ hlocked ↦ absurd hlocked Bool.false_ne_true⟩
      exact Int.le_add_of_nonneg_right hinvariant.time.1
  · intro assignment hmem hunlock hstage
    rcases List.mem_append.mp hmem with hbefore | hnew
    · exact hinvariant.unlocked assignment hbefore hunlock hstage
    · obtain rfl := List.mem_singleton.mp hnew
      rfl

/-- A process queue is overwritten by one of the same client, with no lock that was not there. -/
theorem replace (hinvariant : LockLeaseInvariant maxLiveTime delay clockOf state) {index : ℕ}
    {old new : Assignment} (hget : state.assignments[index]? = some old)
    (hclient : new.client = old.client) (hstage : new.stage ≠ .erased → old.stage ≠ .erased)
    (hlocked : new.stage = .inTable → old.stage = .inTable ∧
      (new.consumption.processQueue.locked = true → old.consumption.processQueue.locked = true))
    (hleased : new.Leased maxLiveTime delay state.now clockOf state.lock) :
    LockLeaseInvariant maxLiveTime delay clockOf (state.replace index new) := by
  refine { hinvariant with
    leased := ?_, unlocked := ?_, single := hinvariant.single.set hget hclient hstage }
  · intro assignment hmem
    rcases List.mem_or_eq_of_mem_set hmem with hbefore | rfl
    · exact hinvariant.leased assignment hbefore
    · exact hleased
  · intro assignment hmem hunlock hin
    rcases List.mem_or_eq_of_mem_set hmem with hbefore | rfl
    · exact hinvariant.unlocked assignment hbefore hunlock hin
    · have hold := hinvariant.unlocked old (List.mem_of_getElem? hget) (hclient ▸ hunlock)
        (hlocked hin).1
      by_contra hnew
      exact Bool.false_ne_true
        (hold.symm.trans ((hlocked hin).2 (Bool.eq_true_of_not_eq_false hnew)))

/-- The broker gives the lock to a client that has no unlock request on its way. -/
theorem lockBatchMQ (hinvariant : LockLeaseInvariant maxLiveTime delay clockOf state) {client : ℕ}
    (hfree : Lease.Free maxLiveTime state.now state.lock client)
    (hunlocks : client ∉ state.unlocks) :
    LockLeaseInvariant maxLiveTime delay clockOf { state with
      lock := some ⟨client, state.now⟩
      grants := state.grants ++ [⟨client, state.now, false⟩] } := by
  refine { hinvariant with leased := ?_, backed := ?_, revoked := ?_ }
  · exact fun assignment hmem ↦ (hinvariant.leased assignment hmem).grant hfree
  · intro grant hmem hvalid
    rcases List.mem_append.mp hmem with hbefore | hnew
    · exact (hinvariant.backed grant hbefore hvalid).grant hfree
    · obtain rfl := List.mem_singleton.mp hnew
      exact Lease.backed_grant
  · intro grant hmem hunlock
    rcases List.mem_append.mp hmem with hbefore | hnew
    · exact hinvariant.revoked grant hbefore hunlock
    · obtain rfl := List.mem_singleton.mp hnew
      exact absurd hunlock hunlocks

/-- An answer is applied that is neither revoked nor late. -/
theorem setLocked (hinvariant : LockLeaseInvariant maxLiveTime delay clockOf state) {answer : ℕ}
    {grant : LockGrant} (hget : state.grants[answer]? = some grant)
    (hvalid : grant.revoked = false) (htimely : state.now ≤ grant.grantedAt + delay) :
    LockLeaseInvariant maxLiveTime delay clockOf { state with
      grants := state.grants.eraseIdx answer
      assignments := state.assignments.map
        (Assignment.applyGrant grant.client (clockOf grant.client + state.now)) } := by
  have hmem := List.mem_of_getElem? hget
  have hbacked := hinvariant.backed grant hmem hvalid
  have hkept : ∀ assignment : Assignment,
      (assignment.applyGrant grant.client (clockOf grant.client + state.now)).client =
          assignment.client ∧
        (assignment.applyGrant grant.client (clockOf grant.client + state.now)).stage =
          assignment.stage := by
    intro assignment
    unfold Assignment.applyGrant
    split <;> exact ⟨rfl, rfl⟩
  refine { hinvariant with leased := ?_, backed := ?_, unlocked := ?_, revoked := ?_, single := ?_ }
  · intro assignment hassignment
    obtain ⟨before, hbefore, rfl⟩ := List.mem_map.mp hassignment
    exact (hinvariant.leased before hbefore).applyGrant hinvariant.time.1 hbacked htimely
  · exact fun other hother ↦ hinvariant.backed other (List.mem_of_mem_eraseIdx hother)
  · intro assignment hassignment hunlock hin
    obtain ⟨before, hbefore, rfl⟩ := List.mem_map.mp hassignment
    rw [(hkept before).1] at hunlock
    rw [(hkept before).2] at hin
    have hother : before.client ≠ grant.client := by
      intro hsame
      have hrevoked := hinvariant.revoked grant hmem (hsame ▸ hunlock)
      exact Bool.false_ne_true (hvalid.symm.trans hrevoked)
    rw [Assignment.applyGrant, if_neg fun hgranted ↦ hother hgranted.1]
    exact hinvariant.unlocked before hbefore hunlock hin
  · exact fun other hother ↦ hinvariant.revoked other (List.mem_of_mem_eraseIdx hother)
  · intro first second firstFound secondFound hfirst hsecond hclients hlive hlive'
    rw [List.getElem?_map] at hfirst hsecond
    obtain ⟨firstBefore, hfirstBefore, rfl⟩ := Option.map_eq_some_iff.mp hfirst
    obtain ⟨secondBefore, hsecondBefore, rfl⟩ := Option.map_eq_some_iff.mp hsecond
    rw [(hkept firstBefore).1, (hkept secondBefore).1] at hclients
    rw [(hkept firstBefore).2] at hlive
    rw [(hkept secondBefore).2] at hlive'
    exact hinvariant.single first second _ _ hfirstBefore hsecondBefore hclients hlive hlive'

/-- The unlock request is sent while no request is past its look at the flag. -/
theorem unlock (hinvariant : LockLeaseInvariant maxLiveTime delay clockOf state) {index : ℕ}
    {assignment : Assignment} (hget : state.assignments[index]? = some assignment)
    (hstage : assignment.stage = .inTable)
    (hdroped : assignment.consumption.processQueue.droped = true)
    (hnone : assignment.consumption.requests.any RequestPhase.pastDropCheck = false) :
    LockLeaseInvariant maxLiveTime delay clockOf
      { state.replace index { assignment with stage := .unlocked } with
        grants := state.grants.map (LockGrant.revoke assignment.client)
        unlocks := state.unlocks ++ [assignment.client] } := by
  have hold := hinvariant.leased assignment (List.mem_of_getElem? hget)
  have hgone : ({ assignment with stage := .unlocked } : Assignment).Leased maxLiveTime delay
      state.now clockOf state.lock := by
    refine ⟨fun _ ↦ ⟨hdroped, fun phase hphase ↦ ?_⟩, hold.noted, fun hin ↦ absurd hin (by simp)⟩
    exact Bool.eq_false_of_not_eq_true (List.any_eq_false.mp hnone phase hphase)
  have hreplaced := @replace maxLiveTime delay clockOf state hinvariant index assignment
    { assignment with stage := .unlocked } hget rfl (fun _ ↦ by simp [hstage])
    (fun hin ↦ absurd hin (by simp)) hgone
  refine { hreplaced with backed := ?_, unlocked := ?_, revoked := ?_ }
  · intro grant hmem hvalid
    obtain ⟨before, hbefore, rfl⟩ := List.mem_map.mp hmem
    unfold LockGrant.revoke at hvalid ⊢
    split_ifs at hvalid ⊢
    exact hinvariant.backed before hbefore hvalid
  · intro found hmem hunlock hin
    rcases List.mem_append.mp hunlock with hbefore | hnew
    · exact hreplaced.unlocked found hmem hbefore hin
    · exfalso
      obtain ⟨other, hother⟩ := List.mem_iff_getElem?.mp hmem
      rcases getElem?_set_cases hget hother with ⟨-, rfl⟩ | ⟨hne, hfound⟩
      · exact absurd hin (by simp)
      · exact hne (hinvariant.single other index found assignment hfound hget
          (List.mem_singleton.mp hnew) (by simp [hin]) (by simp [hstage]))
  · intro grant hmem hunlock
    obtain ⟨before, hbefore, rfl⟩ := List.mem_map.mp hmem
    unfold LockGrant.revoke at hunlock ⊢
    split_ifs at hunlock ⊢ with hclient
    · rfl
    · refine hinvariant.revoked before hbefore ((List.mem_append.mp hunlock).resolve_right ?_)
      exact fun hnew ↦ hclient (List.mem_singleton.mp hnew)

/-- An unlock request arrives. -/
theorem unlockBatchMQ (hinvariant : LockLeaseInvariant maxLiveTime delay clockOf state)
    {position client : ℕ} (hget : state.unlocks[position]? = some client) :
    LockLeaseInvariant maxLiveTime delay clockOf { state with
      lock := Lease.release state.lock client
      unlocks := state.unlocks.eraseIdx position } := by
  have hmem := List.mem_of_getElem? hget
  refine { hinvariant with leased := ?_, backed := ?_, unlocked := ?_, revoked := ?_ }
  · exact fun assignment hassignment ↦ (hinvariant.leased assignment hassignment).release
      fun hsame ↦ hinvariant.unlocked assignment hassignment (hsame ▸ hmem)
  · intro grant hgrant hvalid
    refine (hinvariant.backed grant hgrant hvalid).release fun hsame ↦ ?_
    exact Bool.false_ne_true
      (hvalid.symm.trans (hinvariant.revoked grant hgrant (hsame ▸ hmem)))
  · exact fun assignment hassignment hunlock ↦
      hinvariant.unlocked assignment hassignment (List.mem_of_mem_eraseIdx hunlock)
  · exact fun grant hgrant hunlock ↦
      hinvariant.revoked grant hgrant (List.mem_of_mem_eraseIdx hunlock)

/-- Every timely step keeps the invariant. -/
theorem step (hinvariant : LockLeaseInvariant maxLiveTime delay clockOf state) {batchSize : ℤ}
    {next : LockLeaseState} {event : LockLeaseEvent} (hgood : Timely delay state event)
    (hstep : (lockLeaseSystem maxLiveTime clockOf batchSize).step state event = some next) :
    LockLeaseInvariant maxLiveTime delay clockOf next := by
  cases event with
  | pass millis =>
    obtain rfl := Option.some.inj hstep
    exact hinvariant.pass hgood
  | assign client =>
    obtain ⟨hfree, rfl⟩ := Option.ite_some_none_eq_some.mp hstep
    exact hinvariant.assign hfree
  | consume index event =>
    obtain ⟨hevent, hbind⟩ := Option.ite_none_left_eq_some.mp hstep
    obtain ⟨assignment, hget, hclock⟩ := Option.bind_eq_some_iff.mp hbind
    obtain ⟨-, hmap⟩ := Option.ite_none_right_eq_some.mp hclock
    obtain ⟨consumption, hconsume, rfl⟩ := Option.map_eq_some_iff.mp hmap
    have hkeeps := keeps_step hevent hconsume
    exact hinvariant.replace hget rfl id (fun hin ↦ ⟨hin, hkeeps.locked⟩)
      ((hinvariant.leased assignment (List.mem_of_getElem? hget)).consume hkeeps)
  | lockBatchMQ client =>
    simp only [lockLeaseSystem, LockLeaseState.step] at hstep
    split at hstep
    · rename_i hfree
      exact Option.some.inj hstep ▸ hinvariant.lockBatchMQ hfree hgood
    · exact Option.some.inj hstep ▸ hinvariant
  | setLocked answer =>
    obtain ⟨grant, hget, rfl⟩ := Option.map_eq_some_iff.mp hstep
    exact hinvariant.setLocked hget (hgood grant hget).1 (hgood grant hget).2
  | unlock index =>
    obtain ⟨assignment, hget, hunlock⟩ := Option.bind_eq_some_iff.mp hstep
    obtain ⟨⟨hstage, hdroped⟩, rfl⟩ := Option.ite_some_none_eq_some.mp hunlock
    exact hinvariant.unlock hget hstage hdroped (hgood assignment hget)
  | erase index =>
    obtain ⟨assignment, hget, herase⟩ := Option.bind_eq_some_iff.mp hstep
    obtain ⟨hstage, rfl⟩ := Option.ite_some_none_eq_some.mp herase
    have hleased := hinvariant.leased assignment (List.mem_of_getElem? hget)
    refine hinvariant.replace hget rfl (fun hlive ↦ absurd rfl hlive)
      (fun hin ↦ absurd hin (by simp)) ⟨fun _ ↦ hleased.gone (by simp [hstage]), hleased.noted,
        fun hin ↦ absurd hin (by simp)⟩
  | unlockBatchMQ position =>
    obtain ⟨client, hget, rfl⟩ := Option.map_eq_some_iff.mp hstep
    exact hinvariant.unlockBatchMQ hget

/-- A request that may consume trusts a note that is vouched for and fresh. -/
theorem of_mayConsume (hinvariant : LockLeaseInvariant maxLiveTime delay clockOf state)
    {assignment : Assignment} (hmem : assignment ∈ state.assignments)
    (hmay : assignment.mayConsume (clockOf assignment.client + state.now) = true) :
    ∃ noted, Lease.Vouched maxLiveTime delay state.now state.lock assignment.client noted ∧
      state.now - noted ≤ rebalanceLockMaxLiveTime := by
  have hleased := hinvariant.leased assignment hmem
  simp only [Assignment.mayConsume, Bool.and_eq_true, Bool.or_eq_true, Bool.not_eq_true'] at hmay
  obtain ⟨⟨hlocked, hfresh⟩, hlive⟩ := hmay
  have hstage : assignment.stage = .inTable := by
    by_contra hstage
    obtain ⟨hdroped, hnone⟩ := hleased.gone hstage
    rcases hlive with hundroped | hpast
    · exact Bool.false_ne_true (hundroped.symm.trans hdroped)
    · obtain ⟨phase, hphase, hpast⟩ := List.any_eq_true.mp hpast
      exact Bool.false_ne_true ((hnone phase hphase).symm.trans hpast)
  refine ⟨_, hleased.vouched hstage hlocked, ?_⟩
  obtain ⟨hlow, hhigh⟩ := hleased.noted
  have htime := hinvariant.time
  simp only [ProcessQueue.isLockExpired, decide_eq_false_iff_not] at hfresh
  rw [Int.emod_eq_of_lt (by omega) (by omega)] at hfresh
  omega

end LockLeaseInvariant

/-- The clock of the second client is an hour ahead. -/
def twoClocks (client : ℕ) : ℤ := if client = 1 then 1000 else 3601000

/-- A client locks the queue and stops; a minute later the broker gives it to the next one. -/
def lockRunsOut : List LockLeaseEvent :=
  [.assign 1, .lockBatchMQ 1, .pass 500, .setLocked 0, .assign 2, .pass 20000, .lockBatchMQ 2,
    .pass 41000, .lockBatchMQ 2, .pass 200, .setLocked 0]

/-- An answer is applied half a minute after the broker gave it: that client trusts it still when
the broker has given the queue to the next one. -/
theorem late_answer_two_clients :
    ((lockLeaseSystem 60000 twoClocks 1).run LockLeaseState.initial
        [.assign 1, .lockBatchMQ 1, .pass 35000, .setLocked 0, .assign 2, .pass 26000,
          .lockBatchMQ 2, .setLocked 0]).map (fun last ↦
        last.assignments.map fun assignment ↦ (assignment.client,
          assignment.mayConsume (twoClocks assignment.client + last.now))) =
      some [(1, true), (2, true)] := by
  decide

end RocketMQClient.Consumer
