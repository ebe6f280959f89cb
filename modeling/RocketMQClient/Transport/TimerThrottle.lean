import RocketMQClient.Library.OrderedMap
import RocketMQClient.Transport.ResponseFuture

/-!
# The throttle of the timer events

Every `TcpRemotingClient` has an event loop, whose rounds end with `HandleTimerEvent(tm)`, `tm`
being the time since the loop of this client began. The function returns early unless ten
milliseconds have passed since `s_LastTimer`, a static variable that all clients share; otherwise it
sets the variable and scans its own `m_responseTable` for futures that have timed out.

`processSystem` interleaves the rounds of any number of clients and the changes of their tables. The
comparison, the assignment and the scan are steps of their own, since only the scan is locked.
`expiries_as_alone_iff` compares the expiries of a client with those of a process where it is the
only one, for every interleaving, and `expiry_suppressed` has a client with a long uptime suppress
the expiry of a younger one.

The comparison is between two runs: the client among others and the same client alone, with the same
rounds and the same clock. `InStep` pairs their states, and the scans are the only steps at which
they can come apart; once they have expired different things they stay apart (`Apart.step`), so that
the condition is exact.
-/

set_option autoImplicit false
set_option relaxedAutoImplicit false

namespace RocketMQClient.Transport

open Library

/-! ### Rounds of an event loop -/

/-- How far the current round of an event loop has got in `HandleTimerEvent`; `due` is that it has
not returned early. -/
inductive RoundPhase where
  | waiting
  | compared (due : Bool) (tm : BitVec 64)
  | assigned (due : Bool)
  deriving DecidableEq

/-- A client: its round, its `m_responseTable`, and the opaques that each round so far has
expired. -/
structure EventLoop where
  phase : RoundPhase
  responseTable : OrderedMap ℤ ResponseFuture
  rounds : List (List ℤ)

/-- The steps of a client. A scan asks the clock for every entry, and the callback of an expired
future may throw. -/
inductive LoopAction where
  | insertFuture (opaqueId : ℤ) (future : ResponseFuture)
  | eraseFuture (opaqueId : ℤ)
  | compare (now : BitVec 64)
  | assign
  | scan (clock : ℤ → ℤ) (throws : ℤ → Bool)

/-- The opaques that a scan expires. An exception ends the scan. -/
def expired (clock : ℤ → ℤ) (throws : ℤ → Bool) : List (ℤ × ResponseFuture) → List ℤ
  | [] => []
  | (opaqueId, future) :: rest =>
    if future.isTimeout (clock opaqueId) then
      if future.block = false ∧ throws opaqueId then [opaqueId]
      else opaqueId :: expired clock throws rest
    else expired clock throws rest

namespace EventLoop

/-- A client that has just been started. -/
def initial : EventLoop := ⟨.waiting, OrderedMap.empty, []⟩

/-- A step of a client whose loop began at `beginTime`, with the value of `s_LastTimer` before and
after it. A round that has returned early finds nothing to do in the later steps. -/
def step (beginTime lastTimer : BitVec 64) (loop : EventLoop) :
    LoopAction → Option (BitVec 64 × EventLoop)
  | .insertFuture opaqueId future =>
    some (lastTimer, { loop with responseTable := loop.responseTable.assign opaqueId future })
  | .eraseFuture opaqueId =>
    some (lastTimer, { loop with responseTable := loop.responseTable.erase opaqueId })
  | .compare now =>
    match loop.phase with
    | .waiting => some (lastTimer, { loop with
        phase := .compared (!decide (now - beginTime < lastTimer + 10)) (now - beginTime) })
    | _ => none
  | .assign =>
    match loop.phase with
    | .compared due tm =>
      some (if due then tm else lastTimer, { loop with phase := .assigned due })
    | _ => none
  | .scan clock throws =>
    match loop.phase with
    | .assigned due =>
      let opaques := if due then expired clock throws loop.responseTable.entries else []
      some (lastTimer, { loop with
        phase := .waiting
        responseTable := loop.responseTable.eraseAll opaques
        rounds := loop.rounds ++ [opaques] })
    | _ => none

end EventLoop

/-! ### The process -/

/-- `s_LastTimer` and the clients of the process. -/
structure ProcessState where
  lastTimer : BitVec 64
  loops : ℕ → EventLoop

/-- A step of one of the clients. -/
structure ClientEvent where
  client : ℕ
  action : LoopAction

namespace ProcessState

/-- A process whose clients have no request yet. -/
def initial : ProcessState := ⟨0, fun _ ↦ EventLoop.initial⟩

/-- One step, for clients whose loops begin at the given times. -/
def step (beginTime : ℕ → BitVec 64) (state : ProcessState) (event : ClientEvent) :
    Option ProcessState :=
  ((state.loops event.client).step (beginTime event.client) state.lastTimer event.action).map
    fun next ↦ ⟨next.1, Function.update state.loops event.client next.2⟩

end ProcessState

/-- The clients of one process. -/
def processSystem (beginTime : ℕ → BitVec 64) : EventSystem ProcessState ClientEvent where
  step := ProcessState.step beginTime

/-- The steps of one client, with its clock readings. -/
def ownEvents (client : ℕ) (events : List ClientEvent) : List ClientEvent :=
  events.filter fun event ↦ event.client = client

/-- A process next to one in which a client runs alone. -/
def sideBySide (beginTime : ℕ → BitVec 64) (client : ℕ) :
    EventSystem (ProcessState × ProcessState) ClientEvent where
  step states event :=
    (states.1.step beginTime event).bind fun shared ↦
      if event.client = client then
        (states.2.step beginTime event).map fun alone ↦ (shared, alone)
      else some (shared, states.2)

/-- The scan of a round finds a client as it would find it alone: it has returned early in both
processes or in neither, or no future has timed out. -/
def EventLoop.FoundAlike (shared alone : EventLoop) : LoopAction → Prop
  | .scan clock _ =>
    shared.phase = alone.phase ∨
      ∀ entry ∈ shared.responseTable.entries, entry.2.isTimeout (clock entry.1) = false
  | _ => True

/-- The scans of a client find it as they would find it alone. -/
def FoundAlike (client : ℕ) (states : ProcessState × ProcessState) (event : ClientEvent) : Prop :=
  event.client = client → (states.1.loops client).FoundAlike (states.2.loops client) event.action

instance (shared alone : EventLoop) :
    ∀ action : LoopAction, Decidable (shared.FoundAlike alone action)
  | .scan _ _ => inferInstanceAs (Decidable (_ ∨ _))
  | .insertFuture _ _ | .eraseFuture _ | .compare _ | .assign => isTrue trivial

instance (client : ℕ) (states : ProcessState × ProcessState) (event : ClientEvent) :
    Decidable (FoundAlike client states event) :=
  inferInstanceAs (Decidable (_ → _))

/-- The client expires the same futures in the same of its rounds as in a process where it runs
alone. -/
def ExpiresAsAlone (beginTime : ℕ → BitVec 64) (client : ℕ) (events : List ClientEvent)
    (shared : ProcessState) : Prop :=
  ∃ alone, (processSystem beginTime).run ProcessState.initial (ownEvents client events) =
      some alone ∧ (shared.loops client).rounds = (alone.loops client).rounds

/-! ### Scans -/

variable {clock : ℤ → ℤ} {throws : ℤ → Bool}

/-- A scan expires nothing exactly when no future has timed out. -/
theorem expired_eq_nil_iff (entries : List (ℤ × ResponseFuture)) :
    expired clock throws entries = [] ↔
      ∀ entry ∈ entries, entry.2.isTimeout (clock entry.1) = false := by
  induction entries with
  | nil => simp [expired]
  | cons entry rest ih =>
    obtain ⟨opaqueId, future⟩ := entry
    rw [expired, List.forall_mem_cons]
    by_cases htimeout : future.isTimeout (clock opaqueId) = true
    · rw [if_pos htimeout]
      split <;> simp [htimeout]
    · rw [if_neg htimeout, ih]
      simp [htimeout]

/-! ### One client in two processes -/

/-- The rounds of a client in two processes have got equally far. -/
inductive RoundPhase.Aligned : RoundPhase → RoundPhase → Prop
  | waiting : Aligned .waiting .waiting
  | compared (due due' : Bool) (tm : BitVec 64) : Aligned (.compared due tm) (.compared due' tm)
  | assigned (due due' : Bool) : Aligned (.assigned due) (.assigned due')

namespace RoundPhase.Aligned

variable {phase : RoundPhase} {due : Bool} {tm : BitVec 64}

theorem eq_waiting (haligned : RoundPhase.waiting.Aligned phase) : phase = .waiting := by
  cases haligned
  rfl

theorem eq_compared (haligned : (RoundPhase.compared due tm).Aligned phase) :
    ∃ due', phase = .compared due' tm := by
  cases haligned
  exact ⟨_, rfl⟩

theorem eq_assigned (haligned : (RoundPhase.assigned due).Aligned phase) :
    ∃ due', phase = .assigned due' := by
  cases haligned
  exact ⟨_, rfl⟩

end RoundPhase.Aligned

namespace EventLoop

variable {loop shared alone nextShared nextAlone : EventLoop} {next : BitVec 64 × EventLoop}
  {beginTime lastTimer ownTimer nextTimer nextOwnTimer : BitVec 64} {action : LoopAction}

theorem step_compare {now : BitVec 64} (hstep : loop.step beginTime lastTimer (.compare now) =
    some next) : loop.phase = .waiting ∧ next = (lastTimer, { loop with
      phase := .compared (!decide (now - beginTime < lastTimer + 10)) (now - beginTime) }) := by
  simp only [step] at hstep
  split at hstep
  · rename_i hphase
    exact ⟨hphase, (Option.some.inj hstep).symm⟩
  · exact absurd hstep.symm (Option.some_ne_none next)

theorem step_assign (hstep : loop.step beginTime lastTimer .assign = some next) :
    ∃ due tm, loop.phase = .compared due tm ∧
      next = (if due then tm else lastTimer, { loop with phase := .assigned due }) := by
  simp only [step] at hstep
  split at hstep
  · rename_i due tm hphase
    exact ⟨due, tm, hphase, (Option.some.inj hstep).symm⟩
  · exact absurd hstep.symm (Option.some_ne_none next)

/-- What a round expires when it has reached its scan. -/
def opaquesOf (loop : EventLoop) (due : Bool) (clock : ℤ → ℤ) (throws : ℤ → Bool) : List ℤ :=
  if due then expired clock throws loop.responseTable.entries else []

theorem step_scan (hstep : loop.step beginTime lastTimer (.scan clock throws) = some next) :
    ∃ due, loop.phase = .assigned due ∧ next = (lastTimer, {
      phase := .waiting
      responseTable := loop.responseTable.eraseAll (loop.opaquesOf due clock throws)
      rounds := loop.rounds ++ [loop.opaquesOf due clock throws] }) := by
  simp only [step] at hstep
  split at hstep
  · rename_i due hphase
    exact ⟨due, hphase, (Option.some.inj hstep).symm⟩
  · exact absurd hstep.symm (Option.some_ne_none next)

/-- The clients have made the same steps. -/
structure InStep (shared alone : EventLoop) : Prop where
  phase : shared.phase.Aligned alone.phase
  rounds : shared.rounds.length = alone.rounds.length

/-- What one client can do, the other one can do. -/
theorem InStep.exists_step (ownTimer : BitVec 64) (hinStep : InStep shared alone)
    (hshared : shared.step beginTime lastTimer action = some next) :
    ∃ nextAlone, alone.step beginTime ownTimer action = some nextAlone := by
  have hphase := hinStep.phase
  cases action with
  | insertFuture opaqueId future | eraseFuture opaqueId => exact ⟨_, rfl⟩
  | compare now =>
    rw [(step_compare hshared).1] at hphase
    simp only [step, hphase.eq_waiting]
    exact ⟨_, rfl⟩
  | assign =>
    obtain ⟨due, tm, hcompared, -⟩ := step_assign hshared
    obtain ⟨due', halone⟩ := (hcompared ▸ hphase).eq_compared
    simp only [step, halone]
    exact ⟨_, rfl⟩
  | scan clock throws =>
    obtain ⟨due, hassigned, -⟩ := step_scan hshared
    obtain ⟨due', halone⟩ := (hassigned ▸ hphase).eq_assigned
    simp only [step, halone]
    exact ⟨_, rfl⟩

/-- The clients go on in step. A scan adds what it has expired to the rounds of its client, and no
other step changes them. -/
theorem InStep.step {next nextAlone : BitVec 64 × EventLoop} (hinStep : InStep shared alone)
    (hshared : shared.step beginTime lastTimer action = some next)
    (halone : alone.step beginTime ownTimer action = some nextAlone) :
    InStep next.2 nextAlone.2 ∧
      ((next.2.rounds = shared.rounds ∧ nextAlone.2.rounds = alone.rounds) ∨
        ∃ opaques opaques', next.2.rounds = shared.rounds ++ [opaques] ∧
          nextAlone.2.rounds = alone.rounds ++ [opaques']) := by
  obtain ⟨hphase, hrounds⟩ := hinStep
  cases action with
  | insertFuture opaqueId future | eraseFuture opaqueId =>
    obtain rfl := Option.some.inj hshared
    obtain rfl := Option.some.inj halone
    exact ⟨⟨hphase, hrounds⟩, Or.inl ⟨rfl, rfl⟩⟩
  | compare now =>
    obtain ⟨-, rfl⟩ := step_compare hshared
    obtain ⟨-, rfl⟩ := step_compare halone
    exact ⟨⟨.compared _ _ _, hrounds⟩, Or.inl ⟨rfl, rfl⟩⟩
  | assign =>
    obtain ⟨due, tm, -, rfl⟩ := step_assign hshared
    obtain ⟨due', tm', -, rfl⟩ := step_assign halone
    exact ⟨⟨.assigned _ _, hrounds⟩, Or.inl ⟨rfl, rfl⟩⟩
  | scan clock throws =>
    obtain ⟨due, -, rfl⟩ := step_scan hshared
    obtain ⟨due', -, rfl⟩ := step_scan halone
    refine ⟨⟨.waiting, ?_⟩, Or.inr ⟨_, _, rfl, rfl⟩⟩
    simp [hrounds]

/-- The clients have expired the same futures in the same rounds. -/
structure Alike (shared alone : EventLoop) : Prop extends InStep shared alone where
  responseTable : shared.responseTable = alone.responseTable
  rounds_eq : shared.rounds = alone.rounds

/-- Clients whose rounds have expired different futures. -/
structure Apart (shared alone : EventLoop) : Prop extends InStep shared alone where
  rounds_ne : shared.rounds ≠ alone.rounds

/-- What has been expired in different rounds stays so. -/
theorem Apart.step {next nextAlone : BitVec 64 × EventLoop} (hapart : Apart shared alone)
    (hshared : shared.step beginTime lastTimer action = some next)
    (halone : alone.step beginTime ownTimer action = some nextAlone) :
    Apart next.2 nextAlone.2 := by
  obtain ⟨hinStep, hrounds⟩ := hapart.toInStep.step hshared halone
  refine ⟨hinStep, fun hequal ↦ hapart.rounds_ne ?_⟩
  obtain ⟨hkept, hkept'⟩ | ⟨opaques, opaques', hadded, hadded'⟩ := hrounds
  · rwa [hkept, hkept'] at hequal
  · rw [hadded, hadded'] at hequal
    exact (List.append_inj hequal hapart.rounds).1

/-- Both scans of a round expire the same exactly when they find the clients alike. -/
theorem Alike.opaquesOf_eq_iff {due due' : Bool} (halike : Alike shared alone)
    (hshared : shared.phase = .assigned due) (halone : alone.phase = .assigned due') :
    shared.opaquesOf due clock throws = alone.opaquesOf due' clock throws ↔
      shared.FoundAlike alone (.scan clock throws) := by
  rw [FoundAlike, hshared, halone, RoundPhase.assigned.injEq,
    ← @expired_eq_nil_iff clock throws, opaquesOf, opaquesOf, ← halike.responseTable]
  cases due <;> cases due' <;> simp [@eq_comm _ ([] : List ℤ)]

/-- A step that finds the clients alike leaves them alike. -/
theorem Alike.step {next nextAlone : BitVec 64 × EventLoop} (halike : Alike shared alone)
    (hfound : shared.FoundAlike alone action)
    (hshared : shared.step beginTime lastTimer action = some next)
    (halone : alone.step beginTime ownTimer action = some nextAlone) :
    Alike next.2 nextAlone.2 := by
  have hinStep := (halike.toInStep.step hshared halone).1
  have htable := halike.responseTable
  have hrounds := halike.rounds_eq
  cases action with
  | insertFuture opaqueId future | eraseFuture opaqueId =>
    obtain rfl := Option.some.inj hshared
    obtain rfl := Option.some.inj halone
    exact ⟨hinStep, by rw [htable], hrounds⟩
  | compare now =>
    obtain ⟨-, rfl⟩ := step_compare hshared
    obtain ⟨-, rfl⟩ := step_compare halone
    exact ⟨hinStep, htable, hrounds⟩
  | assign =>
    obtain ⟨due, tm, -, rfl⟩ := step_assign hshared
    obtain ⟨due', tm', -, rfl⟩ := step_assign halone
    exact ⟨hinStep, htable, hrounds⟩
  | scan clock throws =>
    obtain ⟨due, hassigned, rfl⟩ := step_scan hshared
    obtain ⟨due', hassigned', rfl⟩ := step_scan halone
    have hopaques := (halike.opaquesOf_eq_iff hassigned hassigned').mpr hfound
    refine ⟨hinStep, ?_, ?_⟩
    · show shared.responseTable.eraseAll _ = alone.responseTable.eraseAll _
      rw [hopaques, htable]
    · show shared.rounds ++ _ = alone.rounds ++ _
      rw [hopaques, hrounds]

/-- A step that does not find the clients alike is a scan, and takes them apart. -/
theorem Alike.apart {next nextAlone : BitVec 64 × EventLoop} (halike : Alike shared alone)
    (hfound : ¬ shared.FoundAlike alone action)
    (hshared : shared.step beginTime lastTimer action = some next)
    (halone : alone.step beginTime ownTimer action = some nextAlone) :
    Apart next.2 nextAlone.2 := by
  have hinStep := (halike.toInStep.step hshared halone).1
  cases action with
  | scan clock throws =>
    obtain ⟨due, hassigned, rfl⟩ := step_scan hshared
    obtain ⟨due', hassigned', rfl⟩ := step_scan halone
    refine ⟨hinStep, fun hequal ↦ hfound ?_⟩
    have hlast := (List.append_inj hequal halike.rounds).2
    exact (halike.opaquesOf_eq_iff hassigned hassigned').mp (List.singleton_inj.mp hlast)
  | insertFuture opaqueId future | eraseFuture opaqueId | compare now | assign =>
    exact absurd trivial hfound

end EventLoop

/-! ### Two processes -/

section Processes

variable {beginTime : ℕ → BitVec 64} {client : ℕ} {event : ClientEvent}
  {state next : ProcessState} {states nextStates : ProcessState × ProcessState}

/-- A step of the process is one of the client that makes it. -/
theorem ProcessState.step_iff :
    state.step beginTime event = some next ↔
      ∃ moved, (state.loops event.client).step (beginTime event.client) state.lastTimer
          event.action = some moved ∧
        next = ⟨moved.1, Function.update state.loops event.client moved.2⟩ := by
  rw [ProcessState.step, Option.map_eq_some_iff]
  exact exists_congr fun moved ↦ and_congr_right fun _ ↦ eq_comm

/-- The client that makes a step is the only one that changes. -/
theorem ProcessState.loops_of_step (hstep : state.step beginTime event = some next) :
    if event.client = client then
      ∃ moved, (state.loops client).step (beginTime client) state.lastTimer event.action =
        some moved ∧ next.loops client = moved.2
    else next.loops client = state.loops client := by
  obtain ⟨moved, hmoved, rfl⟩ := ProcessState.step_iff.mp hstep
  split
  · rename_i hclient
    subst hclient
    exact ⟨moved, hmoved, Function.update_self ..⟩
  · rename_i hclient
    exact Function.update_of_ne (Ne.symm hclient) ..

/-- A step of another client is one in the shared process only. -/
theorem sideBySide_step_of_ne (hclient : event.client ≠ client) :
    (sideBySide beginTime client).step states event = some nextStates ↔
      states.1.step beginTime event = some nextStates.1 ∧ nextStates.2 = states.2 := by
  simp only [sideBySide, if_neg hclient, Option.bind_eq_some_iff, Option.some.injEq]
  constructor
  · rintro ⟨shared, hshared, rfl⟩
    exact ⟨hshared, rfl⟩
  · rintro ⟨hshared, halone⟩
    exact ⟨nextStates.1, hshared, Prod.ext rfl halone.symm⟩

/-- A step of the client is one in both processes. -/
theorem sideBySide_step_of_eq (hclient : event.client = client) :
    (sideBySide beginTime client).step states event = some nextStates ↔
      states.1.step beginTime event = some nextStates.1 ∧
        states.2.step beginTime event = some nextStates.2 := by
  simp only [sideBySide, if_pos hclient, Option.bind_eq_some_iff, Option.map_eq_some_iff]
  constructor
  · rintro ⟨shared, hshared, alone, halone, rfl⟩
    exact ⟨hshared, halone⟩
  · rintro ⟨hshared, halone⟩
    exact ⟨nextStates.1, hshared, nextStates.2, halone, rfl⟩

/-- A step of two processes moves the client in both of them or in neither. -/
theorem sideBySide_cases
    (hstep : (sideBySide beginTime client).step states event = some nextStates) :
    (event.client = client ∧ ∃ moved moved',
      (states.1.loops client).step (beginTime client) states.1.lastTimer event.action =
        some moved ∧
      (states.2.loops client).step (beginTime client) states.2.lastTimer event.action =
        some moved' ∧
      nextStates.1.loops client = moved.2 ∧ nextStates.2.loops client = moved'.2) ∨
    (event.client ≠ client ∧ nextStates.1.loops client = states.1.loops client ∧
      nextStates.2.loops client = states.2.loops client) := by
  by_cases hclient : event.client = client
  · obtain ⟨hshared, halone⟩ := (sideBySide_step_of_eq hclient).mp hstep
    have hmoved := @ProcessState.loops_of_step beginTime client event _ _ hshared
    have hmoved' := @ProcessState.loops_of_step beginTime client event _ _ halone
    rw [if_pos hclient] at hmoved hmoved'
    obtain ⟨moved, hmoved, hnext⟩ := hmoved
    obtain ⟨moved', hmoved', hnext'⟩ := hmoved'
    exact Or.inl ⟨hclient, moved, moved', hmoved, hmoved', hnext, hnext'⟩
  · obtain ⟨hshared, halone⟩ := (sideBySide_step_of_ne hclient).mp hstep
    have hkept := @ProcessState.loops_of_step beginTime client event _ _ hshared
    rw [if_neg hclient] at hkept
    exact Or.inr ⟨hclient, hkept, by rw [halone]⟩

/-- A step of the shared process can be made next to the client alone, and keeps the two in step. -/
theorem exists_sideBySide_step
    (hinStep : (states.1.loops client).InStep (states.2.loops client))
    (hstep : states.1.step beginTime event = some next) :
    ∃ alone, (sideBySide beginTime client).step states event = some (next, alone) ∧
      (next.loops client).InStep (alone.loops client) := by
  by_cases hclient : event.client = client
  · have hmoved := @ProcessState.loops_of_step beginTime client event _ _ hstep
    rw [if_pos hclient] at hmoved
    obtain ⟨moved, hmoved, hnext⟩ := hmoved
    obtain ⟨moved', hmoved'⟩ := hinStep.exists_step states.2.lastTimer hmoved
    have halone : states.2.step beginTime event =
        some ⟨moved'.1, Function.update states.2.loops event.client moved'.2⟩ := by
      subst hclient
      exact ProcessState.step_iff.mpr ⟨moved', hmoved', rfl⟩
    refine ⟨_, (sideBySide_step_of_eq hclient).mpr ⟨hstep, halone⟩, ?_⟩
    have hnext' : Function.update states.2.loops event.client moved'.2 client = moved'.2 := by
      rw [hclient, Function.update_self]
    show (next.loops client).InStep (Function.update states.2.loops event.client moved'.2 client)
    rw [hnext, hnext']
    exact (hinStep.step hmoved hmoved').1
  · have hkept := @ProcessState.loops_of_step beginTime client event _ _ hstep
    rw [if_neg hclient] at hkept
    exact ⟨states.2, (sideBySide_step_of_ne hclient).mpr ⟨hstep, rfl⟩, hkept ▸ hinStep⟩

/-- The run of the shared process goes along with one of the client alone. -/
theorem exists_sideBySide_run {events : List ClientEvent} {last : ProcessState}
    (hinStep : (states.1.loops client).InStep (states.2.loops client))
    (hrun : (processSystem beginTime).run states.1 events = some last) :
    ∃ alone, (processSystem beginTime).run states.2 (ownEvents client events) = some alone ∧
      (sideBySide beginTime client).run states events = some (last, alone) ∧
      (last.loops client).InStep (alone.loops client) := by
  induction events generalizing states with
  | nil =>
    obtain rfl := Option.some.inj hrun
    exact ⟨states.2, rfl, rfl, hinStep⟩
  | cons event rest ih =>
    obtain ⟨next, hnext, hrest⟩ := EventSystem.run_cons.mp hrun
    obtain ⟨middle, hboth, hnextInStep⟩ := exists_sideBySide_step hinStep hnext
    obtain ⟨alone, hown, hrests, hlast⟩ := @ih (next, middle) hnextInStep hrest
    refine ⟨alone, ?_, EventSystem.run_cons.mpr ⟨(next, middle), hboth, hrests⟩, hlast⟩
    by_cases hclient : event.client = client
    · rw [ownEvents, List.filter_cons_of_pos (by simpa using hclient)]
      exact EventSystem.run_cons.mpr ⟨middle, ((sideBySide_step_of_eq hclient).mp hboth).2, hown⟩
    · rw [ownEvents, List.filter_cons_of_neg (by simpa using hclient)]
      obtain rfl := ((sideBySide_step_of_ne hclient).mp hboth).2
      exact hown

/-- Two processes expire the same futures of the client exactly when all its scans find it alike. -/
theorem foundAlike_iff {events : List ClientEvent} {last : ProcessState × ProcessState}
    (halike : (states.1.loops client).Alike (states.2.loops client))
    (hrun : (sideBySide beginTime client).run states events = some last) :
    (sideBySide beginTime client).Along (FoundAlike client) states events ↔
      ¬ (last.1.loops client).Apart (last.2.loops client) := by
  refine @EventSystem.along_iff_not_broken _ _ _ _
    (fun states ↦ (states.1.loops client).Alike (states.2.loops client))
    (fun states ↦ (states.1.loops client).Apart (states.2.loops client))
    ?_ ?_ ?_ (fun _ halike hapart ↦ hapart.rounds_ne halike.rounds_eq) _ _ _ hrun halike
  · intro states event next halike hfound hstep
    obtain ⟨hclient, moved, moved', hmoved, hmoved', hnext, hnext'⟩ | ⟨-, hnext, hnext'⟩ :=
      sideBySide_cases hstep
    · rw [hnext, hnext']
      exact halike.step (hfound hclient) hmoved hmoved'
    · rwa [hnext, hnext']
  · intro states event next halike hfound hstep
    obtain ⟨hclient, moved, moved', hmoved, hmoved', hnext, hnext'⟩ | ⟨hclient, -, -⟩ :=
      sideBySide_cases hstep
    · rw [hnext, hnext']
      exact halike.apart (fun hloop ↦ hfound fun _ ↦ hloop) hmoved hmoved'
    · exact absurd (fun hequal ↦ absurd hequal hclient) hfound
  · intro states event next hstep hapart
    obtain ⟨-, moved, moved', hmoved, hmoved', hnext, hnext'⟩ | ⟨-, hnext, hnext'⟩ :=
      sideBySide_cases hstep
    · rw [hnext, hnext']
      exact hapart.step hmoved hmoved'
    · rwa [hnext, hnext']

end Processes

/-- In every interleaving of the clients of a process, a client expires the same futures in the same
rounds as when it runs alone exactly when each of its scans finds it as it would find it alone. -/
theorem expiries_as_alone_iff (beginTime : ℕ → BitVec 64) (client : ℕ) (events : List ClientEvent)
    {shared : ProcessState}
    (hrun : (processSystem beginTime).run ProcessState.initial events = some shared) :
    ExpiresAsAlone beginTime client events shared ↔
      (sideBySide beginTime client).Along (FoundAlike client)
        (ProcessState.initial, ProcessState.initial) events := by
  have halike : EventLoop.initial.Alike EventLoop.initial := ⟨⟨.waiting, rfl⟩, rfl, rfl⟩
  obtain ⟨alone, hown, hboth, hinStep⟩ := @exists_sideBySide_run beginTime client
    (ProcessState.initial, ProcessState.initial) events shared halike.toInStep hrun
  rw [foundAlike_iff halike hboth]
  constructor
  · rintro ⟨other, hother, hrounds⟩ hapart
    obtain rfl := Option.some.inj (hown.symm.trans hother)
    exact hapart.rounds_ne hrounds
  · intro hnot
    refine ⟨alone, hown, ?_⟩
    by_contra hne
    exact hnot ⟨hinStep, hne⟩

/-- Two clients of the same age make a round one after the other; the second one has a future that
has timed out. -/
def sameAge : List ClientEvent :=
  [⟨0, .compare 1000⟩, ⟨0, .assign⟩, ⟨0, .scan (fun _ ↦ 1000) fun _ ↦ false⟩,
    ⟨1, .insertFuture 7 (ResponseFuture.new 7 100 800 false)⟩,
    ⟨1, .compare 1020⟩, ⟨1, .assign⟩, ⟨1, .scan (fun _ ↦ 1020) fun _ ↦ false⟩]

/-- The second client expires its future as it would alone. -/
theorem expiries_as_alone_of_same_age : ∃ shared,
    (processSystem fun _ ↦ 0).run ProcessState.initial sameAge = some shared ∧
      (shared.loops 1).rounds = [[7]] ∧ ExpiresAsAlone (fun _ ↦ 0) 1 sameAge shared := by
  have hrounds : ((processSystem fun _ ↦ 0).run ProcessState.initial sameAge).map
      (fun last ↦ (last.loops 1).rounds) = some [[7]] := by decide
  obtain ⟨shared, hrun, hexpired⟩ := Option.map_eq_some_iff.mp hrounds
  exact ⟨shared, hrun, hexpired, (expiries_as_alone_iff _ 1 sameAge hrun).mpr (by decide)⟩

/-- Client 0 has run for a thousand seconds and makes a round. Client 1 has run for one second, has
a future that has waited 900 milliseconds with a time-out of 100, and makes a round after it. -/
def longRunning : List ClientEvent :=
  [⟨0, .compare 1000000⟩, ⟨0, .assign⟩, ⟨0, .scan (fun _ ↦ 1000000) fun _ ↦ false⟩,
    ⟨1, .insertFuture 7 (ResponseFuture.new 7 100 999100 false)⟩,
    ⟨1, .compare 1000000⟩, ⟨1, .assign⟩, ⟨1, .scan (fun _ ↦ 1000000) fun _ ↦ false⟩]

/-- When the clients of `longRunning` have begun. -/
def longRunningBegin (client : ℕ) : BitVec 64 := if client = 0 then 0 else 999000

/-- The long-running client suppresses the expiry. -/
theorem expiry_suppressed :
    ¬ ∀ (beginTime : ℕ → BitVec 64) (client : ℕ) (events : List ClientEvent)
        (shared : ProcessState),
      (processSystem beginTime).run ProcessState.initial events = some shared →
        ExpiresAsAlone beginTime client events shared := by
  intro hclaim
  have hshared : ((processSystem longRunningBegin).run ProcessState.initial longRunning).map
      (fun last ↦ (last.loops 1).rounds) = some [[]] := by decide
  have halone : ((processSystem longRunningBegin).run ProcessState.initial
      (ownEvents 1 longRunning)).map (fun last ↦ (last.loops 1).rounds) = some [[7]] := by decide
  obtain ⟨shared, hrun, hnone⟩ := Option.map_eq_some_iff.mp hshared
  obtain ⟨alone, hown, hrounds⟩ := hclaim longRunningBegin 1 longRunning shared hrun
  rw [hown, Option.map_some, ← hrounds, hnone] at halone
  exact absurd halone (by decide)

end RocketMQClient.Transport
