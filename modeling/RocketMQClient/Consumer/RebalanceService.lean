import RocketMQClient.Common.ServiceThread
import RocketMQClient.Library.EventSystem

/-!
# The service that rebalances

A thread rebalances all consumers every ten seconds, and at once when `rebalanceImmediately` wakes
it: when a consumer has started, and when a broker has told that the consumers of a group have
changed. `rebalanceServiceSystem` interleaves the steps of the thread with the calls of
`rebalanceImmediately` and of `stop`.

A call may come at any time, also while a rebalance is under way that has already read what the call
is about. `rebalance_follows_call`: a rebalance that begins after the call follows without a
time-out.
-/

set_option autoImplicit false
set_option relaxedAutoImplicit false

namespace RocketMQClient.Consumer

open Library Common

/-- What the thread of the service does next. -/
inductive RebalancePlace where
  /-- `while (!m_stoped)`. -/
  | testStop
  | waitForRunning
  /-- `Wait`. -/
  | waiting
  /-- `doRebalance` has begun. -/
  | doRebalance
  | ended
  /-- `doRebalance` has thrown, and `Thread::Startup` has caught what it threw. -/
  | thrown
  deriving DecidableEq

/-- The service and the number of threads between the two halves of `stop`; for the statements,
whether `rebalanceImmediately` has been called since the last rebalance began. -/
structure RebalanceService where
  service : ServiceThread
  place : RebalancePlace
  stopping : ℕ
  asked : Bool
  deriving DecidableEq

inductive RebalanceServiceEvent where
  | rebalanceImmediately
  /-- The first half of `stop`. -/
  | setStoped
  /-- The second half of `stop`. -/
  | wakeupStoped
  /-- The next step of the thread, which may throw. -/
  | run (throws : Bool)
  /-- A wait that nobody has ended. -/
  | endWait
  deriving DecidableEq

namespace RebalanceService

def initial : RebalanceService := ⟨ServiceThread.initial, .testStop, 0, false⟩

/-- `doRebalance` begins. -/
def beginRebalance (state : RebalanceService) : RebalanceService :=
  { state with place := .doRebalance, asked := false }

/-- The next step of `Run`. -/
def run (state : RebalanceService) (throws : Bool) : Option RebalanceService :=
  match state.place with
  | .testStop =>
    some { state with place := if state.service.stoped then .ended else .waitForRunning }
  | .waitForRunning =>
    if state.service.notified then
      some { state with service := state.service.waitForRunning }.beginRebalance
    else some { state with service := state.service.waitForRunning, place := .waiting }
  | .waiting =>
    if state.service.blocked then none
    else some { state with service := state.service.leaveWait throws }.beginRebalance
  | .doRebalance => some { state with place := if throws then .thrown else .testStop }
  | .ended | .thrown => none

/-- One step. -/
def step (state : RebalanceService) : RebalanceServiceEvent → Option RebalanceService
  | .rebalanceImmediately => some { state with service := state.service.wakeup, asked := true }
  | .setStoped =>
    some { state with service := state.service.setStoped, stopping := state.stopping + 1 }
  | .wakeupStoped =>
    if state.stopping = 0 then none
    else some { state with service := state.service.wakeup, stopping := state.stopping - 1 }
  | .run throws => state.run throws
  | .endWait =>
    if state.service.blocked then some { state with service := state.service.endWait } else none

end RebalanceService

/-- The service and the threads that use it. -/
def rebalanceServiceSystem : EventSystem RebalanceService RebalanceServiceEvent where
  step := RebalanceService.step

namespace RebalanceService

variable {state next : RebalanceService}

/-- Where a call of `rebalanceImmediately` or of `stop` is not lost. -/
structure Heard (state : RebalanceService) : Prop where
  sound : state.service.Sound
  blocked : state.service.blocked = true → state.place = .waiting
  asked : state.asked = true →
    state.service.notified = true ∨ state.place = .waiting ∧ state.service.blocked = false
  stoped : state.service.stoped = true →
    state.place = .waitForRunning ∨ state.service.blocked = true →
      state.service.notified = true ∨ 0 < state.stopping
  ended : state.place = .ended → state.service.stoped = true

theorem heard_initial : initial.Heard where
  sound := ServiceThread.sound_initial
  blocked hblocked := absurd hblocked Bool.false_ne_true
  asked hasked := absurd hasked Bool.false_ne_true
  stoped hstoped := absurd hstoped Bool.false_ne_true
  ended hended := by cases hended

theorem Heard.not_blocked (hheard : state.Heard) (hplace : state.place ≠ .waiting) :
    state.service.blocked = false :=
  Bool.eq_false_iff.mpr fun hblocked ↦ hplace (hheard.blocked hblocked)

/-- A service that has been notified hears every call. -/
theorem Heard.wakeup (hheard : state.Heard) (stopping : ℕ) (asked : Bool) :
    Heard { state with
      service := state.service.wakeup, stopping := stopping, asked := asked } where
  sound := hheard.sound.wakeup
  blocked hblocked := absurd ((ServiceThread.blocked_wakeup hheard.sound).symm.trans hblocked)
    Bool.false_ne_true
  asked _ := Or.inl (ServiceThread.notified_wakeup state.service)
  stoped _ _ := Or.inl (ServiceThread.notified_wakeup state.service)
  ended hended := (ServiceThread.stoped_wakeup state.service).trans (hheard.ended hended)

/-- A rebalance begins when the thread does not wait. -/
theorem heard_beginRebalance (hblocked : state.service.blocked = false) :
    state.beginRebalance.Heard where
  sound hwaits := absurd (hblocked.symm.trans hwaits) Bool.false_ne_true
  blocked hwaits := absurd (hblocked.symm.trans hwaits) Bool.false_ne_true
  asked hasked := absurd hasked Bool.false_ne_true
  stoped _ hcase := hcase.elim (fun hplace ↦ by cases hplace)
    fun hwaits ↦ absurd (hblocked.symm.trans hwaits) Bool.false_ne_true
  ended hended := by cases hended

/-- The thread goes on to a place at which it does not wait. -/
theorem Heard.goOn (hheard : state.Heard) {place : RebalancePlace} (hplace : state.place ≠ .waiting)
    (hwait : place = .waitForRunning → state.service.stoped = false)
    (hended : place = .ended → state.service.stoped = true) :
    Heard { state with place := place } where
  sound := hheard.sound
  blocked hwaits := absurd ((hheard.not_blocked hplace).symm.trans hwaits) Bool.false_ne_true
  asked hasked := Or.inl
    ((hheard.asked hasked).resolve_right fun hwaits ↦ hplace hwaits.1)
  stoped hstoped hcase := hcase.elim
    (fun hnext ↦ absurd ((hwait hnext).symm.trans hstoped) Bool.false_ne_true)
    fun hwaits ↦ absurd ((hheard.not_blocked hplace).symm.trans hwaits) Bool.false_ne_true
  ended := hended

theorem run_heard {throws : Bool} (hrun : state.run throws = some next) (hheard : state.Heard) :
    next.Heard := by
  unfold run at hrun
  cases hplace : state.place with
  | testStop =>
    simp only [hplace] at hrun
    obtain rfl := Option.some.inj hrun
    cases hstoped : state.service.stoped with
    | true => exact hheard.goOn (by simp [hplace]) (by simp) fun _ ↦ hstoped
    | false => exact hheard.goOn (by simp [hplace]) (fun _ ↦ hstoped) (by simp)
  | waitForRunning =>
    simp only [hplace] at hrun
    split_ifs at hrun with hnotified
    · obtain rfl := Option.some.inj hrun
      refine heard_beginRebalance ?_
      rw [ServiceThread.waitForRunning_of_notified hnotified]
      exact hheard.not_blocked (by simp [hplace])
    · obtain rfl := Option.some.inj hrun
      have hquiet := Bool.eq_false_iff.mpr hnotified
      rw [ServiceThread.waitForRunning_of_quiet hquiet]
      exact {
        sound := fun _ ↦ hquiet
        blocked := fun _ ↦ rfl
        asked := fun hasked ↦ by
          rcases hheard.asked hasked with hnotified' | ⟨hwaiting, -⟩
          · exact absurd hnotified' hnotified
          · rw [hplace] at hwaiting
            cases hwaiting
        stoped := fun hstoped _ ↦ hheard.stoped hstoped (Or.inl hplace)
        ended := fun hended ↦ by cases hended }
  | waiting =>
    simp only [hplace] at hrun
    split_ifs at hrun with hblocked
    obtain rfl := Option.some.inj hrun
    refine heard_beginRebalance ?_
    exact (ServiceThread.blocked_leaveWait _ _).trans (Bool.eq_false_iff.mpr hblocked)
  | doRebalance =>
    simp only [hplace] at hrun
    obtain rfl := Option.some.inj hrun
    cases throws <;> exact hheard.goOn (by simp [hplace]) (by simp) (by simp)
  | ended | thrown => simp [hplace] at hrun

theorem step_heard {event : RebalanceServiceEvent} (hstep : state.step event = some next)
    (hheard : state.Heard) : next.Heard := by
  cases event with
  | rebalanceImmediately => exact Option.some.inj hstep ▸ hheard.wakeup _ _
  | setStoped =>
    obtain rfl := Option.some.inj hstep
    exact ⟨hheard.sound, hheard.blocked, hheard.asked, fun _ _ ↦ Or.inr (Nat.succ_pos _),
      fun _ ↦ rfl⟩
  | wakeupStoped =>
    rw [step] at hstep
    split_ifs at hstep
    exact Option.some.inj hstep ▸ hheard.wakeup _ _
  | run throws => exact run_heard hstep hheard
  | endWait =>
    obtain ⟨hblocked, hnext⟩ := Option.ite_none_right_eq_some.mp hstep
    obtain rfl := Option.some.inj hnext
    have hplace := hheard.blocked hblocked
    exact {
      sound := fun hwaits ↦ absurd hwaits Bool.false_ne_true
      blocked := fun hwaits ↦ absurd hwaits Bool.false_ne_true
      asked := fun _ ↦ Or.inr ⟨hplace, rfl⟩
      stoped := fun hstoped hcase ↦ hheard.stoped hstoped (Or.inr hblocked)
      ended := hheard.ended }

theorem run_events_heard {events : List RebalanceServiceEvent}
    (hrun : rebalanceServiceSystem.run state events = some next) (hheard : state.Heard) :
    next.Heard :=
  @EventSystem.run_invariant _ _ rebalanceServiceSystem Heard
    (fun _ _ _ hstep hheard ↦ step_heard hstep hheard) _ _ _ hrun hheard

/-! ### The service alone -/

/-- A rebalance has just begun. -/
def Begins (state : RebalanceService) : Prop := state.place = .doRebalance ∧ state.asked = false

theorem reaches_run {target : RebalanceService → Prop} {bound : ℕ}
    (hrun : state.run false = some next)
    (hreaches : rebalanceServiceSystem.Reaches (.run false) target bound next) :
    rebalanceServiceSystem.Reaches (.run false) target (bound + 1) state :=
  EventSystem.reaches_step hrun hreaches

theorem begins_of_waiting (hplace : state.place = .waiting)
    (hwoken : state.service.blocked = false) :
    rebalanceServiceSystem.Reaches (.run false) Begins 1 state := by
  have hrun : state.run false = some state.beginRebalance := by
    simp only [run, hplace, ServiceThread.leaveWait, hwoken]
    rfl
  exact reaches_run hrun (EventSystem.reaches_here ⟨rfl, rfl⟩ 0)

theorem begins_of_waitForRunning (hplace : state.place = .waitForRunning)
    (hnotified : state.service.notified = true) :
    rebalanceServiceSystem.Reaches (.run false) Begins 1 state := by
  have hrun : state.run false =
      some { state with service := state.service.waitForRunning }.beginRebalance := by
    simp [run, hplace, hnotified]
  exact reaches_run hrun (EventSystem.reaches_here ⟨rfl, rfl⟩ 0)

theorem begins_of_testStop (hplace : state.place = .testStop)
    (hrunning : state.service.stoped = false) (hnotified : state.service.notified = true) :
    rebalanceServiceSystem.Reaches (.run false) Begins 2 state := by
  have hrun : state.run false = some { state with place := .waitForRunning } := by
    simp [run, hplace, hrunning]
  refine reaches_run hrun ?_
  exact begins_of_waitForRunning rfl hnotified

theorem begins_of_doRebalance (hplace : state.place = .doRebalance)
    (hrunning : state.service.stoped = false) (hnotified : state.service.notified = true) :
    rebalanceServiceSystem.Reaches (.run false) Begins 3 state := by
  have hrun : state.run false = some { state with place := .testStop } := by
    simp [run, hplace]
  refine reaches_run hrun ?_
  exact begins_of_testStop rfl hrunning hnotified

theorem Heard.begins (hheard : state.Heard) (hasked : state.asked = true)
    (hrunning : state.service.stoped = false) (hthrown : state.place ≠ .thrown) :
    rebalanceServiceSystem.Reaches (.run false) Begins 3 state := by
  have hnotified (hother : state.place ≠ .waiting) : state.service.notified = true :=
    (hheard.asked hasked).resolve_right fun hwaits ↦ hother hwaits.1
  cases hplace : state.place with
  | testStop =>
    exact EventSystem.reaches_mono (by decide)
      (begins_of_testStop hplace hrunning (hnotified (by simp [hplace])))
  | waitForRunning =>
    exact EventSystem.reaches_mono (by decide)
      (begins_of_waitForRunning hplace (hnotified (by simp [hplace])))
  | waiting =>
    refine EventSystem.reaches_mono (by decide) (begins_of_waiting hplace ?_)
    rcases hheard.asked hasked with hset | ⟨-, hwoken⟩
    · exact Bool.eq_false_iff.mpr fun hblocked ↦
        Bool.false_ne_true ((hheard.sound hblocked).symm.trans hset)
    · exact hwoken
  | doRebalance => exact begins_of_doRebalance hplace hrunning (hnotified (by simp [hplace]))
  | ended => exact absurd (hrunning.symm.trans (hheard.ended hplace)) Bool.false_ne_true
  | thrown => exact absurd hplace hthrown

end RebalanceService

open RebalanceService

/-- In every run of the service: when `rebalanceImmediately` has been called since the last
rebalance began, the thread is not blocked, and alone it begins a rebalance within three steps,
unless the service has been stopped or a rebalance has thrown. -/
theorem rebalance_follows_call (events : List RebalanceServiceEvent) (state : RebalanceService)
    (hrun : rebalanceServiceSystem.run RebalanceService.initial events = some state)
    (hasked : state.asked = true) :
    state.service.blocked = false ∧
      (state.service.stoped = false → state.place ≠ .thrown →
        rebalanceServiceSystem.Reaches (.run false) Begins 3 state) := by
  have hheard := run_events_heard hrun heard_initial
  refine ⟨?_, fun hrunning hthrown ↦ hheard.begins hasked hrunning hthrown⟩
  rcases hheard.asked hasked with hnotified | ⟨-, hwoken⟩
  · exact Bool.eq_false_iff.mpr fun hblocked ↦
      Bool.false_ne_true ((hheard.sound hblocked).symm.trans hnotified)
  · exact hwoken

/-- A call comes while a rebalance is under way. -/
theorem rebalance_follows_call_during :
    ∃ state, rebalanceServiceSystem.run RebalanceService.initial
        [.run false, .run false, .endWait, .run false, .rebalanceImmediately] = some state ∧
      state.place = .doRebalance ∧
      rebalanceServiceSystem.Reaches (.run false) Begins 3 state :=
  ⟨_, rfl, rfl, (rebalance_follows_call [.run false, .run false, .endWait, .run false,
    .rebalanceImmediately] _ rfl rfl).2 rfl (by decide)⟩

end RocketMQClient.Consumer
