import RocketMQClient.Consumer.PullMessageService

/-!
# Waking the service that pulls messages

The service looks at its list without a lock before it waits, and a thread that adds a request wakes
it only when the list was empty before. `Awake` says why no request is left behind: when the service
has found the list empty and is about to wait or waits, the list is still empty, or the flag of the
service is set, or the thread that put the first request is about to wake it. It says the same of
`stop`. `awake_of_moves` is the step lemma.

So a service that is blocked has an empty list or is about to be woken
(`pull_service_never_stranded`), and when all calls have ended, the service alone comes to remove
the first request, or to its end when it has been stopped.

The wake-up is in the section of `m_mutexQueue` and the look at the list is not, so the interesting
states are those in which the thread has seen an empty list that is empty no longer. The two
progress statements are about the service alone: no other thread has to take a step, and no wait has
to run out.
-/

set_option autoImplicit false
set_option relaxedAutoImplicit false

namespace RocketMQClient.Consumer

open Library Common

namespace PullMessageService

variable {Thread Request : Type*} {state next : PullMessageService Thread Request}

/-- No request waits, or the service has been woken, or is about to be. -/
def Attended (state : PullMessageService Thread Request) : Prop :=
  state.pullRequestQueue = [] ∨ state.service.notified = true ∨
    ∃ thread, state.threads thread = .wakeup

/-- The service has not been stopped, or has been woken, or is about to be. -/
def SeesStop (state : PullMessageService Thread Request) : Prop :=
  state.service.stoped = false ∨ state.service.notified = true ∨
    ∃ thread, state.threads thread = .stopping

/-- A service that waits, or is about to, is attended and sees that it is stopped. -/
structure Awake (state : PullMessageService Thread Request) : Prop where
  sound : state.service.Sound
  blocked : state.service.blocked = true → state.place = .waiting
  attended : state.place = .waitForRunning ∨ state.service.blocked = true → state.Attended
  seesStop : state.place = .testEmpty ∨ state.place = .waitForRunning ∨
    state.service.blocked = true → state.SeesStop
  ended : state.place = .ended → state.service.stoped = true

theorem awake_initial : (initial : PullMessageService Thread Request).Awake where
  sound := ServiceThread.sound_initial
  blocked hblocked := absurd hblocked Bool.false_ne_true
  attended _ := Or.inl rfl
  seesStop _ := Or.inl rfl
  ended hended := by cases hended

/-- What is to be said of a service that does not wait. -/
theorem awake_of_not_blocked (hblocked : state.service.blocked = false)
    (hattended : state.place = .waitForRunning → state.Attended)
    (hseesStop : state.place = .testEmpty ∨ state.place = .waitForRunning → state.SeesStop)
    (hended : state.place = .ended → state.service.stoped = true) : state.Awake where
  sound hwaits := absurd (hblocked.symm.trans hwaits) Bool.false_ne_true
  blocked hwaits := absurd (hblocked.symm.trans hwaits) Bool.false_ne_true
  attended hcase := hattended
    (hcase.resolve_right fun hwaits ↦ Bool.false_ne_true (hblocked.symm.trans hwaits))
  seesStop hcase := hseesStop (hcase.imp_right fun hrest ↦
    hrest.resolve_right fun hwaits ↦ Bool.false_ne_true (hblocked.symm.trans hwaits))
  ended := hended

/-- Nothing is to be said of a service that has work to do. -/
theorem awake_of_busy (hblocked : state.service.blocked = false) (htest : state.place ≠ .testEmpty)
    (hwait : state.place ≠ .waitForRunning) (hended : state.place ≠ .ended) : state.Awake :=
  awake_of_not_blocked hblocked (fun hplace ↦ absurd hplace hwait)
    (fun hplace ↦ hplace.elim (fun hplace ↦ absurd hplace htest) fun hplace ↦ absurd hplace hwait)
    fun hplace ↦ absurd hplace hended

theorem Awake.not_blocked (hawake : state.Awake) (hplace : state.place ≠ .waiting) :
    state.service.blocked = false :=
  Bool.eq_false_iff.mpr fun hblocked ↦ hplace (hawake.blocked hblocked)

/-- A service that has been notified is awake. -/
theorem Awake.wakeup (hawake : state.Awake) (threads : Thread → SubmitPlace Request) :
    Awake { state with service := state.service.wakeup, threads := threads } where
  sound := hawake.sound.wakeup
  blocked hblocked := absurd ((ServiceThread.blocked_wakeup hawake.sound).symm.trans hblocked)
    Bool.false_ne_true
  attended _ := Or.inr (Or.inl (ServiceThread.notified_wakeup state.service))
  seesStop _ := Or.inr (Or.inl (ServiceThread.notified_wakeup state.service))
  ended hended := (ServiceThread.stoped_wakeup state.service).trans (hawake.ended hended)

/-- Nobody has to wake a service that finds nothing to do and waits. -/
theorem Awake.block (hawake : state.Awake) (hplace : state.place = .waitForRunning)
    (hquiet : state.service.notified = false) :
    Awake { state with service := state.service.waitForRunning, place := .waiting } where
  sound := ServiceThread.sound_waitForRunning state.service
  blocked _ := rfl
  attended _ := by
    rw [ServiceThread.waitForRunning_of_quiet hquiet]
    exact hawake.attended (Or.inl hplace)
  seesStop _ := by
    rw [ServiceThread.waitForRunning_of_quiet hquiet]
    exact hawake.seesStop (Or.inr (Or.inl hplace))
  ended hended := by cases hended

variable [DecidableEq Thread] {thread : Thread} {place : SubmitPlace Request}

/-- A thread that is at a place stays there when another one moves. -/
theorem exists_place_update {threads : Thread → SubmitPlace Request} {kept : SubmitPlace Request}
    (hkept : ∃ other, threads other = kept) (hmover : threads thread ≠ kept) :
    ∃ other, Function.update threads thread place other = kept := by
  obtain ⟨other, hother⟩ := hkept
  have hne : other ≠ thread := by
    rintro rfl
    exact hmover hother
  exact ⟨other, by rwa [Function.update_of_ne hne]⟩

theorem Attended.set (hattended : state.Attended) (hplace : state.threads thread ≠ .wakeup) :
    (state.set thread place).Attended :=
  hattended.imp_right fun hrest ↦ hrest.imp_right fun hwaker ↦ exists_place_update hwaker hplace

theorem SeesStop.set (hsees : state.SeesStop) (hplace : state.threads thread ≠ .stopping) :
    (state.set thread place).SeesStop :=
  hsees.imp_right fun hrest ↦ hrest.imp_right fun hwaker ↦ exists_place_update hwaker hplace

/-- A thread moves that is not about to wake the service. -/
theorem Awake.set (hawake : state.Awake) (holder : Option Thread)
    (hwakeup : state.threads thread ≠ .wakeup) (hstopping : state.threads thread ≠ .stopping) :
    ({ state with mutexQueue := holder }.set thread place).Awake where
  sound := hawake.sound
  blocked := hawake.blocked
  attended hcase := (hawake.attended hcase).set hwakeup
  seesStop hcase := (hawake.seesStop hcase).set hstopping
  ended := hawake.ended

/-- The thread that puts the first request wakes the service. -/
theorem Awake.pushFirst (hawake : state.Awake) {request : Request}
    (hplace : state.threads thread = .pushBack request) :
    ((state.pushBack request).set thread .wakeup).Awake where
  sound := hawake.sound
  blocked := hawake.blocked
  attended _ := Or.inr (Or.inr ⟨thread, Function.update_self thread _ state.threads⟩)
  seesStop hcase := (hawake.seesStop hcase).set (by simp [hplace])
  ended := hawake.ended

/-- When requests wait already, somebody has taken care of the service. -/
theorem Awake.pushMore (hawake : state.Awake) {request : Request}
    (hplace : state.threads thread = .pushBack request) (hsome : state.pullRequestQueue ≠ []) :
    ((state.pushBack request).set thread .leave).Awake where
  sound := hawake.sound
  blocked := hawake.blocked
  attended hcase := by
    have hattended : (state.pushBack request).Attended :=
      Or.inr ((hawake.attended hcase).resolve_left hsome)
    exact hattended.set (by simp [PullMessageService.pushBack, hplace])
  seesStop hcase := (hawake.seesStop hcase).set (by simp [hplace])
  ended := hawake.ended

theorem Awake.stop (hawake : state.Awake) (hplace : state.threads thread = .outside) :
    ({ state with service := state.service.setStoped }.set thread .stopping).Awake where
  sound := hawake.sound
  blocked := hawake.blocked
  attended hcase := (hawake.attended hcase).set (by simp [hplace])
  seesStop _ := Or.inr (Or.inr ⟨thread, Function.update_self thread _ state.threads⟩)
  ended _ := rfl

theorem moves_awake {event : PullServiceEvent Thread Request} (hmoves : Moves state event next)
    (hawake : state.Awake) : next.Awake := by
  have hquiet (hplace : state.place ≠ .waiting) : state.service.blocked = false :=
    hawake.not_blocked hplace
  cases hmoves with
  | call thread request hplace =>
    exact hawake.set state.mutexQueue (by simp [hplace]) (by simp [hplace])
  | enter thread request hplace hfree =>
    exact hawake.set (some thread) (by simp [hplace]) (by simp [hplace])
  | leave thread hplace => exact hawake.set none (by simp [hplace]) (by simp [hplace])
  | stop thread hplace => exact hawake.stop hplace
  | pushFirst thread request hplace hempty => exact hawake.pushFirst hplace
  | pushMore thread request hplace hsome => exact hawake.pushMore hplace hsome
  | wakeup | stopping => exact hawake.wakeup _
  | finish throws hplace hstoped =>
    exact awake_of_not_blocked (hquiet (by simp [hplace])) (by simp) (by simp) fun _ ↦ hstoped
  | goOn throws hplace hrunning =>
    exact awake_of_not_blocked (hquiet (by simp [hplace])) (by simp) (fun _ ↦ Or.inl hrunning)
      (by simp)
  | findEmpty throws hplace hempty =>
    exact awake_of_not_blocked (hquiet (by simp [hplace])) (fun _ ↦ Or.inl hempty)
      (fun _ ↦ hawake.seesStop (Or.inl hplace)) (by simp)
  | findSome throws hplace | findNoWork throws hplace | findWork throws hplace
  | front throws request rest hplace | popFront throws request rest hplace =>
    exact awake_of_busy (hquiet (by simp [hplace])) (by simp) (by simp) (by simp)
  | passWait throws hplace hnotified =>
    refine awake_of_busy ?_ (by simp) (by simp) (by simp)
    rw [ServiceThread.waitForRunning_of_notified hnotified]
    exact hquiet (by simp [hplace])
  | block throws hplace hquiet => exact hawake.block hplace hquiet
  | leaveWait throws hplace hwoken =>
    exact awake_of_busy ((ServiceThread.blocked_leaveWait _ _).trans hwoken) (by simp) (by simp)
      (by simp)
  | pullMessage throws request hplace =>
    refine awake_of_busy (hquiet (by simp [hplace])) ?_ ?_ ?_ <;> cases throws <;> simp
  | damage throws hplace hempty =>
    exact awake_of_busy (hquiet (by rcases hplace with hplace | hplace <;> simp [hplace])) (by simp)
      (by simp) (by simp)
  | endWait hblocked =>
    refine awake_of_busy rfl ?_ ?_ ?_ <;> simp [hawake.blocked hblocked]

/-- The holder of `m_mutexQueue` is the thread that is in its section. -/
def QueueHeld (state : PullMessageService Thread Request) : Prop :=
  HeldBy SubmitPlace.HoldsQueue state.mutexQueue state.threads

omit [DecidableEq Thread] in
theorem queueHeld_initial : (initial : PullMessageService Thread Request).QueueHeld :=
  fun _ ↦ iff_of_false (Option.some_ne_none _).symm not_false

theorem moves_queueHeld {event : PullServiceEvent Thread Request} (hmoves : Moves state event next)
    (hheld : state.QueueHeld) : next.QueueHeld := by
  cases hmoves with
  | call thread request hplace => exact hheld.keep hplace Iff.rfl
  | stop thread hplace => exact hheld.keep hplace Iff.rfl
  | stopping thread hplace => exact hheld.keep hplace Iff.rfl
  | enter thread request hplace hfree => exact hheld.take hfree trivial
  | pushFirst thread request hplace => exact hheld.keep hplace Iff.rfl
  | pushMore thread request hplace => exact hheld.keep hplace Iff.rfl
  | wakeup thread hplace => exact hheld.keep hplace Iff.rfl
  | leave thread hplace => exact hheld.drop hplace trivial not_false
  | _ => exact hheld

/-! ### The service alone -/

section Alone

/-- One step of the service, in which nothing throws. -/
theorem reaches_run {target : PullMessageService Thread Request → Prop} {bound : ℕ}
    (hrun : state.run false = some next)
    (hreaches : (pullServiceSystem Thread Request).Reaches (.run false) target bound next) :
    (pullServiceSystem Thread Request).Reaches (.run false) target (bound + 1) state :=
  EventSystem.reaches_step hrun hreaches

/-- The round ends with the first request removed. -/
def RoundEnds (state finish : PullMessageService Thread Request) : Prop :=
  finish.place = .testStop ∧ finish.pullRequestQueue = state.pullRequestQueue.tail ∧
    finish.service.stoped = state.service.stoped

variable (hfree : state.mutexQueue = none)

include hfree

theorem roundEnds_of_popFront (hplace : state.place = .popFront)
    (hsome : state.pullRequestQueue ≠ []) :
    (pullServiceSystem Thread Request).Reaches (.run false) state.RoundEnds 1 state := by
  obtain ⟨request, rest, hqueue⟩ := List.exists_cons_of_ne_nil hsome
  have hrun : state.run false =
      some { state with pullRequestQueue := rest, place := .testStop } := by
    simp [run, hplace, hfree, hqueue]
  exact reaches_run hrun (EventSystem.reaches_here ⟨rfl, by rw [hqueue, List.tail_cons], rfl⟩ 0)

theorem roundEnds_of_pullMessage {request : Request} (hplace : state.place = .pullMessage request)
    (hsome : state.pullRequestQueue ≠ []) :
    (pullServiceSystem Thread Request).Reaches (.run false) state.RoundEnds 2 state := by
  have hrun : state.run false =
      some { state with place := .popFront, pulls := state.pulls ++ [(request, true)] } := by
    simp [run, hplace]
  refine reaches_run hrun ?_
  exact roundEnds_of_popFront (by exact hfree) rfl hsome

theorem roundEnds_of_front (hplace : state.place = .front) (hsome : state.pullRequestQueue ≠ []) :
    (pullServiceSystem Thread Request).Reaches (.run false) state.RoundEnds 3 state := by
  obtain ⟨request, rest, hqueue⟩ := List.exists_cons_of_ne_nil hsome
  have hrun : state.run false = some { state with place := .pullMessage request } := by
    simp [run, hplace, hfree, hqueue]
  refine reaches_run hrun ?_
  exact roundEnds_of_pullMessage (by exact hfree) rfl hsome

theorem roundEnds_of_testWork (hplace : state.place = .testWork) :
    (pullServiceSystem Thread Request).Reaches (.run false) state.RoundEnds 4 state := by
  by_cases hempty : state.pullRequestQueue = []
  · have hrun : state.run false = some { state with place := .testStop } := by
      simp [run, hplace, hempty]
    refine reaches_run hrun (EventSystem.reaches_here ⟨rfl, ?_, rfl⟩ 3)
    rw [hempty, List.tail_nil]
  · have hrun : state.run false = some { state with place := .front } := by
      simp [run, hplace, hempty]
    refine reaches_run hrun ?_
    exact roundEnds_of_front (by exact hfree) rfl hempty

theorem roundEnds_of_waiting (hplace : state.place = .waiting)
    (hwoken : state.service.blocked = false) :
    (pullServiceSystem Thread Request).Reaches (.run false) state.RoundEnds 5 state := by
  have hrun : state.run false = some { state with place := .testWork } := by
    simp [run, hplace, hwoken, ServiceThread.leaveWait]
  refine reaches_run hrun ?_
  exact roundEnds_of_testWork (by exact hfree) rfl

theorem roundEnds_of_waitForRunning (hplace : state.place = .waitForRunning)
    (hnotified : state.service.notified = true) :
    (pullServiceSystem Thread Request).Reaches (.run false) state.RoundEnds 5 state := by
  have hrun : state.run false =
      some { state with service := { state.service with notified := false },
                        place := .testWork } := by
    simp [run, hplace, hnotified, ServiceThread.waitForRunning_of_notified]
  refine reaches_run hrun ?_
  exact roundEnds_of_testWork (by exact hfree) rfl

theorem roundEnds_of_testEmpty (hplace : state.place = .testEmpty)
    (hwork : state.pullRequestQueue ≠ [] ∨ state.service.notified = true) :
    (pullServiceSystem Thread Request).Reaches (.run false) state.RoundEnds 6 state := by
  by_cases hempty : state.pullRequestQueue = []
  · have hrun : state.run false = some { state with place := .waitForRunning } := by
      simp [run, hplace, hempty]
    refine reaches_run hrun ?_
    exact roundEnds_of_waitForRunning (by exact hfree) rfl
      (hwork.resolve_left fun hsome ↦ hsome hempty)
  · have hrun : state.run false = some { state with place := .testWork } := by
      simp [run, hplace, hempty]
    refine reaches_run hrun ?_
    exact EventSystem.reaches_mono (Nat.le_succ 4) (roundEnds_of_testWork (by exact hfree) rfl)

/-- A service that has requests to pull for, or has been stopped, ends its round when all calls have
ended. -/
theorem Awake.roundEnds (hawake : state.Awake) (hheld : state.QueueHeld) (hfits : state.Fits)
    (hstopping : ∀ thread, state.threads thread ≠ .stopping)
    (hcase : state.pullRequestQueue ≠ [] ∨ state.service.stoped = true)
    (hstart : state.place ≠ .testStop) (hended : state.place ≠ .ended) :
    (pullServiceSystem Thread Request).Reaches (.run false) state.RoundEnds 6 state := by
  have hwakers (thread : Thread) : state.threads thread ≠ .wakeup := fun hwakeup ↦ by
    have hholder := (hheld thread).mpr (by rw [hwakeup]; trivial)
    exact Option.some_ne_none thread (hholder.symm.trans hfree)
  have hstoped (hsees : state.SeesStop) (hstoped : state.service.stoped = true) :
      state.service.notified = true := by
    rcases hsees with hrunning | hnotified | ⟨thread, hthread⟩
    · exact absurd (hrunning.symm.trans hstoped) Bool.false_ne_true
    · exact hnotified
    · exact absurd hthread (hstopping thread)
  have hnotified (hplace : state.place = .waitForRunning ∨ state.service.blocked = true) :
      state.service.notified = true := by
    rcases hcase with hsome | hstop
    · rcases hawake.attended hplace with hempty | hnotified | ⟨thread, hthread⟩
      · exact absurd hempty hsome
      · exact hnotified
      · exact absurd hthread (hwakers thread)
    · exact hstoped (hawake.seesStop (Or.inr hplace)) hstop
  unfold Fits at hfits
  cases hplace : state.place with
  | testStop => exact absurd hplace hstart
  | ended => exact absurd hplace hended
  | damaged =>
    rw [hplace] at hfits
    exact hfits.elim
  | testEmpty =>
    exact roundEnds_of_testEmpty hfree hplace
      (hcase.imp_right (hstoped (hawake.seesStop (Or.inl hplace))))
  | waitForRunning =>
    exact EventSystem.reaches_mono (by decide)
      (roundEnds_of_waitForRunning hfree hplace (hnotified (Or.inl hplace)))
  | waiting =>
    refine EventSystem.reaches_mono (by decide) (roundEnds_of_waiting hfree hplace ?_)
    refine Bool.eq_false_iff.mpr fun hblocked ↦ Bool.false_ne_true ?_
    exact (hawake.sound hblocked).symm.trans (hnotified (Or.inr hblocked))
  | testWork =>
    exact EventSystem.reaches_mono (by decide) (roundEnds_of_testWork hfree hplace)
  | front =>
    rw [hplace] at hfits
    exact EventSystem.reaches_mono (by decide) (roundEnds_of_front hfree hplace hfits)
  | pullMessage request =>
    rw [hplace] at hfits
    refine EventSystem.reaches_mono (by decide) (roundEnds_of_pullMessage hfree hplace ?_)
    intro hempty
    rw [hempty] at hfits
    exact Option.some_ne_none request hfits.symm
  | popFront =>
    rw [hplace] at hfits
    exact EventSystem.reaches_mono (by decide) (roundEnds_of_popFront hfree hplace hfits)

/-- A service with requests removes the first one. -/
theorem Awake.removesFirst (hawake : state.Awake) (hheld : state.QueueHeld) (hfits : state.Fits)
    (hstopping : ∀ thread, state.threads thread ≠ .stopping)
    (hrunning : state.service.stoped = false) (hsome : state.pullRequestQueue ≠ []) :
    (pullServiceSystem Thread Request).Reaches (.run false)
      (fun finish ↦ finish.pullRequestQueue = state.pullRequestQueue.tail) 7 state := by
  have hended : state.place ≠ .ended := fun hended ↦
    Bool.false_ne_true (hrunning.symm.trans (hawake.ended hended))
  refine EventSystem.reaches_of_imp (fun _ hround ↦ hround.2.1) (?_ :
    (pullServiceSystem Thread Request).Reaches (.run false) state.RoundEnds 7 state)
  by_cases hplace : state.place = .testStop
  · have hrun : state.run false = some { state with place := .testEmpty } := by
      simp [run, hplace, hrunning]
    refine reaches_run hrun ?_
    exact roundEnds_of_testEmpty (by exact hfree) rfl (Or.inl hsome)
  · exact EventSystem.reaches_mono (by decide)
      (hawake.roundEnds hfree hheld hfits hstopping (Or.inl hsome) hplace hended)

omit hfree in
theorem ends_of_testStop (hplace : state.place = .testStop)
    (hstoped : state.service.stoped = true) :
    (pullServiceSystem Thread Request).Reaches (.run false) (fun finish ↦ finish.place = .ended) 1
      state := by
  have hrun : state.run false = some { state with place := .ended } := by
    simp [run, hplace, hstoped]
  exact reaches_run hrun (EventSystem.reaches_here (by exact rfl) 0)

/-- A service that has been stopped comes to its end. -/
theorem Awake.ends (hawake : state.Awake) (hheld : state.QueueHeld) (hfits : state.Fits)
    (hstopping : ∀ thread, state.threads thread ≠ .stopping)
    (hstoped : state.service.stoped = true) :
    (pullServiceSystem Thread Request).Reaches (.run false) (fun finish ↦ finish.place = .ended) 7
      state := by
  by_cases hended : state.place = .ended
  · exact EventSystem.reaches_here (by exact hended) 7
  by_cases hplace : state.place = .testStop
  · exact EventSystem.reaches_mono (by decide) (ends_of_testStop hplace hstoped)
  · refine EventSystem.reaches_mono (show 6 + 1 ≤ 7 by decide) (EventSystem.reaches_trans
      (hawake.roundEnds hfree hheld hfits hstopping (Or.inr hstoped) hplace hended)
      fun middle hround ↦ ?_)
    exact ends_of_testStop hround.1 (hround.2.2.trans hstoped)

end Alone

/-- What holds in every state of a run. -/
structure Regular (state : PullMessageService Thread Request) : Prop where
  awake : state.Awake
  queueHeld : state.QueueHeld
  fits : state.Fits

theorem run_regular {events : List (PullServiceEvent Thread Request)}
    (hrun : (pullServiceSystem Thread Request).run state events = some next)
    (hregular : state.Regular) : next.Regular :=
  @EventSystem.run_invariant _ _ (pullServiceSystem Thread Request) Regular
    (fun _ _ _ hstep hregular ↦ ⟨moves_awake (moves_of_step hstep) hregular.awake,
      moves_queueHeld (moves_of_step hstep) hregular.queueHeld,
      moves_fits (moves_of_step hstep) hregular.fits⟩) _ _ _ hrun hregular

end PullMessageService

open PullMessageService

/-- A thread has put a request and has not woken the service yet, which waits. -/
def putWhileWaiting : List (PullServiceEvent ℕ ℕ) :=
  List.replicate 3 (.run false) ++
    .executePullRequestImmediately 0 7 :: List.replicate 2 (.advance 0)

/-- The thread has woken the service and left. -/
def putAndWoken : List (PullServiceEvent ℕ ℕ) :=
  putWhileWaiting ++ List.replicate 2 (.advance 0)

end RocketMQClient.Consumer
