import RocketMQClient.Kpr.ThreadPool

/-!
# The flags of a worker

The pool writes the flags of a worker from inside its own monitor while the worker runs, and each
section of the worker's monitor is a step. `Sound` is what holds between the flags and the phase of
a worker that has not been told to stop: a worker that is idle is in the section that waits and has
not been woken, unless `AddThreads` still watches it, and one that has been woken is not idle.
`take_sound` says that every step keeps it.

The flags and the phase disagree for a while: between the start of a worker and its first wait, and
between the section in which the pool sets a worker busy and the one in which it wakes it. `Awaits`
and `Wakes` name the places of the thread inside the monitor that account for it, and `Quiet` those
at which nothing is under way. A worker is `Active` when it asks for work before it waits or exits,
which is what a caller of `AddWork` counts on.
-/

set_option autoImplicit false
set_option relaxedAutoImplicit false

namespace RocketMQClient.Kpr

open Library

/-! ### Active workers -/

namespace WorkerPhase

/-- In the section that waits for `m_canWork`. -/
def Blocks : WorkerPhase → Prop
  | entering | waiting => True
  | unborn | outer | settingIdle | inner | getting | got _ | doing _ | leaving | asking | removing
  | exited => False

/-- Has work, or asks for it before it waits. -/
def InTurn : WorkerPhase → Prop
  | inner | getting | got _ | doing _ => True
  | unborn | outer | settingIdle | entering | waiting | leaving | asking | removing
  | exited => False

/-- Between the head of the outer loop and the section that waits. -/
def Returns : WorkerPhase → Prop
  | outer | settingIdle => True
  | unborn | entering | waiting | inner | getting | got _ | doing _ | leaving | asking | removing
  | exited => False

/-- The thread runs. -/
def Alive : WorkerPhase → Prop
  | unborn | exited => False
  | outer | settingIdle | entering | waiting | inner | getting | got _ | doing _ | leaving | asking
  | removing => True

variable {phase : WorkerPhase}

theorem not_inTurn_of_blocks (hblocks : phase.Blocks) : ¬ phase.InTurn := by
  cases phase with
  | entering | waiting => exact id
  | unborn | outer | settingIdle | inner | getting | got | doing | leaving | asking | removing
  | exited => exact hblocks.elim

theorem not_inTurn_of_returns (hreturns : phase.Returns) : ¬ phase.InTurn := by
  cases phase with
  | outer | settingIdle => exact id
  | unborn | entering | waiting | inner | getting | got | doing | leaving | asking | removing
  | exited => exact hreturns.elim

theorem alive_of_blocks (hblocks : phase.Blocks) : phase.Alive := by
  cases phase with
  | entering | waiting => trivial
  | unborn | outer | settingIdle | inner | getting | got | doing | leaving | asking | removing
  | exited => exact hblocks.elim

theorem alive_of_inTurn (hinTurn : phase.InTurn) : phase.Alive := by
  cases phase with
  | inner | getting | got | doing => trivial
  | unborn | outer | settingIdle | entering | waiting | leaving | asking | removing | exited =>
    exact hinTurn.elim

end WorkerPhase

/-- The worker asks for work before it waits again and before it exits. -/
def Worker.Active (worker : Worker) : Prop :=
  worker.stop = false ∧ (worker.canWork = true ∧ worker.phase.Blocks ∨ worker.phase.InTurn)

namespace PoolSection

/-- `AddThreads` watches the worker. -/
def Awaits (index : ℕ) : PoolSection → Prop
  | awaiting started _ _ => started = index
  | free | searching _ _ | waking _ | notifying _ | starting _ _ | reaping _ _ _ | stopping _ _ _ _
  | destroying _ => False

/-- `WakeUp` is called on the worker. -/
def Wakes (index : ℕ) : PoolSection → Prop
  | waking found | notifying found => found = index
  | free | searching _ _ | starting _ _ | awaiting _ _ _ | reaping _ _ _ | stopping _ _ _ _
  | destroying _ => False

/-- `WakeUp` has been called on the worker and has set it busy. -/
def Notifies (index : ℕ) : PoolSection → Prop
  | notifying found => found = index
  | free | searching _ _ | waking _ | starting _ _ | awaiting _ _ _ | reaping _ _ _
  | stopping _ _ _ _ | destroying _ => False

/-- `RemoveIdleThreads` is about to stop the worker. -/
def Stops (index : ℕ) : PoolSection → Prop
  | stopping found _ _ _ => found = index
  | free | searching _ _ | waking _ | notifying _ | starting _ _ | awaiting _ _ _ | reaping _ _ _
  | destroying _ => False

theorem wakes_of_notifies {holder : PoolSection} {index : ℕ} (hnotifies : holder.Notifies index) :
    holder.Wakes index := by
  cases holder with
  | notifying found => exact hnotifies
  | free | searching | waking | starting | awaiting | reaping | stopping | destroying =>
    exact hnotifies.elim

/-- The thread inside the monitor is about to do nothing to a worker and waits for none. -/
def Quiet : PoolSection → Prop
  | free | searching _ _ | starting _ _ | reaping _ _ _ => True
  | waking _ | notifying _ | awaiting _ _ _ | stopping _ _ _ _ | destroying _ => False

theorem not_awaits_of_quiet {holder : PoolSection} (hquiet : holder.Quiet) (index : ℕ) :
    ¬ holder.Awaits index := by
  cases holder with
  | free | searching | starting | reaping => exact id
  | waking | notifying | awaiting | stopping | destroying => exact hquiet.elim

theorem not_wakes_of_quiet {holder : PoolSection} (hquiet : holder.Quiet) (index : ℕ) :
    ¬ holder.Wakes index := by
  cases holder with
  | free | searching | starting | reaping => exact id
  | waking | notifying | awaiting | stopping | destroying => exact hquiet.elim

theorem not_stops_of_quiet {holder : PoolSection} (hquiet : holder.Quiet) (index : ℕ) :
    ¬ holder.Stops index := by
  cases holder with
  | free | searching | starting | reaping => exact id
  | waking | notifying | awaiting | stopping | destroying => exact hquiet.elim

/-- A call of `AddWork` is inside. -/
def Adding : PoolSection → Prop
  | searching _ _ | waking _ | notifying _ => True
  | starting _ adding | awaiting _ _ adding => adding = true
  | free | reaping _ _ _ | stopping _ _ _ _ | destroying _ => False

theorem not_destroys_of_quiet {holder : PoolSection} (hquiet : holder.Quiet) :
    ¬ holder.Destroys := by
  cases holder with
  | free | searching | starting | reaping => exact id
  | waking | notifying | awaiting | stopping | destroying => exact hquiet.elim

end PoolSection

/-! ### The flags of a worker -/

/-- What holds of the flags of a worker that has not been told to stop. -/
structure WorkerSound (holder : PoolSection) (index : ℕ) (worker : Worker) : Prop where
  woken : worker.canWork = true → worker.idle = false ∧ worker.phase.Blocks
  resting : worker.idle = true → worker.phase.Blocks ∨
    worker.phase.Returns ∧ worker.isWaiting = false ∧ holder.Awaits index
  chosen : holder.Wakes index → worker.phase.Blocks ∧ worker.canWork = false
  noted : holder.Notifies index → worker.idle = false
  condemned : holder.Stops index → worker.idle = true

namespace Worker

variable {worker next : Worker} {throws : Bool} {holder : PoolSection} {index : ℕ}

theorem run_stop (hrun : worker.run throws = some next) : next.stop = worker.stop := by
  unfold run at hrun
  cases hphase : worker.phase with
  | unborn | getting | asking | removing | exited => simp [hphase] at hrun
  | entering | waiting =>
    simp only [hphase] at hrun
    split_ifs at hrun <;> exact Option.some.inj hrun ▸ rfl
  | outer | settingIdle | inner | got | doing | leaving =>
    simp only [hphase, Option.some.injEq] at hrun
    exact hrun ▸ rfl

/-- A worker that is active stays active in its own steps, unless it ends in an exception. -/
theorem Active.run (hactive : worker.Active)
    (hthrows : throws = true → ¬ ∃ request, worker.phase = .doing request)
    (hrun : worker.run throws = some next) : next.Active := by
  obtain ⟨hstop, hphase⟩ := hactive
  refine ⟨(run_stop hrun).trans hstop, ?_⟩
  unfold Worker.run at hrun
  cases hcase : worker.phase with
  | unborn | getting | asking | removing | exited => simp [hcase] at hrun
  | outer | settingIdle | leaving => simp [hcase, WorkerPhase.Blocks, WorkerPhase.InTurn] at hphase
  | entering | waiting =>
    have hcanWork : worker.canWork = true := by
      simpa [hcase, WorkerPhase.Blocks, WorkerPhase.InTurn] using hphase
    simp only [hcase, hcanWork, if_true, Option.some.injEq] at hrun
    subst hrun
    exact Or.inr trivial
  | inner =>
    simp only [hcase, hstop, Bool.false_eq_true, if_false, Option.some.injEq] at hrun
    subst hrun
    exact Or.inr trivial
  | got request =>
    simp only [hcase, Option.some.injEq] at hrun
    subst hrun
    exact Or.inr trivial
  | doing request =>
    cases throws with
    | true => exact absurd ⟨request, hcase⟩ (hthrows rfl)
    | false =>
      simp only [hcase, Bool.false_eq_true, if_false, Option.some.injEq] at hrun
      subst hrun
      exact Or.inr trivial

end Worker

namespace WorkerSound

variable {worker next : Worker} {throws : Bool} {holder : PoolSection} {index : ℕ}

/-- A worker that is neither idle nor in the section that waits stays sound whatever it does next,
as long as it is not set idle or woken. -/
theorem of_busy (hsound : WorkerSound holder index worker) (hblocks : ¬ worker.phase.Blocks)
    (hreturns : ¬ worker.phase.Returns) (hcanWork : next.canWork = worker.canWork)
    (hidle : next.idle = true → worker.idle = true) : WorkerSound holder index next := by
  have hnotIdle : worker.idle ≠ true := fun htrue ↦
    (hsound.resting htrue).elim hblocks fun hfresh ↦ hreturns hfresh.1
  have hnotWoken : next.canWork ≠ true := fun htrue ↦
    hblocks (hsound.woken (hcanWork ▸ htrue)).2
  exact
    { woken := fun htrue ↦ absurd htrue hnotWoken
      resting := fun htrue ↦ absurd (hidle htrue) hnotIdle
      chosen := fun hwakes ↦ absurd (hsound.chosen hwakes).1 hblocks
      noted := fun _ ↦ Bool.eq_false_iff.mpr fun htrue ↦ hnotIdle (hidle htrue)
      condemned := fun hstops ↦ absurd (hsound.condemned hstops) hnotIdle }

/-- A worker that leaves the section that waits. -/
theorem of_woken (hsound : WorkerSound holder index worker) (hcanWork : worker.canWork = true)
    (hnext : next.canWork = false) (hidle : next.idle = worker.idle) :
    WorkerSound holder index next := by
  have hfalse : next.idle = false := hidle.trans (hsound.woken hcanWork).1
  have hnotIdle : next.idle ≠ true := by simp [hfalse]
  exact
    { woken := fun htrue ↦ absurd (hnext.symm.trans htrue) Bool.false_ne_true
      resting := fun htrue ↦ absurd htrue hnotIdle
      chosen := fun hwakes ↦
        absurd ((hsound.chosen hwakes).2.symm.trans hcanWork) Bool.false_ne_true
      noted := fun _ ↦ hfalse
      condemned := fun hstops ↦ absurd (hidle.trans (hsound.condemned hstops)) hnotIdle }

/-- A worker that stays in the section that waits. -/
theorem of_blocks (hsound : WorkerSound holder index worker) (hcanWork : next.canWork = false)
    (hblocks : next.phase.Blocks) (hidle : next.idle = worker.idle) :
    WorkerSound holder index next where
  woken := fun htrue ↦ absurd (hcanWork.symm.trans htrue) Bool.false_ne_true
  resting := fun _ ↦ Or.inl hblocks
  chosen := fun _ ↦ ⟨hblocks, hcanWork⟩
  noted := fun hnotifies ↦ hidle.trans (hsound.noted hnotifies)
  condemned := fun hstops ↦ hidle.trans (hsound.condemned hstops)

/-- A worker that goes back to the section that waits. -/
theorem of_returns (hsound : WorkerSound holder index worker) (hblocks : ¬ worker.phase.Blocks)
    (hcanWork : next.canWork = worker.canWork)
    (hidle : worker.idle = true → next.idle = true)
    (hnext : next.phase.Blocks ∨
      next.phase.Returns ∧ next.idle = worker.idle ∧ next.isWaiting = worker.isWaiting) :
    WorkerSound holder index next where
  woken := fun htrue ↦ absurd (hsound.woken (hcanWork ▸ htrue)).2 hblocks
  resting := fun htrue ↦ hnext.imp_right fun ⟨hphase, hsame, hwaiting⟩ ↦
    ⟨hphase, by
      rw [hwaiting]
      exact ((hsound.resting (hsame ▸ htrue)).resolve_left hblocks).2⟩
  chosen := fun hwakes ↦ absurd (hsound.chosen hwakes).1 hblocks
  noted := fun hnotifies ↦
    absurd (hsound.chosen (PoolSection.wakes_of_notifies hnotifies)).1 hblocks
  condemned := fun hstops ↦ hidle (hsound.condemned hstops)

/-- The steps of a worker outside the monitor of the pool. -/
theorem run (hsound : WorkerSound holder index worker) (hstop : worker.stop = false)
    (hrun : worker.run throws = some next) : WorkerSound holder index next := by
  unfold Worker.run at hrun
  cases hcase : worker.phase with
  | unborn | getting | asking | removing | exited => simp [hcase] at hrun
  | outer =>
    simp only [hcase, hstop, Bool.false_eq_true, if_false, Option.some.injEq] at hrun
    subst hrun
    exact hsound.of_returns (by rw [hcase]; exact id) rfl id
      (Or.inr ⟨trivial, rfl, rfl⟩)
  | settingIdle =>
    simp only [hcase, Option.some.injEq] at hrun
    subst hrun
    exact hsound.of_returns (by rw [hcase]; exact id) rfl (fun _ ↦ rfl) (Or.inl trivial)
  | entering | waiting =>
    simp only [hcase] at hrun
    split_ifs at hrun with hcanWork
    · cases hrun
      exact hsound.of_woken hcanWork rfl rfl
    · cases hrun
      exact hsound.of_blocks (Bool.eq_false_iff.mpr hcanWork) trivial rfl
  | inner | leaving =>
    simp only [hcase, Option.some.injEq] at hrun
    subst hrun
    exact hsound.of_busy (by rw [hcase]; exact id) (by rw [hcase]; exact id) rfl id
  | got request =>
    simp only [hcase, Option.some.injEq] at hrun
    subst hrun
    exact hsound.of_busy (by rw [hcase]; exact id) (by rw [hcase]; exact id) rfl
      fun htrue ↦ absurd htrue Bool.false_ne_true
  | doing request =>
    simp only [hcase, Option.some.injEq] at hrun
    subst hrun
    exact hsound.of_busy (by rw [hcase]; exact id) (by rw [hcase]; exact id) rfl id

/-- The pool turns to something that is not this worker. -/
theorem of_holder {holder' : PoolSection} (hsound : WorkerSound holder index worker)
    (hawaits : holder.Awaits index → worker.isWaiting = true)
    (hwakes : ¬ holder'.Wakes index) (hstops : ¬ holder'.Stops index) :
    WorkerSound holder' index worker where
  woken := hsound.woken
  resting := fun hidle ↦ (hsound.resting hidle).imp_right fun ⟨_, hwaiting, hheld⟩ ↦
    absurd (hwaiting.symm.trans (hawaits hheld)) Bool.false_ne_true
  chosen := fun htrue ↦ absurd htrue hwakes
  noted := fun htrue ↦ absurd (PoolSection.wakes_of_notifies htrue) hwakes
  condemned := fun htrue ↦ absurd htrue hstops

/-- The pool turns away from the workers. -/
theorem of_quiet {holder' : PoolSection} (hsound : WorkerSound holder index worker)
    (hawaits : holder.Awaits index → worker.isWaiting = true) (hquiet : holder'.Quiet) :
    WorkerSound holder' index worker :=
  hsound.of_holder hawaits (PoolSection.not_wakes_of_quiet hquiet index)
    (PoolSection.not_stops_of_quiet hquiet index)

/-- An idle worker that the pool does not await is in the section that waits and not woken. -/
theorem blocks_of_idle (hsound : WorkerSound holder index worker) (hidle : worker.idle = true)
    (hawaits : ¬ holder.Awaits index) : worker.phase.Blocks ∧ worker.canWork = false := by
  refine ⟨(hsound.resting hidle).resolve_right fun hfresh ↦ hawaits hfresh.2.2, ?_⟩
  refine Bool.eq_false_iff.mpr fun htrue ↦ ?_
  exact Bool.false_ne_true ((hsound.woken htrue).1.symm.trans hidle)

/-- An idle worker is not active. -/
theorem not_active_of_idle (hsound : WorkerSound holder index worker)
    (hidle : worker.idle = true) : ¬ worker.Active := by
  rintro ⟨-, hwoken | hinTurn⟩
  · exact Bool.false_ne_true ((hsound.woken hwoken.1).1.symm.trans hidle)
  · rcases hsound.resting hidle with hblocks | ⟨hreturns, -⟩
    · exact WorkerPhase.not_inTurn_of_blocks hblocks hinTurn
    · exact WorkerPhase.not_inTurn_of_returns hreturns hinTurn

end WorkerSound

/-! ### What every step keeps -/

namespace ThreadPool

/-- The flags of the workers that have not been told to stop are in order. -/
structure Sound (pool : ThreadPool) : Prop where
  workers : ∀ index, (pool.threads index).stop = false →
    WorkerSound pool.holder index (pool.threads index)
  maxIdleTime : 0 ≤ pool.maxIdleTime
  destroying : pool.holder.Destroys → pool.destroy = true

variable {pool next : ThreadPool}

/-- One worker changes and the thread inside the monitor goes on. -/
theorem Sound.of_update (hsound : pool.Sound) {index : ℕ} {worker : Worker}
    (hthreads : next.threads = Function.update pool.threads index worker)
    (hmaxIdleTime : next.maxIdleTime = pool.maxIdleTime)
    (hdestroying : next.holder.Destroys → next.destroy = true)
    (hworker : worker.stop = false → WorkerSound next.holder index worker)
    (hothers : ∀ other ≠ index, (pool.threads other).stop = false →
      WorkerSound pool.holder other (pool.threads other) →
      WorkerSound next.holder other (pool.threads other)) : next.Sound where
  workers := by
    rw [hthreads]
    refine (Function.forall_update_iff pool.threads fun other worker ↦
      worker.stop = false → WorkerSound next.holder other worker).mpr ⟨hworker, ?_⟩
    exact fun other hother hstop ↦ hothers other hother hstop (hsound.workers other hstop)
  maxIdleTime := hmaxIdleTime ▸ hsound.maxIdleTime
  destroying := hdestroying

/-- The thread inside the monitor goes on and the workers stay as they are. -/
theorem Sound.of_same (hsound : pool.Sound) (hthreads : next.threads = pool.threads)
    (hmaxIdleTime : next.maxIdleTime = pool.maxIdleTime)
    (hdestroying : next.holder.Destroys → next.destroy = true)
    (hworkers : ∀ index, (pool.threads index).stop = false →
      WorkerSound pool.holder index (pool.threads index) →
      WorkerSound next.holder index (pool.threads index)) : next.Sound where
  workers := by
    rw [hthreads]
    exact fun index hstop ↦ hworkers index hstop (hsound.workers index hstop)
  maxIdleTime := hmaxIdleTime ▸ hsound.maxIdleTime
  destroying := hdestroying

/-- A worker changes while the thread inside the monitor stays where it is. -/
theorem Sound.setThread (hsound : pool.Sound) {index : ℕ} {worker : Worker}
    (hworker : worker.stop = false → WorkerSound pool.holder index worker) :
    (pool.setThread index worker).Sound :=
  hsound.of_update rfl rfl hsound.destroying hworker fun _ _ _ hother ↦ hother

/-- The steps of a worker. -/
theorem Sound.work (hsound : pool.Sound) {index : ℕ} {throws : Bool}
    (hstep : pool.work index throws = some next) : next.Sound := by
  have hbusy : ∀ phase, ¬ (pool.threads index).phase.Blocks →
      ¬ (pool.threads index).phase.Returns → (pool.setPhase index phase).Sound := by
    intro phase hblocks hreturns
    refine hsound.setThread fun hstop ↦ ?_
    exact (hsound.workers index hstop).of_busy hblocks hreturns rfl id
  unfold ThreadPool.work at hstep
  split at hstep
  next hcase =>
    split_ifs at hstep
    cases hstep
    unfold getWork
    split
    next request rest _ _ =>
      have hgot := hbusy (.got request) (by rw [hcase]; exact id) (by rw [hcase]; exact id)
      exact ⟨hgot.workers, hgot.maxIdleTime, hgot.destroying⟩
    next => exact hbusy .leaving (by rw [hcase]; exact id) (by rw [hcase]; exact id)
  next hcase =>
    split_ifs at hstep <;> cases hstep <;>
      exact hbusy _ (by rw [hcase]; exact id) (by rw [hcase]; exact id)
  next hcase =>
    split_ifs at hstep
    cases hstep
    have hexited := hbusy .exited (by rw [hcase]; exact id) (by rw [hcase]; exact id)
    exact ⟨hexited.workers, hexited.maxIdleTime, hexited.destroying⟩
  next =>
    obtain ⟨worker, hrun, rfl⟩ := Option.map_eq_some_iff.mp hstep
    refine hsound.setThread fun hstop ↦ ?_
    have hbefore : (pool.threads index).stop = false := (Worker.run_stop hrun).symm.trans hstop
    exact (hsound.workers index hbefore).run hbefore hrun

/-- A worker that is told to stop. -/
theorem Sound.halt (hsound : pool.Sound) (index : ℕ) {holder : PoolSection}
    (hdestroying : holder.Destroys → pool.destroy = true)
    (hawaits : ∀ other, ¬ pool.holder.Awaits other) (hwakes : ∀ other, ¬ holder.Wakes other)
    (hstops : ∀ other, ¬ holder.Stops other) :
    ({ pool.setThread index (pool.threads index).halt with holder := holder } : ThreadPool).Sound :=
  hsound.of_update rfl rfl hdestroying (fun hstop ↦ absurd hstop Bool.true_eq_false.mp)
    fun other _ _ hother ↦ hother.of_holder (fun htrue ↦ absurd htrue (hawaits other))
      (hwakes other) (hstops other)

/-- The thread inside the monitor turns away from the workers. -/
theorem Sound.setQuiet (hsound : pool.Sound) {holder : PoolSection}
    (hawaits : ∀ other, pool.holder.Awaits other → (pool.threads other).isWaiting = true)
    (hquiet : holder.Quiet) : ({ pool with holder := holder } : ThreadPool).Sound :=
  hsound.of_same rfl rfl (fun htrue ↦ absurd htrue (PoolSection.not_destroys_of_quiet hquiet))
    fun other _ hother ↦ hother.of_quiet (hawaits other) hquiet

/-- `WakeOneThread` finds an idle worker. -/
theorem Sound.wake (hsound : pool.Sound) {index : ℕ} (hquiet : pool.holder.Quiet)
    (hidle : (pool.threads index).idle = true) :
    ({ pool with holder := .waking index } : ThreadPool).Sound := by
  refine hsound.of_same rfl rfl False.elim fun other hstop hother ↦ ?_
  have hawaits := PoolSection.not_awaits_of_quiet hquiet other
  by_cases hsame : index = other
  · subst hsame
    have hblocks := hother.blocks_of_idle hidle hawaits
    exact
      { woken := hother.woken
        resting := fun _ ↦ Or.inl hblocks.1
        chosen := fun _ ↦ hblocks
        noted := False.elim
        condemned := False.elim }
  · exact hother.of_holder (fun htrue ↦ absurd htrue hawaits) hsame id

/-- The first section of `WakeUp`. -/
theorem Sound.wakeUp (hsound : pool.Sound) {index : ℕ} (hholder : pool.holder = .waking index) :
    ({ pool.setThread index ((pool.threads index).setIdle false) with
      holder := .notifying index } : ThreadPool).Sound := by
  refine hsound.of_update rfl rfl False.elim (fun hstop ↦ ?_) fun other hother _ hsame ↦ ?_
  · have hchosen := (hsound.workers index hstop).chosen (by rw [hholder]; rfl)
    exact
      { woken := fun htrue ↦ absurd (hchosen.2.symm.trans htrue) Bool.false_ne_true
        resting := fun htrue ↦ absurd htrue Bool.false_ne_true
        chosen := fun _ ↦ hchosen
        noted := fun _ ↦ rfl
        condemned := False.elim }
  · rw [hholder] at hsame
    exact hsame.of_holder False.elim (fun heq ↦ hother heq.symm) id

/-- The second section of `WakeUp`. -/
theorem Sound.notify (hsound : pool.Sound) {index : ℕ} (hholder : pool.holder = .notifying index) :
    ({ pool.setThread index (pool.threads index).letWork with
      holder := .free } : ThreadPool).Sound := by
  refine hsound.of_update rfl rfl False.elim (fun hstop ↦ ?_) fun other _ _ hsame ↦ ?_
  · have hworker := hsound.workers index hstop
    have hidle := hworker.noted (by rw [hholder]; rfl)
    exact
      { woken := fun _ ↦ ⟨hidle, (hworker.chosen (by rw [hholder]; rfl)).1⟩
        resting := fun htrue ↦ absurd (hidle.symm.trans htrue) Bool.false_ne_true
        chosen := False.elim
        noted := False.elim
        condemned := False.elim }
  · rw [hholder] at hsame
    exact hsame.of_quiet False.elim trivial

/-- `AddThreads` starts a worker. -/
theorem Sound.startThread (hsound : pool.Sound) (hquiet : pool.holder.Quiet) (index count : ℕ)
    (adding : Bool) : (pool.startThread index count adding).Sound := by
  refine hsound.of_update rfl rfl False.elim (fun _ ↦ ?_) fun other _ _ hsame ↦ ?_
  · exact
      { woken := fun htrue ↦ absurd htrue Bool.false_ne_true
        resting := fun _ ↦ Or.inr ⟨trivial, rfl, rfl⟩
        chosen := False.elim
        noted := False.elim
        condemned := False.elim }
  · exact hsame.of_holder
      (fun htrue ↦ absurd htrue (PoolSection.not_awaits_of_quiet hquiet other)) id id

/-- `RemoveIdleThreads` looks at a worker: one whose idle time is too long is idle. -/
theorem Sound.reap (hsound : pool.Sound) (hquiet : pool.holder.Quiet) (index : ℕ)
    (rest : List ℕ) (size interval : ℤ) :
    ({ pool.setThread index ((pool.threads index).addIdleTime interval) with
      holder :=
        if ((pool.threads index).addIdleTime interval).idleTime > pool.maxIdleTime then
          .stopping index rest size interval
        else .reaping rest size interval } : ThreadPool).Sound := by
  have hawaits := PoolSection.not_awaits_of_quiet hquiet
  split_ifs with htime
  · have hidle : (pool.threads index).idle = true := by
      by_contra hbusy
      rw [Worker.addIdleTime, if_neg hbusy] at htime
      exact absurd htime (not_lt.mpr hsound.maxIdleTime)
    refine hsound.of_update rfl rfl False.elim (fun hstop ↦ ?_) fun other hother _ hsame ↦ ?_
    · have hworker := hsound.workers index hstop
      exact
        { woken := hworker.woken
          resting := fun _ ↦ Or.inl (hworker.blocks_of_idle hidle (hawaits index)).1
          chosen := False.elim
          noted := False.elim
          condemned := fun _ ↦ hidle }
    · exact hsame.of_holder (fun htrue ↦ absurd htrue (hawaits other)) id fun heq ↦ hother heq.symm
  · refine hsound.of_update rfl rfl False.elim (fun hstop ↦ ?_) fun other _ _ hsame ↦ ?_
    · have hworker := (hsound.workers index hstop).of_quiet
        (fun htrue ↦ absurd htrue (hawaits index))
        (show (PoolSection.reaping rest size interval).Quiet from trivial)
      exact ⟨hworker.woken, hworker.resting, hworker.chosen, hworker.noted, hworker.condemned⟩
    · exact hsame.of_quiet (fun htrue ↦ absurd htrue (hawaits other)) trivial

/-- The steps of the thread inside the monitor. -/
theorem Sound.proceed (hsound : pool.Sound) {allocated : Option ℕ}
    (hstep : pool.proceed allocated = some next) : next.Sound := by
  have hquiet : pool.holder.Quiet → ∀ other, pool.holder.Awaits other →
      (pool.threads other).isWaiting = true := fun hquiet other hawaits ↦
    absurd hawaits (PoolSection.not_awaits_of_quiet hquiet other)
  unfold ThreadPool.proceed at hstep
  split at hstep
  next => cases hstep
  next again hholder =>
    cases hstep
    exact hsound.setQuiet (hquiet (by rw [hholder]; trivial)) (by split_ifs <;> trivial)
  next index rest again hholder =>
    cases hstep
    split_ifs with hidle
    · exact hsound.wake (by rw [hholder]; trivial) hidle
    · exact hsound.setQuiet (hquiet (by rw [hholder]; trivial)) trivial
  next index hholder =>
    cases hstep
    exact hsound.wakeUp hholder
  next index hholder =>
    cases hstep
    exact hsound.notify hholder
  next adding hholder =>
    cases hstep
    exact hsound.setQuiet (hquiet (by rw [hholder]; trivial)) (by split_ifs <;> trivial)
  next count adding hholder =>
    split at hstep
    next =>
      cases hstep
      exact hsound.setQuiet (hquiet (by rw [hholder]; trivial)) trivial
    next index =>
      split_ifs at hstep
      cases hstep
      exact hsound.startThread (by rw [hholder]; trivial) index count adding
  next index count adding hholder =>
    split_ifs at hstep with hwaiting
    · cases hstep
      have hsame : ({ pool with holder := .starting count adding } : ThreadPool).Sound :=
        hsound.setQuiet (fun other hawaits ↦ by
          rw [hholder] at hawaits
          exact hawaits ▸ hwaiting) trivial
      exact ⟨hsame.workers, hsame.maxIdleTime, hsame.destroying⟩
    · exact Option.some.inj hstep ▸ hsound
  next hholder =>
    cases hstep
    exact hsound.setQuiet (hquiet (by rw [hholder]; trivial)) trivial
  next index rest size interval hholder =>
    split_ifs at hstep
    · cases hstep
      exact hsound.reap (by rw [hholder]; trivial) index rest size interval
    · cases hstep
      exact hsound.setQuiet (hquiet (by rw [hholder]; trivial)) trivial
  next index rest size interval hholder =>
    cases hstep
    exact hsound.halt index False.elim (by rw [hholder]; exact fun _ ↦ id) (fun _ ↦ id) fun _ ↦ id
  next hholder =>
    cases hstep
    exact hsound.setQuiet (by rw [hholder]; exact fun _ ↦ False.elim) trivial
  next index rest hholder =>
    cases hstep
    exact hsound.halt index (fun _ ↦ hsound.destroying (by rw [hholder]; trivial))
      (by rw [hholder]; exact fun _ ↦ id) (fun _ ↦ id) fun _ ↦ id

/-- Every step keeps the flags in order. -/
theorem take_sound (state : ThreadPool) (event : PoolEvent) (next : ThreadPool)
    (hsystem : threadPoolSystem.step state event = some next) (hsound : state.Sound) :
    next.Sound := by
  have hstep : state.take event = some next := hsystem
  have hnone : ∀ other, state.holder = .free → ¬ state.holder.Awaits other := by
    intro other hfree
    rw [hfree]
    exact id
  cases event with
  | addWork work =>
    rw [take, addWork] at hstep
    split_ifs at hstep with hfree
    · exact Option.some.inj hstep ▸ hsound
    · cases hstep
      exact hsound.of_same rfl rfl False.elim fun other _ hother ↦
        hother.of_quiet (fun htrue ↦ absurd htrue (hnone other hfree)) trivial
  | removeIdleThreads time =>
    rw [take, removeIdleThreads] at hstep
    split_ifs at hstep with hfree
    · exact Option.some.inj hstep ▸ hsound
    · cases hstep
      exact hsound.of_same rfl rfl False.elim fun other _ hother ↦
        hother.of_quiet (fun htrue ↦ absurd htrue (hnone other hfree)) trivial
  | destroy =>
    rw [take, beginDestroy] at hstep
    split_ifs at hstep with hfree
    · exact Option.some.inj hstep ▸ hsound
    · cases hstep
      exact hsound.of_same rfl rfl (fun _ ↦ rfl) fun other _ hother ↦
        hother.of_holder (fun htrue ↦ absurd htrue (hnone other hfree)) id id
  | proceed allocated => exact hsound.proceed hstep
  | work index throws => exact hsound.work hstep

end ThreadPool

end RocketMQClient.Kpr
