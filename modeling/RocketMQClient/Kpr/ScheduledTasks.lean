import RocketMQClient.Kpr.TimerTaskManager

/-!
# Scheduled tasks run one at a time

A task is run by one worker at a time in every run of the manager and its pool, also when several
timers share the task, and a timer that is out meanwhile is passed over. A task is lost when
`DoTask` throws, when `AddWork` drops it because the pool is destroyed, and when it is still queued
at the end of `Destroy`: its mark stays, and nobody runs it again. No task is missing just when no
step has lost one (`scheduled_tasks`).

Each step of the manager does with the tasks what `Carriage.Step` allows (`step_sound`).

The two losses are of different kinds. `DoTask` that throws leaves the worker of the pool, which
ends; a destroyed pool drops the task at `AddWork` or at the end of `Destroy`. In each case the mark
of the task is never taken off, so that its timers pass it over from then on: a lost task is not run
twice but never again.
-/

set_option autoImplicit false
set_option relaxedAutoImplicit false

namespace RocketMQClient.Kpr

open Library

/-! ### The steps of the manager -/

namespace TimerTaskManager

variable {manager next : TimerTaskManager} {task : ℕ}

theorem update_processing {value : Bool} (other : ℕ) :
    Function.update manager.processing task value other = true ↔
      if other = task then value = true else manager.processing other = true := by
  rw [Function.update_apply]
  split_ifs <;> exact Iff.rfl

/-- A worker that is not in `Do` is not finished. -/
theorem Sound.not_finished (hsound : manager.Sound) {worker : ℕ}
    (hphase : ∀ request, (manager.pool.threads worker).phase ≠ .doing request) :
    manager.finished worker = false :=
  Bool.eq_false_iff.mpr fun htrue ↦
    (hsound.finished worker htrue).elim fun request ↦ hphase request

theorem onTimeOut_carriage (hplace : manager.place = .free) (timerId : ℕ) :
    Carriage.Step False manager.carriage (manager.onTimeOut timerId).carriage := by
  unfold onTimeOut
  cases manager.timerTasks.find? timerId with
  | none => exact .keep id (fun _ ↦ Iff.rfl) fun _ _ ↦ Iff.rfl
  | some task =>
    dsimp only
    split_ifs with hmark
    · exact .keep id (fun _ ↦ Iff.rfl) fun _ _ ↦ Iff.rfl
    · refine .start .timeOut task id hmark (fun other ↦ ?_) fun carrier other ↦ ?_
      · refine (update_processing other).trans ?_
        by_cases hsame : other = task <;> simp [hsame, carriage]
      · cases carrier with
        | timeOut =>
          change TimeOutPlace.adding task = .adding other ↔ _ ∨ manager.place = .adding other
          rw [hplace]
          simp [@eq_comm ℕ task]
        | queue | worker => simp [carriage]

/-- A step in which nothing changes but that the thread in `OnTimeOut` gives its task away. -/
theorem carries_of_given (hsound : manager.Sound) (hplace : manager.place = .adding task)
    {place : TimeOutPlace} (hgiven : ∀ other, place ≠ .adding other) (carrier : TaskCarrier)
    (other : ℕ) :
    { manager with place := place }.carriage.carries carrier other ↔
      other ≠ task ∧ manager.carriage.carries carrier other := by
  have hsource : manager.carriage.carries .timeOut task := hplace
  cases carrier with
  | timeOut =>
    refine iff_of_false (hgiven other) fun hboth ↦ hboth.1 ?_
    have hsame : TimeOutPlace.adding task = .adding other := hplace.symm.trans hboth.2
    exact (TimeOutPlace.adding.inj hsame).symm
  | queue => exact hsound.carriage.carries_iff hsource .queue other nofun
  | worker index => exact hsound.carriage.carries_iff hsource (.worker index) other nofun

/-- `AddWork` queues the task, unless the pool is destroyed. -/
theorem addWork_carriage (hsound : manager.Sound) (hplace : manager.place = .adding task)
    (hstep : manager.addWork task = some next) :
    Carriage.Step (manager.pool.destroy = true) manager.carriage next.carriage := by
  have hsource : manager.carriage.carries .timeOut task := hplace
  obtain ⟨pool, hpool, rfl⟩ := Option.map_eq_some_iff.mp hstep
  rw [ThreadPool.take] at hpool
  split_ifs at hpool
  obtain rfl := Option.some.inj hpool
  have hgiven := fun carrier other ↦ @carries_of_given manager task hsound hplace
    (if (manager.pool.addWork task).holder = .free then .leaving else .inPool)
    (fun _ ↦ by split_ifs <;> simp) carrier other
  by_cases hdestroy : manager.pool.destroy = true
  · have hdropped : manager.pool.addWork task = manager.pool := if_pos hdestroy
    rw [hdropped] at hgiven ⊢
    exact .lose .timeOut (· = task) hdestroy ⟨task, rfl⟩ (fun _ hsame ↦ hsame ▸ hsource)
      (fun _ ↦ Iff.rfl) hgiven
  · refine .handOver .timeOut .queue task hdestroy hsource (fun _ ↦ Iff.rfl) fun carrier other ↦ ?_
    have hworks : (manager.pool.addWork task).works = manager.pool.works ++ [task] := by
      rw [ThreadPool.addWork, if_neg hdestroy]
    have hthreads : (manager.pool.addWork task).threads = manager.pool.threads := by
      rw [ThreadPool.addWork, if_neg hdestroy]
    cases carrier with
    | timeOut => exact (hgiven .timeOut other).trans (by simp)
    | queue =>
      refine Iff.trans ?_ (or_congr_right (hgiven .queue other))
      change other ∈ (manager.pool.addWork task).works ↔ _ ∨ other ∈ manager.pool.works
      rw [hworks, List.mem_append, List.mem_singleton, or_comm]
      simp
    | worker index =>
      refine Iff.trans ?_ ((hgiven (.worker index) other).trans (by simp))
      simp only [carriage, hthreads]

/-- The worker takes the mark off. -/
theorem finishTask_cases {worker : ℕ} (hstep : manager.finishTask worker = some next) :
    ∃ task, manager.Runs worker task ∧
      next = { manager with
        processing := Function.update manager.processing task false
        finished := Function.update manager.finished worker true } := by
  unfold finishTask at hstep
  split at hstep
  next task hphase =>
    split_ifs at hstep with hfinished
    exact ⟨task, ⟨Bool.eq_false_of_not_eq_true hfinished, hphase⟩, (Option.some.inj hstep).symm⟩
  next => cases hstep

theorem finishTask_carriage (hsound : manager.Sound) {worker : ℕ}
    (hstep : manager.finishTask worker = some next) :
    Carriage.Step False manager.carriage next.carriage := by
  obtain ⟨task, ⟨hfinished, hphase⟩, rfl⟩ := finishTask_cases hstep
  have hsource : manager.carriage.carries (.worker worker) task := ⟨hfinished, Or.inr hphase⟩
  refine .finish (.worker worker) task id hsource (fun other ↦ ?_) fun carrier other ↦ ?_
  · refine (update_processing other).trans ?_
    by_cases hsame : other = task <;> simp [hsame, carriage]
  · cases carrier with
    | timeOut => exact hsound.carriage.carries_iff hsource .timeOut other nofun
    | queue => exact hsound.carriage.carries_iff hsource .queue other nofun
    | worker index =>
      by_cases hsame : index = worker
      · subst hsame
        refine iff_of_false (fun hhas ↦ ?_) fun hboth ↦ hboth.1 ?_
        · have hfalse : Function.update manager.finished index true index = false := hhas.1
          rw [Function.update_self] at hfalse
          exact Bool.false_ne_true hfalse.symm
        · exact WorkerPhase.has_doing.mp (hphase ▸ hboth.2.2)
      · refine Iff.trans ?_ (hsound.carriage.carries_iff hsource (.worker index) other ?_)
        · simp only [carriage, Function.update_of_ne hsame]
        · simpa using hsame

/-- A worker goes on with what it has, takes work from the queue, or ends what it does. -/
theorem work_carriage (hsound : manager.Sound) {worker : ℕ} {throws : Bool}
    (hstep : manager.poolStep (.work worker throws) = some next) :
    Carriage.Step (throws = true ∧ ∃ task, manager.Runs worker task) manager.carriage
      next.carriage := by
  rw [poolStep] at hstep
  split_ifs at hstep with hmay
  obtain ⟨pool, hwork, rfl⟩ := Option.map_eq_some_iff.mp hstep
  have hother : ∀ {index : ℕ} (task : ℕ), index ≠ worker →
      (Function.update manager.finished worker false index = false ∧
          (pool.threads index).phase.Has task ↔
        manager.carriage.carries (.worker index) task) := fun task hne ↦ by
    rw [Function.update_of_ne hne, ThreadPool.work_threads_of_ne hwork hne]
    exact Iff.rfl
  have hself : ∀ task, Function.update manager.finished worker false worker = false ∧
      (pool.threads worker).phase.Has task ↔ (pool.threads worker).phase.Has task := fun task ↦
    and_iff_right (Function.update_self worker false manager.finished)
  rcases ThreadPool.work_cases hwork with ⟨request, rest, hphase, hworks, hnext, hgot⟩ |
    ⟨request, hphase, hsame, hnext⟩ | ⟨hnot, hsame, hhas⟩
  · have hsource : manager.carriage.carries .queue request := by
      change request ∈ manager.pool.works
      rw [hworks]
      exact List.mem_cons_self
    have hnodup := hsound.nodup
    rw [hworks, List.nodup_cons] at hnodup
    refine .handOver .queue (.worker worker) request (fun hloses ↦ ?_) hsource
      (fun _ ↦ Iff.rfl) fun carrier task ↦ ?_
    · obtain ⟨-, task, hruns⟩ := hloses
      exact absurd (hphase.symm.trans hruns.2) (by simp)
    cases carrier with
    | timeOut =>
      exact (hsound.carriage.carries_iff hsource .timeOut task (by simp)).trans (by simp)
    | queue =>
      change task ∈ pool.works ↔ _ ∨ _ ∧ task ∈ manager.pool.works
      rw [hnext, hworks, List.mem_cons]
      have hfresh : task ∈ rest → task ≠ request := fun hmem heq ↦ hnodup.1 (heq ▸ hmem)
      rw [or_iff_right (by simp)]
      exact ⟨fun hmem ↦ ⟨hfresh hmem, Or.inr hmem⟩, fun hboth ↦ hboth.2.resolve_left hboth.1⟩
    | worker index =>
      by_cases hindex : index = worker
      · subst hindex
        refine (hself task).trans ?_
        simp [hgot, carriage, hphase, WorkerPhase.Has, @eq_comm ℕ request]
      · refine (hother task hindex).trans ?_
        refine (hsound.carriage.carries_iff hsource (.worker index) task (by simp)).trans ?_
        simp [hindex]
  · have hfinished : manager.finished worker = !throws := by simpa [mayStep, hphase] using hmay
    have hqueue : ∀ task, task ∈ pool.works ↔ task ∈ manager.pool.works := fun _ ↦ by rw [hsame]
    cases throws with
    | true =>
      have hsource : manager.carriage.carries (.worker worker) request := ⟨hfinished, Or.inr hphase⟩
      refine .lose (.worker worker) (· = request) ⟨rfl, request, hfinished, hphase⟩ ⟨request, rfl⟩
        (fun _ hsame ↦ hsame ▸ hsource) (fun _ ↦ Iff.rfl) fun carrier task ↦ ?_
      cases carrier with
      | timeOut => exact hsound.carriage.carries_iff hsource .timeOut task (by simp)
      | queue =>
        exact (hqueue task).trans (hsound.carriage.carries_iff hsource .queue task (by simp))
      | worker index =>
        by_cases hindex : index = worker
        · subst hindex
          refine (hself task).trans (iff_of_false ?_ fun hboth ↦ hboth.1 ?_)
          · simp [hnext, WorkerPhase.Has]
          · exact WorkerPhase.has_doing.mp (hphase ▸ hboth.2.2)
        · refine (hother task hindex).trans ?_
          exact hsound.carriage.carries_iff hsource (.worker index) task (by simpa using hindex)
    | false =>
      refine .keep (by simp) (fun _ ↦ Iff.rfl) fun carrier task ↦ ?_
      cases carrier with
      | timeOut => exact Iff.rfl
      | queue => exact hqueue task
      | worker index =>
        by_cases hindex : index = worker
        · subst hindex
          refine (hself task).trans ?_
          simp [hnext, carriage, hfinished, WorkerPhase.Has]
        · exact hother task hindex
  · refine .keep (fun hloses ↦ hloses.2.elim fun task hruns ↦ hnot task hruns.2)
      (fun _ ↦ Iff.rfl) fun carrier task ↦ ?_
    cases carrier with
    | timeOut => exact Iff.rfl
    | queue =>
      change task ∈ pool.works ↔ task ∈ manager.pool.works
      rw [hsame]
    | worker index =>
      by_cases hindex : index = worker
      · subst hindex
        refine (hself task).trans ((hhas task).trans ?_)
        exact (and_iff_right (hsound.not_finished hnot)).symm
      · exact hother task hindex

/-- The other steps of the pool give no task to anybody. -/
theorem putPool_sound {pool : ThreadPool} (hsound : manager.Sound)
    (hworks : pool.works = manager.pool.works)
    (hphase : ∀ index, (pool.threads index).phase = (manager.pool.threads index).phase ∨
      (manager.pool.threads index).phase = .unborn ∧ (pool.threads index).phase = .outer) :
    Carriage.Step False manager.carriage (manager.putPool pool).carriage ∧
      (manager.putPool pool).Sound := by
  have hstep : Carriage.Step False manager.carriage (manager.putPool pool).carriage := by
    refine .keep id (fun _ ↦ Iff.rfl) fun carrier task ↦ ?_
    cases carrier with
    | timeOut =>
      change (if manager.place = .inPool ∧ pool.holder = .free then .leaving else manager.place) =
        TimeOutPlace.adding task ↔ manager.place = .adding task
      split_ifs with hleaves
      · simp [hleaves.1]
      · exact Iff.rfl
    | queue =>
      change task ∈ pool.works ↔ task ∈ manager.pool.works
      rw [hworks]
    | worker index =>
      refine and_congr_right fun _ ↦ ?_
      change (pool.threads index).phase.Has task ↔ _
      rcases hphase index with hsame | ⟨hunborn, houter⟩
      · rw [hsame]
      · simp [hunborn, houter, WorkerPhase.Has]
  refine ⟨hstep, hsound.carriage.step hstep, hworks ▸ hsound.nodup, fun index hfinished ↦ ?_⟩
  obtain ⟨task, hdoing⟩ := hsound.finished index hfinished
  rcases hphase index with hsame | ⟨hunborn, -⟩
  · exact ⟨task, hsame.trans hdoing⟩
  · exact absurd (hunborn.symm.trans hdoing) (by simp)

/-- A step that leaves the pool alone. -/
theorem Sound.of_step {loses : Prop} (hsound : manager.Sound)
    (hstep : Carriage.Step loses manager.carriage next.carriage) (hpool : next.pool = manager.pool)
    (hfinished : next.finished = manager.finished) : next.Sound := by
  refine ⟨hsound.carriage.step hstep, ?_, ?_⟩
  · rw [hpool]
    exact hsound.nodup
  · rw [hpool, hfinished]
    exact hsound.finished

theorem onTimeOut_keeps (timerId : ℕ) :
    (manager.onTimeOut timerId).pool = manager.pool ∧
      (manager.onTimeOut timerId).finished = manager.finished := by
  unfold onTimeOut
  split
  · exact ⟨rfl, rfl⟩
  · split_ifs <;> exact ⟨rfl, rfl⟩

theorem addWork_sound (hsound : manager.Sound) (hplace : manager.place = .adding task)
    (hstep : manager.addWork task = some next) : next.Sound := by
  have hfresh : task ∉ manager.pool.works := fun hmem ↦
    nomatch hsound.carriage.alone (show manager.carriage.carries .timeOut task from hplace)
      (show manager.carriage.carries .queue task from hmem)
  refine ⟨hsound.carriage.step (addWork_carriage hsound hplace hstep), ?_, ?_⟩
  all_goals
    obtain ⟨pool, hpool, rfl⟩ := Option.map_eq_some_iff.mp hstep
    rw [ThreadPool.take, ThreadPool.addWork] at hpool
    split_ifs at hpool
    all_goals obtain rfl := Option.some.inj hpool
  · exact hsound.nodup
  · exact List.nodup_append.mpr ⟨hsound.nodup, List.nodup_singleton task, fun other hother found
      hfound ↦ fun hsame ↦ hfresh (List.mem_singleton.mp hfound ▸ hsame ▸ hother)⟩
  · exact hsound.finished
  · exact hsound.finished

theorem finishTask_sound (hsound : manager.Sound) {worker : ℕ}
    (hstep : manager.finishTask worker = some next) : next.Sound := by
  refine ⟨hsound.carriage.step (finishTask_carriage hsound hstep), ?_, fun index hfinished ↦ ?_⟩
  all_goals obtain ⟨task, hruns, rfl⟩ := finishTask_cases hstep
  · exact hsound.nodup
  · by_cases hsame : index = worker
    · exact ⟨task, hsame ▸ hruns.2⟩
    · refine hsound.finished index ?_
      change Function.update manager.finished worker true index = true at hfinished
      rwa [Function.update_of_ne hsame] at hfinished

theorem work_sound (hsound : manager.Sound) {worker : ℕ} {throws : Bool}
    (hstep : manager.poolStep (.work worker throws) = some next) : next.Sound := by
  refine ⟨hsound.carriage.step (work_carriage hsound hstep), ?_, fun index hfinished ↦ ?_⟩
  all_goals
    rw [poolStep] at hstep
    split_ifs at hstep
    obtain ⟨pool, hwork, rfl⟩ := Option.map_eq_some_iff.mp hstep
  · rcases ThreadPool.work_cases hwork with ⟨request, rest, -, hworks, hnext, -⟩ |
      ⟨-, -, hsame, -⟩ | ⟨-, hsame, -⟩
    · have hnodup := hsound.nodup
      rw [hworks, List.nodup_cons] at hnodup
      exact hnext ▸ hnodup.2
    · exact hsame ▸ hsound.nodup
    · exact hsame ▸ hsound.nodup
  · change Function.update manager.finished worker false index = true at hfinished
    by_cases hsame : index = worker
    · rw [hsame, Function.update_self] at hfinished
      cases hfinished
    · rw [Function.update_of_ne hsame] at hfinished
      obtain ⟨task, hdoing⟩ := hsound.finished index hfinished
      exact ⟨task, (congrArg Worker.phase (ThreadPool.work_threads_of_ne hwork hsame)).trans hdoing⟩

/-- The end of `Destroy` drops the queue. -/
theorem endDestroy_carriage (hsound : manager.Sound) {pool : ThreadPool}
    (hend : manager.pool.endDestroy = some pool) :
    Carriage.Step (manager.pool.works ≠ []) manager.carriage
      { manager with pool := pool }.carriage := by
  rw [ThreadPool.endDestroy] at hend
  split_ifs at hend
  obtain rfl := Option.some.inj hend
  by_cases hworks : manager.pool.works = []
  · refine .keep (not_not.mpr hworks) (fun _ ↦ Iff.rfl) fun carrier task ↦ ?_
    cases carrier with
    | timeOut | worker => exact Iff.rfl
    | queue =>
      change task ∈ [] ↔ task ∈ manager.pool.works
      rw [hworks]
  · have hqueued : ∀ task ∈ manager.pool.works, manager.carriage.carries .queue task :=
      fun _ hmem ↦ hmem
    refine .lose .queue (· ∈ manager.pool.works) hworks
      (List.exists_mem_of_ne_nil manager.pool.works hworks) hqueued (fun _ ↦ Iff.rfl)
      fun carrier task ↦ ?_
    have hother : carrier ≠ .queue → (manager.carriage.carries carrier task ↔
        task ∉ manager.pool.works ∧ manager.carriage.carries carrier task) := fun hne ↦
      ⟨fun hhas ↦ ⟨fun hmem ↦ hne (hsound.carriage.alone hhas (hqueued task hmem)), hhas⟩,
        And.right⟩
    cases carrier with
    | timeOut => exact hother nofun
    | queue => exact iff_of_false List.not_mem_nil fun hboth ↦ hboth.1 hboth.2
    | worker index => exact hother nofun

theorem endDestroy_sound (hsound : manager.Sound) {pool : ThreadPool}
    (hend : manager.pool.endDestroy = some pool) : { manager with pool := pool }.Sound := by
  refine ⟨hsound.carriage.step (endDestroy_carriage hsound hend), ?_, ?_⟩
  all_goals
    rw [ThreadPool.endDestroy] at hend
    split_ifs at hend
    obtain rfl := Option.some.inj hend
  · exact List.nodup_nil
  · exact hsound.finished

/-- What a step does with the tasks, and that it keeps the invariant. -/
theorem step_sound (hsound : manager.Sound) {event : TimerTaskEvent}
    (hstep : manager.step event = some next) :
    Carriage.Step (manager.Loses event) manager.carriage next.carriage ∧ next.Sound := by
  cases event with
  | registerTimer | unRegisterTimer =>
    rw [step] at hstep
    split_ifs at hstep
    obtain rfl := Option.some.inj hstep
    have hkeep : Carriage.Step False manager.carriage manager.carriage :=
      .keep id (fun _ ↦ Iff.rfl) fun _ _ ↦ Iff.rfl
    exact ⟨hkeep, hsound.of_step hkeep rfl rfl⟩
  | onTimeOut timerId =>
    rw [step] at hstep
    split_ifs at hstep with hplace
    obtain rfl := Option.some.inj hstep
    have hcarriage := onTimeOut_carriage hplace timerId
    obtain ⟨hpool, hfinished⟩ := @onTimeOut_keeps manager timerId
    exact ⟨hcarriage, hsound.of_step hcarriage hpool hfinished⟩
  | addWork =>
    cases hplace : manager.place with
    | adding task =>
      simp only [step, hplace] at hstep
      exact ⟨addWork_carriage hsound hplace hstep, addWork_sound hsound hplace hstep⟩
    | free | inPool | leaving => simp [step, hplace] at hstep
  | leave =>
    rw [step] at hstep
    split_ifs at hstep with hplace
    obtain rfl := Option.some.inj hstep
    have hcarriage : Carriage.Step False manager.carriage
        { manager with place := .free }.carriage := by
      refine .keep id (fun _ ↦ Iff.rfl) fun carrier task ↦ ?_
      cases carrier with
      | timeOut => exact iff_of_false nofun fun hadding ↦ nomatch hplace.symm.trans hadding
      | queue | worker => exact Iff.rfl
    exact ⟨hcarriage, hsound.of_step hcarriage rfl rfl⟩
  | finishTask worker => exact ⟨finishTask_carriage hsound hstep, finishTask_sound hsound hstep⟩
  | endDestroy =>
    obtain ⟨pool, hend, rfl⟩ := Option.map_eq_some_iff.mp hstep
    exact ⟨endDestroy_carriage hsound hend, endDestroy_sound hsound hend⟩
  | pool event =>
    cases event with
    | addWork => cases hstep
    | work => exact ⟨work_carriage hsound hstep, work_sound hsound hstep⟩
    | removeIdleThreads | destroy | proceed =>
      obtain ⟨pool, htake, rfl⟩ := Option.map_eq_some_iff.mp hstep
      exact putPool_sound hsound (ThreadPool.take_works htake nofun nofun)
        (ThreadPool.take_phase htake nofun)

/-- The manager after `Init`. -/
theorem init_sound (maxThreadCount : ℤ) (time : ℕ) :
    (init maxThreadCount time).Sound ∧ (init maxThreadCount time).carriage.Complete := by
  refine ⟨⟨⟨fun {carrier task} hhas ↦ ?_, fun {task first second} hfirst _ ↦ ?_⟩, List.nodup_nil,
    nofun⟩, fun task hmark ↦ nomatch hmark⟩
  · cases carrier with
    | timeOut | queue => cases hhas
    | worker index => exact nomatch hhas.2
  · cases first with
    | timeOut | queue => cases hfirst
    | worker index => exact nomatch hfirst.2

end TimerTaskManager

open TimerTaskManager

/-- In every run: no two workers run one task, and a task that a worker runs is not in the queue and
is passed over by all of its timers. Every task that is marked is with `OnTimeOut`, in the queue or
with a worker, just when no step before lost one; and a task that was lost is never run again. -/
theorem scheduled_tasks {maxThreadCount : ℤ} {time : ℕ} {events : List TimerTaskEvent}
    {last : TimerTaskManager}
    (hrun : timerTaskSystem.run (init maxThreadCount time) events = some last) :
    (∀ task first second, last.Runs first task → last.Runs second task → first = second) ∧
      (∀ task worker, last.Runs worker task → task ∉ last.pool.works ∧
        ∀ timerId, last.timerTasks.find? timerId = some task → last.onTimeOut timerId = last) ∧
      (last.carriage.Complete ↔ timerTaskSystem.Along (fun state event ↦ ¬ state.Loses event)
        (init maxThreadCount time) events) ∧
      ∀ task, last.carriage.Lost task → ∀ later after, timerTaskSystem.run last later = some after →
        ∀ worker, ¬ after.Runs worker task := by
  obtain ⟨hinitial, hcomplete⟩ := init_sound maxThreadCount time
  have hkeeps : ∀ state event next, timerTaskSystem.step state event = some next → state.Sound →
      next.Sound := fun _ _ _ hstep hsound ↦ (step_sound hsound hstep).2
  have hsound : last.Sound := EventSystem.run_invariant hkeeps hrun hinitial
  have hruns : ∀ {worker task : ℕ}, last.Runs worker task →
      last.carriage.carries (.worker worker) task := fun hruns ↦ ⟨hruns.1, Or.inr hruns.2⟩
  refine ⟨fun task first second hfirst hsecond ↦ ?_, fun task worker hrunning ↦ ⟨fun hmem ↦ ?_, ?_⟩,
    ?_, fun task hlost later after hlater worker hrunning ↦ ?_⟩
  · exact TaskCarrier.worker.inj (hsound.carriage.alone (hruns hfirst) (hruns hsecond))
  · exact nomatch hsound.carriage.alone (hruns hrunning)
      (show last.carriage.carries .queue task from hmem)
  · intro timerId hfind
    have hmark : last.processing task = true := hsound.carriage.marked (hruns hrunning)
    rw [onTimeOut, hfind]
    exact if_pos hmark
  · refine (@EventSystem.run_iff_along _ _ _ (fun state event ↦ ¬ state.Loses event) Sound
      (fun state ↦ state.carriage.Complete) hkeeps (fun state event next hstate hstep ↦ ?_) _ _ _
      hrun hinitial).trans (and_iff_right hcomplete)
    exact (step_sound hstate hstep).1.complete_iff hstate.carriage
  · have hstays : after.Sound ∧ after.carriage.Lost task :=
      @EventSystem.run_invariant _ _ _ (fun state ↦ state.Sound ∧ state.carriage.Lost task)
        (fun _ _ _ hstep hboth ↦ ⟨hkeeps _ _ _ hstep hboth.1,
          hboth.2.step (step_sound hboth.1 hstep).1⟩) _ _ _ hlater ⟨hsound, hlost⟩
    exact hstays.2.2 (.worker worker) ⟨hrunning.1, Or.inr hrunning.2⟩

/-- One worker of the pool starts; a task with two timers is handed to it, passed over while it has
the task, and `DoTask` throws. -/
def taskThrows : List TimerTaskEvent :=
  .pool (.proceed (some 0)) :: List.replicate 3 (.pool (.work 0 false)) ++
    List.replicate 4 (.pool (.proceed none)) ++
    [.registerTimer 1 7, .registerTimer 2 7, .onTimeOut 1, .addWork] ++
    List.replicate 3 (.pool (.proceed none)) ++ [.leave, .onTimeOut 2] ++
    List.replicate 4 (.pool (.work 0 false)) ++ [.pool (.work 0 true), .onTimeOut 1]

/-- No worker can be started; a task is queued, and the manager is closed. -/
def taskDropped : List TimerTaskEvent :=
  List.replicate 4 (.pool (.proceed none)) ++ [.registerTimer 1 7, .onTimeOut 1, .addWork] ++
    List.replicate 8 (.pool (.proceed none)) ++ [.leave, .pool .destroy, .pool (.proceed none),
    .endDestroy, .onTimeOut 1]

/-- In both runs the task is lost: its timers pass it over for good. -/
theorem scheduled_tasks_lost :
    (∃ last, timerTaskSystem.run (init 5 0) taskThrows = some last ∧ last.carriage.Lost 7 ∧
      ∀ later after, timerTaskSystem.run last later = some after →
        ∀ worker, ¬ after.Runs worker 7) ∧
      ∃ last, timerTaskSystem.run (init 5 0) taskDropped = some last ∧ last.carriage.Lost 7 ∧
        ∀ later after, timerTaskSystem.run last later = some after →
          ∀ worker, ¬ after.Runs worker 7 := by
  have hthrows : ∃ last,
      timerTaskSystem.run (init 5 0) taskThrows = some last ∧ last.carriage.Lost 7 := by
    refine ⟨_, rfl, rfl, fun carrier hhas ↦ ?_⟩
    cases carrier with
    | timeOut | queue => exact nomatch hhas
    | worker index =>
      cases index with
      | zero => exact hhas.2.elim nofun nofun
      | succ other => exact hhas.2.elim nofun nofun
  have hdropped : ∃ last,
      timerTaskSystem.run (init 5 0) taskDropped = some last ∧ last.carriage.Lost 7 := by
    refine ⟨_, rfl, rfl, fun carrier hhas ↦ ?_⟩
    cases carrier with
    | timeOut | queue => exact nomatch hhas
    | worker index => exact hhas.2.elim nofun nofun
  obtain ⟨thrown, hrun, hlost⟩ := hthrows
  obtain ⟨dropped, hrun', hlost'⟩ := hdropped
  exact ⟨⟨thrown, hrun, hlost, (scheduled_tasks hrun).2.2.2 7 hlost⟩,
    dropped, hrun', hlost', (scheduled_tasks hrun').2.2.2 7 hlost'⟩

end RocketMQClient.Kpr
