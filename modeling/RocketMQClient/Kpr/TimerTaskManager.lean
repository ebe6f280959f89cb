import RocketMQClient.Kpr.ThreadPool
import RocketMQClient.Library.Carriage
import RocketMQClient.Library.OrderedMap

/-!
# Scheduled tasks

`TimerTaskManager` runs tasks in a thread pool of its own. When a timer is out, `OnTimeOut` looks up
its task under the mutex of the manager. A task that is processing is passed over; another one is
marked and handed to `AddWork`. The worker takes the mark off behind `DoTask`, without the mutex.

`timerTaskSystem` interleaves the callers of the manager with the pool, in which only `OnTimeOut`
adds work. `Close` destroys the pool, and the end of `Destroy` drops what is still queued.
`carriage` is who has which task, and `Loses` the steps that lose one. The last section says what
the steps of the pool do with work (`ThreadPool.work_cases`, `ThreadPool.take_works`).

The pool is embedded as it is, with one restriction: work comes from `OnTimeOut` alone, one piece
for each task that it has marked. So what the pool says about pieces of work carries over to tasks,
and the manager adds who holds the mark.
-/

set_option autoImplicit false
set_option relaxedAutoImplicit false

namespace RocketMQClient.Kpr

open Library

/-! ### The manager -/

/-- Where the thread in `OnTimeOut` is, which has the mutex. -/
inductive TimeOutPlace where
  /-- Nobody has the mutex. -/
  | free
  /-- Before `AddWork`. -/
  | adding (task : ℕ)
  | inPool
  /-- Behind `AddWork`. -/
  | leaving
  deriving DecidableEq

/-- A `TimerTaskManager` with `m_isProcessing` of the tasks. A worker is `finished` when it has
taken the mark off and is still in `Do`. -/
structure TimerTaskManager where
  timerTasks : OrderedMap ℕ ℕ
  processing : ℕ → Bool
  place : TimeOutPlace
  finished : ℕ → Bool
  pool : ThreadPool

/-- The steps: the callers of the manager, a worker that takes the mark off, the pool, and the end
of `Destroy`. -/
inductive TimerTaskEvent where
  | registerTimer (timerId task : ℕ)
  | unRegisterTimer (timerId : ℕ)
  | onTimeOut (timerId : ℕ)
  | addWork
  | leave
  | finishTask (worker : ℕ)
  | pool (event : PoolEvent)
  | endDestroy
  deriving DecidableEq

namespace TimerTaskManager

/-- `Init`. -/
def init (maxThreadCount : ℤ) (time : ℕ) : TimerTaskManager where
  timerTasks := OrderedMap.empty
  processing := fun _ ↦ false
  place := .free
  finished := fun _ ↦ false
  pool := ThreadPool.create 3 3 maxThreadCount 10 300000 time

/-- `RegisterTimer`, with the id that the timer thread has given. -/
def registerTimer (manager : TimerTaskManager) (timerId task : ℕ) : TimerTaskManager :=
  { manager with timerTasks := manager.timerTasks.assign timerId task }

def unRegisterTimer (manager : TimerTaskManager) (timerId : ℕ) : TimerTaskManager :=
  { manager with timerTasks := manager.timerTasks.erase timerId }

/-- `OnTimeOut` up to `AddWork`. -/
def onTimeOut (manager : TimerTaskManager) (timerId : ℕ) : TimerTaskManager :=
  match manager.timerTasks.find? timerId with
  | none => manager
  | some task =>
    if manager.processing task then manager
    else
      { manager with
        processing := Function.update manager.processing task true
        place := .adding task }

/-- `OnTimeOut` enters the pool. -/
def addWork (manager : TimerTaskManager) (task : ℕ) : Option TimerTaskManager :=
  (manager.pool.take (.addWork task)).map fun pool ↦
    { manager with pool := pool, place := if pool.holder = .free then .leaving else .inPool }

/-- `Do` behind `DoTask`. -/
def finishTask (manager : TimerTaskManager) (worker : ℕ) : Option TimerTaskManager :=
  match (manager.pool.threads worker).phase with
  | .doing task =>
    if manager.finished worker then none
    else
      some { manager with
        processing := Function.update manager.processing task false
        finished := Function.update manager.finished worker true }
  | _ => none

/-- `Do` returns when the mark has been taken off, and throws only before. -/
def mayStep (manager : TimerTaskManager) (worker : ℕ) (throws : Bool) : Bool :=
  match (manager.pool.threads worker).phase with
  | .doing _ => manager.finished worker == !throws
  | _ => true

/-- The thread in `OnTimeOut` is behind `AddWork` when it leaves the monitor of the pool. -/
def putPool (manager : TimerTaskManager) (pool : ThreadPool) : TimerTaskManager :=
  { manager with
    pool := pool
    place := if manager.place = .inPool ∧ pool.holder = .free then .leaving else manager.place }

/-- A step of the pool that is not `AddWork`. -/
def poolStep (manager : TimerTaskManager) (event : PoolEvent) : Option TimerTaskManager :=
  match event with
  | .addWork _ => none
  | .work worker throws =>
    if manager.mayStep worker throws then
      (manager.pool.work worker throws).map fun pool ↦
        { manager with pool := pool, finished := Function.update manager.finished worker false }
    else none
  | .removeIdleThreads _ | .destroy | .proceed _ =>
    (manager.pool.take event).map manager.putPool

/-- One step. -/
def step (manager : TimerTaskManager) : TimerTaskEvent → Option TimerTaskManager
  | .registerTimer timerId task =>
    if manager.place = .free then some (manager.registerTimer timerId task) else none
  | .unRegisterTimer timerId =>
    if manager.place = .free then some (manager.unRegisterTimer timerId) else none
  | .onTimeOut timerId => if manager.place = .free then some (manager.onTimeOut timerId) else none
  | .addWork =>
    match manager.place with
    | .adding task => manager.addWork task
    | .free | .inPool | .leaving => none
  | .leave => if manager.place = .leaving then some { manager with place := .free } else none
  | .finishTask worker => manager.finishTask worker
  | .pool event => manager.poolStep event
  | .endDestroy => manager.pool.endDestroy.map fun pool ↦ { manager with pool := pool }

end TimerTaskManager

/-- A manager, its callers and its pool. -/
def timerTaskSystem : EventSystem TimerTaskManager TimerTaskEvent where
  step := TimerTaskManager.step

/-! ### Who has a task -/

/-- Who may have a task. -/
inductive TaskCarrier where
  | timeOut
  | queue
  | worker (index : ℕ)
  deriving DecidableEq

/-- The worker has the task. -/
def WorkerPhase.Has (phase : WorkerPhase) (task : ℕ) : Prop :=
  phase = .got task ∨ phase = .doing task

namespace TimerTaskManager

/-- The worker is in `DoTask`. -/
def Runs (manager : TimerTaskManager) (worker task : ℕ) : Prop :=
  manager.finished worker = false ∧ (manager.pool.threads worker).phase = .doing task

/-- The marks, and who has which task. -/
def carriage (manager : TimerTaskManager) : Carriage TaskCarrier ℕ where
  marked task := manager.processing task = true
  carries carrier task :=
    match carrier with
    | .timeOut => manager.place = .adding task
    | .queue => task ∈ manager.pool.works
    | .worker index =>
      manager.finished index = false ∧ (manager.pool.threads index).phase.Has task

/-- A step that loses a task: `DoTask` throws, the pool is destroyed when `AddWork` comes, or work
is still queued at the end of `Destroy`. -/
def Loses (manager : TimerTaskManager) : TimerTaskEvent → Prop
  | .addWork => manager.pool.destroy = true
  | .endDestroy => manager.pool.works ≠ []
  | .pool (.work worker throws) => throws = true ∧ ∃ task, manager.Runs worker task
  | .registerTimer _ _ | .unRegisterTimer _ | .onTimeOut _ | .leave | .finishTask _
  | .pool (.addWork _) | .pool (.removeIdleThreads _) | .pool .destroy | .pool (.proceed _) => False

/-- The invariant. -/
structure Sound (manager : TimerTaskManager) : Prop where
  carriage : manager.carriage.Sound
  nodup : manager.pool.works.Nodup
  finished : ∀ worker, manager.finished worker = true →
    ∃ task, (manager.pool.threads worker).phase = .doing task

end TimerTaskManager

theorem WorkerPhase.has_doing {request task : ℕ} :
    WorkerPhase.Has (.doing request) task ↔ task = request := by
  simp [WorkerPhase.Has, @eq_comm ℕ request]

/-! ### The pool -/

namespace ThreadPool

variable {pool next : ThreadPool} {index : ℕ} {worker : Worker}

theorem threads_setThread_self : (pool.setThread index worker).threads index = worker :=
  @Function.update_self ℕ (fun _ ↦ Worker) _ index worker pool.threads

theorem threads_setThread_of_ne {other : ℕ} (hne : other ≠ index) :
    (pool.setThread index worker).threads other = pool.threads other :=
  @Function.update_of_ne ℕ (fun _ ↦ Worker) _ other index hne worker pool.threads

/-- A worker changes and stays where it is. -/
theorem phase_setThread (hphase : worker.phase = (pool.threads index).phase) (other : ℕ) :
    ((pool.setThread index worker).threads other).phase = (pool.threads other).phase := by
  by_cases hsame : other = index
  · rw [hsame, threads_setThread_self, hphase]
  · rw [threads_setThread_of_ne hsame]

/-- The thread inside the monitor moves no worker but the one that it starts. -/
theorem proceed_phase {allocated : Option ℕ} (hstep : pool.proceed allocated = some next)
    (other : ℕ) :
    (next.threads other).phase = (pool.threads other).phase ∨
      (pool.threads other).phase = .unborn ∧ (next.threads other).phase = .outer := by
  have hkeep : ∀ {found : ℕ} {changed : Worker}, changed.phase = (pool.threads found).phase →
      ((pool.setThread found changed).threads other).phase = (pool.threads other).phase :=
    fun hphase ↦ phase_setThread hphase other
  unfold proceed at hstep
  cases hholder : pool.holder with
  | free => simp [hholder] at hstep
  | searching rest again =>
    cases rest <;> simp only [hholder, Option.some.injEq] at hstep <;> subst hstep <;>
      exact Or.inl rfl
  | waking | notifying | stopping =>
    simp only [hholder, Option.some.injEq] at hstep
    subst hstep
    exact Or.inl (hkeep rfl)
  | starting count adding =>
    cases count with
    | zero =>
      simp only [hholder, Option.some.injEq] at hstep
      subst hstep
      exact Or.inl rfl
    | succ count =>
      cases allocated with
      | none =>
        simp only [hholder, Option.some.injEq] at hstep
        subst hstep
        exact Or.inl rfl
      | some found =>
        simp only [hholder] at hstep
        split_ifs at hstep with hunborn
        obtain rfl := Option.some.inj hstep
        by_cases hsame : other = found
        · subst hsame
          exact Or.inr ⟨hunborn, congrArg Worker.phase threads_setThread_self⟩
        · exact Or.inl (congrArg Worker.phase (threads_setThread_of_ne hsame))
  | awaiting index count adding =>
    simp only [hholder] at hstep
    split_ifs at hstep <;> exact Option.some.inj hstep ▸ Or.inl rfl
  | reaping rest size interval =>
    cases rest with
    | nil =>
      simp only [hholder, Option.some.injEq] at hstep
      subst hstep
      exact Or.inl rfl
    | cons index rest =>
      simp only [hholder] at hstep
      split_ifs at hstep
      all_goals obtain rfl := Option.some.inj hstep
      · exact Or.inl (hkeep rfl)
      · exact Or.inl (hkeep rfl)
      · exact Or.inl rfl
  | destroying rest =>
    cases rest with
    | nil =>
      simp only [hholder, Option.some.injEq] at hstep
      subst hstep
      exact Or.inl rfl
    | cons index rest =>
      simp only [hholder, Option.some.injEq] at hstep
      subst hstep
      exact Or.inl (hkeep rfl)

theorem take_phase {event : PoolEvent} (hstep : pool.take event = some next)
    (hwork : ∀ index throws, event ≠ .work index throws) (other : ℕ) :
    (next.threads other).phase = (pool.threads other).phase ∨
      (pool.threads other).phase = .unborn ∧ (next.threads other).phase = .outer := by
  cases event with
  | addWork work =>
    rw [take, addWork] at hstep
    split_ifs at hstep <;> exact Or.inl (Option.some.inj hstep ▸ rfl)
  | removeIdleThreads time =>
    rw [take, removeIdleThreads] at hstep
    split_ifs at hstep <;> exact Or.inl (Option.some.inj hstep ▸ rfl)
  | destroy =>
    rw [take, beginDestroy] at hstep
    split_ifs at hstep <;> exact Or.inl (Option.some.inj hstep ▸ rfl)
  | proceed allocated => exact proceed_phase hstep other
  | work index throws => exact absurd rfl (hwork index throws)

theorem take_works {event : PoolEvent} (hstep : pool.take event = some next)
    (hadd : ∀ work, event ≠ .addWork work) (hwork : ∀ index throws, event ≠ .work index throws) :
    next.works = pool.works := by
  cases event with
  | addWork work => exact absurd rfl (hadd work)
  | removeIdleThreads time =>
    rw [take, removeIdleThreads] at hstep
    split_ifs at hstep <;> exact Option.some.inj hstep ▸ rfl
  | destroy =>
    rw [take, beginDestroy] at hstep
    split_ifs at hstep <;> exact Option.some.inj hstep ▸ rfl
  | proceed allocated => exact (proceed_works hstep).1
  | work index throws => exact absurd rfl (hwork index throws)

theorem threads_getWork_of_ne {other : ℕ} (hne : other ≠ index) :
    (pool.getWork index).threads other = pool.threads other := by
  unfold getWork
  split <;> exact threads_setThread_of_ne hne

theorem work_threads_of_ne {throws : Bool} (hstep : pool.work index throws = some next) {other : ℕ}
    (hne : other ≠ index) : next.threads other = pool.threads other := by
  unfold work at hstep
  split at hstep
  · split_ifs at hstep
    exact Option.some.inj hstep ▸ threads_getWork_of_ne hne
  · split_ifs at hstep
    all_goals exact Option.some.inj hstep ▸ threads_setThread_of_ne hne
  · split_ifs at hstep
    exact Option.some.inj hstep ▸ threads_setThread_of_ne hne
  · obtain ⟨found, -, rfl⟩ := Option.map_eq_some_iff.mp hstep
    exact threads_setThread_of_ne hne

/-- What a step of a worker does with work: it takes the first from the queue, ends what it does, or
has what it had. -/
theorem work_cases {throws : Bool} (hstep : pool.work index throws = some next) :
    (∃ request rest, (pool.threads index).phase = .getting ∧ pool.works = request :: rest ∧
        next.works = rest ∧ (next.threads index).phase = .got request) ∨
      (∃ request, (pool.threads index).phase = .doing request ∧ next.works = pool.works ∧
        (next.threads index).phase = if throws then .exited else .inner) ∨
      (∀ request, (pool.threads index).phase ≠ .doing request) ∧ next.works = pool.works ∧
        ∀ task, (next.threads index).phase.Has task ↔ (pool.threads index).phase.Has task := by
  unfold work at hstep
  cases hphase : (pool.threads index).phase with
  | getting =>
    simp only [hphase] at hstep
    split_ifs at hstep
    obtain rfl := Option.some.inj hstep
    unfold getWork
    split
    next request rest _ hworks =>
      refine Or.inl ⟨request, rest, rfl, hworks, rfl, ?_⟩
      change ((pool.setPhase index (.got request)).threads index).phase = _
      rw [setPhase, threads_setThread_self]
    next =>
      refine Or.inr (Or.inr ⟨nofun, rfl, fun task ↦ ?_⟩)
      rw [setPhase, threads_setThread_self]
      simp [WorkerPhase.Has]
  | asking =>
    simp only [hphase] at hstep
    split_ifs at hstep
    all_goals
      obtain rfl := Option.some.inj hstep
      refine Or.inr (Or.inr ⟨nofun, rfl, fun task ↦ ?_⟩)
      rw [setPhase, threads_setThread_self]
      simp [WorkerPhase.Has]
  | removing =>
    simp only [hphase] at hstep
    split_ifs at hstep
    obtain rfl := Option.some.inj hstep
    refine Or.inr (Or.inr ⟨nofun, rfl, fun task ↦ ?_⟩)
    change ((pool.setPhase index .exited).threads index).phase.Has task ↔ _
    rw [setPhase, threads_setThread_self]
    simp [WorkerPhase.Has]
  | doing request =>
    simp only [hphase, Worker.run, Option.map_some] at hstep
    obtain rfl := Option.some.inj hstep
    refine Or.inr (Or.inl ⟨request, rfl, rfl, ?_⟩)
    rw [threads_setThread_self]
  | got | settingIdle =>
    simp only [hphase, Worker.run, Option.map_some] at hstep
    obtain rfl := Option.some.inj hstep
    refine Or.inr (Or.inr ⟨nofun, rfl, fun task ↦ ?_⟩)
    rw [threads_setThread_self]
    simp [WorkerPhase.Has]
  | unborn | exited => simp [hphase, Worker.run] at hstep
  | outer | inner | leaving =>
    simp only [hphase, Worker.run, Option.map_some] at hstep
    obtain rfl := Option.some.inj hstep
    refine Or.inr (Or.inr ⟨nofun, rfl, fun task ↦ ?_⟩)
    rw [threads_setThread_self]
    split_ifs <;> simp [WorkerPhase.Has]
  | entering | waiting =>
    simp only [hphase, Worker.run] at hstep
    split_ifs at hstep
    all_goals
      obtain rfl := Option.some.inj hstep
      refine Or.inr (Or.inr ⟨nofun, rfl, fun task ↦ ?_⟩)
      simp [threads_setThread_self, WorkerPhase.Has]

end ThreadPool

end RocketMQClient.Kpr
