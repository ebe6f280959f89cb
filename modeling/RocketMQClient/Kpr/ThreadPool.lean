import Mathlib.Logic.Function.Basic
import RocketMQClient.Library.EventSystem
import RocketMQClient.Library.MachineInt

/-!
# The thread pool

`AddWork` queues a piece of work and wakes an idle worker, or starts new workers when there is none
and the pool may grow; a worker takes work with `GetWork` until there is none and then waits.
`RemoveIdleThreads` and `Destroy` tell workers to stop. The queue and the list of workers are under
the monitor of the pool, the flags of a worker under its own.

`threadPoolSystem` interleaves the workers with the thread that is inside the monitor of the pool:
every section of a worker's monitor and every look at an unlocked flag is a step. The number of
workers and of callers is not bounded. `endDestroy`, the end of `Destroy`, is no step of this
system: it comes when the workers have ended, and drops what is still queued. -/

set_option autoImplicit false
set_option relaxedAutoImplicit false

namespace RocketMQClient.Kpr

open Library

/-! ### Workers -/

/-- Where a worker is in `Run`. -/
inductive WorkerPhase where
  /-- The object does not exist yet. -/
  | unborn
  /-- At the head of the outer loop. -/
  | outer
  /-- Before `SetIdle(true)`. -/
  | settingIdle
  /-- Before the section that waits for `m_canWork`. -/
  | entering
  /-- In `Wait`. -/
  | waiting
  /-- At the head of the inner loop. -/
  | inner
  /-- Before `GetWork`. -/
  | getting
  /-- Has work, before `SetIdle(false)`. -/
  | got (request : ℕ)
  | doing (request : ℕ)
  /-- Behind the inner loop, before the look at `m_stop`. -/
  | leaving
  /-- Before `IsDestroy`. -/
  | asking
  /-- Before `RemoveThread`. -/
  | removing
  | exited
  deriving DecidableEq

/-- A `ThreadPoolWorker` and where its thread is. -/
structure Worker where
  canWork : Bool
  isWaiting : Bool
  stop : Bool
  idle : Bool
  idleTime : ℤ
  phase : WorkerPhase
  deriving DecidableEq

namespace Worker

/-- An address at which there is no worker yet. -/
def unborn : Worker := ⟨false, false, false, false, 0, .unborn⟩

/-- A worker whose thread has been started. -/
def started : Worker := ⟨false, false, false, true, 0, .outer⟩

/-- `SetIdle`. -/
def setIdle (worker : Worker) (idle : Bool) : Worker :=
  { worker with idle := idle, idleTime := 0 }

/-- The assignment of `IdleTime`, which returns `m_idleTime`. -/
def addIdleTime (worker : Worker) (idleTime : ℤ) : Worker :=
  { worker with idleTime := if worker.idle then worker.idleTime + idleTime else 0 }

/-- The second section of `WakeUp`. -/
def letWork (worker : Worker) : Worker := { worker with canWork := true }

/-- `Stop`. -/
def halt (worker : Worker) : Worker := { worker with canWork := true, stop := true }

/-- The steps of `Run` outside the monitor of the pool. `Wait` and `Do` may throw; `Run` catches
what `Wait` throws. -/
def run (worker : Worker) (throws : Bool) : Option Worker :=
  match worker.phase with
  | .outer => some { worker with phase := if worker.stop then .removing else .settingIdle }
  | .settingIdle => some { worker.setIdle true with phase := .entering }
  | .entering =>
    if worker.canWork then some { worker with canWork := false, phase := .inner }
    else some { worker with isWaiting := true, phase := .waiting }
  | .waiting =>
    if worker.canWork then
      some { worker with isWaiting := throws, canWork := false, phase := .inner }
    else some { worker with isWaiting := true }
  | .inner => some { worker with phase := if worker.stop then .leaving else .getting }
  | .got request => some { worker.setIdle false with phase := .doing request }
  | .doing _ => some { worker with phase := if throws then .exited else .inner }
  | .leaving => some { worker with phase := if worker.stop then .removing else .asking }
  | .unborn | .getting | .asking | .removing | .exited => none

end Worker

/-! ### The pool -/

/-- What the thread inside the monitor of the pool is doing. -/
inductive PoolSection where
  /-- No thread is inside. -/
  | free
  /-- The loop of `WakeOneThread` in `AddWork`, with the workers that are left; `again` in the call
  that follows `AddThreads`. -/
  | searching (rest : List ℕ) (again : Bool)
  /-- `WakeUp`, before `SetIdle(false)`. -/
  | waking (index : ℕ)
  /-- `WakeUp`, before the section that sets `m_canWork`. -/
  | notifying (index : ℕ)
  /-- The loop of `AddThreads`, called by `AddWork` or else by the constructor. -/
  | starting (count : ℕ) (adding : Bool)
  /-- `AddThreads`, until the new worker is seen to wait. -/
  | awaiting (index count : ℕ) (adding : Bool)
  /-- The loop of `RemoveIdleThreads`. -/
  | reaping (rest : List ℕ) (size interval : ℤ)
  /-- `RemoveIdleThreads`, before `Stop`. -/
  | stopping (index : ℕ) (rest : List ℕ) (size interval : ℤ)
  /-- The loop of `Destroy`. -/
  | destroying (rest : List ℕ)
  deriving DecidableEq

/-- `Destroy` is inside. -/
def PoolSection.Destroys : PoolSection → Prop
  | destroying _ => True
  | free | searching _ _ | waking _ | notifying _ | starting _ _ | awaiting _ _ _ | reaping _ _ _
  | stopping _ _ _ _ => False

instance : DecidablePred PoolSection.Destroys
  | .destroying _ => isTrue trivial
  | .free | .searching _ _ | .waking _ | .notifying _ | .starting _ _ | .awaiting _ _ _
  | .reaping _ _ _ | .stopping _ _ _ _ => isFalse id

/-- The pool with its workers by address. `joining` lists the workers that `Destroy` has told to
stop, `added` the work that `AddWork` has queued and `handedOut` what `GetWork` has returned. -/
structure ThreadPool where
  destroy : Bool
  minCount : ℤ
  maxCount : ℤ
  maxIdleTime : ℤ
  count : ℤ
  step : ℤ
  lastRemoveIdleThreadsTime : ℕ
  works : List ℕ
  workers : List ℕ
  threads : ℕ → Worker
  holder : PoolSection
  joining : List ℕ
  added : List ℕ
  handedOut : List ℕ

/-- The steps: calls of the public functions, the thread inside the monitor of the pool going on
with the address of the next new worker or none if its start throws, and the workers. -/
inductive PoolEvent where
  | addWork (work : ℕ)
  | removeIdleThreads (time : ℕ)
  | destroy
  | proceed (allocated : Option ℕ)
  | work (index : ℕ) (throws : Bool)
  deriving DecidableEq

namespace ThreadPool

/-- The constructor, before `AddThreads`. -/
def create (count minCount maxCount step maxIdleTime : ℤ) (time : ℕ) : ThreadPool :=
  let minCount := if minCount ≤ 0 then 5 else minCount
  let maxCount := if maxCount < 0 then 300 else maxCount
  let minCount := if maxCount ≠ 0 ∧ maxCount < minCount then 5 else minCount
  let count := if (maxCount ≠ 0 ∧ count > maxCount) ∨ count < minCount then minCount else count
  { destroy := false
    minCount := minCount
    maxCount := maxCount
    maxIdleTime := if maxIdleTime < 0 then 300000 else maxIdleTime
    count := 0
    step := step
    lastRemoveIdleThreadsTime := time
    works := []
    workers := []
    threads := fun _ ↦ Worker.unborn
    holder := .starting count.toNat false
    joining := []
    added := []
    handedOut := [] }

/-- A worker changes. -/
def setThread (pool : ThreadPool) (index : ℕ) (worker : Worker) : ThreadPool :=
  { pool with threads := Function.update pool.threads index worker }

/-- A worker goes on. -/
def setPhase (pool : ThreadPool) (index : ℕ) (phase : WorkerPhase) : ThreadPool :=
  pool.setThread index { pool.threads index with phase := phase }

/-- `AddWork` up to `WakeOneThread`. -/
def addWork (pool : ThreadPool) (work : ℕ) : ThreadPool :=
  if pool.destroy then pool
  else
    { pool with
      works := pool.works ++ [work]
      added := pool.added ++ [work]
      holder := .searching pool.workers false }

/-- `AddWork` may start new workers. -/
def MayGrow (pool : ThreadPool) : Prop := pool.maxCount = 0 ∨ pool.count < pool.maxCount

instance (pool : ThreadPool) : Decidable pool.MayGrow := inferInstanceAs (Decidable (_ ∨ _))

/-- The number of workers that `AddWork` starts. -/
def growth (pool : ThreadPool) : ℤ :=
  if 0 < pool.maxCount ∧ pool.count + pool.step > pool.maxCount then pool.maxCount - pool.count
  else pool.step

/-- `RemoveIdleThreads` up to its loop. -/
def removeIdleThreads (pool : ThreadPool) (time : ℕ) : ThreadPool :=
  if pool.maxIdleTime = 0 then pool
  else
    { pool with
      lastRemoveIdleThreadsTime := time
      holder := .reaping pool.workers pool.workers.length
        (toInt32 (time - pool.lastRemoveIdleThreadsTime)) }

/-- `Destroy` up to its loop. -/
def beginDestroy (pool : ThreadPool) : ThreadPool :=
  if pool.destroy then pool
  else { pool with destroy := true, joining := pool.workers, holder := .destroying pool.workers }

/-- `Destroy` has left its section and joined the workers that it has told to stop. -/
def Joined (pool : ThreadPool) : Prop :=
  pool.destroy = true ∧ ¬ pool.holder.Destroys ∧
    ∀ index ∈ pool.joining, (pool.threads index).phase = .exited

instance (pool : ThreadPool) : Decidable pool.Joined := inferInstanceAs (Decidable (_ ∧ _ ∧ _))

/-- `Destroy` behind its section. -/
def endDestroy (pool : ThreadPool) : Option ThreadPool :=
  if pool.Joined then some { pool with works := [] } else none

/-- `GetWork`. -/
def getWork (pool : ThreadPool) (index : ℕ) : ThreadPool :=
  match pool.destroy, pool.works with
  | false, request :: rest =>
    { pool.setPhase index (.got request) with
      works := rest
      handedOut := pool.handedOut ++ [request] }
  | _, _ => pool.setPhase index .leaving

/-- `RemoveThread`. -/
def removeThread (pool : ThreadPool) (index : ℕ) : ThreadPool :=
  { pool.setPhase index .exited with
    workers := pool.workers.erase index
    count := if index ∈ pool.workers then pool.count - 1 else pool.count }

/-- The steps of a worker. -/
def work (pool : ThreadPool) (index : ℕ) (throws : Bool) : Option ThreadPool :=
  match (pool.threads index).phase with
  | .getting => if pool.holder = .free then some (pool.getWork index) else none
  | .asking =>
    if pool.holder = .free then
      some (pool.setPhase index (if pool.destroy then .removing else .outer))
    else none
  | .removing => if pool.holder = .free then some (pool.removeThread index) else none
  | _ => ((pool.threads index).run throws).map (pool.setThread index)

/-- `AddThreads` starts a worker. -/
def startThread (pool : ThreadPool) (index count : ℕ) (adding : Bool) : ThreadPool :=
  { pool.setThread index Worker.started with
    workers := pool.workers ++ [index]
    holder := .awaiting index count adding }

/-- The next step of the thread inside the monitor of the pool. -/
def proceed (pool : ThreadPool) (allocated : Option ℕ) : Option ThreadPool :=
  match pool.holder with
  | .free => none
  | .searching [] again =>
    some { pool with
      holder := if again = false ∧ pool.MayGrow then .starting pool.growth.toNat true else .free }
  | .searching (index :: rest) again =>
    some { pool with
      holder := if (pool.threads index).idle then .waking index else .searching rest again }
  | .waking index =>
    some { pool.setThread index ((pool.threads index).setIdle false) with
      holder := .notifying index }
  | .notifying index =>
    some { pool.setThread index (pool.threads index).letWork with holder := .free }
  | .starting 0 adding =>
    some { pool with holder := if adding then .searching pool.workers true else .free }
  | .starting (count + 1) adding =>
    match allocated with
    | none => some { pool with holder := .starting count adding }
    | some index =>
      if (pool.threads index).phase = .unborn then some (pool.startThread index count adding)
      else none
  | .awaiting index count adding =>
    if (pool.threads index).isWaiting then
      some { pool with count := pool.count + 1, holder := .starting count adding }
    else some pool
  | .reaping [] _ _ => some { pool with holder := .free }
  | .reaping (index :: rest) size interval =>
    if size > pool.minCount then
      let worker := (pool.threads index).addIdleTime interval
      some { pool.setThread index worker with
        holder := if worker.idleTime > pool.maxIdleTime then .stopping index rest size interval
          else .reaping rest size interval }
    else some { pool with holder := .free }
  | .stopping index rest size interval =>
    some { pool.setThread index (pool.threads index).halt with
      holder := .reaping rest (size - 1) interval }
  | .destroying [] => some { pool with holder := .free }
  | .destroying (index :: rest) =>
    some { pool.setThread index (pool.threads index).halt with holder := .destroying rest }

/-- One step. -/
def take (pool : ThreadPool) : PoolEvent → Option ThreadPool
  | .addWork work => if pool.holder = .free then some (pool.addWork work) else none
  | .removeIdleThreads time =>
    if pool.holder = .free then some (pool.removeIdleThreads time) else none
  | .destroy => if pool.holder = .free then some pool.beginDestroy else none
  | .proceed allocated => pool.proceed allocated
  | .work index throws => pool.work index throws

end ThreadPool

/-- A pool, its workers and its callers. -/
def threadPoolSystem : EventSystem ThreadPool PoolEvent where
  step := ThreadPool.take

/-! ### The order of the work -/

namespace ThreadPool

variable {pool next : ThreadPool}

/-- The work that has been handed out, followed by the queue, is the work that has been added. -/
def InOrder (pool : ThreadPool) : Prop := pool.handedOut ++ pool.works = pool.added

/-- A step that leaves the queue and what has passed through it. -/
theorem InOrder.of_same (horder : pool.InOrder) (hworks : next.works = pool.works)
    (hadded : next.added = pool.added) (hhanded : next.handedOut = pool.handedOut) :
    next.InOrder := by
  rw [InOrder, hworks, hadded, hhanded]
  exact horder

theorem InOrder.addWork (horder : pool.InOrder) (work : ℕ) : (pool.addWork work).InOrder := by
  unfold ThreadPool.addWork
  split_ifs
  · exact horder
  · show pool.handedOut ++ (pool.works ++ [work]) = pool.added ++ [work]
    rw [← List.append_assoc, horder]

theorem InOrder.getWork (horder : pool.InOrder) (index : ℕ) : (pool.getWork index).InOrder := by
  unfold ThreadPool.getWork
  split
  next request rest hdestroy hworks =>
    show pool.handedOut ++ [request] ++ rest = pool.added
    rw [List.append_assoc, List.singleton_append, ← hworks]
    exact horder
  next => exact horder

theorem InOrder.work (horder : pool.InOrder) {index : ℕ} {throws : Bool}
    (hstep : pool.work index throws = some next) : next.InOrder := by
  unfold ThreadPool.work at hstep
  split at hstep
  · split_ifs at hstep
    exact Option.some.inj hstep ▸ horder.getWork index
  · split_ifs at hstep <;> exact Option.some.inj hstep ▸ horder
  · split_ifs at hstep
    exact Option.some.inj hstep ▸ horder
  · obtain ⟨worker, -, rfl⟩ := Option.map_eq_some_iff.mp hstep
    exact horder

/-- The thread inside the monitor leaves the queue as it is after `AddWork` has begun. -/
theorem proceed_works {allocated : Option ℕ} (hstep : pool.proceed allocated = some next) :
    next.works = pool.works ∧ next.added = pool.added ∧ next.handedOut = pool.handedOut := by
  unfold proceed at hstep
  cases hholder : pool.holder with
  | free => simp [hholder] at hstep
  | searching rest again =>
    cases rest <;> simp only [hholder, Option.some.injEq] at hstep <;> subst hstep <;>
      exact ⟨rfl, rfl, rfl⟩
  | waking | notifying | stopping =>
    simp only [hholder, Option.some.injEq] at hstep
    subst hstep
    exact ⟨rfl, rfl, rfl⟩
  | starting count adding =>
    cases count with
    | zero =>
      simp only [hholder, Option.some.injEq] at hstep
      subst hstep
      exact ⟨rfl, rfl, rfl⟩
    | succ count =>
      cases allocated with
      | none =>
        simp only [hholder, Option.some.injEq] at hstep
        subst hstep
        exact ⟨rfl, rfl, rfl⟩
      | some index =>
        simp only [hholder] at hstep
        split_ifs at hstep
        exact Option.some.inj hstep ▸ ⟨rfl, rfl, rfl⟩
  | awaiting index count adding =>
    simp only [hholder] at hstep
    split_ifs at hstep <;> exact Option.some.inj hstep ▸ ⟨rfl, rfl, rfl⟩
  | reaping rest size interval =>
    cases rest with
    | nil =>
      simp only [hholder, Option.some.injEq] at hstep
      subst hstep
      exact ⟨rfl, rfl, rfl⟩
    | cons index rest =>
      simp only [hholder] at hstep
      split_ifs at hstep <;> exact Option.some.inj hstep ▸ ⟨rfl, rfl, rfl⟩
  | destroying rest =>
    cases rest <;> simp only [hholder, Option.some.injEq] at hstep <;> subst hstep <;>
      exact ⟨rfl, rfl, rfl⟩

theorem take_inOrder (state : ThreadPool) (event : PoolEvent) (next : ThreadPool)
    (hsystem : threadPoolSystem.step state event = some next) (horder : state.InOrder) :
    next.InOrder := by
  have hstep : state.take event = some next := hsystem
  cases event with
  | addWork work =>
    rw [take] at hstep
    split_ifs at hstep
    exact Option.some.inj hstep ▸ horder.addWork work
  | removeIdleThreads time =>
    rw [take, removeIdleThreads] at hstep
    split_ifs at hstep <;> exact Option.some.inj hstep ▸ horder
  | destroy =>
    rw [take, beginDestroy] at hstep
    split_ifs at hstep <;> exact Option.some.inj hstep ▸ horder
  | proceed allocated =>
    obtain ⟨hworks, hadded, hhanded⟩ := proceed_works hstep
    exact horder.of_same hworks hadded hhanded
  | work index throws => exact horder.work hstep

end ThreadPool

end RocketMQClient.Kpr
