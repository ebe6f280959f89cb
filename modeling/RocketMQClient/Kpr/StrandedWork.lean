import RocketMQClient.Kpr.WorkerFlags

/-!
# Work that no worker will take

A worker that finds the queue empty is neither idle nor working until it calls `SetIdle(true)`, and
one that has been told to stop is idle until it leaves the list. `AddWork` does not wake the first
and wakes the second in vain; with the pool at its maximum the work then stays in the queue while
the workers wait.

`strands_no_work` says that the work is handed out in the order in which it was added, and that no
work is stranded in a run in which `AddWork` fails to place its work, or a worker is lost to an
exception, only while another worker is active.

`Attended` is the invariant behind it: queued work has an active worker, or a call of `AddWork` that
is still placing its work. Every step of a worker or of the thread inside the monitor keeps it
except the two that the condition names, and a state in which work is attended is not `Stranded`.
-/

set_option autoImplicit false
set_option relaxedAutoImplicit false

namespace RocketMQClient.Kpr

open Library

/-! ### Stranded work -/

namespace ThreadPool

/-- Some worker is active. -/
def SomeActive (pool : ThreadPool) : Prop := ∃ index, (pool.threads index).Active

/-- Work is queued, no call of `AddWork` is under way, and every worker that will run again is
blocked in `Wait` with `m_canWork` false. -/
structure Stranded (pool : ThreadPool) : Prop where
  works : pool.works ≠ []
  holder : ¬ pool.holder.Adding
  blocked : ∀ index, (pool.threads index).phase.Alive →
    (pool.threads index).phase = .waiting ∧ (pool.threads index).canWork = false

/-- The thread inside the monitor ends `AddWork` without an idle worker, or finds one that has been
told to stop. -/
def FailsToPlace (pool : ThreadPool) : Prop :=
  match pool.holder with
  | .searching [] again => ¬ (again = false ∧ pool.MayGrow)
  | .searching (index :: _) _ =>
    (pool.threads index).idle = true ∧ (pool.threads index).stop = true
  | _ => False

instance : DecidablePred FailsToPlace := fun pool ↦ by
  unfold FailsToPlace
  split <;> infer_instance

/-- `AddWork` fails to place its work only while a worker is active, and a worker that an exception
ends while work is queued leaves another active one. -/
def KeepsWorkAttended (pool : ThreadPool) : PoolEvent → Prop
  | .proceed _ => pool.FailsToPlace → pool.SomeActive
  | .work index throws => throws = true → (∃ request, (pool.threads index).phase = .doing request) →
      pool.works ≠ [] → ∃ other ≠ index, (pool.threads other).Active
  | .addWork _ | .removeIdleThreads _ | .destroy => True

/-- The call of `AddWork` that is under way still looks for a worker, or wakes one that has not been
told to stop. -/
def Placing (pool : ThreadPool) : Prop :=
  match pool.holder with
  | .searching _ _ => True
  | .starting _ adding | .awaiting _ _ adding => adding = true
  | .waking index | .notifying index => (pool.threads index).stop = false
  | .free | .reaping _ _ _ | .stopping _ _ _ _ | .destroying _ => False

/-- Queued work has an active worker or a call of `AddWork` that sees to it. -/
def Attended (pool : ThreadPool) : Prop :=
  pool.destroy = false → pool.works ≠ [] → pool.SomeActive ∨ pool.Placing

variable {pool next : ThreadPool}

/-! ### What a good step keeps -/

/-- Active workers stay active. -/
theorem SomeActive.mono (hactive : pool.SomeActive)
    (hthreads : ∀ index, (pool.threads index).Active → (next.threads index).Active) :
    next.SomeActive :=
  hactive.imp hthreads

/-- One worker changes. -/
theorem SomeActive.update (hactive : pool.SomeActive) {index : ℕ} {worker : Worker}
    (hthreads : next.threads = Function.update pool.threads index worker)
    (hworker : (pool.threads index).Active → worker.Active) : next.SomeActive := by
  refine hactive.mono fun other hother ↦ ?_
  rw [hthreads]
  by_cases hsame : other = index
  · subst hsame
    rw [Function.update_self]
    exact hworker hother
  · rwa [Function.update_of_ne hsame]

/-- A worker that has been told to stop or is neither woken nor in turn is not active. -/
theorem not_active_of_phase {worker : Worker} (hblocks : ¬ worker.phase.Blocks)
    (hinTurn : ¬ worker.phase.InTurn) : ¬ worker.Active :=
  fun hactive ↦ hactive.2.elim (fun hwoken ↦ hblocks hwoken.2) hinTurn

/-- A call of `AddWork` that goes on placing its work. -/
theorem Placing.of_same (hplacing : pool.Placing) (hholder : next.holder = pool.holder)
    (hstop : ∀ index, (next.threads index).stop = (pool.threads index).stop) : next.Placing := by
  unfold Placing at hplacing ⊢
  rw [hholder]
  split at hplacing <;> simp_all

theorem Placing.adding (hplacing : pool.Placing) : pool.holder.Adding := by
  unfold Placing at hplacing
  unfold PoolSection.Adding
  split at hplacing <;> simp_all

/-- Work that was attended stays so when active workers stay active and a call of `AddWork` goes on
or leaves an active worker. -/
theorem Attended.mono (hattended : pool.Attended) (hdestroy : next.destroy = pool.destroy)
    (hworks : next.works ≠ [] → pool.works ≠ []) (hactive : pool.SomeActive → next.SomeActive)
    (hplacing : pool.works ≠ [] → pool.Placing → next.SomeActive ∨ next.Placing) :
    next.Attended := by
  intro hfalse hnonempty
  rcases hattended (hdestroy ▸ hfalse) (hworks hnonempty) with hsome | hplaces
  · exact Or.inl (hactive hsome)
  · exact hplacing (hworks hnonempty) hplaces

/-- A worker that holds the monitor leaves the waiting workers as they are. -/
theorem Attended.setPhase (hattended : pool.Attended) (hholder : pool.holder = .free) {index : ℕ}
    {phase : WorkerPhase}
    (hphase : (pool.threads index).phase = .asking ∨ (pool.threads index).phase = .removing) :
    (pool.setPhase index phase).Attended := by
  have hnot : ¬ (pool.threads index).Active := by
    rcases hphase with hphase | hphase <;>
      exact not_active_of_phase (by rw [hphase]; exact id) (by rw [hphase]; exact id)
  refine hattended.mono rfl id (fun hsome ↦ hsome.update rfl fun hactive ↦ absurd hactive hnot) ?_
  intro _ hplacing
  have hadding := hplacing.adding
  rw [hholder] at hadding
  exact hadding.elim

/-- `GetWork`. -/
theorem Attended.getWork (hattended : pool.Attended) (hholder : pool.holder = .free) {index : ℕ} :
    (pool.getWork index).Attended := by
  unfold ThreadPool.getWork
  split
  next request rest hdestroy hworks =>
    refine hattended.mono rfl (fun _ ↦ by simp [hworks]) (fun hsome ↦ ?_) fun _ hplacing ↦ ?_
    · exact hsome.update rfl fun hactive ↦ ⟨hactive.1, Or.inr trivial⟩
    · have hadding := hplacing.adding
      rw [hholder] at hadding
      exact hadding.elim
  next hnone =>
    intro hdestroy hworks
    obtain ⟨request, rest, hcons⟩ := List.exists_cons_of_ne_nil hworks
    exact absurd hcons (hnone request rest hdestroy)

/-- The steps of a worker leave active workers while work is queued. -/
theorem Attended.work (hattended : pool.Attended) {index : ℕ} {throws : Bool}
    (hgood : pool.KeepsWorkAttended (.work index throws))
    (hstep : pool.work index throws = some next) : next.Attended := by
  unfold ThreadPool.work at hstep
  split at hstep
  next hphase =>
    split_ifs at hstep with hfree
    exact Option.some.inj hstep ▸ hattended.getWork hfree
  next hphase =>
    split_ifs at hstep with hfree <;>
      exact Option.some.inj hstep ▸ hattended.setPhase hfree (Or.inl hphase)
  next hphase =>
    split_ifs at hstep with hfree
    exact Option.some.inj hstep ▸ hattended.setPhase hfree (Or.inr hphase)
  next =>
    obtain ⟨worker, hrun, rfl⟩ := Option.map_eq_some_iff.mp hstep
    have hstop : ∀ other, ((pool.setThread index worker).threads other).stop =
        (pool.threads other).stop := by
      intro other
      by_cases hsame : other = index
      · subst hsame
        simp [setThread, Worker.run_stop hrun]
      · simp [setThread, Function.update_of_ne hsame]
    by_cases hthrows : throws = true ∧ ∃ request, (pool.threads index).phase = .doing request
    · intro hdestroy hworks
      obtain ⟨other, hother, hactive⟩ := hgood hthrows.1 hthrows.2 hworks
      refine Or.inl ⟨other, ?_⟩
      show (Function.update pool.threads index worker other).Active
      rwa [Function.update_of_ne hother]
    · refine hattended.mono rfl id (fun hsome ↦ hsome.update rfl fun hactive ↦ ?_) ?_
      · exact hactive.run (fun htrue hdoing ↦ hthrows ⟨htrue, hdoing⟩) hrun
      · exact fun _ hplacing ↦ Or.inr (hplacing.of_same rfl hstop)

/-- A call of `AddWork` that fails to place its work, as its condition reads where it fails. -/
theorem failsToPlace_of_stopped {index : ℕ} {rest : List ℕ} {again : Bool}
    (hholder : pool.holder = .searching (index :: rest) again)
    (hidle : (pool.threads index).idle = true) (hstop : (pool.threads index).stop = true) :
    pool.FailsToPlace := by
  unfold FailsToPlace
  rw [hholder]
  exact ⟨hidle, hstop⟩

theorem failsToPlace_of_end {again : Bool} (hholder : pool.holder = .searching [] again)
    (hgrow : ¬ (again = false ∧ pool.MayGrow)) : pool.FailsToPlace := by
  unfold FailsToPlace
  rw [hholder]
  exact hgrow

/-- The thread inside the monitor changes what concerns no queue while no call of `AddWork` places
its work. -/
theorem Attended.of_not_adding (hattended : pool.Attended) (hadding : ¬ pool.holder.Adding)
    (hdestroy : next.destroy = pool.destroy) (hworks : next.works = pool.works)
    (hactive : pool.SomeActive → next.SomeActive) : next.Attended :=
  hattended.mono hdestroy (fun hnonempty ↦ hworks ▸ hnonempty) hactive
    fun _ hplacing ↦ absurd hplacing.adding hadding

/-- `WakeOneThread` looks at a worker. -/
theorem Attended.search (hattended : pool.Attended) {index : ℕ} {rest : List ℕ} {again : Bool}
    (hholder : pool.holder = .searching (index :: rest) again)
    (hgood : pool.FailsToPlace → pool.SomeActive) :
    ({ pool with
      holder := if (pool.threads index).idle then .waking index
        else .searching rest again } : ThreadPool).Attended := by
  refine hattended.mono rfl id (fun hsome ↦ hsome) fun _ _ ↦ ?_
  split_ifs with hidle
  · cases hstop : (pool.threads index).stop with
    | true => exact Or.inl (hgood (failsToPlace_of_stopped hholder hidle hstop))
    | false => exact Or.inr hstop
  · exact Or.inr trivial

/-- `WakeOneThread` has looked at all workers. -/
theorem Attended.endSearch (hattended : pool.Attended) {again : Bool}
    (hholder : pool.holder = .searching [] again)
    (hgood : pool.FailsToPlace → pool.SomeActive) :
    ({ pool with
      holder := if again = false ∧ pool.MayGrow then .starting pool.growth.toNat true
        else .free } : ThreadPool).Attended := by
  refine hattended.mono rfl id (fun hsome ↦ hsome) fun _ _ ↦ ?_
  split_ifs with hgrow
  · exact Or.inr rfl
  · exact Or.inl (hgood (failsToPlace_of_end hholder hgrow))

/-- The first section of `WakeUp`. -/
theorem Attended.wakeUp (hattended : pool.Attended) {index : ℕ}
    (hholder : pool.holder = .waking index) :
    ({ pool.setThread index ((pool.threads index).setIdle false) with
      holder := .notifying index } : ThreadPool).Attended := by
  refine hattended.mono rfl id (fun hsome ↦ hsome.update rfl id) fun _ hplacing ↦ Or.inr ?_
  unfold Placing at hplacing
  rw [hholder] at hplacing
  show (Function.update pool.threads index ((pool.threads index).setIdle false) index).stop = false
  rwa [Function.update_self]

/-- The second section of `WakeUp`: the worker is active. -/
theorem Attended.notify (hattended : pool.Attended) (hsound : pool.Sound) {index : ℕ}
    (hholder : pool.holder = .notifying index) :
    ({ pool.setThread index (pool.threads index).letWork with
      holder := .free } : ThreadPool).Attended := by
  refine hattended.mono rfl id (fun hsome ↦ hsome.update rfl fun hactive ↦ ?_) fun _ hplacing ↦ ?_
  · exact ⟨hactive.1, hactive.2.imp_left fun hwoken ↦ ⟨rfl, hwoken.2⟩⟩
  · unfold Placing at hplacing
    rw [hholder] at hplacing
    have hblocks := ((hsound.workers index hplacing).chosen (by rw [hholder]; rfl)).1
    refine Or.inl ⟨index, ?_⟩
    show (Function.update pool.threads index (pool.threads index).letWork index).Active
    rw [Function.update_self]
    exact ⟨hplacing, Or.inl ⟨rfl, hblocks⟩⟩

/-- The loop of `AddThreads` in a call of `AddWork` goes on. -/
theorem Attended.start (hattended : pool.Attended) {count : ℕ} {adding : Bool}
    (hholder : pool.Placing → adding = true) (hdestroy : next.destroy = pool.destroy)
    (hworks : next.works = pool.works) (hactive : pool.SomeActive → next.SomeActive)
    (hnext : next.holder = .starting count adding ∨
      ∃ index, next.holder = .awaiting index count adding) : next.Attended := by
  refine hattended.mono hdestroy (fun hnonempty ↦ hworks ▸ hnonempty) hactive fun _ hplacing ↦ ?_
  refine Or.inr ?_
  unfold Placing
  rcases hnext with hnext | ⟨index, hnext⟩ <;> rw [hnext] <;> exact hholder hplacing

/-- The steps of the thread inside the monitor leave active workers while work is queued. -/
theorem Attended.proceed (hattended : pool.Attended) (hsound : pool.Sound)
    {allocated : Option ℕ} (hgood : pool.FailsToPlace → pool.SomeActive)
    (hstep : pool.proceed allocated = some next) : next.Attended := by
  unfold ThreadPool.proceed at hstep
  split at hstep
  next => cases hstep
  next again hholder =>
    cases hstep
    exact hattended.endSearch hholder hgood
  next index rest again hholder =>
    cases hstep
    exact hattended.search hholder hgood
  next index hholder =>
    cases hstep
    exact hattended.wakeUp hholder
  next index hholder =>
    cases hstep
    exact hattended.notify hsound hholder
  next adding hholder =>
    cases hstep
    refine hattended.mono rfl id (fun hsome ↦ hsome) fun _ hplacing ↦ Or.inr ?_
    have hadding : adding = true := by
      unfold Placing at hplacing
      rwa [hholder] at hplacing
    rw [if_pos hadding]
    trivial
  next count adding hholder =>
    have hadding : pool.Placing → adding = true := by
      unfold Placing
      rw [hholder]
      exact id
    split at hstep
    next =>
      cases hstep
      exact hattended.start hadding rfl rfl id (Or.inl rfl)
    next index =>
      split_ifs at hstep with hunborn
      cases hstep
      refine hattended.start hadding rfl rfl (fun hsome ↦ hsome.update rfl fun hactive ↦ ?_)
        (Or.inr ⟨index, rfl⟩)
      exact absurd hactive
        (not_active_of_phase (by rw [hunborn]; exact id) (by rw [hunborn]; exact id))
  next index count adding hholder =>
    split_ifs at hstep with hwaiting
    · cases hstep
      refine hattended.start (fun hplacing ↦ ?_) rfl rfl id (Or.inl rfl)
      unfold Placing at hplacing
      rwa [hholder] at hplacing
    · exact Option.some.inj hstep ▸ hattended
  next hholder =>
    cases hstep
    exact hattended.of_not_adding (by rw [hholder]; exact id) rfl rfl id
  next index rest size interval hholder =>
    split_ifs at hstep
    · cases hstep
      exact hattended.of_not_adding (by rw [hholder]; exact id) rfl rfl
        fun hsome ↦ hsome.update rfl id
    · cases hstep
      exact hattended.of_not_adding (by rw [hholder]; exact id) rfl rfl id
  next index rest size interval hholder =>
    cases hstep
    refine hattended.of_not_adding (by rw [hholder]; exact id) rfl rfl fun hsome ↦
      hsome.update rfl fun hactive ↦ ?_
    have hworker := hsound.workers index hactive.1
    exact absurd hactive (hworker.not_active_of_idle (hworker.condemned (by rw [hholder]; rfl)))
  next hholder =>
    cases hstep
    exact hattended.of_not_adding (by rw [hholder]; exact id) rfl rfl id
  next index rest hholder =>
    cases hstep
    intro hdestroy
    exact absurd ((hsound.destroying (by rw [hholder]; trivial)).symm.trans hdestroy)
      Bool.true_eq_false.mp

/-- A step that is good keeps queued work attended. -/
theorem take_attended (state : ThreadPool) (event : PoolEvent) (next : ThreadPool)
    (hgood : state.KeepsWorkAttended event)
    (hsystem : threadPoolSystem.step state event = some next)
    (hinvariant : state.Sound ∧ state.Attended) : next.Sound ∧ next.Attended := by
  refine ⟨take_sound state event next hsystem hinvariant.1, ?_⟩
  have hattended := hinvariant.2
  have hstep : state.take event = some next := hsystem
  cases event with
  | addWork work =>
    rw [take, addWork] at hstep
    split_ifs at hstep with hfree
    · exact Option.some.inj hstep ▸ hattended
    · cases hstep
      exact fun _ _ ↦ Or.inr trivial
  | removeIdleThreads time =>
    rw [take, removeIdleThreads] at hstep
    split_ifs at hstep with hfree
    · exact Option.some.inj hstep ▸ hattended
    · cases hstep
      exact hattended.of_not_adding (by rw [hfree]; exact id) rfl rfl id
  | destroy =>
    rw [take, beginDestroy] at hstep
    split_ifs at hstep with hfree
    · exact Option.some.inj hstep ▸ hattended
    · cases hstep
      exact fun hdestroy ↦ absurd hdestroy Bool.true_eq_false.mp
  | proceed allocated => exact hattended.proceed hinvariant.1 hgood hstep
  | work index throws => exact hattended.work hgood hstep

/-! ### Runs -/

/-- Work that is attended is not stranded. -/
theorem Attended.not_stranded (hattended : pool.Attended) (hdestroy : pool.destroy = false) :
    ¬ pool.Stranded := by
  intro hstranded
  rcases hattended hdestroy hstranded.works with ⟨index, -, hwoken | hinTurn⟩ | hplacing
  · obtain ⟨-, hcanWork⟩ := hstranded.blocked index (WorkerPhase.alive_of_blocks hwoken.2)
    exact Bool.false_ne_true (hcanWork.symm.trans hwoken.1)
  · obtain ⟨hphase, -⟩ := hstranded.blocked index (WorkerPhase.alive_of_inTurn hinTurn)
    rw [hphase] at hinTurn
    exact hinTurn
  · exact hstranded.holder hplacing.adding

section Runs

variable {count minCount maxCount step maxIdleTime : ℤ} {time : ℕ}

theorem create_maxIdleTime :
    0 ≤ (create count minCount maxCount step maxIdleTime time).maxIdleTime := by
  show 0 ≤ if maxIdleTime < 0 then 300000 else maxIdleTime
  split_ifs <;> omega

theorem create_sound : (create count minCount maxCount step maxIdleTime time).Sound where
  workers := fun _ _ ↦
    { woken := fun htrue ↦ absurd htrue Bool.false_ne_true
      resting := fun htrue ↦ absurd htrue Bool.false_ne_true
      chosen := False.elim
      noted := False.elim
      condemned := False.elim }
  maxIdleTime := create_maxIdleTime
  destroying := False.elim

theorem create_attended : (create count minCount maxCount step maxIdleTime time).Attended :=
  fun _ hworks ↦ absurd rfl hworks

/-- In every run from the constructor the work is handed out in the order in which it was added,
each piece once. Before `Destroy` no work is stranded, if a call of `AddWork` ends its search
without an idle worker, or finds one that has been told to stop, only while a worker is active, and
a worker that an exception of `Do` ends while work is queued leaves another active one. -/
theorem strands_no_work {events : List PoolEvent} {last : ThreadPool}
    (hrun : threadPoolSystem.run (create count minCount maxCount step maxIdleTime time) events =
      some last) :
    last.handedOut ++ last.works = last.added ∧
      (threadPoolSystem.Along KeepsWorkAttended
          (create count minCount maxCount step maxIdleTime time) events →
        last.destroy = false → ¬ last.Stranded) := by
  refine ⟨EventSystem.run_invariant take_inOrder hrun rfl, fun halong hdestroy ↦ ?_⟩
  have hinvariant : last.Sound ∧ last.Attended :=
    EventSystem.run_invariant_of_along take_attended halong hrun ⟨create_sound, create_attended⟩
  exact hinvariant.2.not_stranded hdestroy

end Runs

/-- No call of `AddWork` fails to place its work, and no worker is lost to an exception. -/
def Places (pool : ThreadPool) : PoolEvent → Prop
  | .proceed _ => ¬ pool.FailsToPlace
  | .work _ throws => throws = false
  | .addWork _ | .removeIdleThreads _ | .destroy => True

instance : ∀ (pool : ThreadPool) (event : PoolEvent), Decidable (pool.Places event)
  | pool, .proceed _ => inferInstanceAs (Decidable (¬ pool.FailsToPlace))
  | _, .work _ throws => inferInstanceAs (Decidable (throws = false))
  | _, .addWork _ | _, .removeIdleThreads _ | _, .destroy => isTrue trivial

theorem keepsWorkAttended_of_places {event : PoolEvent} (hplaces : pool.Places event) :
    pool.KeepsWorkAttended event := by
  cases event with
  | proceed allocated => exact fun hfails ↦ absurd hfails hplaces
  | work index throws => exact fun htrue ↦ absurd (hplaces.symm.trans htrue) Bool.false_ne_true
  | addWork | removeIdleThreads | destroy => trivial

/-- A worker is started and comes to wait, and work is added. -/
def oneWork : List PoolEvent :=
  [.proceed (some 0), .work 0 false, .work 0 false, .work 0 false, .proceed none, .proceed none,
    .addWork 7, .proceed none, .proceed none, .proceed none]

/-- The worker that has been woken is there for the work. -/
theorem strands_no_work_of_one_work : ∃ last,
    threadPoolSystem.run (create 1 1 1 1 0 0) oneWork = some last ∧ last.works = [7] ∧
      last.handedOut ++ last.works = last.added ∧ ¬ last.Stranded := by
  obtain ⟨last, hrun, hworks, hdestroy⟩ : ∃ last,
      threadPoolSystem.run (create 1 1 1 1 0 0) oneWork = some last ∧ last.works = [7] ∧
        last.destroy = false := ⟨_, rfl, rfl, rfl⟩
  obtain ⟨horder, hstranded⟩ := strands_no_work hrun
  have halong : threadPoolSystem.Along Places (create 1 1 1 1 0 0) oneWork := by decide
  exact ⟨last, hrun, hworks, horder, hstranded
    (EventSystem.along_mono (fun _ _ ↦ keepsWorkAttended_of_places) halong) hdestroy⟩

/-- The worker does the work and finds the queue empty; before it calls `SetIdle(true)` more work is
added, and the pool is at its maximum. -/
def moreWork : List PoolEvent :=
  oneWork ++ List.replicate 7 (.work 0 false) ++ [.addWork 8, .proceed none, .proceed none] ++
    List.replicate 5 (.work 0 false)

/-- The worker waits and the work stays in the queue. -/
theorem busy_worker_strands_work : ∃ last,
    threadPoolSystem.run (create 1 1 1 1 0 0) moreWork = some last ∧ last.destroy = false ∧
      last.works = [8] ∧ last.Stranded := by
  refine ⟨_, rfl, rfl, rfl, ⟨by decide, id, fun index halive ↦ ?_⟩⟩
  cases index with
  | zero => exact ⟨rfl, rfl⟩
  | succ other => exact (show False from halive).elim

end ThreadPool

end RocketMQClient.Kpr
