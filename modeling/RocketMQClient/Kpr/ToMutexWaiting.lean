import RocketMQClient.Kpr.ToMutexExclusion

/-!
# Waiting for the lock with a time-out

`Unlock` clears the flag in `m_mutex` and looks at it again behind `m_mutex`. If it finds the flag
set, another thread has taken the lock in between and notifies when it gives it up. If not, it wakes
one of the threads that wait. So while the lock is free and threads wait, some thread is on the way
to notify them or has been notified and not yet looked at the flag (`Attended`).

A call of `Lock` that returns false has not changed the fields of the lock (`FailsQuietly`), since
it returns true from the place where it changes one of them.

`toMutex_sound` is all this together with the exclusion of the threads, for the runs in which no
thread holds the lock `2 ^ 31` times. A thread that does sees a negative number of locks
(`toMutex_not_sound`).

The look behind `m_mutex` is not protected, and `Attended` has to name every place from which a
notification still comes: the thread between clearing the flag and its second look, the one that
sends the signal, and the one that has been woken. A notification that finds nobody is not lost,
since nobody waits then.
-/

set_option autoImplicit false
set_option relaxedAutoImplicit false

namespace RocketMQClient.Kpr

open Library

namespace ToMutexThread

/-- The thread has been notified and has not yet looked at the flag. -/
def HasNotification (own : ToMutexThread) : Prop :=
  match own.place with
  | .woken _ .notified | .testLock _ true => True
  | _ => False

/-- The thread is in `Unlock`. -/
def InUnlock (own : ToMutexThread) : Prop :=
  match own.place with
  | .enterUnlock | .decrement | .leaveUnlock | .readFlag | .notify => True
  | _ => False

/-- The thread is going to notify another one if the lock stays free, or has been notified. -/
def Attends (own : ToMutexThread) : Prop :=
  match own.place with
  | .leaveUnlock | .readFlag | .notify | .woken _ .notified | .testLock _ true => True
  | _ => False

/-- The thread is in `Lock` and has not changed a field of the lock. -/
def OnLock (depth : ℕ) (own : ToMutexThread) : Prop :=
  own.depth = depth ∧
    match own.place with
    | .enterLock _ | .testLock _ _ | .startWait _ | .blocked _ | .woken _ _ | .expired
    | .leaveLock false | .asserted => True
    | _ => False

/-- The thread has taken the lock or has returned from `Lock`. -/
def IsDone (own : ToMutexThread) : Prop :=
  match own.place with
  | .leaveLock true | .outside => True
  | _ => False

variable {own : ToMutexThread}

theorem Attends.cases_on (hattends : own.Attends) : own.InUnlock ∨ own.HasNotification := by
  obtain ⟨depth, place⟩ := own
  cases place with
  | leaveUnlock | readFlag | notify => exact Or.inl trivial
  | woken msec reason => cases reason <;> first | exact Or.inr trivial | cases hattends
  | testLock msec notified => cases notified <;> first | exact Or.inr trivial | cases hattends
  | _ => cases hattends

theorem Attends.not_isBlocked (hattends : own.Attends) : ¬ own.IsBlocked := by
  obtain ⟨depth, place⟩ := own
  cases place with
  | blocked => cases hattends
  | _ => exact not_false

theorem attends_wake (hblocked : own.IsBlocked) : (own.wake .notified).Attends := by
  obtain ⟨depth, place⟩ := own
  cases place with
  | blocked => trivial
  | _ => cases hblocked

theorem OnLock.place_ne_notify {depth : ℕ} (honLock : own.OnLock depth) :
    own.place ≠ .notify := by
  intro hplace
  have honLock := honLock.2
  rw [hplace] at honLock
  exact honLock

theorem IsDone.place_ne_notify (hdone : own.IsDone) : own.place ≠ .notify := by
  intro hplace
  rw [IsDone, hplace] at hdone
  exact hdone

theorem OnLock.wake {depth : ℕ} (honLock : own.OnLock depth) (reason : WakeReason) :
    (own.wake reason).OnLock depth := by
  obtain ⟨depth, place⟩ := own
  cases place <;> exact honLock

theorem IsDone.wake (hdone : own.IsDone) (reason : WakeReason) : (own.wake reason).IsDone := by
  obtain ⟨depth, place⟩ := own
  cases place <;> exact hdone

end ToMutexThread

namespace ToMutex

variable {Thread : Type*}

/-- While the lock is free, nobody waits or some thread attends to those that do. -/
def Attended (lock : ToMutex Thread) : Prop :=
  lock.isLock = false → lock.waiting = [] ∨ ∃ thread, (lock.threads thread).Attends

/-- A lock that is taken needs nobody. -/
theorem attended_of_isLock {lock : ToMutex Thread} (hlock : lock.isLock = true) : lock.Attended :=
  fun hfree ↦ absurd (hfree.symm.trans hlock) Bool.false_ne_true

/-- At most one thread holds the lock, it is the one in the field, and the number of locks is how
often it does; it is never negative. While the lock is free and no thread is in `Unlock`, a
notification is under way if a thread waits. -/
structure Sound (lock : ToMutex Thread) : Prop where
  exclusive : ∀ first second, 0 < (lock.threads first).held → 0 < (lock.threads second).held →
    first = second
  counts : ∀ thread, 0 < (lock.threads thread).held → lock.isLock = true ∧
    lock.tid = some thread ∧ lock.counts = (lock.threads thread).held
  holder : lock.isLock = true → ∃ thread, 0 < (lock.threads thread).held
  free : lock.isLock = false → lock.counts = 0
  nonneg : 0 ≤ lock.counts
  attended : lock.isLock = false → (∀ thread, ¬ (lock.threads thread).InUnlock) →
    ∀ waiter, (lock.threads waiter).IsBlocked →
      ∃ notified, (lock.threads notified).HasNotification

theorem Consistent.sound {lock : ToMutex Thread} (hconsistent : lock.Consistent)
    (hattended : lock.Attended) : lock.Sound where
  exclusive _ _ hfirst hsecond := hconsistent.nested.heldBy.unique hfirst hsecond
  counts _ hheld := hconsistent.owner_of_held hheld
  holder hlock := (hconsistent.exists_owner hlock).imp fun _ howner ↦ howner.2
  free := hconsistent.counts_eq_zero
  nonneg := hconsistent.nonneg
  attended hfree hunlock waiter hblocked := by
    rcases hattended hfree with hnone | ⟨thread, hattends⟩
    · have hwaits := (hconsistent.waiting waiter).mpr hblocked
      rw [hnone] at hwaits
      exact absurd hwaits List.not_mem_nil
    · exact ⟨thread, hattends.cases_on.resolve_left (hunlock thread)⟩

variable [DecidableEq Thread]

/-! ### Who attends to the threads that wait -/

section Attended

variable {lock next : ToMutex Thread} {thread : Thread} {own old : ToMutexThread}

/-- A thread moves without leaving the others unattended. -/
theorem Attended.update (hattended : lock.Attended) (hown : lock.threads thread = old)
    (hthreads : next.threads = Function.update lock.threads thread own)
    (hflag : next.isLock = lock.isLock) (hwaiting : next.waiting = lock.waiting)
    (hattends : old.Attends → own.Attends) : next.Attended := by
  intro hfree
  rw [hwaiting, hthreads]
  refine (hattended (hflag ▸ hfree)).imp_right fun ⟨other, hother⟩ ↦ ?_
  by_cases hsame : other = thread
  · rw [hsame, hown] at hother
    exact ⟨thread, by rw [Function.update_self]; exact hattends hother⟩
  · exact ⟨other, by rwa [Function.update_of_ne hsame]⟩

theorem set_self (lock : ToMutex Thread) (thread : Thread) (own : ToMutexThread) :
    (lock.set thread own).threads thread = own := Function.update_self _ _ _

theorem set_of_ne (lock : ToMutex Thread) {other : Thread} (hne : other ≠ thread)
    (own : ToMutexThread) : (lock.set thread own).threads other = lock.threads other :=
  Function.update_of_ne hne _ _

theorem Attended.wake (hattended : lock.Attended) (woken : List Thread) (reason : WakeReason) :
    (lock.wake woken reason).Attended := by
  intro hfree
  refine (hattended hfree).imp (fun hnone ↦ ?_) fun ⟨other, hother⟩ ↦ ⟨other, ?_⟩
  · show lock.waiting.filter _ = []
    rw [hnone, List.filter_nil]
  · rwa [wake_threads_of_not_blocked _ _ hother.not_isBlocked]

theorem testLock_isLock (lock : ToMutex Thread) (thread : Thread) (depth : ℕ) (msec : ℤ) :
    (lock.testLock thread depth msec).isLock = true := by
  unfold testLock
  split_ifs with hlock
  all_goals first | exact hlock | rfl

theorem expired_isLock (lock : ToMutex Thread) (thread : Thread) (depth : ℕ) :
    (lock.expired thread depth).isLock = true := by
  unfold expired
  split_ifs with hlock
  · exact hlock
  · rfl

theorem advance_attended (hconsistent : lock.Consistent) (hattended : lock.Attended)
    (hadvance : lock.advance thread = some next) : next.Attended := by
  unfold advance at hadvance
  rcases hown : lock.threads thread with ⟨depth, place⟩
  rw [hown] at hadvance
  cases place with
  | enterLock | enterUnlock =>
    simp only at hadvance
    split_ifs at hadvance
    obtain rfl := Option.some.inj hadvance
    exact hattended.update hown rfl rfl rfl id
  | testLock =>
    exact Option.some.inj hadvance ▸ attended_of_isLock (testLock_isLock _ _ _ _)
  | startWait =>
    obtain rfl := Option.some.inj hadvance
    have hstarts : (lock.threads thread).StartsWait := hown ▸ trivial
    exact attended_of_isLock (hconsistent.startsWait thread hstarts)
  | woken msec reason =>
    simp only at hadvance
    split_ifs at hadvance
    obtain rfl := Option.some.inj hadvance
    cases reason <;> exact hattended.update hown rfl rfl rfl id
  | expired => exact Option.some.inj hadvance ▸ attended_of_isLock (expired_isLock _ _ _)
  | leaveLock result =>
    obtain rfl := Option.some.inj hadvance
    exact hattended.update hown rfl rfl rfl fun hattends ↦ absurd hattends not_false
  | decrement =>
    obtain rfl := Option.some.inj hadvance
    exact fun _ ↦ Or.inr ⟨thread, by rw [decrement, set_self]; trivial⟩
  | leaveUnlock =>
    obtain rfl := Option.some.inj hadvance
    exact hattended.update hown rfl rfl rfl id
  | readFlag =>
    obtain rfl := Option.some.inj hadvance
    split_ifs with hfree
    · exact hattended.update hown rfl rfl rfl id
    · exact attended_of_isLock (Bool.eq_true_of_not_eq_false hfree)
  | outside | blocked | notify | asserted => cases hadvance

theorem signal_attended {woken : Option Thread} (hconsistent : lock.Consistent)
    (hsignal : lock.signal thread woken = some next) : next.Attended := by
  obtain ⟨depth, hown, hwaits, hnone, rfl⟩ := signal_eq_some hsignal
  intro _
  cases woken with
  | none =>
    refine Or.inl ?_
    show lock.waiting.filter _ = []
    rw [hnone rfl, List.filter_nil]
  | some other =>
    have hblocked := (hconsistent.waiting other).mp (hwaits other rfl)
    have hne : other ≠ thread := fun hsame ↦ by
      rw [hsame, hown] at hblocked
      exact hblocked
    refine Or.inr ⟨other, ?_⟩
    rw [set_of_ne _ hne]
    show ToMutexThread.Attends (if other ∈ [other] then _ else _)
    rw [if_pos List.mem_cons_self]
    exact ToMutexThread.attends_wake hblocked

theorem step_attended {event : ToMutexEvent Thread} (hconsistent : lock.Consistent)
    (hstep : lock.step event = some next) (hattended : lock.Attended) : next.Attended := by
  cases event with
  | call thread operation =>
    obtain ⟨depth, hown, -, rfl⟩ := call_eq_some hstep
    exact hattended.update hown rfl rfl rfl fun hattends ↦ absurd hattends not_false
  | advance thread => exact advance_attended hconsistent hattended hstep
  | signal thread woken => exact signal_attended hconsistent hstep
  | wakeUp thread => exact wakeUp_eq_some hstep ▸ hattended.wake _ _
  | timeOut thread => exact timeOut_eq_some hstep ▸ hattended.wake _ _

end Attended

/-! ### Calls that fail -/

/-- A step of the thread leaves the fields of the lock as they are. -/
def Quiet (thread : Thread) (lock : ToMutex Thread) (event : ToMutexEvent Thread) : Prop :=
  event.thread = thread → ∀ next, lock.step event = some next → next.fields = lock.fields

/-- A call of `Lock` that returns false changes nothing: none of its steps changes a field of the
lock, and the thread is behind it as it was before. -/
def FailsQuietly (start : ToMutex Thread) (thread : Thread) : Prop :=
  ∀ msec later finish,
    (toMutexSystem Thread).run start (.call thread (.lock msec) :: later) = some finish →
    (∀ operation, .call thread operation ∉ later) →
    (finish.threads thread).place = .leaveLock false →
      (toMutexSystem Thread).Along (Quiet thread) start (.call thread (.lock msec) :: later) ∧
        ∃ next, finish.advance thread = some next ∧ next.fields = finish.fields ∧
          next.threads thread = start.threads thread

section Failing

variable {lock next : ToMutex Thread} {thread : Thread} {depth : ℕ}
  {later : List (ToMutexEvent Thread)}

/-- A step of a thread that is not woken changes the state of that thread only. -/
theorem threads_of_advance (hadvance : lock.advance thread = some next) :
    ∃ own, next.threads = Function.update lock.threads thread own := by
  unfold advance at hadvance
  rcases hown : lock.threads thread with ⟨depth, place⟩
  rw [hown] at hadvance
  cases place with
  | enterLock | woken | enterUnlock =>
    simp only at hadvance
    split_ifs at hadvance
    exact Option.some.inj hadvance ▸ ⟨_, rfl⟩
  | testLock =>
    obtain rfl := Option.some.inj hadvance
    unfold testLock
    split_ifs <;> exact ⟨_, rfl⟩
  | expired =>
    obtain rfl := Option.some.inj hadvance
    unfold expired
    split_ifs <;> exact ⟨_, rfl⟩
  | startWait | leaveLock | decrement | leaveUnlock | readFlag =>
    exact Option.some.inj hadvance ▸ ⟨_, rfl⟩
  | outside | blocked | notify | asserted => cases hadvance

/-- What holds of the state of a thread, also when it is woken, holds when some threads are. -/
theorem wake_threads {property : ToMutexThread → Prop}
    (hwake : ∀ own reason, property own → property (own.wake reason)) (woken : List Thread)
    (reason : WakeReason) (hproperty : property (lock.threads thread)) :
    property ((lock.wake woken reason).threads thread) := by
  show property (if _ then _ else _)
  split_ifs
  · exact hwake _ reason hproperty
  · exact hproperty

/-- It also holds behind the steps of others. -/
theorem step_threads_other {property : ToMutexThread → Prop} {event : ToMutexEvent Thread}
    (hwake : ∀ own reason, property own → property (own.wake reason))
    (hne : event.thread ≠ thread) (hstep : lock.step event = some next)
    (hproperty : property (lock.threads thread)) : property (next.threads thread) := by
  cases event with
  | call other operation =>
    obtain ⟨depth, -, -, rfl⟩ := call_eq_some hstep
    rwa [set_of_ne _ (show thread ≠ other from Ne.symm hne)]
  | advance other =>
    obtain ⟨own, hthreads⟩ := threads_of_advance hstep
    have hsame : next.threads thread = lock.threads thread := by
      rw [hthreads]
      exact Function.update_of_ne (Ne.symm hne) _ _
    rwa [hsame]
  | signal other woken =>
    obtain ⟨depth, -, -, -, rfl⟩ := signal_eq_some hstep
    rw [set_of_ne _ (show thread ≠ other from Ne.symm hne)]
    exact wake_threads hwake _ _ hproperty
  | wakeUp other => exact wakeUp_eq_some hstep ▸ wake_threads hwake _ _ hproperty
  | timeOut other => exact timeOut_eq_some hstep ▸ wake_threads hwake _ _ hproperty

/-- A step in `Lock` changes no field, or the thread has taken the lock or returned behind it. -/
theorem advance_onLock (honLock : (lock.threads thread).OnLock depth)
    (hadvance : lock.advance thread = some next) :
    next.fields = lock.fields ∧ (next.threads thread).OnLock depth ∨
      (next.threads thread).IsDone := by
  unfold advance at hadvance
  rcases hown : lock.threads thread with ⟨depth, place⟩
  rw [hown] at hadvance honLock
  obtain ⟨rfl, hplace⟩ := honLock
  have hgoesOn (base : ToMutex Thread) {own : ToMutexThread} (hown : own.OnLock depth) :
      ((base.set thread own).threads thread).OnLock depth := by rwa [set_self]
  have hdone (base : ToMutex Thread) {own : ToMutexThread} (hown : own.IsDone) :
      ((base.set thread own).threads thread).IsDone := by rwa [set_self]
  cases place with
  | enterLock =>
    simp only at hadvance
    split_ifs at hadvance
    exact Option.some.inj hadvance ▸ Or.inl ⟨rfl, hgoesOn _ ⟨rfl, trivial⟩⟩
  | woken msec reason =>
    simp only at hadvance
    split_ifs at hadvance
    cases reason <;> exact Option.some.inj hadvance ▸ Or.inl ⟨rfl, hgoesOn _ ⟨rfl, trivial⟩⟩
  | testLock =>
    obtain rfl := Option.some.inj hadvance
    unfold testLock
    split_ifs
    · exact Or.inr (hdone _ trivial)
    · exact Or.inl ⟨rfl, hgoesOn _ ⟨rfl, trivial⟩⟩
    · exact Or.inl ⟨rfl, hgoesOn _ ⟨rfl, trivial⟩⟩
    · exact Or.inr (hdone _ trivial)
  | startWait => exact Option.some.inj hadvance ▸ Or.inl ⟨rfl, hgoesOn _ ⟨rfl, trivial⟩⟩
  | expired =>
    obtain rfl := Option.some.inj hadvance
    unfold expired
    split_ifs
    · exact Or.inl ⟨rfl, hgoesOn _ ⟨rfl, trivial⟩⟩
    · exact Or.inr (hdone _ trivial)
  | leaveLock => exact Option.some.inj hadvance ▸ Or.inr (hdone _ trivial)
  | blocked | asserted => cases hadvance
  | outside | enterUnlock | decrement | leaveUnlock | readFlag | notify => cases hplace

theorem advance_isDone (hdone : (lock.threads thread).IsDone)
    (hadvance : lock.advance thread = some next) : (next.threads thread).IsDone := by
  unfold advance at hadvance
  rcases hown : lock.threads thread with ⟨depth, place⟩
  rw [hown] at hadvance hdone
  cases place with
  | leaveLock =>
    obtain rfl := Option.some.inj hadvance
    rw [set_self]
    trivial
  | outside => cases hadvance
  | _ => cases hdone

theorem signal_ne_some {woken : Option Thread} (hplace : (lock.threads thread).place ≠ .notify) :
    lock.signal thread woken ≠ some next := by
  intro hsignal
  obtain ⟨depth, hown, -⟩ := signal_eq_some hsignal
  exact hplace (by rw [hown])

theorem step_onLock {event : ToMutexEvent Thread}
    (hcall : ∀ operation, event ≠ .call thread operation) (hstep : lock.step event = some next)
    (honLock : (lock.threads thread).OnLock depth) :
    Quiet thread lock event ∧ (next.threads thread).OnLock depth ∨
      (next.threads thread).IsDone := by
  have hquiet (hfields : next.fields = lock.fields) : Quiet thread lock event :=
    fun _ other hother ↦ Option.some.inj (hstep.symm.trans hother) ▸ hfields
  have hwake (own : ToMutexThread) (reason : WakeReason) (hown : own.OnLock depth) :
      (own.wake reason).OnLock depth := hown.wake reason
  by_cases hthread : event.thread = thread
  · subst hthread
    cases event with
    | call other operation => exact absurd rfl (hcall operation)
    | advance other =>
      exact (advance_onLock honLock hstep).imp_left fun ⟨hfields, hnext⟩ ↦ ⟨hquiet hfields, hnext⟩
    | signal other woken => exact absurd hstep (signal_ne_some honLock.place_ne_notify)
    | wakeUp other =>
      obtain rfl := wakeUp_eq_some hstep
      exact Or.inl ⟨hquiet rfl, wake_threads hwake _ _ honLock⟩
    | timeOut other =>
      obtain rfl := timeOut_eq_some hstep
      exact Or.inl ⟨hquiet rfl, wake_threads hwake _ _ honLock⟩
  · exact Or.inl ⟨fun hsame ↦ absurd hsame hthread,
      step_threads_other hwake hthread hstep honLock⟩

theorem step_isDone {event : ToMutexEvent Thread}
    (hcall : ∀ operation, event ≠ .call thread operation) (hstep : lock.step event = some next)
    (hdone : (lock.threads thread).IsDone) : (next.threads thread).IsDone := by
  have hwake (own : ToMutexThread) (reason : WakeReason) (hown : own.IsDone) :
      (own.wake reason).IsDone := hown.wake reason
  by_cases hthread : event.thread = thread
  · subst hthread
    cases event with
    | call other operation => exact absurd rfl (hcall operation)
    | advance other => exact advance_isDone hdone hstep
    | signal other woken => exact absurd hstep (signal_ne_some hdone.place_ne_notify)
    | wakeUp other => exact wakeUp_eq_some hstep ▸ wake_threads hwake _ _ hdone
    | timeOut other => exact timeOut_eq_some hstep ▸ wake_threads hwake _ _ hdone
  · exact step_threads_other hwake hthread hstep hdone

theorem run_isDone {finish : ToMutex Thread} (hcall : ∀ operation, .call thread operation ∉ later)
    (hrun : (toMutexSystem Thread).run lock later = some finish)
    (hdone : (lock.threads thread).IsDone) : (finish.threads thread).IsDone := by
  induction later generalizing lock with
  | nil => exact Option.some.inj hrun ▸ hdone
  | cons event later ih =>
    obtain ⟨next, hstep, hlater⟩ := EventSystem.run_cons.mp hrun
    have hcallNow (operation : ToMutexOperation) : event ≠ .call thread operation := fun hsame ↦
      hcall operation (hsame ▸ List.mem_cons_self)
    exact ih (fun operation hmem ↦ hcall operation (List.mem_cons_of_mem event hmem)) hlater
      (step_isDone hcallNow hstep hdone)

/-- Along a call that is about to return false no step of the thread changes a field. -/
theorem run_onLock {finish : ToMutex Thread} (hcall : ∀ operation, .call thread operation ∉ later)
    (hrun : (toMutexSystem Thread).run lock later = some finish)
    (honLock : (lock.threads thread).OnLock depth)
    (hplace : (finish.threads thread).place = .leaveLock false) :
    (toMutexSystem Thread).Along (Quiet thread) lock later ∧
      (finish.threads thread).OnLock depth := by
  induction later generalizing lock with
  | nil => exact ⟨trivial, Option.some.inj hrun ▸ honLock⟩
  | cons event later ih =>
    obtain ⟨next, hstep, hlater⟩ := EventSystem.run_cons.mp hrun
    have hcallNow (operation : ToMutexOperation) : event ≠ .call thread operation := fun hsame ↦
      hcall operation (hsame ▸ List.mem_cons_self)
    have hcallLater (operation : ToMutexOperation) : .call thread operation ∉ later := fun hmem ↦
      hcall operation (List.mem_cons_of_mem event hmem)
    rcases step_onLock hcallNow hstep honLock with ⟨hquiet, hnext⟩ | hdone
    · obtain ⟨hrest, hend⟩ := ih hcallLater hlater hnext
      exact ⟨⟨hquiet, fun other hother ↦ Option.some.inj (hstep.symm.trans hother) ▸ hrest⟩, hend⟩
    · have hend := run_isDone hcallLater hlater hdone
      rw [ToMutexThread.IsDone, hplace] at hend
      exact absurd hend not_false

theorem failsQuietly (start : ToMutex Thread) (thread : Thread) : start.FailsQuietly thread := by
  intro msec later finish hrun hcall hplace
  obtain ⟨next, hstep, hlater⟩ := EventSystem.run_cons.mp hrun
  obtain ⟨depth, hown, -, rfl⟩ := call_eq_some hstep
  have honLock : ((start.set thread ⟨depth, .enterLock msec⟩).threads thread).OnLock depth := by
    rw [set_self]
    exact ⟨rfl, trivial⟩
  obtain ⟨hquiet, hend⟩ := run_onLock hcall hlater honLock hplace
  refine ⟨⟨fun _ other hother ↦ Option.some.inj (hstep.symm.trans hother) ▸ rfl,
    fun other hother ↦ Option.some.inj (hstep.symm.trans hother) ▸ hquiet⟩, ?_⟩
  rcases hfinish : finish.threads thread with ⟨depth', place⟩
  rw [hfinish] at hplace hend
  obtain rfl : place = .leaveLock false := hplace
  obtain rfl : depth' = depth := hend.1
  refine ⟨{ finish with mutex := none }.set thread ⟨depth', .outside⟩, ?_, rfl, ?_⟩
  · unfold advance
    rw [hfinish]
    rfl
  · rw [set_self, hown]

end Failing

/-! ### Runs -/

/-- What holds in every state of a run in which the number of locks does not overflow. -/
structure Regular (lock : ToMutex Thread) : Prop where
  consistent : lock.Consistent
  attended : lock.Attended

theorem step_regular {lock next : ToMutex Thread} {event : ToMutexEvent Thread}
    (hgood : lock.CountsWithin event) (hstep : lock.step event = some next)
    (hregular : lock.Regular) : next.Regular :=
  ⟨step_consistent hgood hstep hregular.consistent,
    step_attended hregular.consistent hstep hregular.attended⟩

end ToMutex

/-- In every state that is reached without an overflow of the number of locks, the lock is sound,
and a call of `Lock` that returns false changes nothing. -/
theorem toMutex_sound {Thread : Type*} [DecidableEq Thread] (events : List (ToMutexEvent Thread))
    (lock : ToMutex Thread)
    (halong : (toMutexSystem Thread).Along ToMutex.CountsWithin ToMutex.initial events)
    (hrun : (toMutexSystem Thread).run ToMutex.initial events = some lock) :
    lock.Sound ∧ ∀ thread, lock.FailsQuietly thread := by
  have hinitial : (ToMutex.initial : ToMutex Thread).Regular :=
    ⟨ToMutex.consistent_initial, fun _ ↦ Or.inl rfl⟩
  have hregular := EventSystem.run_invariant_of_along
    (fun _ _ _ hgood hstep ↦ ToMutex.step_regular hgood hstep) halong hrun hinitial
  exact ⟨hregular.consistent.sound hregular.attended, ToMutex.failsQuietly lock⟩

/-- A thread holds the lock twice. -/
def heldTwice : List (ToMutexEvent ℕ) :=
  .call 0 (.lock 10) :: List.replicate 3 (.advance 0) ++
    .call 0 (.lock 10) :: List.replicate 3 (.advance 0)

/-- Of two threads that wait the first one times out. -/
def timedOut : List (ToMutexEvent ℕ) :=
  List.replicate 3 (.advance 1) ++ .call 2 (.lock 0) :: List.replicate 3 (.advance 2) ++
    .timeOut 1 :: List.replicate 2 (.advance 1)

/-- The other one is notified by the second `Unlock` and takes the lock. -/
def handedOver : List (ToMutexEvent ℕ) :=
  heldTwice ++ .call 1 (.lock 10) :: timedOut ++ .advance 1 ::
    .call 0 .unlock :: List.replicate 4 (.advance 0) ++
    .call 0 .unlock :: List.replicate 4 (.advance 0) ++
    .signal 0 (some 2) :: List.replicate 3 (.advance 2)

/-- The lock is handed over to the thread that waits for it, and the call of the thread that timed
out leaves the lock as it was when it was made. -/
theorem toMutex_sound_handedOver :
    (∃ lock, (toMutexSystem ℕ).run ToMutex.initial handedOver = some lock ∧
      lock.threads 1 = ⟨0, .outside⟩ ∧ lock.threads 2 = ⟨1, .outside⟩ ∧ lock.Sound) ∧
    ∃ start finish, (toMutexSystem ℕ).run ToMutex.initial heldTwice = some start ∧
      (toMutexSystem ℕ).run start (.call 1 (.lock 10) :: timedOut) = some finish ∧
      (toMutexSystem ℕ).Along (ToMutex.Quiet 1) start (.call 1 (.lock 10) :: timedOut) ∧
      ∃ next, finish.advance 1 = some next ∧ next.fields = finish.fields ∧
        next.threads 1 = start.threads 1 := by
  constructor
  · exact ⟨_, rfl, rfl, rfl, (toMutex_sound handedOver _ (by decide +kernel) rfl).1⟩
  · obtain ⟨start, finish, hrun, hlater, hplace⟩ : ∃ start finish,
        (toMutexSystem ℕ).run ToMutex.initial heldTwice = some start ∧
          (toMutexSystem ℕ).run start (.call 1 (.lock 10) :: timedOut) = some finish ∧
          (finish.threads 1).place = .leaveLock false := ⟨_, _, rfl, rfl, rfl⟩
    obtain ⟨-, hquietly⟩ := toMutex_sound heldTwice start (by decide +kernel) hrun
    exact ⟨start, finish, hrun, hlater,
      hquietly 1 10 timedOut finish hlater (by simp [timedOut]) hplace⟩

/-! ### Counting beyond the type -/

section Overflow

variable {Thread : Type*} [DecidableEq Thread]

/-- The steps of a call of `Lock` by a thread that does not wait. -/
def lockOnce (thread : Thread) : List (ToMutexEvent Thread) :=
  .call thread (.lock 0) :: List.replicate 3 (.advance thread)

/-- The thread holds the lock, at some place and with some number of locks. -/
structure HoldsAt (thread : Thread) (own : ToMutexThread) (mutex : Option Thread) (counts : ℤ)
    (lock : ToMutex Thread) : Prop where
  threads : lock.threads thread = own
  mutex : lock.mutex = mutex
  isLock : lock.isLock = true
  tid : lock.tid = some thread
  counts : lock.counts = counts

variable {lock : ToMutex Thread} {thread : Thread} {depth : ℕ} {counts : ℤ}

theorem HoldsAt.call (hholds : HoldsAt thread ⟨depth, .outside⟩ none counts lock) :
    ∃ next, lock.call thread (.lock 0) = some next ∧
      HoldsAt thread ⟨depth, .enterLock 0⟩ none counts next := by
  obtain ⟨hthreads, hmutex, hlock, htid, hcounts⟩ := hholds
  refine ⟨lock.set thread ⟨depth, .enterLock 0⟩, ?_, ToMutex.set_self _ _ _, hmutex, hlock, htid,
    hcounts⟩
  unfold ToMutex.call
  rw [hthreads]
  rfl

theorem HoldsAt.enterLock (hholds : HoldsAt thread ⟨depth, .enterLock 0⟩ none counts lock) :
    ∃ next, lock.advance thread = some next ∧
      HoldsAt thread ⟨depth, .testLock 0 false⟩ (some thread) counts next := by
  obtain ⟨hthreads, hmutex, hlock, htid, hcounts⟩ := hholds
  refine ⟨_, ?_, ToMutex.set_self { lock with mutex := some thread } _ _, rfl, hlock, htid, hcounts⟩
  unfold ToMutex.advance
  rw [hthreads]
  exact if_pos hmutex

theorem HoldsAt.testLock
    (hholds : HoldsAt thread ⟨depth, .testLock 0 false⟩ (some thread) counts lock) :
    ∃ next, lock.advance thread = some next ∧
      HoldsAt thread ⟨depth, .leaveLock true⟩ (some thread) (toInt32 (counts + 1)) next := by
  obtain ⟨hthreads, hmutex, hlock, htid, rfl⟩ := hholds
  refine ⟨_, ?_, ToMutex.set_self { lock with counts := toInt32 (lock.counts + 1) } _ _, hmutex,
    hlock, htid, rfl⟩
  unfold ToMutex.advance
  rw [hthreads]
  show some (lock.testLock thread depth 0) = _
  rw [ToMutex.testLock, if_pos hlock, if_pos htid]

theorem HoldsAt.leaveLock
    (hholds : HoldsAt thread ⟨depth, .leaveLock true⟩ (some thread) counts lock) :
    ∃ next, lock.advance thread = some next ∧
      HoldsAt thread ⟨depth + 1, .outside⟩ none counts next := by
  obtain ⟨hthreads, hmutex, hlock, htid, hcounts⟩ := hholds
  refine ⟨_, ?_, ToMutex.set_self { lock with mutex := none } _ _, rfl, hlock, htid, hcounts⟩
  unfold ToMutex.advance
  rw [hthreads]
  rfl

theorem HoldsAt.run_lockOnce (hholds : HoldsAt thread ⟨depth, .outside⟩ none counts lock) :
    ∃ next, (toMutexSystem Thread).run lock (lockOnce thread) = some next ∧
      HoldsAt thread ⟨depth + 1, .outside⟩ none (toInt32 (counts + 1)) next := by
  obtain ⟨called, hcall, hcalled⟩ := hholds.call
  obtain ⟨entered, henter, hentered⟩ := hcalled.enterLock
  obtain ⟨tested, htest, htested⟩ := hentered.testLock
  obtain ⟨next, hleave, hnext⟩ := htested.leaveLock
  exact ⟨next, EventSystem.run_cons.mpr ⟨called, hcall, EventSystem.run_cons.mpr ⟨entered, henter,
    EventSystem.run_cons.mpr ⟨tested, htest, EventSystem.run_cons.mpr ⟨next, hleave, rfl⟩⟩⟩⟩, hnext⟩

/-- The number of locks is counted in 32 bits with a sign. -/
theorem HoldsAt.run_lockTimes (more : ℕ)
    (hholds : HoldsAt thread ⟨depth, .outside⟩ none (toInt32 depth) lock) :
    ∃ next, (toMutexSystem Thread).run lock (List.replicate more (lockOnce thread)).flatten =
        some next ∧
      HoldsAt thread ⟨depth + more, .outside⟩ none (toInt32 (depth + more : ℕ)) next := by
  induction more generalizing lock depth with
  | zero => exact ⟨lock, rfl, hholds⟩
  | succ more ih =>
    obtain ⟨middle, hfirst, hmiddle⟩ := hholds.run_lockOnce
    have hcounts : toInt32 (toInt32 depth + 1) = toInt32 (depth + 1 : ℕ) := by
      have hremainder := toInt32_emod depth
      exact toInt32_congr (by omega)
    rw [hcounts] at hmiddle
    obtain ⟨next, hrest, hnext⟩ := ih hmiddle
    refine ⟨next, ?_, by rwa [Nat.add_right_comm, Nat.add_assoc] at hnext⟩
    rw [List.replicate_succ, List.flatten_cons]
    exact EventSystem.run_append.mpr ⟨middle, hfirst, hrest⟩

/-- A thread that has locked `2 ^ 31` times holds the lock, and the number of locks is negative. -/
theorem toMutex_not_sound :
    ∃ lock, (toMutexSystem ℕ).run ToMutex.initial
        (List.replicate 2147483648 (lockOnce 0)).flatten = some lock ∧
      lock.counts = -2147483648 ∧ ¬ lock.Sound := by
  obtain ⟨once, hfirst, honce⟩ : ∃ once,
      (toMutexSystem ℕ).run ToMutex.initial (lockOnce 0) = some once ∧
        HoldsAt 0 ⟨1, .outside⟩ none (toInt32 (1 : ℕ)) once :=
    ⟨_, rfl, rfl, rfl, rfl, rfl, rfl⟩
  obtain ⟨lock, hrest, hholds⟩ := honce.run_lockTimes 2147483647
  have hcounts : lock.counts = -2147483648 := hholds.counts.trans (by decide)
  refine ⟨lock, ?_, hcounts, fun hsound ↦ ?_⟩
  · rw [show 2147483648 = 2147483647 + 1 from rfl, List.replicate_succ, List.flatten_cons]
    exact EventSystem.run_append.mpr ⟨once, hfirst, hrest⟩
  · have hnonneg := hsound.nonneg
    omega

end Overflow

end RocketMQClient.Kpr
