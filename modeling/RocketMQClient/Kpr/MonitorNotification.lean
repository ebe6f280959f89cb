import RocketMQClient.Kpr.MonitorExclusion

/-!
# Notifications of the recursive monitor

`Notify` counts, and the owner sends as many signals when it gives the lock up: in its last `Unlock`
and in `Wait`. While it owns the lock nobody else changes the count, and nobody begins to wait. So
each notification has woken a thread when the owner gives the lock up, or no thread waits any more
(`LosesNoNotify`).

`monitor_sound` is this together with the exclusion of the threads and the number of locks, which
`Wait` restores, for all runs in which neither of the two counters overflows. A thread that locks
`2 ^ 32` times sees the number of locks start again from zero (`monitor_not_sound`).

The argument follows one owner. `Delivers` counts its calls of `Notify` and its signals since a
state in which it owned the lock: what it still has to send is `pending`, and each of its signals
lowers it by one. The steps of the other threads leave the owner `Undisturbed` (`step_undisturbed`),
and each of its own steps is a case of `step_delivers`. Of a wait only the depth is followed: its
caller is in `Wait` or behind it (`OnWait`) until it comes back.
-/

set_option autoImplicit false
set_option relaxedAutoImplicit false

namespace RocketMQClient.Kpr

open Library

namespace ThreadState

/-- The owner between two calls or in one, up to the point where it gives the lock up. -/
def IsActive (own : ThreadState) : Prop :=
  match own.place with
  | .outside | .enterLock .lock _ | .locked .lock _ | .readCount | .notifying _ _ | .enterUnlock
  | .validateOwner _ | .counting _ | .resetCount _ | .asserted => 0 < own.depth
  | _ => False

/-- The signals that the owner has to send before it gives the lock up, or `-1` for all. -/
def pending (own : ThreadState) (notifyCount : ℤ) : ℤ :=
  match own.place with
  | .notifying _ nnotify => nnotify
  | .resetCount _ | .asserted => 0
  | .enterUnlock => if own.depth = 1 then 0 else notifyCount
  | _ => notifyCount

/-- The thread is in `Wait` or behind it. -/
def OnWait (depth : ℕ) (own : ThreadState) : Prop :=
  own.depth = depth ∧
    match own.place with
    | .validateOwner (.wait _) | .notifying (.wait _) _ | .resetCount _ | .startWait _ _
    | .blocked _ _ | .woken _ | .endWait _ | .enterLock .conditionHelper _
    | .takeMutex .conditionHelper | .leaveLock .conditionHelper | .spinLock .conditionHelper _
    | .spinUnlock .conditionHelper _ | .locked .conditionHelper _ | .outside | .asserted => True
    | _ => False

/-- The calls of `Notify` that have not been counted yet. -/
def announced (own : ThreadState) : ℕ :=
  match own.place with
  | .validateOwner .notify | .counting false => 1
  | _ => 0

/-- The thread is about to give the lock up, in its last `Unlock` or in `Wait`. -/
def GivesUp (own : ThreadState) : Prop :=
  match own.place with
  | .enterUnlock => own.depth = 1
  | .resetCount _ => True
  | _ => False

theorem IsActive.holds {own : ThreadState} (hactive : own.IsActive) (hsane : own.Sane) :
    0 < own.held ∧ own.HoldsMutex := by
  refine IsInside.holds ?_ hsane
  obtain ⟨depth, place⟩ := own
  cases place with
  | enterLock caller | locked caller =>
    cases caller with
    | lock => exact ⟨hactive, trivial⟩
    | conditionHelper => cases hactive
  | outside | readCount | notifying | enterUnlock | validateOwner | counting | resetCount
  | asserted => exact ⟨hactive, trivial⟩
  | _ => cases hactive

/-- Who is about to give the lock up has no signal to send. -/
theorem GivesUp.pending {own : ThreadState} (hgives : own.GivesUp) (hsane : own.Sane)
    (notifyCount : ℤ) : 0 < own.held ∧ own.pending notifyCount = 0 ∧ own.announced = 0 := by
  obtain ⟨depth, place⟩ := own
  cases place with
  | enterUnlock => exact ⟨hsane.2, if_pos hgives, rfl⟩
  | resetCount => exact ⟨hsane.2, rfl, rfl⟩
  | _ => cases hgives

theorem OnWait.wake {own : ThreadState} {depth : ℕ} (hwait : own.OnWait depth) :
    own.wake.OnWait depth := by
  obtain ⟨depth, place⟩ := own
  cases place <;> exact hwait

theorem depth_pos_of_notifying {depth : ℕ} {caller : NotifyCaller} {nnotify : ℤ}
    (hsane : Sane ⟨depth, .notifying caller nnotify⟩) : 0 < depth := by
  cases caller with
  | unlock =>
    rw [show depth = 1 from hsane.2]
    exact Nat.one_pos
  | wait => exact hsane.2

/-- Behind its last signal the owner has none to send. -/
theorem pending_next {depth : ℕ} {caller : NotifyCaller} {nnotify : ℤ}
    (hsane : Sane ⟨depth, .notifying caller nnotify⟩) (notifyCount : ℤ) :
    IsActive ⟨depth, caller.next⟩ ∧ pending ⟨depth, caller.next⟩ notifyCount = 0 ∧
      announced ⟨depth, caller.next⟩ = 0 := by
  have hdepth := depth_pos_of_notifying hsane
  cases caller with
  | unlock => exact ⟨hdepth, if_pos hsane.2, rfl⟩
  | wait timeout =>
    rcases NotifyCaller.next_wait timeout with hnext | hnext <;> rw [hnext] <;>
      exact ⟨hdepth, rfl, rfl⟩

end ThreadState

namespace Monitor

variable {Thread : Type*}

/-- Neither the number of locks nor that of notifications overflows. -/
def CountsWithin (monitor : Monitor Thread) : MonitorEvent Thread → Prop
  | .call thread .lock => (monitor.threads thread).depth + 1 < 4294967296
  | .advance thread =>
    (monitor.threads thread).place = .counting false → monitor.notifyCount < 2147483647
  | _ => True

instance (monitor : Monitor Thread) (event : MonitorEvent Thread) :
    Decidable (monitor.CountsWithin event) :=
  match event with
  | .call _ .lock => inferInstanceAs (Decidable (_ < (_ : ℕ)))
  | .advance thread => inferInstanceAs (Decidable
    ((monitor.threads thread).place = .counting false → monitor.notifyCount < 2147483647))
  | .call _ .unlock | .call _ (.byOwner _) | .signal _ _ | .wakeUp _ | .timeOut _ =>
    inferInstanceAs (Decidable True)

/-- A step leaves the state of a thread and the number of notifications as they were, and no thread
begins to wait. -/
structure Undisturbed (thread : Thread) (monitor next : Monitor Thread) : Prop where
  threads_eq : next.threads thread = monitor.threads thread
  notifyCount_eq : next.notifyCount = monitor.notifyCount
  waiting : monitor.waiting = [] → next.waiting = []

/-- The owner has woken a thread for each notification that it does not still have to send, or no
thread waits. -/
structure Delivers (notifier : Thread) (notifies wakes : ℕ) (monitor : Monitor Thread) : Prop where
  active : (monitor.threads notifier).IsActive
  lower : -1 ≤ (monitor.threads notifier).pending monitor.notifyCount
  delivered : monitor.waiting = [] ∨
    (monitor.threads notifier).pending monitor.notifyCount = -1 ∨
    (notifies : ℤ) ≤ wakes + (monitor.threads notifier).pending monitor.notifyCount +
      (monitor.threads notifier).announced

section Delivers

variable {monitor next : Monitor Thread} {notifier : Thread} {notifies wakes : ℕ}
  {own old : ThreadState}

theorem Delivers.undisturbed (hdelivers : Delivers notifier notifies wakes monitor)
    (hnext : Undisturbed notifier monitor next) : Delivers notifier notifies wakes next := by
  obtain ⟨hactive, hlower, hdelivered⟩ := hdelivers
  rw [← hnext.threads_eq] at hactive
  rw [← hnext.threads_eq, ← hnext.notifyCount_eq] at hlower hdelivered
  exact ⟨hactive, hlower, hdelivered.imp_left hnext.waiting⟩

/-- The owner moves without a change of what it has to send. -/
theorem Delivers.move (hdelivers : Delivers notifier notifies wakes monitor)
    (hown : monitor.threads notifier = old) (hthreads : next.threads notifier = own)
    (hwaiting : next.waiting = monitor.waiting) (hactive : own.IsActive)
    (hpending : own.pending next.notifyCount = old.pending monitor.notifyCount)
    (hannounced : own.announced = old.announced) : Delivers notifier notifies wakes next := by
  obtain ⟨-, hlower, hdelivered⟩ := hdelivers
  rw [hown, ← hpending] at hlower hdelivered
  rw [← hannounced, ← hwaiting] at hdelivered
  exact ⟨by rwa [hthreads], by rwa [hthreads], by rwa [hthreads]⟩

end Delivers

theorem locksWithin_of_countsWithin {monitor : Monitor Thread} {event : MonitorEvent Thread}
    (hgood : monitor.CountsWithin event) : monitor.LocksWithin event := by
  rcases event with ⟨thread, _ | _ | _⟩ | _ | _ | _ | _
  · exact hgood
  all_goals trivial

/-- What holds in every state of a run in which the counters do not overflow. -/
structure Regular (monitor : Monitor Thread) : Prop where
  consistent : monitor.Consistent
  lower : -1 ≤ monitor.notifyCount

theorem regular_initial : (initial : Monitor Thread).Regular :=
  ⟨consistent_initial, show (-1 : ℤ) ≤ 0 by decide⟩

variable [DecidableEq Thread]

/-- A call of `Notify` by a thread. -/
def isNotify (notifier : Thread) (event : MonitorEvent Thread) : Bool :=
  decide (event = .call notifier (.byOwner .notify))

/-- A signal of a thread that wakes a thread. -/
def isWake (notifier : Thread) : MonitorEvent Thread → Bool
  | .signal thread (some _) => decide (thread = notifier)
  | _ => false

/-! ### The steps of a thread -/

/-- The steps of a thread that change more than its state and the fields of the mutex. -/
inductive Advances (thread : Thread) (monitor next : Monitor Thread) : Prop
  | quiet (own : ThreadState) (hthreads : next.threads = Function.update monitor.threads thread own)
    (hnotifyCount : next.notifyCount = monitor.notifyCount)
    (hwaiting : next.waiting = monitor.waiting)
  | locked (depth : ℕ) (caller : LockCaller) (rc : Bool)
    (hown : monitor.threads thread = ⟨depth, .locked caller rc⟩)
    (hnext : next = monitor.locked thread depth caller rc)
  | notify (depth : ℕ) (caller : NotifyCaller) (nnotify : ℤ)
    (hown : monitor.threads thread = ⟨depth, .notifying caller nnotify⟩)
    (hnext : monitor.notify thread depth caller nnotify = some next)
  | counting (own : ThreadState) (depth : ℕ) (all : Bool)
    (hown : monitor.threads thread = ⟨depth, .counting all⟩)
    (hthreads : next.threads = Function.update monitor.threads thread own)
    (hnotifyCount : next.notifyCount = counted monitor.notifyCount all)
  | startWait (own : ThreadState) (depth : ℕ) (timeout : Option ℤ) (count : ℕ)
    (hown : monitor.threads thread = ⟨depth, .startWait timeout count⟩)
    (hthreads : next.threads = Function.update monitor.threads thread own)
    (hnotifyCount : next.notifyCount = monitor.notifyCount)

section Steps

variable {monitor next : Monitor Thread} {thread other : Thread} {own : ThreadState}

theorem advances_of_advance (hadvance : monitor.advance thread = some next) :
    Advances thread monitor next := by
  unfold advance at hadvance
  rcases hown : monitor.threads thread with ⟨depth, place⟩
  rw [hown] at hadvance
  cases place with
  | enterLock caller count =>
    simp only at hadvance
    split_ifs at hadvance
    obtain rfl := Option.some.inj hadvance
    unfold enterLock
    split_ifs <;> exact .quiet _ rfl rfl rfl
  | takeMutex | spinLock | woken | resetCount =>
    simp only at hadvance
    split_ifs at hadvance
    obtain rfl := Option.some.inj hadvance
    exact .quiet _ rfl rfl rfl
  | validateOwner operation =>
    simp only at hadvance
    split_ifs at hadvance
    obtain rfl := Option.some.inj hadvance
    unfold validateOwner
    split_ifs <;> exact .quiet _ rfl rfl rfl
  | enterUnlock =>
    simp only at hadvance
    split_ifs at hadvance
    obtain rfl := Option.some.inj hadvance
    unfold enterUnlock
    split_ifs <;> exact .quiet _ rfl (by rw [set]) (by rw [set])
  | leaveLock | spinUnlock | readCount | releaseMutex | leaveUnlock | endWait =>
    obtain rfl := Option.some.inj hadvance
    exact .quiet _ rfl rfl rfl
  | locked caller rc => exact .locked depth caller rc hown (Option.some.inj hadvance).symm
  | notifying caller nnotify => exact .notify depth caller nnotify hown hadvance
  | counting all =>
    obtain rfl := Option.some.inj hadvance
    exact .counting _ depth all hown rfl rfl
  | startWait timeout count =>
    obtain rfl := Option.some.inj hadvance
    exact .startWait _ depth timeout count hown rfl rfl
  | outside | blocked | asserted => cases hadvance

/-! ### What the other threads do -/

theorem undisturbed_of_update (hne : other ≠ thread)
    (hthreads : next.threads = Function.update monitor.threads other own)
    (hnotifyCount : next.notifyCount = monitor.notifyCount)
    (hwaiting : next.waiting = monitor.waiting) : Undisturbed thread monitor next where
  threads_eq := by rw [hthreads, Function.update_of_ne hne.symm]
  notifyCount_eq := hnotifyCount
  waiting hnone := by rw [hwaiting, hnone]

/-- Waking threads makes none wait. -/
theorem waiting_wake (hnone : monitor.waiting = []) (woken : List Thread) :
    (monitor.wake woken).waiting = [] := by
  show monitor.waiting.filter _ = []
  rw [hnone, List.filter_nil]

theorem undisturbed_wake (hholds : (monitor.threads thread).HoldsMutex) (woken : List Thread) :
    Undisturbed thread monitor (monitor.wake woken) where
  threads_eq := by
    show (if _ then _ else _) = _
    rw [ThreadState.wake_of_holdsMutex hholds, ite_self]
  notifyCount_eq := rfl
  waiting hnone := waiting_wake hnone woken

theorem advance_undisturbed (hsane : (monitor.threads other).Sane)
    (hholds : ¬ (monitor.threads other).HoldsMutex) (hne : other ≠ thread)
    (hadvance : monitor.advance other = some next) : Undisturbed thread monitor next := by
  cases advances_of_advance hadvance with
  | quiet own hthreads hnotifyCount hwaiting =>
    exact undisturbed_of_update hne hthreads hnotifyCount hwaiting
  | locked depth caller rc hown =>
    rw [hown] at hholds hsane
    cases caller with
    | lock => exact absurd (Nat.succ_pos depth) hholds
    | conditionHelper => exact absurd hsane.2 hholds
  | notify depth caller nnotify hown =>
    rw [hown] at hholds hsane
    exact absurd (ThreadState.depth_pos_of_notifying hsane) hholds
  | counting own depth all hown =>
    rw [hown] at hholds hsane
    exact absurd hsane.2 hholds
  | startWait own depth timeout count hown =>
    rw [hown] at hholds
    exact absurd trivial hholds

/-- While a thread holds `m_mutex`, the steps of the others leave it undisturbed. -/
theorem step_undisturbed {event : MonitorEvent Thread} (hconsistent : monitor.Consistent)
    (hholds : (monitor.threads thread).HoldsMutex) (hne : event.thread ≠ thread)
    (hstep : monitor.step event = some next) : Undisturbed thread monitor next := by
  have hother : ¬ (monitor.threads event.thread).HoldsMutex := fun hboth ↦
    hne (hconsistent.mutex.unique hboth hholds)
  have hsane := hconsistent.sane event.thread
  cases event with
  | call other operation =>
    obtain ⟨depth, -, -, rfl⟩ := call_eq_some hstep
    exact undisturbed_of_update hne rfl rfl rfl
  | advance other => exact advance_undisturbed hsane hother hne hstep
  | signal other woken =>
    obtain ⟨depth, caller, nnotify, hown, -⟩ := signal_eq_some hstep
    rw [MonitorEvent.thread, hown] at hother hsane
    exact absurd (ThreadState.depth_pos_of_notifying hsane) hother
  | wakeUp other => exact wakeUp_eq_some hstep ▸ undisturbed_wake hholds _
  | timeOut other => exact timeOut_eq_some hstep ▸ undisturbed_wake hholds _

/-- The number of notifications is that of all or not below zero. -/
theorem counted_lower {notifyCount : ℤ} {all : Bool} (hlower : -1 ≤ notifyCount)
    (hsmall : all = false → notifyCount < 2147483647) :
    counted notifyCount all = -1 ∨
      all = false ∧ 0 ≤ notifyCount ∧ counted notifyCount all = notifyCount + 1 := by
  unfold counted
  cases all with
  | true => exact Or.inl rfl
  | false =>
    have hnext : toInt32 (notifyCount + 1) = notifyCount + 1 :=
      toInt32_eq_self (by omega) (by have := hsmall rfl; omega)
    by_cases hall : notifyCount = -1
    · exact Or.inl (if_neg (not_not.mpr hall) |>.trans hall)
    · exact Or.inr ⟨rfl, by omega, (if_pos hall).trans hnext⟩

theorem step_notifyCount {event : MonitorEvent Thread} (hgood : monitor.CountsWithin event)
    (hstep : monitor.step event = some next) (hlower : -1 ≤ monitor.notifyCount) :
    -1 ≤ next.notifyCount := by
  cases event with
  | call thread operation =>
    obtain ⟨depth, -, -, rfl⟩ := call_eq_some hstep
    exact hlower
  | advance thread =>
    cases advances_of_advance hstep with
    | quiet own hthreads hnotifyCount => rwa [hnotifyCount]
    | locked depth caller rc hown hnext =>
      rw [hnext]
      cases caller <;> cases rc <;> first | exact hlower | exact show (-1 : ℤ) ≤ 0 by decide
    | notify depth caller nnotify hown hnext =>
      unfold notify at hnext
      split_ifs at hnext <;> exact Option.some.inj hnext ▸ hlower
    | counting own depth all hown hthreads hnotifyCount =>
      rw [hnotifyCount]
      have hsmall : all = false → monitor.notifyCount < 2147483647 := fun hone ↦
        hgood (by rw [hown, hone])
      rcases counted_lower hlower hsmall with hall | ⟨-, hzero, hnext⟩ <;> omega
    | startWait own depth timeout count hown hthreads hnotifyCount => rwa [hnotifyCount]
  | signal thread woken =>
    obtain ⟨depth, caller, nnotify, -, -, -, -, rfl⟩ := signal_eq_some hstep
    exact hlower
  | wakeUp thread => exact wakeUp_eq_some hstep ▸ hlower
  | timeOut thread => exact timeOut_eq_some hstep ▸ hlower

end Steps

/-! ### What the owner does -/

section Owner

variable {monitor next : Monitor Thread} {notifier : Thread} {notifies wakes depth : ℕ}

theorem set_self (monitor : Monitor Thread) (thread : Thread) (own : ThreadState) :
    (monitor.set thread own).threads thread = own := Function.update_self _ _ _

theorem call_delivers {operation : Operation} (hdelivers : Delivers notifier notifies wakes monitor)
    (hcall : monitor.call notifier operation = some next) :
    Delivers notifier (notifies + if operation = .byOwner .notify then 1 else 0) wakes next := by
  obtain ⟨depth, hown, hunlock, rfl⟩ := call_eq_some hcall
  have hactive := hdelivers.active
  rw [hown] at hactive
  rcases operation with _ | _ | _ | _ | _
  · exact hdelivers.move hown (set_self _ _ _) rfl hactive rfl rfl
  · exact hdelivers.move hown (set_self _ _ _) rfl hactive rfl rfl
  · exact hdelivers.move hown (set_self _ _ _) rfl hactive rfl rfl
  · obtain ⟨-, hlower, hdelivered⟩ := hdelivers
    rw [hown] at hlower hdelivered
    refine ⟨by rwa [set_self], by rwa [set_self], ?_⟩
    rw [set_self]
    refine hdelivered.imp_right (Or.imp_right fun hcount ↦ ?_)
    have hcount : (notifies : ℤ) ≤ wakes + monitor.notifyCount + (0 : ℕ) := hcount
    show ((notifies + 1 : ℕ) : ℤ) ≤ wakes + monitor.notifyCount + (1 : ℕ)
    omega
  · exact hdelivers.move hown (set_self _ _ _) rfl hactive rfl rfl

theorem notify_delivers {caller : NotifyCaller} {nnotify : ℤ}
    (hdelivers : Delivers notifier notifies wakes monitor)
    (hsane : (monitor.threads notifier).Sane)
    (hown : monitor.threads notifier = ⟨depth, .notifying caller nnotify⟩)
    (hnotify : monitor.notify notifier depth caller nnotify = some next) :
    Delivers notifier notifies wakes next := by
  obtain ⟨-, hlower, hdelivered⟩ := hdelivers
  rw [hown] at hsane hlower hdelivered
  obtain ⟨hactive, hpending, hannounced⟩ := ThreadState.pending_next hsane monitor.notifyCount
  unfold notify at hnotify
  split_ifs at hnotify with hmore hall
  · obtain rfl := Option.some.inj hnotify
    refine ⟨by rwa [set_self], ?_, Or.inl ?_⟩
    · rw [set_self]
      exact hpending ▸ show (-1 : ℤ) ≤ 0 by decide
    · show monitor.waiting.filter _ = []
      simp
  · obtain rfl := Option.some.inj hnotify
    have hzero : nnotify = 0 := by
      have hlower : -1 ≤ nnotify := hlower
      omega
    subst hzero
    refine ⟨by rwa [set_self], ?_, ?_⟩
    · rw [set_self]
      exact hpending ▸ show (-1 : ℤ) ≤ 0 by decide
    · rw [set_self]
      refine hdelivered.imp_right fun hcount ↦ Or.inr ?_
      have hnotifyCount : (monitor.set notifier ⟨depth, caller.next⟩).notifyCount =
          monitor.notifyCount := rfl
      rw [hnotifyCount, hpending, hannounced]
      exact hcount.resolve_left (show (0 : ℤ) ≠ -1 by decide)

theorem signal_delivers {woken : Option Thread}
    (hdelivers : Delivers notifier notifies wakes monitor)
    (hsignal : monitor.signal notifier woken = some next) :
    Delivers notifier notifies (wakes + if woken = none then 0 else 1) next := by
  obtain ⟨depth, caller, nnotify, hown, hmore, -, hnone, rfl⟩ := signal_eq_some hsignal
  obtain ⟨hactive, -, hdelivered⟩ := hdelivers
  rw [hown] at hactive hdelivered
  refine ⟨by rwa [set_self], ?_, ?_⟩
  · rw [set_self]
    show -1 ≤ nnotify - 1
    omega
  · rw [set_self]
    cases woken with
    | none => exact Or.inl (waiting_wake (hnone rfl) _)
    | some other =>
      rcases hdelivered with hwaiting | hall | hcount
      · exact Or.inl (waiting_wake hwaiting _)
      · have hall : nnotify = -1 := hall
        omega
      · refine Or.inr (Or.inr ?_)
        have hcount : (notifies : ℤ) ≤ wakes + nnotify + (0 : ℕ) := hcount
        show (notifies : ℤ) ≤ ((wakes + 1 : ℕ) : ℤ) + (nnotify - 1) + (0 : ℕ)
        omega

theorem counting_delivers {all : Bool} (hlower : -1 ≤ monitor.notifyCount)
    (hsmall : all = false → monitor.notifyCount < 2147483647)
    (hown : monitor.threads notifier = ⟨depth, .counting all⟩)
    (hdelivers : Delivers notifier notifies wakes monitor) :
    Delivers notifier notifies wakes
      ({ monitor with notifyCount := counted monitor.notifyCount all }.set notifier
        ⟨depth, .outside⟩) := by
  obtain ⟨hactive, -, hdelivered⟩ := hdelivers
  rw [hown] at hactive hdelivered
  have hcounted := counted_lower hlower hsmall
  refine ⟨by rwa [set_self], ?_, ?_⟩
  · rw [set_self]
    show -1 ≤ counted monitor.notifyCount all
    omega
  · rw [set_self]
    refine hdelivered.imp_right fun hcount ↦ ?_
    rcases hcounted with hall | ⟨rfl, hzero, hnext⟩
    · exact Or.inl hall
    · refine Or.inr ?_
      have hcount : monitor.notifyCount = -1 ∨
          (notifies : ℤ) ≤ wakes + monitor.notifyCount + (1 : ℕ) := hcount
      show (notifies : ℤ) ≤ wakes + counted monitor.notifyCount false + (0 : ℕ)
      omega

/-- The owner delivers what it has to, up to the step in which it gives the lock up. -/
theorem advance_delivers (hconsistent : monitor.Consistent)
    (hgood : monitor.CountsWithin (.advance notifier)) (hlower : -1 ≤ monitor.notifyCount)
    (howner : monitor.owner = some notifier)
    (hdelivers : Delivers notifier notifies wakes monitor)
    (hadvance : monitor.advance notifier = some next) :
    Delivers notifier notifies wakes next ∨ next.owner ≠ some notifier := by
  have hsane := hconsistent.sane notifier
  have hactive := hdelivers.active
  have hcount := hconsistent.nested.count_eq notifier howner
  have hpos := hconsistent.nested.pos howner
  unfold advance at hadvance
  rcases hown : monitor.threads notifier with ⟨depth, place⟩
  rw [hown] at hadvance hsane hactive hcount
  cases place with
  | enterLock caller count =>
    cases caller with
    | conditionHelper => cases hactive
    | lock =>
      simp only at hadvance
      split_ifs at hadvance
      obtain rfl := Option.some.inj hadvance
      unfold enterLock
      rw [if_neg hpos.ne', if_pos howner]
      exact Or.inl (hdelivers.move hown (set_self _ _ _) rfl hactive rfl rfl)
  | locked caller rc =>
    cases caller with
    | conditionHelper => cases hactive
    | lock =>
      obtain rfl := Option.some.inj hadvance
      obtain rfl : rc = false := by
        cases rc with
        | false => rfl
        | true => exact absurd (hsane.2.2.mp rfl) (Nat.pos_iff_ne_zero.mp hactive)
      exact Or.inl (hdelivers.move hown (set_self _ _ _) rfl (Nat.succ_pos depth) rfl rfl)
  | readCount =>
    obtain rfl := Option.some.inj hadvance
    refine Or.inl ?_
    split_ifs with hlast
    · exact hdelivers.move hown (set_self _ _ _) rfl hactive rfl rfl
    · refine hdelivers.move hown (set_self _ _ _) rfl hactive (if_neg fun hone ↦ hlast ?_) rfl
      exact hcount.trans hone
  | notifying caller nnotify =>
    exact Or.inl (notify_delivers hdelivers (hown ▸ hsane) hown hadvance)
  | enterUnlock =>
    simp only at hadvance
    split_ifs at hadvance
    obtain rfl := Option.some.inj hadvance
    unfold enterUnlock
    split_ifs with hlast
    · exact Or.inr (Option.some_ne_none notifier).symm
    · have hdepth : depth < 4294967296 := hsane.1
      have hcount : monitor.count = depth := hcount
      have hmore : depth ≠ 1 := by
        rw [hcount, decrement] at hlast
        omega
      have hactive : 0 < depth := hactive
      refine Or.inl (hdelivers.move hown (set_self _ _ _) (by rw [set]) ?_ ?_ rfl)
      · show 0 < depth - 1
        omega
      · rw [set]
        exact (if_neg hmore).symm
  | validateOwner operation =>
    simp only at hadvance
    split_ifs at hadvance
    obtain rfl := Option.some.inj hadvance
    unfold validateOwner
    rw [if_pos ⟨hpos, howner⟩]
    refine Or.inl ?_
    cases operation <;> exact hdelivers.move hown (set_self _ _ _) rfl hactive rfl rfl
  | counting all =>
    obtain rfl := Option.some.inj hadvance
    rw [CountsWithin, hown] at hgood
    exact Or.inl (counting_delivers hlower (fun hone ↦ hgood (by rw [hone])) hown hdelivers)
  | resetCount timeout =>
    simp only at hadvance
    split_ifs at hadvance
    obtain rfl := Option.some.inj hadvance
    exact Or.inr (Option.some_ne_none notifier).symm
  | outside | asserted => cases hadvance
  | _ => cases hactive

/-- A step of any thread. -/
theorem step_delivers {event : MonitorEvent Thread} (hconsistent : monitor.Consistent)
    (hgood : monitor.CountsWithin event) (hlower : -1 ≤ monitor.notifyCount)
    (howner : monitor.owner = some notifier)
    (hdelivers : Delivers notifier notifies wakes monitor)
    (hstep : monitor.step event = some next) :
    Delivers notifier (notifies + if isNotify notifier event then 1 else 0)
        (wakes + if isWake notifier event then 1 else 0) next ∨
      next.owner ≠ some notifier := by
  have hholds := (hdelivers.active.holds (hconsistent.sane notifier)).2
  by_cases hthread : event.thread = notifier
  · subst hthread
    cases event with
    | call thread operation =>
      have hnotify : isNotify thread (.call thread operation) =
          decide (operation = .byOwner .notify) := by
        rw [isNotify, decide_eq_decide]
        exact ⟨fun hsame ↦ (MonitorEvent.call.inj hsame).2, fun hsame ↦ by rw [hsame]⟩
      refine Or.inl ?_
      rw [MonitorEvent.thread, hnotify]
      simp only [decide_eq_true_eq]
      exact call_delivers hdelivers hstep
    | advance thread =>
      exact advance_delivers hconsistent hgood hlower howner hdelivers hstep
    | signal thread woken =>
      have hnext := signal_delivers hdelivers hstep
      cases woken with
      | none => exact Or.inl hnext
      | some other =>
        rw [isWake, MonitorEvent.thread, decide_eq_true rfl]
        exact Or.inl hnext
    | wakeUp thread =>
      exact Or.inl (hdelivers.undisturbed (wakeUp_eq_some hstep ▸ undisturbed_wake hholds _))
    | timeOut thread =>
      exact Or.inl (hdelivers.undisturbed (timeOut_eq_some hstep ▸ undisturbed_wake hholds _))
  · have hnotify : isNotify notifier event = false :=
      decide_eq_false fun hsame ↦ hthread (by rw [hsame]; rfl)
    have hwake : isWake notifier event = false := by
      rcases event with _ | _ | ⟨thread, _ | other⟩ | _ | _
      · rfl
      · rfl
      · rfl
      · exact decide_eq_false hthread
      · rfl
      · rfl
    rw [hnotify, hwake]
    exact Or.inl (hdelivers.undisturbed (step_undisturbed hconsistent hholds hthread hstep))

end Owner

/-! ### Runs -/

section Runs

variable {start finish : Monitor Thread} {notifier : Thread} {later : List (MonitorEvent Thread)}

theorem step_regular {monitor next : Monitor Thread} {event : MonitorEvent Thread}
    (hgood : monitor.CountsWithin event) (hstep : monitor.step event = some next)
    (hregular : monitor.Regular) : next.Regular :=
  ⟨step_consistent (locksWithin_of_countsWithin hgood) hstep hregular.consistent,
    step_notifyCount hgood hstep hregular.lower⟩

/-- Along a run in which a thread owns the lock it delivers what it has to. -/
theorem run_delivers {notifies wakes : ℕ} (hregular : start.Regular)
    (halong : (monitorSystem Thread).Along
      (fun monitor event ↦ monitor.CountsWithin event ∧ monitor.owner = some notifier) start later)
    (hrun : (monitorSystem Thread).run start later = some finish)
    (hdelivers : Delivers notifier notifies wakes start ∨ start.owner ≠ some notifier) :
    Delivers notifier (notifies + later.countP (isNotify notifier))
        (wakes + later.countP (isWake notifier)) finish ∨
      finish.owner ≠ some notifier := by
  induction later generalizing start notifies wakes with
  | nil =>
    obtain rfl := Option.some.inj hrun
    exact hdelivers
  | cons event later ih =>
    obtain ⟨next, hstep, hlater⟩ := EventSystem.run_cons.mp hrun
    obtain ⟨⟨hgood, howner⟩, hrest⟩ := halong
    have hnow := hdelivers.resolve_right (not_not.mpr howner)
    have hnext := step_delivers hregular.consistent hgood hregular.lower howner hnow hstep
    have hend := ih (step_regular hgood hstep hregular) (hrest next hstep) hlater hnext
    rw [List.countP_cons, List.countP_cons]
    convert hend using 2 <;> omega

/-- Each notification since a state in which a thread owns the lock has woken a thread when the
owner gives the lock up, or no thread waits any more. -/
def LosesNoNotify (start : Monitor Thread) (notifier : Thread) : Prop :=
  ∀ later finish, (start.threads notifier).place = .outside →
    (monitorSystem Thread).Along
      (fun monitor event ↦ monitor.CountsWithin event ∧ monitor.owner = some notifier) start later →
    (monitorSystem Thread).run start later = some finish → (finish.threads notifier).GivesUp →
      later.countP (isNotify notifier) ≤ later.countP (isWake notifier) ∨
        ∀ thread, ¬ (finish.threads thread).IsBlocked

theorem run_regular (hregular : start.Regular)
    (halong : (monitorSystem Thread).Along CountsWithin start later)
    (hrun : (monitorSystem Thread).run start later = some finish) : finish.Regular :=
  EventSystem.run_invariant_of_along (fun _ _ _ ↦ step_regular) halong hrun hregular

theorem delivers_start (hregular : start.Regular)
    (hplace : (start.threads notifier).place = .outside) :
    Delivers notifier 0 0 start ∨ start.owner ≠ some notifier := by
  by_cases howner : start.owner = some notifier
  · have hheld := (hregular.consistent.nested.heldBy notifier).mp howner
    have hlower := hregular.lower
    rcases hown : start.threads notifier with ⟨depth, place⟩
    rw [hown] at hheld hplace
    obtain rfl : place = .outside := hplace
    refine Or.inl ⟨by rwa [hown], by rwa [hown], Or.inr ?_⟩
    rw [hown]
    show start.notifyCount = -1 ∨ ((0 : ℕ) : ℤ) ≤ (0 : ℕ) + start.notifyCount + (0 : ℕ)
    omega
  · exact Or.inr howner

theorem Regular.losesNoNotify (hregular : start.Regular) (notifier : Thread) :
    start.LosesNoNotify notifier := by
  intro later finish hplace halong hrun hgives
  have hwithin := EventSystem.along_mono (fun _ _ hboth ↦ hboth.1) halong
  have hconsistent := (run_regular hregular hwithin hrun).consistent
  obtain ⟨hheld, hpending, hannounced⟩ :=
    hgives.pending (hconsistent.sane notifier) finish.notifyCount
  have hend := run_delivers hregular halong hrun (delivers_start hregular hplace)
  have hdelivered :=
    (hend.resolve_right (not_not.mpr ((hconsistent.nested.heldBy notifier).mpr hheld))).delivered
  rw [hpending, hannounced] at hdelivered
  rcases hdelivered with hnone | hall | hcount
  · refine Or.inr fun thread hblocked ↦ ?_
    rw [← hconsistent.waiting thread, hnone] at hblocked
    exact List.not_mem_nil hblocked
  · omega
  · exact Or.inl (by omega)

/-! ### Waiting -/

/-- A wait leaves its caller with the lock as it was, if it comes back. -/
def RestoresCount (start : Monitor Thread) (thread : Thread) : Prop :=
  ∀ timeout later finish, (start.threads thread).IsInside →
    (monitorSystem Thread).Along CountsWithin start
      (.call thread (.byOwner (.wait timeout)) :: later) →
    (monitorSystem Thread).run start (.call thread (.byOwner (.wait timeout)) :: later) =
      some finish →
    (∀ operation, .call thread operation ∉ later) → (finish.threads thread).place = .outside →
      finish.owner = some thread ∧ finish.count = start.count

theorem set_onWait (monitor : Monitor Thread) {thread : Thread} {own : ThreadState} {depth : ℕ}
    (hwait : own.OnWait depth) : ((monitor.set thread own).threads thread).OnWait depth := by
  rwa [set_self]

theorem wake_threads (monitor : Monitor Thread) (woken : List Thread) (thread : Thread) :
    (monitor.wake woken).threads thread = monitor.threads thread ∨
      (monitor.wake woken).threads thread = (monitor.threads thread).wake := by
  by_cases hwoken : thread ∈ woken
  · exact Or.inr (if_pos hwoken)
  · exact Or.inl (if_neg hwoken)

/-- The steps of other threads leave a thread where it is, or wake it. -/
theorem step_threads_other {monitor next : Monitor Thread} {thread : Thread}
    {event : MonitorEvent Thread} (hne : event.thread ≠ thread)
    (hstep : monitor.step event = some next) :
    next.threads thread = monitor.threads thread ∨
      next.threads thread = (monitor.threads thread).wake := by
  have hupdate (other : Monitor Thread) (own : ThreadState) :
      (other.set event.thread own).threads thread = other.threads thread :=
    Function.update_of_ne hne.symm _ _
  cases event with
  | call caller operation =>
    obtain ⟨depth, -, -, rfl⟩ := call_eq_some hstep
    exact Or.inl (hupdate _ _)
  | advance other =>
    cases advances_of_advance hstep with
    | quiet own hthreads | counting own _ _ _ hthreads | startWait own _ _ _ _ hthreads =>
      rw [hthreads]
      exact Or.inl (hupdate monitor own)
    | locked depth caller rc hown hnext =>
      rw [hnext]
      cases caller <;> exact Or.inl (hupdate _ _)
    | notify depth caller nnotify hown hnext =>
      unfold notify at hnext
      split_ifs at hnext <;> obtain rfl := Option.some.inj hnext
      · exact hupdate (monitor.wake _) _ ▸ wake_threads _ _ _
      · exact Or.inl (hupdate _ _)
  | signal other woken =>
    obtain ⟨depth, caller, nnotify, -, -, -, -, rfl⟩ := signal_eq_some hstep
    exact hupdate (monitor.wake _) _ ▸ wake_threads _ _ _
  | wakeUp other => exact wakeUp_eq_some hstep ▸ wake_threads _ _ _
  | timeOut other => exact timeOut_eq_some hstep ▸ wake_threads _ _ _

theorem advance_onWait {monitor next : Monitor Thread} {thread : Thread} {depth : ℕ}
    (hadvance : monitor.advance thread = some next)
    (hwait : (monitor.threads thread).OnWait depth) : (next.threads thread).OnWait depth := by
  unfold advance at hadvance
  rcases hown : monitor.threads thread with ⟨depth, place⟩
  rw [hown] at hadvance hwait
  obtain ⟨rfl, hplace⟩ := hwait
  cases place with
  | enterLock caller count =>
    cases caller with
    | lock => cases hplace
    | conditionHelper =>
      simp only at hadvance
      split_ifs at hadvance
      obtain rfl := Option.some.inj hadvance
      unfold enterLock
      split_ifs <;> exact set_onWait _ ⟨rfl, trivial⟩
  | takeMutex caller | spinLock caller =>
    cases caller with
    | lock => cases hplace
    | conditionHelper =>
      simp only at hadvance
      split_ifs at hadvance
      exact Option.some.inj hadvance ▸ set_onWait _ ⟨rfl, trivial⟩
  | leaveLock caller | spinUnlock caller | locked caller =>
    cases caller with
    | lock => cases hplace
    | conditionHelper => exact Option.some.inj hadvance ▸ set_onWait _ ⟨rfl, trivial⟩
  | validateOwner operation =>
    simp only at hadvance
    split_ifs at hadvance
    obtain rfl := Option.some.inj hadvance
    cases operation with
    | wait timeout =>
      unfold validateOwner
      split_ifs <;> exact set_onWait _ ⟨rfl, trivial⟩
    | notify | notifyAll => cases hplace
  | notifying caller nnotify =>
    have hnext : ThreadState.OnWait depth ⟨depth, caller.next⟩ := by
      cases caller with
      | unlock => cases hplace
      | wait timeout =>
        rcases NotifyCaller.next_wait timeout with hnext | hnext <;> rw [hnext] <;>
          exact ⟨rfl, trivial⟩
    simp only [notify] at hadvance
    split_ifs at hadvance <;> exact Option.some.inj hadvance ▸ set_onWait _ hnext
  | resetCount | woken =>
    simp only at hadvance
    split_ifs at hadvance
    exact Option.some.inj hadvance ▸ set_onWait _ ⟨rfl, trivial⟩
  | startWait | endWait => exact Option.some.inj hadvance ▸ set_onWait _ ⟨rfl, trivial⟩
  | outside | blocked | asserted => cases hadvance
  | _ => cases hplace

theorem step_onWait {monitor next : Monitor Thread} {thread : Thread} {event : MonitorEvent Thread}
    (hcall : ∀ operation, event ≠ .call thread operation) (hstep : monitor.step event = some next)
    {depth : ℕ} (hwait : (monitor.threads thread).OnWait depth) :
    (next.threads thread).OnWait depth := by
  have hsame {monitor' : Monitor Thread}
      (hthread : monitor'.threads thread = monitor.threads thread ∨
        monitor'.threads thread = (monitor.threads thread).wake) :
      (monitor'.threads thread).OnWait depth := by
    rcases hthread with hthread | hthread <;> rw [hthread]
    · exact hwait
    · exact hwait.wake
  by_cases hthread : event.thread = thread
  · subst hthread
    cases event with
    | call caller operation => exact absurd rfl (hcall operation)
    | advance other => exact advance_onWait hstep hwait
    | signal other woken =>
      obtain ⟨depth', caller, nnotify, hown, -, -, -, rfl⟩ := signal_eq_some hstep
      rw [MonitorEvent.thread, hown] at hwait
      refine set_onWait _ ?_
      cases caller <;> exact hwait
    | wakeUp other => exact wakeUp_eq_some hstep ▸ hsame (wake_threads _ _ _)
    | timeOut other => exact timeOut_eq_some hstep ▸ hsame (wake_threads _ _ _)
  · exact hsame (step_threads_other hthread hstep)

theorem run_onWait {depth : ℕ} {thread : Thread}
    (hcall : ∀ operation, .call thread operation ∉ later)
    (hrun : (monitorSystem Thread).run start later = some finish)
    (hwait : (start.threads thread).OnWait depth) : (finish.threads thread).OnWait depth := by
  induction later generalizing start with
  | nil => exact Option.some.inj hrun ▸ hwait
  | cons event later ih =>
    obtain ⟨next, hstep, hlater⟩ := EventSystem.run_cons.mp hrun
    refine ih (fun operation hmem ↦ hcall operation (List.mem_cons_of_mem event hmem)) hlater ?_
    refine step_onWait (fun operation hsame ↦ hcall operation ?_) hstep hwait
    rw [hsame]
    exact List.mem_cons_self

theorem Regular.restoresCount (hregular : start.Regular) (thread : Thread) :
    start.RestoresCount thread := by
  intro timeout later finish hinside halong hrun hcall hplace
  have hfinish := (run_regular hregular halong hrun).consistent.sound
  have hcount := hregular.consistent.sound.counts thread
    (hregular.consistent.sound.owns thread hinside).1
  obtain ⟨next, hstep, hlater⟩ := EventSystem.run_cons.mp hrun
  obtain ⟨depth, hown, -, rfl⟩ := call_eq_some hstep
  rw [hown] at hinside hcount
  have hstart : ThreadState.OnWait depth ⟨depth, .validateOwner (.wait timeout)⟩ := ⟨rfl, trivial⟩
  obtain ⟨hdepth, -⟩ := run_onWait hcall hlater (set_onWait start hstart)
  rcases hend : finish.threads thread with ⟨depth', place⟩
  rw [hend] at hdepth hplace
  obtain rfl : depth' = depth := hdepth
  obtain rfl : place = .outside := hplace
  have howner := (hfinish.owns thread (hend ▸ hinside)).1
  refine ⟨howner, ?_⟩
  rw [hfinish.counts thread howner, hend, hcount]

end Runs

end Monitor

/-- In every state that is reached without an overflow of the counters the monitor is sound, a wait
restores the number of locks, and no notification is lost. -/
theorem monitor_sound {Thread : Type*} [DecidableEq Thread] (events : List (MonitorEvent Thread))
    (monitor : Monitor Thread)
    (halong : (monitorSystem Thread).Along Monitor.CountsWithin Monitor.initial events)
    (hrun : (monitorSystem Thread).run Monitor.initial events = some monitor) :
    monitor.Sound ∧ (∀ thread, monitor.RestoresCount thread) ∧
      ∀ thread, monitor.LosesNoNotify thread := by
  have hregular := Monitor.run_regular Monitor.regular_initial halong hrun
  exact ⟨hregular.consistent.sound, hregular.restoresCount, hregular.losesNoNotify⟩

/-- A thread locks twice. -/
def lockedTwice : List (MonitorEvent ℕ) :=
  .call 0 .lock :: List.replicate 4 (.advance 0) ++ .call 0 .lock :: List.replicate 2 (.advance 0)

/-- Its wait gives the lock up, and another thread takes it. -/
def waitStarted : List (MonitorEvent ℕ) :=
  List.replicate 4 (.advance 0) ++ .call 1 .lock :: List.replicate 4 (.advance 1)

/-- That thread notifies the first one, and is about to give the lock up. -/
def notifiedWait : List (MonitorEvent ℕ) :=
  [.call 1 (.byOwner .notify), .advance 1, .advance 1, .call 1 .unlock, .advance 1,
    .signal 1 (some 0), .advance 1]

/-- The wait comes back. -/
def waitEnded : List (MonitorEvent ℕ) :=
  List.replicate 3 (.advance 1) ++ List.replicate 6 (.advance 0)

/-- The wait comes back with both locks, and the notification has woken its thread before the lock
is given up. -/
theorem monitor_sound_notifiedWait :
    (∃ start finish, (monitorSystem ℕ).run Monitor.initial lockedTwice = some start ∧
      start.Sound ∧ start.count = 2 ∧
      (monitorSystem ℕ).run start (.call 0 (.byOwner (.wait none)) ::
        (waitStarted ++ notifiedWait ++ waitEnded)) = some finish ∧
      finish.owner = some 0 ∧ finish.count = start.count) ∧
    ∃ start finish, (monitorSystem ℕ).run Monitor.initial
        (lockedTwice ++ .call 0 (.byOwner (.wait none)) :: waitStarted) = some start ∧
      (start.threads 0).IsBlocked ∧
      (monitorSystem ℕ).run start notifiedWait = some finish ∧
      (notifiedWait.countP (Monitor.isNotify 1) ≤ notifiedWait.countP (Monitor.isWake 1) ∨
        ∀ thread, ¬ (finish.threads thread).IsBlocked) := by
  constructor
  · obtain ⟨start, finish, hrun, hcount, hinside, hlater, halong, hplace⟩ : ∃ start finish,
        (monitorSystem ℕ).run Monitor.initial lockedTwice = some start ∧ start.count = 2 ∧
          (start.threads 0).IsInside ∧
          (monitorSystem ℕ).run start (.call 0 (.byOwner (.wait none)) ::
            (waitStarted ++ notifiedWait ++ waitEnded)) = some finish ∧
          (monitorSystem ℕ).Along Monitor.CountsWithin start
            (.call 0 (.byOwner (.wait none)) :: (waitStarted ++ notifiedWait ++ waitEnded)) ∧
          (finish.threads 0).place = .outside :=
      ⟨_, _, rfl, rfl, ⟨Nat.two_pos, trivial⟩, rfl, by decide +kernel, rfl⟩
    obtain ⟨hsound, hrestores, -⟩ := monitor_sound lockedTwice start (by decide +kernel) hrun
    obtain ⟨howner, hsame⟩ := hrestores 0 none (waitStarted ++ notifiedWait ++ waitEnded) finish
      hinside halong hlater (by simp [waitStarted, notifiedWait, waitEnded]) hplace
    exact ⟨start, finish, hrun, hsound, hcount, hlater, howner, hsame⟩
  · obtain ⟨start, finish, hrun, hblocked, hlater, halong, hplace, hgives⟩ : ∃ start finish,
        (monitorSystem ℕ).run Monitor.initial
            (lockedTwice ++ .call 0 (.byOwner (.wait none)) :: waitStarted) = some start ∧
          (start.threads 0).IsBlocked ∧
          (monitorSystem ℕ).run start notifiedWait = some finish ∧
          (monitorSystem ℕ).Along (fun monitor event ↦ monitor.CountsWithin event ∧
            monitor.owner = some 1) start notifiedWait ∧
          (start.threads 1).place = .outside ∧ (finish.threads 1).GivesUp :=
      ⟨_, _, rfl, trivial, rfl, by decide +kernel, rfl, rfl⟩
    exact ⟨start, finish, hrun, hblocked, hlater,
      (monitor_sound _ start (by decide +kernel) hrun).2.2 1 notifiedWait finish hplace halong
        hlater hgives⟩

/-! ### Counting beyond the type -/

section Overflow

variable {Thread : Type*} [DecidableEq Thread]

/-- The steps of a `Lock` of the owner. -/
def lockAgain (thread : Thread) : List (MonitorEvent Thread) :=
  [.call thread .lock, .advance thread, .advance thread]

/-- A first `Lock` and some more. -/
def lockTimes (thread : Thread) (more : ℕ) : List (MonitorEvent Thread) :=
  .call thread .lock :: List.replicate 4 (.advance thread) ++
    (List.replicate more (lockAgain thread)).flatten

/-- The thread owns the lock, at some place and with some count. -/
structure Owns (thread : Thread) (own : ThreadState) (count : ℕ) (monitor : Monitor Thread) :
    Prop where
  threads : monitor.threads thread = own
  internal : monitor.internal = none
  owner : monitor.owner = some thread
  count : monitor.count = count

variable {monitor : Monitor Thread} {thread : Thread} {depth count : ℕ}

theorem Owns.call (howns : Owns thread ⟨depth, .outside⟩ count monitor) :
    ∃ next, monitor.call thread .lock = some next ∧
      Owns thread ⟨depth, .enterLock .lock 1⟩ count next := by
  obtain ⟨hthreads, hinternal, howner, hcount⟩ := howns
  refine ⟨monitor.set thread ⟨depth, .enterLock .lock 1⟩, ?_, Monitor.set_self _ _ _, hinternal,
    howner, hcount⟩
  unfold Monitor.call
  rw [hthreads]
  rfl

theorem Owns.enterLock (howns : Owns thread ⟨depth, .enterLock .lock 1⟩ count monitor)
    (hpos : count ≠ 0) :
    ∃ next, monitor.advance thread = some next ∧
      Owns thread ⟨depth, .locked .lock false⟩ ((count + 1) % 4294967296) next := by
  obtain ⟨hthreads, hinternal, howner, rfl⟩ := howns
  refine ⟨_, ?_, Monitor.set_self { monitor with count := (monitor.count + 1) % 4294967296 } _ _,
    hinternal, howner, rfl⟩
  unfold Monitor.advance
  rw [hthreads]
  simp only
  rw [if_pos hinternal, Monitor.enterLock, if_neg hpos, if_pos howner]

theorem Owns.locked (howns : Owns thread ⟨depth, .locked .lock false⟩ count monitor) :
    ∃ next, monitor.advance thread = some next ∧
      Owns thread ⟨depth + 1, .outside⟩ count next := by
  obtain ⟨hthreads, hinternal, howner, hcount⟩ := howns
  refine ⟨monitor.locked thread depth .lock false, ?_, Monitor.set_self _ _ _, hinternal, howner,
    hcount⟩
  unfold Monitor.advance
  rw [hthreads]

theorem Owns.run_lockAgain (howns : Owns thread ⟨depth, .outside⟩ count monitor)
    (hpos : count ≠ 0) :
    ∃ next, (monitorSystem Thread).run monitor (lockAgain thread) = some next ∧
      Owns thread ⟨depth + 1, .outside⟩ ((count + 1) % 4294967296) next := by
  obtain ⟨called, hcall, hcalled⟩ := howns.call
  obtain ⟨entered, henter, hentered⟩ := hcalled.enterLock hpos
  obtain ⟨next, hlocked, hnext⟩ := hentered.locked
  exact ⟨next, EventSystem.run_cons.mpr ⟨called, hcall, EventSystem.run_cons.mpr ⟨entered, henter,
    EventSystem.run_cons.mpr ⟨next, hlocked, rfl⟩⟩⟩, hnext⟩

/-- The number of locks is counted modulo `2 ^ 32`. -/
theorem Owns.run_lockTimes {more : ℕ}
    (howns : Owns thread ⟨depth, .outside⟩ (depth % 4294967296) monitor) (hpos : 0 < depth)
    (hmore : depth + more ≤ 4294967296) :
    ∃ next, (monitorSystem Thread).run monitor (List.replicate more (lockAgain thread)).flatten =
        some next ∧
      Owns thread ⟨depth + more, .outside⟩ ((depth + more) % 4294967296) next := by
  induction more generalizing monitor depth with
  | zero => exact ⟨monitor, rfl, howns⟩
  | succ more ih =>
    obtain ⟨middle, hfirst, hmiddle⟩ := howns.run_lockAgain (by omega)
    rw [Nat.mod_add_mod] at hmiddle
    obtain ⟨next, hrest, hnext⟩ := ih hmiddle (Nat.succ_pos depth) (by omega)
    refine ⟨next, ?_, by rwa [Nat.add_right_comm, Nat.add_assoc] at hnext⟩
    rw [List.replicate_succ, List.flatten_cons]
    exact EventSystem.run_append.mpr ⟨middle, hfirst, hrest⟩

/-- A thread that has locked `2 ^ 32` times owns the lock, and the number of locks is zero. -/
theorem monitor_not_sound :
    ∃ monitor, (monitorSystem ℕ).run Monitor.initial (lockTimes 0 4294967295) = some monitor ∧
      ¬ monitor.Sound := by
  obtain ⟨once, hfirst, hthreads, hinternal, howner, hcount⟩ : ∃ once,
      (monitorSystem ℕ).run Monitor.initial (.call 0 .lock :: List.replicate 4 (.advance 0)) =
        some once ∧ Owns 0 ⟨1, .outside⟩ (1 % 4294967296) once :=
    ⟨_, rfl, rfl, rfl, rfl, rfl⟩
  obtain ⟨monitor, hrest, howns⟩ := Owns.run_lockTimes
    ⟨hthreads, hinternal, howner, hcount⟩ Nat.one_pos (show 1 + 4294967295 ≤ 4294967296 by decide)
  refine ⟨monitor, EventSystem.run_append.mpr ⟨once, hfirst, hrest⟩, fun hsound ↦ ?_⟩
  have hdepth := hsound.counts 0 howns.owner
  rw [howns.threads, howns.count] at hdepth
  exact absurd hdepth (by decide)

end Overflow

end RocketMQClient.Kpr
