import RocketMQClient.Kpr.Monitor

/-!
# Mutual exclusion in the recursive monitor

What a thread holds follows from the point that it has reached: its share in the number of locks
(`ThreadState.held`), `m_mutex` and `m_internal`. `Consistent` says that the fields of the monitor
agree with that, and every step keeps it as long as no thread locks `2 ^ 32` times
(`step_consistent`). So no two threads are inside, the number of locks is the depth of the owner,
and a thread that waits for `m_mutex` in `m_internal` waits for a thread that gives it up at once.

The steps are grouped by what they change: those that change nothing a thread holds
(`Consistent.set`), those that take or give up `m_mutex` or `m_internal`, and those that wake
threads, which hold nothing while they wait (`wake_of_holdsMutex`). `Sound` then says the same in
the terms of the callers: who is inside, who owns the lock and how often.
-/

set_option autoImplicit false
set_option relaxedAutoImplicit false

namespace RocketMQClient.Kpr

open Library

/-- `notify` goes on in `Wait` unless the time-out is negative. -/
theorem NotifyCaller.next_wait (timeout : Option ℤ) :
    (NotifyCaller.wait timeout).next = .asserted ∨
      (NotifyCaller.wait timeout).next = .resetCount timeout := by
  cases timeout with
  | none => exact Or.inr rfl
  | some timeout =>
    by_cases hnegative : timeout < 0
    · exact Or.inl (if_pos hnegative)
    · exact Or.inr (if_neg hnegative)

namespace ThreadState

/-- The share of a thread in the number of locks. -/
def held (own : ThreadState) : ℕ :=
  match own.place with
  | .takeMutex .lock | .leaveLock .lock | .locked .lock _ => own.depth + 1
  | .enterLock .conditionHelper _ | .spinLock _ _ | .spinUnlock _ _ | .releaseMutex | .leaveUnlock
  | .startWait _ _ | .blocked _ _ | .woken _ | .endWait _ => 0
  | _ => own.depth

/-- The thread holds `m_mutex`. -/
def HoldsMutex (own : ThreadState) : Prop :=
  match own.place with
  | .spinUnlock _ _ | .releaseMutex | .startWait _ _ | .endWait _ => True
  | .takeMutex _ => False
  | _ => 0 < own.held

/-- The thread is in `m_internal`. -/
def InInternal (own : ThreadState) : Prop :=
  match own.place with
  | .takeMutex _ | .leaveLock _ | .releaseMutex | .leaveUnlock => True
  | _ => False

/-- The thread waits at the condition variable. -/
def IsBlocked (own : ThreadState) : Prop :=
  match own.place with
  | .blocked _ _ => True
  | _ => False

/-- The local variables are what the depth of the thread says. -/
def Sane (own : ThreadState) : Prop :=
  own.depth < 4294967296 ∧
    match own.place with
    | .outside | .validateOwner _ | .asserted => True
    | .enterLock .lock count => count = 1 ∧ own.depth + 1 < 4294967296
    | .spinLock .lock count | .spinUnlock .lock count => count = 1 ∧ own.depth = 0
    | .takeMutex .lock | .leaveLock .lock => own.depth = 0
    | .locked .lock rc => own.depth + 1 < 4294967296 ∧ (rc = true ↔ own.depth = 0)
    | .enterLock .conditionHelper count | .spinLock .conditionHelper count
    | .spinUnlock .conditionHelper count | .startWait _ count | .blocked _ count | .woken count
    | .endWait count => count = own.depth ∧ 0 < own.depth
    | .takeMutex .conditionHelper | .leaveLock .conditionHelper | .locked .conditionHelper _
    | .readCount | .notifying (.wait _) _ | .enterUnlock | .counting _ | .resetCount _ =>
      0 < own.depth
    | .notifying .unlock _ | .releaseMutex | .leaveUnlock => own.depth = 1

/-- The thread is between `Lock` and `Unlock` and does not wait. -/
def IsInside (own : ThreadState) : Prop :=
  0 < own.depth ∧
    match own.place with
    | .startWait _ _ | .blocked _ _ | .woken _ | .endWait _ | .enterLock .conditionHelper _
    | .spinLock .conditionHelper _ | .spinUnlock .conditionHelper _ | .takeMutex .conditionHelper
    | .leaveLock .conditionHelper | .releaseMutex | .leaveUnlock => False
    | _ => True

/-- The calls of `Lock` that have been counted and not undone. -/
def nesting (own : ThreadState) : ℕ :=
  match own.place with
  | .takeMutex .lock | .leaveLock .lock | .locked .lock _ => own.depth + 1
  | _ => own.depth

/-- The next operation of the thread is to take `m_mutex`. -/
def AwaitsMutex (own : ThreadState) : Prop :=
  match own.place with
  | .takeMutex _ | .spinLock _ _ | .woken _ => True
  | _ => False

/-- The next operation of the thread is a section of `m_internal`. -/
def NeedsInternal (own : ThreadState) : Prop :=
  match own.place with
  | .enterLock _ _ | .enterUnlock | .validateOwner _ | .resetCount _ => True
  | _ => False

/-! ### What a thread holds -/

/-- A thread inside has a share in the number of locks and holds `m_mutex`. -/
theorem IsInside.holds {own : ThreadState} (hinside : own.IsInside) (hsane : own.Sane) :
    0 < own.held ∧ own.HoldsMutex := by
  obtain ⟨depth, place⟩ := own
  obtain ⟨hdepth, hplace⟩ := hinside
  cases place with
  | enterLock caller =>
    cases caller with
    | lock => exact ⟨hdepth, hdepth⟩
    | conditionHelper => cases hplace
  | locked caller =>
    cases caller with
    | lock => exact ⟨Nat.succ_pos depth, Nat.succ_pos depth⟩
    | conditionHelper => exact ⟨hdepth, hdepth⟩
  | takeMutex caller | leaveLock caller =>
    cases caller with
    | lock => exact absurd hsane.2 hdepth.ne'
    | conditionHelper => cases hplace
  | spinLock caller | spinUnlock caller =>
    cases caller with
    | lock => exact absurd hsane.2.2 hdepth.ne'
    | conditionHelper => cases hplace
  | outside | readCount | notifying | enterUnlock | validateOwner | counting | resetCount
  | asserted => exact ⟨hdepth, hdepth⟩
  | startWait | blocked | woken | endWait | releaseMutex | leaveUnlock => cases hplace

theorem held_eq_nesting {own : ThreadState} (hpos : 0 < own.held) : own.held = own.nesting := by
  obtain ⟨depth, place⟩ := own
  cases place with
  | enterLock caller | takeMutex caller | leaveLock caller | locked caller =>
    cases caller <;> first | rfl | exact absurd hpos (lt_irrefl 0)
  | outside | readCount | notifying | enterUnlock | validateOwner | counting | resetCount
  | asserted => rfl
  | _ => exact absurd hpos (lt_irrefl 0)

/-- A thread that awaits `m_mutex` in `m_internal` owns the lock. -/
theorem owns_of_awaits {own : ThreadState} (hsane : own.Sane) (hinternal : own.InInternal)
    (hawaits : own.AwaitsMutex) : 0 < own.held ∧ ¬ own.HoldsMutex := by
  obtain ⟨depth, place⟩ := own
  cases place with
  | takeMutex caller =>
    cases caller with
    | lock => exact ⟨Nat.succ_pos depth, not_false⟩
    | conditionHelper => exact ⟨hsane.2, not_false⟩
  | leaveLock | releaseMutex | leaveUnlock => cases hawaits
  | _ => cases hinternal

/-! ### Waking a thread -/

theorem held_wake (own : ThreadState) : own.wake.held = own.held := by
  obtain ⟨depth, place⟩ := own
  cases place <;> rfl

theorem holdsMutex_wake (own : ThreadState) : own.wake.HoldsMutex ↔ own.HoldsMutex := by
  obtain ⟨depth, place⟩ := own
  cases place <;> exact Iff.rfl

theorem inInternal_wake (own : ThreadState) : own.wake.InInternal ↔ own.InInternal := by
  obtain ⟨depth, place⟩ := own
  cases place <;> exact Iff.rfl

theorem not_isBlocked_wake (own : ThreadState) : ¬ own.wake.IsBlocked := by
  obtain ⟨depth, place⟩ := own
  cases place <;> exact not_false

theorem Sane.wake {own : ThreadState} (hsane : own.Sane) : own.wake.Sane := by
  obtain ⟨depth, place⟩ := own
  cases place <;> exact hsane

/-- A thread that waits at the condition variable holds nothing. -/
theorem wake_of_holdsMutex {own : ThreadState} (hholds : own.HoldsMutex) : own.wake = own := by
  obtain ⟨depth, place⟩ := own
  cases place <;> first | rfl | exact absurd hholds (lt_irrefl 0)

end ThreadState

namespace Monitor

variable {Thread : Type*}

/-- The fields of the monitor agree with the points that the threads have reached. -/
structure Consistent (monitor : Monitor Thread) : Prop where
  sane : ∀ thread, (monitor.threads thread).Sane
  nested : Nested ThreadState.held monitor.owner monitor.count monitor.threads
  mutex : HeldBy ThreadState.HoldsMutex monitor.mutex monitor.threads
  internal : HeldBy ThreadState.InInternal monitor.internal monitor.threads
  waiting : ∀ thread, thread ∈ monitor.waiting ↔ (monitor.threads thread).IsBlocked

theorem consistent_initial : (initial : Monitor Thread).Consistent where
  sane _ := ⟨show 0 < 4294967296 by decide, trivial⟩
  nested := {
    heldBy _ := iff_of_false (fun hnone ↦ (nomatch hnone)) (lt_irrefl 0)
    count_eq _ hnone := nomatch hnone
    free _ := rfl }
  mutex _ := iff_of_false (fun hnone ↦ (nomatch hnone)) (lt_irrefl 0)
  internal _ := iff_of_false (fun hnone ↦ (nomatch hnone)) not_false
  waiting _ := iff_of_false List.not_mem_nil not_false

namespace Consistent

variable {monitor : Monitor Thread}

theorem setNotifyCount (hconsistent : monitor.Consistent) (notifyCount : ℤ) :
    { monitor with notifyCount := notifyCount }.Consistent :=
  ⟨hconsistent.sane, hconsistent.nested, hconsistent.mutex, hconsistent.internal,
    hconsistent.waiting⟩

theorem listed (hconsistent : monitor.Consistent) :
    ListedBy ThreadState.IsBlocked monitor.waiting monitor.threads := hconsistent.waiting

variable [DecidableEq Thread] {thread : Thread} {own old : ThreadState} {depth : ℕ}

theorem sane_update {threads : Thread → ThreadState} (hsane : ∀ thread, (threads thread).Sane)
    (hown : own.Sane) (other : Thread) : (Function.update threads thread own other).Sane :=
  forall_update hsane hown other

/-- A step that changes nothing that the thread holds. -/
theorem set (hconsistent : monitor.Consistent) (hown : monitor.threads thread = old)
    (hsane : own.Sane) (hheld : own.held = old.held) (hmutex : own.HoldsMutex ↔ old.HoldsMutex)
    (hinternal : own.InInternal ↔ old.InInternal) (hwaiting : own.IsBlocked ↔ old.IsBlocked) :
    (monitor.set thread own).Consistent where
  sane := sane_update hconsistent.sane hsane
  nested := hconsistent.nested.keep hown hheld
  mutex := hconsistent.mutex.keep hown hmutex
  internal := hconsistent.internal.keep hown hinternal
  waiting := hconsistent.listed.keep hown hwaiting

theorem wake (hconsistent : monitor.Consistent) (woken : List Thread) :
    (monitor.wake woken).Consistent where
  sane thread := by
    show ThreadState.Sane (if _ then _ else _)
    split_ifs
    · exact (hconsistent.sane thread).wake
    · exact hconsistent.sane thread
  nested := hconsistent.nested.wake ThreadState.held_wake woken
  mutex := hconsistent.mutex.wake ThreadState.holdsMutex_wake woken
  internal := hconsistent.internal.wake ThreadState.inInternal_wake woken
  waiting := hconsistent.listed.wake ThreadState.not_isBlocked_wake woken

/-- The first section of `lock`, when the lock is free. -/
theorem acquire (hconsistent : monitor.Consistent) {caller : LockCaller} {count : ℕ}
    (hown : monitor.threads thread = ⟨depth, .enterLock caller count⟩)
    (hfree : monitor.internal = none) (hzero : monitor.count = 0) :
    ({ monitor with count := count, owner := some thread, internal := some thread }.set thread
      ⟨depth, .takeMutex caller⟩).Consistent := by
  have hsane := hconsistent.sane thread
  have howner := hconsistent.nested.heldBy thread
  rw [hconsistent.nested.owner_of_zero hzero] at howner
  rw [hown] at hsane howner
  have hheld := Nat.eq_zero_of_not_pos fun hpos ↦ Option.some_ne_none _ (howner.mpr hpos).symm
  have hown' : ThreadState.Sane ⟨depth, .takeMutex caller⟩ ∧
      count = ThreadState.held ⟨depth, .takeMutex caller⟩ ∧ 0 < count := by
    cases caller with
    | lock =>
      obtain ⟨hdepth, rfl, -⟩ := hsane
      obtain rfl : depth = 0 := hheld
      exact ⟨⟨hdepth, rfl⟩, rfl, Nat.one_pos⟩
    | conditionHelper =>
      obtain ⟨hdepth, rfl, hpos⟩ := hsane
      exact ⟨⟨hdepth, hpos⟩, rfl, hpos⟩
  obtain ⟨hsane', hcount, hpos⟩ := hown'
  exact {
    sane := sane_update hconsistent.sane hsane'
    nested := hconsistent.nested.take hzero (by rwa [← hcount]) hcount
    mutex := hconsistent.mutex.keep hown (iff_of_false not_false fun hholds ↦
      absurd hheld (Nat.pos_iff_ne_zero.mp hholds))
    internal := hconsistent.internal.take hfree trivial
    waiting := hconsistent.listed.keep hown Iff.rfl }

/-- The section of `lock`, when the thread owns the lock. -/
theorem lockAgain (hconsistent : monitor.Consistent) {caller : LockCaller} {count : ℕ}
    (hown : monitor.threads thread = ⟨depth, .enterLock caller count⟩)
    (hself : monitor.owner = some thread) :
    ({ monitor with count := (monitor.count + count) % 4294967296 }.set thread
      ⟨depth, .locked caller false⟩).Consistent := by
  have hsane := hconsistent.sane thread
  have hheld := (hconsistent.nested.heldBy thread).mp hself
  have hcount := hconsistent.nested.count_eq thread hself
  rw [hown] at hsane hheld hcount
  cases caller with
  | lock =>
    obtain ⟨hdepth, rfl, hsmall⟩ := hsane
    have hpos : 0 < depth := hheld
    have hnext : 0 < ThreadState.held ⟨depth, .locked .lock false⟩ := Nat.succ_pos depth
    rw [show monitor.count = depth from hcount, Nat.mod_eq_of_lt hsmall]
    exact {
      sane := sane_update hconsistent.sane ⟨hdepth, hsmall, fun hrc ↦ (nomatch hrc),
        fun hnone ↦ absurd hnone hpos.ne'⟩
      nested := hconsistent.nested.change hown hheld hnext rfl
      mutex := hconsistent.mutex.keep hown (iff_of_true hnext hheld)
      internal := hconsistent.internal.keep hown Iff.rfl
      waiting := hconsistent.listed.keep hown Iff.rfl }
  | conditionHelper => exact absurd hheld (lt_irrefl 0)

theorem enterLock (hconsistent : monitor.Consistent) {caller : LockCaller} {count : ℕ}
    (hown : monitor.threads thread = ⟨depth, .enterLock caller count⟩)
    (hfree : monitor.internal = none) :
    (monitor.enterLock thread depth caller count).Consistent := by
  unfold Monitor.enterLock
  split_ifs with hzero hself
  · exact hconsistent.acquire hown hfree hzero
  · exact hconsistent.lockAgain hown hself
  · have hsane := hconsistent.sane thread
    have hheld : ¬ 0 < (monitor.threads thread).held := fun hpos ↦
      hself ((hconsistent.nested.heldBy thread).mpr hpos)
    rw [hown] at hsane hheld
    refine hconsistent.set hown ?_ (Nat.eq_zero_of_not_pos hheld).symm
      (iff_of_false (lt_irrefl 0) hheld) Iff.rfl Iff.rfl
    cases caller with
    | lock => exact ⟨hsane.1, hsane.2.1, Nat.eq_zero_of_not_pos hheld⟩
    | conditionHelper => exact hsane

/-- The section of `unlock`. -/
theorem enterUnlock (hconsistent : monitor.Consistent)
    (hown : monitor.threads thread = ⟨depth, .enterUnlock⟩) (hfree : monitor.internal = none) :
    (monitor.enterUnlock thread depth).Consistent := by
  have hsane := hconsistent.sane thread
  rw [hown] at hsane
  obtain ⟨(hdepth : depth < 4294967296), (hpos : 0 < depth)⟩ := hsane
  have hheld : 0 < ThreadState.held ⟨depth, .enterUnlock⟩ := hpos
  have hcount : monitor.count = depth := by
    rw [hconsistent.nested.count_of_pos (by rwa [hown]), hown]
    rfl
  have hless : decrement monitor.count = depth - 1 := by
    rw [hcount, decrement]
    omega
  unfold Monitor.enterUnlock
  rw [hless]
  split_ifs with hlast
  · obtain rfl : depth = 1 := by omega
    exact {
      sane := sane_update hconsistent.sane ⟨hdepth, rfl⟩
      nested := hconsistent.nested.drop hown hheld rfl
      mutex := hconsistent.mutex.keep hown (iff_of_true trivial hheld)
      internal := hconsistent.internal.take hfree trivial
      waiting := hconsistent.listed.keep hown Iff.rfl }
  · have hnext : 0 < ThreadState.held ⟨depth - 1, .outside⟩ := Nat.pos_of_ne_zero hlast
    exact {
      sane := sane_update hconsistent.sane ⟨lt_of_le_of_lt (Nat.sub_le depth 1) hdepth, trivial⟩
      nested := hconsistent.nested.change hown hheld hnext rfl
      mutex := hconsistent.mutex.keep hown (iff_of_true hnext hheld)
      internal := hconsistent.internal.keep hown Iff.rfl
      waiting := hconsistent.listed.keep hown Iff.rfl }

/-- A thread takes `m_mutex`. -/
theorem takeMutex (hconsistent : monitor.Consistent) (hown : monitor.threads thread = old)
    (hfree : monitor.mutex = none) (hsane : own.Sane) (hheld : own.held = old.held)
    (hmutex : own.HoldsMutex) (hinternal : own.InInternal ↔ old.InInternal)
    (hwaiting : own.IsBlocked ↔ old.IsBlocked) :
    ({ monitor with mutex := some thread }.set thread own).Consistent where
  sane := sane_update hconsistent.sane hsane
  nested := hconsistent.nested.keep hown hheld
  mutex := hconsistent.mutex.take hfree hmutex
  internal := hconsistent.internal.keep hown hinternal
  waiting := hconsistent.listed.keep hown hwaiting

/-- The holder of `m_mutex` gives it up. -/
theorem dropMutex (hconsistent : monitor.Consistent) (hown : monitor.threads thread = old)
    (hsane : own.Sane) (hheld : own.held = old.held) (hholds : old.HoldsMutex)
    (hmutex : ¬ own.HoldsMutex) (hinternal : own.InInternal ↔ old.InInternal)
    (hwaiting : own.IsBlocked ↔ old.IsBlocked) :
    ({ monitor with mutex := none }.set thread own).Consistent where
  sane := sane_update hconsistent.sane hsane
  nested := hconsistent.nested.keep hown hheld
  mutex := hconsistent.mutex.drop hown hholds hmutex
  internal := hconsistent.internal.keep hown hinternal
  waiting := hconsistent.listed.keep hown hwaiting

/-- A thread leaves `m_internal`. -/
theorem leaveInternal (hconsistent : monitor.Consistent) (hown : monitor.threads thread = old)
    (hsane : own.Sane) (hheld : own.held = old.held) (hmutex : own.HoldsMutex ↔ old.HoldsMutex)
    (hinside : old.InInternal) (hinternal : ¬ own.InInternal)
    (hwaiting : own.IsBlocked ↔ old.IsBlocked) :
    ({ monitor with internal := none }.set thread own).Consistent where
  sane := sane_update hconsistent.sane hsane
  nested := hconsistent.nested.keep hown hheld
  mutex := hconsistent.mutex.keep hown hmutex
  internal := hconsistent.internal.drop hown hinside hinternal
  waiting := hconsistent.listed.keep hown hwaiting

/-- The section of `reset4Condvar`. -/
theorem resetCount (hconsistent : monitor.Consistent) {timeout : Option ℤ}
    (hown : monitor.threads thread = ⟨depth, .resetCount timeout⟩) :
    ({ monitor with count := 0, owner := none }.set thread
      ⟨depth, .startWait timeout monitor.count⟩).Consistent := by
  have hsane := hconsistent.sane thread
  rw [hown] at hsane
  obtain ⟨(hdepth : depth < 4294967296), (hpos : 0 < depth)⟩ := hsane
  have hheld : 0 < ThreadState.held ⟨depth, .resetCount timeout⟩ := hpos
  have hcount : monitor.count = depth := by
    rw [hconsistent.nested.count_of_pos (by rwa [hown]), hown]
    rfl
  exact {
    sane := sane_update hconsistent.sane ⟨hdepth, hcount, hpos⟩
    nested := hconsistent.nested.drop hown hheld rfl
    mutex := hconsistent.mutex.keep hown (iff_of_true trivial hheld)
    internal := hconsistent.internal.keep hown Iff.rfl
    waiting := hconsistent.listed.keep hown Iff.rfl }

/-- `pthread_cond_wait` gives `m_mutex` up. -/
theorem startWait (hconsistent : monitor.Consistent) {timeout : Option ℤ} {count : ℕ}
    (hown : monitor.threads thread = ⟨depth, .startWait timeout count⟩) :
    ({ monitor with mutex := none, waiting := monitor.waiting ++ [thread] }.set thread
      ⟨depth, .blocked timeout count⟩).Consistent := by
  have hsane := hconsistent.sane thread
  rw [hown] at hsane
  exact {
    sane := sane_update hconsistent.sane hsane
    nested := hconsistent.nested.keep hown rfl
    mutex := hconsistent.mutex.drop hown trivial (lt_irrefl 0)
    internal := hconsistent.internal.keep hown Iff.rfl
    waiting := hconsistent.listed.add trivial }

theorem locked (hconsistent : monitor.Consistent) {caller : LockCaller} {rc : Bool}
    (hown : monitor.threads thread = ⟨depth, .locked caller rc⟩) :
    (monitor.locked thread depth caller rc).Consistent := by
  have hsane := hconsistent.sane thread
  rw [hown] at hsane
  cases caller with
  | lock =>
    exact (hconsistent.setNotifyCount _).set hown ⟨hsane.2.1, trivial⟩ rfl Iff.rfl Iff.rfl Iff.rfl
  | conditionHelper =>
    exact (hconsistent.setNotifyCount 0).set hown ⟨hsane.1, trivial⟩ rfl Iff.rfl Iff.rfl Iff.rfl

/-- `notify` goes on behind its last signal. -/
theorem next (hconsistent : monitor.Consistent) {caller : NotifyCaller} {nnotify : ℤ}
    (hown : monitor.threads thread = ⟨depth, .notifying caller nnotify⟩) :
    (monitor.set thread ⟨depth, caller.next⟩).Consistent := by
  have hsane := hconsistent.sane thread
  rw [hown] at hsane
  cases caller with
  | unlock =>
    have hpos : 0 < depth := by
      rw [show depth = 1 from hsane.2]
      exact Nat.one_pos
    exact hconsistent.set hown ⟨hsane.1, hpos⟩ rfl Iff.rfl Iff.rfl Iff.rfl
  | wait timeout =>
    rcases NotifyCaller.next_wait timeout with hnext | hnext <;> rw [hnext]
    · exact hconsistent.set hown ⟨hsane.1, trivial⟩ rfl Iff.rfl Iff.rfl Iff.rfl
    · exact hconsistent.set hown hsane rfl Iff.rfl Iff.rfl Iff.rfl

theorem validateOwner (hconsistent : monitor.Consistent) {operation : OwnerOperation}
    (hown : monitor.threads thread = ⟨depth, .validateOwner operation⟩) :
    (monitor.validateOwner thread depth operation).Consistent := by
  have hsane := hconsistent.sane thread
  rw [hown] at hsane
  unfold Monitor.validateOwner
  split_ifs with hself
  · have hpos : 0 < depth := by
      have hheld := (hconsistent.nested.heldBy thread).mp hself.2
      rwa [hown] at hheld
    cases operation <;> exact hconsistent.set hown ⟨hsane.1, hpos⟩ rfl Iff.rfl Iff.rfl Iff.rfl
  · exact hconsistent.set hown hsane rfl Iff.rfl Iff.rfl Iff.rfl

end Consistent

variable [DecidableEq Thread]

/-- A thread that sends signals does not wait itself. -/
theorem wake_notifying {monitor : Monitor Thread} {thread : Thread} {depth : ℕ}
    (woken : List Thread) {caller : NotifyCaller} {nnotify : ℤ}
    (hown : monitor.threads thread = ⟨depth, .notifying caller nnotify⟩) :
    (monitor.wake woken).threads thread = ⟨depth, .notifying caller nnotify⟩ := by
  show (if _ then _ else _) = _
  rw [hown]
  split_ifs <;> rfl

/-! ### The steps -/

/-- No thread locks so often that the count wraps. -/
def LocksWithin (monitor : Monitor Thread) : MonitorEvent Thread → Prop
  | .call thread .lock => (monitor.threads thread).depth + 1 < 4294967296
  | _ => True

section Steps

variable {monitor next : Monitor Thread} {thread : Thread}

theorem call_eq_some {operation : Operation} (hcall : monitor.call thread operation = some next) :
    ∃ depth, monitor.threads thread = ⟨depth, .outside⟩ ∧ (operation = .unlock → 0 < depth) ∧
      next = monitor.set thread ⟨depth, operation.start⟩ := by
  unfold call at hcall
  rcases hown : monitor.threads thread with ⟨depth, place⟩
  rw [hown] at hcall
  cases place with
  | outside =>
    simp only at hcall
    split_ifs at hcall with hnone
    refine ⟨depth, rfl, fun hunlock ↦ ?_, (Option.some.inj hcall).symm⟩
    exact Nat.pos_of_ne_zero fun hzero ↦ hnone ⟨hunlock, hzero⟩
  | _ => cases hcall

theorem call_consistent {operation : Operation}
    (hgood : monitor.LocksWithin (.call thread operation)) (hconsistent : monitor.Consistent)
    (hcall : monitor.call thread operation = some next) : next.Consistent := by
  obtain ⟨depth, hown, hunlock, rfl⟩ := call_eq_some hcall
  have hsane := hconsistent.sane thread
  rw [hown] at hsane
  cases operation with
  | lock =>
    rw [LocksWithin, hown] at hgood
    exact hconsistent.set hown ⟨hsane.1, rfl, hgood⟩ rfl Iff.rfl Iff.rfl Iff.rfl
  | unlock => exact hconsistent.set hown ⟨hsane.1, hunlock rfl⟩ rfl Iff.rfl Iff.rfl Iff.rfl
  | byOwner operation => exact hconsistent.set hown hsane rfl Iff.rfl Iff.rfl Iff.rfl

theorem notify_consistent {depth : ℕ} {caller : NotifyCaller} {nnotify : ℤ}
    (hconsistent : monitor.Consistent)
    (hown : monitor.threads thread = ⟨depth, .notifying caller nnotify⟩)
    (hnotify : monitor.notify thread depth caller nnotify = some next) : next.Consistent := by
  unfold notify at hnotify
  split_ifs at hnotify with hmore hall <;> obtain rfl := Option.some.inj hnotify
  · exact (hconsistent.wake _).next (wake_notifying _ hown)
  · exact hconsistent.next hown

theorem signal_eq_some {woken : Option Thread} (hsignal : monitor.signal thread woken = some next) :
    ∃ depth caller nnotify, monitor.threads thread = ⟨depth, .notifying caller nnotify⟩ ∧
      0 < nnotify ∧ (∀ other ∈ woken, other ∈ monitor.waiting) ∧
      (woken = none → monitor.waiting = []) ∧
      next = (monitor.wake woken.toList).set thread ⟨depth, .notifying caller (nnotify - 1)⟩ := by
  unfold signal at hsignal
  rcases hown : monitor.threads thread with ⟨depth, place⟩
  rw [hown] at hsignal
  cases place with
  | notifying caller nnotify =>
    simp only at hsignal
    split_ifs at hsignal with hguard
    obtain ⟨hmore, hwoken, hnone⟩ := hguard
    exact ⟨depth, caller, nnotify, rfl, hmore, hwoken, hnone, (Option.some.inj hsignal).symm⟩
  | _ => cases hsignal

theorem signal_consistent {woken : Option Thread} (hconsistent : monitor.Consistent)
    (hsignal : monitor.signal thread woken = some next) : next.Consistent := by
  obtain ⟨depth, caller, nnotify, hown, -, -, -, rfl⟩ := signal_eq_some hsignal
  have hsane := hconsistent.sane thread
  rw [hown] at hsane
  refine (hconsistent.wake _).set (wake_notifying _ hown) ?_ rfl Iff.rfl Iff.rfl Iff.rfl
  cases caller <;> exact hsane

theorem wakeUp_eq_some (hwakeUp : monitor.step (.wakeUp thread) = some next) :
    next = monitor.wake [thread] := by
  unfold step at hwakeUp
  simp only at hwakeUp
  split_ifs at hwakeUp
  exact (Option.some.inj hwakeUp).symm

theorem timeOut_eq_some (htimeOut : monitor.timeOut thread = some next) :
    next = monitor.wake [thread] := by
  unfold timeOut at htimeOut
  split at htimeOut
  · exact (Option.some.inj htimeOut).symm
  · cases htimeOut

theorem advance_consistent (hconsistent : monitor.Consistent)
    (hadvance : monitor.advance thread = some next) : next.Consistent := by
  unfold advance at hadvance
  have hsane := hconsistent.sane thread
  rcases hown : monitor.threads thread with ⟨depth, place⟩
  rw [hown] at hadvance hsane
  cases place with
  | enterLock caller count =>
    simp only at hadvance
    split_ifs at hadvance with hfree
    exact Option.some.inj hadvance ▸ hconsistent.enterLock hown hfree
  | takeMutex caller =>
    simp only at hadvance
    split_ifs at hadvance with hfree
    obtain rfl := Option.some.inj hadvance
    cases caller with
    | lock =>
      exact hconsistent.takeMutex hown hfree hsane rfl (Nat.succ_pos depth) Iff.rfl Iff.rfl
    | conditionHelper =>
      exact hconsistent.takeMutex hown hfree hsane rfl hsane.2 Iff.rfl Iff.rfl
  | leaveLock caller =>
    obtain rfl := Option.some.inj hadvance
    cases caller with
    | lock =>
      have hzero : depth = 0 := hsane.2
      subst hzero
      exact hconsistent.leaveInternal hown ⟨hsane.1, by decide, by decide⟩ rfl Iff.rfl trivial
        not_false Iff.rfl
    | conditionHelper =>
      exact hconsistent.leaveInternal hown hsane rfl Iff.rfl trivial not_false Iff.rfl
  | spinLock caller count =>
    simp only at hadvance
    split_ifs at hadvance with hfree
    obtain rfl := Option.some.inj hadvance
    cases caller <;> exact hconsistent.takeMutex hown hfree hsane rfl trivial Iff.rfl Iff.rfl
  | spinUnlock caller count =>
    obtain rfl := Option.some.inj hadvance
    cases caller with
    | lock =>
      obtain ⟨hdepth, hcount, hzero⟩ := hsane
      obtain rfl : depth = 0 := hzero
      exact hconsistent.dropMutex hown ⟨hdepth, hcount, show 0 + 1 < 4294967296 by decide⟩ rfl
        trivial (lt_irrefl 0) Iff.rfl Iff.rfl
    | conditionHelper =>
      exact hconsistent.dropMutex hown hsane rfl trivial (lt_irrefl 0) Iff.rfl Iff.rfl
  | locked caller rc => exact Option.some.inj hadvance ▸ hconsistent.locked hown
  | readCount =>
    obtain rfl := Option.some.inj hadvance
    split_ifs with hlast
    · have hone : depth = 1 := by
        rw [← hlast, hconsistent.nested.count_of_pos (by rw [hown]; exact hsane.2), hown]
        rfl
      exact hconsistent.set hown ⟨hsane.1, hone⟩ rfl Iff.rfl Iff.rfl Iff.rfl
    · exact hconsistent.set hown hsane rfl Iff.rfl Iff.rfl Iff.rfl
  | notifying caller nnotify => exact notify_consistent hconsistent hown hadvance
  | enterUnlock =>
    simp only at hadvance
    split_ifs at hadvance with hfree
    exact Option.some.inj hadvance ▸ hconsistent.enterUnlock hown hfree
  | releaseMutex =>
    obtain rfl := Option.some.inj hadvance
    exact hconsistent.dropMutex hown hsane rfl trivial (lt_irrefl 0) Iff.rfl Iff.rfl
  | leaveUnlock =>
    obtain rfl := Option.some.inj hadvance
    have hone : depth = 1 := hsane.2
    subst hone
    exact hconsistent.leaveInternal hown ⟨by decide, trivial⟩ rfl Iff.rfl trivial not_false Iff.rfl
  | validateOwner operation =>
    simp only at hadvance
    split_ifs at hadvance with hfree
    exact Option.some.inj hadvance ▸ hconsistent.validateOwner hown
  | counting all =>
    obtain rfl := Option.some.inj hadvance
    exact (hconsistent.setNotifyCount _).set hown ⟨hsane.1, trivial⟩ rfl Iff.rfl Iff.rfl Iff.rfl
  | resetCount timeout =>
    simp only at hadvance
    split_ifs at hadvance with hfree
    exact Option.some.inj hadvance ▸ hconsistent.resetCount hown
  | startWait timeout count => exact Option.some.inj hadvance ▸ hconsistent.startWait hown
  | woken count =>
    simp only at hadvance
    split_ifs at hadvance with hfree
    obtain rfl := Option.some.inj hadvance
    exact hconsistent.takeMutex hown hfree hsane rfl trivial Iff.rfl Iff.rfl
  | endWait count =>
    obtain rfl := Option.some.inj hadvance
    exact hconsistent.dropMutex hown hsane rfl trivial (lt_irrefl 0) Iff.rfl Iff.rfl
  | outside | blocked _ _ | asserted => cases hadvance

/-- Every step keeps the fields in agreement with the threads. -/
theorem step_consistent {event : MonitorEvent Thread} (hgood : monitor.LocksWithin event)
    (hstep : monitor.step event = some next) (hconsistent : monitor.Consistent) :
    next.Consistent := by
  cases event with
  | call thread operation => exact call_consistent hgood hconsistent hstep
  | advance thread => exact advance_consistent hconsistent hstep
  | signal thread woken => exact signal_consistent hconsistent hstep
  | wakeUp thread => exact wakeUp_eq_some hstep ▸ hconsistent.wake _
  | timeOut thread => exact timeOut_eq_some hstep ▸ hconsistent.wake _

end Steps

/-! ### Exclusion -/

/-- At most one thread is inside, and it owns the lock and holds `m_mutex`. The number of locks is
the nesting depth of the owner. Who waits for `m_mutex` in `m_internal` waits for a thread that does
not need `m_internal` and can give `m_mutex` up in its next step. -/
structure Sound (monitor : Monitor Thread) : Prop where
  exclusive : ∀ first second, (monitor.threads first).IsInside →
    (monitor.threads second).IsInside → first = second
  owns : ∀ thread, (monitor.threads thread).IsInside →
    monitor.owner = some thread ∧ monitor.mutex = some thread
  counts : ∀ thread, monitor.owner = some thread →
    monitor.count = (monitor.threads thread).nesting
  free : monitor.owner = none → monitor.count = 0
  noDeadlock : ∀ thread other, monitor.internal = some thread →
    (monitor.threads thread).AwaitsMutex → monitor.mutex = some other →
      ¬ (monitor.threads other).NeedsInternal ∧
        ∃ next, monitor.advance other = some next ∧ next.mutex = none

/-- Who holds `m_mutex` without owning the lock gives it up in its next step. -/
theorem advance_of_holdsMutex {monitor : Monitor Thread} {thread : Thread}
    (hheld : ¬ 0 < (monitor.threads thread).held)
    (hholds : (monitor.threads thread).HoldsMutex) :
    ¬ (monitor.threads thread).NeedsInternal ∧
      ∃ next, monitor.advance thread = some next ∧ next.mutex = none := by
  unfold advance
  rcases hown : monitor.threads thread with ⟨depth, place⟩
  rw [hown] at hheld hholds
  cases place with
  | spinUnlock | releaseMutex | startWait | endWait => exact ⟨not_false, _, rfl, rfl⟩
  | takeMutex => cases hholds
  | _ => exact absurd hholds hheld

theorem Consistent.sound {monitor : Monitor Thread} (hconsistent : monitor.Consistent) :
    monitor.Sound where
  exclusive first second hfirst hsecond := hconsistent.mutex.unique
    (hfirst.holds (hconsistent.sane first)).2 (hsecond.holds (hconsistent.sane second)).2
  owns thread hinside :=
    have hholds := hinside.holds (hconsistent.sane thread)
    ⟨(hconsistent.nested.heldBy thread).mpr hholds.1, (hconsistent.mutex thread).mpr hholds.2⟩
  counts thread howner := by
    rw [hconsistent.nested.count_eq thread howner]
    exact ThreadState.held_eq_nesting ((hconsistent.nested.heldBy thread).mp howner)
  free := hconsistent.nested.free
  noDeadlock thread other hinternal hawaits hmutex := by
    have howns := ThreadState.owns_of_awaits (hconsistent.sane thread)
      ((hconsistent.internal thread).mp hinternal) hawaits
    have hholds := (hconsistent.mutex other).mp hmutex
    refine advance_of_holdsMutex (fun hheld ↦ howns.2 ?_) hholds
    rwa [hconsistent.nested.heldBy.unique howns.1 hheld]

end Monitor

end RocketMQClient.Kpr
