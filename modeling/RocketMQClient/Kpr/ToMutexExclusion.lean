import Mathlib.Algebra.Order.Group.Nat
import RocketMQClient.Kpr.ToMutex
import RocketMQClient.Library.Holding

/-!
# Mutual exclusion of the lock with a time-out

What a thread holds follows from the point that it has reached: its share in the number of locks
(`ToMutexThread.held`) and `m_mutex`. `ToMutex.Consistent` says that the fields of the lock agree
with that. Every step keeps it as long as no thread holds the lock `2 ^ 31` times
(`step_consistent`). So at most one thread holds the lock, the number of locks is how often it does,
and it is never negative.

Locking again, waiting and being notified change the share of one thread only, and `Consistent` has
a lemma for each of these changes; a step of the lock is then one of them or leaves everything that
is held alone (`Consistent.set`). A time-out takes no lock, so that a call of `Lock` that fails has
nothing to give back.
-/

set_option autoImplicit false
set_option relaxedAutoImplicit false

namespace RocketMQClient.Kpr

open Library

namespace ToMutexThread

/-- How often the thread holds the lock. -/
def held (own : ToMutexThread) : ℕ :=
  match own.place with
  | .leaveLock true => own.depth + 1
  | _ => own.depth

/-- The thread holds `m_mutex`. -/
def HoldsMutex (own : ToMutexThread) : Prop :=
  match own.place with
  | .testLock _ _ | .startWait _ | .expired | .leaveLock _ | .decrement | .leaveUnlock
  | .asserted => True
  | _ => False

/-- The thread waits at the condition variable. -/
def IsBlocked (own : ToMutexThread) : Prop :=
  match own.place with
  | .blocked _ => True
  | _ => False

/-- The thread has found the lock taken and is about to wait. -/
def StartsWait (own : ToMutexThread) : Prop :=
  match own.place with
  | .startWait _ => True
  | _ => False

/-- The place of the thread is one that it can reach with its depth. -/
def Sane (own : ToMutexThread) : Prop :=
  own.depth < 2147483648 ∧
    match own.place with
    | .enterLock _ | .testLock _ _ | .startWait _ | .blocked _ | .woken _ _ | .expired
    | .leaveLock true => own.depth + 1 < 2147483648
    | .enterUnlock | .decrement => 0 < own.depth
    | _ => True

theorem StartsWait.holdsMutex {own : ToMutexThread} (hstarts : own.StartsWait) :
    own.HoldsMutex := by
  obtain ⟨depth, place⟩ := own
  cases place with
  | startWait => trivial
  | _ => cases hstarts

section Wake

variable (own : ToMutexThread) (reason : WakeReason)

theorem held_wake : (own.wake reason).held = own.held := by
  obtain ⟨depth, place⟩ := own
  cases place <;> rfl

theorem holdsMutex_wake : (own.wake reason).HoldsMutex ↔ own.HoldsMutex := by
  obtain ⟨depth, place⟩ := own
  cases place <;> exact Iff.rfl

theorem startsWait_wake : (own.wake reason).StartsWait ↔ own.StartsWait := by
  obtain ⟨depth, place⟩ := own
  cases place <;> exact Iff.rfl

theorem not_isBlocked_wake : ¬ (own.wake reason).IsBlocked := by
  obtain ⟨depth, place⟩ := own
  cases place <;> exact not_false

variable {own}

theorem wake_of_not_isBlocked (hblocked : ¬ own.IsBlocked) : own.wake reason = own := by
  obtain ⟨depth, place⟩ := own
  cases place with
  | blocked => exact absurd trivial hblocked
  | _ => rfl

theorem Sane.wake (hsane : own.Sane) : (own.wake reason).Sane := by
  obtain ⟨depth, place⟩ := own
  cases place <;> exact hsane

end Wake

end ToMutexThread

namespace ToMutex

variable {Thread : Type*}

/-- The thread that holds the lock. -/
def owner (lock : ToMutex Thread) : Option Thread := if lock.isLock then lock.tid else none

/-- The fields of the lock agree with the points that the threads have reached. -/
structure Consistent (lock : ToMutex Thread) : Prop where
  sane : ∀ thread, (lock.threads thread).Sane
  nested : Nested ToMutexThread.held lock.owner lock.counts.toNat lock.threads
  nonneg : 0 ≤ lock.counts
  flag : lock.isLock = true ↔ 0 < lock.counts
  mutex : HeldBy ToMutexThread.HoldsMutex lock.mutex lock.threads
  waiting : ListedBy ToMutexThread.IsBlocked lock.waiting lock.threads
  startsWait : ∀ thread, (lock.threads thread).StartsWait → lock.isLock = true

theorem consistent_initial : (initial : ToMutex Thread).Consistent where
  sane _ := ⟨show 0 < 2147483648 by decide, trivial⟩
  nested := {
    heldBy _ := iff_of_false (Option.some_ne_none _).symm (lt_irrefl 0)
    count_eq _ hnone := absurd hnone.symm (Option.some_ne_none _)
    free _ := rfl }
  nonneg := le_refl 0
  flag := iff_of_false Bool.false_ne_true (lt_irrefl 0)
  mutex _ := iff_of_false (Option.some_ne_none _).symm not_false
  waiting _ := iff_of_false List.not_mem_nil not_false
  startsWait _ hstarts := absurd hstarts not_false

namespace Consistent

variable {lock : ToMutex Thread}

/-- A thread that holds the lock is the owner. -/
theorem owner_of_held (hconsistent : lock.Consistent) {thread : Thread}
    (hheld : 0 < (lock.threads thread).held) :
    lock.isLock = true ∧ lock.tid = some thread ∧
      lock.counts = (lock.threads thread).held := by
  have howner := (hconsistent.nested.heldBy thread).mpr hheld
  have hcount := hconsistent.nested.count_eq thread howner
  have hnonneg := hconsistent.nonneg
  rw [owner] at howner
  split_ifs at howner with hlock
  exact ⟨hlock, howner, by omega⟩

/-- The owner of a taken lock is the thread in the field, and it holds the lock. -/
theorem exists_owner (hconsistent : lock.Consistent) (hlock : lock.isLock = true) :
    ∃ thread, lock.tid = some thread ∧ 0 < (lock.threads thread).held := by
  have hpos := hconsistent.flag.mp hlock
  have howner : lock.owner = lock.tid := if_pos hlock
  cases htid : lock.tid with
  | none =>
    have hfree := hconsistent.nested.free (howner.trans htid)
    omega
  | some thread =>
    exact ⟨thread, rfl, (hconsistent.nested.heldBy thread).mp (howner.trans htid)⟩

/-- Nobody holds a lock that is not taken. -/
theorem held_eq_zero (hconsistent : lock.Consistent) (hfree : lock.isLock = false)
    (thread : Thread) : (lock.threads thread).held = 0 := by
  refine Nat.eq_zero_of_not_pos fun hheld ↦ ?_
  exact Bool.false_ne_true (hfree.symm.trans (hconsistent.owner_of_held hheld).1)

theorem counts_eq_zero (hconsistent : lock.Consistent) (hfree : lock.isLock = false) :
    lock.counts = 0 := by
  refine le_antisymm (not_lt.mp fun hpos ↦ ?_) hconsistent.nonneg
  exact Bool.false_ne_true (hfree.symm.trans (hconsistent.flag.mpr hpos))

variable [DecidableEq Thread] {thread : Thread} {own old : ToMutexThread} {depth : ℕ} {msec : ℤ}

theorem sane_update (hconsistent : lock.Consistent) (hown : own.Sane) (other : Thread) :
    (Function.update lock.threads thread own other).Sane :=
  forall_update hconsistent.sane hown other

theorem startsWait_update (hconsistent : lock.Consistent)
    (hown : own.StartsWait → lock.isLock = true) (other : Thread) :
    (Function.update lock.threads thread own other).StartsWait → lock.isLock = true :=
  @forall_update _ _ _ (fun state : ToMutexThread ↦ state.StartsWait → lock.isLock = true) _ _ _
    hconsistent.startsWait hown other

/-- A step that changes nothing that the thread holds. -/
theorem set (hconsistent : lock.Consistent) (hown : lock.threads thread = old) (hsane : own.Sane)
    (hheld : own.held = old.held) (hmutex : own.HoldsMutex ↔ old.HoldsMutex)
    (hblocked : own.IsBlocked ↔ old.IsBlocked) (hstarts : own.StartsWait → lock.isLock = true) :
    (lock.set thread own).Consistent where
  sane := hconsistent.sane_update hsane
  nested := hconsistent.nested.keep hown hheld
  nonneg := hconsistent.nonneg
  flag := hconsistent.flag
  mutex := hconsistent.mutex.keep hown hmutex
  waiting := hconsistent.waiting.keep hown hblocked
  startsWait := hconsistent.startsWait_update hstarts

/-- A thread takes `m_mutex`. -/
theorem takeMutex (hconsistent : lock.Consistent) (hown : lock.threads thread = old)
    (hfree : lock.mutex = none) (hsane : own.Sane) (hheld : own.held = old.held)
    (hmutex : own.HoldsMutex) (hblocked : own.IsBlocked ↔ old.IsBlocked)
    (hstarts : ¬ own.StartsWait) :
    ({ lock with mutex := some thread }.set thread own).Consistent where
  sane := hconsistent.sane_update hsane
  nested := hconsistent.nested.keep hown hheld
  nonneg := hconsistent.nonneg
  flag := hconsistent.flag
  mutex := hconsistent.mutex.take hfree hmutex
  waiting := hconsistent.waiting.keep hown hblocked
  startsWait := hconsistent.startsWait_update fun hown ↦ absurd hown hstarts

/-- The holder of `m_mutex` gives it up. -/
theorem dropMutex (hconsistent : lock.Consistent) (hown : lock.threads thread = old)
    (hsane : own.Sane) (hheld : own.held = old.held) (hholds : old.HoldsMutex)
    (hmutex : ¬ own.HoldsMutex) (hblocked : own.IsBlocked ↔ old.IsBlocked)
    (hstarts : ¬ own.StartsWait) :
    ({ lock with mutex := none }.set thread own).Consistent where
  sane := hconsistent.sane_update hsane
  nested := hconsistent.nested.keep hown hheld
  nonneg := hconsistent.nonneg
  flag := hconsistent.flag
  mutex := hconsistent.mutex.drop hown hholds hmutex
  waiting := hconsistent.waiting.keep hown hblocked
  startsWait := hconsistent.startsWait_update fun hown ↦ absurd hown hstarts

/-- `Wait` gives `m_mutex` up. -/
theorem startWait (hconsistent : lock.Consistent)
    (hown : lock.threads thread = ⟨depth, .startWait msec⟩) :
    ({ lock with mutex := none, waiting := lock.waiting ++ [thread] }.set thread
      ⟨depth, .blocked msec⟩).Consistent where
  sane := hconsistent.sane_update
    (show ToMutexThread.Sane ⟨depth, .startWait msec⟩ from hown ▸ hconsistent.sane thread)
  nested := hconsistent.nested.keep hown rfl
  nonneg := hconsistent.nonneg
  flag := hconsistent.flag
  mutex := hconsistent.mutex.drop hown trivial not_false
  waiting := hconsistent.waiting.add trivial
  startsWait := hconsistent.startsWait_update fun hown ↦ absurd hown not_false

theorem wake (hconsistent : lock.Consistent) (woken : List Thread) (reason : WakeReason) :
    (lock.wake woken reason).Consistent where
  sane other := by
    show ToMutexThread.Sane (if _ then _ else _)
    split_ifs
    · exact (hconsistent.sane other).wake reason
    · exact hconsistent.sane other
  nested := hconsistent.nested.wake (fun own ↦ own.held_wake reason) woken
  nonneg := hconsistent.nonneg
  flag := hconsistent.flag
  mutex := hconsistent.mutex.wake (fun own ↦ own.holdsMutex_wake reason) woken
  waiting := hconsistent.waiting.wake (fun own ↦ own.not_isBlocked_wake reason) woken
  startsWait other hstarts := by
    refine hconsistent.startsWait other ?_
    have hstarts : ToMutexThread.StartsWait (if _ then _ else _) := hstarts
    split_ifs at hstarts
    · exact (ToMutexThread.startsWait_wake _ reason).mp hstarts
    · exact hstarts

/-- A thread in `m_mutex` takes the lock. -/
theorem take (hconsistent : lock.Consistent) (hown : lock.threads thread = old)
    (hfree : lock.isLock = false) (hholds : old.HoldsMutex) (hblocked : ¬ old.IsBlocked)
    (hheld : old.held = depth) : (lock.take thread depth).Consistent := by
  have hzero := hconsistent.held_eq_zero hfree thread
  rw [hown, hheld] at hzero
  subst hzero
  have hcount : lock.counts.toNat = 0 := by rw [hconsistent.counts_eq_zero hfree]; rfl
  have hone : 0 < ToMutexThread.held ⟨0, .leaveLock true⟩ := Nat.one_pos
  exact {
    sane := hconsistent.sane_update
      ⟨show 0 < 2147483648 by decide, show 0 + 1 < 2147483648 by decide⟩
    nested := hconsistent.nested.take hcount hone rfl
    nonneg := show (0 : ℤ) ≤ 1 by decide
    flag := iff_of_true rfl (show (0 : ℤ) < 1 by decide)
    mutex := hconsistent.mutex.keep hown (iff_of_true trivial hholds)
    waiting := hconsistent.waiting.keep hown (iff_of_false not_false hblocked)
    startsWait := fun _ _ ↦ rfl }

/-- The holder takes the lock once more. -/
theorem lockAgain (hconsistent : lock.Consistent) {notified : Bool}
    (hown : lock.threads thread = ⟨depth, .testLock msec notified⟩) (hlock : lock.isLock = true)
    (htid : lock.tid = some thread) :
    ({ lock with counts := toInt32 (lock.counts + 1) }.set thread
      ⟨depth, .leaveLock true⟩).Consistent := by
  have hsane := hconsistent.sane thread
  have howner : lock.owner = some thread := (if_pos hlock).trans htid
  have hheld := (hconsistent.nested.heldBy thread).mp howner
  have hcount := (hconsistent.owner_of_held hheld).2.2
  rw [hown] at hsane hheld hcount
  obtain ⟨(hdepth : depth < 2147483648), (hmore : depth + 1 < 2147483648)⟩ := hsane
  have hcount : lock.counts = depth := hcount
  have hnext : toInt32 (lock.counts + 1) = (depth + 1 : ℕ) := by
    rw [toInt32_eq_self (by omega) (by omega)]
    omega
  have hpos : 0 < ToMutexThread.held ⟨depth, .leaveLock true⟩ := Nat.succ_pos depth
  rw [hnext]
  exact {
    sane := hconsistent.sane_update ⟨hdepth, hmore⟩
    nested := hconsistent.nested.change hown hheld hpos (Int.toNat_natCast _)
    nonneg := Int.natCast_nonneg _
    flag := iff_of_true hlock (Int.natCast_pos.mpr (Nat.succ_pos depth))
    mutex := hconsistent.mutex.keep hown Iff.rfl
    waiting := hconsistent.waiting.keep hown Iff.rfl
    startsWait := fun _ _ ↦ hlock }

theorem testLock (hconsistent : lock.Consistent) {notified : Bool}
    (hown : lock.threads thread = ⟨depth, .testLock msec notified⟩) :
    (lock.testLock thread depth msec).Consistent := by
  have hsane := hconsistent.sane thread
  rw [hown] at hsane
  unfold ToMutex.testLock
  split_ifs with hlock htid hnegative
  · exact hconsistent.lockAgain hown hlock htid
  · exact hconsistent.set hown ⟨hsane.1, trivial⟩ rfl Iff.rfl Iff.rfl fun _ ↦ hlock
  · exact hconsistent.set hown hsane rfl Iff.rfl Iff.rfl fun _ ↦ hlock
  · exact hconsistent.take hown (Bool.eq_false_of_not_eq_true hlock) trivial not_false rfl

theorem expired (hconsistent : lock.Consistent)
    (hown : lock.threads thread = ⟨depth, .expired⟩) : (lock.expired thread depth).Consistent := by
  have hsane := hconsistent.sane thread
  rw [hown] at hsane
  unfold ToMutex.expired
  split_ifs with hlock
  · exact hconsistent.set hown ⟨hsane.1, trivial⟩ rfl Iff.rfl Iff.rfl fun _ ↦ hlock
  · exact hconsistent.take hown (Bool.eq_false_of_not_eq_true hlock) trivial not_false rfl

/-- The holder undoes one of its locks. -/
theorem decrement (hconsistent : lock.Consistent)
    (hown : lock.threads thread = ⟨depth, .decrement⟩) :
    (lock.decrement thread depth).Consistent := by
  have hsane := hconsistent.sane thread
  rw [hown] at hsane
  obtain ⟨(hdepth : depth < 2147483648), (hpos : 0 < depth)⟩ := hsane
  have hheld : 0 < ToMutexThread.held ⟨depth, .decrement⟩ := hpos
  obtain ⟨hlock, htid, hcount⟩ := hconsistent.owner_of_held (by rwa [hown])
  rw [hown] at hcount
  have hcount : lock.counts = depth := hcount
  have hnext : toInt32 (lock.counts - 1) = (depth - 1 : ℕ) := by
    rw [toInt32_eq_self (by omega) (by omega)]
    omega
  have hothers : ∀ other, other ≠ thread → ¬ (lock.threads other).StartsWait := by
    intro other hother hstarts
    exact hother (hconsistent.mutex.unique hstarts.holdsMutex
      (show (lock.threads thread).HoldsMutex from hown ▸ trivial))
  have hown' : ToMutexThread.Sane ⟨depth - 1, .leaveUnlock⟩ :=
    ⟨lt_of_le_of_lt (Nat.sub_le depth 1) hdepth, trivial⟩
  unfold ToMutex.decrement
  simp only [hnext]
  have hstarts (flag : Bool) : ∀ other, (Function.update lock.threads thread
      ⟨depth - 1, .leaveUnlock⟩ other).StartsWait → flag = true :=
    @forall_update_of_ne _ _ _ (fun state : ToMutexThread ↦ state.StartsWait → flag = true) _ _ _
      (fun other hother hstarts ↦ absurd hstarts (hothers other hother))
      fun hstarts ↦ absurd hstarts not_false
  split_ifs with hlast
  · obtain rfl : depth = 1 := by omega
    exact {
      sane := hconsistent.sane_update hown'
      nested := hconsistent.nested.drop hown hheld rfl
      nonneg := Int.natCast_nonneg _
      flag := iff_of_false Bool.false_ne_true (not_lt.mpr hlast)
      mutex := hconsistent.mutex.keep hown Iff.rfl
      waiting := hconsistent.waiting.keep hown Iff.rfl
      startsWait := hstarts false }
  · have hmore : 0 < ToMutexThread.held ⟨depth - 1, .leaveUnlock⟩ := by
      show 0 < depth - 1
      omega
    exact {
      sane := hconsistent.sane_update hown'
      nested := hconsistent.nested.change hown hheld hmore (Int.toNat_natCast _)
      nonneg := Int.natCast_nonneg _
      flag := iff_of_true hlock (not_le.mp hlast)
      mutex := hconsistent.mutex.keep hown Iff.rfl
      waiting := hconsistent.waiting.keep hown Iff.rfl
      startsWait := hstarts lock.isLock }

end Consistent

variable [DecidableEq Thread]

/-- No thread calls `Lock` so often that the count wraps. -/
def CountsWithin (lock : ToMutex Thread) : ToMutexEvent Thread → Prop
  | .call thread (.lock _) => (lock.threads thread).depth + 1 < 2147483648
  | _ => True

instance (lock : ToMutex Thread) (event : ToMutexEvent Thread) :
    Decidable (lock.CountsWithin event) :=
  match event with
  | .call _ (.lock _) => inferInstanceAs (Decidable (_ < (_ : ℕ)))
  | .call _ .unlock | .advance _ | .signal _ _ | .wakeUp _ | .timeOut _ =>
    inferInstanceAs (Decidable True)

/-! ### The steps -/

section Steps

variable {lock next : ToMutex Thread} {thread : Thread}

theorem call_eq_some {operation : ToMutexOperation}
    (hcall : lock.call thread operation = some next) :
    ∃ depth, lock.threads thread = ⟨depth, .outside⟩ ∧ (operation = .unlock → 0 < depth) ∧
      next = lock.set thread ⟨depth, operation.start⟩ := by
  unfold call at hcall
  rcases hown : lock.threads thread with ⟨depth, place⟩
  rw [hown] at hcall
  cases place with
  | outside =>
    simp only at hcall
    split_ifs at hcall with hnone
    refine ⟨depth, rfl, fun hunlock ↦ Nat.pos_of_ne_zero fun hzero ↦ ?_,
      (Option.some.inj hcall).symm⟩
    exact hnone ⟨hunlock, hzero⟩
  | _ => cases hcall

theorem signal_eq_some {woken : Option Thread} (hsignal : lock.signal thread woken = some next) :
    ∃ depth, lock.threads thread = ⟨depth, .notify⟩ ∧ (∀ other ∈ woken, other ∈ lock.waiting) ∧
      (woken = none → lock.waiting = []) ∧
      next = (lock.wake woken.toList .notified).set thread ⟨depth, .outside⟩ := by
  unfold signal at hsignal
  rcases hown : lock.threads thread with ⟨depth, place⟩
  rw [hown] at hsignal
  cases place with
  | notify =>
    simp only at hsignal
    split_ifs at hsignal with hallowed
    exact ⟨depth, rfl, hallowed.1, hallowed.2, (Option.some.inj hsignal).symm⟩
  | _ => cases hsignal

theorem wakeUp_eq_some (hstep : lock.step (.wakeUp thread) = some next) :
    lock.wake [thread] .spurious = next := by
  unfold step at hstep
  simp only at hstep
  split_ifs at hstep
  exact Option.some.inj hstep

theorem timeOut_eq_some (htimeOut : lock.timeOut thread = some next) :
    lock.wake [thread] .timedOut = next := by
  unfold timeOut at htimeOut
  rcases hown : lock.threads thread with ⟨depth, place⟩
  rw [hown] at htimeOut
  cases place with
  | blocked msec =>
    simp only at htimeOut
    split_ifs at htimeOut
    exact Option.some.inj htimeOut
  | _ => cases htimeOut

/-- A thread that does not wait is not changed when others are woken. -/
theorem wake_threads_of_not_blocked (woken : List Thread) (reason : WakeReason)
    (hblocked : ¬ (lock.threads thread).IsBlocked) :
    (lock.wake woken reason).threads thread = lock.threads thread := by
  show (if _ then _ else _) = _
  rw [ToMutexThread.wake_of_not_isBlocked reason hblocked, ite_self]

theorem call_consistent {operation : ToMutexOperation}
    (hgood : lock.CountsWithin (.call thread operation)) (hconsistent : lock.Consistent)
    (hcall : lock.call thread operation = some next) : next.Consistent := by
  obtain ⟨depth, hown, hunlock, rfl⟩ := call_eq_some hcall
  have hsane := hconsistent.sane thread
  rw [hown] at hsane
  cases operation with
  | lock msec =>
    have hmore : (lock.threads thread).depth + 1 < 2147483648 := hgood
    rw [hown] at hmore
    exact hconsistent.set hown ⟨hsane.1, hmore⟩ rfl Iff.rfl Iff.rfl fun hstarts ↦
      absurd hstarts not_false
  | unlock =>
    exact hconsistent.set hown ⟨hsane.1, hunlock rfl⟩ rfl Iff.rfl Iff.rfl fun hstarts ↦
      absurd hstarts not_false

theorem signal_consistent {woken : Option Thread} (hconsistent : lock.Consistent)
    (hsignal : lock.signal thread woken = some next) : next.Consistent := by
  obtain ⟨depth, hown, -, -, rfl⟩ := signal_eq_some hsignal
  have hsane := hconsistent.sane thread
  have hwoken : (lock.wake woken.toList .notified).threads thread = ⟨depth, .notify⟩ := by
    rw [wake_threads_of_not_blocked _ _ (hown ▸ not_false), hown]
  rw [hown] at hsane
  exact (hconsistent.wake _ _).set hwoken ⟨hsane.1, trivial⟩ rfl Iff.rfl Iff.rfl fun hstarts ↦
    absurd hstarts not_false

theorem advance_consistent (hconsistent : lock.Consistent)
    (hadvance : lock.advance thread = some next) : next.Consistent := by
  unfold advance at hadvance
  have hsane := hconsistent.sane thread
  rcases hown : lock.threads thread with ⟨depth, place⟩
  rw [hown] at hadvance hsane
  cases place with
  | enterLock msec =>
    simp only at hadvance
    split_ifs at hadvance with hfree
    obtain rfl := Option.some.inj hadvance
    exact hconsistent.takeMutex hown hfree hsane rfl trivial Iff.rfl not_false
  | testLock msec notified => exact Option.some.inj hadvance ▸ hconsistent.testLock hown
  | startWait msec => exact Option.some.inj hadvance ▸ hconsistent.startWait hown
  | woken msec reason =>
    simp only at hadvance
    split_ifs at hadvance with hfree
    obtain rfl := Option.some.inj hadvance
    cases reason <;>
      exact hconsistent.takeMutex hown hfree hsane rfl trivial Iff.rfl not_false
  | expired => exact Option.some.inj hadvance ▸ hconsistent.expired hown
  | leaveLock result =>
    obtain rfl := Option.some.inj hadvance
    cases result with
    | true =>
      exact hconsistent.dropMutex hown ⟨hsane.2, trivial⟩ rfl trivial not_false Iff.rfl not_false
    | false =>
      exact hconsistent.dropMutex hown ⟨hsane.1, trivial⟩ rfl trivial not_false Iff.rfl not_false
  | enterUnlock =>
    simp only at hadvance
    split_ifs at hadvance with hfree
    obtain rfl := Option.some.inj hadvance
    exact hconsistent.takeMutex hown hfree hsane rfl trivial Iff.rfl not_false
  | decrement => exact Option.some.inj hadvance ▸ hconsistent.decrement hown
  | leaveUnlock =>
    obtain rfl := Option.some.inj hadvance
    exact hconsistent.dropMutex hown ⟨hsane.1, trivial⟩ rfl trivial not_false Iff.rfl not_false
  | readFlag =>
    obtain rfl := Option.some.inj hadvance
    split_ifs <;>
      exact hconsistent.set hown ⟨hsane.1, trivial⟩ rfl Iff.rfl Iff.rfl fun hstarts ↦
        absurd hstarts not_false
  | outside | blocked | notify | asserted => cases hadvance

/-- Every step keeps the fields in agreement with the threads. -/
theorem step_consistent {event : ToMutexEvent Thread} (hgood : lock.CountsWithin event)
    (hstep : lock.step event = some next) (hconsistent : lock.Consistent) : next.Consistent := by
  cases event with
  | call thread operation => exact call_consistent hgood hconsistent hstep
  | advance thread => exact advance_consistent hconsistent hstep
  | signal thread woken => exact signal_consistent hconsistent hstep
  | wakeUp thread => exact wakeUp_eq_some hstep ▸ hconsistent.wake _ _
  | timeOut thread => exact timeOut_eq_some hstep ▸ hconsistent.wake _ _

end Steps

end ToMutex

end RocketMQClient.Kpr
