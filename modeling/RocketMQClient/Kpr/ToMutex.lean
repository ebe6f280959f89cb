import Mathlib.Logic.Function.Basic
import Mathlib.Tactic.Common
import RocketMQClient.Library.EventSystem
import RocketMQClient.Library.MachineInt

/-!
# The lock with a time-out

A `ToMutex` is a lock that its holder may take again and that others wait for with a time-out. A
flag says whether it is taken, with the thread that holds it and the number of its locks; all three
are guarded by `m_mutex`. `Lock` waits at a condition variable while the flag is set, and `Unlock`
notifies one thread when it has cleared the flag, which it looks at once more behind `m_mutex`.

`toMutexSystem` interleaves the calls of any number of threads, with a step for each operation of
the pthread library, each section of `m_mutex` between two of them and the look at the flag. A wait
ends by a notification, by itself, or by its time-out, and then takes `m_mutex` again. The number of
locks is an `int` of 32 bits.
-/

set_option autoImplicit false
set_option relaxedAutoImplicit false

namespace RocketMQClient.Kpr

open Library

/-! ### The threads -/

/-- Why a wait ends. -/
inductive WakeReason where
  | notified
  | spurious
  | timedOut
  deriving DecidableEq

/-- The operations of the lock. -/
inductive ToMutexOperation where
  | lock (msec : ℤ)
  | unlock
  deriving DecidableEq

/-- What a thread does next, with its local variables. -/
inductive ToMutexPlace where
  /-- Calls an operation. -/
  | outside
  /-- `Lock`: `m_mutex.Lock()`. -/
  | enterLock (msec : ℤ)
  /-- The test of the loop and what follows it up to a wait; a notification may have led to it. -/
  | testLock (msec : ℤ) (notified : Bool)
  /-- `m_condition.Wait(m_mutex, msec)`, up to its release of `m_mutex`. -/
  | startWait (msec : ℤ)
  | blocked (msec : ℤ)
  /-- `Wait` takes `m_mutex` again. -/
  | woken (msec : ℤ) (reason : WakeReason)
  /-- `Wait` has returned false. -/
  | expired
  /-- `m_mutex.Unlock()`, and the result. -/
  | leaveLock (result : Bool)
  /-- `Unlock`: `m_mutex.Lock()`. -/
  | enterUnlock
  | decrement
  /-- `m_mutex.Unlock()`. -/
  | leaveUnlock
  /-- `if(m_bIsLock == false)`. -/
  | readFlag
  /-- `m_condition.Notify()`. -/
  | notify
  /-- An assertion has failed. -/
  | asserted
  deriving DecidableEq

/-- Where `Lock` goes on behind a wait. -/
def WakeReason.next (msec : ℤ) : WakeReason → ToMutexPlace
  | notified => .testLock msec true
  | spurious => .testLock msec false
  | timedOut => .expired

/-- The first step of an operation. -/
def ToMutexOperation.start : ToMutexOperation → ToMutexPlace
  | lock msec => .enterLock msec
  | unlock => .enterUnlock

/-- A thread: how many of its calls of `Lock` that returned true it has not undone by `Unlock`, and
its place. -/
structure ToMutexThread where
  depth : ℕ
  place : ToMutexPlace
  deriving DecidableEq

/-- A thread that waits is woken. -/
def ToMutexThread.wake (own : ToMutexThread) (reason : WakeReason) : ToMutexThread :=
  match own.place with
  | .blocked msec => ⟨own.depth, .woken msec reason⟩
  | _ => own

/-! ### The lock -/

/-- The fields of the lock, with the holder of `m_mutex`, the threads that wait at the condition
variable, and all threads. -/
structure ToMutex (Thread : Type*) where
  tid : Option Thread
  isLock : Bool
  counts : ℤ
  mutex : Option Thread
  waiting : List Thread
  threads : Thread → ToMutexThread

/-- A call of an operation, the next step of a thread, a notification with the thread that it wakes,
a spurious wake-up and the end of a time-out. -/
inductive ToMutexEvent (Thread : Type*) where
  | call (thread : Thread) (operation : ToMutexOperation)
  | advance (thread : Thread)
  | signal (thread : Thread) (woken : Option Thread)
  | wakeUp (thread : Thread)
  | timeOut (thread : Thread)
  deriving DecidableEq

/-- The thread that takes the step. -/
def ToMutexEvent.thread {Thread : Type*} : ToMutexEvent Thread → Thread
  | .call thread _ | .advance thread | .signal thread _ | .wakeUp thread | .timeOut thread => thread

namespace ToMutex

variable {Thread : Type*}

/-- Nobody has called an operation. -/
def initial : ToMutex Thread := ⟨none, false, 0, none, [], fun _ ↦ ⟨0, .outside⟩⟩

/-- The fields that are guarded by `m_mutex`. -/
def fields (lock : ToMutex Thread) : Option Thread × Bool × ℤ :=
  (lock.tid, lock.isLock, lock.counts)

variable [DecidableEq Thread]

def set (lock : ToMutex Thread) (thread : Thread) (own : ToMutexThread) : ToMutex Thread :=
  { lock with threads := Function.update lock.threads thread own }

/-- The condition variable wakes some threads. -/
def wake (lock : ToMutex Thread) (woken : List Thread) (reason : WakeReason) : ToMutex Thread :=
  { lock with
    waiting := lock.waiting.filter fun thread ↦ thread ∉ woken
    threads := fun thread ↦
      if thread ∈ woken then (lock.threads thread).wake reason else lock.threads thread }

/-- A call of an operation. Only a thread with a lock to undo calls `Unlock`. -/
def call (lock : ToMutex Thread) (thread : Thread) (operation : ToMutexOperation) :
    Option (ToMutex Thread) :=
  match lock.threads thread with
  | ⟨depth, .outside⟩ =>
    if operation = .unlock ∧ depth = 0 then none
    else some (lock.set thread ⟨depth, operation.start⟩)
  | _ => none

/-- The assignments of a thread that takes the lock. -/
def take (lock : ToMutex Thread) (thread : Thread) (depth : ℕ) : ToMutex Thread :=
  { lock with isLock := true, counts := 1, tid := some thread }.set thread ⟨depth, .leaveLock true⟩

/-- The loop of `Lock` up to a wait, and what is behind the loop. -/
def testLock (lock : ToMutex Thread) (thread : Thread) (depth : ℕ) (msec : ℤ) : ToMutex Thread :=
  if lock.isLock then
    if lock.tid = some thread then
      { lock with counts := toInt32 (lock.counts + 1) }.set thread ⟨depth, .leaveLock true⟩
    else lock.set thread ⟨depth, if msec < 0 then .asserted else .startWait msec⟩
  else lock.take thread depth

/-- Behind a wait that has timed out. -/
def expired (lock : ToMutex Thread) (thread : Thread) (depth : ℕ) : ToMutex Thread :=
  if lock.isLock then lock.set thread ⟨depth, .leaveLock false⟩ else lock.take thread depth

/-- The section of `Unlock`. -/
def decrement (lock : ToMutex Thread) (thread : Thread) (depth : ℕ) : ToMutex Thread :=
  let counts := toInt32 (lock.counts - 1)
  { lock with counts := counts, isLock := if counts ≤ 0 then false else lock.isLock }.set thread
    ⟨depth - 1, .leaveUnlock⟩

/-- The next step of a thread. `m_mutex.Lock()` waits until nobody holds `m_mutex`. -/
def advance (lock : ToMutex Thread) (thread : Thread) : Option (ToMutex Thread) :=
  match lock.threads thread with
  | ⟨depth, .enterLock msec⟩ =>
    if lock.mutex = none then
      some ({ lock with mutex := some thread }.set thread ⟨depth, .testLock msec false⟩)
    else none
  | ⟨depth, .testLock msec _⟩ => some (lock.testLock thread depth msec)
  | ⟨depth, .startWait msec⟩ =>
    some ({ lock with mutex := none, waiting := lock.waiting ++ [thread] }.set thread
      ⟨depth, .blocked msec⟩)
  | ⟨depth, .woken msec reason⟩ =>
    if lock.mutex = none then
      some ({ lock with mutex := some thread }.set thread ⟨depth, reason.next msec⟩)
    else none
  | ⟨depth, .expired⟩ => some (lock.expired thread depth)
  | ⟨depth, .leaveLock result⟩ =>
    some ({ lock with mutex := none }.set thread ⟨if result then depth + 1 else depth, .outside⟩)
  | ⟨depth, .enterUnlock⟩ =>
    if lock.mutex = none then
      some ({ lock with mutex := some thread }.set thread ⟨depth, .decrement⟩)
    else none
  | ⟨depth, .decrement⟩ => some (lock.decrement thread depth)
  | ⟨depth, .leaveUnlock⟩ => some ({ lock with mutex := none }.set thread ⟨depth, .readFlag⟩)
  | ⟨depth, .readFlag⟩ =>
    some (lock.set thread ⟨depth, if lock.isLock = false then .notify else .outside⟩)
  | ⟨_, .outside⟩ | ⟨_, .blocked _⟩ | ⟨_, .notify⟩ | ⟨_, .asserted⟩ => none

/-- `m_condition.Notify()`, which wakes a thread that waits if there is one. -/
def signal (lock : ToMutex Thread) (thread : Thread) (woken : Option Thread) :
    Option (ToMutex Thread) :=
  match lock.threads thread with
  | ⟨depth, .notify⟩ =>
    if (∀ other ∈ woken, other ∈ lock.waiting) ∧ (woken = none → lock.waiting = []) then
      some ((lock.wake woken.toList .notified).set thread ⟨depth, .outside⟩)
    else none
  | _ => none

/-- A time-out ends, for a thread that waits with one. A time-out of zero is none. -/
def timeOut (lock : ToMutex Thread) (thread : Thread) : Option (ToMutex Thread) :=
  match lock.threads thread with
  | ⟨_, .blocked msec⟩ => if 0 < msec then some (lock.wake [thread] .timedOut) else none
  | _ => none

/-- One step. -/
def step (lock : ToMutex Thread) : ToMutexEvent Thread → Option (ToMutex Thread)
  | .call thread operation => lock.call thread operation
  | .advance thread => lock.advance thread
  | .signal thread woken => lock.signal thread woken
  | .wakeUp thread =>
    if thread ∈ lock.waiting then some (lock.wake [thread] .spurious) else none
  | .timeOut thread => lock.timeOut thread

end ToMutex

/-- A lock with the threads that use it. -/
def toMutexSystem (Thread : Type*) [DecidableEq Thread] :
    EventSystem (ToMutex Thread) (ToMutexEvent Thread) where
  step := ToMutex.step

end RocketMQClient.Kpr
