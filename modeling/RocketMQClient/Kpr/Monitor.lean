import Mathlib.Logic.Function.Basic
import Mathlib.Tactic.Common
import RocketMQClient.Library.EventSystem
import RocketMQClient.Library.Holding
import RocketMQClient.Library.MachineInt

/-!
# The recursive monitor

A `Monitor` is a mutex that its owner may lock again, with a condition variable. The mutex keeps its
owner and the number of locks, both guarded by `m_internal`, and threads block on `m_mutex`, which
`lock` takes while it is in `m_internal`. `Wait` sets the number of locks to zero in one section,
gives `m_mutex` up inside the condition variable, and locks again in the destructor of
`ConditionHelper`. `Notify` only counts, and the last `Unlock` or a `Wait` sends the signals.

`monitorSystem` interleaves the calls of any number of threads, with a step for each section of
`m_internal` and each operation of the pthread library. The number of locks is an `unsigned int` of
32 bits and the number of notifications an `int`.
-/

set_option autoImplicit false
set_option relaxedAutoImplicit false

namespace RocketMQClient.Kpr

open Library

/-! ### The threads -/

/-- The callers of `RecursiveMutex::lock`. -/
inductive LockCaller where
  | lock
  | conditionHelper
  deriving DecidableEq

/-- The callers of `Monitor::notify`. A wait without a time-out has none. -/
inductive NotifyCaller where
  | unlock
  | wait (timeout : Option ℤ)
  deriving DecidableEq

/-- The operations that check that the owner calls them. -/
inductive OwnerOperation where
  | wait (timeout : Option ℤ)
  | notify
  | notifyAll
  deriving DecidableEq

/-- The operations of a monitor. -/
inductive Operation where
  | lock
  | unlock
  | byOwner (operation : OwnerOperation)
  deriving DecidableEq

/-- What a thread does next, with its local variables. -/
inductive Place where
  /-- Calls an operation. -/
  | outside
  /-- `lock`: the section of `m_internal`. -/
  | enterLock (caller : LockCaller) (count : ℕ)
  /-- In the section: `pthread_mutex_lock(&m_mutex)`. -/
  | takeMutex (caller : LockCaller)
  /-- The end of the section. -/
  | leaveLock (caller : LockCaller)
  /-- Behind the section: `pthread_mutex_lock(&m_mutex)`. -/
  | spinLock (caller : LockCaller) (count : ℕ)
  | spinUnlock (caller : LockCaller) (count : ℕ)
  /-- The assignments behind `lock`, which returned `rc`. -/
  | locked (caller : LockCaller) (rc : Bool)
  /-- `Unlock`: `m_mutex.GetCount() == 1`. -/
  | readCount
  /-- The loop of `notify`. -/
  | notifying (caller : NotifyCaller) (nnotify : ℤ)
  /-- `unlock`: the section of `m_internal`. -/
  | enterUnlock
  /-- In the section: `pthread_mutex_unlock(&m_mutex)`. -/
  | releaseMutex
  | leaveUnlock
  /-- `validateOwner`: the section of `GetOwner`. -/
  | validateOwner (operation : OwnerOperation)
  /-- The assignment of `Notify` or `NotifyAll`. -/
  | counting (all : Bool)
  /-- `wait`: the section of `reset4Condvar`. -/
  | resetCount (timeout : Option ℤ)
  /-- `pthread_cond_wait`, up to its release of `m_mutex`. -/
  | startWait (timeout : Option ℤ) (count : ℕ)
  | blocked (timeout : Option ℤ) (count : ℕ)
  /-- `pthread_cond_wait`: takes `m_mutex` again. -/
  | woken (count : ℕ)
  /-- `~ConditionHelper`: `pthread_mutex_unlock(&m_mutex.m_mutex)`. -/
  | endWait (count : ℕ)
  /-- An assertion has failed. -/
  | asserted
  deriving DecidableEq

/-- Where `notify` goes on. `Wait` checks that its time-out is not negative. -/
def NotifyCaller.next : NotifyCaller → Place
  | .unlock => .enterUnlock
  | .wait none => .resetCount none
  | .wait (some timeout) => if timeout < 0 then .asserted else .resetCount (some timeout)

/-- The first step of an operation. -/
def Operation.start : Operation → Place
  | .lock => .enterLock .lock 1
  | .unlock => .readCount
  | .byOwner operation => .validateOwner operation

/-- A thread: how many of its calls of `Lock` it has not undone by `Unlock`, and its place. -/
structure ThreadState where
  depth : ℕ
  place : Place
  deriving DecidableEq

/-- A thread that waits is woken. -/
def ThreadState.wake (own : ThreadState) : ThreadState :=
  match own.place with
  | .blocked _ count => ⟨own.depth, .woken count⟩
  | _ => own

/-! ### The monitor -/

/-- The fields of the monitor and of its mutex, with the holders of `m_internal` and `m_mutex`, the
threads that wait at the condition variable, and all threads. -/
structure Monitor (Thread : Type*) where
  count : ℕ
  owner : Option Thread
  internal : Option Thread
  mutex : Option Thread
  notifyCount : ℤ
  waiting : List Thread
  threads : Thread → ThreadState

/-- A call of an operation, the next step of a thread, a signal with the thread that it wakes, a
spurious wake-up and the end of a time-out. -/
inductive MonitorEvent (Thread : Type*) where
  | call (thread : Thread) (operation : Operation)
  | advance (thread : Thread)
  | signal (thread : Thread) (woken : Option Thread)
  | wakeUp (thread : Thread)
  | timeOut (thread : Thread)
  deriving DecidableEq

/-- The thread that takes the step. -/
def MonitorEvent.thread {Thread : Type*} : MonitorEvent Thread → Thread
  | .call thread _ | .advance thread | .signal thread _ | .wakeUp thread | .timeOut thread => thread

namespace Monitor

variable {Thread : Type*}

/-- Nobody has called an operation. -/
def initial : Monitor Thread := ⟨0, none, none, none, 0, [], fun _ ↦ ⟨0, .outside⟩⟩

variable [DecidableEq Thread]

def set (monitor : Monitor Thread) (thread : Thread) (own : ThreadState) : Monitor Thread :=
  { monitor with threads := Function.update monitor.threads thread own }

/-- The condition variable wakes some threads. -/
def wake (monitor : Monitor Thread) (woken : List Thread) : Monitor Thread :=
  { monitor with
    waiting := monitor.waiting.filter fun thread ↦ thread ∉ woken
    threads := fun thread ↦
      if thread ∈ woken then (monitor.threads thread).wake else monitor.threads thread }

/-- A call of an operation. Only a thread with a lock to undo calls `Unlock`. -/
def call (monitor : Monitor Thread) (thread : Thread) (operation : Operation) :
    Option (Monitor Thread) :=
  match monitor.threads thread with
  | ⟨depth, .outside⟩ =>
    if operation = .unlock ∧ depth = 0 then none
    else some (monitor.set thread ⟨depth, operation.start⟩)
  | _ => none

/-- The section of `m_internal` in `lock`. -/
def enterLock (monitor : Monitor Thread) (thread : Thread) (depth : ℕ) (caller : LockCaller)
    (count : ℕ) : Monitor Thread :=
  if monitor.count = 0 then
    { monitor with count := count, owner := some thread, internal := some thread }.set thread
      ⟨depth, .takeMutex caller⟩
  else if monitor.owner = some thread then
    { monitor with count := (monitor.count + count) % 4294967296 }.set thread
      ⟨depth, .locked caller false⟩
  else monitor.set thread ⟨depth, .spinLock caller count⟩

/-- The end of `Lock` and of `Wait`. -/
def locked (monitor : Monitor Thread) (thread : Thread) (depth : ℕ) (caller : LockCaller)
    (rc : Bool) : Monitor Thread :=
  match caller with
  | .lock =>
    { monitor with notifyCount := if rc then 0 else monitor.notifyCount }.set thread
      ⟨depth + 1, .outside⟩
  | .conditionHelper => { monitor with notifyCount := 0 }.set thread ⟨depth, .outside⟩

/-- `notify` when no signal is left to send. -/
def notify (monitor : Monitor Thread) (thread : Thread) (depth : ℕ) (caller : NotifyCaller)
    (nnotify : ℤ) : Option (Monitor Thread) :=
  if 0 < nnotify then none
  else if nnotify = -1 then
    some ((monitor.wake monitor.waiting).set thread ⟨depth, caller.next⟩)
  else some (monitor.set thread ⟨depth, caller.next⟩)

/-- `--` of an `unsigned int`. -/
def decrement (count : ℕ) : ℕ := (count + 4294967295) % 4294967296

/-- The section of `m_internal` in `unlock`. -/
def enterUnlock (monitor : Monitor Thread) (thread : Thread) (depth : ℕ) : Monitor Thread :=
  if decrement monitor.count = 0 then
    { monitor with count := 0, owner := none, internal := some thread }.set thread
      ⟨depth, .releaseMutex⟩
  else
    { monitor with count := decrement monitor.count }.set thread ⟨depth - 1, .outside⟩

/-- Where an operation goes on that its caller may call. -/
def afterValidate (notifyCount : ℤ) : OwnerOperation → Place
  | .wait timeout => .notifying (.wait timeout) notifyCount
  | .notify => .counting false
  | .notifyAll => .counting true

/-- `validateOwner`. -/
def validateOwner (monitor : Monitor Thread) (thread : Thread) (depth : ℕ)
    (operation : OwnerOperation) : Monitor Thread :=
  if 0 < monitor.count ∧ monitor.owner = some thread then
    monitor.set thread ⟨depth, afterValidate monitor.notifyCount operation⟩
  else monitor.set thread ⟨depth, .asserted⟩

/-- `m_notifyCount` behind `Notify` or `NotifyAll`. -/
def counted (notifyCount : ℤ) (all : Bool) : ℤ :=
  if all then -1 else if notifyCount ≠ -1 then toInt32 (notifyCount + 1) else notifyCount

/-- The next step of a thread. A section waits until nobody is in `m_internal`, and
`pthread_mutex_lock` until nobody holds `m_mutex`. -/
def advance (monitor : Monitor Thread) (thread : Thread) : Option (Monitor Thread) :=
  match monitor.threads thread with
  | ⟨depth, .enterLock caller count⟩ =>
    if monitor.internal = none then some (monitor.enterLock thread depth caller count) else none
  | ⟨depth, .takeMutex caller⟩ =>
    if monitor.mutex = none then
      some ({ monitor with mutex := some thread }.set thread ⟨depth, .leaveLock caller⟩)
    else none
  | ⟨depth, .leaveLock caller⟩ =>
    some ({ monitor with internal := none }.set thread ⟨depth, .locked caller true⟩)
  | ⟨depth, .spinLock caller count⟩ =>
    if monitor.mutex = none then
      some ({ monitor with mutex := some thread }.set thread ⟨depth, .spinUnlock caller count⟩)
    else none
  | ⟨depth, .spinUnlock caller count⟩ =>
    some ({ monitor with mutex := none }.set thread ⟨depth, .enterLock caller count⟩)
  | ⟨depth, .locked caller rc⟩ => some (monitor.locked thread depth caller rc)
  | ⟨depth, .readCount⟩ =>
    some (monitor.set thread ⟨depth,
      if monitor.count = 1 then .notifying .unlock monitor.notifyCount else .enterUnlock⟩)
  | ⟨depth, .notifying caller nnotify⟩ => monitor.notify thread depth caller nnotify
  | ⟨depth, .enterUnlock⟩ =>
    if monitor.internal = none then some (monitor.enterUnlock thread depth) else none
  | ⟨depth, .releaseMutex⟩ =>
    some ({ monitor with mutex := none }.set thread ⟨depth, .leaveUnlock⟩)
  | ⟨depth, .leaveUnlock⟩ =>
    some ({ monitor with internal := none }.set thread ⟨depth - 1, .outside⟩)
  | ⟨depth, .validateOwner operation⟩ =>
    if monitor.internal = none then some (monitor.validateOwner thread depth operation) else none
  | ⟨depth, .counting all⟩ =>
    some ({ monitor with notifyCount := counted monitor.notifyCount all }.set thread
      ⟨depth, .outside⟩)
  | ⟨depth, .resetCount timeout⟩ =>
    if monitor.internal = none then
      some ({ monitor with count := 0, owner := none }.set thread
        ⟨depth, .startWait timeout monitor.count⟩)
    else none
  | ⟨depth, .startWait timeout count⟩ =>
    some ({ monitor with mutex := none, waiting := monitor.waiting ++ [thread] }.set thread
      ⟨depth, .blocked timeout count⟩)
  | ⟨depth, .woken count⟩ =>
    if monitor.mutex = none then
      some ({ monitor with mutex := some thread }.set thread ⟨depth, .endWait count⟩)
    else none
  | ⟨depth, .endWait count⟩ =>
    some ({ monitor with mutex := none }.set thread ⟨depth, .enterLock .conditionHelper count⟩)
  | ⟨_, .outside⟩ | ⟨_, .blocked _ _⟩ | ⟨_, .asserted⟩ => none

/-- A signal of `notify`, which wakes a thread that waits if there is one. -/
def signal (monitor : Monitor Thread) (thread : Thread) (woken : Option Thread) :
    Option (Monitor Thread) :=
  match monitor.threads thread with
  | ⟨depth, .notifying caller nnotify⟩ =>
    if 0 < nnotify ∧ (∀ other ∈ woken, other ∈ monitor.waiting) ∧
        (woken = none → monitor.waiting = []) then
      some ((monitor.wake woken.toList).set thread ⟨depth, .notifying caller (nnotify - 1)⟩)
    else none
  | _ => none

/-- A time-out ends, for a thread that waits with one. -/
def timeOut (monitor : Monitor Thread) (thread : Thread) : Option (Monitor Thread) :=
  match monitor.threads thread with
  | ⟨_, .blocked (some _) _⟩ => some (monitor.wake [thread])
  | _ => none

/-- One step. -/
def step (monitor : Monitor Thread) : MonitorEvent Thread → Option (Monitor Thread)
  | .call thread operation => monitor.call thread operation
  | .advance thread => monitor.advance thread
  | .signal thread woken => monitor.signal thread woken
  | .wakeUp thread => if thread ∈ monitor.waiting then some (monitor.wake [thread]) else none
  | .timeOut thread => monitor.timeOut thread

end Monitor

/-- A monitor with the threads that use it. -/
def monitorSystem (Thread : Type*) [DecidableEq Thread] :
    EventSystem (Monitor Thread) (MonitorEvent Thread) where
  step := Monitor.step

end RocketMQClient.Kpr
