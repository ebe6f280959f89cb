import Mathlib.Tactic.Common

/-!
# Service threads

A service is a thread that works in rounds. Between two of them it waits at its own monitor until it
is woken or some time has passed, and a flag says that it has been woken since it last looked. Each
section of the monitor is one step here: the monitor notifies a waiting thread when `wakeup` leaves
it.

A thread that is blocked has not been notified (`Sound`), because `wakeup` sets the flag and ends
the wait in one section.
-/

set_option autoImplicit false
set_option relaxedAutoImplicit false

namespace RocketMQClient.Common

/-- The flags of a service, and whether its thread is blocked in `Wait`. -/
structure ServiceThread where
  notified : Bool
  stoped : Bool
  blocked : Bool
  deriving DecidableEq

namespace ServiceThread

def initial : ServiceThread := ⟨false, false, false⟩

/-- The first half of `stop`. -/
def setStoped (service : ServiceThread) : ServiceThread := { service with stoped := true }

def wakeup (service : ServiceThread) : ServiceThread :=
  if service.notified then service else { service with notified := true, blocked := false }

/-- `waitForRunning` up to the wait. -/
def waitForRunning (service : ServiceThread) : ServiceThread :=
  if service.notified then { service with notified := false } else { service with blocked := true }

/-- The time of the wait is over, or it ends by itself. -/
def endWait (service : ServiceThread) : ServiceThread := { service with blocked := false }

/-- `waitForRunning` behind the wait, which may throw. -/
def leaveWait (service : ServiceThread) (throws : Bool) : ServiceThread :=
  if throws then { service with notified := false } else service

/-- A thread that is blocked has not been notified. -/
def Sound (service : ServiceThread) : Prop :=
  service.blocked = true → service.notified = false

variable {service : ServiceThread}

theorem sound_initial : initial.Sound := fun hblocked ↦ absurd hblocked Bool.false_ne_true

theorem Sound.wakeup (hsound : service.Sound) : service.wakeup.Sound := by
  unfold ServiceThread.wakeup
  split_ifs
  · exact hsound
  · exact fun hblocked ↦ absurd hblocked Bool.false_ne_true

theorem sound_waitForRunning (service : ServiceThread) : service.waitForRunning.Sound := by
  unfold ServiceThread.waitForRunning
  split_ifs with hnotified
  · exact fun _ ↦ rfl
  · exact fun _ ↦ Bool.eq_false_iff.mpr hnotified

/-- Behind `wakeup` the flag is set. -/
theorem notified_wakeup (service : ServiceThread) : service.wakeup.notified = true := by
  unfold ServiceThread.wakeup
  split_ifs with hnotified
  · exact hnotified
  · rfl

theorem stoped_wakeup (service : ServiceThread) : service.wakeup.stoped = service.stoped := by
  unfold ServiceThread.wakeup
  split_ifs <;> rfl

theorem blocked_wakeup (hsound : service.Sound) : service.wakeup.blocked = false := by
  unfold ServiceThread.wakeup
  split_ifs with hnotified
  · exact Bool.eq_false_iff.mpr fun hblocked ↦
      Bool.false_ne_true ((hsound hblocked).symm.trans hnotified)
  · rfl

/-- A thread that has been notified does not wait. -/
theorem waitForRunning_of_notified (hnotified : service.notified = true) :
    service.waitForRunning = { service with notified := false } :=
  if_pos hnotified

theorem waitForRunning_of_quiet (hquiet : service.notified = false) :
    service.waitForRunning = { service with blocked := true } :=
  if_neg (Bool.eq_false_iff.mp hquiet)

theorem blocked_leaveWait (service : ServiceThread) (throws : Bool) :
    (service.leaveWait throws).blocked = service.blocked := by
  unfold ServiceThread.leaveWait
  split_ifs <;> rfl

end ServiceThread

end RocketMQClient.Common
