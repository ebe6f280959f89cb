import Mathlib.Data.List.Chain
import Mathlib.Data.List.TakeWhile
import RocketMQClient.Library.EventSystem
import RocketMQClient.Library.MachineInt
import RocketMQClient.Library.OrderedMap

/-!
# The timer thread

`TimerThread::Run` reads the clock in rounds, adds the time since the round before to every timer in
the table, and calls the handlers of those that have reached their `elapse`. A timer gets all of the
time since the last round, also what had passed before it was registered, and none of the time
before the thread started.

`timerSystem` interleaves the rounds with the registrations of any number of threads; reading the
clock and going through the table are two steps. Every timer keeps a record of the rounds that it
has seen. `FiresOnTime` is what the services rely on, and `fires_on_time_iff` says when it is met:
when no timer that has not fired is due by the time that it is credited with and not by the clock,
or the other way round, at the reading of a round. One-shot timers fire at most once and the firings
of a timer are far enough apart in every run (`regular`).

The addition wraps at 32 bits and the test against `elapse` is one of signed numbers, so that the
condition is arithmetic on readings of the clock: `CreditsFairly` compares the two for the timers in
the table at one reading. `outTime` is tied to the clock by the invariant `Counts`, with the reading
from which the timer is credited; from there one round settles whether the first firing is the first
one in time (`firstInTime_see`).
-/

set_option autoImplicit false
set_option relaxedAutoImplicit false

namespace RocketMQClient.Kpr

open Library

/-! ### Timers -/

/-- A delay below `2 ^ 31` milliseconds. -/
def Delay : Type := {millis : ℕ // millis < 2147483648}

/-- A round of checks that a timer has seen: the reading of the clock, and whether the handler of
the timer was called. -/
structure CheckRound where
  reading : ℕ
  fired : Bool
  deriving DecidableEq

/-- A `TimerInfo`, with the record of its timer: the initial delay, the clock at its registration,
the reading from which the time that it is credited with is counted, and the rounds. -/
structure Timer where
  elapse : Delay
  outTime : ℤ
  persistent : Bool
  initialDelay : Delay
  registeredAt : ℕ
  creditedFrom : ℕ
  rounds : List CheckRound

namespace Timer

/-- The record of a round. -/
def see (timer : Timer) (reading : ℕ) (fired : Bool) : Timer :=
  { timer with rounds := timer.rounds ++ [⟨reading, fired⟩] }

/-- The addition to `outTime`. -/
def credit (timer : Timer) (elapse : ℕ) : Timer :=
  { timer with outTime := toInt32 (timer.outTime + elapse) }

/-- The test against `int(elapse)`. -/
def isOut (timer : Timer) : Bool := toInt32 timer.elapse.val ≤ timer.outTime

/-- What the loop of `CheckTimeOut` makes of a timer. -/
def check (elapse reading : ℕ) (timer : Timer) : Timer :=
  let credited := timer.credit elapse
  if credited.isOut then
    if credited.persistent then { credited with outTime := 0 }.see reading true
    else credited.see reading true
  else credited.see reading false

/-- The loop erases a timer. -/
def isErased (elapse : ℕ) (timer : Timer) : Bool :=
  (timer.credit elapse).isOut && !timer.persistent

/-- The clock from which on the handler is to be called. -/
def dueAt (timer : Timer) : ℕ := timer.registeredAt + timer.initialDelay.val + timer.elapse.val

/-- The readings at which the handler was called. -/
def firings (timer : Timer) : List ℕ :=
  (timer.rounds.filter CheckRound.fired).map CheckRound.reading

/-- The handler is called in the first round that reads the clock when the timer is due and in no
earlier one, at most once if the timer is not persistent, and at readings `elapse` apart. -/
structure FiresOnTime (timer : Timer) : Prop where
  notEarly : ∀ round ∈ timer.rounds.find? CheckRound.fired, timer.dueAt ≤ round.reading
  notLate : ∀ round ∈ timer.rounds.takeWhile (fun round ↦ !round.fired),
    round.reading < timer.dueAt
  once : timer.persistent = false → timer.firings.length ≤ 1
  apart : timer.firings.IsChain fun earlier later ↦ earlier + timer.elapse.val ≤ later

/-- The handler has not been called. -/
def Unfired (timer : Timer) : Prop := ∀ round ∈ timer.rounds, round.fired = false

instance (timer : Timer) : Decidable timer.Unfired :=
  inferInstanceAs (Decidable (∀ round ∈ _, _))

end Timer

/-! ### The thread -/

/-- Where the thread is in `Run`, with its local variables. -/
inductive TimerPhase where
  | created
  | checked (lastCheckTime : ℕ)
  | read (lastCheckTime currentCheckTime : ℕ)
  deriving DecidableEq

/-- The reading of the last round. -/
def TimerPhase.lastCheckTime : TimerPhase → Option ℕ
  | .created => none
  | .checked lastCheckTime | .read lastCheckTime _ => some lastCheckTime

/-- The table of timers, the phase of the thread and the clock, and the timers that have left the
table: `gone` those that were overwritten by a timer of the same id or erased after their call, and
`unregistered` the others. -/
structure TimerThread where
  timers : OrderedMap ℕ Timer
  phase : TimerPhase
  clock : ℕ
  gone : List Timer
  unregistered : List Timer

/-- The start of the thread, a registration with the id that it is given, the end of one, and the
two steps of a round. -/
inductive TimerEvent where
  | start (now : ℕ)
  | registerTimer (timerId : ℕ) (initialDelay elapse : Delay) (persistent : Bool) (now : ℕ)
  | unRegisterTimer (timerId : ℕ)
  | readClock (now : ℕ)
  | checkTimeOut

/-- The time since the round before, as an `unsigned int`. -/
def elapsed (lastCheckTime currentCheckTime : ℕ) : ℕ :=
  (currentCheckTime - lastCheckTime) % 4294967296

namespace TimerThread

/-- No timer has been registered. -/
def initial (clock : ℕ) : TimerThread := ⟨OrderedMap.empty, .created, clock, [], []⟩

/-- The first reading of the clock in `Run`. -/
def start (thread : TimerThread) (now : ℕ) : Option TimerThread :=
  match thread.phase with
  | .created => some { thread with
      timers := thread.timers.filterMapValues fun timer ↦ some { timer with creditedFrom := now }
      phase := .checked now
      clock := now }
  | .checked _ | .read _ _ => none

/-- The entry of a registration. -/
def newTimer (thread : TimerThread) (initialDelay elapse : Delay) (persistent : Bool) (now : ℕ) :
    Timer where
  elapse := elapse
  outTime := toInt32 (0 - initialDelay.val)
  persistent := persistent
  initialDelay := initialDelay
  registeredAt := now
  creditedFrom := thread.phase.lastCheckTime.getD now
  rounds := []

/-- `RegisterTimer`, which assigns the entry of the id. -/
def registerTimer (thread : TimerThread) (timerId : ℕ) (initialDelay elapse : Delay)
    (persistent : Bool) (now : ℕ) : TimerThread :=
  { thread with
    timers := thread.timers.assign timerId (thread.newTimer initialDelay elapse persistent now)
    clock := now
    gone := thread.gone ++ (thread.timers.find? timerId).toList }

/-- `UnRegisterTimer`. -/
def unRegisterTimer (thread : TimerThread) (timerId : ℕ) : TimerThread :=
  match thread.timers.find? timerId with
  | none => thread
  | some timer => { thread with
      timers := thread.timers.erase timerId
      unregistered := thread.unregistered ++ [timer] }

/-- The reading of the clock in the loop. -/
def readClock (thread : TimerThread) (now : ℕ) : Option TimerThread :=
  match thread.phase with
  | .checked lastCheckTime => some { thread with phase := .read lastCheckTime now, clock := now }
  | .created | .read _ _ => none

/-- `CheckTimeOut` with the time since the round before. -/
def checkTimeOut (thread : TimerThread) : Option TimerThread :=
  match thread.phase with
  | .read lastCheckTime currentCheckTime =>
    let elapse := elapsed lastCheckTime currentCheckTime
    some { thread with
      timers := thread.timers.filterMapValues fun timer ↦
        if timer.isErased elapse then none else some (timer.check elapse currentCheckTime)
      phase := .checked currentCheckTime
      gone := thread.gone.map (fun timer ↦ timer.see currentCheckTime false) ++
        (thread.timers.values.filter fun timer ↦ timer.isErased elapse).map fun timer ↦
          timer.check elapse currentCheckTime }
  | .created | .checked _ => none

/-- One step; the clock does not go back. -/
def step (thread : TimerThread) : TimerEvent → Option TimerThread
  | .start now => if thread.clock ≤ now then thread.start now else none
  | .registerTimer timerId initialDelay elapse persistent now =>
    if thread.clock ≤ now then
      some (thread.registerTimer timerId initialDelay elapse persistent now)
    else none
  | .unRegisterTimer timerId => some (thread.unRegisterTimer timerId)
  | .readClock now => if thread.clock ≤ now then thread.readClock now else none
  | .checkTimeOut => thread.checkTimeOut

/-- All timers that were registered. -/
def all (thread : TimerThread) : List Timer :=
  thread.timers.values ++ thread.gone ++ thread.unregistered

end TimerThread

/-- The timer thread with the threads that register timers. -/
def timerSystem : EventSystem TimerThread TimerEvent where
  step := TimerThread.step

/-! ### The condition -/

/-- At the reading of a round a timer in the table that has not fired is due by the time that it is
credited with, a signed number of 32 bits, exactly when it is due by the clock, and no timer that
was overwritten before it fired is due. -/
def CreditsFairly (thread : TimerThread) : TimerEvent → Prop
  | .checkTimeOut => ∀ lastCheckTime currentCheckTime,
    thread.phase = .read lastCheckTime currentCheckTime →
      (∀ timer ∈ thread.timers.values, timer.Unfired →
        ((timer.elapse.val : ℤ) ≤
            toInt32 (currentCheckTime - timer.creditedFrom - timer.initialDelay.val) ↔
          timer.dueAt ≤ currentCheckTime)) ∧
      ∀ timer ∈ thread.gone, timer.Unfired → currentCheckTime < timer.dueAt
  | .start _ | .registerTimer _ _ _ _ _ | .unRegisterTimer _ | .readClock _ => True

instance (thread : TimerThread) : Decidable (CreditsFairly thread .checkTimeOut) :=
  match hphase : thread.phase with
  | .created => isTrue fun _ _ hread ↦ nomatch hphase.symm.trans hread
  | .checked _ => isTrue fun _ _ hread ↦ nomatch hphase.symm.trans hread
  | .read last current =>
    decidable_of_iff
      ((∀ timer ∈ thread.timers.values, timer.Unfired →
        ((timer.elapse.val : ℤ) ≤
            toInt32 (current - timer.creditedFrom - timer.initialDelay.val) ↔
          timer.dueAt ≤ current)) ∧
        ∀ timer ∈ thread.gone, timer.Unfired → current < timer.dueAt)
      ⟨fun hfair last' current' hread ↦ by
        obtain ⟨rfl, rfl⟩ := TimerPhase.read.inj (hphase.symm.trans hread)
        exact hfair, fun hfair ↦ hfair last current hphase⟩

instance (thread : TimerThread) : ∀ event, Decidable (CreditsFairly thread event)
  | .checkTimeOut => inferInstance
  | .start _ => isTrue trivial
  | .registerTimer _ _ _ _ _ => isTrue trivial
  | .unRegisterTimer _ => isTrue trivial
  | .readClock _ => isTrue trivial

/-! ### The first firing -/

/-- Of some rounds the first one at which a handler was called is the first one in time. -/
def FirstInTime (dueAt : ℕ) (rounds : List CheckRound) : Prop :=
  (∀ round ∈ rounds.find? CheckRound.fired, dueAt ≤ round.reading) ∧
    ∀ round ∈ rounds.takeWhile (fun round ↦ !round.fired), round.reading < dueAt

section FirstInTime

variable {dueAt : ℕ} {rounds : List CheckRound} {round : CheckRound}

/-- A round after others in which the handler was not called is in time. -/
theorem firstInTime_append_of_unfired (hunfired : ∀ earlier ∈ rounds, earlier.fired = false) :
    FirstInTime dueAt (rounds ++ [round]) ↔
      FirstInTime dueAt rounds ∧ (round.fired = true ↔ dueAt ≤ round.reading) := by
  have hnone : rounds.find? CheckRound.fired = none :=
    List.find?_eq_none.mpr fun earlier hearlier ↦ by simp [hunfired earlier hearlier]
  have hall : rounds.takeWhile (fun round ↦ !round.fired) = rounds :=
    List.takeWhile_eq_self_iff.mpr fun earlier hearlier ↦ by simp [hunfired earlier hearlier]
  have htake : (rounds ++ [round]).takeWhile (fun round ↦ !round.fired) =
      rounds ++ [round].takeWhile (fun round ↦ !round.fired) :=
    List.takeWhile_append_of_pos fun earlier hearlier ↦ by simp [hunfired earlier hearlier]
  rw [FirstInTime, FirstInTime, htake, hall, List.find?_append, hnone, Option.none_or]
  cases hfired : round.fired <;> simp [hfired, or_imp, forall_and, and_comm]

/-- A round after one in which the handler was called does not matter. -/
theorem firstInTime_append_of_fired (hfired : ∃ earlier ∈ rounds, earlier.fired = true) :
    FirstInTime dueAt (rounds ++ [round]) ↔ FirstInTime dueAt rounds := by
  have hsome : (rounds.find? CheckRound.fired).isSome = true := List.find?_isSome.mpr hfired
  have hshort : (rounds.takeWhile fun round ↦ !round.fired).length ≠ rounds.length := by
    intro hlength
    have hall := (List.takeWhile_prefix _).eq_of_length hlength
    obtain ⟨earlier, hearlier, hcalled⟩ := hfired
    have hnot := List.takeWhile_eq_self_iff.mp hall earlier hearlier
    rw [hcalled] at hnot
    cases hnot
  rw [FirstInTime, FirstInTime, List.takeWhile_append, if_neg hshort, List.find?_append,
    Option.or_of_isSome hsome]

end FirstInTime

/-! ### One round of one timer -/

namespace Timer

variable {timer : Timer} {reading elapse last : ℕ} {fired : Bool}

theorem unfired_iff : timer.Unfired ↔ timer.firings = [] := by
  rw [firings, List.map_eq_nil_iff, List.filter_eq_nil_iff]
  exact forall₂_congr fun round _ ↦ by simp

/-- A round that a timer sees: it has to be the first one in time if the timer has not fired. -/
theorem firstInTime_see : FirstInTime timer.dueAt (timer.see reading fired).rounds ↔
    FirstInTime timer.dueAt timer.rounds ∧
      (timer.Unfired → (fired = true ↔ timer.dueAt ≤ reading)) := by
  by_cases hunfired : timer.Unfired
  · exact (firstInTime_append_of_unfired hunfired).trans
      (and_congr_right fun _ ↦ ⟨fun hiff _ ↦ hiff, fun hall ↦ hall hunfired⟩)
  · have hfired : ∃ earlier ∈ timer.rounds, earlier.fired = true := by
      simpa [Unfired] using hunfired
    exact (firstInTime_append_of_fired hfired).trans
      (and_iff_left fun hboth ↦ absurd hboth hunfired).symm

theorem firings_see_true : (timer.see reading true).firings = timer.firings ++ [reading] := by
  simp [firings, see]

theorem firings_see_false : (timer.see reading false).firings = timer.firings := by
  simp [firings, see]

/-- The clock at which the `outTime` of a timer is zero: the reading of its last firing, or else the
reading from which it is credited, and the initial delay. -/
def origin (timer : Timer) : ℤ :=
  match timer.firings.getLast? with
  | none => timer.creditedFrom + timer.initialDelay.val
  | some reading => reading

theorem origin_of_unfired (hunfired : timer.Unfired) :
    timer.origin = timer.creditedFrom + timer.initialDelay.val := by
  rw [origin, unfired_iff.mp hunfired]
  rfl

/-- A timer in the table while the thread runs: `outTime` is the time since its origin, and it has
fired at readings of the past. -/
structure Counts (last : ℕ) (timer : Timer) : Prop where
  outTime : timer.outTime = toInt32 (last - timer.origin)
  past : ∀ reading ∈ timer.firings, reading ≤ last

/-- A timer that is not persistent fires at most once, and the firings are `elapse` apart. -/
structure Regular (timer : Timer) : Prop where
  once : timer.persistent = false → timer.firings.length ≤ 1
  apart : timer.firings.IsChain fun earlier later ↦ earlier + timer.elapse.val ≤ later

theorem firings_of_no_rounds (hrounds : timer.rounds = []) : timer.firings = [] := by
  rw [firings, hrounds]
  rfl

theorem unfired_of_no_rounds (hrounds : timer.rounds = []) : timer.Unfired :=
  unfired_iff.mpr (firings_of_no_rounds hrounds)

theorem regular_of_no_rounds (hrounds : timer.rounds = []) : timer.Regular := by
  have hfirings := firings_of_no_rounds hrounds
  exact ⟨fun _ ↦ hfirings ▸ Nat.zero_le 1, hfirings ▸ List.isChain_nil⟩

/-- A timer without firings whose `outTime` is its negative initial delay counts from the reading
from which it is credited. -/
theorem counts_of_no_rounds (hrounds : timer.rounds = [])
    (houtTime : timer.outTime = toInt32 (0 - timer.initialDelay.val)) :
    timer.Counts timer.creditedFrom := by
  have hfirings := firings_of_no_rounds hrounds
  refine ⟨?_, fun reading hreading ↦ absurd (hfirings ▸ hreading) List.not_mem_nil⟩
  rw [houtTime, origin_of_unfired (unfired_of_no_rounds hrounds)]
  exact congrArg toInt32 (by omega)

/-- In a round `outTime` becomes the time since the origin. -/
theorem credit_outTime (hcounts : timer.Counts last) (hle : last ≤ reading) :
    (timer.credit (elapsed last reading)).outTime = toInt32 (reading - timer.origin) := by
  have hcast : ((elapsed last reading : ℕ) : ℤ) = (reading - last : ℤ) % 4294967296 := by
    unfold elapsed
    omega
  show toInt32 (timer.outTime + elapsed last reading) = _
  rw [hcounts.outTime, hcast]
  have hremainder := toInt32_emod (last - timer.origin)
  exact toInt32_congr (by omega)

/-- A timer is out in a round when the time since its origin, as an `int`, reaches its `elapse`. -/
theorem isOut_credit_iff (hcounts : timer.Counts last) (hle : last ≤ reading) :
    (timer.credit (elapsed last reading)).isOut = true ↔
      (timer.elapse.val : ℤ) ≤ toInt32 (reading - timer.origin) := by
  have hdelay := timer.elapse.property
  have helapse : toInt32 timer.elapse.val = timer.elapse.val :=
    toInt32_eq_self (by omega) (by omega)
  have hout : toInt32 (timer.credit (elapsed last reading)).elapse.val = timer.elapse.val := helapse
  rw [isOut, decide_eq_true_eq, hout, credit_outTime hcounts hle]

/-- What a round makes of a timer, apart from its `outTime`. -/
theorem check_eq (elapse reading : ℕ) (timer : Timer) : ∃ outTime,
    timer.check elapse reading =
      { timer.see reading (timer.credit elapse).isOut with outTime := outTime } ∧
      ((timer.credit elapse).isOut = false → outTime = (timer.credit elapse).outTime) ∧
      ((timer.credit elapse).isOut = true → timer.persistent = true → outTime = 0) := by
  have hpersistent : (timer.credit elapse).persistent = timer.persistent := rfl
  unfold check
  dsimp only
  by_cases hout : (timer.credit elapse).isOut = true
  · rw [if_pos hout, hout]
    by_cases hkept : timer.persistent = true
    · rw [if_pos (hpersistent.trans hkept)]
      exact ⟨0, rfl, fun hfalse ↦ Bool.noConfusion hfalse, fun _ _ ↦ rfl⟩
    · rw [if_neg fun htrue ↦ hkept (hpersistent.symm.trans htrue)]
      exact ⟨(timer.credit elapse).outTime, rfl, fun _ ↦ rfl, fun _ htrue ↦ absurd htrue hkept⟩
  · rw [if_neg hout, Bool.eq_false_iff.mpr hout]
    exact ⟨(timer.credit elapse).outTime, rfl, fun _ ↦ rfl, fun htrue ↦ Bool.noConfusion htrue⟩

/-- A round changes the record of a timer by the round only. -/
theorem firings_check (elapse reading : ℕ) (timer : Timer) :
    (timer.check elapse reading).firings =
      if (timer.credit elapse).isOut then timer.firings ++ [reading] else timer.firings := by
  obtain ⟨outTime, heq, -⟩ := check_eq elapse reading timer
  rw [heq]
  show (timer.see reading (timer.credit elapse).isOut).firings = _
  cases (timer.credit elapse).isOut with
  | false => exact firings_see_false
  | true => exact firings_see_true

theorem firstInTime_check : FirstInTime (timer.check elapse reading).dueAt
      (timer.check elapse reading).rounds ↔ FirstInTime timer.dueAt timer.rounds ∧
        (timer.Unfired → ((timer.credit elapse).isOut = true ↔ timer.dueAt ≤ reading)) := by
  obtain ⟨outTime, heq, -⟩ := check_eq elapse reading timer
  rw [heq]
  exact firstInTime_see

/-- A timer that stays in the table goes on counting. -/
theorem Counts.check (hcounts : timer.Counts last) (hle : last ≤ reading)
    (hkept : timer.isErased (elapsed last reading) = false) :
    (timer.check (elapsed last reading) reading).Counts reading := by
  have hfirings := firings_check (elapsed last reading) reading timer
  obtain ⟨outTime, heq, hstays, hzero⟩ := check_eq (elapsed last reading) reading timer
  have hpast : ∀ earlier ∈ timer.firings, earlier ≤ reading :=
    fun earlier hearlier ↦ (hcounts.past earlier hearlier).trans hle
  have hinitial : (timer.check (elapsed last reading) reading).initialDelay = timer.initialDelay :=
    by rw [heq]; rfl
  have hcredited : (timer.check (elapsed last reading) reading).creditedFrom = timer.creditedFrom :=
    by rw [heq]; rfl
  have hout : (timer.check (elapsed last reading) reading).outTime = outTime := by rw [heq]
  cases hfires : (timer.credit (elapsed last reading)).isOut with
  | false =>
    rw [hfires, if_neg Bool.false_ne_true] at hfirings
    have horigin : (timer.check (elapsed last reading) reading).origin = timer.origin := by
      rw [origin, origin, hfirings, hinitial, hcredited]
    refine ⟨?_, hfirings ▸ hpast⟩
    rw [hout, hstays hfires, credit_outTime hcounts hle, horigin]
  | true =>
    rw [hfires, if_pos rfl] at hfirings
    have hpersistent : timer.persistent = true := by
      rw [isErased, hfires, Bool.true_and, Bool.not_eq_false'] at hkept
      exact hkept
    have horigin : (timer.check (elapsed last reading) reading).origin = reading := by
      rw [origin, hfirings, List.getLast?_concat]
    refine ⟨?_, fun earlier hearlier ↦ ?_⟩
    · rw [hout, hzero hfires hpersistent, horigin, Int.sub_self]
      rfl
    · rw [hfirings] at hearlier
      rcases List.mem_append.mp hearlier with hbefore | hnew
      · exact hpast earlier hbefore
      · exact (List.mem_singleton.mp hnew).le

theorem Regular.see_false (hregular : timer.Regular) : (timer.see reading false).Regular := by
  constructor
  · intro honeShot
    rw [firings_see_false]
    exact hregular.once honeShot
  · rw [firings_see_false]
    exact hregular.apart

/-- A firing is at least `elapse` after the one before. -/
theorem Regular.check (hregular : timer.Regular) (hcounts : timer.Counts last)
    (hle : last ≤ reading) (hfirst : timer.persistent = false → timer.Unfired) :
    (timer.check (elapsed last reading) reading).Regular := by
  have hfirings := firings_check (elapsed last reading) reading timer
  obtain ⟨outTime, heq, -⟩ := check_eq (elapsed last reading) reading timer
  have hpersistent : (timer.check (elapsed last reading) reading).persistent = timer.persistent :=
    by rw [heq]; rfl
  have helapse : (timer.check (elapsed last reading) reading).elapse = timer.elapse :=
    by rw [heq]; rfl
  cases hfires : (timer.credit (elapsed last reading)).isOut with
  | false =>
    rw [hfires, if_neg Bool.false_ne_true] at hfirings
    exact ⟨hpersistent ▸ hfirings ▸ hregular.once, helapse ▸ hfirings ▸ hregular.apart⟩
  | true =>
    rw [hfires, if_pos rfl] at hfirings
    constructor
    · intro honeShot
      rw [hfirings, unfired_iff.mp (hfirst (hpersistent.symm.trans honeShot))]
      exact le_rfl
    · rw [hfirings, helapse]
      refine hregular.apart.append (List.isChain_singleton _) fun before hbefore after hafter ↦ ?_
      obtain rfl := Option.some.inj hafter
      have horigin : timer.origin = before := by
        rw [origin, Option.mem_def.mp hbefore]
      have hpast := hcounts.past before (List.mem_of_mem_getLast? hbefore)
      have hreached := (isOut_credit_iff hcounts hle).mp hfires
      rw [horigin] at hreached
      have hle' := @toInt32_le_self ((reading : ℤ) - before) (by omega)
      omega

end Timer

/-! ### The timers of a thread -/

/-- The record of a timer stays as it is. -/
structure SameRecord (timer next : Timer) : Prop where
  elapse : next.elapse = timer.elapse
  persistent : next.persistent = timer.persistent
  dueAt : next.dueAt = timer.dueAt
  rounds : next.rounds = timer.rounds

theorem SameRecord.refl (timer : Timer) : SameRecord timer timer := ⟨rfl, rfl, rfl, rfl⟩

theorem SameRecord.firings {timer next : Timer} (hsame : SameRecord timer next) :
    next.firings = timer.firings := by
  rw [Timer.firings, Timer.firings, hsame.rounds]

theorem SameRecord.regular {timer next : Timer} (hsame : SameRecord timer next)
    (hregular : timer.Regular) : next.Regular :=
  ⟨hsame.persistent ▸ hsame.firings ▸ hregular.once,
    hsame.elapse ▸ hsame.firings ▸ hregular.apart⟩

theorem SameRecord.firstInTime_iff {timer next : Timer} (hsame : SameRecord timer next) :
    FirstInTime next.dueAt next.rounds ↔ FirstInTime timer.dueAt timer.rounds := by
  rw [hsame.dueAt, hsame.rounds]

namespace TimerThread

variable {thread next : TimerThread} {timer : Timer}

theorem mem_all : timer ∈ thread.all ↔
    timer ∈ thread.timers.values ∨ timer ∈ thread.gone ∨ timer ∈ thread.unregistered := by
  rw [all, List.mem_append, List.mem_append, or_assoc]

/-- A timer in the table: before the thread runs it has its first `outTime`, and later it counts;
one that is not persistent has not fired. -/
structure InTable (phase : TimerPhase) (timer : Timer) : Prop where
  fresh : phase.lastCheckTime = none →
    timer.outTime = toInt32 (0 - timer.initialDelay.val) ∧ timer.rounds = []
  counts : ∀ last ∈ phase.lastCheckTime, timer.Counts last
  unfired : timer.persistent = false → timer.Unfired

/-- What holds of a thread in every run. -/
structure Sound (thread : TimerThread) : Prop where
  inTable : ∀ timer ∈ thread.timers.values, InTable thread.phase timer
  regular : ∀ timer ∈ thread.all, timer.Regular
  past : ∀ last ∈ thread.phase.lastCheckTime, last ≤ thread.clock
  reading : ∀ last current, thread.phase = .read last current →
    last ≤ current ∧ current ≤ thread.clock

theorem start_eq_some {now : ℕ} (hstart : thread.start now = some next) :
    thread.phase = .created ∧ next = { thread with
      timers := thread.timers.filterMapValues fun timer ↦ some { timer with creditedFrom := now }
      phase := .checked now
      clock := now } := by
  unfold start at hstart
  split at hstart
  · exact ⟨‹_›, (Option.some.inj hstart).symm⟩
  · cases hstart
  · cases hstart

theorem readClock_eq_some {now : ℕ} (hread : thread.readClock now = some next) :
    ∃ last, thread.phase = .checked last ∧
      next = { thread with phase := .read last now, clock := now } := by
  unfold readClock at hread
  split at hread
  · exact ⟨_, ‹_›, (Option.some.inj hread).symm⟩
  · cases hread
  · cases hread

/-- The timers of the table after the start. -/
theorem mem_values_start {now : ℕ} (hstart : thread.start now = some next) :
    timer ∈ next.timers.values ↔
      ∃ old ∈ thread.timers.values, { old with creditedFrom := now } = timer := by
  obtain ⟨-, rfl⟩ := start_eq_some hstart
  refine OrderedMap.mem_values_filterMapValues.trans (exists_congr fun old ↦ ?_)
  exact and_congr_right fun _ ↦ Option.some_inj

/-- The timers of the table after a registration. -/
theorem mem_values_registerTimer {timerId : ℕ} {initialDelay elapse : Delay} {persistent : Bool}
    {now : ℕ} :
    timer ∈ (thread.registerTimer timerId initialDelay elapse persistent now).timers.values ↔
      timer = thread.newTimer initialDelay elapse persistent now ∨
        ∃ key, key ≠ timerId ∧ (key, timer) ∈ thread.timers.entries := by
  rw [OrderedMap.mem_values]
  constructor
  · rintro ⟨key, hentry⟩
    rcases OrderedMap.mem_entries_assign.mp hentry with hnew | ⟨hold, hne⟩
    · exact Or.inl (congrArg Prod.snd hnew)
    · exact Or.inr ⟨key, hne, hold⟩
  · rintro (rfl | ⟨key, hne, hold⟩)
    · exact ⟨timerId, OrderedMap.mem_entries_assign.mpr (Or.inl rfl)⟩
    · exact ⟨key, OrderedMap.mem_entries_assign.mpr (Or.inr ⟨hold, hne⟩)⟩

/-- The timers of a thread before and after an event that is no round of checks: all are kept, with
their records, and a new one has seen no round. -/
structure KeepsRecords (thread next : TimerThread) : Prop where
  forward : ∀ timer ∈ thread.all, ∃ after ∈ next.all, SameRecord timer after
  backward : ∀ after ∈ next.all,
    (∃ timer ∈ thread.all, SameRecord timer after) ∨ after.rounds = []

theorem keepsRecords_of_same (hall : ∀ timer, timer ∈ next.all ↔ timer ∈ thread.all) :
    KeepsRecords thread next :=
  ⟨fun timer htimer ↦ ⟨timer, (hall timer).mpr htimer, .refl timer⟩,
    fun after hafter ↦ Or.inl ⟨after, (hall after).mp hafter, .refl after⟩⟩

theorem keepsRecords_start {now : ℕ} (hstart : thread.start now = some next) :
    KeepsRecords thread next := by
  have hvalues : ∀ timer, timer ∈ next.timers.values ↔
      ∃ old ∈ thread.timers.values, { old with creditedFrom := now } = timer :=
    fun timer ↦ mem_values_start hstart
  obtain ⟨-, rfl⟩ := start_eq_some hstart
  constructor
  · intro timer htimer
    rcases mem_all.mp htimer with hvalue | hgone
    · exact ⟨{ timer with creditedFrom := now },
        mem_all.mpr (Or.inl ((hvalues _).mpr ⟨timer, hvalue, rfl⟩)), rfl, rfl, rfl, rfl⟩
    · exact ⟨timer, mem_all.mpr (Or.inr hgone), .refl timer⟩
  · intro after hafter
    rcases mem_all.mp hafter with hvalue | hgone
    · obtain ⟨old, hold, rfl⟩ := (hvalues _).mp hvalue
      exact Or.inl ⟨old, mem_all.mpr (Or.inl hold), rfl, rfl, rfl, rfl⟩
    · exact Or.inl ⟨after, mem_all.mpr (Or.inr hgone), .refl after⟩

theorem keepsRecords_registerTimer (thread : TimerThread) (timerId : ℕ)
    (initialDelay elapse : Delay) (persistent : Bool) (now : ℕ) :
    KeepsRecords thread (thread.registerTimer timerId initialDelay elapse persistent now) := by
  constructor
  · intro timer htimer
    refine ⟨timer, mem_all.mpr ?_, .refl timer⟩
    rcases mem_all.mp htimer with hvalue | hgone | hunregistered
    · obtain ⟨key, hentry⟩ := OrderedMap.mem_values.mp hvalue
      by_cases hkey : key = timerId
      · subst hkey
        refine Or.inr (Or.inl (List.mem_append_right _ ?_))
        rw [OrderedMap.find?_eq_some.mpr hentry]
        exact List.mem_singleton_self timer
      · exact Or.inl (mem_values_registerTimer.mpr (Or.inr ⟨key, hkey, hentry⟩))
    · exact Or.inr (Or.inl (List.mem_append_left _ hgone))
    · exact Or.inr (Or.inr hunregistered)
  · intro after hafter
    rcases mem_all.mp hafter with hvalue | hgone | hunregistered
    · rcases mem_values_registerTimer.mp hvalue with rfl | ⟨key, -, hentry⟩
      · exact Or.inr rfl
      · exact Or.inl ⟨after, mem_all.mpr (Or.inl (OrderedMap.mem_values.mpr ⟨key, hentry⟩)),
          .refl after⟩
    · refine Or.inl ⟨after, mem_all.mpr ?_, .refl after⟩
      rcases List.mem_append.mp hgone with hbefore | hreplaced
      · exact Or.inr (Or.inl hbefore)
      · have hfind := OrderedMap.find?_eq_some.mp (Option.mem_toList.mp hreplaced)
        exact Or.inl (OrderedMap.mem_values.mpr ⟨timerId, hfind⟩)
    · exact Or.inl ⟨after, mem_all.mpr (Or.inr (Or.inr hunregistered)), .refl after⟩

theorem keepsRecords_unRegisterTimer (thread : TimerThread) (timerId : ℕ) :
    KeepsRecords thread (thread.unRegisterTimer timerId) := by
  unfold unRegisterTimer
  cases hfind : thread.timers.find? timerId with
  | none => exact keepsRecords_of_same fun _ ↦ Iff.rfl
  | some found =>
    have hfound := OrderedMap.find?_eq_some.mp hfind
    refine keepsRecords_of_same fun timer ↦ ?_
    rw [mem_all, mem_all]
    dsimp only
    rw [List.mem_append, List.mem_singleton, OrderedMap.mem_values, OrderedMap.mem_values]
    simp only [OrderedMap.mem_entries_erase]
    constructor
    · rintro (⟨key, hentry, -⟩ | hgone | hunregistered | rfl)
      · exact Or.inl ⟨key, hentry⟩
      · exact Or.inr (Or.inl hgone)
      · exact Or.inr (Or.inr hunregistered)
      · exact Or.inl ⟨timerId, hfound⟩
    · rintro (⟨key, hentry⟩ | hgone | hunregistered)
      · by_cases hkey : key = timerId
        · have hsame := OrderedMap.entry_unique hentry hfound hkey
          exact Or.inr (Or.inr (Or.inr (congrArg Prod.snd hsame)))
        · exact Or.inl ⟨key, hentry, hkey⟩
      · exact Or.inr (Or.inl hgone)
      · exact Or.inr (Or.inr (Or.inl hunregistered))

/-- Every event but a round of checks keeps the records. -/
theorem step_keepsRecords {event : TimerEvent} (hstep : thread.step event = some next)
    (hevent : event ≠ .checkTimeOut) : KeepsRecords thread next := by
  cases event with
  | start now => exact keepsRecords_start (Option.ite_none_right_eq_some.mp hstep).2
  | registerTimer timerId initialDelay elapse persistent now =>
    obtain ⟨-, hnext⟩ := Option.ite_none_right_eq_some.mp hstep
    obtain rfl := Option.some.inj hnext
    exact keepsRecords_registerTimer thread timerId initialDelay elapse persistent now
  | unRegisterTimer timerId =>
    obtain rfl := Option.some.inj hstep
    exact keepsRecords_unRegisterTimer thread timerId
  | readClock now =>
    obtain ⟨last, -, rfl⟩ := readClock_eq_some (Option.ite_none_right_eq_some.mp hstep).2
    exact keepsRecords_of_same fun _ ↦ Iff.rfl
  | checkTimeOut => exact absurd rfl hevent

/-! ### A round of checks -/

theorem checkTimeOut_eq_some (hcheck : thread.checkTimeOut = some next) :
    ∃ last current, thread.phase = .read last current ∧ next.phase = .checked current ∧
      next.clock = thread.clock ∧
      (∀ timer, timer ∈ next.timers.values ↔ ∃ old ∈ thread.timers.values,
        old.isErased (elapsed last current) = false ∧
          old.check (elapsed last current) current = timer) ∧
      ∀ timer, timer ∈ next.all ↔
        (∃ old ∈ thread.timers.values, old.check (elapsed last current) current = timer) ∨
          (∃ old ∈ thread.gone, old.see current false = timer) ∨
            timer ∈ thread.unregistered := by
  unfold checkTimeOut at hcheck
  split at hcheck
  · rename_i last current hphase
    obtain rfl := Option.some.inj hcheck
    have hvalues : ∀ timer, timer ∈ (thread.timers.filterMapValues fun timer ↦
        if timer.isErased (elapsed last current) then none
        else some (timer.check (elapsed last current) current)).values ↔
          ∃ old ∈ thread.timers.values, old.isErased (elapsed last current) = false ∧
            old.check (elapsed last current) current = timer := by
      intro timer
      refine OrderedMap.mem_values_filterMapValues.trans (exists_congr fun old ↦ ?_)
      refine and_congr_right fun _ ↦ Option.ite_none_left_eq_some.trans ?_
      rw [Bool.not_eq_true, Option.some_inj]
    refine ⟨last, current, hphase, rfl, rfl, hvalues, fun timer ↦ ?_⟩
    rw [mem_all, hvalues, List.mem_append, List.mem_map, List.mem_map]
    constructor
    · rintro (⟨old, hold, -, hnew⟩ | (hgone | ⟨old, hold, hnew⟩) | hunregistered)
      · exact Or.inl ⟨old, hold, hnew⟩
      · exact Or.inr (Or.inl hgone)
      · exact Or.inl ⟨old, (List.mem_filter.mp hold).1, hnew⟩
      · exact Or.inr (Or.inr hunregistered)
    · rintro (⟨old, hold, hnew⟩ | hgone | hunregistered)
      · by_cases herased : old.isErased (elapsed last current) = true
        · exact Or.inr (Or.inl (Or.inr ⟨old, List.mem_filter.mpr ⟨hold, herased⟩, hnew⟩))
        · exact Or.inl ⟨old, hold, Bool.eq_false_iff.mpr herased, hnew⟩
      · exact Or.inr (Or.inl (Or.inl hgone))
      · exact Or.inr (Or.inr hunregistered)
  · cases hcheck
  · cases hcheck

/-! ### What every run keeps -/

theorem KeepsRecords.regular (hkeeps : KeepsRecords thread next)
    (hregular : ∀ timer ∈ thread.all, timer.Regular) : ∀ after ∈ next.all, after.Regular := by
  intro after hafter
  rcases hkeeps.backward after hafter with ⟨timer, htimer, hsame⟩ | hrounds
  · exact hsame.regular (hregular timer htimer)
  · exact Timer.regular_of_no_rounds hrounds

theorem sound_start {now : ℕ} (hsound : thread.Sound) (hstart : thread.start now = some next) :
    next.Sound := by
  have hvalues : ∀ timer, timer ∈ next.timers.values ↔
      ∃ old ∈ thread.timers.values, { old with creditedFrom := now } = timer :=
    fun timer ↦ mem_values_start hstart
  have hregular := (keepsRecords_start hstart).regular hsound.regular
  obtain ⟨hcreated, rfl⟩ := start_eq_some hstart
  refine ⟨fun timer htimer ↦ ?_, hregular, fun last hlast ↦ ?_, fun _ _ hread ↦ nomatch hread⟩
  · obtain ⟨old, hold, rfl⟩ := (hvalues timer).mp htimer
    have hnone : thread.phase.lastCheckTime = none := by rw [hcreated]; rfl
    obtain ⟨houtTime, hrounds⟩ := (hsound.inTable old hold).fresh hnone
    refine ⟨fun hfresh ↦ (nomatch hfresh), fun last hlast ↦ ?_,
      fun _ ↦ Timer.unfired_of_no_rounds hrounds⟩
    obtain rfl := Option.some.inj hlast
    exact @Timer.counts_of_no_rounds { old with creditedFrom := now } hrounds houtTime
  · exact (Option.some.inj hlast).ge

theorem sound_registerTimer {timerId now : ℕ} {initialDelay elapse : Delay} {persistent : Bool}
    (hsound : thread.Sound) (hclock : thread.clock ≤ now) :
    (thread.registerTimer timerId initialDelay elapse persistent now).Sound := by
  refine ⟨fun timer htimer ↦ ?_,
    (keepsRecords_registerTimer thread timerId initialDelay elapse persistent now).regular
      hsound.regular, fun last hlast ↦ (hsound.past last hlast).trans hclock,
    fun last current hread ↦ ?_⟩
  · rcases mem_values_registerTimer.mp htimer with rfl | ⟨key, -, hentry⟩
    · refine ⟨fun _ ↦ ⟨rfl, rfl⟩, fun last hlast ↦ ?_, fun _ ↦ Timer.unfired_of_no_rounds rfl⟩
      have hcredited :
          (thread.newTimer initialDelay elapse persistent now).creditedFrom = last := by
        have hsome : thread.phase.lastCheckTime = some last := hlast
        show thread.phase.lastCheckTime.getD now = last
        rw [hsome, Option.getD_some]
      exact hcredited ▸ Timer.counts_of_no_rounds rfl rfl
    · exact hsound.inTable timer (OrderedMap.mem_values.mpr ⟨key, hentry⟩)
  · obtain ⟨hle, hpast⟩ := hsound.reading last current hread
    exact ⟨hle, hpast.trans hclock⟩

theorem sound_unRegisterTimer (hsound : thread.Sound) (timerId : ℕ) :
    (thread.unRegisterTimer timerId).Sound := by
  have hregular := (keepsRecords_unRegisterTimer thread timerId).regular hsound.regular
  unfold unRegisterTimer at hregular ⊢
  cases hfind : thread.timers.find? timerId with
  | none => exact hsound
  | some found =>
    rw [hfind] at hregular
    refine ⟨fun timer htimer ↦ ?_, hregular, hsound.past, hsound.reading⟩
    obtain ⟨key, hentry⟩ := OrderedMap.mem_values.mp htimer
    exact hsound.inTable timer
      (OrderedMap.mem_values.mpr ⟨key, (OrderedMap.mem_entries_erase.mp hentry).1⟩)

theorem sound_readClock {now : ℕ} (hsound : thread.Sound) (hclock : thread.clock ≤ now)
    (hread : thread.readClock now = some next) : next.Sound := by
  obtain ⟨last, hchecked, rfl⟩ := readClock_eq_some hread
  have hlast : last ∈ thread.phase.lastCheckTime := by rw [hchecked]; rfl
  refine ⟨fun timer htimer ↦ ?_, hsound.regular, fun other hother ↦ ?_,
    fun other current hphase ↦ ?_⟩
  · have hold := hsound.inTable timer htimer
    refine ⟨fun hfresh ↦ (nomatch hfresh), fun other hother ↦ ?_, hold.unfired⟩
    exact Option.some.inj hother ▸ hold.counts last hlast
  · exact Option.some.inj hother ▸ (hsound.past last hlast).trans hclock
  · obtain ⟨rfl, rfl⟩ := TimerPhase.read.inj hphase
    exact ⟨(hsound.past last hlast).trans hclock, le_rfl⟩

theorem sound_checkTimeOut (hsound : thread.Sound) (hcheck : thread.checkTimeOut = some next) :
    next.Sound := by
  obtain ⟨last, current, hphase, hnext, hclock, hvalues, hall⟩ := checkTimeOut_eq_some hcheck
  obtain ⟨hle, hpast⟩ := hsound.reading last current hphase
  have hlast : last ∈ thread.phase.lastCheckTime := by rw [hphase]; rfl
  refine ⟨fun timer htimer ↦ ?_, fun timer htimer ↦ ?_, fun other hother ↦ ?_,
    fun other reading hread ↦ ?_⟩
  · obtain ⟨old, hold, hkept, rfl⟩ := (hvalues timer).mp htimer
    have hcounts := (hsound.inTable old hold).counts last hlast
    rw [hnext]
    refine ⟨fun hfresh ↦ (nomatch hfresh), fun other hother ↦ ?_, fun honeShot ↦ ?_⟩
    · exact Option.some.inj hother ▸ hcounts.check hle hkept
    · obtain ⟨outTime, heq, -⟩ := Timer.check_eq (elapsed last current) current old
      have hpersistent : old.persistent = false := by
        rw [heq] at honeShot
        exact honeShot
      rw [Timer.isErased, hpersistent, Bool.not_false, Bool.and_true] at hkept
      have hunfired := Timer.unfired_iff.mp ((hsound.inTable old hold).unfired hpersistent)
      rw [Timer.unfired_iff, Timer.firings_check, hkept, if_neg Bool.false_ne_true]
      exact hunfired
  · rcases (hall timer).mp htimer with ⟨old, hold, rfl⟩ | ⟨old, hold, rfl⟩ | hunregistered
    · have hregular := hsound.regular old (mem_all.mpr (Or.inl hold))
      exact hregular.check ((hsound.inTable old hold).counts last hlast) hle
        (hsound.inTable old hold).unfired
    · have hregular := hsound.regular old (mem_all.mpr (Or.inr (Or.inl hold)))
      exact hregular.see_false
    · exact hsound.regular timer (mem_all.mpr (Or.inr (Or.inr hunregistered)))
  · rw [hnext] at hother
    rw [hclock]
    exact Option.some.inj hother ▸ hpast
  · rw [hnext] at hread
    cases hread

theorem step_sound (thread : TimerThread) (event : TimerEvent) (next : TimerThread)
    (hsystem : timerSystem.step thread event = some next) (hsound : thread.Sound) : next.Sound := by
  have hstep : thread.step event = some next := hsystem
  cases event with
  | start now => exact sound_start hsound (Option.ite_none_right_eq_some.mp hstep).2
  | registerTimer timerId initialDelay elapse persistent now =>
    obtain ⟨hclock, hnext⟩ := Option.ite_none_right_eq_some.mp hstep
    exact Option.some.inj hnext ▸ sound_registerTimer hsound hclock
  | unRegisterTimer timerId => exact Option.some.inj hstep ▸ sound_unRegisterTimer hsound timerId
  | readClock now =>
    obtain ⟨hclock, hread⟩ := Option.ite_none_right_eq_some.mp hstep
    exact sound_readClock hsound hclock hread
  | checkTimeOut => exact sound_checkTimeOut hsound hstep

theorem sound_initial (clock : ℕ) : (initial clock).Sound where
  inTable := fun _ hmem ↦ absurd hmem List.not_mem_nil
  regular := fun _ hmem ↦ absurd hmem List.not_mem_nil
  past := fun _ hlast ↦ nomatch hlast
  reading := fun _ _ hread ↦ nomatch hread

/-! ### Every run -/

/-- Every timer fires first in time. -/
def InTime (thread : TimerThread) : Prop :=
  ∀ timer ∈ thread.all, FirstInTime timer.dueAt timer.rounds

theorem firstInTime_nil (dueAt : ℕ) : FirstInTime dueAt [] :=
  ⟨fun _ hnone ↦ (nomatch hnone), fun _ hmem ↦ absurd hmem List.not_mem_nil⟩

theorem KeepsRecords.inTime_iff (hkeeps : KeepsRecords thread next) :
    next.InTime ↔ thread.InTime := by
  constructor
  · intro hnext timer htimer
    obtain ⟨after, hafter, hsame⟩ := hkeeps.forward timer htimer
    exact hsame.firstInTime_iff.mp (hnext after hafter)
  · intro hthread after hafter
    rcases hkeeps.backward after hafter with ⟨timer, htimer, hsame⟩ | hrounds
    · exact hsame.firstInTime_iff.mpr (hthread timer htimer)
    · exact hrounds ▸ firstInTime_nil after.dueAt

/-- After a round of checks every timer fires first in time exactly when this was so before and the
round credits the timers fairly. -/
theorem inTime_checkTimeOut_iff (hsound : thread.Sound) (hcheck : thread.checkTimeOut = some next) :
    next.InTime ↔ thread.InTime ∧ CreditsFairly thread .checkTimeOut := by
  obtain ⟨last, current, hphase, -, -, -, hall⟩ := checkTimeOut_eq_some hcheck
  obtain ⟨hle, -⟩ := hsound.reading last current hphase
  have hlast : last ∈ thread.phase.lastCheckTime := by rw [hphase]; rfl
  have hcredit : ∀ timer ∈ thread.timers.values, timer.Unfired →
      ((timer.credit (elapsed last current)).isOut = true ↔
        (timer.elapse.val : ℤ) ≤
          toInt32 (current - timer.creditedFrom - timer.initialDelay.val)) := by
    intro timer htimer hunfired
    rw [Timer.isOut_credit_iff ((hsound.inTable timer htimer).counts last hlast) hle,
      Timer.origin_of_unfired hunfired, Int.sub_sub]
  constructor
  · intro hnext
    refine ⟨fun timer htimer ↦ ?_, fun last' current' hphase' ↦ ?_⟩
    · rcases mem_all.mp htimer with hvalue | hgone | hunregistered
      · exact (Timer.firstInTime_check.mp
          (hnext _ ((hall _).mpr (Or.inl ⟨timer, hvalue, rfl⟩)))).1
      · exact (Timer.firstInTime_see.mp
          (hnext _ ((hall _).mpr (Or.inr (Or.inl ⟨timer, hgone, rfl⟩))))).1
      · exact hnext timer ((hall timer).mpr (Or.inr (Or.inr hunregistered)))
    · obtain ⟨rfl, rfl⟩ := TimerPhase.read.inj (hphase.symm.trans hphase')
      refine ⟨fun timer htimer hunfired ↦ ?_, fun timer htimer hunfired ↦ ?_⟩
      · rw [← hcredit timer htimer hunfired]
        exact (Timer.firstInTime_check.mp
          (hnext _ ((hall _).mpr (Or.inl ⟨timer, htimer, rfl⟩)))).2 hunfired
      · have hnot := (Timer.firstInTime_see.mp
          (hnext _ ((hall _).mpr (Or.inr (Or.inl ⟨timer, htimer, rfl⟩))))).2 hunfired
        exact Nat.lt_of_not_le fun hdue ↦ Bool.false_ne_true (hnot.mpr hdue)
  · rintro ⟨hthread, hfair⟩ timer htimer
    obtain ⟨htable, hgoneFair⟩ := hfair last current hphase
    rcases (hall timer).mp htimer with ⟨old, hold, rfl⟩ | ⟨old, hold, rfl⟩ | hunregistered
    · refine Timer.firstInTime_check.mpr
        ⟨hthread old (mem_all.mpr (Or.inl hold)), fun hunfired ↦ ?_⟩
      exact (hcredit old hold hunfired).trans (htable old hold hunfired)
    · refine Timer.firstInTime_see.mpr
        ⟨hthread old (mem_all.mpr (Or.inr (Or.inl hold))), fun hunfired ↦ ?_⟩
      exact iff_of_false Bool.false_ne_true (hgoneFair old hold hunfired).not_ge
    · exact hthread timer (mem_all.mpr (Or.inr (Or.inr hunregistered)))

/-- After an event every timer fires first in time exactly when this was so before and the event
credits the timers fairly. -/
theorem inTime_step_iff (thread : TimerThread) (event : TimerEvent) (next : TimerThread)
    (hsound : thread.Sound) (hstep : timerSystem.step thread event = some next) :
    next.InTime ↔ thread.InTime ∧ CreditsFairly thread event := by
  by_cases hevent : event = .checkTimeOut
  · subst hevent
    exact inTime_checkTimeOut_iff hsound hstep
  · have hfair : CreditsFairly thread event := by
      cases event with
      | checkTimeOut => exact absurd rfl hevent
      | _ => trivial
    exact (step_keepsRecords hstep hevent).inTime_iff.trans (and_iff_left hfair).symm

/-- In every run, every timer fires in the first round in which it is due and in no earlier one, at
most once if it is not persistent, and at readings that are `elapse` apart, exactly when the rounds
credit the timers fairly. -/
theorem fires_on_time_iff {clock : ℕ} {events : List TimerEvent} {last : TimerThread}
    (hrun : timerSystem.run (initial clock) events = some last) :
    timerSystem.Along CreditsFairly (initial clock) events ↔
      ∀ timer ∈ last.all, timer.FiresOnTime := by
  have hsound := EventSystem.run_invariant step_sound hrun (sound_initial clock)
  have hempty : (initial clock).InTime := fun _ hmem ↦ absurd hmem List.not_mem_nil
  have hinTime := EventSystem.run_iff_along step_sound inTime_step_iff hrun (sound_initial clock)
  rw [and_iff_right hempty] at hinTime
  rw [← hinTime]
  constructor
  · intro hall timer htimer
    obtain ⟨hearly, hlate⟩ := hall timer htimer
    obtain ⟨honce, hapart⟩ := hsound.regular timer htimer
    exact ⟨hearly, hlate, honce, hapart⟩
  · exact fun hall timer htimer ↦ ⟨(hall timer htimer).notEarly, (hall timer htimer).notLate⟩

/-- A delay of a number of milliseconds below `2 ^ 31`. -/
def delayOf (millis : ℕ) (hmillis : millis < 2147483648) : Delay := ⟨millis, hmillis⟩

/-- A timer that is registered at the reading of the last round fires after one second. -/
theorem fires_on_time_of_one_second :
    let events : List TimerEvent := [.start 0,
      .registerTimer 1 (delayOf 0 (by decide)) (delayOf 1000 (by decide)) false 0,
      .readClock 999, .checkTimeOut, .readClock 1000, .checkTimeOut]
    ∃ last, timerSystem.run (initial 0) events = some last ∧
      ∀ timer ∈ last.all, timer.FiresOnTime := by
  intro events
  obtain ⟨last, hrun⟩ : ∃ last, timerSystem.run (initial 0) events = some last := ⟨_, rfl⟩
  have halong : timerSystem.Along CreditsFairly (initial 0) events := by decide
  exact ⟨last, hrun, (fires_on_time_iff hrun).mp halong⟩

/-- A timer of one second that is registered 900 ms after the last round fires 100 ms later. -/
theorem fires_early :
    let events : List TimerEvent := [.start 0,
      .registerTimer 1 (delayOf 0 (by decide)) (delayOf 1000 (by decide)) false 900,
      .readClock 1000, .checkTimeOut]
    ∃ last, timerSystem.run (initial 0) events = some last ∧ ∃ timer ∈ last.all,
      ¬ timer.FiresOnTime ∧ timer.registeredAt = 900 ∧ timer.rounds = [⟨1000, true⟩] := by
  refine ⟨_, rfl, _, List.mem_cons_self, fun hfires ↦ ?_, rfl, rfl⟩
  exact absurd (hfires.notEarly ⟨1000, true⟩ rfl) (by decide)

/-- A timer of one second that is registered 500 ms before the thread starts is not called by a
round that reads the clock when it is due. -/
theorem fires_late :
    let events : List TimerEvent := [
      .registerTimer 1 (delayOf 0 (by decide)) (delayOf 1000 (by decide)) false 0, .start 500,
      .readClock 1000, .checkTimeOut]
    ∃ last, timerSystem.run (initial 0) events = some last ∧ ∃ timer ∈ last.all,
      ¬ timer.FiresOnTime ∧ timer.registeredAt = 0 ∧ timer.rounds = [⟨1000, false⟩] := by
  refine ⟨_, rfl, _, List.mem_cons_self, fun hfires ↦ ?_, rfl, rfl⟩
  exact absurd (hfires.notLate ⟨1000, false⟩ List.mem_cons_self) (by decide)

end TimerThread

end RocketMQClient.Kpr
