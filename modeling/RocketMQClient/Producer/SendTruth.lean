import RocketMQClient.Producer.QueueSelection

/-!
# What a synchronous send reports

The loop of `sendDefaultImpl` is left by a return, by an exception, because there is no queue or no
time left, or after the third attempt. The code behind it looks at the number of attempts only: it
reports a missing route also when an attempt found a queue, and drops the result of an attempt whose
message was stored with a warning when a later attempt fails.

`TellsTruth` is what a caller relies on, over the outcomes of the attempts that found a queue.
`tellsTruth_iff` says when it is met: when a further attempt finds a queue in time, or there is no
name server to report on, and when after a stored message one of the further attempts ends with a
result. `failed_attempt_reported_as_no_route` has a topic of one broker, and
`stored_message_reported_as_failed` a broker that is slow to flush.

A call is described by the rounds that it reaches, each with what it meets: the queue that is found
or not, the broker, and the outcome of the attempt. `Stops` says with which round the loop ends and
how, and from it the report is compared with the outcomes on both sides. The texts of the errors and
their codes are those of the source, since the claim of a report is in them.
-/

set_option autoImplicit false
set_option relaxedAutoImplicit false

namespace RocketMQClient.Producer

open Library Messages

/-! ### The operations of the source -/

/-- What a round of the loop meets: the queue that `tryToFindTopicPublishMq` returns, if it does not
throw, the broker address found in the end, the reply, and the clock after the attempt. -/
structure SendRound where
  mq : Except SelectionFailure MessageQueue
  brokerAddr : ByteString
  reply : Except SendError SendStatus
  endTimestamp : ℤ

/-- The attempt of a round that found a queue. -/
def SendRound.attempt (round : SendRound) (mq : MessageQueue) : SendAttempt :=
  ⟨mq, round.brokerAddr, round.reply, round.endTimestamp⟩

/-- How a call ends. -/
inductive CallEnd where
  | returned (status : SendStatus)
  | threw (error : SendError)
  /-- The `std::out_of_range` of a selection. -/
  | outOfRange
  deriving DecidableEq, Repr

/-- How the loop is left. -/
inductive LoopEnd where
  | ended (callEnd : CallEnd)
  | left (times : ℕ)
  deriving DecidableEq, Repr

/-- The end of the loop or of the call, the outcomes of the attempts that found a queue, and the
state. -/
structure SyncRun (End : Type) where
  ending : End
  outcomes : List (Except SendError SendStatus)
  state : SendState

/-- The end of a call with an attempt that is not followed by another one. -/
def CallEnd.ofOutcome : Except SendError SendStatus → CallEnd
  | .ok status => .returned status
  | .error error => .threw error

section Send

variable (zlib : Zlib) (config : ProducerConfig) (rounds : ℕ → SendRound) (beginTimestamp : ℤ)

/-- The loop of `sendDefaultImpl` in mode `SYNC`, with `remaining` rounds left of three. -/
def syncLoop : ℕ → ℤ → SendState → SyncRun LoopEnd
  | 0, _, state => ⟨.left 3, [], state⟩
  | remaining + 1, endTimestamp, state =>
    let times := 2 - remaining
    if toInt32 (endTimestamp - beginTimestamp) < config.sendMsgTimeout then
      match (rounds times).mq with
      | .error _ => ⟨.ended .outOfRange, [], state⟩
      | .ok tmpmq =>
        if tmpmq.topic.isEmpty then ⟨.left times, [], state⟩
        else
          let sent := sendKernelImpl zlib config state ((rounds times).attempt tmpmq)
          if continues config .sync sent.1 then
            let rest := syncLoop remaining (rounds times).endTimestamp sent.2
            { rest with outcomes := sent.1 :: rest.outcomes }
          else ⟨.ended (.ofOutcome sent.1), [sent.1], sent.2⟩
    else ⟨.left times, [], state⟩

/-- The end of a call after its loop. -/
def LoopEnd.callEnd (nsList : List ByteString) : LoopEnd → CallEnd
  | .ended callEnd => callEnd
  | .left times => .threw (errorAfterLoop nsList times)

/-- A synchronous send. -/
def sendSync (msg : Message) : SyncRun CallEnd :=
  if config.running = false then
    ⟨.threw (.clientException (ofString "The producer service state not OK, ")), [], ⟨msg, []⟩⟩
  else match Validators.checkMessage msg config.maxMessageSize with
    | some text => ⟨.threw (.clientException text), [], ⟨msg, []⟩⟩
    | none =>
      let run := syncLoop zlib config rounds beginTimestamp 3 beginTimestamp ⟨msg, []⟩
      ⟨run.ending.callEnd config.nsList, run.outcomes, run.state⟩

end Send

/-- The queue of each round, selected with the broker of the round before. -/
def selectedQueue (lookups : ℕ → PublishLookups) : ℕ → Except SelectionFailure MessageQueue
  | 0 => tryToFindTopicPublishMq (lookups 0) []
  | times + 1 => do
    let last ← selectedQueue lookups times
    tryToFindTopicPublishMq (lookups (times + 1)) last.brokerName

/-! ### What a caller relies on -/

/-- The missing route. -/
def noRoute : CallEnd := .threw (.clientException (ofString "No route info of this topic, "))

/-- A missing route is reported only when no attempt found a queue, and a call in which some attempt
got a result from a broker returns such a result. -/
structure TellsTruth (run : SyncRun CallEnd) : Prop where
  route : run.ending = noRoute → run.outcomes = []
  stored : (∃ status, .ok status ∈ run.outcomes) →
    ∃ status, run.ending = .returned status ∧ .ok status ∈ run.outcomes

section Conditions

variable (config : ProducerConfig) (rounds : ℕ → SendRound) (beginTimestamp : ℤ)

/-- The clock before a round. -/
def clockBefore : ℕ → ℤ
  | 0 => beginTimestamp
  | times + 1 => (rounds times).endTimestamp

/-- There is time left for a round. -/
def InTime (times : ℕ) : Prop :=
  toInt32 (clockBefore rounds beginTimestamp times - beginTimestamp) < config.sendMsgTimeout

/-- The outcome of the attempt of a round. -/
def outcomeOf (round : SendRound) (mq : MessageQueue) : Except SendError SendStatus :=
  if round.brokerAddr.isEmpty then
    .error (.clientException (ofString "The broker[" ++ mq.brokerName ++ ofString "] not exist"))
  else round.reply

/-- A round finds a queue in time, and its attempt has an outcome. -/
def Attempts (times : ℕ) (outcome : Except SendError SendStatus) : Prop :=
  InTime config rounds beginTimestamp times ∧ ∃ mq, (rounds times).mq = .ok mq ∧
    mq.topic.isEmpty = false ∧ outcomeOf (rounds times) mq = outcome

/-- A round makes an attempt that is followed by another round. -/
def GoesOn (times : ℕ) : Prop :=
  ∃ outcome, Attempts config rounds beginTimestamp times outcome ∧
    continues config .sync outcome = true

/-- A round has no time left or finds no queue. -/
def FindsNone (times : ℕ) : Prop :=
  ¬ InTime config rounds beginTimestamp times ∨
    ∃ mq, (rounds times).mq = .ok mq ∧ mq.topic.isEmpty = true

/-- All rounds before this one make an attempt that is followed by another round. -/
def Reached (times : ℕ) : Prop := ∀ earlier < times, GoesOn config rounds beginTimestamp earlier

/-- A second or third round that is reached finds a queue in time, or throws while it looks for one,
or there is no name server; and when an attempt that got a result is followed by another round, one
of the rounds reached ends with a result that is not followed by another round. -/
structure ReportsWell (nsList : List ByteString) : Prop where
  route : ∀ times, 0 < times → times < 3 → Reached config rounds beginTimestamp times →
    FindsNone config rounds beginTimestamp times → nsList = []
  stored : ∀ times < 3, Reached config rounds beginTimestamp (times + 1) →
    (∃ status, Attempts config rounds beginTimestamp times (.ok status)) →
      ∃ last < 3, Reached config rounds beginTimestamp last ∧
        ∃ status, Attempts config rounds beginTimestamp last (.ok status) ∧
          continues config .sync (.ok status) = false

end Conditions

/-! ### The loop -/

variable {zlib : Zlib} {config : ProducerConfig} {rounds : ℕ → SendRound} {beginTimestamp : ℤ}
  {nsList : List ByteString}

theorem sendKernelImpl_fst (state : SendState) (round : SendRound) (mq : MessageQueue) :
    (sendKernelImpl zlib config state (round.attempt mq)).1 = outcomeOf round mq := by
  unfold sendKernelImpl outcomeOf
  by_cases hempty : round.brokerAddr.isEmpty = true
  · rw [if_pos hempty, if_pos (show (round.attempt mq).brokerAddr.isEmpty = true from hempty)]
    rfl
  · rw [if_neg hempty, if_neg (show ¬ (round.attempt mq).brokerAddr.isEmpty = true from hempty)]
    rfl

theorem Attempts.unique {times : ℕ} {first second : Except SendError SendStatus}
    (hfirst : Attempts config rounds beginTimestamp times first)
    (hsecond : Attempts config rounds beginTimestamp times second) : first = second := by
  obtain ⟨-, mq, hmq, -, rfl⟩ := hfirst
  obtain ⟨-, mq', hmq', -, rfl⟩ := hsecond
  obtain rfl := Except.ok.inj (hmq.symm.trans hmq')
  rfl

theorem Attempts.not_findsNone {times : ℕ} {outcome : Except SendError SendStatus}
    (hattempts : Attempts config rounds beginTimestamp times outcome) :
    ¬ FindsNone config rounds beginTimestamp times := by
  obtain ⟨htime, mq, hmq, htopic, -⟩ := hattempts
  rintro (hlate | ⟨mq', hmq', htopic'⟩)
  · exact hlate htime
  · obtain rfl := Except.ok.inj (hmq.symm.trans hmq')
    rw [htopic] at htopic'
    cases htopic'

theorem Reached.succ {times : ℕ} (hreached : Reached config rounds beginTimestamp times)
    (hgoes : GoesOn config rounds beginTimestamp times) :
    Reached config rounds beginTimestamp (times + 1) := by
  intro earlier hearlier
  rcases Nat.lt_succ_iff_lt_or_eq.mp hearlier with hbefore | rfl
  · exact hreached earlier hbefore
  · exact hgoes

/-- The round with which the loop ends, and how. -/
inductive Stops (config : ProducerConfig) (rounds : ℕ → SendRound) (beginTimestamp : ℤ) :
    ℕ → LoopEnd → Prop
  | exhausted : Stops config rounds beginTimestamp 3 (.left 3)
  | none {times : ℕ} (htimes : times < 3)
    (hnone : FindsNone config rounds beginTimestamp times) :
    Stops config rounds beginTimestamp times (.left times)
  | thrown {times : ℕ} (htimes : times < 3) {failure : SelectionFailure}
    (htime : InTime config rounds beginTimestamp times)
    (hthrown : (rounds times).mq = .error failure) :
    Stops config rounds beginTimestamp times (.ended .outOfRange)
  | last {times : ℕ} (htimes : times < 3) {outcome : Except SendError SendStatus}
    (hattempts : Attempts config rounds beginTimestamp times outcome)
    (hlast : continues config .sync outcome = false) :
    Stops config rounds beginTimestamp times (.ended (.ofOutcome outcome))

/-- Without a queue or time, the last round leaves the loop. -/
theorem Stops.of_findsNone {times : ℕ} {ending : LoopEnd}
    (hstops : Stops config rounds beginTimestamp times ending)
    (hnone : FindsNone config rounds beginTimestamp times) : ending = .left times := by
  cases hstops with
  | exhausted => rfl
  | none => rfl
  | thrown _ htime hthrown =>
    rcases hnone with hlate | ⟨mq, hmq, -⟩
    · exact absurd htime hlate
    · rw [hmq] at hthrown
      cases hthrown
  | last _ hattempts => exact absurd hnone hattempts.not_findsNone

/-- With an attempt in it, the last round ends the call with the outcome. -/
theorem Stops.of_attempts {times : ℕ} {ending : LoopEnd} {outcome : Except SendError SendStatus}
    (hstops : Stops config rounds beginTimestamp times ending) (htimes : times < 3)
    (hattempts : Attempts config rounds beginTimestamp times outcome) :
    continues config .sync outcome = false ∧ ending = .ended (.ofOutcome outcome) := by
  cases hstops with
  | exhausted => exact absurd htimes (lt_irrefl 3)
  | none _ hnone => exact absurd hnone hattempts.not_findsNone
  | thrown _ _ hthrown =>
    obtain ⟨-, mq, hmq, -⟩ := hattempts
    rw [hmq] at hthrown
    cases hthrown
  | last _ hother hlast =>
    obtain rfl := hother.unique hattempts
    exact ⟨hlast, rfl⟩

theorem Stops.not_goesOn {times : ℕ} {ending : LoopEnd}
    (hstops : Stops config rounds beginTimestamp times ending) (htimes : times < 3) :
    ¬ GoesOn config rounds beginTimestamp times := by
  rintro ⟨outcome, hattempts, hcontinues⟩
  rw [(hstops.of_attempts htimes hattempts).1] at hcontinues
  cases hcontinues

/-- A round that is reached and not followed by another one is the last round. -/
theorem Stops.eq_of_reached {last times : ℕ} {ending : LoopEnd}
    (hstops : Stops config rounds beginTimestamp last ending)
    (hlast : Reached config rounds beginTimestamp last) (htimes : times < 3)
    (hreached : Reached config rounds beginTimestamp times)
    (hgoes : ¬ GoesOn config rounds beginTimestamp times) : last = times := by
  rcases lt_trichotomy last times with hlt | heq | hgt
  · exact absurd (hreached last hlt) (hstops.not_goesOn (hlt.trans htimes))
  · exact heq
  · exact absurd (hlast times hgt) hgoes

/-- What the loop comes to from a round on: the last round, and the outcomes of the attempts from
the one to the other. -/
def StopsFrom (config : ProducerConfig) (rounds : ℕ → SendRound) (beginTimestamp : ℤ) (first : ℕ)
    (run : SyncRun LoopEnd) : Prop :=
  ∃ last, first ≤ last ∧ Reached config rounds beginTimestamp last ∧
    Stops config rounds beginTimestamp last run.ending ∧
    ∀ outcome, outcome ∈ run.outcomes ↔ ∃ times, first ≤ times ∧ times ≤ last ∧ times < 3 ∧
      Attempts config rounds beginTimestamp times outcome

/-- A round that makes no attempt is the last one. -/
theorem StopsFrom.of_no_attempt {first : ℕ} {ending : LoopEnd} {state : SendState}
    (hreached : Reached config rounds beginTimestamp first)
    (hstops : Stops config rounds beginTimestamp first ending)
    (hnone : first < 3 → ∀ outcome, ¬ Attempts config rounds beginTimestamp first outcome) :
    StopsFrom config rounds beginTimestamp first ⟨ending, [], state⟩ := by
  refine ⟨first, le_rfl, hreached, hstops, fun outcome ↦ iff_of_false List.not_mem_nil ?_⟩
  rintro ⟨times, hfirst, hlast, hlt, hattempts⟩
  obtain rfl := le_antisymm hfirst hlast
  exact hnone hlt outcome hattempts

/-- A round whose attempt is not followed by another round. -/
theorem StopsFrom.of_last {first : ℕ} {outcome : Except SendError SendStatus} {state : SendState}
    (hreached : Reached config rounds beginTimestamp first) (hfirst : first < 3)
    (hattempts : Attempts config rounds beginTimestamp first outcome)
    (hlast : continues config .sync outcome = false) :
    StopsFrom config rounds beginTimestamp first
      ⟨.ended (.ofOutcome outcome), [outcome], state⟩ := by
  refine ⟨first, le_rfl, hreached, .last hfirst hattempts hlast, fun other ↦ ?_⟩
  rw [List.mem_singleton]
  constructor
  · rintro rfl
    exact ⟨first, le_rfl, le_rfl, hfirst, hattempts⟩
  · rintro ⟨times, hle, hle', -, hother⟩
    obtain rfl := le_antisymm hle hle'
    exact hother.unique hattempts

/-- A round whose attempt is followed by another round. -/
theorem StopsFrom.of_next {first : ℕ} {run : SyncRun LoopEnd}
    {outcome : Except SendError SendStatus} (hfirst : first < 3)
    (hattempts : Attempts config rounds beginTimestamp first outcome)
    (hrest : StopsFrom config rounds beginTimestamp (first + 1) run) :
    StopsFrom config rounds beginTimestamp first
      { run with outcomes := outcome :: run.outcomes } := by
  obtain ⟨last, hle, hreached, hstops, hmem⟩ := hrest
  refine ⟨last, by omega, hreached, hstops, fun other ↦ ?_⟩
  rw [List.mem_cons, hmem]
  constructor
  · rintro (rfl | ⟨times, hle', hlast, hlt, hother⟩)
    · exact ⟨first, le_rfl, by omega, hfirst, hattempts⟩
    · exact ⟨times, by omega, hlast, hlt, hother⟩
  · rintro ⟨times, hle', hlast, hlt, hother⟩
    rcases hle'.eq_or_lt with rfl | hlater
    · exact Or.inl (hother.unique hattempts)
    · exact Or.inr ⟨times, hlater, hlast, hlt, hother⟩

/-- The loop from a round on, by induction on the number of rounds left. -/
theorem syncLoop_stopsFrom (remaining : ℕ) (hremaining : remaining ≤ 3) (state : SendState)
    (hreached : Reached config rounds beginTimestamp (3 - remaining)) :
    StopsFrom config rounds beginTimestamp (3 - remaining) (syncLoop zlib config rounds
      beginTimestamp remaining (clockBefore rounds beginTimestamp (3 - remaining)) state) := by
  induction remaining generalizing state with
  | zero => exact .of_no_attempt hreached .exhausted fun hlt ↦ absurd hlt (lt_irrefl 3)
  | succ remaining ih =>
    obtain ⟨times, htimes⟩ : ∃ times, 3 - (remaining + 1) = times := ⟨_, rfl⟩
    have hindex : 2 - remaining = times := by omega
    have hnext : 3 - remaining = times + 1 := by omega
    have hlt : times < 3 := by omega
    rw [htimes] at hreached ⊢
    rw [hnext] at ih
    rw [syncLoop]
    dsimp only
    rw [hindex]
    by_cases htime : InTime config rounds beginTimestamp times
    · have hclock : toInt32 (clockBefore rounds beginTimestamp times - beginTimestamp) <
          config.sendMsgTimeout := htime
      rw [if_pos hclock]
      cases hmq : (rounds times).mq with
      | error failure =>
        refine .of_no_attempt hreached (.thrown hlt htime hmq) ?_
        rintro - outcome ⟨-, mq, hok, -⟩
        rw [hmq] at hok
        cases hok
      | ok mq =>
        dsimp only
        by_cases htopic : mq.topic.isEmpty = true
        · rw [if_pos htopic]
          have hnone : FindsNone config rounds beginTimestamp times := Or.inr ⟨mq, hmq, htopic⟩
          exact .of_no_attempt hreached (.none hlt hnone) fun _ outcome hattempts ↦
            hattempts.not_findsNone hnone
        · have hattempts : Attempts config rounds beginTimestamp times
              (outcomeOf (rounds times) mq) :=
            ⟨htime, mq, hmq, Bool.eq_false_iff.mpr htopic, rfl⟩
          rw [if_neg htopic, sendKernelImpl_fst]
          by_cases hcontinues : continues config .sync (outcomeOf (rounds times) mq) = true
          · rw [if_pos hcontinues]
            exact .of_next hlt hattempts
              (ih (by omega) _ (hreached.succ ⟨_, hattempts, hcontinues⟩))
          · rw [if_neg hcontinues]
            exact .of_last hreached hlt hattempts (Bool.eq_false_iff.mpr hcontinues)
    · have hclock : ¬ toInt32 (clockBefore rounds beginTimestamp times - beginTimestamp) <
          config.sendMsgTimeout := htime
      rw [if_neg hclock]
      have hnone : FindsNone config rounds beginTimestamp times := Or.inl htime
      exact .of_no_attempt hreached (.none hlt hnone) fun _ outcome hattempts ↦
        hattempts.not_findsNone hnone

/-! ### The report -/

theorem noRoute_of_left {times : ℕ} (htimes : times < 3) (hservers : nsList ≠ []) :
    (LoopEnd.left times).callEnd nsList = noRoute := by
  rw [LoopEnd.callEnd, errorAfterLoop, if_neg (by omega), if_neg hservers]
  rfl

/-- The route is reported as missing only by the code behind the loop. -/
theorem Stops.findsNone_of_noRoute {last : ℕ} {ending : LoopEnd}
    (hstops : Stops config rounds beginTimestamp last ending)
    (hnoRoute : ending.callEnd nsList = noRoute) :
    last < 3 ∧ FindsNone config rounds beginTimestamp last ∧ nsList ≠ [] := by
  cases hstops with
  | exhausted =>
    have hretried : CallEnd.threw (.clientException (ofString "Retry many times, still failed")) =
      noRoute := hnoRoute
    exact absurd hretried (by decide)
  | none htimes hnone =>
    refine ⟨htimes, hnone, fun hservers ↦ ?_⟩
    rw [LoopEnd.callEnd, errorAfterLoop, if_neg (by omega), if_pos hservers] at hnoRoute
    exact absurd hnoRoute (by decide)
  | thrown => cases hnoRoute
  | @last _ _ outcome _ hlast =>
    cases outcome with
    | ok status => cases hnoRoute
    | error error =>
      obtain rfl := CallEnd.threw.inj hnoRoute
      cases hlast

/-- A result is returned only by an attempt that is not followed by another round. -/
theorem Stops.attempts_of_returned {last : ℕ} {ending : LoopEnd} {status : SendStatus}
    (hstops : Stops config rounds beginTimestamp last ending)
    (hreturned : ending.callEnd nsList = .returned status) :
    last < 3 ∧ Attempts config rounds beginTimestamp last (.ok status) ∧
      continues config .sync (.ok status) = false := by
  cases hstops with
  | exhausted => cases hreturned
  | none => cases hreturned
  | thrown => cases hreturned
  | @last _ htimes outcome hattempts hlast =>
    cases outcome with
    | ok found =>
      obtain rfl := CallEnd.returned.inj hreturned
      exact ⟨htimes, hattempts, hlast⟩
    | error error => cases hreturned

/-- A round that is followed by another one is before the last one. -/
theorem Stops.lt_of_reached {last times : ℕ} {ending : LoopEnd}
    (hstops : Stops config rounds beginTimestamp last ending) (htimes : times < 3)
    (hreached : Reached config rounds beginTimestamp (times + 1)) : times < last := by
  by_contra hle
  have hbefore : last < times + 1 := by omega
  exact hstops.not_goesOn (by omega) (hreached last hbefore)

variable {run : SyncRun LoopEnd}

/-- A caller who is told the truth has rounds that report well. -/
theorem reportsWell_of_tellsTruth (hrun : StopsFrom config rounds beginTimestamp 0 run)
    (htruth : TellsTruth ⟨run.ending.callEnd nsList, run.outcomes, run.state⟩) :
    ReportsWell config rounds beginTimestamp nsList := by
  obtain ⟨last, -, hlast, hstops, hmem⟩ := hrun
  constructor
  · intro times hpos htimes hreached hnone
    by_contra hservers
    have hgoes : ¬ GoesOn config rounds beginTimestamp times := fun hgoes ↦ by
      obtain ⟨outcome, hattempts, -⟩ := hgoes
      exact hattempts.not_findsNone hnone
    obtain rfl := hstops.eq_of_reached hlast htimes hreached hgoes
    have hending := congrArg (LoopEnd.callEnd nsList) (hstops.of_findsNone hnone)
    have hempty := htruth.route (hending.trans (noRoute_of_left htimes hservers))
    obtain ⟨outcome, hattempts, -⟩ := hreached 0 hpos
    have hfirst := (hmem outcome).mpr ⟨0, le_rfl, Nat.zero_le _, by omega, hattempts⟩
    rw [show run.outcomes = [] from hempty] at hfirst
    exact List.not_mem_nil hfirst
  · rintro times htimes hreached ⟨status, hattempts⟩
    have hbefore := (hstops.lt_of_reached htimes hreached).le
    have hstored := (hmem (.ok status)).mpr ⟨times, Nat.zero_le _, hbefore, htimes, hattempts⟩
    obtain ⟨returned, hreturned, -⟩ := htruth.stored ⟨status, hstored⟩
    obtain ⟨hlt, hend, hdone⟩ := hstops.attempts_of_returned hreturned
    exact ⟨last, hlt, hlast, returned, hend, hdone⟩

/-- Rounds that report well tell the caller the truth. -/
theorem tellsTruth_of_reportsWell (hrun : StopsFrom config rounds beginTimestamp 0 run)
    (hreports : ReportsWell config rounds beginTimestamp nsList) :
    TellsTruth ⟨run.ending.callEnd nsList, run.outcomes, run.state⟩ := by
  obtain ⟨last, -, hlast, hstops, hmem⟩ := hrun
  constructor
  · intro hnoRoute
    obtain ⟨htimes, hnone, hservers⟩ := hstops.findsNone_of_noRoute hnoRoute
    rcases Nat.eq_zero_or_pos last with rfl | hpos
    · refine List.eq_nil_iff_forall_not_mem.mpr fun outcome hmade ↦ ?_
      obtain ⟨times, -, hle, -, hattempts⟩ := (hmem outcome).mp hmade
      obtain rfl := Nat.le_zero.mp hle
      exact hattempts.not_findsNone hnone
    · exact absurd (hreports.route last hpos htimes hlast hnone) hservers
  · rintro ⟨status, hstored⟩
    obtain ⟨times, -, hle, htimes, hattempts⟩ := (hmem (.ok status)).mp hstored
    obtain ⟨final, hfinal, hreached, found, hfound, hdone⟩ :
        ∃ final < 3, Reached config rounds beginTimestamp final ∧
          ∃ found, Attempts config rounds beginTimestamp final (.ok found) ∧
            continues config .sync (.ok found) = false := by
      rcases hle.eq_or_lt with rfl | hlt
      · exact ⟨times, htimes, hlast, status, hattempts, (hstops.of_attempts htimes hattempts).1⟩
      · exact hreports.stored times htimes
          (fun earlier hearlier ↦ hlast earlier (by omega)) ⟨status, hattempts⟩
    have hgoes : ¬ GoesOn config rounds beginTimestamp final := by
      rintro ⟨outcome, houtcome, hcontinues⟩
      rw [houtcome.unique hfound, hdone] at hcontinues
      cases hcontinues
    obtain rfl := hstops.eq_of_reached hlast hfinal hreached hgoes
    have hending := congrArg (LoopEnd.callEnd nsList) (hstops.of_attempts hfinal hfound).2
    exact ⟨found, hending, (hmem (.ok found)).mpr ⟨last, Nat.zero_le _, le_rfl, hfinal, hfound⟩⟩

/-- A call that passes its checks runs the loop from its first round on. -/
theorem sendSync_of_check {msg : Message} (hrunning : config.running = true)
    (hcheck : Validators.checkMessage msg config.maxMessageSize = none) :
    ∃ run, StopsFrom config rounds beginTimestamp 0 run ∧
      sendSync zlib config rounds beginTimestamp msg =
        ⟨run.ending.callEnd config.nsList, run.outcomes, run.state⟩ := by
  refine ⟨_, @syncLoop_stopsFrom zlib config rounds beginTimestamp 3 le_rfl ⟨msg, []⟩
    fun earlier hearlier ↦ ?_, ?_⟩
  · exact absurd hearlier (Nat.not_lt_zero earlier)
  · rw [sendSync, if_neg (by simp [hrunning]), hcheck]
    rfl

/-- A call that fails its checks makes no attempt. -/
theorem outcomes_of_check {msg : Message} (hcheck : ¬ (config.running = true ∧
    Validators.checkMessage msg config.maxMessageSize = none)) :
    (sendSync zlib config rounds beginTimestamp msg).outcomes = [] := by
  unfold sendSync
  cases hrunning : config.running with
  | false => rfl
  | true =>
    cases htext : Validators.checkMessage msg config.maxMessageSize with
    | none => exact absurd ⟨hrunning, htext⟩ hcheck
    | some text => rfl

variable (zlib config rounds beginTimestamp)

/-- The report of a synchronous send is true exactly when its checks fail or its rounds report well.
-/
theorem tellsTruth_iff (msg : Message) :
    TellsTruth (sendSync zlib config rounds beginTimestamp msg) ↔
      (config.running = true → Validators.checkMessage msg config.maxMessageSize = none →
        ReportsWell config rounds beginTimestamp config.nsList) := by
  by_cases hcheck : config.running = true ∧
      Validators.checkMessage msg config.maxMessageSize = none
  · obtain ⟨run, hrun, hsend⟩ := @sendSync_of_check zlib config rounds beginTimestamp msg
      hcheck.1 hcheck.2
    rw [hsend]
    exact ⟨fun htruth _ _ ↦ reportsWell_of_tellsTruth hrun htruth, fun hreports ↦
      tellsTruth_of_reportsWell hrun (hreports hcheck.1 hcheck.2)⟩
  · have hempty := @outcomes_of_check zlib config rounds beginTimestamp msg hcheck
    refine iff_of_true ⟨fun _ ↦ hempty, ?_⟩ fun hrunning hnone ↦ absurd ⟨hrunning, hnone⟩ hcheck
    rintro ⟨status, hstored⟩
    rw [hempty] at hstored
    exact absurd hstored List.not_mem_nil

/-- A topic with one queue. -/
def oneQueue : TopicPublishInfo := ⟨[⟨[84], [97], 0⟩], 0⟩

/-- The attempt on the only broker of a topic fails, the second round finds no other broker, and the
caller is told that there is no route. -/
theorem failed_attempt_reported_as_no_route :
    let run := sendSync zlibOfTwentyLetters ⟨3000, 4096, 5, 131072, false, true, [[110]]⟩
      (fun times ↦ ⟨selectedQueue (fun _ ↦ ⟨some oneQueue, none, oneQueue⟩) times, [49],
        .error (.brokerException 1), 10⟩) 0 ⟨[84], 0, some [1], OrderedMap.empty⟩
    ¬ TellsTruth run ∧ run.ending = noRoute ∧ run.outcomes = [.error (.brokerException 1)] := by
  intro run
  have hending : run.ending = noRoute := by decide
  have houtcomes : run.outcomes = [.error (.brokerException 1)] := by decide
  refine ⟨fun htruth ↦ ?_, hending, houtcomes⟩
  have hempty := htruth.route hending
  rw [houtcomes] at hempty
  cases hempty

/-- A topic with a queue on each of two brokers. -/
def twoBrokers : TopicPublishInfo := ⟨[⟨[84], [97], 0⟩, ⟨[84], [98], 0⟩], 0⟩

/-- The first broker stores the message and is slow to flush, the further attempts fail, and the
caller is told that the message could not be sent. -/
theorem stored_message_reported_as_failed :
    let run := sendSync zlibOfTwentyLetters ⟨3000, 4096, 5, 131072, true, true, [[110]]⟩
      (fun times ↦ ⟨selectedQueue (fun _ ↦ ⟨some twoBrokers, none, twoBrokers⟩) times, [49],
        if times = 0 then .ok .flushDiskTimeout else .error (.brokerException 1), 10⟩) 0
      ⟨[84], 0, some [1], OrderedMap.empty⟩
    ¬ TellsTruth run ∧
      run.ending = .threw (.clientException (ofString "Retry many times, still failed")) ∧
      run.outcomes = [.ok .flushDiskTimeout, .error (.brokerException 1),
        .error (.brokerException 1)] := by
  intro run
  have hending : run.ending =
    .threw (.clientException (ofString "Retry many times, still failed")) := by decide
  have houtcomes : run.outcomes = [.ok .flushDiskTimeout, .error (.brokerException 1),
    .error (.brokerException 1)] := by decide
  refine ⟨fun htruth ↦ ?_, hending, houtcomes⟩
  have hstored : .ok .flushDiskTimeout ∈ run.outcomes := by
    rw [houtcomes]
    exact List.mem_cons_self
  obtain ⟨status, hreturned, -⟩ := htruth.stored ⟨_, hstored⟩
  rw [hending] at hreturned
  cases hreturned

/-! ### The loop without its outcomes -/

/-- The round of an attempt that found a queue. -/
def SendAttempt.round (attempt : SendAttempt) : SendRound :=
  ⟨.ok attempt.mq, attempt.brokerAddr, attempt.reply, attempt.endTimestamp⟩

variable {zlib config beginTimestamp}

/-- A run of the loop ends like one of `sendLoop`. -/
def EndsLike (nsList : List ByteString) (run : SyncRun LoopEnd)
    (result : Except SendError SendStatus × SendState) : Prop :=
  run.ending.callEnd nsList = .ofOutcome result.1 ∧ run.state = result.2

theorem syncLoop_endsLike (attempts : ℕ → SendAttempt) (remaining : ℕ) (endTimestamp : ℤ)
    (state : SendState) :
    EndsLike config.nsList (syncLoop zlib config (fun times ↦ (attempts times).round) beginTimestamp
        remaining endTimestamp state)
      (sendLoop zlib config .sync attempts beginTimestamp remaining endTimestamp state) := by
  induction remaining generalizing endTimestamp state with
  | zero => exact ⟨rfl, rfl⟩
  | succ remaining ih =>
    obtain ⟨attempt, hattempt⟩ : ∃ attempt, attempts (2 - remaining) = attempt := ⟨_, rfl⟩
    unfold syncLoop sendLoop
    dsimp only
    rw [hattempt]
    have hround : attempt.round.attempt attempt.mq = attempt := rfl
    have hmq : attempt.round.mq = .ok attempt.mq := rfl
    rw [hmq]
    dsimp only
    rw [hround]
    by_cases hmade : toInt32 (endTimestamp - beginTimestamp) < config.sendMsgTimeout ∧
        attempt.mq.topic.isEmpty = false
    · rw [if_pos hmade, if_pos hmade.1, if_neg (Bool.eq_false_iff.mp hmade.2)]
      by_cases hcontinues :
          continues config .sync (sendKernelImpl zlib config state attempt).1 = true
      · rw [if_pos hcontinues, if_pos hcontinues]
        exact ih _ _
      · rw [if_neg hcontinues, if_neg hcontinues]
        exact ⟨rfl, rfl⟩
    · rw [if_neg hmade]
      by_cases htime : toInt32 (endTimestamp - beginTimestamp) < config.sendMsgTimeout
      · have htopic : attempt.mq.topic.isEmpty = true := by
          by_contra hne
          exact hmade ⟨htime, Bool.eq_false_iff.mpr hne⟩
        rw [if_pos htime, if_pos htopic]
        exact ⟨rfl, rfl⟩
      · rw [if_neg htime]
        exact ⟨rfl, rfl⟩

/-- When queues are found or missing, a synchronous send is one of `sendDefaultImpl`. -/
theorem sendSync_eq (attempts : ℕ → SendAttempt) (msg : Message) :
    (sendSync zlib config (fun times ↦ (attempts times).round) beginTimestamp msg).ending =
        .ofOutcome (sendDefaultImpl zlib config .sync attempts beginTimestamp msg).1 ∧
      (sendSync zlib config (fun times ↦ (attempts times).round) beginTimestamp msg).state =
        (sendDefaultImpl zlib config .sync attempts beginTimestamp msg).2 := by
  unfold sendSync sendDefaultImpl
  split_ifs with hrunning
  · exact ⟨rfl, rfl⟩
  · cases Validators.checkMessage msg config.maxMessageSize with
    | some text => exact ⟨rfl, rfl⟩
    | none => exact syncLoop_endsLike attempts 3 beginTimestamp ⟨msg, []⟩

end RocketMQClient.Producer
