import Mathlib.Data.List.Chain
import RocketMQClient.Producer.SendRetry

/-!
# Selecting a queue

`selectOneMessageQueue` goes through the queues of a topic from a counter on, until it finds one
whose broker is not the one that was used last. A position is the absolute value of a 32-bit number
modulo the number of queues, so the positions of a search run backwards while the number is negative
and forwards from zero on.

`SelectsCompletely` is what a selection should do, and `selection_complete_iff` says that it does so
exactly when one of the positions looked at holds a queue of another broker, or there is no such
queue. A counter whose sign does not change during the search looks at all positions
(`looksAt_of_nonneg`, `looksAt_of_neg`); when it passes zero the last positions are missed
(`looksAt_iff_of_sign_change`, `sign_change_misses_broker`), so that for a counter that does not
wrap the condition is one on the positions of the queues of other brokers (`looksAt_iff`). Two
attempts of a call in a row use different brokers, whatever the counter, since the search leaves out
the broker it is given.
-/

set_option autoImplicit false
set_option relaxedAutoImplicit false

namespace RocketMQClient.Producer

open Library Messages

/-! ### The operations of the source -/

/-- The queues of a topic, and the counter from which a search begins. -/
structure TopicPublishInfo where
  messageQueueList : List MessageQueue
  sendWhichQueue : BitVec 32
  deriving DecidableEq

/-- A position is not in the list. -/
inductive SelectionFailure where
  | outOfRange
  deriving DecidableEq

/-- `abs(index) % size` as an `int`; the division takes the absolute value as an unsigned number of
64 bits. -/
def position (size : ℕ) (index : BitVec 32) : ℤ :=
  (BitVec.ofNat 32 ((index.abs.signExtend 64).toNat % size)).toInt

namespace TopicPublishInfo

/-- The queue at the position of an index, if the position is in the list. -/
def queueAt (info : TopicPublishInfo) (index : BitVec 32) : Option MessageQueue :=
  let pos := position info.messageQueueList.length index
  if 0 ≤ pos then info.messageQueueList[pos.toNat]? else none

/-- The loop over the queues, with the number of positions left and the next index. -/
def searchQueue (info : TopicPublishInfo) (lastBrokerName : ByteString) :
    ℕ → BitVec 32 → Except SelectionFailure (Option MessageQueue)
  | 0, _ => .ok none
  | remaining + 1, index =>
    match info.queueAt index with
    | none => .error .outOfRange
    | some mq =>
      if mq.brokerName ≠ lastBrokerName then .ok (some mq)
      else searchQueue info lastBrokerName remaining (index + 1)

/-- Selects a queue, not of the last broker if there is one. -/
def selectOneMessageQueue (info : TopicPublishInfo) (lastBrokerName : ByteString) :
    Except SelectionFailure (Option MessageQueue) × TopicPublishInfo :=
  let counted := { info with sendWhichQueue := info.sendWhichQueue + 1 }
  if lastBrokerName ≠ [] then
    (info.searchQueue lastBrokerName info.messageQueueList.length info.sendWhichQueue, counted)
  else if info.messageQueueList = [] then (.ok none, info)
  else
    match info.queueAt info.sendWhichQueue with
    | none => (.error .outOfRange, counted)
    | some mq => (.ok (some mq), counted)

end TopicPublishInfo

/-- What the three lookups of `tryToFindTopicPublishMq` find in the table: at first, and after the
route was asked for, for the topic and for the default topic. -/
structure PublishLookups where
  first : Option TopicPublishInfo
  second : Option TopicPublishInfo
  third : TopicPublishInfo

/-- An entry with queues. -/
def usable (found : Option TopicPublishInfo) : Option TopicPublishInfo :=
  found.filter fun info ↦ !info.messageQueueList.isEmpty

/-- The queue for an attempt; one without a topic when there is none. -/
def tryToFindTopicPublishMq (lookups : PublishLookups) (lastBrokerName : ByteString) :
    Except SelectionFailure MessageQueue :=
  let info := ((usable lookups.first).or (usable lookups.second)).getD lookups.third
  match (info.selectOneMessageQueue lastBrokerName).1 with
  | .ok selected => .ok (selected.getD ⟨[], [], 0⟩)
  | .error failure => .error failure

/-- The queue of each attempt, selected with the broker of the attempt before; a selection that
throws ends the call, like one that finds no queue. -/
def attemptQueue (lookups : ℕ → PublishLookups) : ℕ → MessageQueue
  | 0 => ((tryToFindTopicPublishMq (lookups 0) []).toOption).getD ⟨[], [], 0⟩
  | times + 1 =>
    ((tryToFindTopicPublishMq (lookups (times + 1))
      (attemptQueue lookups times).brokerName).toOption).getD ⟨[], [], 0⟩

/-- The attempts of a call with their queues. -/
def selectedAttempts (lookups : ℕ → PublishLookups) (attempts : ℕ → SendAttempt) (times : ℕ) :
    SendAttempt :=
  { attempts times with mq := attemptQueue lookups times }

/-- The queues of the attempts that the loop of `sendDefaultImpl` makes. -/
def usedQueues (zlib : Zlib) (config : ProducerConfig) (mode : CommunicationMode)
    (attempts : ℕ → SendAttempt) (beginTimestamp : ℤ) : ℕ → ℤ → SendState → List MessageQueue
  | 0, _, _ => []
  | remaining + 1, endTimestamp, state =>
    let attempt := attempts (2 - remaining)
    if toInt32 (endTimestamp - beginTimestamp) < config.sendMsgTimeout ∧
        attempt.mq.topic.isEmpty = false then
      let sent := sendKernelImpl zlib config state attempt
      attempt.mq ::
        if continues config mode sent.1 then
          usedQueues zlib config mode attempts beginTimestamp remaining attempt.endTimestamp sent.2
        else []
    else []

/-! ### What a selection should do -/

namespace TopicPublishInfo

/-- The queue that a search looks at after a number of others. -/
def lookedAt (info : TopicPublishInfo) (count : ℕ) : Option MessageQueue :=
  info.queueAt (info.sendWhichQueue + BitVec.ofNat 32 count)

/-- A selection stays in the list, finds nothing exactly when the last broker has all queues, and
otherwise finds a queue of the list that is not of the last broker. -/
def SelectsCompletely (info : TopicPublishInfo) (lastBrokerName : ByteString) : Prop :=
  ∃ selected, (info.selectOneMessageQueue lastBrokerName).1 = .ok selected ∧
    (selected = none ↔
      lastBrokerName ≠ [] ∧ ∀ mq ∈ info.messageQueueList, mq.brokerName = lastBrokerName) ∧
    ∀ mq ∈ selected,
      mq ∈ info.messageQueueList ∧ (lastBrokerName ≠ [] → mq.brokerName ≠ lastBrokerName)

/-- The positions looked at are in the list, and one of them holds a queue of another broker unless
there is none in the list. -/
def LooksFarEnough (info : TopicPublishInfo) (lastBrokerName : ByteString) : Prop :=
  if lastBrokerName = [] then (info.lookedAt 0).isSome = true
  else
    (∃ count < info.messageQueueList.length,
        (∀ earlier < count, (info.lookedAt earlier).isSome = true) ∧
          ∃ mq ∈ info.lookedAt count, mq.brokerName ≠ lastBrokerName) ∨
      (∀ mq ∈ info.messageQueueList, mq.brokerName = lastBrokerName) ∧
        ∀ count < info.messageQueueList.length, (info.lookedAt count).isSome = true

/-! ### The search -/

variable {info : TopicPublishInfo} {lastBrokerName : ByteString}

/-- A queue that is looked at is in the list. -/
theorem mem_of_queueAt {index : BitVec 32} {mq : MessageQueue}
    (hqueue : info.queueAt index = some mq) : mq ∈ info.messageQueueList := by
  rw [queueAt] at hqueue
  split_ifs at hqueue
  exact List.mem_of_getElem? hqueue

theorem add_ofNat_succ (index : BitVec 32) (count : ℕ) :
    index + 1 + BitVec.ofNat 32 count = index + BitVec.ofNat 32 (count + 1) := by
  rw [BitVec.ofNat_add, BitVec.add_assoc, BitVec.add_comm 1]
  rfl

/-- A bounded statement about a number and its successors. -/
theorem forall_lt_succ_iff {bound : ℕ} {holds : ℕ → Prop} :
    (∀ count < bound + 1, holds count) ↔ holds 0 ∧ ∀ count < bound, holds (count + 1) := by
  constructor
  · intro hall
    exact ⟨hall 0 (Nat.succ_pos bound), fun count hcount ↦ hall (count + 1) (by omega)⟩
  · rintro ⟨hzero, hsucc⟩ count hcount
    cases count with
    | zero => exact hzero
    | succ count => exact hsucc count (by omega)

/-- A search finds nothing when all queues that it looks at are of the last broker. -/
theorem searchQueue_eq_none_iff (remaining : ℕ) (index : BitVec 32) :
    info.searchQueue lastBrokerName remaining index = .ok none ↔
      ∀ count < remaining, ∃ mq ∈ info.queueAt (index + BitVec.ofNat 32 count),
        mq.brokerName = lastBrokerName := by
  induction remaining generalizing index with
  | zero => exact iff_of_true rfl fun count hcount ↦ absurd hcount (Nat.not_lt_zero count)
  | succ remaining ih =>
    have hzero : index + BitVec.ofNat 32 0 = index := BitVec.add_zero index
    rw [forall_lt_succ_iff, hzero, searchQueue]
    simp only [← add_ofNat_succ]
    cases hqueue : info.queueAt index with
    | none => simp
    | some mq =>
      by_cases hbroker : mq.brokerName = lastBrokerName
      · rw [← ih (index + 1)]
        simp [hbroker]
      · simp [hbroker]

/-- A search finds the first queue of another broker that it looks at. -/
theorem searchQueue_eq_some_iff (remaining : ℕ) (index : BitVec 32) (mq : MessageQueue) :
    info.searchQueue lastBrokerName remaining index = .ok (some mq) ↔
      ∃ count < remaining,
        (∀ earlier < count, ∃ other ∈ info.queueAt (index + BitVec.ofNat 32 earlier),
          other.brokerName = lastBrokerName) ∧
        info.queueAt (index + BitVec.ofNat 32 count) = some mq ∧
          mq.brokerName ≠ lastBrokerName := by
  induction remaining generalizing index with
  | zero => simp [searchQueue]
  | succ remaining ih =>
    have hzero : index + BitVec.ofNat 32 0 = index := BitVec.add_zero index
    rw [searchQueue]
    cases hqueue : info.queueAt index with
    | none =>
      refine iff_of_false (by simp) ?_
      rintro ⟨count, -, hearlier, hfound, -⟩
      cases count with
      | zero => simp [hzero, hqueue] at hfound
      | succ count =>
        obtain ⟨other, hother, -⟩ := hearlier 0 (Nat.succ_pos count)
        simp [hzero, hqueue] at hother
    | some first =>
      dsimp only
      by_cases hbroker : first.brokerName = lastBrokerName
      · rw [if_neg (not_not.mpr hbroker), ih (index + 1)]
        simp only [add_ofNat_succ]
        constructor
        · rintro ⟨count, hcount, hearlier, hfound⟩
          refine ⟨count + 1, by omega, forall_lt_succ_iff.mpr ⟨?_, hearlier⟩, hfound⟩
          exact ⟨first, by rw [hzero]; exact hqueue, hbroker⟩
        · rintro ⟨count, hcount, hearlier, hfound, hdifferent⟩
          cases count with
          | zero =>
            rw [hzero, hqueue] at hfound
            exact absurd (Option.some.inj hfound ▸ hbroker) hdifferent
          | succ count =>
            exact ⟨count, by omega, (forall_lt_succ_iff.mp hearlier).2, hfound, hdifferent⟩
      · rw [if_pos hbroker]
        constructor
        · intro hfirst
          obtain rfl : first = mq := by simpa using hfirst
          exact ⟨0, by omega, fun _ hlt ↦ absurd hlt (Nat.not_lt_zero _), by rw [hzero, hqueue],
            hbroker⟩
        · rintro ⟨count, -, hearlier, hfound, -⟩
          cases count with
          | zero =>
            rw [hzero, hqueue] at hfound
            rw [Option.some.inj hfound]
          | succ count =>
            obtain ⟨other, hother, hsame⟩ := hearlier 0 (Nat.succ_pos count)
            rw [hzero, hqueue] at hother
            exact absurd (Option.some.inj hother ▸ hsame) hbroker

/-! ### When a selection does what it should -/

/-- Without a last broker the selection is the queue at the position of the counter. -/
theorem selectsCompletely_nil_iff (hqueues : info.messageQueueList ≠ []) :
    info.SelectsCompletely [] ↔ (info.lookedAt 0).isSome = true := by
  have hzero : info.lookedAt 0 = info.queueAt info.sendWhichQueue :=
    congrArg info.queueAt (BitVec.add_zero info.sendWhichQueue)
  rw [SelectsCompletely, hzero]
  cases hqueue : info.queueAt info.sendWhichQueue with
  | none =>
    have hselect : (info.selectOneMessageQueue []).1 = .error .outOfRange := by
      rw [selectOneMessageQueue, if_neg (not_not.mpr rfl), if_neg hqueues, hqueue]
    rw [hselect]
    simp
  | some mq =>
    have hselect : (info.selectOneMessageQueue []).1 = .ok (some mq) := by
      rw [selectOneMessageQueue, if_neg (not_not.mpr rfl), if_neg hqueues, hqueue]
    rw [hselect]
    simpa using mem_of_queueAt hqueue

/-- After another broker the selection is what the search finds. -/
theorem selectsCompletely_iff_of_ne_nil (hlast : lastBrokerName ≠ []) :
    info.SelectsCompletely lastBrokerName ↔
      (∃ count < info.messageQueueList.length,
        (∀ earlier < count, (info.lookedAt earlier).isSome = true) ∧
          ∃ mq ∈ info.lookedAt count, mq.brokerName ≠ lastBrokerName) ∨
      (∀ mq ∈ info.messageQueueList, mq.brokerName = lastBrokerName) ∧
        ∀ count < info.messageQueueList.length, (info.lookedAt count).isSome = true := by
  have hselect : (info.selectOneMessageQueue lastBrokerName).1 =
      info.searchQueue lastBrokerName info.messageQueueList.length info.sendWhichQueue := by
    rw [selectOneMessageQueue, if_pos hlast]
  rw [SelectsCompletely, hselect]
  constructor
  · rintro ⟨selected, hselected, hnone, -⟩
    cases selected with
    | none =>
      refine Or.inr ⟨(hnone.mp rfl).2, fun count hcount ↦ ?_⟩
      obtain ⟨mq, hmq, -⟩ := (searchQueue_eq_none_iff _ _).mp hselected count hcount
      exact Option.isSome_iff_exists.mpr ⟨mq, hmq⟩
    | some mq =>
      obtain ⟨count, hcount, hearlier, hfound, hdifferent⟩ :=
        (searchQueue_eq_some_iff _ _ mq).mp hselected
      refine Or.inl ⟨count, hcount, fun earlier hlt ↦ ?_, mq, hfound, hdifferent⟩
      obtain ⟨other, hother, -⟩ := hearlier earlier hlt
      exact Option.isSome_iff_exists.mpr ⟨other, hother⟩
  · rintro (⟨count, hcount, hearlier, hfound⟩ | ⟨hsame, hlooked⟩)
    · classical
      have hexists : ∃ first, ∃ mq ∈ info.lookedAt first, mq.brokerName ≠ lastBrokerName :=
        ⟨count, hfound⟩
      obtain ⟨mq, hmq, hdifferent⟩ := Nat.find_spec hexists
      have hle : Nat.find hexists ≤ count := Nat.find_min' hexists hfound
      refine ⟨some mq, (searchQueue_eq_some_iff _ _ mq).mpr ⟨Nat.find hexists, by omega,
        fun earlier hlt ↦ ?_, hmq, hdifferent⟩, iff_of_false (by simp) ?_, ?_⟩
      · obtain ⟨other, hother⟩ := Option.isSome_iff_exists.mp (hearlier earlier (by omega))
        refine ⟨other, hother, ?_⟩
        by_contra hbroker
        exact Nat.find_min hexists hlt ⟨other, hother, hbroker⟩
      · rintro ⟨-, hsame⟩
        exact hdifferent (hsame mq (mem_of_queueAt hmq))
      · intro selected hselected
        rw [← Option.some.inj hselected]
        exact ⟨mem_of_queueAt hmq, fun _ ↦ hdifferent⟩
    · refine ⟨none, (searchQueue_eq_none_iff _ _).mpr fun count hcount ↦ ?_,
        iff_of_true rfl ⟨hlast, hsame⟩, fun mq hmq ↦ nomatch hmq⟩
      obtain ⟨mq, hmq⟩ := Option.isSome_iff_exists.mp (hlooked count hcount)
      exact ⟨mq, hmq, hsame mq (mem_of_queueAt hmq)⟩

/-- A selection does what it should exactly when it looks far enough. -/
theorem selectsCompletely_iff (hqueues : info.messageQueueList ≠ []) (lastBrokerName : ByteString) :
    info.SelectsCompletely lastBrokerName ↔ info.LooksFarEnough lastBrokerName := by
  rw [LooksFarEnough]
  split_ifs with hlast
  · rw [hlast]
    exact selectsCompletely_nil_iff hqueues
  · exact selectsCompletely_iff_of_ne_nil hlast

end TopicPublishInfo

/-! ### The positions of a search -/

section Positions

variable {size : ℕ} {counter : BitVec 32}

/-- The positions of a list that is not too long are in the list. -/
theorem position_range (hsize : 0 < size) (hmax : size ≤ 2147483648) (index : BitVec 32) :
    0 ≤ position size index ∧ position size index < size := by
  have hlt := Nat.mod_lt (index.abs.signExtend 64).toNat hsize
  have hpos : position size index = ((index.abs.signExtend 64).toNat % size : ℕ) := by
    rw [position, BitVec.toInt_ofNat']
    apply Int.bmod_eq_of_le <;> omega
  omega

/-- The position of an index that is not the smallest one. -/
theorem position_eq {index : BitVec 32} (hsize : 0 < size) (hmax : size ≤ 2147483648)
    (hindex : index ≠ BitVec.intMin 32) :
    position size index = (index.toInt.natAbs % size : ℕ) := by
  have hextended : (index.abs.signExtend 64).toInt = index.toInt.natAbs := by
    rw [BitVec.toInt_signExtend_of_le (by decide), BitVec.toInt_abs_eq_natAbs, if_neg hindex]
  have hmagnitude : (index.abs.signExtend 64).toNat = index.toInt.natAbs := by
    rw [BitVec.toInt_eq_toNat_cond] at hextended
    have hlt := (index.abs.signExtend 64).isLt
    split_ifs at hextended <;> omega
  have hlt := Nat.mod_lt index.toInt.natAbs hsize
  rw [position, hmagnitude, BitVec.toInt_ofNat']
  apply Int.bmod_eq_of_le <;> omega

/-- The index after a number of others, as long as it does not wrap. -/
theorem toInt_add_ofNat {count : ℕ} (hlower : -2147483648 ≤ counter.toInt + count)
    (hupper : counter.toInt + count ≤ 2147483647) :
    (counter + BitVec.ofNat 32 count).toInt = counter.toInt + count := by
  rw [BitVec.toInt_add, BitVec.toInt_ofNat', Int.add_bmod_bmod]
  apply Int.bmod_eq_of_le <;> omega

/-- The position after a number of others, as long as the index does not wrap. -/
theorem position_add {count : ℕ} (hsize : 0 < size) (hmax : size ≤ 2147483648)
    (hlower : -2147483648 < counter.toInt + count) (hupper : counter.toInt + count ≤ 2147483647) :
    position size (counter + BitVec.ofNat 32 count) =
      ((counter.toInt + count).natAbs % size : ℕ) := by
  have hindex := toInt_add_ofNat hlower.le hupper
  rw [position_eq hsize hmax, hindex]
  intro hmin
  rw [hmin] at hindex
  have htoInt : (BitVec.intMin 32).toInt = -2147483648 := by decide
  omega

/-- Consecutive numbers from any number on have all residues. -/
theorem exists_add_mod {pos : ℕ} (base : ℕ) (hpos : pos < size) :
    ∃ count < size, (base + count) % size = pos := by
  have hbase := Nat.mod_lt base (Nat.zero_lt_of_lt hpos)
  have hdiv := Nat.div_add_mod base size
  by_cases hle : base % size ≤ pos
  · refine ⟨pos - base % size, by omega, ?_⟩
    have hsum : base + (pos - base % size) = pos + size * (base / size) := by omega
    rw [hsum, Nat.add_mul_mod_self_left, Nat.mod_eq_of_lt hpos]
  · refine ⟨size + pos - base % size, by omega, ?_⟩
    have hsum : base + (size + pos - base % size) = pos + size + size * (base / size) := by omega
    rw [hsum, Nat.add_mul_mod_self_left, Nat.add_mod_right, Nat.mod_eq_of_lt hpos]

/-- Consecutive numbers down to zero or further have all residues. -/
theorem exists_sub_mod {pos base : ℕ} (hbase : size ≤ base + 1) (hpos : pos < size) :
    ∃ count < size, (base - count) % size = pos := by
  have hmod := Nat.mod_lt (base - pos) (Nat.zero_lt_of_lt hpos)
  have hdiv := Nat.div_add_mod (base - pos) size
  refine ⟨(base - pos) % size, hmod, ?_⟩
  have hsum : base - (base - pos) % size = pos + size * ((base - pos) / size) := by omega
  rw [hsum, Nat.add_mul_mod_self_left, Nat.mod_eq_of_lt hpos]

/-- A search looks at a position. -/
def LooksAt (size : ℕ) (counter : BitVec 32) (pos : ℕ) : Prop :=
  ∃ count < size, position size (counter + BitVec.ofNat 32 count) = pos

/-- A search that begins with a number that is not negative, and does not wrap, looks at all
positions. -/
theorem looksAt_of_nonneg {pos : ℕ} (hnonneg : 0 ≤ counter.toInt)
    (hwrap : counter.toInt + size ≤ 2147483648) (hpos : pos < size) :
    LooksAt size counter pos := by
  obtain ⟨count, hcount, hmod⟩ := exists_add_mod counter.toInt.natAbs hpos
  refine ⟨count, hcount, ?_⟩
  have habs : (counter.toInt + count).natAbs = counter.toInt.natAbs + count := by omega
  rw [position_add (by omega) (by omega) (by omega) (by omega), habs, hmod]

/-- A search that ends with a number that is not positive, and does not begin with the smallest one,
looks at all positions. -/
theorem looksAt_of_neg {pos : ℕ} (hmin : -2147483648 < counter.toInt)
    (hneg : counter.toInt + size ≤ 1) (hpos : pos < size) : LooksAt size counter pos := by
  have hbase : size ≤ counter.toInt.natAbs + 1 := by omega
  obtain ⟨count, hcount, hmod⟩ := exists_sub_mod hbase hpos
  refine ⟨count, hcount, ?_⟩
  have habs : (counter.toInt + count).natAbs = counter.toInt.natAbs - count := by omega
  rw [position_add (by omega) (by omega) (by omega) (by omega), habs, hmod]

/-- A search that passes zero looks at the positions up to the larger of the two distances from
zero. -/
theorem looksAt_iff_of_sign_change {pos : ℕ} (hmin : -2147483648 < counter.toInt)
    (hmax : size ≤ 2147483648) (hneg : counter.toInt < 0) (hpositive : 1 < counter.toInt + size) :
    LooksAt size counter pos ↔
      (pos : ℤ) ≤ max (-counter.toInt) (counter.toInt + size - 1) := by
  have hposition : ∀ count < size, position size (counter + BitVec.ofNat 32 count) =
      ((counter.toInt + count).natAbs : ℕ) := by
    intro count hcount
    rw [position_add (by omega) hmax (by omega) (by omega), Nat.mod_eq_of_lt (by omega)]
  constructor
  · rintro ⟨count, hcount, hpos⟩
    rw [hposition count hcount] at hpos
    omega
  · intro hpos
    by_cases hbefore : (pos : ℤ) ≤ -counter.toInt
    · refine ⟨(-counter.toInt - pos).toNat, by omega, ?_⟩
      rw [hposition _ (by omega)]
      omega
    · refine ⟨(pos - counter.toInt).toNat, by omega, ?_⟩
      rw [hposition _ (by omega)]
      omega

/-- A search of which no index wraps looks at all positions when its numbers keep their sign, and
else at those up to the larger of the two distances from zero. -/
theorem looksAt_iff {pos : ℕ} (hmax : size ≤ 2147483648) (hmin : -2147483648 < counter.toInt)
    (hwrap : counter.toInt + size ≤ 2147483648) (hpos : pos < size) :
    LooksAt size counter pos ↔ 0 ≤ counter.toInt ∨ counter.toInt + size ≤ 1 ∨
      (pos : ℤ) ≤ max (-counter.toInt) (counter.toInt + size - 1) := by
  by_cases hnonneg : 0 ≤ counter.toInt
  · exact iff_of_true (looksAt_of_nonneg hnonneg hwrap hpos) (Or.inl hnonneg)
  by_cases hneg : counter.toInt + size ≤ 1
  · exact iff_of_true (looksAt_of_neg hmin hneg hpos) (Or.inr (Or.inl hneg))
  · rw [or_iff_right hnonneg, or_iff_right hneg]
    exact looksAt_iff_of_sign_change hmin hmax (by omega) (by omega)

end Positions

namespace TopicPublishInfo

variable {info : TopicPublishInfo} {lastBrokerName : ByteString}

/-- The queue that is looked at stands at the position of the index. -/
theorem lookedAt_eq (hqueues : info.messageQueueList ≠ [])
    (hmax : info.messageQueueList.length ≤ 2147483648) (count : ℕ) :
    info.lookedAt count = info.messageQueueList[(position info.messageQueueList.length
        (info.sendWhichQueue + BitVec.ofNat 32 count)).toNat]? ∧
      (info.lookedAt count).isSome = true := by
  obtain ⟨hnonneg, hlt⟩ := position_range (List.length_pos_iff.mpr hqueues) hmax
    (info.sendWhichQueue + BitVec.ofNat 32 count)
  have hqueue : info.lookedAt count = info.messageQueueList[(position
      info.messageQueueList.length (info.sendWhichQueue + BitVec.ofNat 32 count)).toNat]? := by
    rw [lookedAt, queueAt]
    exact if_pos hnonneg
  refine ⟨hqueue, ?_⟩
  rw [hqueue, List.getElem?_eq_getElem (by omega), Option.isSome_some]

/-- In a list that is not too long a search looks far enough exactly when there is no last broker,
or no queue of another one, or such a queue at a position that it looks at. -/
theorem looksFarEnough_iff (hqueues : info.messageQueueList ≠ [])
    (hmax : info.messageQueueList.length ≤ 2147483648) :
    info.LooksFarEnough lastBrokerName ↔
      lastBrokerName = [] ∨ (∀ mq ∈ info.messageQueueList, mq.brokerName = lastBrokerName) ∨
        ∃ pos, LooksAt info.messageQueueList.length info.sendWhichQueue pos ∧
          ∃ mq ∈ info.messageQueueList[pos]?, mq.brokerName ≠ lastBrokerName := by
  have hlooked := lookedAt_eq hqueues hmax
  rw [LooksFarEnough]
  by_cases hlast : lastBrokerName = []
  · rw [if_pos hlast]
    exact iff_of_true (hlooked 0).2 (Or.inl hlast)
  · rw [if_neg hlast, or_iff_right hlast, or_comm]
    refine or_congr (and_iff_left fun count _ ↦ (hlooked count).2) ?_
    constructor
    · rintro ⟨count, hcount, -, mq, hmq, hdifferent⟩
      rw [(hlooked count).1] at hmq
      refine ⟨_, ⟨count, hcount, (Int.toNat_of_nonneg ?_).symm⟩, mq, hmq, hdifferent⟩
      exact (position_range (List.length_pos_iff.mpr hqueues) hmax _).1
    · rintro ⟨pos, ⟨count, hcount, hpos⟩, mq, hmq, hdifferent⟩
      refine ⟨count, hcount, fun earlier _ ↦ (hlooked earlier).2, mq, ?_, hdifferent⟩
      rw [(hlooked count).1, hpos, Int.toNat_natCast]
      exact hmq

/-- When no index of the search wraps, the positions it looks at have a closed form. -/
theorem looksFarEnough_iff_of_no_wrap (hqueues : info.messageQueueList ≠ [])
    (hmax : info.messageQueueList.length ≤ 2147483648)
    (hmin : -2147483648 < info.sendWhichQueue.toInt)
    (hwrap : info.sendWhichQueue.toInt + info.messageQueueList.length ≤ 2147483648) :
    info.LooksFarEnough lastBrokerName ↔
      lastBrokerName = [] ∨ (∀ mq ∈ info.messageQueueList, mq.brokerName = lastBrokerName) ∨
        ∃ pos : ℕ, (0 ≤ info.sendWhichQueue.toInt ∨
            info.sendWhichQueue.toInt + info.messageQueueList.length ≤ 1 ∨
            (pos : ℤ) ≤ max (-info.sendWhichQueue.toInt)
              (info.sendWhichQueue.toInt + info.messageQueueList.length - 1)) ∧
          ∃ mq ∈ info.messageQueueList[pos]?, mq.brokerName ≠ lastBrokerName := by
  rw [looksFarEnough_iff hqueues hmax]
  refine or_congr Iff.rfl (or_congr Iff.rfl (exists_congr fun pos ↦ and_congr_left ?_))
  rintro ⟨mq, hmq, -⟩
  obtain ⟨hpos, -⟩ := List.getElem?_eq_some_iff.mp hmq
  exact looksAt_iff hmax hmin hwrap hpos

end TopicPublishInfo

/-! ### The attempts of a call -/

variable {lookups : ℕ → PublishLookups}

/-- A queue that was selected after a broker is of another one. -/
theorem brokerName_ne_of_tryToFind {found : PublishLookups} {lastBrokerName : ByteString}
    {mq : MessageQueue} (hfound : tryToFindTopicPublishMq found lastBrokerName = .ok mq)
    (htopic : mq.topic ≠ []) (hlast : lastBrokerName ≠ []) : mq.brokerName ≠ lastBrokerName := by
  rw [tryToFindTopicPublishMq] at hfound
  obtain ⟨info, hinfo⟩ : ∃ info,
      info = ((usable found.first).or (usable found.second)).getD found.third := ⟨_, rfl⟩
  rw [← hinfo] at hfound
  cases hselected : (info.selectOneMessageQueue lastBrokerName).1 with
  | error failure =>
    rw [hselected] at hfound
    exact nomatch hfound
  | ok selected =>
    rw [hselected] at hfound
    have hmq := Except.ok.inj hfound
    cases selected with
    | none =>
      rw [← hmq] at htopic
      exact absurd rfl htopic
    | some selected =>
      obtain rfl : selected = mq := hmq
      rw [TopicPublishInfo.selectOneMessageQueue, if_pos hlast] at hselected
      obtain ⟨-, -, -, -, hdifferent⟩ :=
        (TopicPublishInfo.searchQueue_eq_some_iff _ _ selected).mp hselected
      exact hdifferent

/-- Two attempts in a row that find queues use different brokers, unless the broker has no name. -/
theorem attemptQueue_ne (times : ℕ) (htopic : (attemptQueue lookups (times + 1)).topic ≠ [])
    (hbroker : (attemptQueue lookups times).brokerName ≠ []) :
    (attemptQueue lookups (times + 1)).brokerName ≠ (attemptQueue lookups times).brokerName := by
  cases hfound : tryToFindTopicPublishMq (lookups (times + 1))
      (attemptQueue lookups times).brokerName with
  | error failure =>
    rw [attemptQueue, hfound] at htopic
    exact absurd rfl htopic
  | ok mq =>
    have hmq : attemptQueue lookups (times + 1) = mq := by
      rw [attemptQueue, hfound]
      rfl
    rw [hmq] at htopic ⊢
    exact brokerName_ne_of_tryToFind hfound htopic hbroker

section Calls

variable (zlib : Zlib) (config : ProducerConfig) (mode : CommunicationMode)
  (lookups : ℕ → PublishLookups) (attempts : ℕ → SendAttempt) (beginTimestamp : ℤ)

/-- The queues of the attempts that are left begin with the queue of the next attempt. -/
theorem head?_usedQueues {remaining : ℕ} {endTimestamp : ℤ} {state : SendState}
    {mq : MessageQueue}
    (hhead : mq ∈ (usedQueues zlib config mode (selectedAttempts lookups attempts) beginTimestamp
      (remaining + 1) endTimestamp state).head?) :
    mq = attemptQueue lookups (2 - remaining) ∧ mq.topic ≠ [] := by
  rw [usedQueues] at hhead
  dsimp only at hhead
  by_cases hmade : toInt32 (endTimestamp - beginTimestamp) < config.sendMsgTimeout ∧
      (selectedAttempts lookups attempts (2 - remaining)).mq.topic.isEmpty = false
  · rw [if_pos hmade] at hhead
    obtain rfl := Option.some.inj hhead
    refine ⟨rfl, fun hempty ↦ ?_⟩
    rw [hempty] at hmade
    exact absurd hmade.2 (by decide)
  · rw [if_neg hmade] at hhead
    exact nomatch hhead

/-- The queues of attempts in a row are of different brokers, unless the first has no name. -/
theorem usedQueues_isChain (remaining : ℕ) (hremaining : remaining ≤ 3) (endTimestamp : ℤ)
    (state : SendState) :
    (usedQueues zlib config mode (selectedAttempts lookups attempts) beginTimestamp remaining
      endTimestamp state).IsChain fun earlier later ↦
        earlier.brokerName ≠ [] → later.brokerName ≠ earlier.brokerName := by
  induction remaining generalizing endTimestamp state with
  | zero => exact .nil
  | succ remaining ih =>
    rw [usedQueues]
    dsimp only
    split_ifs with hmade hcontinues
    · refine List.isChain_cons.mpr ⟨fun later hlater hbroker ↦ ?_, ih (by omega) _ _⟩
      cases remaining with
      | zero => exact nomatch hlater
      | succ remaining =>
        obtain ⟨rfl, htopic⟩ :=
          head?_usedQueues zlib config mode lookups attempts beginTimestamp hlater
        have hnext : 2 - remaining = 2 - (remaining + 1) + 1 := by omega
        rw [hnext] at htopic ⊢
        exact attemptQueue_ne (2 - (remaining + 1)) htopic hbroker
    · exact .singleton _
    · exact .nil

end Calls

/-! ### Every list, counter and call -/

/-- A selection stays in the list and finds a queue of another broker if there is one, exactly when
it looks far enough; of a list of at most `2 ^ 31` queues this is a question of the positions that
the counter leads to, and when it does not wrap, of those that a search past zero misses. Two
attempts in a row of a call use queues of different brokers, unless the broker has no name. -/
theorem selection_complete_iff {info : TopicPublishInfo} (hqueues : info.messageQueueList ≠ [])
    (lastBrokerName : ByteString) (zlib : Zlib) (config : ProducerConfig)
    (mode : CommunicationMode) (lookups : ℕ → PublishLookups) (attempts : ℕ → SendAttempt)
    (beginTimestamp : ℤ) (state : SendState) :
    (info.SelectsCompletely lastBrokerName ↔ info.LooksFarEnough lastBrokerName) ∧
      (info.messageQueueList.length ≤ 2147483648 →
        (info.LooksFarEnough lastBrokerName ↔
          lastBrokerName = [] ∨ (∀ mq ∈ info.messageQueueList, mq.brokerName = lastBrokerName) ∨
            ∃ pos, LooksAt info.messageQueueList.length info.sendWhichQueue pos ∧
              ∃ mq ∈ info.messageQueueList[pos]?, mq.brokerName ≠ lastBrokerName) ∧
        (-2147483648 < info.sendWhichQueue.toInt →
          info.sendWhichQueue.toInt + info.messageQueueList.length ≤ 2147483648 →
          (info.LooksFarEnough lastBrokerName ↔
            lastBrokerName = [] ∨ (∀ mq ∈ info.messageQueueList, mq.brokerName = lastBrokerName) ∨
              ∃ pos : ℕ, (0 ≤ info.sendWhichQueue.toInt ∨
                  info.sendWhichQueue.toInt + info.messageQueueList.length ≤ 1 ∨
                  (pos : ℤ) ≤ max (-info.sendWhichQueue.toInt)
                    (info.sendWhichQueue.toInt + info.messageQueueList.length - 1)) ∧
                ∃ mq ∈ info.messageQueueList[pos]?, mq.brokerName ≠ lastBrokerName))) ∧
      (usedQueues zlib config mode (selectedAttempts lookups attempts) beginTimestamp 3
        beginTimestamp state).IsChain fun earlier later ↦
          earlier.brokerName ≠ [] → later.brokerName ≠ earlier.brokerName :=
  ⟨TopicPublishInfo.selectsCompletely_iff hqueues lastBrokerName,
    fun hmax ↦ ⟨TopicPublishInfo.looksFarEnough_iff hqueues hmax,
      fun hmin hwrap ↦ TopicPublishInfo.looksFarEnough_iff_of_no_wrap hqueues hmax hmin hwrap⟩,
    usedQueues_isChain zlib config mode lookups attempts beginTimestamp 3 (le_refl 3)
      beginTimestamp state⟩

/-- Three queues of which the last is of another broker. -/
def threeQueues (sendWhichQueue : BitVec 32) : TopicPublishInfo :=
  ⟨[⟨[84], [97], 0⟩, ⟨[84], [97], 1⟩, ⟨[84], [98], 0⟩], sendWhichQueue⟩

/-- From `-2` on the last queue is looked at first. A call whose attempts all meet a system error
uses the brokers in turn. -/
theorem selection_complete_of_three :
    let attempts := selectedAttempts (fun _ ↦ ⟨some (threeQueues 0), none, threeQueues 0⟩)
      fun _ ↦ ⟨⟨[84], [97], 0⟩, [49], .error (.brokerException 1), 10⟩
    let used := usedQueues zlibOfTwentyLetters ⟨3000, 20, 5, 131072, false, true, [[110]]⟩ .sync
      attempts 0 3 0 ⟨⟨[84], 0, some [1], OrderedMap.empty⟩, []⟩
    (threeQueues (-2)).SelectsCompletely [97] ∧
      used = [⟨[84], [97], 0⟩, ⟨[84], [98], 0⟩, ⟨[84], [97], 0⟩] ∧
      used.IsChain fun earlier later ↦
        earlier.brokerName ≠ [] → later.brokerName ≠ earlier.brokerName := by
  intro attempts used
  obtain ⟨hcomplete, hpositions, hchain⟩ := @selection_complete_iff (threeQueues (-2)) (by decide)
    [97] zlibOfTwentyLetters ⟨3000, 20, 5, 131072, false, true, [[110]]⟩ .sync
    (fun _ ↦ ⟨some (threeQueues 0), none, threeQueues 0⟩)
    (fun _ ↦ ⟨⟨[84], [97], 0⟩, [49], .error (.brokerException 1), 10⟩) 0
    ⟨⟨[84], 0, some [1], OrderedMap.empty⟩, []⟩
  have hlooks := ((hpositions (by decide)).2 (by decide) (by decide)).mpr
    (Or.inr (Or.inr ⟨2, by decide, ⟨[84], [98], 0⟩, rfl, by decide⟩))
  exact ⟨hcomplete.mpr hlooks, by decide, hchain⟩

/-- With the counter at `-1` the positions are one, zero and one again, and the queue of the other
broker is missed. -/
theorem sign_change_misses_broker :
    ((threeQueues (-1)).selectOneMessageQueue [97]).1 = .ok none ∧
      ¬ (threeQueues (-1)).SelectsCompletely [97] := by
  have hnone : ((threeQueues (-1)).selectOneMessageQueue [97]).1 = .ok none := by decide
  refine ⟨hnone, ?_⟩
  rintro ⟨selected, hselected, hall, -⟩
  rw [hnone] at hselected
  obtain rfl := Except.ok.inj hselected
  have hsame := (hall.mp rfl).2 ⟨[84], [98], 0⟩ (by decide)
  exact absurd hsame (by decide)

end RocketMQClient.Producer
