import RocketMQClient.Messages.MessageQueue

/-!
# Maps keyed by message queues

The offset tables of the source are ordered maps of the standard library, keyed by message queues
under `operator<`. Two queues are the same key when neither is below the other; `cName` is all that
the comparison sees of a queue: its names up to the first zero byte, and its id (`equivalent_iff`).
`Ordered` is what the library requires of the comparison on the keys of a map: each entry is below
the later ones and not above them. `findEntry`, `insertEntry` and `assignEntry` are the operations
of a map whose keys are in order, on the list of its entries.
-/

set_option autoImplicit false
set_option relaxedAutoImplicit false

namespace RocketMQClient.Messages

open Library

namespace MessageQueue

/-- The id is a 32-bit integer. -/
def IsInt (queue : MessageQueue) : Prop :=
  -2147483648 ≤ queue.queueId ∧ queue.queueId ≤ 2147483647

instance (queue : MessageQueue) : Decidable queue.IsInt := inferInstanceAs (Decidable (_ ∧ _))

/-- Neither queue is below the other. -/
def Equivalent (queue other : MessageQueue) : Prop :=
  ¬ queue.operatorLt other ∧ ¬ other.operatorLt queue

instance (queue other : MessageQueue) : Decidable (queue.Equivalent other) :=
  inferInstanceAs (Decidable (_ ∧ _))

/-- A queue is below another, and not above it. -/
def Below (queue other : MessageQueue) : Prop :=
  queue.operatorLt other ∧ ¬ other.operatorLt queue

instance (queue other : MessageQueue) : Decidable (queue.Below other) :=
  inferInstanceAs (Decidable (_ ∧ _))

/-- The queue as C functions read its names. -/
def cName (queue : MessageQueue) : MessageQueue :=
  ⟨cString queue.topic, cString queue.brokerName, queue.queueId⟩

theorem cString_idem (string : ByteString) : cString (cString string) = cString string :=
  cString_eq_self (zero_not_mem_cString string)

theorem cName_idem (queue : MessageQueue) : queue.cName.cName = queue.cName := by
  unfold cName
  simp only [cString_idem]

/-- The comparison sees the names only up to a zero byte. -/
theorem compareTo_cName (queue other : MessageQueue) :
    queue.cName.compareTo other.cName = queue.compareTo other := by
  unfold compareTo cName strcmp
  simp only [cString_idem]

theorem operatorLt_congr {queue queue' other other' : MessageQueue}
    (hqueue : queue.cName = queue'.cName) (hother : other.cName = other'.cName) :
    queue.operatorLt other ↔ queue'.operatorLt other' := by
  unfold operatorLt
  rw [← compareTo_cName, hqueue, hother, compareTo_cName]

theorem below_congr {queue queue' other other' : MessageQueue}
    (hqueue : queue.cName = queue'.cName) (hother : other.cName = other'.cName) :
    queue.Below other ↔ queue'.Below other' := by
  unfold Below
  rw [operatorLt_congr hqueue hother, operatorLt_congr hother hqueue]

theorem strcmp_eq_zero_iff_cString (first second : ByteString) :
    strcmp first second = 0 ↔ cString first = cString second := by
  unfold strcmp
  constructor
  · intro hzero
    split_ifs at hzero with hbelow habove
    · exact absurd hzero (by decide)
    · exact le_antisymm (not_lt.mp habove) (not_lt.mp hbelow)
  · intro hsame
    rw [hsame, if_neg (lt_irrefl _), if_neg (lt_irrefl _)]

/-- Two queues are the same key exactly when C functions read them alike. -/
theorem equivalent_iff {queue other : MessageQueue} (hqueue : queue.IsInt) (hother : other.IsInt) :
    queue.Equivalent other ↔ queue.cName = other.cName := by
  constructor
  · rintro ⟨hnotBelow, hnotAbove⟩
    have htopicSwap := strcmp_swap queue.topic other.topic
    have hbrokerSwap := strcmp_swap queue.brokerName other.brokerName
    have hsubSwap := Int.bmod_def (queue.queueId - other.queueId) 4294967296
    have hsubSwap' := Int.bmod_def (other.queueId - queue.queueId) 4294967296
    unfold operatorLt compareTo at hnotBelow hnotAbove
    unfold IsInt at hqueue hother
    have htopic : strcmp queue.topic other.topic = 0 := by
      by_contra hne
      rw [if_pos hne] at hnotBelow
      rw [if_pos (by omega)] at hnotAbove
      omega
    have hbroker : strcmp queue.brokerName other.brokerName = 0 := by
      by_contra hne
      rw [if_neg (not_not.mpr htopic), if_pos hne] at hnotBelow
      rw [if_neg (by omega), if_pos (by omega)] at hnotAbove
      omega
    rw [if_neg (not_not.mpr htopic), if_neg (not_not.mpr hbroker)] at hnotBelow
    rw [if_neg (by omega), if_neg (by omega)] at hnotAbove
    have hid : queue.queueId = other.queueId := by
      unfold toInt32 at hnotBelow hnotAbove
      split_ifs at hsubSwap hsubSwap' <;> omega
    unfold cName
    rw [(strcmp_eq_zero_iff_cString _ _).mp htopic, (strcmp_eq_zero_iff_cString _ _).mp hbroker,
      hid]
  · intro hsame
    have hself := operatorLt_irrefl other
    exact ⟨fun hlt ↦ hself ((operatorLt_congr hsame rfl).mp hlt),
      fun hlt ↦ hself ((operatorLt_congr rfl hsame).mp hlt)⟩

end MessageQueue

/-! ### Entries -/

section Entries

variable {V : Type}

/-- Each entry is below the later ones. -/
def Ordered (entries : List (MessageQueue × V)) : Prop :=
  entries.Pairwise fun earlier later ↦ earlier.1.Below later.1

/-- `find`: the entry of a key. -/
def findEntry (entries : List (MessageQueue × V)) (queue : MessageQueue) :
    Option (MessageQueue × V) :=
  entries.find? fun entry ↦ decide (entry.1.Equivalent queue)

/-- `insert`: adds an entry unless its key is there. -/
def insertEntry (entry : MessageQueue × V) : List (MessageQueue × V) → List (MessageQueue × V)
  | [] => [entry]
  | head :: rest =>
    if entry.1.operatorLt head.1 then entry :: head :: rest
    else if head.1.operatorLt entry.1 then head :: insertEntry entry rest
    else head :: rest

/-- `operator[]` and an assignment: sets the value of a key, adding it when it is not there. -/
def assignEntry (entry : MessageQueue × V) : List (MessageQueue × V) → List (MessageQueue × V)
  | [] => [entry]
  | head :: rest =>
    if entry.1.operatorLt head.1 then entry :: head :: rest
    else if head.1.operatorLt entry.1 then head :: assignEntry entry rest
    else (head.1, entry.2) :: rest

end Entries

end RocketMQClient.Messages
