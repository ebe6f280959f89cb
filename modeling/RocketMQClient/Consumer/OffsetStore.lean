import RocketMQClient.Library.OrderedMap
import RocketMQClient.Messages.MessageQueue

/-!
# The in-memory offset table

Both offset stores keep a table from message queues to the offset consumed so far.
`updateOffset` stores the first offset of a queue as it is; later an update that may only increase
the offset goes through `compareAndIncreaseOnly`, and any other update replaces it.
`readOffset_updateOffset` gives the stored offset after an update, and
`readOffset_updateOffset_of_ne` that the other queues keep theirs.
-/

set_option autoImplicit false
set_option relaxedAutoImplicit false

namespace RocketMQClient.Consumer

open Library Messages

/-- Whether every client of the group gets all messages, or each message goes to one of them. -/
inductive MessageModel where
  | broadcasting
  | clustering
  deriving DecidableEq, Repr

/-- Where a group starts that has no stored offset. -/
inductive ConsumeFromWhere where
  | consumeFromLastOffset
  | consumeFromFirstOffset
  | consumeFromTimestamp
  deriving DecidableEq, Repr

/-- Raises a counter to a value that is larger; the result says whether it was raised. -/
def compareAndIncreaseOnly (target value : ℤ) : Bool × ℤ :=
  if value > target then (true, value) else (false, target)

theorem compareAndIncreaseOnly_eq_max (target value : ℤ) :
    (compareAndIncreaseOnly target value).2 = max target value := by
  unfold compareAndIncreaseOnly
  split_ifs with hraise <;> omega

/-- The consumed offset of each message queue. -/
abbrev OffsetTable := OrderedMap MessageQueue ℤ

namespace OffsetTable

/-- Stores an offset for a queue. -/
def updateOffset (table : OffsetTable) (queue : MessageQueue) (offset : ℤ)
    (increaseOnly : Bool) : OffsetTable :=
  match table.find? queue with
  | none => table.assign queue offset
  | some stored =>
    if increaseOnly then table.assign queue (compareAndIncreaseOnly stored offset).2
    else table.assign queue offset

/-- The offset of a queue, when the table holds one. -/
def readOffset (table : OffsetTable) (queue : MessageQueue) : Option ℤ := table.find? queue

/-- Forgets the offset of a queue. -/
def removeOffset (table : OffsetTable) (queue : MessageQueue) : OffsetTable := table.erase queue

/-- The offset of a queue after an update: the new offset, or the larger of the two when a stored
offset may only increase. -/
theorem readOffset_updateOffset (table : OffsetTable) (queue : MessageQueue) (offset : ℤ)
    (increaseOnly : Bool) :
    (table.updateOffset queue offset increaseOnly).readOffset queue =
      some (match table.readOffset queue with
        | none => offset
        | some stored => if increaseOnly then max stored offset else offset) := by
  unfold updateOffset readOffset
  cases hfind : table.find? queue with
  | none => exact OrderedMap.find?_assign_self table queue offset
  | some stored =>
    cases increaseOnly with
    | false => exact OrderedMap.find?_assign_self table queue offset
    | true =>
      simp only [↓reduceIte, compareAndIncreaseOnly_eq_max]
      exact OrderedMap.find?_assign_self table queue _

/-- An update leaves the other queues as they were. -/
theorem readOffset_updateOffset_of_ne (table : OffsetTable) {queue other : MessageQueue}
    (hne : other ≠ queue) (offset : ℤ) (increaseOnly : Bool) :
    (table.updateOffset queue offset increaseOnly).readOffset other = table.readOffset other := by
  unfold updateOffset readOffset
  cases table.find? queue with
  | none => exact OrderedMap.find?_assign_of_ne table offset hne
  | some stored =>
    cases increaseOnly with
    | false => exact OrderedMap.find?_assign_of_ne table offset hne
    | true => exact OrderedMap.find?_assign_of_ne table _ hne

/-- A forgotten queue has no offset. -/
theorem readOffset_removeOffset (table : OffsetTable) (queue : MessageQueue) :
    (table.removeOffset queue).readOffset queue = none :=
  OrderedMap.find?_erase_self table queue

end OffsetTable

end RocketMQClient.Consumer
