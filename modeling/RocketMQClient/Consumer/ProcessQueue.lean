import Mathlib.Data.Int.Order.Basic
import RocketMQClient.Library.MachineInt
import RocketMQClient.Library.OrderedMap

/-!
# Process queues

A process queue holds the messages of one message queue that were pulled and not yet consumed, in
`msgTreeMap`, and, when messages are consumed in order, those taken and not yet committed, in
`msgTreeMapTemp`. Both are ordered maps from queue offsets to messages. Every operation of the
source runs under the lock of the tree map, so each is one function from the queue before to the
queue after; `takeMessags` clears the consuming flag after it has released the lock and is
therefore a locked section `takeLocked` and that second step.

`removeMessage_le` is what the result of `removeMessage` promises: an offset that no remaining
message is below. `putMessage_keys`, `removeMessage_keys` and the lemmas on `msgCount` describe the
operations by the keys of the tree map and by its size, and `takeLocked_eq` by its first entries.

A message is its address and its offset here, the only data of it that the queue uses; what it says
is modelled with the decoding. What the two consume services make of the operations is said with
them; here is only what each operation does to the maps.
-/

set_option autoImplicit false
set_option relaxedAutoImplicit false

namespace RocketMQClient.Consumer

open Library

/-- A message object: where it lies in memory and its offset in the message queue. -/
structure MessageExt where
  address : ℕ
  queueOffset : ℤ
  deriving DecidableEq, Repr

/-- Messages by queue offset. -/
abbrev MessageMap := OrderedMap ℤ MessageExt

/-- The messages of one message queue held by the client. -/
structure ProcessQueue where
  msgTreeMap : MessageMap
  queueOffsetMax : ℤ
  msgCount : ℤ
  droped : Bool
  locked : Bool
  lastLockTimestamp : ℤ
  consuming : Bool
  msgTreeMapTemp : MessageMap
  deriving DecidableEq

namespace ProcessQueue

/-! ### The operations of the source -/

/-- The queue that the constructor builds at a clock reading. -/
def new (now : ℤ) : ProcessQueue where
  msgTreeMap := OrderedMap.empty
  queueOffsetMax := 0
  msgCount := 0
  droped := false
  locked := false
  lastLockTimestamp := now
  consuming := false
  msgTreeMapTemp := OrderedMap.empty

/-- The maximum offset after storing a batch: the offset of its last message. -/
def offsetMaxAfter (offsetMax : ℤ) (msgs : List MessageExt) : ℤ :=
  msgs.foldl (fun _ msg ↦ msg.queueOffset) offsetMax

/-- Stores a batch; the result says whether a consume request has to be dispatched. -/
def putMessage (queue : ProcessQueue) (msgs : List MessageExt) : Bool × ProcessQueue :=
  let stored := { queue with
    msgTreeMap := queue.msgTreeMap.assignAll MessageExt.queueOffset msgs
    queueOffsetMax := offsetMaxAfter queue.queueOffsetMax msgs
    msgCount := queue.msgCount + msgs.length }
  if !stored.msgTreeMap.isEmpty && !stored.consuming then
    (true, { stored with consuming := true })
  else (false, stored)

/-- The distance between the largest and the smallest offset held. -/
def getMaxSpan (queue : ProcessQueue) : ℤ :=
  match queue.msgTreeMap.first?, queue.msgTreeMap.last? with
  | some first, some last => last.1 - first.1
  | _, _ => 0

/-- Removes messages; the result is the offset to commit, or `-1` when there is none. -/
def removeMessage (queue : ProcessQueue) (msgs : List MessageExt) : ℤ × ProcessQueue :=
  match queue.msgTreeMap.first? with
  | none => (-1, queue)
  | some origin =>
    let removed := { queue with
      msgTreeMap := queue.msgTreeMap.eraseAll (msgs.map MessageExt.queueOffset)
      msgCount := queue.msgCount - msgs.length }
    match removed.msgTreeMap.first? with
    | none => (queue.queueOffsetMax + 1, removed)
    | some head => (if origin.1 ≠ head.1 then head.1 else -1, removed)

/-- Marks the queue as dropped, or not. -/
def setDroped (queue : ProcessQueue) (droped : Bool) : ProcessQueue :=
  { queue with droped := droped }

/-- Gives every uncommitted message back to the tree map. -/
def rollback (queue : ProcessQueue) : ProcessQueue :=
  { queue with
    msgTreeMap := queue.msgTreeMap.assignPairs queue.msgTreeMapTemp.entries
    msgTreeMapTemp := OrderedMap.empty }

/-- Commits every uncommitted message; the result is the offset after the last of them, or `-1`
when there is none. -/
def commit (queue : ProcessQueue) : ℤ × ProcessQueue :=
  match queue.msgTreeMapTemp.last? with
  | none => (-1, queue)
  | some last =>
    (toInt64 (last.1 + 1), { queue with
      msgCount := queue.msgCount - queue.msgTreeMapTemp.size
      msgTreeMapTemp := OrderedMap.empty })

/-- Gives one uncommitted message back to the tree map. -/
def giveBack (queue : ProcessQueue) (msg : MessageExt) : ProcessQueue :=
  { queue with
    msgTreeMapTemp := queue.msgTreeMapTemp.erase msg.queueOffset
    msgTreeMap := queue.msgTreeMap.assign msg.queueOffset msg }

/-- Gives the messages of a batch back to the tree map. -/
def makeMessageToCosumeAgain (queue : ProcessQueue) (msgs : List MessageExt) : ProcessQueue :=
  msgs.foldl giveBack queue

/-- The loop of `takeMessags`: moves the first message of the tree map, at most `fuel` times. -/
def takeLoop : ℕ → List MessageExt → ProcessQueue → List MessageExt × ProcessQueue
  | 0, result, queue => (result, queue)
  | fuel + 1, result, queue =>
    match queue.msgTreeMap.first? with
    | none => (result, queue)
    | some entry =>
      takeLoop fuel (result ++ [entry.2]) { queue with
        msgTreeMapTemp := queue.msgTreeMapTemp.assign entry.1 entry.2
        msgTreeMap := queue.msgTreeMap.erase entry.1 }

/-- The locked section of `takeMessags`. -/
def takeLocked (queue : ProcessQueue) (batchSize : ℤ) : List MessageExt × ProcessQueue :=
  takeLoop batchSize.toNat [] queue

/-- Takes the next batch; an empty batch clears the consuming flag. -/
def takeMessags (queue : ProcessQueue) (batchSize : ℤ) : List MessageExt × ProcessQueue :=
  let taken := queue.takeLocked batchSize
  if taken.1.isEmpty then (taken.1, { taken.2 with consuming := false }) else taken

/-! ### Storing a batch -/

theorem offsetMaxAfter_eq (offsetMax : ℤ) (msgs : List MessageExt) :
    offsetMaxAfter offsetMax msgs = (msgs.map MessageExt.queueOffset).getLastD offsetMax := by
  induction msgs generalizing offsetMax with
  | nil => rfl
  | cons msg rest ih =>
    rw [offsetMaxAfter, List.foldl_cons, ← offsetMaxAfter, ih, List.map_cons,
      List.getLastD_cons]

/-- The queue after a batch has been stored. -/
theorem putMessage_queue (queue : ProcessQueue) (msgs : List MessageExt) :
    (queue.putMessage msgs).2 = { queue with
      msgTreeMap := queue.msgTreeMap.assignAll MessageExt.queueOffset msgs
      queueOffsetMax := (msgs.map MessageExt.queueOffset).getLastD queue.queueOffsetMax
      msgCount := queue.msgCount + msgs.length
      consuming := queue.consuming ||
        !(queue.msgTreeMap.assignAll MessageExt.queueOffset msgs).isEmpty } := by
  rw [← offsetMaxAfter_eq]
  unfold putMessage
  dsimp only
  cases hconsuming : queue.consuming with
  | true => simp
  | false =>
    cases (queue.msgTreeMap.assignAll MessageExt.queueOffset msgs).isEmpty <;> simp

@[simp] theorem putMessage_msgTreeMap (queue : ProcessQueue) (msgs : List MessageExt) :
    (queue.putMessage msgs).2.msgTreeMap =
      queue.msgTreeMap.assignAll MessageExt.queueOffset msgs := by
  rw [putMessage_queue]

@[simp] theorem putMessage_queueOffsetMax (queue : ProcessQueue) (msgs : List MessageExt) :
    (queue.putMessage msgs).2.queueOffsetMax =
      (msgs.map MessageExt.queueOffset).getLastD queue.queueOffsetMax := by
  rw [putMessage_queue]

@[simp] theorem putMessage_msgCount (queue : ProcessQueue) (msgs : List MessageExt) :
    (queue.putMessage msgs).2.msgCount = queue.msgCount + msgs.length := by
  rw [putMessage_queue]

@[simp] theorem putMessage_msgTreeMapTemp (queue : ProcessQueue) (msgs : List MessageExt) :
    (queue.putMessage msgs).2.msgTreeMapTemp = queue.msgTreeMapTemp := by
  rw [putMessage_queue]

@[simp] theorem putMessage_droped (queue : ProcessQueue) (msgs : List MessageExt) :
    (queue.putMessage msgs).2.droped = queue.droped := by
  rw [putMessage_queue]

@[simp] theorem putMessage_locked (queue : ProcessQueue) (msgs : List MessageExt) :
    (queue.putMessage msgs).2.locked = queue.locked := by
  rw [putMessage_queue]

/-! ### Removing messages -/

/-- The queue after a removal: an empty one is left as it is. -/
theorem removeMessage_queue (queue : ProcessQueue) (msgs : List MessageExt) :
    (queue.removeMessage msgs).2 = if queue.msgTreeMap.isEmpty then queue else { queue with
      msgTreeMap := queue.msgTreeMap.eraseAll (msgs.map MessageExt.queueOffset)
      msgCount := queue.msgCount - msgs.length } := by
  unfold removeMessage
  cases hfirst : queue.msgTreeMap.first? with
  | none => rw [if_pos (OrderedMap.first?_eq_none.mp hfirst)]
  | some origin =>
    have hheld : ¬ queue.msgTreeMap.isEmpty = true := fun hempty ↦
      OrderedMap.isEmpty_iff.mp hempty origin.1 (OrderedMap.mem_of_first? hfirst)
    rw [if_neg hheld]
    dsimp only
    split <;> rfl

/-- The messages left after a removal are those held before and not removed. -/
theorem removeMessage_keys {queue : ProcessQueue} {msgs : List MessageExt} {key : ℤ} :
    key ∈ (queue.removeMessage msgs).2.msgTreeMap ↔
      key ∈ queue.msgTreeMap ∧ key ∉ msgs.map MessageExt.queueOffset := by
  rw [removeMessage_queue]
  split
  · next hempty =>
    have hnone := OrderedMap.isEmpty_iff.mp hempty key
    exact ⟨fun hkey ↦ absurd hkey hnone, fun hkey ↦ absurd hkey.1 hnone⟩
  · exact OrderedMap.mem_eraseAll

@[simp] theorem removeMessage_queueOffsetMax (queue : ProcessQueue) (msgs : List MessageExt) :
    (queue.removeMessage msgs).2.queueOffsetMax = queue.queueOffsetMax := by
  rw [removeMessage_queue]
  split <;> rfl

@[simp] theorem removeMessage_droped (queue : ProcessQueue) (msgs : List MessageExt) :
    (queue.removeMessage msgs).2.droped = queue.droped := by
  rw [removeMessage_queue]
  split <;> rfl

/-- Removing distinct messages that are held lowers the counter and the size alike. -/
theorem removeMessage_msgCount_sub_size {queue : ProcessQueue} {msgs : List MessageExt}
    (hdistinct : (msgs.map MessageExt.queueOffset).Nodup)
    (hheld : ∀ msg ∈ msgs, msg.queueOffset ∈ queue.msgTreeMap) :
    (queue.removeMessage msgs).2.msgCount - (queue.removeMessage msgs).2.msgTreeMap.size =
      queue.msgCount - queue.msgTreeMap.size := by
  have hkeys : ∀ key ∈ msgs.map MessageExt.queueOffset, key ∈ queue.msgTreeMap := by
    intro key hkey
    obtain ⟨msg, hmsg, rfl⟩ := List.mem_map.mp hkey
    exact hheld msg hmsg
  have hsize := OrderedMap.size_eraseAll hdistinct hkeys
  rw [List.length_map] at hsize
  rw [removeMessage_queue]
  split
  · rfl
  · dsimp only
    omega

/-- Assumes: no message is held above the maximum offset. An offset that `removeMessage` returns
for a commit is not above any message that is left, nor above the maximum offset plus one. -/
theorem removeMessage_le {queue : ProcessQueue} {msgs : List MessageExt}
    (hmax : ∀ key ∈ queue.msgTreeMap, key ≤ queue.queueOffsetMax)
    (hresult : 0 ≤ (queue.removeMessage msgs).1) :
    (∀ key ∈ (queue.removeMessage msgs).2.msgTreeMap, (queue.removeMessage msgs).1 ≤ key) ∧
      (queue.removeMessage msgs).1 ≤ queue.queueOffsetMax + 1 := by
  have hkeys := fun key ↦ @removeMessage_keys queue msgs key
  unfold removeMessage at hresult hkeys ⊢
  cases horigin : queue.msgTreeMap.first? with
  | none =>
    simp only [horigin] at hresult
    exact absurd hresult (by decide)
  | some origin =>
    simp only [horigin] at hresult hkeys ⊢
    cases hfirst : (queue.msgTreeMap.eraseAll (msgs.map MessageExt.queueOffset)).first? with
    | none =>
      simp only [hfirst] at hkeys ⊢
      refine ⟨fun key hkey ↦ ?_, le_refl _⟩
      exact absurd hkey (OrderedMap.isEmpty_iff.mp (OrderedMap.first?_eq_none.mp hfirst) key)
    | some head =>
      simp only [hfirst] at hresult hkeys ⊢
      split_ifs at hresult ⊢ with hmoved
      · refine ⟨fun key hkey ↦ OrderedMap.first?_le hfirst hkey, ?_⟩
        have hheld := ((hkeys head.1).mp (OrderedMap.mem_of_first? hfirst)).1
        have := hmax head.1 hheld
        omega
      · exact absurd hresult (by decide)

/-- No offset is returned for a commit when the smallest message is left. -/
theorem removeMessage_of_first_left {queue : ProcessQueue} {msgs : List MessageExt}
    {first : ℤ × MessageExt} (hfirst : queue.msgTreeMap.first? = some first)
    (hleft : first.1 ∉ msgs.map MessageExt.queueOffset) : (queue.removeMessage msgs).1 = -1 := by
  have hmem := OrderedMap.mem_eraseAll.mpr ⟨OrderedMap.mem_of_first? hfirst, hleft⟩
  unfold removeMessage
  simp only [hfirst]
  cases hhead : (queue.msgTreeMap.eraseAll (msgs.map MessageExt.queueOffset)).first? with
  | none =>
    have hempty := OrderedMap.isEmpty_iff.mp (OrderedMap.first?_eq_none.mp hhead)
    exact absurd hmem (hempty first.1)
  | some head =>
    have hheld := (OrderedMap.mem_eraseAll.mp (OrderedMap.mem_of_first? hhead)).1
    have hsame : first.1 = head.1 :=
      le_antisymm (OrderedMap.first?_le hfirst hheld) (OrderedMap.first?_le hhead hmem)
    simp only [hsame, ne_eq, not_true_eq_false, if_false]

/-- An offset is returned for a commit only when a message was held. -/
theorem exists_held_of_removeMessage {queue : ProcessQueue} {msgs : List MessageExt}
    (hresult : 0 ≤ (queue.removeMessage msgs).1) : ∃ held, held ∈ queue.msgTreeMap := by
  unfold removeMessage at hresult
  cases horigin : queue.msgTreeMap.first? with
  | none =>
    simp only [horigin] at hresult
    exact absurd hresult (by decide)
  | some origin => exact ⟨origin.1, OrderedMap.mem_of_first? horigin⟩

/-! ### Taking and giving back -/

/-- The loop of `takeMessags` moves the first entries of the tree map, in their order. -/
theorem takeLoop_eq (fuel : ℕ) (result : List MessageExt) (queue : ProcessQueue) :
    takeLoop fuel result queue =
      (result ++ (queue.msgTreeMap.entries.take fuel).map Prod.snd, { queue with
        msgTreeMapTemp := queue.msgTreeMapTemp.assignPairs (queue.msgTreeMap.entries.take fuel)
        msgTreeMap := queue.msgTreeMap.dropFirst fuel }) := by
  induction fuel generalizing result queue with
  | zero => simp [takeLoop, OrderedMap.assignPairs, OrderedMap.dropFirst]
  | succ fuel ih =>
    unfold takeLoop
    cases hfirst : queue.msgTreeMap.first? with
    | none =>
      have hnil : queue.msgTreeMap.entries = [] :=
        List.isEmpty_iff.mp (OrderedMap.first?_eq_none.mp hfirst)
      have hdrop : queue.msgTreeMap.dropFirst (fuel + 1) = queue.msgTreeMap :=
        OrderedMap.ext (by rw [OrderedMap.entries_dropFirst, hnil, List.drop_nil])
      rw [hnil, List.take_nil, List.map_nil, List.append_nil, hdrop]
      rfl
    | some entry =>
      obtain ⟨rest, hentries⟩ := List.head?_eq_some_iff.mp hfirst
      have hone : (queue.msgTreeMap.dropFirst 1).entries = rest := by
        rw [OrderedMap.entries_dropFirst, hentries, List.drop_one, List.tail_cons]
      have hdrop : (queue.msgTreeMap.dropFirst 1).dropFirst fuel =
          queue.msgTreeMap.dropFirst (fuel + 1) :=
        OrderedMap.ext (by simp only [OrderedMap.entries_dropFirst, List.drop_drop, Nat.add_comm])
      dsimp only
      rw [OrderedMap.erase_first hfirst, ih]
      dsimp only
      rw [hone, hdrop, hentries, List.take_succ_cons, List.map_cons, List.append_assoc]
      rfl

/-- The locked section of `takeMessags` returns the first messages of the tree map and moves
their entries. -/
theorem takeLocked_eq (queue : ProcessQueue) (batchSize : ℤ) :
    queue.takeLocked batchSize =
      ((queue.msgTreeMap.entries.take batchSize.toNat).map Prod.snd, { queue with
        msgTreeMapTemp :=
          queue.msgTreeMapTemp.assignPairs (queue.msgTreeMap.entries.take batchSize.toNat)
        msgTreeMap := queue.msgTreeMap.dropFirst batchSize.toNat }) := by
  rw [takeLocked, takeLoop_eq, List.nil_append]

theorem takeMessags_result (queue : ProcessQueue) (batchSize : ℤ) :
    (queue.takeMessags batchSize).1 =
      (queue.msgTreeMap.entries.take batchSize.toNat).map Prod.snd := by
  unfold takeMessags
  dsimp only
  split_ifs <;> rw [takeLocked_eq]

/-- The queue after a batch has been taken. -/
theorem takeMessags_queue (queue : ProcessQueue) (batchSize : ℤ) :
    (queue.takeMessags batchSize).2 = { queue with
      msgTreeMapTemp :=
        queue.msgTreeMapTemp.assignPairs (queue.msgTreeMap.entries.take batchSize.toNat)
      msgTreeMap := queue.msgTreeMap.dropFirst batchSize.toNat
      consuming := queue.consuming && !(queue.takeMessags batchSize).1.isEmpty } := by
  rw [takeMessags_result]
  unfold takeMessags
  rw [takeLocked_eq]
  dsimp only
  split
  · rename_i hempty
    rw [hempty, Bool.not_true, Bool.and_false]
  · rename_i hsome
    rw [Bool.eq_false_of_not_eq_true hsome, Bool.not_false, Bool.and_true]

@[simp] theorem takeMessags_msgTreeMap (queue : ProcessQueue) (batchSize : ℤ) :
    (queue.takeMessags batchSize).2.msgTreeMap =
      queue.msgTreeMap.dropFirst batchSize.toNat := by
  rw [takeMessags_queue]

@[simp] theorem takeMessags_msgTreeMapTemp (queue : ProcessQueue) (batchSize : ℤ) :
    (queue.takeMessags batchSize).2.msgTreeMapTemp =
      queue.msgTreeMapTemp.assignPairs (queue.msgTreeMap.entries.take batchSize.toNat) := by
  rw [takeMessags_queue]

/-- The keys of the entries that are taken are distinct. -/
theorem nodup_keys_take (queue : ProcessQueue) (count : ℕ) :
    ((queue.msgTreeMap.entries.take count).map Prod.fst).Nodup := by
  have hsorted := queue.msgTreeMap.sorted.sublist (List.take_sublist count _)
  exact List.pairwise_map.mpr (hsorted.imp fun hlt ↦ hlt.ne)

section TakenEntries

variable {queue : ProcessQueue} {batchSize : ℤ} {entry : ℤ × MessageExt}

/-- An entry of the temporary map was there before or is one of those taken. -/
theorem temp_entry_of_takeMessags
    (hentry : entry ∈ (queue.takeMessags batchSize).2.msgTreeMapTemp.entries) :
    entry ∈ queue.msgTreeMapTemp.entries ∨
      entry ∈ queue.msgTreeMap.entries.take batchSize.toNat := by
  rw [takeMessags_msgTreeMapTemp] at hentry
  exact OrderedMap.mem_entries_of_assignPairs hentry

/-- An entry that stays in the tree lies behind those taken. -/
theorem tree_entry_of_takeMessags
    (hentry : entry ∈ (queue.takeMessags batchSize).2.msgTreeMap.entries) :
    entry ∈ queue.msgTreeMap.entries.drop batchSize.toNat := by
  rwa [takeMessags_msgTreeMap, OrderedMap.entries_dropFirst] at hentry

/-- An entry that is taken is in the temporary map. -/
theorem mem_temp_takeMessags (hentry : entry ∈ queue.msgTreeMap.entries.take batchSize.toNat) :
    entry ∈ (queue.takeMessags batchSize).2.msgTreeMapTemp.entries := by
  rw [takeMessags_msgTreeMapTemp]
  exact OrderedMap.mem_entries_assignPairs_of_mem (queue.nodup_keys_take batchSize.toNat) hentry

/-- No entry is taken and left. -/
theorem not_taken_and_left (htaken : entry ∈ queue.msgTreeMap.entries.take batchSize.toNat)
    (hleft : entry ∈ queue.msgTreeMap.entries.drop batchSize.toNat) : False := by
  have hsorted := queue.msgTreeMap.sorted
  rw [← List.take_append_drop batchSize.toNat queue.msgTreeMap.entries,
    List.pairwise_append] at hsorted
  exact lt_irrefl _ (hsorted.2.2 entry htaken entry hleft)

end TakenEntries

/-- Giving a batch back erases its offsets from the temporary map and assigns its messages in the
tree map. -/
theorem makeMessageToCosumeAgain_eq (queue : ProcessQueue) (msgs : List MessageExt) :
    queue.makeMessageToCosumeAgain msgs = { queue with
      msgTreeMapTemp := queue.msgTreeMapTemp.eraseAll (msgs.map MessageExt.queueOffset)
      msgTreeMap := queue.msgTreeMap.assignAll MessageExt.queueOffset msgs } := by
  unfold makeMessageToCosumeAgain
  induction msgs generalizing queue with
  | nil => rfl
  | cons msg rest ih =>
    rw [List.foldl_cons, ih]
    rfl

/-- The offset that a commit returns, and what it leaves. -/
theorem commit_eq (queue : ProcessQueue) :
    (queue.commit.1 = match queue.msgTreeMapTemp.last? with
      | none => -1
      | some last => toInt64 (last.1 + 1)) ∧
      queue.commit.2.msgTreeMapTemp = OrderedMap.empty ∧
      queue.commit.2.msgTreeMap = queue.msgTreeMap := by
  unfold commit
  cases hlast : queue.msgTreeMapTemp.last? with
  | none =>
    refine ⟨rfl, OrderedMap.ext ?_, rfl⟩
    exact List.isEmpty_iff.mp (OrderedMap.last?_eq_none.mp hlast)
  | some last => exact ⟨rfl, rfl, rfl⟩

end ProcessQueue

end RocketMQClient.Consumer
