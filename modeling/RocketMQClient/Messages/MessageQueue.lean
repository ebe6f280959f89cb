import Mathlib.Data.Int.Order.Basic
import Mathlib.Data.List.Induction
import Mathlib.Data.Prod.Lex
import RocketMQClient.Library.ByteString
import RocketMQClient.Library.MachineInt

/-!
# Message queues and their order

A message queue is a topic, a broker name and a queue id. The tables of the client are keyed by
message queues through `operator<`, which is the sign of `compareTo`: the topics and then the
broker names are compared by `strcmp`, and the queue ids by the sign of their difference as a
32-bit integer. `MessageQueueSet` is the ordered set of the standard library under that
comparison.

On names without a zero byte and ids whose difference does not overflow, `operator<` is the
lexicographic order of the three fields (`operatorLt_iff_lt`), which is the linear order of the
maps keyed by message queues in this development.
-/

set_option autoImplicit false
set_option relaxedAutoImplicit false

namespace RocketMQClient.Messages

open Library

/-- A message queue. -/
structure MessageQueue where
  topic : ByteString
  brokerName : ByteString
  queueId : ℤ
  deriving DecidableEq

namespace MessageQueue

/-- The three fields in the order in which they are compared. -/
def toKey (queue : MessageQueue) : ByteString ×ₗ ByteString ×ₗ ℤ :=
  toLex (queue.topic, toLex (queue.brokerName, queue.queueId))

theorem toKey_injective : Function.Injective toKey := by
  rintro ⟨topic, brokerName, queueId⟩ ⟨topic', brokerName', queueId'⟩ hkey
  simp only [toKey, EmbeddingLike.apply_eq_iff_eq, Prod.mk.injEq] at hkey
  obtain ⟨rfl, rfl, rfl⟩ := hkey
  rfl

instance : LinearOrder MessageQueue := LinearOrder.lift' toKey toKey_injective

theorem lt_iff {first second : MessageQueue} :
    first < second ↔ first.topic < second.topic ∨ (first.topic = second.topic ∧
      (first.brokerName < second.brokerName ∨
        (first.brokerName = second.brokerName ∧ first.queueId < second.queueId))) := by
  change toKey first < toKey second ↔ _
  simp [toKey, Prod.Lex.toLex_lt_toLex]

/-- The comparison of the source; the difference of the ids is a 32-bit integer. -/
def compareTo (queue other : MessageQueue) : ℤ :=
  if strcmp queue.topic other.topic ≠ 0 then strcmp queue.topic other.topic
  else if strcmp queue.brokerName other.brokerName ≠ 0 then
    strcmp queue.brokerName other.brokerName
  else toInt32 (queue.queueId - other.queueId)

/-- `operator<` of the source. -/
def operatorLt (queue other : MessageQueue) : Prop := queue.compareTo other < 0

instance (queue other : MessageQueue) : Decidable (queue.operatorLt other) :=
  inferInstanceAs (Decidable (_ < _))

/-- No queue is below itself. -/
theorem operatorLt_irrefl (queue : MessageQueue) : ¬ queue.operatorLt queue := by
  simp [operatorLt, compareTo, strcmp_self, toInt32]

/-- The difference of two ids of the non-negative 32-bit range does not overflow. -/
theorem toInt32_sub_queueId {first second : ℤ} (hfirst : 0 ≤ first ∧ first ≤ 2147483647)
    (hsecond : 0 ≤ second ∧ second ≤ 2147483647) : toInt32 (first - second) = first - second :=
  toInt32_eq_self (by omega) (by omega)

/-- Of two queues with ids of the non-negative 32-bit range at most one is below the other. -/
theorem operatorLt_asymm {first second : MessageQueue}
    (hfirst : 0 ≤ first.queueId ∧ first.queueId ≤ 2147483647)
    (hsecond : 0 ≤ second.queueId ∧ second.queueId ≤ 2147483647)
    (hlt : first.operatorLt second) : ¬ second.operatorLt first := by
  unfold operatorLt compareTo at hlt ⊢
  rw [toInt32_sub_queueId hfirst hsecond] at hlt
  rw [toInt32_sub_queueId hsecond hfirst, strcmp_swap first.topic second.topic,
    strcmp_swap first.brokerName second.brokerName]
  split_ifs at hlt ⊢ <;> omega

/-- On names without zero bytes and ids of the non-negative 32-bit range, `operator<` is the
lexicographic order. -/
theorem operatorLt_iff_lt {first second : MessageQueue}
    (hfirstTopic : 0 ∉ first.topic) (hsecondTopic : 0 ∉ second.topic)
    (hfirstName : 0 ∉ first.brokerName) (hsecondName : 0 ∉ second.brokerName)
    (hfirst : 0 ≤ first.queueId ∧ first.queueId ≤ 2147483647)
    (hsecond : 0 ≤ second.queueId ∧ second.queueId ≤ 2147483647) :
    first.operatorLt second ↔ first < second := by
  rw [lt_iff, operatorLt, compareTo, toInt32_sub_queueId hfirst hsecond]
  have htopic := strcmp_eq_zero_iff hfirstTopic hsecondTopic
  have hname := strcmp_eq_zero_iff hfirstName hsecondName
  split_ifs with htopics hnames
  · rw [strcmp_neg_iff hfirstTopic hsecondTopic]
    have hne : first.topic ≠ second.topic := fun heq ↦ htopics (htopic.mpr heq)
    simp [hne]
  · rw [strcmp_neg_iff hfirstName hsecondName]
    have heq : first.topic = second.topic := htopic.mp (not_not.mp htopics)
    have hne : first.brokerName ≠ second.brokerName := fun heq ↦ hnames (hname.mpr heq)
    simp [heq, hne]
  · have heqTopic : first.topic = second.topic := htopic.mp (not_not.mp htopics)
    have heqName : first.brokerName = second.brokerName := hname.mp (not_not.mp hnames)
    simp only [heqTopic, heqName, lt_irrefl, true_and, false_or]
    omega

end MessageQueue

/-- A set of message queues in the iteration order of the standard library's ordered set. -/
structure MessageQueueSet where
  queues : List MessageQueue
  ordered : queues.Pairwise MessageQueue.operatorLt

/-- A set has no queue twice. -/
theorem MessageQueueSet.nodup (set : MessageQueueSet) : set.queues.Nodup := by
  refine set.ordered.imp ?_
  intro first second hlt heq
  rw [heq] at hlt
  exact MessageQueue.operatorLt_irrefl second hlt

/-- Insertion of one queue into the ordered set: equivalent queues are not inserted again. -/
def insertQueue (queue : MessageQueue) : List MessageQueue → List MessageQueue
  | [] => [queue]
  | head :: rest =>
    if queue.operatorLt head then queue :: head :: rest
    else if head.operatorLt queue then head :: insertQueue queue rest
    else head :: rest

/-- Insertion brings in no other queue. -/
theorem mem_of_mem_insertQueue {queue other : MessageQueue} {queues : List MessageQueue}
    (hmem : other ∈ insertQueue queue queues) : other = queue ∨ other ∈ queues := by
  induction queues with
  | nil => exact Or.inl (List.mem_singleton.mp hmem)
  | cons head rest ih =>
    unfold insertQueue at hmem
    split_ifs at hmem
    · exact List.mem_cons.mp hmem
    · rcases List.mem_cons.mp hmem with rfl | hrest
      · exact Or.inr List.mem_cons_self
      · exact (ih hrest).imp_right (List.mem_cons_of_mem head)
    · exact Or.inr hmem

theorem mem_of_mem_foldl_insertQueue {other : MessageQueue} {added queues : List MessageQueue}
    (hmem : other ∈ added.foldl (fun set queue ↦ insertQueue queue set) queues) :
    other ∈ added ∨ other ∈ queues := by
  induction added generalizing queues with
  | nil => exact Or.inr hmem
  | cons queue rest ih =>
    rcases ih hmem with hrest | hset
    · exact Or.inl (List.mem_cons_of_mem queue hrest)
    · rcases mem_of_mem_insertQueue hset with rfl | hbefore
      · exact Or.inl List.mem_cons_self
      · exact Or.inr hbefore

/-- A queue above all queues of the set is inserted behind them. -/
theorem insertQueue_above {queue : MessageQueue} {queues : List MessageQueue}
    (habove : ∀ other ∈ queues, other.operatorLt queue ∧ ¬ queue.operatorLt other) :
    insertQueue queue queues = queues ++ [queue] := by
  induction queues with
  | nil => rfl
  | cons head rest ih =>
    obtain ⟨hbelow, hnot⟩ := habove head List.mem_cons_self
    rw [insertQueue, if_neg hnot, if_pos hbelow,
      ih fun other hother ↦ habove other (List.mem_cons_of_mem head hother), List.cons_append]

/-- Assumes: ids of the non-negative 32-bit range. Inserting queues in increasing order keeps their
order. -/
theorem foldl_insertQueue {queues : List MessageQueue}
    (hordered : queues.Pairwise MessageQueue.operatorLt)
    (hids : ∀ queue ∈ queues, 0 ≤ queue.queueId ∧ queue.queueId ≤ 2147483647) :
    queues.foldl (fun set queue ↦ insertQueue queue set) [] = queues := by
  induction queues using List.reverseRecOn with
  | nil => rfl
  | append_singleton queues last ih =>
    have hparts := List.pairwise_append.mp hordered
    rw [List.foldl_append,
      ih hparts.1 fun queue hqueue ↦ hids queue (List.mem_append_left _ hqueue),
      List.foldl_cons, List.foldl_nil]
    refine insertQueue_above fun other hother ↦ ?_
    have hlt := hparts.2.2 other hother last (List.mem_singleton_self last)
    exact ⟨hlt, MessageQueue.operatorLt_asymm (hids other (List.mem_append_left _ hother))
      (hids last (List.mem_append_right _ (List.mem_singleton_self last))) hlt⟩

end RocketMQClient.Messages
