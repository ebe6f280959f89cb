import Mathlib.Data.Set.Finite.Lattice
import Mathlib.Order.Interval.Finset.Defs
import Mathlib.Order.Interval.Set.Defs
import Mathlib.Data.Int.Interval
import RocketMQClient.Library.SearchTree
import RocketMQClient.Messages.MessageQueueMap

/-!
# Which message queues are in order

`operator<` takes the sign of the difference of two queue ids as a 32-bit integer, so for queues of
one topic and broker it orders the ids around a circle. `Orders` is what the sets and maps keyed by
message queues need on the queues they hold: a strict total order that agrees with `operator==`,
from which it follows that no queue is held twice and each is found.

`orders_iff` says that this holds exactly when the ids of each topic and broker fit into a window of
`2 ^ 31` consecutive values, modulo `2 ^ 32`. Two ids that are `2 ^ 31` apart are below each other,
and a set of them does not find what it holds (`distant_ids_not_ordered`).
-/

set_option autoImplicit false
set_option relaxedAutoImplicit false

namespace RocketMQClient.Messages

open Library

namespace MessageQueue

/-! ### The order of some queues -/

/-- `operator==` of the source. -/
def operatorEq (queue mq : MessageQueue) : Bool :=
  if queue.brokerName ≠ mq.brokerName then false
  else if queue.queueId ≠ mq.queueId then false
  else if queue.topic ≠ mq.topic then false
  else true

theorem operatorEq_iff {queue mq : MessageQueue} : queue.operatorEq mq = true ↔ queue = mq := by
  obtain ⟨topic, brokerName, queueId⟩ := queue
  obtain ⟨topic', brokerName', queueId'⟩ := mq
  unfold operatorEq
  rw [MessageQueue.mk.injEq]
  split_ifs with hbroker hid htopic <;> simp_all

/-- The names have no zero byte. -/
def HasPlainNames (queue : MessageQueue) : Prop := 0 ∉ queue.topic ∧ 0 ∉ queue.brokerName

instance (queue : MessageQueue) : Decidable queue.HasPlainNames :=
  inferInstanceAs (Decidable (_ ∧ _))

/-- On some queues `operator<` is a strict total order that agrees with `operator==`, and the sets
and maps over these queues have no key twice and find what they hold. -/
structure Orders (queues : Set MessageQueue) : Prop where
  irrefl : ∀ queue ∈ queues, ¬ queue.operatorLt queue
  trans : ∀ first ∈ queues, ∀ second ∈ queues, ∀ third ∈ queues,
    first.operatorLt second → second.operatorLt third → first.operatorLt third
  exactlyOne : ∀ first ∈ queues, ∀ second ∈ queues,
    ExactlyOne (first.operatorLt second) (second.operatorLt first)
      (first.operatorEq second = true)
  sets : ∀ tree : SearchTree MessageQueue, tree.Grown id operatorLt queues →
    tree.Holds id operatorLt queues
  maps : ∀ (Value : Type) (tree : SearchTree (MessageQueue × Value)),
    tree.Grown Prod.fst operatorLt queues → tree.Holds Prod.fst operatorLt queues

/-- The ids of each topic and broker lie among `2 ^ 31` consecutive values, modulo `2 ^ 32`. -/
def FitWindow (queues : Set MessageQueue) : Prop :=
  ∀ topic brokerName, ∃ base : ℤ, ∀ queueId, ⟨topic, brokerName, queueId⟩ ∈ queues →
    (queueId - base) % 4294967296 < 2147483648

/-! ### Queues whose ids fit -/

/-- The three fields in the order in which they are compared, with the id counted from a base that
the names determine. -/
def rank (base : ByteString → ByteString → ℤ) (queue : MessageQueue) :
    ByteString ×ₗ ByteString ×ₗ ℤ :=
  toLex (queue.topic, toLex (queue.brokerName,
    (queue.queueId - base queue.topic queue.brokerName) % 4294967296))

/-- The difference of two ids in a window is that of their distances from its start. -/
theorem toInt32_sub_of_window {base first second : ℤ}
    (hfirst : (first - base) % 4294967296 < 2147483648)
    (hsecond : (second - base) % 4294967296 < 2147483648) :
    toInt32 (first - second) =
      (first - base) % 4294967296 - (second - base) % 4294967296 := by
  have hbmod := Int.bmod_def (first - second) 4294967296
  unfold toInt32
  split_ifs at hbmod <;> omega

variable {queues : Set MessageQueue} {base : ByteString → ByteString → ℤ}

/-- On queues whose ids fit, `operator<` is the order of the ranks. -/
theorem operatorLt_iff_rank {first second : MessageQueue} (hfirst : first.HasPlainNames)
    (hsecond : second.HasPlainNames)
    (hfirstFits : (first.queueId - base first.topic first.brokerName) % 4294967296 < 2147483648)
    (hsecondFits :
      (second.queueId - base second.topic second.brokerName) % 4294967296 < 2147483648) :
    first.operatorLt second ↔ first.rank base < second.rank base := by
  simp only [rank, Prod.Lex.toLex_lt_toLex]
  rw [operatorLt, compareTo]
  have htopic := strcmp_eq_zero_iff hfirst.1 hsecond.1
  have hname := strcmp_eq_zero_iff hfirst.2 hsecond.2
  split_ifs with htopics hnames
  · have hne : first.topic ≠ second.topic := fun heq ↦ htopics (htopic.mpr heq)
    simp [hne, strcmp_neg_iff hfirst.1 hsecond.1]
  · have heq : first.topic = second.topic := htopic.mp (not_not.mp htopics)
    have hne : first.brokerName ≠ second.brokerName := fun heq ↦ hnames (hname.mpr heq)
    simp [heq, hne, strcmp_neg_iff hfirst.2 hsecond.2]
  · have heqTopic : first.topic = second.topic := htopic.mp (not_not.mp htopics)
    have heqName : first.brokerName = second.brokerName := hname.mp (not_not.mp hnames)
    rw [heqTopic, heqName] at hfirstFits
    rw [toInt32_sub_of_window hfirstFits hsecondFits]
    simp [heqTopic, heqName]

/-- Queues of the same rank are the same. -/
theorem eq_of_rank_eq {first second : MessageQueue} (hfirst : first.IsInt) (hsecond : second.IsInt)
    (hrank : first.rank base = second.rank base) : first = second := by
  simp only [rank, EmbeddingLike.apply_eq_iff_eq, Prod.mk.injEq] at hrank
  obtain ⟨htopic, hname, hid⟩ := hrank
  rw [htopic, hname] at hid
  unfold IsInt at hfirst hsecond
  have hsame : first.queueId = second.queueId := by omega
  obtain ⟨topic, brokerName, queueId⟩ := first
  obtain ⟨topic', brokerName', queueId'⟩ := second
  rw [MessageQueue.mk.injEq]
  exact ⟨htopic, hname, hsame⟩

/-- On queues whose ids fit, `operator<` is a strict total order. -/
theorem strictTotalOn_of_fitWindow
    (hqueues : ∀ queue ∈ queues, queue.HasPlainNames ∧ queue.IsInt) (hfit : FitWindow queues) :
    StrictTotalOn operatorLt queues := by
  choose base hbase using hfit
  refine StrictTotalOn.of_rank (fun first hfirst second hsecond ↦ ?_)
    fun first hfirst second hsecond ↦
      @eq_of_rank_eq base _ _ (hqueues first hfirst).2 (hqueues second hsecond).2
  exact operatorLt_iff_rank (hqueues first hfirst).1 (hqueues second hsecond).1
    (hbase _ _ _ hfirst) (hbase _ _ _ hsecond)

/-! ### Queues in order -/

/-- A queue that is not below another one of the same names is at most `2 ^ 31 - 1` ahead of it. -/
theorem window_of_not_operatorLt {topic brokerName : ByteString} {first second : ℤ}
    (hnot : ¬ operatorLt ⟨topic, brokerName, first⟩ ⟨topic, brokerName, second⟩) :
    (first - second) % 4294967296 < 2147483648 := by
  simp only [operatorLt, compareTo, strcmp_self, ne_eq, not_true_eq_false, if_false,
    not_lt] at hnot
  have hbmod := Int.bmod_def (first - second) 4294967296
  unfold toInt32 at hnot
  split_ifs at hbmod <;> omega

/-- Where `operator<` is irreflexive and transitive the ids fit: the least one is the start of a
window. -/
theorem fitWindow_of_trans (hint : ∀ queue ∈ queues, queue.IsInt)
    (htrans : ∀ first ∈ queues, ∀ second ∈ queues, ∀ third ∈ queues,
      first.operatorLt second → second.operatorLt third → first.operatorLt third) :
    FitWindow queues := by
  intro topic brokerName
  have hfinite : {queueId | ⟨topic, brokerName, queueId⟩ ∈ queues}.Finite := by
    refine (Set.finite_Icc (-2147483648 : ℤ) 2147483647).subset fun queueId hmem ↦ ?_
    exact hint _ hmem
  have hmem : ∀ queueId, queueId ∈ hfinite.toFinset.toList ↔
      ⟨topic, brokerName, queueId⟩ ∈ queues := by
    intro queueId
    rw [Finset.mem_toList, Set.Finite.mem_toFinset]
    exact Iff.rfl
  by_cases hnil : hfinite.toFinset.toList = []
  · refine ⟨0, fun queueId hqueue ↦ ?_⟩
    have habsent := (hmem queueId).mpr hqueue
    rw [hnil] at habsent
    exact absurd habsent List.not_mem_nil
  · obtain ⟨least, -, hleast⟩ := @exists_least ℤ
      (fun first second ↦ operatorLt ⟨topic, brokerName, first⟩ ⟨topic, brokerName, second⟩)
      hfinite.toFinset.toList hnil (fun _ _ ↦ operatorLt_irrefl _)
      (fun first hfirst second hsecond third hthird ↦ htrans _ ((hmem first).mp hfirst) _
        ((hmem second).mp hsecond) _ ((hmem third).mp hthird))
    exact ⟨least, fun queueId hqueue ↦
      window_of_not_operatorLt (hleast queueId ((hmem queueId).mpr hqueue))⟩

/-- `operator<` orders some queues, and the sets and maps over them find what they hold, exactly
when the ids of each topic and broker fit into a window of `2 ^ 31` values. -/
theorem orders_iff (hqueues : ∀ queue ∈ queues, queue.HasPlainNames ∧ queue.IsInt) :
    Orders queues ↔ FitWindow queues := by
  constructor
  · intro horders
    exact fitWindow_of_trans (fun queue hqueue ↦ (hqueues queue hqueue).2) horders.trans
  · intro hfit
    have horder := strictTotalOn_of_fitWindow hqueues hfit
    refine ⟨horder.irrefl, horder.trans, fun first hfirst second hsecond ↦ ?_,
      fun tree hgrown ↦ hgrown.holds horder, fun Value tree hgrown ↦ hgrown.holds horder⟩
    rw [operatorEq_iff]
    exact horder.exactlyOne first hfirst second hsecond

/-- Ids from zero on fit. -/
theorem fitWindow_of_nonneg (hqueues : ∀ queue ∈ queues, queue.IsInt ∧ 0 ≤ queue.queueId) :
    FitWindow queues := by
  refine fun topic brokerName ↦ ⟨0, fun queueId hqueue ↦ ?_⟩
  obtain ⟨⟨-, hupper⟩, hlower⟩ := hqueues _ hqueue
  dsimp only at hlower hupper
  omega

/-- On queues in order, an insertion keeps the order of a set and adds the queue. -/
theorem insertQueue_spec (horder : StrictTotalOn operatorLt queues) {queue : MessageQueue}
    (hqueue : queue ∈ queues) {set : List MessageQueue} (hset : ∀ other ∈ set, other ∈ queues)
    (hsorted : set.Pairwise operatorLt) :
    (insertQueue queue set).Pairwise operatorLt ∧
      ∀ other, other ∈ insertQueue queue set ↔ other = queue ∨ other ∈ set := by
  induction set with
  | nil => exact ⟨List.pairwise_singleton _ _, fun other ↦ by simp [insertQueue]⟩
  | cons head rest ih =>
    have hhead := hset head List.mem_cons_self
    have hrestMem : ∀ other ∈ rest, other ∈ queues :=
      fun other hother ↦ hset other (List.mem_cons_of_mem head hother)
    obtain ⟨hbelow, hrest⟩ := List.pairwise_cons.mp hsorted
    obtain ⟨ihSorted, ihMem⟩ := ih hrestMem hrest
    rw [insertQueue]
    split_ifs with hless hgreater
    · refine ⟨List.pairwise_cons.mpr ⟨fun other hother ↦ ?_, hsorted⟩, fun other ↦ List.mem_cons⟩
      rcases List.mem_cons.mp hother with rfl | htail
      · exact hless
      · exact horder.trans queue hqueue head hhead other (hrestMem other htail) hless
          (hbelow other htail)
    · refine ⟨List.pairwise_cons.mpr ⟨fun other hother ↦ ?_, ihSorted⟩, fun other ↦ ?_⟩
      · rcases (ihMem other).mp hother with rfl | htail
        · exact hgreater
        · exact hbelow other htail
      · rw [List.mem_cons, ihMem, List.mem_cons, or_left_comm]
    · obtain rfl := horder.eq_of_not_less hqueue hhead hless hgreater
      refine ⟨hsorted, fun other ↦ ?_⟩
      rw [List.mem_cons, ← or_assoc, or_self]

/-- On queues in order, the set of some queues is increasing and has exactly these queues. -/
theorem foldl_insertQueue_spec (horder : StrictTotalOn operatorLt queues)
    {added set : List MessageQueue} (hadded : ∀ queue ∈ added, queue ∈ queues)
    (hset : ∀ queue ∈ set, queue ∈ queues) (hsorted : set.Pairwise operatorLt) :
    (added.foldl (fun set queue ↦ insertQueue queue set) set).Pairwise operatorLt ∧
      ∀ queue, queue ∈ added.foldl (fun set queue ↦ insertQueue queue set) set ↔
        queue ∈ added ∨ queue ∈ set := by
  induction added generalizing set with
  | nil => exact ⟨hsorted, fun queue ↦ by simp⟩
  | cons head rest ih =>
    have hhead := hadded head List.mem_cons_self
    obtain ⟨hinserted, hmem⟩ := insertQueue_spec horder hhead hset hsorted
    obtain ⟨hresult, hresultMem⟩ := ih
      (fun queue hqueue ↦ hadded queue (List.mem_cons_of_mem head hqueue))
      (fun queue hqueue ↦ ((hmem queue).mp hqueue).elim (fun heq ↦ heq ▸ hhead) (hset queue))
      hinserted
    refine ⟨hresult, fun queue ↦ ?_⟩
    rw [List.foldl_cons, hresultMem, hmem, List.mem_cons]
    tauto

/-- The queues `0` and `1` of a broker are in order. -/
theorem orders_of_two_queues :
    Orders {queue : MessageQueue | queue = ⟨[84], [98], 0⟩ ∨ queue = ⟨[84], [98], 1⟩} := by
  refine (orders_iff ?_).mpr (fitWindow_of_nonneg ?_)
  · rintro queue (rfl | rfl) <;> decide
  · rintro queue (rfl | rfl) <;> decide

/-- Two ids `2 ^ 31` apart are below each other, and the set of them does not find the one that was
inserted last; three ids around the circle are each below the next. -/
theorem distant_ids_not_ordered :
    let queue : ℤ → MessageQueue := fun queueId ↦ ⟨[84], [98], queueId⟩
    let set := (SearchTree.leaf.insert id operatorLt (queue 0)).insert id operatorLt
      (queue (-2147483648))
    ¬ Orders {other | other = queue 0 ∨ other = queue (-2147483648)} ∧
      ((queue 0).operatorLt (queue (-2147483648)) ∧ (queue (-2147483648)).operatorLt (queue 0)) ∧
      (set.toList = [queue (-2147483648), queue 0] ∧
        set.find id operatorLt (queue (-2147483648)) = none) ∧
      (queue 0).operatorLt (queue 1500000000) ∧
      (queue 1500000000).operatorLt (queue (-1500000000)) ∧
      (queue (-1500000000)).operatorLt (queue 0) := by
  refine ⟨fun horders ↦ ?_, by decide⟩
  have hless := horders.trans ⟨[84], [98], 0⟩ (Or.inl rfl) ⟨[84], [98], -2147483648⟩ (Or.inr rfl)
    ⟨[84], [98], 0⟩ (Or.inl rfl) (by decide) (by decide)
  exact operatorLt_irrefl _ hless

end MessageQueue

end RocketMQClient.Messages
