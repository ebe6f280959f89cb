import Mathlib.Algebra.Order.Ring.Int
import Mathlib.Data.List.Sort
import RocketMQClient.Library.BalancedBlocks
import RocketMQClient.Library.MachineInt
import RocketMQClient.Messages.MessageQueue

/-!
# Averaged allocation of message queues

Each client of a consumer group takes its share of the message queues of a topic by itself: it takes
the queues from the ordered set, sorts the client ids it got from a broker, and asks the allocation
strategy for the queues of its own id. `allocate` is the averaging strategy and `rebalanceByTopic`
the part of a rebalance in clustering mode that calls it.

The index arithmetic of the source has three cases, in 32-bit integers. `allocate_eq_block` shows
that in all of them the queues of the client at a position are the block of that position in the
list of queues cut into balanced blocks, one for each client, as long as the numbers of queues and
clients are integers of that width. Since all clients sort the same ids (`sort_eq_of_perm`), they
cut the list in the same way, and their shares are a partition of the queues
(`allocation_partition`). Of `2 ^ 31` queues the only client of a group takes none, since their
number is negative as an int, and a list of `2 ^ 32` ids makes the division fault
(`sizes_beyond_int`).

`allocate` computes in integers of 32 bits as the source does, and the three cases of the range are
brought to one formula for the size of a block (`allocateRange_eq_blockSize`). The cutting of a list
into balanced blocks is general and lies in the library; this module shows that the arithmetic of
the source is one way to compute it.
-/

set_option autoImplicit false
set_option relaxedAutoImplicit false

namespace RocketMQClient.Consumer

open Library Messages

/-! ### The operations of the source -/

/-- How an allocation fails: with a client exception, by an index that `at` rejects, or by a
division of ints without a quotient, which ends the process. -/
inductive AllocateError where
  | clientException (message : String)
  | outOfRange
  | divisionFault
  deriving DecidableEq, Repr

/-- The division of two ints has a quotient. -/
def HasQuotient (divisor dividend : ℤ) : Prop :=
  divisor ≠ 0 ∧ ¬ (dividend = -2147483648 ∧ divisor = -1)

instance (divisor dividend : ℤ) : Decidable (HasQuotient divisor dividend) :=
  inferInstanceAs (Decidable (_ ∧ _))

/-- The number of queues of a client. -/
def averageSize (mqAllSize cidAllSize index : ℤ) : ℤ :=
  let mod := mqAllSize.tmod cidAllSize
  if mqAllSize ≤ cidAllSize then 1
  else if mod > 0 ∧ index < mod then mqAllSize.tdiv cidAllSize + 1
  else mqAllSize.tdiv cidAllSize

/-- The position of the first queue of a client. -/
def startIndex (mqAllSize cidAllSize index : ℤ) : ℤ :=
  let mod := mqAllSize.tmod cidAllSize
  if mod > 0 ∧ index < mod then toInt32 (index * averageSize mqAllSize cidAllSize index)
  else toInt32 (index * averageSize mqAllSize cidAllSize index + mod)

/-- The number of queues taken from the first one on. -/
def allocateRange (mqAllSize cidAllSize index : ℤ) : ℤ :=
  min (averageSize mqAllSize cidAllSize index)
    (toInt32 (mqAllSize - startIndex mqAllSize cidAllSize index))

/-- The checked element access of a vector. -/
def vectorAt (mqAll : List MessageQueue) (index : ℤ) : Except AllocateError MessageQueue :=
  if index < 0 then .error .outOfRange
  else match mqAll[index.toNat]? with
    | none => .error .outOfRange
    | some queue => .ok queue

/-- The queue at a position, which is taken modulo the number of queues. -/
def queueAt (mqAll : List MessageQueue) (position : ℤ) : Except AllocateError MessageQueue :=
  let mqAllSize := toInt32 mqAll.length
  if HasQuotient mqAllSize position then vectorAt mqAll (position.tmod mqAllSize)
  else .error .divisionFault

/-- The loop that collects the queues of a client. -/
def collect (mqAll : List MessageQueue) (start : ℤ) : ℕ → Except AllocateError (List MessageQueue)
  | 0 => .ok []
  | count + 1 => do
    let result ← collect mqAll start count
    let queue ← queueAt mqAll (toInt32 (start + count))
    return result ++ [queue]

/-- The queues of the client at an index. -/
def allocateAt (mqAll : List MessageQueue) (cidAllSize index : ℤ) :
    Except AllocateError (List MessageQueue) :=
  let mqAllSize := toInt32 mqAll.length
  if HasQuotient cidAllSize mqAllSize then
    collect mqAll (startIndex mqAllSize cidAllSize index)
      (allocateRange mqAllSize cidAllSize index).toNat
  else .error .divisionFault

/-- The queues of a client; nothing when its id is not in the list. -/
def allocate (currentCID : ByteString) (mqAll : List MessageQueue) (cidAll : List ByteString) :
    Except AllocateError (Option (List MessageQueue)) :=
  if currentCID.isEmpty then .error (.clientException "currentCID is empty")
  else if mqAll.isEmpty then .error (.clientException "mqAll is empty")
  else if cidAll.isEmpty then .error (.clientException "cidAll is empty")
  else match cidAll.findIdx? (· == currentCID) with
    | none => .ok none
    | some position =>
      let index := toInt32 position
      if index = -1 then .ok none
      else (allocateAt mqAll (toInt32 cidAll.length) index).map some

/-- The list of client ids after `sort`. -/
def sortCids (cidAll : List ByteString) : List ByteString := cidAll.mergeSort (· ≤ ·)

/-- The set that is built from the vector behind `allocateResult`. -/
def allocateResultSet (allocateResult : Option (List MessageQueue)) : List MessageQueue :=
  (allocateResult.getD []).foldl (fun set queue ↦ insertQueue queue set) []

/-- The set of queues that a client allocates to itself in clustering mode, from the queues of the
topic and the list of client ids of the group. -/
def rebalanceByTopic (mqSet : MessageQueueSet) (cidAll : List ByteString) (clientId : ByteString) :
    Except AllocateError (List MessageQueue) := do
  let allocateResult ← allocate clientId mqSet.queues (sortCids cidAll)
  return allocateResultSet allocateResult

/-! ### The index arithmetic -/

theorem natCast_tmod (total parts : ℕ) : (total : ℤ).tmod parts = ((total % parts : ℕ) : ℤ) := by
  rw [Int.tmod_eq_emod_of_nonneg (Int.natCast_nonneg total)]
  rfl

theorem natCast_tdiv (total parts : ℕ) : (total : ℤ).tdiv parts = ((total / parts : ℕ) : ℤ) := by
  rw [Int.tdiv_eq_ediv_of_nonneg (Int.natCast_nonneg total)]
  rfl

theorem toInt32_natCast {size : ℕ} (hsize : size < 2147483648) : toInt32 size = size :=
  toInt32_eq_self (by omega) (by omega)

/-- Assumes: no more queues than clients. The clients before the number of queues take one queue
each, at their own position, and the others take none: the position of the first queue may be too
large for an int, but its distance to the number of queues is not. -/
theorem allocateRange_of_few {total parts index : ℕ} (hfew : total ≤ parts) (htotal : 0 < total)
    (hindex : index < parts) (hparts : parts < 2147483648) :
    (allocateRange total parts index).toNat = blockSize total parts index ∧
      (0 < blockSize total parts index →
        startIndex total parts index = blockStart total parts index) := by
  have hposition : toInt32 (index : ℤ) = index := toInt32_natCast (by omega)
  unfold allocateRange startIndex averageSize blockStart blockSize
  simp only [natCast_tmod, Nat.cast_le, hfew, ↓reduceIte, mul_one, hposition]
  rcases Nat.lt_or_eq_of_le hfew with hless | rfl
  · rw [Nat.mod_eq_of_lt hless, Nat.div_eq_of_lt hless]
    by_cases hlonger : index < total
    · have hboth : (total : ℤ) > 0 ∧ (index : ℤ) < total := by omega
      have hleft : toInt32 ((total : ℤ) - index) = total - index :=
        toInt32_eq_self (by omega) (by omega)
      simp only [hboth, hlonger, and_self, ↓reduceIte, hleft]
      omega
    · have hboth : ¬ ((total : ℤ) > 0 ∧ (index : ℤ) < total) := by omega
      have hleft : toInt32 ((total : ℤ) - toInt32 (index + total)) = -index := by
        rw [← toInt32_eq_self (show -2147483648 ≤ -(index : ℤ) by omega) (by omega)]
        refine toInt32_congr ?_
        have hcut := toInt32_emod ((index : ℤ) + total)
        omega
      simp only [hboth, hlonger, ↓reduceIte, hleft]
      omega
  · rw [Nat.mod_self, Nat.div_self htotal]
    have hleft : toInt32 ((total : ℤ) - index) = total - index :=
      toInt32_eq_self (by omega) (by omega)
    simp only [Nat.cast_zero, add_zero, hposition, ite_self, hleft, Nat.not_lt_zero, ↓reduceIte]
    omega

/-- Assumes: more queues than clients. Each client takes its block. -/
theorem allocateRange_of_many {total parts index : ℕ} (hmany : parts < total)
    (hindex : index < parts) (htotal : total < 2147483648) :
    (allocateRange total parts index).toNat = blockSize total parts index ∧
      startIndex total parts index = blockStart total parts index := by
  have hfits := @blockStart_add_blockSize_le total parts index hindex
  unfold blockStart blockSize at hfits
  unfold allocateRange startIndex averageSize blockStart blockSize
  have hfew : ¬ (total : ℤ) ≤ (parts : ℤ) := by omega
  simp only [natCast_tmod, natCast_tdiv, hfew, ↓reduceIte]
  generalize total / parts = quotient at hfits ⊢
  generalize total % parts = remainder at hfits ⊢
  have hcast : (index : ℤ) * (quotient : ℤ) = ((index * quotient : ℕ) : ℤ) := by
    rw [Nat.cast_mul]
  by_cases hlonger : index < remainder
  · have hboth : (remainder : ℤ) > 0 ∧ (index : ℤ) < remainder := by omega
    rw [if_pos hlonger, Nat.min_eq_left hlonger.le] at hfits
    have hstart : toInt32 (((index * quotient : ℕ) : ℤ) + index) =
        ((index * quotient : ℕ) : ℤ) + index := toInt32_eq_self (by omega) (by omega)
    simp only [hboth, hlonger, and_self, ↓reduceIte, mul_add, hcast, mul_one, hstart]
    rw [toInt32_eq_self (by omega) (by omega), Nat.min_eq_left hlonger.le]
    omega
  · have hboth : ¬ ((remainder : ℤ) > 0 ∧ (index : ℤ) < remainder) := by omega
    rw [if_neg hlonger, Nat.min_eq_right (not_lt.mp hlonger)] at hfits
    have hstart : toInt32 (((index * quotient : ℕ) : ℤ) + remainder) =
        ((index * quotient : ℕ) : ℤ) + remainder := toInt32_eq_self (by omega) (by omega)
    simp only [hboth, hlonger, ↓reduceIte, hcast, hstart]
    rw [toInt32_eq_self (by omega) (by omega), Nat.min_eq_right (not_lt.mp hlonger)]
    omega

/-- In all cases the number of queues of a client is the size of its block, and when there are any,
the first of them begins its block. -/
theorem allocateRange_eq_blockSize {total parts index : ℕ} (htotal : 0 < total)
    (hindex : index < parts) (hsize : total < 2147483648) (hparts : parts < 2147483648) :
    (allocateRange total parts index).toNat = blockSize total parts index ∧
      (0 < blockSize total parts index →
        startIndex total parts index = blockStart total parts index) := by
  by_cases hfew : total ≤ parts
  · exact allocateRange_of_few hfew htotal hindex hparts
  · obtain ⟨hrange, hstart⟩ := allocateRange_of_many (not_le.mp hfew) hindex hsize
    exact ⟨hrange, fun _ ↦ hstart⟩

/-- No index of the loop leaves the list of queues, even before the modulo. -/
theorem index_in_range {total parts index : ℕ} (htotal : 0 < total) (hindex : index < parts)
    (hsize : total < 2147483648) (hparts : parts < 2147483648)
    {count : ℕ} (hcount : count < (allocateRange total parts index).toNat) :
    0 ≤ startIndex total parts index + count ∧ startIndex total parts index + count < total := by
  obtain ⟨hrange, hstart⟩ := allocateRange_eq_blockSize htotal hindex hsize hparts
  have hfits := @blockStart_add_blockSize_le total parts index hindex
  rw [hrange] at hcount
  rw [hstart (Nat.zero_lt_of_lt hcount)]
  omega

/-! ### The queues of a client -/

/-- The loop collects a segment of the list of queues. -/
theorem collect_eq {mqAll : List MessageQueue} {start count : ℕ}
    (hfits : start + count ≤ mqAll.length) (hsize : mqAll.length < 2147483648) :
    collect mqAll start count = .ok ((mqAll.drop start).take count) := by
  induction count with
  | zero => simp [collect]
  | succ count ih =>
    have hin : start + count < mqAll.length := by omega
    have hposition : toInt32 ((start : ℤ) + count) = ((start + count : ℕ) : ℤ) := by
      rw [← Nat.cast_add, toInt32_natCast (by omega)]
    have hquotient : HasQuotient (mqAll.length : ℤ) ((start + count : ℕ) : ℤ) := by
      unfold HasQuotient
      omega
    have hindex : ((start + count : ℕ) : ℤ).tmod mqAll.length = ((start + count : ℕ) : ℤ) := by
      rw [natCast_tmod, Nat.mod_eq_of_lt hin]
    have hat : queueAt mqAll ((start + count : ℕ) : ℤ) = .ok mqAll[start + count] := by
      have hnonneg : ¬ ((start + count : ℕ) : ℤ) < 0 := by omega
      rw [queueAt, toInt32_natCast hsize, if_pos hquotient, hindex, vectorAt, if_neg hnonneg,
        Int.toNat_natCast, List.getElem?_eq_getElem hin]
    have hnext : (mqAll.drop start)[count]? = some mqAll[start + count] := by
      rw [List.getElem?_drop, List.getElem?_eq_getElem hin]
    rw [collect, ih (by omega), hposition, hat, List.take_add_one, hnext]
    rfl

/-- The queues of the client at a position are the block of that position. -/
theorem allocate_eq_block {currentCID : ByteString} {mqAll : List MessageQueue}
    {cidAll : List ByteString} (hcurrent : currentCID ≠ []) (hqueues : mqAll ≠ [])
    (hsize : mqAll.length < 2147483648) (hparts : cidAll.length < 2147483648) {index : ℕ}
    (hindex : cidAll.findIdx? (· == currentCID) = some index) :
    allocate currentCID mqAll cidAll = .ok (some (block mqAll cidAll.length index)) := by
  obtain ⟨hlt, -⟩ := List.findIdx?_eq_some_iff_getElem.mp hindex
  have hcids : cidAll ≠ [] := List.ne_nil_of_length_pos (Nat.zero_lt_of_lt hlt)
  have hposition : toInt32 (index : ℤ) = index := toInt32_natCast (hlt.trans hparts)
  have hquotient : HasQuotient (cidAll.length : ℤ) mqAll.length := by
    unfold HasQuotient
    omega
  obtain ⟨hrange, hstart⟩ :=
    allocateRange_eq_blockSize (List.length_pos_iff.mpr hqueues) hlt hsize hparts
  have hcollect : collect mqAll (startIndex mqAll.length cidAll.length index)
      (blockSize mqAll.length cidAll.length index) =
        .ok (block mqAll cidAll.length index) := by
    rcases Nat.eq_zero_or_pos (blockSize mqAll.length cidAll.length index) with hnone | hsome
    · rw [block, hnone, List.take_zero]
      rfl
    · rw [hstart hsome, collect_eq (blockStart_add_blockSize_le hlt) hsize]
      rfl
  rw [allocate, if_neg (by simpa using hcurrent), if_neg (by simpa using hqueues),
    if_neg (by simpa using hcids), hindex]
  dsimp only
  rw [hposition, if_neg (by omega), allocateAt, toInt32_natCast hsize, toInt32_natCast hparts,
    if_pos hquotient, hrange, hcollect]
  rfl

/-- All orders of the same client ids are sorted into the same list. -/
theorem sort_eq_of_perm {first second : List ByteString} (hperm : first.Perm second) :
    sortCids first = sortCids second := by
  have hsorted := @List.pairwise_mergeSort' ByteString (· ≤ ·)
  have hsame := ((List.mergeSort_perm first fun a b ↦ decide (a ≤ b)).trans hperm).trans
    (List.mergeSort_perm second fun a b ↦ decide (a ≤ b)).symm
  exact hsame.eq_of_pairwise' (hsorted first) (hsorted second)

/-- The position of a client among the sorted ids. -/
theorem exists_position {cidAll : List ByteString} {cid : ByteString} (hcid : cid ∈ cidAll) :
    ∃ index, (sortCids cidAll).findIdx? (· == cid) = some index ∧ index < cidAll.length := by
  have hperm := List.mergeSort_perm cidAll fun a b ↦ decide (a ≤ b)
  have hsome : ((sortCids cidAll).findIdx? (· == cid)).isSome = true := by
    rw [List.findIdx?_isSome, List.any_eq_true]
    exact ⟨cid, hperm.mem_iff.mpr hcid, by simp⟩
  obtain ⟨index, hindex⟩ := Option.isSome_iff_exists.mp hsome
  obtain ⟨hlt, -⟩ := List.findIdx?_eq_some_iff_getElem.mp hindex
  exact ⟨index, hindex, hperm.length_eq ▸ hlt⟩

/-- Two clients at the same position are the same client. -/
theorem position_injective {cidAll : List ByteString} {first second : ByteString} {index : ℕ}
    (hfirst : cidAll.findIdx? (· == first) = some index)
    (hsecond : cidAll.findIdx? (· == second) = some index) : first = second := by
  obtain ⟨_, hfirst, -⟩ := List.findIdx?_eq_some_iff_getElem.mp hfirst
  obtain ⟨_, hsecond, -⟩ := List.findIdx?_eq_some_iff_getElem.mp hsecond
  rw [beq_iff_eq] at hfirst hsecond
  exact hfirst.symm.trans hsecond

/-- A position among the sorted ids is the position of a client. -/
theorem exists_client {cidAll : List ByteString} (hnodup : cidAll.Nodup) {index : ℕ}
    (hindex : index < cidAll.length) :
    ∃ cid ∈ cidAll, (sortCids cidAll).findIdx? (· == cid) = some index := by
  have hperm := List.mergeSort_perm cidAll fun a b ↦ decide (a ≤ b)
  have hlt : index < (sortCids cidAll).length := by
    rw [sortCids, hperm.length_eq]
    exact hindex
  refine ⟨(sortCids cidAll)[index], hperm.mem_iff.mp (List.getElem_mem hlt), ?_⟩
  refine List.findIdx?_eq_some_iff_getElem.mpr ⟨hlt, by simp, fun earlier hearlier hsame ↦ ?_⟩
  rw [beq_iff_eq] at hsame
  have heq := ((hperm.nodup_iff.mpr hnodup).getElem_inj_iff).mp hsame
  omega

/-- The share of a client: the block of its position among the sorted ids. -/
def clientShare (mqSet : MessageQueueSet) (cids : List ByteString) (cid : ByteString) :
    List MessageQueue :=
  block mqSet.queues cids.length (((sortCids cids).findIdx? (· == cid)).getD 0)

theorem clientShare_eq (mqSet : MessageQueueSet) {cids : List ByteString} {cid : ByteString}
    {index : ℕ} (hindex : (sortCids cids).findIdx? (· == cid) = some index) :
    clientShare mqSet cids cid = block mqSet.queues cids.length index := by
  rw [clientShare, hindex, Option.getD_some]

/-- The queues that a client of the group allocates to itself are the block of its position among
the sorted ids, whatever order its list of ids has. -/
theorem rebalanceByTopic_eq_block {mqSet : MessageQueueSet} (hqueues : mqSet.queues ≠ [])
    (hids : ∀ queue ∈ mqSet.queues, 0 ≤ queue.queueId ∧ queue.queueId ≤ 2147483647)
    (hsize : mqSet.queues.length < 2147483648) {cids view : List ByteString}
    (hview : view.Perm cids) (hparts : cids.length < 2147483648) {cid : ByteString}
    (hcid : cid ≠ []) {index : ℕ} (hindex : (sortCids cids).findIdx? (· == cid) = some index) :
    rebalanceByTopic mqSet view cid = .ok (block mqSet.queues cids.length index) := by
  have hlength : (sortCids cids).length = cids.length :=
    (List.mergeSort_perm cids fun a b ↦ decide (a ≤ b)).length_eq
  have hsegment := block_isInfix mqSet.queues cids.length index
  have hinserted : (block mqSet.queues cids.length index).foldl
      (fun set queue ↦ insertQueue queue set) [] = block mqSet.queues cids.length index :=
    foldl_insertQueue (mqSet.ordered.sublist hsegment.sublist)
      fun queue hqueue ↦ hids queue (hsegment.subset hqueue)
  rw [rebalanceByTopic, sort_eq_of_perm hview,
    allocate_eq_block hcid hqueues hsize (hlength ▸ hparts) hindex, hlength]
  change Except.ok _ = _
  rw [allocateResultSet, Option.getD_some, hinserted]

/-- Assumes: a non-empty set of queues with ids of the non-negative 32-bit range, a non-empty list
of distinct non-empty client ids, fewer than `2 ^ 31` of both, and for each client its own order of
that list. Then every client allocates itself a share, the shares of two clients are disjoint, the
shares together are the set of queues, each share is a segment of the queues in their order, the
sizes of two shares differ by at most one, and no index that an allocation computes leaves the list
of queues. -/
theorem allocation_partition (mqSet : MessageQueueSet) (hqueues : mqSet.queues ≠ [])
    (hids : ∀ queue ∈ mqSet.queues, 0 ≤ queue.queueId ∧ queue.queueId ≤ 2147483647)
    (hsize : mqSet.queues.length < 2147483648) (cids : List ByteString) (hnonempty : cids ≠ [])
    (hparts : cids.length < 2147483648) (hnodup : cids.Nodup)
    (hcids : ∀ cid ∈ cids, cid ≠ []) (view : ByteString → List ByteString)
    (hview : ∀ cid ∈ cids, (view cid).Perm cids) :
    ∃ share : ByteString → List MessageQueue,
      (∀ cid ∈ cids, rebalanceByTopic mqSet (view cid) cid = .ok (share cid)) ∧
      (∀ first ∈ cids, ∀ second ∈ cids, first ≠ second → (share first).Disjoint (share second)) ∧
      (∀ queue, queue ∈ mqSet.queues ↔ ∃ cid ∈ cids, queue ∈ share cid) ∧
      (∀ cid ∈ cids, share cid <:+: mqSet.queues) ∧
      (∀ first ∈ cids, ∀ second ∈ cids, (share first).length ≤ (share second).length + 1) ∧
      (∀ cid ∈ cids, ∀ index, (sortCids (view cid)).findIdx? (· == cid) = some index →
        ∀ count < (allocateRange (toInt32 mqSet.queues.length) (toInt32 cids.length)
            (toInt32 index)).toNat,
          0 ≤ startIndex (toInt32 mqSet.queues.length) (toInt32 cids.length) (toInt32 index) +
              count ∧
            startIndex (toInt32 mqSet.queues.length) (toInt32 cids.length) (toInt32 index) +
              count < mqSet.queues.length) := by
  have hpositions : ∀ cid ∈ cids, ∃ index,
      (sortCids cids).findIdx? (· == cid) = some index ∧ index < cids.length :=
    fun cid hcid ↦ exists_position hcid
  refine ⟨clientShare mqSet cids, ?_, ?_, ?_, ?_, ?_, ?_⟩
  · intro cid hcid
    obtain ⟨index, hindex, -⟩ := hpositions cid hcid
    rw [clientShare_eq mqSet hindex]
    exact rebalanceByTopic_eq_block hqueues hids hsize (hview cid hcid) hparts (hcids cid hcid)
      hindex
  · intro first hfirst second hsecond hne
    obtain ⟨index, hindex, hlt⟩ := hpositions first hfirst
    obtain ⟨other, hother, hlt'⟩ := hpositions second hsecond
    rw [clientShare_eq mqSet hindex, clientShare_eq mqSet hother]
    refine block_disjoint mqSet.nodup hlt hlt' fun heq ↦ hne ?_
    exact position_injective hindex (heq ▸ hother)
  · intro queue
    constructor
    · intro hqueue
      obtain ⟨index, hindex, hmem⟩ := exists_mem_block (List.length_pos_iff.mpr hnonempty) hqueue
      obtain ⟨cid, hcid, hposition⟩ := exists_client hnodup hindex
      refine ⟨cid, hcid, ?_⟩
      rw [clientShare_eq mqSet hposition]
      exact hmem
    · rintro ⟨cid, -, hmem⟩
      exact (block_isInfix _ _ _).subset hmem
  · exact fun cid _ ↦ block_isInfix _ _ _
  · intro first hfirst second hsecond
    obtain ⟨index, hindex, hlt⟩ := hpositions first hfirst
    obtain ⟨other, hother, hlt'⟩ := hpositions second hsecond
    rw [clientShare_eq mqSet hindex, clientShare_eq mqSet hother, length_block hlt,
      length_block hlt']
    exact blockSize_le _ _ _ _
  · intro cid hcid index hindex count hcount
    rw [sort_eq_of_perm (hview cid hcid)] at hindex
    obtain ⟨position, hposition, hlt⟩ := hpositions cid hcid
    obtain rfl := Option.some.inj (hindex.symm.trans hposition)
    rw [toInt32_natCast hsize, toInt32_natCast hparts, toInt32_natCast (hlt.trans hparts)]
      at hcount ⊢
    exact index_in_range (List.length_pos_iff.mpr hqueues) hlt hsize hparts hcount

/-- Five queues and three clients, each with the ids in an order of its own. -/
def fiveQueues : MessageQueueSet :=
  ⟨[⟨[1], [1], 0⟩, ⟨[1], [1], 1⟩, ⟨[1], [2], 0⟩, ⟨[1], [2], 1⟩, ⟨[1], [2], 7⟩], by decide⟩

/-- The ids as each of the three clients has them. -/
def threeViews (cid : ByteString) : List ByteString :=
  if cid = [1] then [[2], [3], [1]] else if cid = [2] then [[3], [2], [1]] else [[1], [2], [3]]

theorem allocation_partition_of_five :
    ∃ share : ByteString → List MessageQueue,
      share [1] = [⟨[1], [1], 0⟩, ⟨[1], [1], 1⟩] ∧ share [2] = [⟨[1], [2], 0⟩, ⟨[1], [2], 1⟩] ∧
        share [3] = [⟨[1], [2], 7⟩] ∧
        ∀ queue, queue ∈ fiveQueues.queues ↔ ∃ cid ∈ [[1], [2], [3]], queue ∈ share cid := by
  obtain ⟨share, hshare, -, hunion, -⟩ := allocation_partition fiveQueues (by decide) (by decide)
    (by decide) [[1], [2], [3]] (by decide) (by decide) (by decide) (by decide) threeViews
    (by decide)
  have hsorted : sortCids [[1], [2], [3]] = [[1], [2], [3]] :=
    List.mergeSort_eq_self _ (by decide)
  have hvalue : ∀ cid ∈ [[1], [2], [3]], Except.ok (share cid) =
      (allocate cid fiveQueues.queues [[1], [2], [3]]).map allocateResultSet := by
    intro cid hcid
    rw [← hshare cid hcid, rebalanceByTopic, @sort_eq_of_perm _ [[1], [2], [3]], hsorted]
    · rfl
    · revert cid
      decide
  refine ⟨share, ?_, ?_, ?_, hunion⟩
  · exact Except.ok.inj ((hvalue [1] (by decide)).trans (by decide +kernel))
  · exact Except.ok.inj ((hvalue [2] (by decide)).trans (by decide +kernel))
  · exact Except.ok.inj ((hvalue [3] (by decide)).trans (by decide +kernel))

/-! ### Sizes beyond an int -/

/-- The queues of one broker. -/
def queuesOfOneBroker (size : ℕ) : List MessageQueue :=
  (List.range size).map fun (id : ℕ) ↦ ⟨[1], [1], id⟩

theorem queuesOfOneBroker_ids {size : ℕ} (hsize : size ≤ 2147483648) :
    ∀ queue ∈ queuesOfOneBroker size, 0 ≤ queue.queueId ∧ queue.queueId ≤ 2147483647 := by
  intro queue hqueue
  obtain ⟨id, hid, rfl⟩ := List.mem_map.mp hqueue
  have hlt := List.mem_range.mp hid
  dsimp only
  omega

theorem queuesOfOneBroker_ordered {size : ℕ} (hsize : size ≤ 2147483648) :
    (queuesOfOneBroker size).Pairwise MessageQueue.operatorLt := by
  refine List.pairwise_map.mpr (List.pairwise_lt_range.imp_of_mem ?_)
  intro first second hfirst hsecond hlt
  have hfirstLt := List.mem_range.mp hfirst
  have hsecondLt := List.mem_range.mp hsecond
  have hdifference : toInt32 ((first : ℤ) - second) = first - second :=
    toInt32_eq_self (by omega) (by omega)
  simp only [MessageQueue.operatorLt, MessageQueue.compareTo, strcmp_self, ne_eq,
    not_true_eq_false, ↓reduceIte, hdifference]
  omega

/-- The set of the queues of one broker, at most one more than an int counts. -/
def setOfOneBroker (size : ℕ) (hsize : size ≤ 2147483648) : MessageQueueSet :=
  ⟨queuesOfOneBroker size, queuesOfOneBroker_ordered hsize⟩

theorem setOfOneBroker_length {size : ℕ} (hsize : size ≤ 2147483648) :
    (setOfOneBroker size hsize).queues.length = size :=
  (List.length_map _).trans List.length_range

theorem setOfOneBroker_ids {size : ℕ} (hsize : size ≤ 2147483648) :
    ∀ queue ∈ (setOfOneBroker size hsize).queues,
      0 ≤ queue.queueId ∧ queue.queueId ≤ 2147483647 :=
  queuesOfOneBroker_ids hsize

/-- Of `2 ^ 31` queues the only client of a group takes none: their number is negative as an int. -/
theorem rebalanceByTopic_of_too_many {mqSet : MessageQueueSet}
    (hlength : mqSet.queues.length = 2147483648) : rebalanceByTopic mqSet [[1]] [1] = .ok [] := by
  have hqueues : mqSet.queues ≠ [] := List.ne_nil_of_length_pos (hlength ▸ by decide)
  have hnone : (allocateRange (toInt32 (2147483648 : ℕ)) (toInt32 (1 : ℕ)) 0).toNat = 0 := by
    decide +kernel
  have hallocated : allocateAt mqSet.queues (toInt32 (1 : ℕ)) 0 = .ok [] := by
    rw [allocateAt, hlength, if_pos (by decide), hnone]
    rfl
  have hallocate : allocate [1] mqSet.queues [[1]] = .ok (some []) := by
    rw [allocate, if_neg (by decide), if_neg (by simpa using hqueues), if_neg (by decide)]
    change (allocateAt mqSet.queues (toInt32 (1 : ℕ)) 0).map some = _
    rw [hallocated]
    rfl
  rw [rebalanceByTopic, sortCids, List.mergeSort_singleton, hallocate]
  rfl

/-- Distinct client ids, one of each length. -/
def idsOfLengths (size : ℕ) : List ByteString :=
  (List.range size).map fun length ↦ List.replicate (length + 1) 1

theorem idsOfLengths_length (size : ℕ) : (idsOfLengths size).length = size :=
  (List.length_map _).trans List.length_range

theorem idsOfLengths_nodup (size : ℕ) : (idsOfLengths size).Nodup := by
  refine List.nodup_range.map fun first second hsame ↦ ?_
  have hlength := congrArg List.length hsame
  simp only [List.length_replicate] at hlength
  omega

theorem idsOfLengths_ne_nil {size : ℕ} : ∀ cid ∈ idsOfLengths size, cid ≠ [] := by
  intro cid hcid
  obtain ⟨length, -, rfl⟩ := List.mem_map.mp hcid
  exact List.cons_ne_nil _ _

/-- Among `2 ^ 32` client ids a client divides by zero. -/
theorem rebalanceByTopic_of_too_many_ids {mqSet : MessageQueueSet} (hqueues : mqSet.queues ≠ [])
    {cids : List ByteString} (hlength : cids.length = 4294967296) {cid : ByteString}
    (hcid : cid ≠ []) (hposition : (sortCids cids).findIdx? (· == cid) = some 0) :
    rebalanceByTopic mqSet cids cid = .error .divisionFault := by
  have hsorted : (sortCids cids).length = 4294967296 := by
    rw [sortCids, (List.mergeSort_perm _ _).length_eq, hlength]
  have hids : sortCids cids ≠ [] := List.ne_nil_of_length_pos (hsorted ▸ by decide)
  have hzero : ¬ HasQuotient (toInt32 (4294967296 : ℕ)) (toInt32 mqSet.queues.length) :=
    fun hquotient ↦ hquotient.1 (by decide)
  rw [rebalanceByTopic, allocate, if_neg (by simpa using hcid), if_neg (by simpa using hqueues),
    if_neg (by simpa using hids), hposition]
  dsimp only
  rw [if_neg (by decide), allocateAt, hsorted, if_neg hzero]
  rfl

/-- The shares of the clients do not cover a set of `2 ^ 31` queues, and not every client of a list
of `2 ^ 32` ids has a share. -/
theorem sizes_beyond_int :
    ((setOfOneBroker 2147483648 le_rfl).queues ≠ [] ∧
      (∀ queue ∈ (setOfOneBroker 2147483648 le_rfl).queues,
        0 ≤ queue.queueId ∧ queue.queueId ≤ 2147483647) ∧
      rebalanceByTopic (setOfOneBroker 2147483648 le_rfl) [[1]] [1] = .ok []) ∧
    (idsOfLengths 4294967296).Nodup ∧ (∀ cid ∈ idsOfLengths 4294967296, cid ≠ []) ∧
      ∃ cid ∈ idsOfLengths 4294967296,
        rebalanceByTopic fiveQueues (idsOfLengths 4294967296) cid = .error .divisionFault := by
  have hqueues := @setOfOneBroker_length 2147483648 le_rfl
  have hids : (idsOfLengths 4294967296).length = 4294967296 := idsOfLengths_length _
  obtain ⟨cid, hcid, hposition⟩ := exists_client (idsOfLengths_nodup 4294967296)
    (lt_of_lt_of_eq (by decide : 0 < 4294967296) hids.symm)
  refine ⟨⟨?_, @setOfOneBroker_ids 2147483648 le_rfl, rebalanceByTopic_of_too_many hqueues⟩,
    idsOfLengths_nodup _, idsOfLengths_ne_nil, cid, hcid, ?_⟩
  · exact List.ne_nil_of_length_pos (lt_of_lt_of_eq (by decide : 0 < 2147483648) hqueues.symm)
  · exact rebalanceByTopic_of_too_many_ids (by decide) hids (idsOfLengths_ne_nil cid hcid) hposition

end RocketMQClient.Consumer
