import Mathlib.Logic.Function.Basic
import RocketMQClient.Consumer.OffsetStore
import RocketMQClient.Library.TreeAssignment
import RocketMQClient.Messages.MessageQueueOrder

/-!
# The two offset stores in memory

Both stores keep a map from message queues to offsets, which is a search tree under `operator<`. The
store for the broker adds an offset with `operator[]` and changes it in place; the store for the
local file adds it with `insert` and changes a copy that it assigns with `operator[]`. A tree may be
rebalanced after each insertion, in any way that keeps its elements in order.

`reference` is the map that both are for. They read as it says when the queues used have names
without zero bytes and ids that fit into a window of `2 ^ 31` values (`stores_agree`). Of two queues
whose ids are `2 ^ 31` apart both stores lose the second (`distant_ids_not_stored`).
-/

set_option autoImplicit false
set_option relaxedAutoImplicit false

namespace RocketMQClient.Consumer

open Library Messages MessageQueue

/-- The map from queues to offsets. -/
abbrev OffsetTree := SearchTree (MessageQueue × ℤ)

/-- What the container does to its tree after an insertion. -/
structure Rebalancing where
  apply : OffsetTree → OffsetTree
  toList_apply : ∀ tree, (apply tree).toList = tree.toList

/-- One call of `updateOffset`. -/
structure OffsetUpdate where
  mq : MessageQueue
  offset : ℤ
  increaseOnly : Bool
  deriving DecidableEq

namespace OffsetTree

def find (table : OffsetTree) (mq : MessageQueue) : Option (MessageQueue × ℤ) :=
  SearchTree.find Prod.fst operatorLt mq table

/-- `insert`. -/
def insert (rebalancing : Rebalancing) (table : OffsetTree) (mq : MessageQueue) (offset : ℤ) :
    OffsetTree :=
  rebalancing.apply (SearchTree.insert Prod.fst operatorLt (mq, offset) table)

/-- `operator[]` and an assignment. -/
def assign (rebalancing : Rebalancing) (table : OffsetTree) (mq : MessageQueue) (offset : ℤ) :
    OffsetTree :=
  rebalancing.apply
    (SearchTree.assign Prod.fst operatorLt (mq, offset) (fun entry ↦ (entry.1, offset)) table)

/-- An assignment to the value that has been found. -/
def set (table : OffsetTree) (mq : MessageQueue) (offset : ℤ) : OffsetTree :=
  SearchTree.setFound Prod.fst operatorLt mq (fun entry ↦ (entry.1, offset)) table

/-- `readOffset` with `READ_FROM_MEMORY`, which both stores do alike. -/
def readOffset (table : OffsetTree) (mq : MessageQueue) : ℤ :=
  match table.find mq with
  | none => -1
  | some entry => entry.2

end OffsetTree

namespace RemoteBrokerOffsetStore

def updateOffset (rebalancing : Rebalancing) (table : OffsetTree) (update : OffsetUpdate) :
    OffsetTree :=
  let table :=
    if (table.find update.mq).isNone then table.assign rebalancing update.mq update.offset
    else table
  match table.find update.mq with
  | none => table
  | some entry =>
    if update.increaseOnly then
      table.set update.mq (compareAndIncreaseOnly entry.2 update.offset).2
    else table.set update.mq update.offset

end RemoteBrokerOffsetStore

namespace LocalFileOffsetStore

def updateOffset (rebalancing : Rebalancing) (table : OffsetTree) (update : OffsetUpdate) :
    OffsetTree :=
  match table.find update.mq with
  | none => table.insert rebalancing update.mq update.offset
  | some entry =>
    let offsetOld := entry.2
    if update.increaseOnly then
      table.assign rebalancing update.mq (compareAndIncreaseOnly offsetOld update.offset).2
    else table.assign rebalancing update.mq update.offset

end LocalFileOffsetStore

/-! ### The map that the stores are for -/

/-- The offset of a queue after an update of it. -/
def updatedOffset (update : OffsetUpdate) : Option ℤ → ℤ
  | none => update.offset
  | some stored => if update.increaseOnly then max stored update.offset else update.offset

/-- The offset of each queue after an update. -/
def reference (map : MessageQueue → Option ℤ) (update : OffsetUpdate) : MessageQueue → Option ℤ :=
  Function.update map update.mq (some (updatedOffset update (map update.mq)))

/-- A tree holds the offsets of a map, on some queues. -/
structure Represents (queues : Set MessageQueue) (table : OffsetTree)
    (map : MessageQueue → Option ℤ) : Prop where
  sorted : SearchTree.Sorted Prod.fst operatorLt queues table.toList
  mem_iff : ∀ queue ∈ queues, ∀ offset, (queue, offset) ∈ table.toList ↔ map queue = some offset

section

variable {queues : Set MessageQueue} {table changed : OffsetTree}
  {map : MessageQueue → Option ℤ} {mq : MessageQueue} {offset : ℤ}

theorem represents_leaf : Represents queues .leaf fun _ ↦ none :=
  ⟨⟨by simp [SearchTree.toList], List.Pairwise.nil⟩, by simp [SearchTree.toList]⟩

/-- What is found is what the map has. -/
theorem Represents.find_eq (htable : Represents queues table map)
    (horder : StrictTotalOn operatorLt queues) (hmq : mq ∈ queues) :
    table.find mq = (map mq).map fun offset ↦ (mq, offset) := by
  cases hmap : map mq with
  | none =>
    refine Option.eq_none_iff_forall_ne_some.mpr fun entry hentry ↦ ?_
    obtain ⟨hmem, hkey⟩ := (SearchTree.find_eq_some_iff horder hmq htable.sorted).mp hentry
    have hsome := (htable.mem_iff mq hmq entry.2).mp (hkey ▸ hmem)
    exact Option.some_ne_none _ (hsome.symm.trans hmap)
  | some offset =>
    exact (SearchTree.find_eq_some_iff horder hmq htable.sorted).mpr
      ⟨(htable.mem_iff mq hmq offset).mpr hmap, rfl⟩

theorem Represents.readOffset_eq (htable : Represents queues table map)
    (horder : StrictTotalOn operatorLt queues) (hmq : mq ∈ queues) :
    table.readOffset mq = (map mq).getD (-1) := by
  rw [OffsetTree.readOffset, htable.find_eq horder hmq]
  cases map mq <;> rfl

/-- A tree in which one queue has a new offset and the others have theirs. -/
theorem Represents.update (htable : Represents queues table map)
    (hsorted : SearchTree.Sorted Prod.fst operatorLt queues changed.toList)
    (hmem : ∀ element, element ∈ changed.toList ↔
      element = (mq, offset) ∨ element ∈ table.toList ∧ element.1 ≠ mq) :
    Represents queues changed (Function.update map mq (some offset)) := by
  refine ⟨hsorted, fun queue hqueue other ↦ ?_⟩
  rw [hmem, htable.mem_iff queue hqueue]
  by_cases hsame : queue = mq
  · subst hsame
    simp [eq_comm]
  · simp [hsame]

/-- A queue that is not found is inserted. -/
theorem Represents.insert (htable : Represents queues table map)
    (horder : StrictTotalOn operatorLt queues) (rebalancing : Rebalancing) (hmq : mq ∈ queues)
    (hmap : map mq = none) (offset : ℤ) :
    Represents queues (table.insert rebalancing mq offset)
      (Function.update map mq (some offset)) := by
  have hfind := htable.find_eq horder hmq
  rw [hmap] at hfind
  refine htable.update ?_ fun element ↦ ?_
  · rw [OffsetTree.insert, rebalancing.toList_apply]
    exact SearchTree.insert_sorted horder hmq htable.sorted
  · rw [OffsetTree.insert, rebalancing.toList_apply,
      @SearchTree.mem_insert _ _ Prod.fst operatorLt queues _ horder (mq, offset) hmq table
        htable.sorted hfind]
    refine or_congr_right (and_iff_left_of_imp fun hmem hkey ↦ ?_).symm
    have hsome := (htable.mem_iff mq hmq element.2).mp (hkey ▸ hmem)
    exact Option.some_ne_none _ (hsome.symm.trans hmap)

/-- An assignment inserts a queue or changes its offset. -/
theorem Represents.assign (htable : Represents queues table map)
    (horder : StrictTotalOn operatorLt queues) (rebalancing : Rebalancing) (hmq : mq ∈ queues)
    (offset : ℤ) :
    Represents queues (table.assign rebalancing mq offset)
      (Function.update map mq (some offset)) := by
  obtain ⟨hsorted, hmem⟩ := @SearchTree.mem_assign _ _ Prod.fst operatorLt queues _ horder
    (mq, offset) (fun entry ↦ (entry.1, offset)) (fun _ ↦ rfl) hmq table htable.sorted
  have hfind : SearchTree.find Prod.fst operatorLt mq table =
      (map mq).map fun found ↦ (mq, found) := htable.find_eq horder hmq
  refine htable.update ?_ fun element ↦ ?_
  · rwa [OffsetTree.assign, rebalancing.toList_apply]
  · rw [OffsetTree.assign, rebalancing.toList_apply, hmem, hfind]
    cases map mq <;> rfl

/-- An offset that is found is changed. -/
theorem Represents.set (htable : Represents queues table map)
    (horder : StrictTotalOn operatorLt queues) (hmq : mq ∈ queues) {stored : ℤ}
    (hmap : map mq = some stored) (offset : ℤ) :
    Represents queues (table.set mq offset) (Function.update map mq (some offset)) := by
  have hfind := htable.find_eq horder hmq
  rw [hmap] at hfind
  obtain ⟨hsorted, hmem⟩ := @SearchTree.mem_setFound _ _ Prod.fst operatorLt queues _ horder mq
    (fun entry ↦ (entry.1, offset)) (fun _ ↦ rfl) table htable.sorted _ hfind hmq
  exact htable.update hsorted hmem

/-! ### The updates -/

theorem Represents.remote (htable : Represents queues table map)
    (horder : StrictTotalOn operatorLt queues) (rebalancing : Rebalancing) {update : OffsetUpdate}
    (hmq : update.mq ∈ queues) :
    Represents queues (RemoteBrokerOffsetStore.updateOffset rebalancing table update)
      (reference map update) := by
  have hfind := htable.find_eq horder hmq
  unfold RemoteBrokerOffsetStore.updateOffset reference
  cases hmap : map update.mq with
  | none =>
    -- The queue is added with its offset, found, and given the same offset once more.
    have hadded := htable.assign horder rebalancing hmq update.offset
    have hself : Function.update map update.mq (some update.offset) update.mq =
        some update.offset := Function.update_self _ _ _
    have hfound := hadded.find_eq horder hmq
    have hagain := hadded.set horder hmq hself update.offset
    rw [Function.update_idem] at hagain
    rw [hmap] at hfind
    rw [hself] at hfound
    simp only [hfind, hfound, Option.map_none, Option.isNone_none, if_true, Option.map_some,
      compareAndIncreaseOnly_eq_max, max_self, ite_self]
    exact hagain
  | some stored =>
    rw [hmap] at hfind
    simp only [hfind, Option.map_some, Option.isNone_some, Bool.false_eq_true, if_false,
      updatedOffset, compareAndIncreaseOnly_eq_max]
    split_ifs
    · exact htable.set horder hmq hmap _
    · exact htable.set horder hmq hmap _

theorem Represents.localFile (htable : Represents queues table map)
    (horder : StrictTotalOn operatorLt queues) (rebalancing : Rebalancing) {update : OffsetUpdate}
    (hmq : update.mq ∈ queues) :
    Represents queues (LocalFileOffsetStore.updateOffset rebalancing table update)
      (reference map update) := by
  have hfind := htable.find_eq horder hmq
  unfold LocalFileOffsetStore.updateOffset reference
  cases hmap : map update.mq with
  | none =>
    rw [hmap] at hfind
    simp only [hfind, Option.map_none, updatedOffset]
    exact htable.insert horder rebalancing hmq hmap update.offset
  | some stored =>
    rw [hmap] at hfind
    simp only [hfind, Option.map_some, updatedOffset, compareAndIncreaseOnly_eq_max]
    split_ifs
    · exact htable.assign horder rebalancing hmq _
    · exact htable.assign horder rebalancing hmq _

/-- A sequence of updates of some queues keeps what holds after each of them. -/
theorem Represents.foldl
    {updateOffset : OffsetTree → OffsetUpdate → OffsetTree} {updates : List OffsetUpdate}
    (hstep : ∀ table map update, update.mq ∈ queues → Represents queues table map →
      Represents queues (updateOffset table update) (reference map update))
    (hupdates : ∀ update ∈ updates, update.mq ∈ queues) (htable : Represents queues table map) :
    Represents queues (updates.foldl updateOffset table) (updates.foldl reference map) := by
  induction updates generalizing table map with
  | nil => exact htable
  | cons update rest ih =>
    exact ih (fun other hother ↦ hupdates other (List.mem_cons_of_mem update hother))
      (hstep table map update (hupdates update List.mem_cons_self) htable)

end

/-- The queues of a sequence of updates and of the read after it. -/
def queuesUsed (updates : List OffsetUpdate) (mq : MessageQueue) : Set MessageQueue :=
  {queue | queue = mq ∨ ∃ update ∈ updates, update.mq = queue}

/-- Both stores read the offset of the reference map after every sequence of updates, when the
queues used have names without zero bytes and ids that fit. -/
theorem stores_agree (rebalancing : Rebalancing) (updates : List OffsetUpdate) (mq : MessageQueue)
    (hqueues : ∀ queue ∈ queuesUsed updates mq, queue.HasPlainNames ∧ queue.IsInt)
    (hfit : FitWindow (queuesUsed updates mq)) :
    (updates.foldl (RemoteBrokerOffsetStore.updateOffset rebalancing) .leaf).readOffset mq =
        (updates.foldl reference (fun _ ↦ none) mq).getD (-1) ∧
      (updates.foldl (LocalFileOffsetStore.updateOffset rebalancing) .leaf).readOffset mq =
        (updates.foldl reference (fun _ ↦ none) mq).getD (-1) := by
  have horder := strictTotalOn_of_fitWindow hqueues hfit
  have hmq : mq ∈ queuesUsed updates mq := Or.inl rfl
  have hupdates : ∀ update ∈ updates, update.mq ∈ queuesUsed updates mq := fun update hupdate ↦
    Or.inr ⟨update, hupdate, rfl⟩
  constructor
  · exact (Represents.foldl (fun _ _ _ hupdate htable ↦ htable.remote horder rebalancing hupdate)
      hupdates represents_leaf).readOffset_eq horder hmq
  · exact (Represents.foldl (fun _ _ _ hupdate htable ↦ htable.localFile horder rebalancing hupdate)
      hupdates represents_leaf).readOffset_eq horder hmq

/-- A tree that is left as it is. -/
def Rebalancing.none : Rebalancing := ⟨id, fun _ ↦ rfl⟩

/-- The queues `0` and `1` of a broker, the first of which is updated twice. -/
theorem stores_agree_of_two_queues :
    let updates : List OffsetUpdate := [⟨⟨[84], [98], 0⟩, 7, true⟩, ⟨⟨[84], [98], 1⟩, 3, false⟩,
      ⟨⟨[84], [98], 0⟩, 5, true⟩]
    (updates.foldl (RemoteBrokerOffsetStore.updateOffset .none) .leaf).readOffset ⟨[84], [98], 0⟩ =
        (updates.foldl reference (fun _ ↦ Option.none) ⟨[84], [98], 0⟩).getD (-1) ∧
      (updates.foldl (LocalFileOffsetStore.updateOffset .none) .leaf).readOffset ⟨[84], [98], 0⟩ =
        (updates.foldl reference (fun _ ↦ Option.none) ⟨[84], [98], 0⟩).getD (-1) := by
  refine stores_agree .none _ ⟨[84], [98], 0⟩ ?_ (fitWindow_of_nonneg ?_)
  all_goals
    rintro queue (rfl | ⟨update, hupdate, rfl⟩)
    · decide
    · simp only [List.mem_cons, List.not_mem_nil, or_false] at hupdate
      rcases hupdate with rfl | rfl | rfl <;> decide

/-- Of two queues whose ids are `2 ^ 31` apart both stores lose the second: it reads as if it had
never been updated. -/
theorem distant_ids_not_stored :
    let updates : List OffsetUpdate :=
      [⟨⟨[84], [98], 0⟩, 7, false⟩, ⟨⟨[84], [98], -2147483648⟩, 5, false⟩]
    (updates.foldl (RemoteBrokerOffsetStore.updateOffset .none) .leaf).readOffset
        ⟨[84], [98], -2147483648⟩ = -1 ∧
      (updates.foldl (LocalFileOffsetStore.updateOffset .none) .leaf).readOffset
        ⟨[84], [98], -2147483648⟩ = -1 ∧
      (updates.foldl reference (fun _ ↦ Option.none) ⟨[84], [98], -2147483648⟩).getD (-1) = 5 := by
  decide

end RocketMQClient.Consumer
