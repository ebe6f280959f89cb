import RocketMQClient.Consumer.ProcessQueue
import RocketMQClient.Library.EventSystem

/-!
# Orderly delivery

Consuming in order moves every message of a process queue through three places: it waits in the
tree map, is taken into the temporary map, and is committed. A rollback returns every taken
message, and `makeMessageToCosumeAgain` returns the last batch taken. `orderlySystem` is the event
system of these operations on one process queue, under the guarantee of the broker that the offsets
of a batch increase and lie above all earlier ones; next to the queue it records the offsets put,
the offsets committed, and the batches that are taken and neither committed nor returned.

The result of a commit is an offset or `-1`, and the two are told apart only by the sign. The
offsets of a broker start at zero, so a commit of taken messages is never taken for one of none; of
an offset `-2` it would be (`commit_of_negative_offset`).

`OrderlyInvariant` says that the offsets put are, in this order, those committed, those taken and
those waiting. `orderlyInvariant_step` keeps it across every event and `orderlyInvariant_of_run`
along every run. Everything else is read off it: taken offsets are below waiting ones, a take
returns the smallest waiting offsets in order, a commit of offsets that have a next one, as those of
a broker do, returns one between those committed and those held, and no offset is lost
(`orderly_delivery_and_commit`).
-/

set_option autoImplicit false
set_option relaxedAutoImplicit false

namespace RocketMQClient.Consumer

open Library

/-! ### The event system -/

/-- A process queue with the history that the properties of orderly delivery speak about. -/
structure OrderlyState where
  queue : ProcessQueue
  putOffsets : List ℤ
  committed : List ℤ
  /-- The batches taken and neither committed nor returned, the last one first. -/
  batches : List (List MessageExt)
  deriving DecidableEq

/-- The operations of orderly consumption on one process queue. -/
inductive OrderlyEvent where
  | putMessage (msgs : List MessageExt)
  | takeMessags (batchSize : ℤ)
  | commit
  | rollback
  | makeMessageToCosumeAgain
  deriving DecidableEq

namespace OrderlyState

/-- A new queue before any message is put. -/
def initial (now : ℤ) : OrderlyState where
  queue := ProcessQueue.new now
  putOffsets := []
  committed := []
  batches := []

/-- The guarantee of the broker on a batch: its offsets increase and lie above all offsets put
before. -/
def Admissible (putOffsets : List ℤ) (msgs : List MessageExt) : Prop :=
  (putOffsets ++ msgs.map MessageExt.queueOffset).Pairwise (· < ·)

instance (putOffsets : List ℤ) (msgs : List MessageExt) : Decidable (Admissible putOffsets msgs) :=
  inferInstanceAs (Decidable (List.Pairwise _ _))

/-- One operation on the queue. -/
def step (state : OrderlyState) : OrderlyEvent → Option OrderlyState
  | .putMessage msgs =>
    if Admissible state.putOffsets msgs then
      some { state with
        queue := (state.queue.putMessage msgs).2
        putOffsets := state.putOffsets ++ msgs.map MessageExt.queueOffset }
    else none
  | .takeMessags batchSize =>
    if 1 ≤ batchSize then
      some { state with
        queue := (state.queue.takeMessags batchSize).2
        batches := (state.queue.takeMessags batchSize).1 :: state.batches }
    else none
  | .commit =>
    some { state with
      queue := state.queue.commit.2
      committed := state.committed ++ state.queue.msgTreeMapTemp.keys
      batches := [] }
  | .rollback =>
    some { state with queue := state.queue.rollback, batches := [] }
  | .makeMessageToCosumeAgain =>
    match state.batches with
    | [] => none
    | batch :: older =>
      some { state with
        queue := state.queue.makeMessageToCosumeAgain batch
        batches := older }

end OrderlyState

/-- Orderly consumption of one process queue. -/
def orderlySystem : EventSystem OrderlyState OrderlyEvent := ⟨OrderlyState.step⟩

/-! ### The invariant -/

/-- The offsets put are those committed, those taken and those waiting, in this order, and the
messages taken are those of the outstanding batches. -/
structure OrderlyInvariant (state : OrderlyState) : Prop where
  increasing : state.putOffsets.Pairwise (· < ·)
  conserved : state.putOffsets =
    state.committed ++ (state.queue.msgTreeMapTemp.keys ++ state.queue.msgTreeMap.keys)
  keyed : ∀ entry ∈ state.queue.msgTreeMapTemp.entries ++ state.queue.msgTreeMap.entries,
    entry.2.queueOffset = entry.1
  outstanding : state.queue.msgTreeMapTemp.values = state.batches.reverse.flatten

namespace OrderlyInvariant

variable {state : OrderlyState}

/-- The entries taken and the entries waiting are one list in increasing order. -/
theorem held_sorted (hinvariant : OrderlyInvariant state) :
    (state.queue.msgTreeMapTemp.entries ++ state.queue.msgTreeMap.entries).Pairwise
      fun earlier later ↦ earlier.1 < later.1 := by
  have hincreasing := hinvariant.increasing
  rw [hinvariant.conserved, List.pairwise_append] at hincreasing
  have hheld := hincreasing.2.1
  rw [OrderedMap.keys, OrderedMap.keys, ← List.map_append] at hheld
  exact List.pairwise_map.mp hheld

/-- Every offset taken is below every offset waiting. -/
theorem taken_lt_waiting (hinvariant : OrderlyInvariant state) {taken waiting : ℤ}
    (htaken : taken ∈ state.queue.msgTreeMapTemp) (hwaiting : waiting ∈ state.queue.msgTreeMap) :
    taken < waiting := by
  obtain ⟨first, hfirst, rfl⟩ := OrderedMap.mem_iff.mp htaken
  obtain ⟨second, hsecond, rfl⟩ := OrderedMap.mem_iff.mp hwaiting
  exact (List.pairwise_append.mp hinvariant.held_sorted).2.2 first hfirst second hsecond

/-- Every offset committed is below every offset held. -/
theorem committed_lt_held (hinvariant : OrderlyInvariant state) {offset held : ℤ}
    (hoffset : offset ∈ state.committed)
    (hheld : held ∈ state.queue.msgTreeMapTemp ∨ held ∈ state.queue.msgTreeMap) :
    offset < held := by
  have hincreasing := hinvariant.increasing
  rw [hinvariant.conserved, List.pairwise_append] at hincreasing
  exact hincreasing.2.2 offset hoffset held (List.mem_append.mpr hheld)

/-- An operation that only moves entries between the two maps, in their order, keeps the
invariant once the batches are accounted for. -/
theorem of_held_entries {next : OrderlyState} (hinvariant : OrderlyInvariant state)
    (hput : next.putOffsets = state.putOffsets) (hcommitted : next.committed = state.committed)
    (hheld : next.queue.msgTreeMapTemp.entries ++ next.queue.msgTreeMap.entries =
      state.queue.msgTreeMapTemp.entries ++ state.queue.msgTreeMap.entries)
    (houtstanding : next.queue.msgTreeMapTemp.values = next.batches.reverse.flatten) :
    OrderlyInvariant next := by
  have hkeys := congrArg (List.map Prod.fst) hheld
  rw [List.map_append, List.map_append] at hkeys
  refine ⟨?_, ?_, ?_, houtstanding⟩
  · rw [hput]
    exact hinvariant.increasing
  · rw [hput, hcommitted]
    exact hinvariant.conserved.trans (congrArg (state.committed ++ ·) hkeys.symm)
  · rw [hheld]
    exact hinvariant.keyed

end OrderlyInvariant

theorem orderlyInvariant_initial (now : ℤ) : OrderlyInvariant (OrderlyState.initial now) where
  increasing := List.Pairwise.nil
  conserved := rfl
  keyed := by simp [OrderlyState.initial, ProcessQueue.new, OrderedMap.empty]
  outstanding := rfl

/-! ### One operation -/

section Steps

variable {state next : OrderlyState}

theorem orderlyInvariant_putMessage {msgs : List MessageExt} (hinvariant : OrderlyInvariant state)
    (hstep : state.step (.putMessage msgs) = some next) : OrderlyInvariant next := by
  simp only [OrderlyState.step, Option.ite_none_right_eq_some, Option.some.injEq] at hstep
  obtain ⟨hincreasing, rfl⟩ := hstep
  have hpairs : (state.queue.msgTreeMap.entries ++
      msgs.map fun msg ↦ (msg.queueOffset, msg)).Pairwise
        fun earlier later ↦ earlier.1 < later.1 := by
    have hheld := hincreasing
    rw [OrderlyState.Admissible, hinvariant.conserved, List.append_assoc, List.pairwise_append,
      List.append_assoc, List.pairwise_append] at hheld
    have hwaiting := hheld.2.1.2.1
    refine List.pairwise_map.mp ?_
    rw [List.map_append, List.map_map]
    exact hwaiting
  have hentries : (state.queue.putMessage msgs).2.msgTreeMap.entries =
      state.queue.msgTreeMap.entries ++ msgs.map fun msg ↦ (msg.queueOffset, msg) := by
    rw [ProcessQueue.putMessage_msgTreeMap, OrderedMap.assignAll_eq_assignPairs,
      OrderedMap.entries_assignPairs_above hpairs]
  have hkeys : (state.queue.putMessage msgs).2.msgTreeMap.keys =
      state.queue.msgTreeMap.keys ++ msgs.map MessageExt.queueOffset := by
    rw [OrderedMap.keys, hentries, List.map_append, List.map_map]
    rfl
  refine ⟨hincreasing, ?_, ?_, ?_⟩
  · dsimp only
    rw [hkeys, ProcessQueue.putMessage_msgTreeMapTemp, hinvariant.conserved]
    simp only [List.append_assoc]
  · dsimp only
    rw [hentries, ProcessQueue.putMessage_msgTreeMapTemp, ← List.append_assoc]
    intro entry hentry
    rcases List.mem_append.mp hentry with hbefore | hnew
    · exact hinvariant.keyed entry hbefore
    · obtain ⟨msg, -, rfl⟩ := List.mem_map.mp hnew
      rfl
  · dsimp only
    rw [ProcessQueue.putMessage_msgTreeMapTemp]
    exact hinvariant.outstanding

/-- A take moves the first waiting entries behind the entries taken. -/
theorem takeMessags_entries (hinvariant : OrderlyInvariant state) (batchSize : ℤ) :
    (state.queue.takeMessags batchSize).2.msgTreeMapTemp.entries =
      state.queue.msgTreeMapTemp.entries ++
        state.queue.msgTreeMap.entries.take batchSize.toNat := by
  rw [ProcessQueue.takeMessags_msgTreeMapTemp]
  refine OrderedMap.entries_assignPairs_above (hinvariant.held_sorted.sublist ?_)
  exact (List.Sublist.refl _).append (List.take_sublist _ _)

theorem orderlyInvariant_takeMessags {batchSize : ℤ} (hinvariant : OrderlyInvariant state)
    (hstep : state.step (.takeMessags batchSize) = some next) : OrderlyInvariant next := by
  simp only [OrderlyState.step, Option.ite_none_right_eq_some, Option.some.injEq] at hstep
  obtain ⟨-, rfl⟩ := hstep
  have htaken := takeMessags_entries hinvariant batchSize
  have hsame : (state.queue.takeMessags batchSize).2.msgTreeMapTemp.entries ++
      (state.queue.takeMessags batchSize).2.msgTreeMap.entries =
        state.queue.msgTreeMapTemp.entries ++ state.queue.msgTreeMap.entries := by
    rw [htaken, ProcessQueue.takeMessags_msgTreeMap, OrderedMap.entries_dropFirst,
      List.append_assoc, List.take_append_drop]
  refine hinvariant.of_held_entries rfl rfl hsame ?_
  dsimp only
  rw [OrderedMap.values, htaken, List.map_append, List.reverse_cons, List.flatten_append,
    ← hinvariant.outstanding, ProcessQueue.takeMessags_result]
  simp [OrderedMap.values]

theorem orderlyInvariant_commit (hinvariant : OrderlyInvariant state)
    (hstep : state.step .commit = some next) : OrderlyInvariant next := by
  obtain rfl := Option.some.inj hstep
  obtain ⟨-, htemp, htree⟩ := state.queue.commit_eq
  refine ⟨hinvariant.increasing, ?_, ?_, ?_⟩
  · dsimp only
    rw [htemp, htree, hinvariant.conserved, List.append_assoc]
    rfl
  · dsimp only
    rw [htemp, htree]
    intro entry hentry
    exact hinvariant.keyed entry (List.mem_append_right _ hentry)
  · dsimp only
    rw [htemp]
    rfl

theorem orderlyInvariant_rollback (hinvariant : OrderlyInvariant state)
    (hstep : state.step .rollback = some next) : OrderlyInvariant next := by
  obtain rfl := Option.some.inj hstep
  have hentries : state.queue.rollback.msgTreeMap.entries =
      state.queue.msgTreeMapTemp.entries ++ state.queue.msgTreeMap.entries :=
    OrderedMap.entries_assignPairs_below hinvariant.held_sorted
  exact hinvariant.of_held_entries rfl rfl hentries rfl

/-- Returning the last batch moves the last entries taken before the entries waiting. -/
theorem makeMessageToCosumeAgain_entries {batch : List MessageExt}
    {earlier last : List (ℤ × MessageExt)} (hinvariant : OrderlyInvariant state)
    (hentries : state.queue.msgTreeMapTemp.entries = earlier ++ last)
    (hbatch : last.map Prod.snd = batch) :
    (state.queue.makeMessageToCosumeAgain batch).msgTreeMapTemp.entries = earlier ∧
      (state.queue.makeMessageToCosumeAgain batch).msgTreeMap.entries =
        last ++ state.queue.msgTreeMap.entries := by
  have hkeyed : ∀ entry ∈ last, entry.2.queueOffset = entry.1 := by
    intro entry hentry
    refine hinvariant.keyed entry (List.mem_append_left _ ?_)
    rw [hentries]
    exact List.mem_append_right earlier hentry
  have hoffsets : batch.map MessageExt.queueOffset = last.map Prod.fst := by
    rw [← hbatch, List.map_map]
    exact List.map_congr_left hkeyed
  have hpairs : (batch.map fun msg ↦ (msg.queueOffset, msg)) = last := by
    rw [← hbatch, List.map_map]
    refine (List.map_congr_left fun entry hentry ↦ ?_).trans (List.map_id last)
    exact Prod.ext (hkeyed entry hentry) rfl
  have hsorted := hinvariant.held_sorted
  rw [hentries, List.append_assoc, List.pairwise_append] at hsorted
  rw [ProcessQueue.makeMessageToCosumeAgain_eq]
  dsimp only
  rw [hoffsets, OrderedMap.assignAll_eq_assignPairs, hpairs]
  exact ⟨OrderedMap.entries_eraseAll_last hentries,
    OrderedMap.entries_assignPairs_below hsorted.2.1⟩

theorem orderlyInvariant_makeMessageToCosumeAgain (hinvariant : OrderlyInvariant state)
    (hstep : state.step .makeMessageToCosumeAgain = some next) : OrderlyInvariant next := by
  unfold OrderlyState.step at hstep
  cases hbatches : state.batches with
  | nil =>
    simp only [hbatches] at hstep
    exact absurd hstep (by simp)
  | cons batch older =>
    simp only [hbatches] at hstep
    obtain rfl := Option.some.inj hstep
    have houtstanding := hinvariant.outstanding
    rw [hbatches, List.reverse_cons, List.flatten_append, OrderedMap.values,
      List.map_eq_append_iff] at houtstanding
    obtain ⟨earlier, last, hentries, hearlier, hlast⟩ := houtstanding
    rw [List.flatten_singleton] at hlast
    obtain ⟨htemp, htree⟩ := makeMessageToCosumeAgain_entries hinvariant hentries hlast
    have hsame : (state.queue.makeMessageToCosumeAgain batch).msgTreeMapTemp.entries ++
        (state.queue.makeMessageToCosumeAgain batch).msgTreeMap.entries =
          state.queue.msgTreeMapTemp.entries ++ state.queue.msgTreeMap.entries := by
      rw [htemp, htree, hentries, List.append_assoc]
    refine hinvariant.of_held_entries rfl rfl hsame ?_
    dsimp only
    rw [OrderedMap.values, htemp]
    exact hearlier

end Steps

/-- Every operation keeps the invariant. -/
theorem orderlyInvariant_step (state : OrderlyState) (event : OrderlyEvent) (next : OrderlyState)
    (hstep : orderlySystem.step state event = some next) (hinvariant : OrderlyInvariant state) :
    OrderlyInvariant next := by
  cases event with
  | putMessage msgs => exact orderlyInvariant_putMessage hinvariant hstep
  | takeMessags batchSize => exact orderlyInvariant_takeMessags hinvariant hstep
  | commit => exact orderlyInvariant_commit hinvariant hstep
  | rollback => exact orderlyInvariant_rollback hinvariant hstep
  | makeMessageToCosumeAgain =>
    exact orderlyInvariant_makeMessageToCosumeAgain hinvariant hstep

/-- The invariant holds after every run from a new queue. -/
theorem orderlyInvariant_of_run {now : ℤ} {events : List OrderlyEvent} {state : OrderlyState}
    (hrun : orderlySystem.run (OrderlyState.initial now) events = some state) :
    OrderlyInvariant state :=
  EventSystem.run_invariant orderlyInvariant_step hrun (orderlyInvariant_initial now)

/-! ### What takes and commits return -/

/-- A take returns the smallest waiting offsets. -/
theorem takeMessags_offsets {state : OrderlyState} (hinvariant : OrderlyInvariant state)
    (batchSize : ℤ) :
    (state.queue.takeMessags batchSize).1.map MessageExt.queueOffset =
      state.queue.msgTreeMap.keys.take batchSize.toNat := by
  rw [ProcessQueue.takeMessags_result, List.map_map, OrderedMap.keys, ← List.map_take]
  refine List.map_congr_left fun entry hentry ↦ ?_
  exact hinvariant.keyed entry (List.mem_append_right _ (List.mem_of_mem_take hentry))

/-- The offset after each of these offsets is one too, and is not the `-1` that a commit of nothing
returns. The offsets of a broker, which count the messages of a queue from zero, are such. -/
def HaveNextOffset (offsets : List ℤ) : Prop :=
  ∀ offset ∈ offsets, -9223372036854775808 ≤ offset ∧ offset < 9223372036854775807 ∧ offset ≠ -2

instance (offsets : List ℤ) : Decidable (HaveNextOffset offsets) :=
  inferInstanceAs (Decidable (∀ _ ∈ _, _))

/-- The offsets of a broker have a next one. -/
theorem haveNextOffset_of_broker {offsets : List ℤ}
    (hoffsets : ∀ offset ∈ offsets, 0 ≤ offset ∧ offset < 9223372036854775807) :
    HaveNextOffset offsets := by
  intro offset hoffset
  obtain ⟨hnonneg, hbound⟩ := hoffsets offset hoffset
  omega

/-- A commit returns the offset after the last one, when there is one. -/
theorem commit_of_last {state : OrderlyState} {last : ℤ × MessageExt}
    (hoffsets : HaveNextOffset state.queue.msgTreeMapTemp.keys)
    (hlast : state.queue.msgTreeMapTemp.last? = some last) :
    state.queue.commit.1 = last.1 + 1 ∧ last.1 + 1 ≠ -1 := by
  obtain ⟨hlower, hupper, hnext⟩ := hoffsets last.1 (OrderedMap.mem_of_last? hlast)
  rw [state.queue.commit_eq.1, hlast]
  exact ⟨toInt64_eq_self (by omega) (by omega), by omega⟩

/-- A commit returns no offset exactly when nothing is taken. -/
theorem commit_eq_neg_one_iff {state : OrderlyState}
    (hoffsets : HaveNextOffset state.queue.msgTreeMapTemp.keys) :
    state.queue.commit.1 = -1 ↔ state.queue.msgTreeMapTemp.isEmpty = true := by
  rw [← OrderedMap.last?_eq_none]
  cases hlast : state.queue.msgTreeMapTemp.last? with
  | none => simp [state.queue.commit_eq.1, hlast]
  | some last =>
    obtain ⟨hresult, hnext⟩ := commit_of_last hoffsets hlast
    rw [hresult]
    constructor
    · intro hnone
      exact absurd hnone hnext
    · intro hnone
      exact absurd hnone (Option.some_ne_none last)

/-- A commit returns an offset above all offsets committed and taken, and not above an offset that
is still waiting. -/
theorem commit_between {state : OrderlyState} (hinvariant : OrderlyInvariant state)
    (hoffsets : HaveNextOffset state.queue.msgTreeMapTemp.keys)
    (htaken : state.queue.msgTreeMapTemp.isEmpty = false) :
    (∀ offset ∈ state.committed ++ state.queue.msgTreeMapTemp.keys,
        offset < state.queue.commit.1) ∧
      ∀ waiting ∈ state.queue.msgTreeMap, state.queue.commit.1 ≤ waiting := by
  cases hlast : state.queue.msgTreeMapTemp.last? with
  | none =>
    rw [OrderedMap.last?_eq_none.mp hlast] at htaken
    exact absurd htaken (by decide)
  | some last =>
    have hmem := OrderedMap.mem_of_last? hlast
    rw [(commit_of_last hoffsets hlast).1]
    constructor
    · intro offset hoffset
      rcases List.mem_append.mp hoffset with hcommitted | hkey
      · have := hinvariant.committed_lt_held hcommitted (Or.inl hmem)
        omega
      · have := OrderedMap.le_last? hlast hkey
        omega
    · intro waiting hwaiting
      have := hinvariant.taken_lt_waiting hmem hwaiting
      omega

/-- In every state that orderly consumption of a queue reaches: taken offsets are below waiting
ones; a take returns the smallest waiting offsets, in increasing order and as many as asked for or
as there are; a commit of offsets that have a next one returns `-1` exactly when nothing is taken,
and otherwise an offset above everything committed with it or before and not above anything still
held; and the offsets put are, disjointly, those committed, those taken and those waiting. -/
theorem orderly_delivery_and_commit {now : ℤ} {events : List OrderlyEvent} {state : OrderlyState}
    (hrun : orderlySystem.run (OrderlyState.initial now) events = some state) :
    (∀ taken ∈ state.queue.msgTreeMapTemp, ∀ waiting ∈ state.queue.msgTreeMap, taken < waiting) ∧
      (∀ batchSize : ℤ, 1 ≤ batchSize →
        (state.queue.takeMessags batchSize).1.map MessageExt.queueOffset =
            state.queue.msgTreeMap.keys.take batchSize.toNat ∧
          ((state.queue.takeMessags batchSize).1.length : ℤ) =
            min batchSize state.queue.msgTreeMap.size ∧
          state.queue.msgTreeMap.keys.Pairwise (· < ·)) ∧
      (HaveNextOffset state.queue.msgTreeMapTemp.keys →
        (state.queue.commit.1 = -1 ↔ state.queue.msgTreeMapTemp.isEmpty = true) ∧
        (state.queue.msgTreeMapTemp.isEmpty = false →
          (∀ offset ∈ state.committed ++ state.queue.msgTreeMapTemp.keys,
              offset < state.queue.commit.1) ∧
            ∀ held, held ∈ state.queue.commit.2.msgTreeMapTemp ∨
                held ∈ state.queue.commit.2.msgTreeMap → state.queue.commit.1 ≤ held)) ∧
      state.putOffsets.Nodup ∧
      state.putOffsets.Perm
        (state.committed ++ state.queue.msgTreeMapTemp.keys ++ state.queue.msgTreeMap.keys) := by
  have hinvariant := orderlyInvariant_of_run hrun
  obtain ⟨-, htemp, htree⟩ := state.queue.commit_eq
  refine ⟨fun taken htaken waiting hwaiting ↦ hinvariant.taken_lt_waiting htaken hwaiting, ?_,
    fun hoffsets ↦ ⟨commit_eq_neg_one_iff hoffsets, ?_⟩, ?_, ?_⟩
  · intro batchSize hsize
    refine ⟨takeMessags_offsets hinvariant batchSize, ?_,
      List.pairwise_map.mpr state.queue.msgTreeMap.sorted⟩
    rw [ProcessQueue.takeMessags_result, List.length_map, List.length_take, OrderedMap.size]
    omega
  · intro htaken
    obtain ⟨habove, hbelow⟩ := commit_between hinvariant hoffsets htaken
    refine ⟨habove, fun held hheld ↦ ?_⟩
    rw [htemp, htree] at hheld
    rcases hheld with hnone | hwaiting
    · exact absurd hnone (OrderedMap.not_mem_empty held)
    · exact hbelow held hwaiting
  · exact hinvariant.increasing.imp fun hlt ↦ hlt.ne
  · rw [List.append_assoc, ← hinvariant.conserved]

/-- Three messages put, two taken one by one, the second returned, the first committed. -/
def commitOfThree : List OrderlyEvent :=
  [.putMessage [⟨0, 5⟩, ⟨1, 6⟩, ⟨2, 8⟩], .takeMessags 1, .takeMessags 1,
    .makeMessageToCosumeAgain, .commit, .takeMessags 2]

/-- The next batch has the other two messages, and its commit returns the offset after them. -/
theorem orderly_delivery_and_commit_of_three :
    ∃ state, orderlySystem.run (OrderlyState.initial 0) commitOfThree = some state ∧
      state.committed = [5] ∧ state.queue.msgTreeMapTemp.keys = [6, 8] ∧
      (∀ offset ∈ [5, 6, 8], offset < state.queue.commit.1) ∧
      state.putOffsets.Perm
        (state.committed ++ state.queue.msgTreeMapTemp.keys ++ state.queue.msgTreeMap.keys) := by
  have hkeys : (orderlySystem.run (OrderlyState.initial 0) commitOfThree).map (fun state ↦
      (state.committed, state.queue.msgTreeMapTemp.keys, state.queue.msgTreeMapTemp.isEmpty)) =
        some ([5], [6, 8], false) := by decide
  obtain ⟨state, hrun, hstate⟩ := Option.map_eq_some_iff.mp hkeys
  obtain ⟨hcommitted, htaken, hempty⟩ : state.committed = [5] ∧
      state.queue.msgTreeMapTemp.keys = [6, 8] ∧ state.queue.msgTreeMapTemp.isEmpty = false := by
    simpa using hstate
  obtain ⟨-, -, hcommit, -, hperm⟩ := orderly_delivery_and_commit hrun
  have hoffsets := @haveNextOffset_of_broker state.queue.msgTreeMapTemp.keys (by
    rw [htaken]
    decide)
  have hbetween := ((hcommit hoffsets).2 hempty).1
  rw [hcommitted, htaken] at hbetween
  exact ⟨state, hrun, hcommitted, htaken, hbetween, hperm⟩

/-- A commit of the offset `-2` returns what a commit of nothing returns, and the offset after the
largest one is the smallest. -/
theorem commit_of_negative_offset :
    (∃ state, orderlySystem.run (OrderlyState.initial 0)
        [.putMessage [⟨0, -2⟩], .takeMessags 1] = some state ∧
      state.queue.commit.1 = -1 ∧ state.queue.msgTreeMapTemp.isEmpty = false) ∧
    ∃ state, orderlySystem.run (OrderlyState.initial 0)
        [.putMessage [⟨0, 9223372036854775807⟩], .takeMessags 1] = some state ∧
      9223372036854775807 ∈ state.queue.msgTreeMapTemp.keys ∧
      state.queue.commit.1 = -9223372036854775808 :=
  ⟨⟨_, rfl, by decide, by decide⟩, ⟨_, rfl, by decide, by decide⟩⟩

end RocketMQClient.Consumer
