import RocketMQClient.Common.MQFileUtil
import RocketMQClient.Consumer.OffsetSerialization

/-!
# The offset file across crashes

In broadcasting mode `persistAll` writes the offsets of its queues with `SafeWriteFile`, every few
seconds and at shutdown, and a process may crash in the middle of it. `load_after_crash` says what
the next process loads: the offsets of the last `persistAll` that moved its file, whatever the calls
after it had done when they ended, and what an earlier process had left when there was none. The
runs are those of `safeWriteSystem` in which calls do not overlap and `fwrite` writes the whole
text.

The result of `fwrite` is not looked at. When the disk is full a part of the text takes the place of
the file, and the next process loads no offset at all (`load_of_short_write`); the backup that
`SafeWriteFile` has made is never read.
-/

set_option autoImplicit false
set_option relaxedAutoImplicit false

namespace RocketMQClient.Consumer

open Library Messages Common

/-- The arguments of a call of `persistAll` that has queues to persist; the ids of the table and of
the queues fit. -/
structure PersistCall where
  offsetTable : LocalOffsetTable
  mqs : LocalQueueSet
  tableFits : offsetTable.Fits
  mqsFit : MessageQueue.SeenFit mqs.queues

namespace PersistCall

/-- The table that the call collects. -/
def collected (rebalancing : Rebalancing) (call : PersistCall) : OffsetTree :=
  LocalFileOffsetStore.collect rebalancing call.offsetTable.tree call.mqs.tree

/-- The content that the call hands to `SafeWriteFile`. -/
def content (rebalancing : Rebalancing) (json : Json) (call : PersistCall) : ByteString :=
  OffsetSerializeWrapper.encode json (call.collected rebalancing)

/-- A new process that finds the content of a call reads it whole. -/
def Fits (rebalancing : Rebalancing) (json : Json) (call : PersistCall) : Prop :=
  (json.writeValue (OffsetSerializeWrapper.encodeValue
    (call.collected rebalancing).toList)).length ≤ LocalFileOffsetStore.maxFileSize

instance (rebalancing : Rebalancing) (json : Json) (call : PersistCall) :
    Decidable (call.Fits rebalancing json) :=
  inferInstanceAs (Decidable (_ ≤ _))

/-- The JSON library reads back what the call writes. -/
def ReadsBack (rebalancing : Rebalancing) (json : Json) (call : PersistCall) : Prop :=
  json.ReadsBack (OffsetSerializeWrapper.encodeValue (call.collected rebalancing).toList)

variable {rebalancing : Rebalancing} {json : Json} {call : PersistCall}

/-- The content is what `persistAll` leaves in the file. -/
theorem content_eq (hqueues : call.mqs.tree.toList ≠ []) (file : Option ByteString) :
    some (call.content rebalancing json) = LocalFileOffsetStore.persistAll rebalancing json
      call.offsetTable.tree call.mqs.tree file := by
  have hsome : call.mqs.tree.toList.isEmpty = false :=
    Bool.eq_false_iff.mpr fun hempty ↦ hqueues (List.isEmpty_iff.mp hempty)
  rw [LocalFileOffsetStore.persistAll, hsome]
  rfl

theorem load_content (hread : call.ReadsBack rebalancing json)
    (hfits : call.Fits rebalancing json) :
    (LocalFileOffsetStore.load rebalancing json (some (call.content rebalancing json))).toList =
      (call.collected rebalancing).toList.map readEntry := by
  have hordered := (@LocalFileOffsetStore.collect_eq rebalancing call.mqs call.offsetTable
    call.mqsFit).2
  exact (LocalFileOffsetStore.load_encode hordered hread).trans (if_pos hfits)

/-- A part of the text without its end is no JSON, and nothing is loaded. -/
theorem load_of_short_write (hread : call.ReadsBack rebalancing json) {count : ℕ}
    (hcount : count < (json.writeValue (OffsetSerializeWrapper.encodeValue
      (call.collected rebalancing).toList)).length) :
    LocalFileOffsetStore.load rebalancing json
      (some ((call.content rebalancing json).take count)) = .leaf := by
  have htaken : ((call.content rebalancing json).take count).take
      LocalFileOffsetStore.maxFileSize =
        (json.writeValue (OffsetSerializeWrapper.encodeValue
          (call.collected rebalancing).toList)).take
            (min LocalFileOffsetStore.maxFileSize count) := by
    rw [List.take_take, content, OffsetSerializeWrapper.encode, Json.write,
      List.take_append_of_le_length ((Nat.min_le_right _ _).trans hcount.le)]
  have hshort := hread.parse_take _ ((Nat.min_le_right LocalFileOffsetStore.maxFileSize _).trans_lt
    hcount)
  rw [LocalFileOffsetStore.load, LocalFileOffsetStore.readWholeFile_eq, htaken,
    OffsetSerializeWrapper.decode, hshort]
  rfl

end PersistCall

open SafeWriteState

/-- Assumes: the JSON library reads back the values that are written. In every run of `persistAll`
calls that do not overlap and whose text is written whole, wherever processes crash: the next
process loads the entries of the last call that moved its file, when the text is at most ten
mebibytes long, so it finds every queue of that call whose offset is an `int` with its offset; and
it loads what it would have loaded before, while no call has moved its file. -/
theorem load_after_crash {Writer : Type*} [DecidableEq Writer] {file : SafeFile}
    {rebalancing : Rebalancing} {json : Json} {calls : Writer → PersistCall}
    {disk : FileSystem ByteString Byte} {events : List (SafeWriteEvent Writer)}
    {state : SafeWriteState Writer}
    (hread : ∀ writer, (calls writer).ReadsBack rebalancing json)
    (halong : (safeWriteSystem file fun writer ↦ (calls writer).content rebalancing json).Along
      (Orderly fun writer ↦ (calls writer).content rebalancing json) (start disk) events)
    (hrun : (safeWriteSystem file fun writer ↦ (calls writer).content rebalancing json).run
      (start disk) events = some state) :
    (state.renamed = [] →
        LocalFileOffsetStore.load rebalancing json (state.disk.read file.filename) =
          LocalFileOffsetStore.load rebalancing json (disk.read file.filename)) ∧
      ∀ writer, state.renamed.getLast? = some writer → (calls writer).Fits rebalancing json →
        (LocalFileOffsetStore.load rebalancing json (state.disk.read file.filename)).toList =
            ((calls writer).collected rebalancing).toList.map readEntry ∧
          ∀ queue ∈ (calls writer).mqs.tree.toList, ∀ entry,
            (calls writer).offsetTable.tree.find queue = some entry → entry.2 ≤ 2147483647 →
            ((LocalFileOffsetStore.load rebalancing json
              (state.disk.read file.filename)).find queue).map Prod.snd = some entry.2 := by
  have hcurrent := (whole_run halong hrun).current
  refine ⟨fun hnone ↦ ?_, fun writer hlast hfits ↦ ?_⟩
  · rw [hcurrent, published, hnone]
    rfl
  · have hload : (LocalFileOffsetStore.load rebalancing json
        (state.disk.read file.filename)).toList =
          ((calls writer).collected rebalancing).toList.map readEntry := by
      rw [hcurrent, published, hlast]
      exact PersistCall.load_content (hread writer) hfits
    refine ⟨hload, fun queue hqueue entry hentry hint ↦ ?_⟩
    exact (LocalFileOffsetStore.offset_read_iff (calls writer).tableFits (calls writer).mqsFit
      hload hqueue hentry).mpr hint

/-- The offsets of two queues. -/
def persistTwo : PersistCall := ⟨twoOffsets, bothQueues, seenFit_routed, seenFit_routed⟩

/-- The call `false` ends, and the process crashes in the call `true`. -/
def persistAndCrash : List (SafeWriteEvent Bool) :=
  [.call false true, .proceed false true 0, .proceed false true 0, .proceed false true 200,
    .proceed false false 0, .proceed false true 0, .call true true, .proceed true true 3,
    .proceed true true 0, .proceed true true 5, .crash true]

theorem load_after_crash_two :
    ∃ state, (safeWriteSystem directoryFile
        fun _ : Bool ↦ persistTwo.content .none jsonOfTwo).run (start FileSystem.empty)
          persistAndCrash = some state ∧
      (LocalFileOffsetStore.load .none jsonOfTwo (state.disk.read directoryFile.filename)).toList =
        [(queueOfBroker 0, 7), (queueOfBroker 1, 2147483647)] := by
  obtain ⟨state, hrun, hlast⟩ := Option.map_eq_some_iff.mp (show
    ((safeWriteSystem directoryFile fun _ : Bool ↦ persistTwo.content .none jsonOfTwo).run
      (start FileSystem.empty) persistAndCrash).map (fun state ↦ state.renamed.getLast?) =
        some (some false) by decide +kernel)
  refine ⟨state, hrun, ?_⟩
  rw [((@load_after_crash Bool _ directoryFile .none jsonOfTwo (fun _ ↦ persistTwo)
    FileSystem.empty persistAndCrash state (fun _ ↦ jsonOf_readsBack _ _) (by decide +kernel)
      hrun).2 false hlast (by decide +kernel)).1]
  decide

end RocketMQClient.Consumer
