import RocketMQClient.Common.FilterAPI
import RocketMQClient.Common.VirtualEnvUtil
import RocketMQClient.Consumer.PullRequest
import RocketMQClient.Library.Decimal
import RocketMQClient.Messages.MessageDecoder
import RocketMQClient.Messages.MessageQueueMap

/-!
# Filtering pulled messages by their tags

`processPullResult` decodes the messages of a response and filters them again: a loop over the list
of the decoded messages erases those whose tag is one of the subscription and puts them into a
second list, unless the subscription has no tags. The second list gets the offsets of the queue as
properties and becomes the result; what is left of the first list is deleted.

A decoded message is known by its address, and its tag is the value of its property `TAGS`
(`IsFor`). `FilterExact` says that the result has the messages that the expression selects, in their
order, and that each other one is deleted (`processPullResult_exact`).
-/

set_option autoImplicit false
set_option relaxedAutoImplicit false

namespace RocketMQClient.Consumer

open Library Messages Transport Common

/-- A message in memory. -/
structure HeapMessage where
  address : ℕ
  message : Messages.MessageExt
  deriving DecidableEq

namespace HeapMessage

def putProperty (msg : HeapMessage) (name value : ByteString) : HeapMessage :=
  { msg with message.properties := msg.message.properties.assign name value }

def setTopic (msg : HeapMessage) (topic : ByteString) : HeapMessage :=
  { msg with message.topic := topic }

def getProperty (msg : HeapMessage) (name : ByteString) : ByteString :=
  (msg.message.properties.find? name).getD []

def getTags (msg : HeapMessage) : ByteString := msg.getProperty (ofString "TAGS")

/-- The loop bodies that put the offsets of the queue into a message. -/
def putOffsets (minOffset maxOffset : BitVec 64) (msg : HeapMessage) : HeapMessage :=
  (msg.putProperty (ofString "MIN_OFFSET") (decimal minOffset.toInt)).putProperty
    (ofString "MAX_OFFSET") (decimal maxOffset.toInt)

end HeapMessage

/-- `PullResultExt` with the list of its messages; the data is freed when it has been decoded. -/
structure PullResult where
  pullStatus : PullStatus
  nextBeginOffset : BitVec 64
  minOffset : BitVec 64
  maxOffset : BitVec 64
  msgFoundList : List HeapMessage
  suggestWhichBrokerId : BitVec 64
  messageBinary : Option ByteString
  deriving DecidableEq

/-- What `processPullResult` reads and writes, with the addresses of the messages that have been
deleted. -/
structure PullProcess where
  pullFromWhichNodeTable : List (MessageQueue × BitVec 64)
  mq : MessageQueue
  pullResult : PullResult
  subscriptionData : SubscriptionData
  deleted : List ℕ
  deriving DecidableEq

namespace PullAPIWrapper

/-- The loop over the decoded messages, of which `kept` are behind it: a message with one of the
tags is erased and put into the second list. -/
def filterAgain (tags : OrderedSet ByteString) :
    List HeapMessage → List HeapMessage → List HeapMessage → List HeapMessage × List HeapMessage
  | kept, [], msgListFilterAgain => (kept, msgListFilterAgain)
  | kept, msg :: rest, msgListFilterAgain =>
    if msg.getTags ≠ [] then
      if msg.getTags ∈ tags then filterAgain tags kept rest (msgListFilterAgain ++ [msg])
      else filterAgain tags (kept ++ [msg]) rest msgListFilterAgain
    else filterAgain tags (kept ++ [msg]) rest msgListFilterAgain

/-- The two lists behind the filter. -/
def filterTags (subscriptionData : SubscriptionData) (msgList : List HeapMessage) :
    List HeapMessage × List HeapMessage :=
  if subscriptionData.tagsSet.isEmpty = false then
    filterAgain subscriptionData.tagsSet [] msgList []
  else ([], msgList)

/-- The value of a queue is set, or an entry is added. -/
def updatePullFromWhichNode (table : List (MessageQueue × BitVec 64)) (mq : MessageQueue)
    (brokerId : BitVec 64) : List (MessageQueue × BitVec 64) :=
  assignEntry (mq, brokerId) table

/-- Processes the result of a pull, where `decodes` returns the messages of the data. -/
def processPullResult (decodes : Option ByteString → List HeapMessage)
    (projectGroupPrefix : ByteString) (state : PullProcess) : PullProcess :=
  let pullResult := state.pullResult
  let table := updatePullFromWhichNode state.pullFromWhichNodeTable state.mq
    pullResult.suggestWhichBrokerId
  let state := { state with pullFromWhichNodeTable := table }
  if pullResult.pullStatus = .found then
    let filtered := filterTags state.subscriptionData (decodes pullResult.messageBinary)
    let putOffsets := HeapMessage.putOffsets pullResult.minOffset pullResult.maxOffset
    let clear := fun origin ↦ VirtualEnvUtil.clearProjectGroup origin projectGroupPrefix
    let blank := isBlank projectGroupPrefix
    let msgListFilterAgain :=
      if blank = false then
        filtered.2.map fun msg ↦ putOffsets (msg.setTopic (clear msg.message.topic))
      else filtered.2.map putOffsets
    { state with
      mq := if blank = false then { state.mq with topic := clear state.mq.topic } else state.mq
      subscriptionData :=
        if blank = false then
          { state.subscriptionData with topic := clear state.subscriptionData.topic }
        else state.subscriptionData
      pullResult :=
        { pullResult with
          msgFoundList := pullResult.msgFoundList ++ msgListFilterAgain
          messageBinary := none }
      deleted := state.deleted ++ filtered.1.map HeapMessage.address }
  else state

end PullAPIWrapper

open PullAPIWrapper

/-- The expression is for a message: for the value of its property `TAGS`, or for an empty tag when
the message has no such property. -/
def IsFor (expression : ByteString) (msg : HeapMessage) : Prop :=
  Selects expression ((msg.message.properties.find? (ofString "TAGS")).getD [])

instance (expression : ByteString) (msg : HeapMessage) : Decidable (IsFor expression msg) :=
  inferInstanceAs (Decidable (Selects _ _))

/-- The result gets the messages that an expression selects, in their order and with the offsets of
the queue, the others are deleted in their order, and every address is accounted for once. -/
structure FilterExact (expression : ByteString) (decoded : List HeapMessage)
    (before after : PullProcess) : Prop where
  found : after.pullResult.msgFoundList = before.pullResult.msgFoundList ++
    (decoded.filter fun msg ↦ IsFor expression msg).map
      (HeapMessage.putOffsets before.pullResult.minOffset before.pullResult.maxOffset)
  released : after.deleted = before.deleted ++
    (decoded.filter fun msg ↦ ¬ IsFor expression msg).map HeapMessage.address
  once : (after.pullResult.msgFoundList.map HeapMessage.address ++ after.deleted).Perm
    (before.pullResult.msgFoundList.map HeapMessage.address ++ before.deleted ++
      decoded.map HeapMessage.address)

/-! ### The filter -/

/-- The loop separates the messages with one of the tags from the others, both in their order. -/
theorem filterAgain_eq (tags : OrderedSet ByteString) (kept rest again : List HeapMessage) :
    filterAgain tags kept rest again =
      (kept ++ rest.filter fun msg ↦ ¬ (msg.getTags ≠ [] ∧ msg.getTags ∈ tags),
        again ++ rest.filter fun msg ↦ msg.getTags ≠ [] ∧ msg.getTags ∈ tags) := by
  induction rest generalizing kept again with
  | nil => simp [filterAgain]
  | cons msg rest ih =>
    unfold filterAgain
    split_ifs with hempty hmem
    · simp [ih, hempty, hmem]
    · simp [ih, hmem]
    · simp [ih, not_not.mp hempty]

section

variable {memory : ℤ} {topic expression : ByteString} {data : SubscriptionData}

/-- No expression names the empty tag. -/
theorem not_mem_tagsSet_nil (hdata : Subscribes memory topic expression data) :
    [] ∉ data.tagsSet := fun hnil ↦ ((hdata.mem_tagsSet []).mp hnil).2.1 rfl

/-- The filter separates the messages that the expression selects from the others. -/
theorem filterTags_eq (hdata : Subscribes memory topic expression data)
    (msgList : List HeapMessage) :
    filterTags data msgList =
      (msgList.filter fun msg ↦ ¬ IsFor expression msg,
        msgList.filter fun msg ↦ IsFor expression msg) := by
  have htag : ∀ msg, IsFor expression msg ↔ Selects expression msg.getTags := fun _ ↦ Iff.rfl
  simp only [htag]
  unfold filterTags
  split_ifs with htags
  · have hselects : ∀ tag, Selects expression tag ↔ tag ≠ [] ∧ tag ∈ data.tagsSet := fun tag ↦ by
      rw [hdata.selects_iff, htags]
      refine ⟨fun hor ↦ ?_, fun hmem ↦ Or.inr hmem.2⟩
      have hmem := hor.resolve_left Bool.false_ne_true
      exact ⟨fun hnil ↦ not_mem_tagsSet_nil hdata (hnil ▸ hmem), hmem⟩
    rw [filterAgain_eq]
    simp only [List.nil_append, hselects]
  · have hall : ∀ tag, Selects expression tag := fun tag ↦
      (hdata.selects_iff tag).mpr (Or.inl (Bool.eq_true_of_not_eq_false htags))
    simp [hall]

end

/-- The filter of a pull is exact, for a client without a project group. -/
theorem processPullResult_exact (decodes : Option ByteString → List HeapMessage) (memory : ℤ)
    (topic expression projectGroupPrefix : ByteString) (state : PullProcess)
    (hblank : isBlank projectGroupPrefix = true)
    (hfound : state.pullResult.pullStatus = .found)
    (hdata : FilterAPI.buildSubscriptionData memory topic expression = .ok state.subscriptionData) :
    FilterExact expression (decodes state.pullResult.messageBinary) state
      (processPullResult decodes projectGroupPrefix state) := by
  obtain ⟨data, hbuild, hsubscribes⟩ :=
    FilterAPI.exists_buildSubscriptionData memory topic expression
  obtain rfl : data = state.subscriptionData := Except.ok.inj (hbuild.symm.trans hdata)
  have hafter : processPullResult decodes projectGroupPrefix state =
      { state with
        pullFromWhichNodeTable := updatePullFromWhichNode state.pullFromWhichNodeTable state.mq
          state.pullResult.suggestWhichBrokerId
        pullResult :=
          { state.pullResult with
            msgFoundList := state.pullResult.msgFoundList ++
              ((decodes state.pullResult.messageBinary).filter fun msg ↦
                IsFor expression msg).map
                  (HeapMessage.putOffsets state.pullResult.minOffset state.pullResult.maxOffset)
            messageBinary := none }
        deleted := state.deleted ++ ((decodes state.pullResult.messageBinary).filter fun msg ↦
          ¬ IsFor expression msg).map HeapMessage.address } := by
    simp [processPullResult, hfound, hblank, filterTags_eq hsubscribes]
  rw [hafter]
  refine ⟨rfl, rfl, ?_⟩
  have hsplit := List.filter_append_perm (fun msg : HeapMessage ↦
    decide (IsFor expression msg)) (decodes state.pullResult.messageBinary)
  have hnot : ∀ msg : HeapMessage, (!decide (IsFor expression msg)) =
      decide (¬ IsFor expression msg) := fun msg ↦ by simp
  simp only [hnot] at hsplit
  have haddresses := hsplit.map HeapMessage.address
  rw [List.map_append] at haddresses
  have hkept : ∀ messages : List HeapMessage,
      (messages.map (HeapMessage.putOffsets state.pullResult.minOffset
        state.pullResult.maxOffset)).map HeapMessage.address =
          messages.map HeapMessage.address := fun messages ↦ by
    rw [List.map_map]
    rfl
  rw [List.map_append, hkept, List.append_assoc, List.append_assoc]
  exact ((List.perm_append_comm_assoc _ _ _).trans (haddresses.append_left _)).append_left _

/-- A stored message with a tag. -/
def taggedMessage (address : ℕ) (tags : ByteString) : HeapMessage :=
  ⟨address, 0, 0, 0, 0, 0, 0, 0, 0, ⟨0, 0⟩, 0, ⟨0, 0⟩, 0, 0, none, [],
    OrderedMap.empty.assign (ofString "TAGS") tags, []⟩

/-- A pull of messages with the tags `a`, `b`, none and `c`. -/
def threeTags : List HeapMessage :=
  [taggedMessage 1 (ofString "a"), taggedMessage 2 (ofString "b"), taggedMessage 3 [],
    taggedMessage 4 (ofString "c")]

/-- The pull of a queue, whose result has a message already, with a subscription. -/
def pullOf (data : SubscriptionData) : PullProcess :=
  ⟨[], ⟨ofString "T", ofString "b", 3⟩, ⟨.found, 9, 0, 12, [taggedMessage 7 []], 1, none⟩, data,
    [8]⟩

/-- The expression ` a || c ` finds the first message and the last. -/
theorem processPullResult_exact_three :
    ∃ data, FilterAPI.buildSubscriptionData 0 (ofString "T") (ofString " a || c ") = .ok data ∧
      (processPullResult (fun _ ↦ threeTags) [] (pullOf data)).pullResult.msgFoundList =
        [taggedMessage 7 [], (taggedMessage 1 (ofString "a")).putOffsets 0 12,
          (taggedMessage 4 (ofString "c")).putOffsets 0 12] ∧
      (processPullResult (fun _ ↦ threeTags) [] (pullOf data)).deleted = [8, 2, 3] := by
  obtain ⟨data, hbuild, -⟩ :=
    FilterAPI.exists_buildSubscriptionData 0 (ofString "T") (ofString " a || c ")
  have hexact := processPullResult_exact (fun _ ↦ threeTags) 0 (ofString "T")
    (ofString " a || c ") [] (pullOf data) rfl rfl hbuild
  have hfound : threeTags.filter (fun msg ↦ IsFor (ofString " a || c ") msg) =
      [taggedMessage 1 (ofString "a"), taggedMessage 4 (ofString "c")] := by decide +kernel
  have hothers : threeTags.filter (fun msg ↦ ¬ IsFor (ofString " a || c ") msg) =
      [taggedMessage 2 (ofString "b"), taggedMessage 3 []] := by decide +kernel
  refine ⟨data, hbuild, ?_, ?_⟩
  · rw [hexact.found, hfound]
    rfl
  · rw [hexact.released, hothers]
    rfl

end RocketMQClient.Consumer
