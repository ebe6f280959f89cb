import Mathlib.Data.BitVec
import RocketMQClient.Factory.ClientFactory
import RocketMQClient.Library.MachineInt

/-!
# The broker of a pull request

A pull goes to the broker that an earlier reply suggested. `findBrokerAddressInSubscribe` looks its
address up and falls back to the first address of the broker, and it says whether the address is one
of a slave, because a slave must not commit offsets: `pullKernelImpl` clears the commit flag then.

Whether the address is one of a slave is computed from the id asked for. The fallback reads another
id, the search cuts the id to 32 bits, and the first address of a broker without addresses is past
the end of the map. `pull_commit_flag_iff` says for which tables and ids the flag is right, and
`pull_commit_flag_at_slave` has a pull of a master that is gone.

The search and the label are separate in the statements: which address a search finds is a matter of
the table, and what it says about the address is one of the id that was asked for
(`storedLabel_iff`, `fallbackLabel_iff`). The request then follows the label, for every caller that
asks for a commit or does not.
-/

set_option autoImplicit false
set_option relaxedAutoImplicit false

namespace RocketMQClient.Consumer

open Library Messages Factory

/-! ### The operations of the source -/

/-- The flag of a pull that commits an offset. -/
def flagCommitOffset : BitVec 32 := 1#32 <<< 0

/-- Clears the commit flag. -/
def clearCommitOffsetFlag (sysFlag : BitVec 32) : BitVec 32 := sysFlag &&& ~~~flagCommitOffset

/-- Whether a pull commits an offset. -/
def hasCommitOffsetFlag (sysFlag : BitVec 32) : Bool :=
  sysFlag &&& flagCommitOffset = flagCommitOffset

/-- The addresses of the brokers by name and id. -/
abbrev BrokerAddrTable := OrderedMap ByteString (OrderedMap ℤ ByteString)

/-- An address for a pull. The id that it is stored under is not part of the result of the
source. -/
structure SubscribeResult where
  findBrokerResult : FindBrokerResult
  storedUnder : Option ℤ
  deriving DecidableEq

/-- The address of a broker for a pull; nothing stands for the read past the end of an empty map. -/
def findBrokerAddressInSubscribe (brokerAddrTable : BrokerAddrTable) (brokerName : ByteString)
    (brokerId : ℤ) (onlyThisBroker : Bool) : Option SubscribeResult :=
  match brokerAddrTable.find? brokerName with
  | none => some ⟨⟨[], some false⟩, none⟩
  | some addrs =>
    match addrs.find? (toInt32 brokerId) with
    | some brokerAddr => some ⟨⟨brokerAddr, some (brokerId ≠ masterId)⟩, some (toInt32 brokerId)⟩
    | none =>
      if onlyThisBroker then some ⟨⟨[], some false⟩, none⟩
      else addrs.first?.map fun entry ↦ ⟨⟨entry.2, some (brokerId ≠ masterId)⟩, some entry.1⟩

/-- The brokers that earlier replies suggested. -/
abbrev PullFromWhichNodeTable := OrderedMap MessageQueue ℤ

/-- The broker that an earlier reply suggested for a queue, or the master. -/
def recalculatePullFromWhichNode (table : PullFromWhichNodeTable) (queue : MessageQueue) : ℤ :=
  (table.find? queue).getD masterId

/-- The arguments of a pull that end up in its request. -/
structure PullArguments where
  subExpression : ByteString
  subVersion : ℤ
  offset : ℤ
  maxNums : ℤ
  commitOffset : ℤ
  brokerSuspendMaxTimeMillis : ℤ
  deriving DecidableEq

/-- The header of a pull request. -/
structure PullMessageRequestHeader where
  consumerGroup : ByteString
  topic : ByteString
  queueId : ℤ
  queueOffset : ℤ
  maxMsgNums : ℤ
  sysFlag : BitVec 32
  commitOffset : ℤ
  suspendTimeoutMillis : ℤ
  subscription : ByteString
  subVersion : ℤ
  deriving DecidableEq

/-- How far a pull gets. -/
inductive PullKernelOutcome where
  /-- The first address of a broker without addresses was read. -/
  | pastTheEnd
  | thrown (exception : MQException)
  /-- A request is sent to an address that is stored under some id. -/
  | pullMessage (brokerAddr : ByteString) (storedUnder : Option ℤ)
      (requestHeader : PullMessageRequestHeader)
  deriving DecidableEq

/-- The tables that a pull reads at one of its two searches for an address. -/
structure PullTables where
  brokerAddrTable : BrokerAddrTable
  pullFromWhichNodeTable : PullFromWhichNodeTable

namespace PullTables

/-- The broker that the search asks for. -/
def brokerId (tables : PullTables) (queue : MessageQueue) : ℤ :=
  recalculatePullFromWhichNode tables.pullFromWhichNodeTable queue

/-- One search for an address. -/
def find (tables : PullTables) (queue : MessageQueue) : Option SubscribeResult :=
  findBrokerAddressInSubscribe tables.brokerAddrTable queue.brokerName (tables.brokerId queue) false

end PullTables

/-- Sends a pull to an address that was found. -/
def sendPull (consumerGroup : ByteString) (queue : MessageQueue) (arguments : PullArguments)
    (sysFlag : BitVec 32) (found : SubscribeResult) : PullKernelOutcome :=
  if found.findBrokerResult.brokerAddr = [] then
    .thrown ⟨.client, ofString "The broker[" ++ queue.brokerName ++ ofString "] not exist", -1⟩
  else
    .pullMessage found.findBrokerResult.brokerAddr found.storedUnder
      { consumerGroup := consumerGroup
        topic := queue.topic
        queueId := queue.queueId
        queueOffset := arguments.offset
        maxMsgNums := arguments.maxNums
        sysFlag :=
          if found.findBrokerResult.slave = some true then clearCommitOffsetFlag sysFlag
          else sysFlag
        commitOffset := arguments.commitOffset
        suspendTimeoutMillis := arguments.brokerSuspendMaxTimeMillis
        subscription := arguments.subExpression
        subVersion := arguments.subVersion }

/-- A pull, with the tables before and after the refresh of the route that it makes when it finds no
address. -/
def PullAPIWrapper.pullKernelImpl (before after : PullTables) (consumerGroup : ByteString)
    (queue : MessageQueue) (arguments : PullArguments) (sysFlag : BitVec 32) : PullKernelOutcome :=
  match before.find queue with
  | none => .pastTheEnd
  | some found =>
    if found.findBrokerResult.brokerAddr = [] then
      match after.find queue with
      | none => .pastTheEnd
      | some foundAgain => sendPull consumerGroup queue arguments sysFlag foundAgain
    else sendPull consumerGroup queue arguments sysFlag found

/-! ### The commit flag -/

/-- A search finds an address if the broker has one, and calls it one of a slave exactly when it is
stored under another id than the one of the master. -/
def LabelsSlave (brokerAddrTable : BrokerAddrTable) (brokerName : ByteString) (brokerId : ℤ)
    (onlyThisBroker : Bool) : Prop :=
  ∃ found ∈ findBrokerAddressInSubscribe brokerAddrTable brokerName brokerId onlyThisBroker,
    match found.storedUnder with
    | none => found.findBrokerResult = ⟨[], some false⟩
    | some id => found.findBrokerResult.slave = some true ↔ id ≠ masterId

/-- A pull reads no address past the end, and its request carries the commit flag of its caller to
the master and no commit flag to any other address. -/
def CommitsAtMaster (queue : MessageQueue) (sysFlag : BitVec 32) : PullKernelOutcome → Prop
  | .pastTheEnd => False
  | .thrown exception =>
    exception =
      ⟨.client, ofString "The broker[" ++ queue.brokerName ++ ofString "] not exist", -1⟩
  | .pullMessage _ storedUnder requestHeader =>
    if storedUnder = some masterId then requestHeader.sysFlag = sysFlag
    else hasCommitOffsetFlag requestHeader.sysFlag = false

/-- The broker is not known, or the id is stored after it is cut to 32 bits and is not cut to the
master's; or it is not stored, and only this id was asked for, or another one than the master's and
the first address that there is is not the master's. -/
def SearchFits (brokerAddrTable : BrokerAddrTable) (brokerName : ByteString) (brokerId : ℤ)
    (onlyThisBroker : Bool) : Prop :=
  ∀ addrs ∈ brokerAddrTable.find? brokerName,
    (toInt32 brokerId ∈ addrs ∧ (brokerId ≠ masterId → toInt32 brokerId ≠ masterId)) ∨
    (toInt32 brokerId ∉ addrs ∧ (onlyThisBroker = true ∨
      (brokerId ≠ masterId ∧ ∃ first ∈ addrs.first?, first.1 ≠ masterId)))

/-- A search of a pull fits, or ends at an empty address. -/
def PullFits (tables : PullTables) (queue : MessageQueue) : Prop :=
  ∀ addrs ∈ tables.brokerAddrTable.find? queue.brokerName,
    (∃ addr ∈ addrs.find? (toInt32 (tables.brokerId queue)), addr = [] ∨
      (tables.brokerId queue ≠ masterId → toInt32 (tables.brokerId queue) ≠ masterId)) ∨
    (toInt32 (tables.brokerId queue) ∉ addrs ∧ ∃ first ∈ addrs.first?, first.2 = [] ∨
      (tables.brokerId queue ≠ masterId ∧ first.1 ≠ masterId))

/-- The search of a pull ends at no address or at an empty one. -/
def NoAddress (tables : PullTables) (queue : MessageQueue) : Prop :=
  ∀ addrs ∈ tables.brokerAddrTable.find? queue.brokerName,
    addrs.find? (toInt32 (tables.brokerId queue)) = some [] ∨
    (toInt32 (tables.brokerId queue) ∉ addrs ∧ ∃ first ∈ addrs.first?, first.2 = [])

theorem hasCommitOffsetFlag_clearCommitOffsetFlag (sysFlag : BitVec 32) :
    hasCommitOffsetFlag (clearCommitOffsetFlag sysFlag) = false := by
  have hnone : clearCommitOffsetFlag sysFlag &&& flagCommitOffset = 0#32 := by
    rw [clearCommitOffsetFlag, BitVec.and_assoc]
    have hmask : ~~~flagCommitOffset &&& flagCommitOffset = 0#32 := by decide
    rw [hmask, BitVec.and_zero]
  rw [hasCommitOffsetFlag, hnone]
  decide

theorem clearCommitOffsetFlag_flagCommitOffset :
    clearCommitOffsetFlag flagCommitOffset ≠ flagCommitOffset := by decide

/-! ### The label of a search -/

/-- The label of an address that is stored under the id asked for, cut to 32 bits. -/
theorem storedLabel_iff (brokerId : ℤ) :
    (decide (brokerId ≠ masterId) = true ↔ toInt32 brokerId ≠ masterId) ↔
      (brokerId ≠ masterId → toInt32 brokerId ≠ masterId) := by
  rw [decide_eq_true_eq]
  refine ⟨Iff.mp, fun hcut ↦ ⟨hcut, fun hother hmaster ↦ hother ?_⟩⟩
  rw [hmaster]
  decide

/-- The label of the first address, when the id asked for is not stored. -/
theorem fallbackLabel_iff {addrs : OrderedMap ℤ ByteString} {brokerId : ℤ} {first : ℤ × ByteString}
    (hmem : toInt32 brokerId ∉ addrs) (hfirst : addrs.first? = some first) :
    (decide (brokerId ≠ masterId) = true ↔ first.1 ≠ masterId) ↔
      (brokerId ≠ masterId ∧ first.1 ≠ masterId) := by
  have hother : brokerId = masterId → first.1 ≠ masterId := by
    rintro rfl hmaster
    refine hmem ?_
    have hcut : toInt32 masterId = masterId := by decide
    rw [hcut, ← hmaster]
    exact OrderedMap.key_mem (List.mem_of_head? hfirst)
  rw [decide_eq_true_eq]
  refine ⟨fun hlabel ↦ ?_, fun hboth ↦ iff_of_true hboth.1 hboth.2⟩
  by_cases hid : brokerId = masterId
  · exact absurd (hlabel.mpr (hother hid)) (not_not.mpr hid)
  · exact ⟨hid, hlabel.mp hid⟩

/-- For which tables and ids a search labels its address correctly. -/
theorem labelsSlave_iff (brokerAddrTable : BrokerAddrTable) (brokerName : ByteString)
    (brokerId : ℤ) (onlyThisBroker : Bool) :
    LabelsSlave brokerAddrTable brokerName brokerId onlyThisBroker ↔
      SearchFits brokerAddrTable brokerName brokerId onlyThisBroker := by
  unfold LabelsSlave SearchFits findBrokerAddressInSubscribe
  cases brokerAddrTable.find? brokerName with
  | none => simp
  | some addrs =>
    cases hfind : addrs.find? (toInt32 brokerId) with
    | some addr =>
      have hmem : toInt32 brokerId ∈ addrs := OrderedMap.key_mem (OrderedMap.find?_eq_some.mp hfind)
      simp only [Option.mem_def, Option.some.injEq, exists_eq_left', forall_eq', hfind, hmem,
        true_and, not_true_eq_false, false_and, or_false]
      exact storedLabel_iff brokerId
    | none =>
      have hmem : toInt32 brokerId ∉ addrs := OrderedMap.find?_eq_none.mp hfind
      cases onlyThisBroker with
      | true => simp [hfind, hmem]
      | false =>
        cases hfirst : addrs.first? with
        | none => simp [hfind, hmem, hfirst]
        | some first =>
          simp only [Option.mem_def, hfind, hfirst, Bool.false_eq_true, if_false, Option.map_some,
            Option.some.injEq, exists_eq_left', forall_eq', hmem, false_and, false_or,
            not_false_eq_true, true_and]
          exact fallbackLabel_iff hmem hfirst

/-! ### The request of a pull -/

section Pull

variable {consumerGroup : ByteString} {queue : MessageQueue} {arguments : PullArguments}

/-- The request to an address has the right flag for every caller exactly when the label fits. -/
theorem commitsAtMaster_sendPull_iff (found : SubscribeResult) :
    (∀ sysFlag, CommitsAtMaster queue sysFlag
        (sendPull consumerGroup queue arguments sysFlag found)) ↔
      found.findBrokerResult.brokerAddr = [] ∨
        (found.findBrokerResult.slave = some true ↔ found.storedUnder ≠ some masterId) := by
  unfold sendPull
  by_cases hempty : found.findBrokerResult.brokerAddr = []
  · simp [hempty, CommitsAtMaster]
  · simp only [hempty, if_false, CommitsAtMaster, false_or]
    by_cases hmaster : found.storedUnder = some masterId
    · simp only [hmaster, if_true, ne_eq, not_true_eq_false, iff_false]
      by_cases hslave : found.findBrokerResult.slave = some true
      · simp only [hslave, if_true, not_true_eq_false, iff_false]
        intro hall
        exact clearCommitOffsetFlag_flagCommitOffset (hall flagCommitOffset)
      · simp only [hslave, if_false, not_false_eq_true, implies_true]
    · simp only [hmaster, if_false, ne_eq, not_false_eq_true, iff_true]
      by_cases hslave : found.findBrokerResult.slave = some true
      · simp only [hslave, if_true, iff_true]
        exact hasCommitOffsetFlag_clearCommitOffsetFlag
      · simp only [hslave, if_false, iff_false]
        intro hall
        exact absurd (hall flagCommitOffset) (by decide)

/-- For which tables a search of a pull finds something that a request can be sent with. -/
theorem exists_find_iff (tables : PullTables) (queue : MessageQueue) :
    (∃ found ∈ tables.find queue, found.findBrokerResult.brokerAddr = [] ∨
        (found.findBrokerResult.slave = some true ↔ found.storedUnder ≠ some masterId)) ↔
      PullFits tables queue := by
  unfold PullTables.find PullFits findBrokerAddressInSubscribe
  generalize tables.brokerId queue = brokerId
  cases tables.brokerAddrTable.find? queue.brokerName with
  | none => simp
  | some addrs =>
    cases hfind : addrs.find? (toInt32 brokerId) with
    | some addr =>
      have hmem : toInt32 brokerId ∈ addrs := OrderedMap.key_mem (OrderedMap.find?_eq_some.mp hfind)
      simp only [Option.mem_def, Option.some.injEq, exists_eq_left', forall_eq', hfind, hmem,
        not_true_eq_false, false_and, or_false, ne_eq]
      exact or_congr_right (storedLabel_iff brokerId)
    | none =>
      have hmem : toInt32 brokerId ∉ addrs := OrderedMap.find?_eq_none.mp hfind
      cases hfirst : addrs.first? with
      | none => simp [hfind, hmem, hfirst]
      | some first =>
        simp only [Option.mem_def, hfind, hfirst, Bool.false_eq_true, if_false, Option.map_some,
          Option.some.injEq, exists_eq_left', forall_eq', hmem, not_false_eq_true, true_and, ne_eq,
          reduceCtorEq, false_and, exists_false, false_or]
        exact or_congr_right (fallbackLabel_iff hmem hfirst)

/-- When a search of a pull ends without an address. -/
theorem find_empty_iff (tables : PullTables) (queue : MessageQueue) :
    (∃ found ∈ tables.find queue, found.findBrokerResult.brokerAddr = []) ↔
      NoAddress tables queue := by
  unfold PullTables.find NoAddress findBrokerAddressInSubscribe
  generalize tables.brokerId queue = brokerId
  cases tables.brokerAddrTable.find? queue.brokerName with
  | none => simp
  | some addrs =>
    cases hfind : addrs.find? (toInt32 brokerId) with
    | some addr =>
      have hmem : toInt32 brokerId ∈ addrs := OrderedMap.key_mem (OrderedMap.find?_eq_some.mp hfind)
      simp [hfind, hmem]
    | none =>
      have hmem : toInt32 brokerId ∉ addrs := OrderedMap.find?_eq_none.mp hfind
      cases hfirst : addrs.first? with
      | none => simp [hfind, hfirst]
      | some first =>
        obtain ⟨id, addr⟩ := first
        simp [hfind, hmem, hfirst]

/-- The requests of a pull have the right flag exactly when its first search fits, and so does the
second one if the first one ends without an address. -/
theorem commitsAtMaster_pullKernelImpl_iff (before after : PullTables) :
    (∀ sysFlag, CommitsAtMaster queue sysFlag
        (PullAPIWrapper.pullKernelImpl before after consumerGroup queue arguments sysFlag)) ↔
      PullFits before queue ∧ (NoAddress before queue → PullFits after queue) := by
  rw [← exists_find_iff, ← exists_find_iff, ← find_empty_iff]
  unfold PullAPIWrapper.pullKernelImpl
  cases hbefore : before.find queue with
  | none => simp [CommitsAtMaster]
  | some found =>
    by_cases hempty : found.findBrokerResult.brokerAddr = []
    · cases hafter : after.find queue with
      | none => simp [hempty, CommitsAtMaster]
      | some foundAgain =>
        simpa [hempty] using @commitsAtMaster_sendPull_iff consumerGroup queue arguments foundAgain
    · simpa [hempty] using @commitsAtMaster_sendPull_iff consumerGroup queue arguments found

end Pull

/-- A search labels its address correctly exactly when it fits, and a pull commits at the master
only and always exactly when its searches do. -/
theorem pull_commit_flag_iff (brokerAddrTable : BrokerAddrTable) (brokerName : ByteString)
    (brokerId : ℤ) (onlyThisBroker : Bool) (before after : PullTables) (consumerGroup : ByteString)
    (queue : MessageQueue) (arguments : PullArguments) :
    (LabelsSlave brokerAddrTable brokerName brokerId onlyThisBroker ↔
        SearchFits brokerAddrTable brokerName brokerId onlyThisBroker) ∧
      ((∀ sysFlag, CommitsAtMaster queue sysFlag
          (PullAPIWrapper.pullKernelImpl before after consumerGroup queue arguments sysFlag)) ↔
        PullFits before queue ∧ (NoAddress before queue → PullFits after queue)) :=
  ⟨labelsSlave_iff brokerAddrTable brokerName brokerId onlyThisBroker,
    commitsAtMaster_pullKernelImpl_iff before after⟩

/-- Broker 98 has lost its master and has a slave with the id 1. -/
def slaveOnly : PullTables where
  brokerAddrTable := OrderedMap.empty.assign [98] (OrderedMap.empty.assign 1 [49])
  pullFromWhichNodeTable := OrderedMap.empty

/-- A pull that asks for the master gets the slave, and commits its offset there. -/
theorem pull_commit_flag_at_slave :
    ¬ LabelsSlave slaveOnly.brokerAddrTable [98] masterId false ∧
      ¬ ∀ sysFlag, CommitsAtMaster ⟨[116], [98], 0⟩ sysFlag
        (PullAPIWrapper.pullKernelImpl slaveOnly slaveOnly [103] ⟨[116], [98], 0⟩
          ⟨[42], 0, 0, 32, 7, 15000⟩ sysFlag) := by
  have hsent : PullAPIWrapper.pullKernelImpl slaveOnly slaveOnly [103] ⟨[116], [98], 0⟩
      ⟨[42], 0, 0, 32, 7, 15000⟩ flagCommitOffset = .pullMessage [49] (some 1)
        ⟨[103], [116], 0, 0, 32, flagCommitOffset, 7, 15000, [42], 0⟩ := by decide
  have hfound : findBrokerAddressInSubscribe slaveOnly.brokerAddrTable [98] masterId false =
      some ⟨⟨[49], some false⟩, some 1⟩ := by decide
  constructor
  · rintro ⟨found, hfind, hlabel⟩
    obtain rfl := Option.some.inj (hfound.symm.trans hfind)
    exact absurd (hlabel.mpr (by decide)) (by decide)
  · intro hall
    have hone := hall flagCommitOffset
    rw [hsent] at hone
    have hkept : hasCommitOffsetFlag flagCommitOffset = true := by decide
    exact Bool.false_ne_true (hone.symm.trans hkept)

end RocketMQClient.Consumer
