import RocketMQClient.Consumer.StartOffset
import RocketMQClient.Factory.RouteUpdate

/-!
# The address for offsets

The remote offset store sends its queries and commits to the address that
`findBrokerAddressInAdmin` finds for a broker. The search starts at the entry of the master and goes
on to larger ids, so that it finds the address of a slave when that of the master is empty, and
nothing at all when there is no entry for the master.

`FindsLiveAddress` is what the store relies on: an address is found when the broker has one, that of
the master first, its label is set, and the store turns to it without asking for the route.
`findsLiveAddress_iff` says that this holds exactly when the broker has an entry for the master and
an address under its id or a larger one. `slave_not_found_without_master` is the fail-over that
misses; when nothing is found the label of the result is not set either.
-/

set_option autoImplicit false
set_option relaxedAutoImplicit false

namespace RocketMQClient.Consumer

open Library Messages Factory

/-! ### What the offset store relies on -/

/-- The addresses of a broker. -/
def addressesOf (state : ClientState) (brokerName : ByteString) : OrderedMap ℤ ByteString :=
  (state.brokerAddrTable.find? brokerName).getD OrderedMap.empty

/-- The broker has an address under some id. -/
def HasLiveAddress (state : ClientState) (brokerName : ByteString) : Prop :=
  ∃ entry ∈ (addressesOf state brokerName).entries, entry.2 ≠ []

/-- What the search finds. -/
def adminResult (state : ClientState) (brokerName : ByteString) : FindBrokerResult :=
  match (((addressesOf state brokerName).entries.dropWhile fun entry ↦
      entry.1 ≠ masterId).find? fun entry ↦ entry.2 ≠ []) with
  | none => ⟨[], none⟩
  | some entry => ⟨entry.2, some (entry.1 ≠ masterId)⟩

/-- The search finds an address exactly when the broker has one, that of the master when it is not
empty, and its label is set and tells whether it is that of the master; queries and commits of the
queues of the broker are sent to it. -/
structure FindsLiveAddress (state : ClientState) (brokerName : ByteString) : Prop where
  found : (adminResult state brokerName).brokerAddr ≠ [] ↔ HasLiveAddress state brokerName
  stored : (adminResult state brokerName).brokerAddr ≠ [] → ∃ brokerId,
    (addressesOf state brokerName).find? brokerId = some (adminResult state brokerName).brokerAddr
  master : ∀ addr, (addressesOf state brokerName).find? masterId = some addr → addr ≠ [] →
    (adminResult state brokerName).brokerAddr = addr
  slave : ∃ label ∈ (adminResult state brokerName).slave, label = true ↔
    (addressesOf state brokerName).find? masterId ≠ some (adminResult state brokerName).brokerAddr
  commits : HasLiveAddress state brokerName → ∀ (queue : MessageQueue) (offset : ℤ),
    queue.brokerName = brokerName →
      RemoteBrokerOffsetStore.updateConsumeOffsetToBroker queue offset state =
        MQClientAPIImpl.updateConsumerOffsetOneway (adminResult state brokerName).brokerAddr queue
          offset state
  queries : HasLiveAddress state brokerName → ∀ (group : ByteString) (queue : MessageQueue),
    queue.brokerName = brokerName →
      RemoteBrokerOffsetStore.fetchConsumeOffsetFromBroker group queue state =
        MQClientAPIImpl.queryConsumerOffset (adminResult state brokerName).brokerAddr group queue
          state

/-- A broker has an entry for the master, and an address under its id or a larger one. -/
def ReachableFromMaster (state : ClientState) (brokerName : ByteString) : Prop :=
  masterId ∈ addressesOf state brokerName ∧
    ∃ entry ∈ (addressesOf state brokerName).entries, masterId ≤ entry.1 ∧ entry.2 ≠ []

/-! ### What the search finds -/

variable {state : ClientState} {brokerName : ByteString}

theorem findBrokerAddressInAdmin_eq :
    findBrokerAddressInAdmin brokerName state = (.ok (adminResult state brokerName), state) := by
  unfold findBrokerAddressInAdmin Session.read adminResult addressesOf
  dsimp only
  cases state.brokerAddrTable.find? brokerName with
  | none => rfl
  | some addrs => rfl

/-- The search finds an address exactly when there is an entry for the master and an address under
its id or a larger one. -/
theorem adminResult_ne_nil_iff : (adminResult state brokerName).brokerAddr ≠ [] ↔
    ReachableFromMaster state brokerName := by
  unfold adminResult ReachableFromMaster
  cases hfind : ((addressesOf state brokerName).entries.dropWhile fun entry ↦
      entry.1 ≠ masterId).find? fun entry ↦ entry.2 ≠ [] with
  | none =>
    refine iff_of_false (fun hne ↦ hne rfl) ?_
    rintro ⟨hmaster, entry, hentry, hle, hne⟩
    have hempty := List.find?_eq_none.mp hfind entry
      (OrderedMap.mem_dropWhile_key.mpr ⟨hentry, hmaster, hle⟩)
    exact hempty (decide_eq_true hne)
  | some entry =>
    obtain ⟨hentry, hmaster, hle⟩ :=
      OrderedMap.mem_dropWhile_key.mp (List.mem_of_find?_eq_some hfind)
    have hne : entry.2 ≠ [] := by simpa using List.find?_some hfind
    exact iff_of_true hne ⟨hmaster, entry, hentry, hle, hne⟩

/-- An address that is found is that of an entry, which is the one of the master when this has an
address. -/
theorem adminResult_spec (hne : (adminResult state brokerName).brokerAddr ≠ []) :
    ∃ entry ∈ (addressesOf state brokerName).entries,
      adminResult state brokerName = ⟨entry.2, some (entry.1 ≠ masterId)⟩ ∧
      ∀ addr, (addressesOf state brokerName).find? masterId = some addr → addr ≠ [] →
        entry = (masterId, addr) := by
  unfold adminResult at hne ⊢
  cases hfind : ((addressesOf state brokerName).entries.dropWhile fun entry ↦
      entry.1 ≠ masterId).find? fun entry ↦ entry.2 ≠ [] with
  | none =>
    rw [hfind] at hne
    exact absurd rfl hne
  | some entry =>
    obtain ⟨hentry, -, hle⟩ := OrderedMap.mem_dropWhile_key.mp (List.mem_of_find?_eq_some hfind)
    refine ⟨entry, hentry, rfl, fun addr haddr haddrNe ↦ ?_⟩
    have hmaster := OrderedMap.find?_eq_some.mp haddr
    obtain ⟨-, before, after, hlist, hbefore⟩ := List.find?_eq_some_iff_append.mp hfind
    have hmem := OrderedMap.mem_dropWhile_key.mpr
      ⟨hmaster, OrderedMap.key_mem hmaster, le_refl masterId⟩
    rw [hlist] at hmem
    have hsorted := (addressesOf state brokerName).sorted.sublist
      (List.dropWhile_sublist fun entry ↦ entry.1 ≠ masterId)
    rw [hlist] at hsorted
    rcases List.mem_append.mp hmem with hearlier | hlater
    · exact absurd (hbefore _ hearlier) (by simpa using haddrNe)
    · rcases List.mem_cons.mp hlater with hsame | hrest
      · exact hsame.symm
      · have hlt := (List.pairwise_cons.mp (List.pairwise_append.mp hsorted).2.1).1 _ hrest
        exact absurd hle hlt.not_ge

/-- Without an address the label is not set. -/
theorem adminResult_slave_of_nil (hnone : (adminResult state brokerName).brokerAddr = []) :
    (adminResult state brokerName).slave = none := by
  unfold adminResult at hnone ⊢
  cases hfind : ((addressesOf state brokerName).entries.dropWhile fun entry ↦
      entry.1 ≠ masterId).find? fun entry ↦ entry.2 ≠ [] with
  | none => rfl
  | some entry =>
    rw [hfind] at hnone
    have hne : entry.2 ≠ [] := by simpa using List.find?_some hfind
    exact absurd hnone hne

/-- Code at the broker of a queue runs with the address that the search finds. -/
theorem atBroker_of_found {Result : Type} {queue : MessageQueue}
    (hne : (adminResult state queue.brokerName).brokerAddr ≠ [])
    (body : ByteString → Client Result) :
    atBroker (RemoteBrokerOffsetStore.brokerAddr queue) queue body state =
      body (adminResult state queue.brokerName).brokerAddr state := by
  have hfind : RemoteBrokerOffsetStore.brokerAddr queue state =
      (.ok (adminResult state queue.brokerName).brokerAddr, state) :=
    Session.bind_ok findBrokerAddressInAdmin_eq
  have hrefresh : findOrRefresh (RemoteBrokerOffsetStore.brokerAddr queue) queue.topic false state =
      (.ok (adminResult state queue.brokerName).brokerAddr, state) := by
    rw [findOrRefresh, Session.bind_ok hfind, if_neg hne]
    rfl
  rw [atBroker, Session.bind_ok hrefresh, if_neg hne]

variable (state brokerName)

/-- The search finds the live addresses of a broker exactly when it has an entry for the master and
an address under its id or a larger one. -/
theorem findsLiveAddress_iff :
    FindsLiveAddress state brokerName ↔ ReachableFromMaster state brokerName := by
  constructor
  · intro hfinds
    refine adminResult_ne_nil_iff.mp fun hnone ↦ ?_
    obtain ⟨label, hlabel, -⟩ := hfinds.slave
    rw [adminResult_slave_of_nil hnone] at hlabel
    exact Option.some_ne_none label hlabel.symm
  · intro hreachable
    have hne := adminResult_ne_nil_iff.mpr hreachable
    obtain ⟨entry, hentry, hresult, hfirst⟩ := adminResult_spec hne
    refine ⟨iff_of_true hne ?_, fun _ ↦ ⟨entry.1, ?_⟩, fun addr haddr haddrNe ↦ ?_, ?_, ?_, ?_⟩
    · obtain ⟨-, live, hlive, -, hliveNe⟩ := hreachable
      exact ⟨live, hlive, hliveNe⟩
    · rw [hresult]
      exact OrderedMap.find?_eq_some.mpr hentry
    · rw [hresult, hfirst addr haddr haddrNe]
    · rw [hresult] at hne ⊢
      refine ⟨_, rfl, ?_⟩
      rw [decide_eq_true_eq, not_iff_not]
      constructor
      · intro hid
        exact OrderedMap.find?_eq_some.mpr (hid ▸ hentry)
      · intro hsame
        exact congrArg Prod.fst (hfirst entry.2 hsame hne)
    · rintro - queue offset rfl
      exact atBroker_of_found hne _
    · rintro - group queue rfl
      exact atBroker_of_found hne _

/-- The broker `b` has a slave with the id 1 and no entry for its master. -/
def withoutMaster : ClientState :=
  { twoConsumers OrderedMap.empty with
    brokerAddrTable := OrderedMap.empty.assign [98] (OrderedMap.empty.assign 1 [115]) }

/-- A broker whose master is gone from the table has the address of a slave, and none is found. -/
theorem slave_not_found_without_master :
    ¬ FindsLiveAddress withoutMaster [98] ∧
      findBrokerAddressInAdmin [98] withoutMaster = (.ok ⟨[], none⟩, withoutMaster) := by
  have hnone : adminResult withoutMaster [98] = ⟨[], none⟩ := by decide
  refine ⟨fun hfinds ↦ ?_, by rw [findBrokerAddressInAdmin_eq, hnone]⟩
  refine hfinds.found.mpr ⟨(1, [115]), by decide, by decide⟩ ?_
  rw [hnone]

end RocketMQClient.Consumer
