import Mathlib.Data.List.Infix
import RocketMQClient.Factory.RouteUpdate

/-!
# Cleaning the broker addresses

`cleanOfflineBroker` goes through the table of broker addresses, erases those that
`isBrokerAddrExistInTopicRouteTable` does not find in the routes, and leaves out the brokers that
have none left. That search looks in each address of a route for the address as a part of it, so an
address stays when it is only a part of one of a route.

`cleansExactly_iff` says that the cleaning keeps exactly the addresses of the routes when every
address that is a part of one in a route is one itself; `port_prefix_survives` has a broker that is
in no route and whose port is the start of another one's.
-/

set_option autoImplicit false
set_option relaxedAutoImplicit false

namespace RocketMQClient.Factory

open Library

/-! ### The operations of the source -/

/-- Whether an address occurs in one of the addresses of the routes. -/
def isBrokerAddrExistInTopicRouteTable (state : ClientState) (addr : ByteString) : Bool :=
  state.topicRouteTable.values.any fun route ↦
    route.brokerDatas.any fun broker ↦
      broker.brokerAddrs.values.any fun routeAddr ↦ decide (addr <:+: routeAddr)

/-- The addresses of one broker after the loop over a copy of them. -/
def cleanAddrs (state : ClientState) (addrs : OrderedMap ℤ ByteString) :
    OrderedMap ℤ ByteString :=
  addrs.eraseAll ((addrs.entries.filter fun entry ↦
    !isBrokerAddrExistInTopicRouteTable state entry.2).map Prod.fst)

/-- The brokers that are put into the new table, with the addresses that they have left. -/
def updatedEntries (state : ClientState) : List (ByteString × OrderedMap ℤ ByteString) :=
  (state.brokerAddrTable.entries.map fun entry ↦ (entry.1, cleanAddrs state entry.2)).filter
    fun entry ↦ !entry.2.isEmpty

/-- Erases the addresses that the search does not find, and the brokers without addresses. -/
def cleanOfflineBroker : Client Unit :=
  Session.modify fun state ↦ { state with
    brokerAddrTable := OrderedMap.empty.assignPairs (updatedEntries state) }

/-! ### What the cleaning should do -/

/-- The table has an address of a broker under an id. -/
def HasAddress (state : ClientState) (brokerName : ByteString) (brokerId : ℤ)
    (addr : ByteString) : Prop :=
  ∃ addrs, (brokerName, addrs) ∈ state.brokerAddrTable.entries ∧ (brokerId, addr) ∈ addrs.entries

/-- An address of a broker in some route. -/
def InSomeRoute (state : ClientState) (addr : ByteString) : Prop :=
  ∃ route ∈ state.topicRouteTable.values, ∃ broker ∈ route.brokerDatas,
    addr ∈ broker.brokerAddrs.values

/-- The cleaned table has exactly the addresses that are in a route, and no broker without one. -/
structure CleansExactly (state : ClientState) : Prop where
  kept : ∀ brokerName brokerId addr,
    HasAddress (cleanOfflineBroker state).2 brokerName brokerId addr ↔
      HasAddress state brokerName brokerId addr ∧ InSomeRoute state addr
  nonempty : ∀ entry ∈ (cleanOfflineBroker state).2.brokerAddrTable.entries,
    entry.2.isEmpty = false

/-- Every address of the table that is a part of one in a route is one itself. -/
def PartsAreWhole (state : ClientState) : Prop :=
  ∀ brokerName brokerId addr, HasAddress state brokerName brokerId addr →
    ∀ routeAddr, InSomeRoute state routeAddr → addr <:+: routeAddr → InSomeRoute state addr

/-! ### What the cleaning does -/

variable {state : ClientState}

/-- The search finds the parts of the addresses of the routes. -/
theorem isBrokerAddrExist_iff {addr : ByteString} :
    isBrokerAddrExistInTopicRouteTable state addr = true ↔
      ∃ routeAddr, InSomeRoute state routeAddr ∧ addr <:+: routeAddr := by
  simp only [isBrokerAddrExistInTopicRouteTable, List.any_eq_true, decide_eq_true_eq]
  constructor
  · rintro ⟨route, hroute, broker, hbroker, routeAddr, hmem, hpart⟩
    exact ⟨routeAddr, ⟨route, hroute, broker, hbroker, hmem⟩, hpart⟩
  · rintro ⟨routeAddr, ⟨route, hroute, broker, hbroker, hmem⟩, hpart⟩
    exact ⟨route, hroute, broker, hbroker, routeAddr, hmem, hpart⟩

/-- Of one broker the addresses stay that the search finds. -/
theorem mem_cleanAddrs {addrs : OrderedMap ℤ ByteString} {entry : ℤ × ByteString} :
    entry ∈ (cleanAddrs state addrs).entries ↔
      entry ∈ addrs.entries ∧ isBrokerAddrExistInTopicRouteTable state entry.2 = true := by
  rw [cleanAddrs, OrderedMap.mem_entries_eraseAll]
  refine and_congr_right fun hentry ↦ ?_
  constructor
  · intro hkey
    by_contra hdead
    refine hkey (List.mem_map_of_mem (List.mem_filter.mpr ⟨hentry, ?_⟩))
    simpa using hdead
  · intro hfound hkey
    obtain ⟨other, hother, hsame⟩ := List.mem_map.mp hkey
    obtain ⟨hmem, hdead⟩ := List.mem_filter.mp hother
    rw [OrderedMap.entry_unique hmem hentry hsame, hfound] at hdead
    exact Bool.false_ne_true hdead

/-- The brokers of the cleaned table are those that have an address left. -/
theorem mem_cleanOfflineBroker {entry : ByteString × OrderedMap ℤ ByteString} :
    entry ∈ (cleanOfflineBroker state).2.brokerAddrTable.entries ↔
      entry.2.isEmpty = false ∧ ∃ addrs, (entry.1, addrs) ∈ state.brokerAddrTable.entries ∧
        cleanAddrs state addrs = entry.2 := by
  have hsorted : (updatedEntries state).Pairwise fun earlier later ↦ earlier.1 < later.1 :=
    List.Pairwise.filter _ (List.pairwise_map.mpr state.brokerAddrTable.sorted)
  have hentries : (OrderedMap.empty.assignPairs (updatedEntries state)).entries =
      updatedEntries state :=
    @OrderedMap.entries_assignPairs_above _ _ _ OrderedMap.empty _ hsorted
  show entry ∈ (OrderedMap.empty.assignPairs (updatedEntries state)).entries ↔ _
  rw [hentries, updatedEntries, List.mem_filter, and_comm, List.mem_map]
  refine and_congr (by simp) ⟨?_, ?_⟩
  · rintro ⟨before, hbefore, rfl⟩
    exact ⟨before.2, hbefore, rfl⟩
  · rintro ⟨addrs, hmem, hclean⟩
    exact ⟨(entry.1, addrs), hmem, Prod.ext rfl hclean⟩

/-- The addresses that stay are those that the search finds. -/
theorem hasAddress_cleanOfflineBroker {brokerName addr : ByteString} {brokerId : ℤ} :
    HasAddress (cleanOfflineBroker state).2 brokerName brokerId addr ↔
      HasAddress state brokerName brokerId addr ∧
        isBrokerAddrExistInTopicRouteTable state addr = true := by
  constructor
  · rintro ⟨addrs, hmem, haddr⟩
    obtain ⟨-, before, hbefore, rfl⟩ := mem_cleanOfflineBroker.mp hmem
    obtain ⟨hentry, hfound⟩ := mem_cleanAddrs.mp haddr
    exact ⟨⟨before, hbefore, hentry⟩, hfound⟩
  · rintro ⟨⟨before, hbefore, hentry⟩, hfound⟩
    have hclean := mem_cleanAddrs.mpr ⟨hentry, hfound⟩
    refine ⟨cleanAddrs state before, mem_cleanOfflineBroker.mpr ⟨?_, before, hbefore, rfl⟩, hclean⟩
    exact Bool.eq_false_iff.mpr fun hempty ↦
      OrderedMap.isEmpty_iff.mp hempty _ (OrderedMap.key_mem hclean)

variable (state)

/-- The cleaning is exact exactly when every address of the table that is a part of one in a route
is one itself. -/
theorem cleansExactly_iff : CleansExactly state ↔ PartsAreWhole state := by
  constructor
  · intro hexact brokerName brokerId addr hhas routeAddr hroute hpart
    have hfound := isBrokerAddrExist_iff.mpr ⟨routeAddr, hroute, hpart⟩
    exact ((hexact.kept _ _ _).mp (hasAddress_cleanOfflineBroker.mpr ⟨hhas, hfound⟩)).2
  · intro hwhole
    refine ⟨fun brokerName brokerId addr ↦ ?_, fun entry hentry ↦
      (mem_cleanOfflineBroker.mp hentry).1⟩
    rw [hasAddress_cleanOfflineBroker]
    refine and_congr_right fun hhas ↦ isBrokerAddrExist_iff.trans ⟨?_, ?_⟩
    · rintro ⟨routeAddr, hroute, hpart⟩
      exact hwhole _ _ _ hhas routeAddr hroute hpart
    · exact fun hroute ↦ ⟨addr, hroute, List.infix_rfl⟩

/-- The broker `a` has the address `h:1` and is in no route; the broker `b` has the address `h:10`
and is in one. -/
def portPrefixState : ClientState :=
  { twoConsumers (OrderedMap.empty.assign [116]
      ⟨[], [], [⟨[98], OrderedMap.empty.assign 0 [104, 58, 49, 48]⟩]⟩) with
    brokerAddrTable := (OrderedMap.empty.assign [97]
      (OrderedMap.empty.assign 0 [104, 58, 49])).assign [98]
        (OrderedMap.empty.assign 0 [104, 58, 49, 48]) }

/-- The address of a broker that is in no route survives the cleaning, because it is the start of
another one. -/
theorem port_prefix_survives :
    ¬ CleansExactly portPrefixState ∧
      (cleanOfflineBroker portPrefixState).2.brokerAddrTable =
        portPrefixState.brokerAddrTable := by
  refine ⟨fun hexact ↦ ?_, by decide⟩
  have hhas : HasAddress (cleanOfflineBroker portPrefixState).2 [97] 0 [104, 58, 49] :=
    ⟨OrderedMap.empty.assign 0 [104, 58, 49], by decide, by decide⟩
  obtain ⟨-, route, hroute, broker, hbroker, haddr⟩ := (hexact.kept _ _ _).mp hhas
  obtain rfl : route = ⟨[], [], [⟨[98], OrderedMap.empty.assign 0 [104, 58, 49, 48]⟩]⟩ :=
    List.mem_singleton.mp hroute
  obtain rfl := List.mem_singleton.mp hbroker
  exact absurd haddr (by decide)

end RocketMQClient.Factory
