import RocketMQClient.Factory.OrderedTopic
import RocketMQClient.Protocol.CommandDecode

/-!
# Decoding a route

`TopicRouteData::Decode` makes a route of the JSON document that the name server sends. The library
hands out strings as C strings and numbers as values of an `int`, so the names of every route that
is decoded are plain and its counts in range (`fromNameServer_of_decode`).
-/

set_option autoImplicit false
set_option relaxedAutoImplicit false

namespace RocketMQClient.Factory

open Library Protocol

/-! ### The operations of the source -/

/-- `asString` of a member, which makes a `std::string` of a C string. -/
def textOf (value : Value) (name : String) : Except DecodeFailure ByteString := do
  let text ← stringOf value name
  return cString text

/-- The values at the positions below `size()`; an object has a size and no positions. -/
def elementsOf : Value → Except DecodeFailure (List Value)
  | .array items => .ok items
  | .object (_ :: _) => .error (.value .assertion)
  | _ => .ok []

/-- `getMemberNames` and the values of the members, in the order of the map of the library. -/
def membersOf : Value → Except DecodeFailure (List (ByteString × Value))
  | .null => .ok []
  | .object members => .ok (sortByKey Prod.fst members)
  | _ => .error (.value .assertion)

/-- One round of the loop over the queue data. -/
def queueDataOf (qd : Value) : Except DecodeFailure QueueData := do
  let brokerName ← textOf qd "brokerName"
  let readQueueNums ← intOf qd "readQueueNums"
  let writeQueueNums ← intOf qd "writeQueueNums"
  let perm ← intOf qd "perm"
  return ⟨brokerName, readQueueNums.toInt, writeQueueNums.toInt, perm.toInt⟩

/-- One round of the loop over the addresses of a broker. -/
def assignAddr (brokerAddrs : OrderedMap ℤ ByteString) (member : ByteString × Value) :
    Except DecodeFailure (OrderedMap ℤ ByteString) := do
  let addr ← member.2.asString.mapError .value
  return brokerAddrs.assign (atoiInt member.1) (cString addr)

/-- One round of the loop over the broker data. -/
def brokerDataOf (bd : Value) : Except DecodeFailure BrokerData := do
  let brokerName ← textOf bd "brokerName"
  let bas ← memberOf bd "brokerAddrs"
  let mbs ← membersOf bas
  let brokerAddrs ← mbs.foldlM assignAddr OrderedMap.empty
  return ⟨brokerName, brokerAddrs⟩

/-- The route that a document says. -/
def routeOf (object : Value) : Except DecodeFailure TopicRouteData := do
  let orderTopicConf ← textOf object "orderTopicConf"
  let qds ← memberOf object "queueDatas"
  let queueValues ← elementsOf qds
  let queueDatas ← queueValues.mapM queueDataOf
  let bds ← memberOf object "brokerDatas"
  let brokerValues ← elementsOf bds
  let brokerDatas ← brokerValues.mapM brokerDataOf
  return ⟨orderTopicConf, queueDatas, brokerDatas⟩

/-- `TopicRouteData::Decode`; nothing when the document cannot be read. -/
def TopicRouteData.decode (pData : ByteString) : Except DecodeFailure (Option TopicRouteData) := do
  match ← readDocument (cString pData) with
  | none => return none
  | some object =>
    let route ← routeOf object
    return some route

/-! ### What is decoded -/

variable {pData : ByteString} {object : Value} {route : TopicRouteData} {data : QueueData}

/-- The name of some queue data is plain and the count in range. -/
theorem queueDataOf_plain {qd : Value} (hdata : queueDataOf qd = .ok data) :
    0 ∉ data.brokerName ∧ data.readQueueNums ≤ 2147483647 := by
  obtain ⟨brokerName, hname, hdata⟩ := bind_eq_ok_iff.mp hdata
  obtain ⟨readQueueNums, -, hdata⟩ := bind_eq_ok_iff.mp hdata
  obtain ⟨writeQueueNums, -, hdata⟩ := bind_eq_ok_iff.mp hdata
  obtain ⟨perm, -, hdata⟩ := bind_eq_ok_iff.mp hdata
  obtain rfl := Except.ok.inj hdata
  obtain ⟨text, -, htext⟩ := bind_eq_ok_iff.mp hname
  obtain rfl := Except.ok.inj htext
  exact ⟨zero_not_mem_cString text, Int.le_sub_one_of_lt BitVec.toInt_lt⟩

theorem routeOf_fromNameServer (hroute : routeOf object = .ok route) : FromNameServer route := by
  obtain ⟨orderTopicConf, -, hroute⟩ := bind_eq_ok_iff.mp hroute
  obtain ⟨qds, -, hroute⟩ := bind_eq_ok_iff.mp hroute
  obtain ⟨queueValues, -, hroute⟩ := bind_eq_ok_iff.mp hroute
  obtain ⟨queueDatas, hqueues, hroute⟩ := bind_eq_ok_iff.mp hroute
  obtain ⟨bds, -, hroute⟩ := bind_eq_ok_iff.mp hroute
  obtain ⟨brokerValues, -, hroute⟩ := bind_eq_ok_iff.mp hroute
  obtain ⟨brokerDatas, -, hroute⟩ := bind_eq_ok_iff.mp hroute
  obtain rfl := Except.ok.inj hroute
  intro data hdata
  obtain ⟨qd, -, hqd⟩ := exists_of_mem_mapM hqueues hdata
  exact queueDataOf_plain hqd

/-- A route that was decoded has plain names and counts in range. -/
theorem fromNameServer_of_decode (hroute : TopicRouteData.decode pData = .ok (some route)) :
    FromNameServer route := by
  obtain ⟨document, -, hroute⟩ := bind_eq_ok_iff.mp hroute
  cases document with
  | none => cases Except.ok.inj hroute
  | some object =>
    obtain ⟨decoded, hdecoded, hsome⟩ := bind_eq_ok_iff.mp hroute
    obtain rfl := Option.some.inj (Except.ok.inj hsome)
    exact routeOf_fromNameServer hdecoded

end RocketMQClient.Factory
