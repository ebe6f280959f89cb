import Mathlib.Data.List.Sort
import RocketMQClient.Library.OrderedMap
import RocketMQClient.Messages.MessageQueue

/-!
# Topic routes

A topic route is what the name server knows of a topic: the order configuration, the queue counts
and permissions by broker, and the addresses of the brokers by id. The client derives from it the
queues that can be published to and the queues that can be subscribed to, and compares a new route
with the stored one up to the order of the two lists.
-/

set_option autoImplicit false
set_option relaxedAutoImplicit false

namespace RocketMQClient.Factory

open Library Messages

/-- The id of the master among the addresses of a broker. -/
def masterId : ℤ := 0

/-- The queue counts and permissions of a topic on one broker. -/
structure QueueData where
  brokerName : ByteString
  readQueueNums : ℤ
  writeQueueNums : ℤ
  perm : ℤ
  deriving DecidableEq

/-- The addresses of one broker by id. -/
structure BrokerData where
  brokerName : ByteString
  brokerAddrs : OrderedMap ℤ ByteString
  deriving DecidableEq

/-- The route of a topic. -/
structure TopicRouteData where
  orderTopicConf : ByteString
  queueDatas : List QueueData
  brokerDatas : List BrokerData
  deriving DecidableEq

/-- The read bit of a permission, in two's complement. -/
def isReadable (perm : ℤ) : Bool := perm / 4 % 2 = 1

/-- The write bit of a permission, in two's complement. -/
def isWriteable (perm : ℤ) : Bool := perm / 2 % 2 = 1

/-- The address of the master, or else the first address of a broker; empty without addresses. -/
def selectBrokerAddr (data : BrokerData) : ByteString :=
  match data.brokerAddrs.find? masterId with
  | some addr => addr
  | none => match data.brokerAddrs.first? with
    | some entry => entry.2
    | none => []

/-- The stable sort of the queue data by broker name. -/
def sortQueueDatas (queueDatas : List QueueData) : List QueueData :=
  queueDatas.insertionSort fun first second ↦ first.brokerName ≤ second.brokerName

/-- The stable sort of the broker data by broker name. -/
def sortBrokerDatas (brokerDatas : List BrokerData) : List BrokerData :=
  brokerDatas.insertionSort fun first second ↦ first.brokerName ≤ second.brokerName

/-- Whether a route differs from an older one after both are sorted. -/
def topicRouteDataIsChange (old now : TopicRouteData) : Bool :=
  decide (sortBrokerDatas old.brokerDatas ≠ sortBrokerDatas now.brokerDatas ∨
    old.orderTopicConf ≠ now.orderTopicConf ∨
    sortQueueDatas old.queueDatas ≠ sortQueueDatas now.queueDatas)

/-! ### Queues of a route -/

/-- The queues of a topic on a broker with ids below a count. -/
def queuesBelow (topic brokerName : ByteString) (count : ℤ) : List MessageQueue :=
  (List.range count.toNat).map fun index ↦ ⟨topic, brokerName, index⟩

/-- The value of decimal digits behind a value; reading stops at the first other byte. -/
def atoiDigits : ℤ → ByteString → ℤ
  | value, [] => value
  | value, byte :: rest =>
    if 48 ≤ byte.val ∧ byte.val ≤ 57 then atoiDigits (10 * value + (byte.val - 48)) rest else value

/-- The number at the start of a text, behind spaces and a sign. -/
def atoi (text : ByteString) : ℤ :=
  match (cString text).dropWhile fun byte ↦ byte = 32 ∨ (9 ≤ byte ∧ byte ≤ 13) with
  | 45 :: rest => -atoiDigits 0 rest
  | 43 :: rest => atoiDigits 0 rest
  | other => atoiDigits 0 other

/-- `atoi` as an `int`: `strtol` stays in the range of 64 bits, of which the lower half is kept. -/
def atoiInt (text : ByteString) : ℤ :=
  toInt32 (max (-9223372036854775808) (min 9223372036854775807 (atoi text)))

/-- The first two pieces of an item, when the second one is there. -/
def itemOf (piece : ByteString) : Option (ByteString × ByteString) :=
  match piece.splitOn 58 with
  | name :: count :: _ => some (name, count)
  | _ => none

/-- The queues of one item, when its second piece is there. -/
def orderItem (topic piece : ByteString) : Option (List MessageQueue) :=
  (itemOf piece).map fun item ↦ queuesBelow topic item.1 (atoiInt item.2)

/-- The queues of one item of the order configuration. The source reads past the pieces of an item
without a colon; no queue is given there. -/
def orderItemQueues (topic piece : ByteString) : List MessageQueue :=
  (orderItem topic piece).getD []

/-- The queues that can be published to. -/
def topicRouteData2TopicPublishInfo (topic : ByteString) (route : TopicRouteData) :
    List MessageQueue :=
  if route.orderTopicConf ≠ [] then
    (route.orderTopicConf.splitOn 59).flatMap (orderItemQueues topic)
  else
    (sortQueueDatas route.queueDatas).flatMap fun data ↦
      if isWriteable data.perm then
        match route.brokerDatas.find? fun broker ↦ broker.brokerName = data.brokerName with
        | none => []
        | some broker =>
          if masterId ∈ broker.brokerAddrs then
            queuesBelow topic data.brokerName data.writeQueueNums
          else []
      else []

/-- The queues that can be subscribed to, as an ordered set. -/
def topicRouteData2TopicSubscribeInfo (topic : ByteString) (route : TopicRouteData) :
    List MessageQueue :=
  (route.queueDatas.flatMap fun data ↦
    if isReadable data.perm then queuesBelow topic data.brokerName data.readQueueNums
    else []).foldl (fun set queue ↦ insertQueue queue set) []

end RocketMQClient.Factory
