import RocketMQClient.Library.BinaryFloat
import RocketMQClient.Library.ByteString

/-!
# JSON values

The values of the bundled JSON library and the operations by which the program reads them. Strings
and the names of members are kept as C strings. A wrong kind of value either fails an assertion,
which ends the process, or raises a `std::runtime_error`.

The members of an object stand in the order in which their names first occurred; the library keeps
them in a map, in an order that no operation here observes.
-/

set_option autoImplicit false
set_option relaxedAutoImplicit false

namespace RocketMQClient.Protocol

open Library

/-- `MQJson::Value`. -/
inductive Value where
  | null
  | int (value : ℤ)
  | uint (value : ℕ)
  | real (value : Double)
  | string (text : ByteString)
  | boolean (value : Bool)
  | array (items : List Value)
  | object (members : List (ByteString × Value))

/-- How an operation on a value fails. -/
inductive ValueError where
  /-- `JSON_ASSERT`. -/
  | assertion
  /-- `JSON_ASSERT_MESSAGE`. -/
  | runtimeError (message : String)
  deriving DecidableEq

/-- `Value::minInt` and `Value::maxInt`. -/
def minInt : ℤ := -2147483648

def maxInt : ℤ := 2147483647

/-- The assignment to the member of a name. -/
def assignMember (name : ByteString) (value : Value) :
    List (ByteString × Value) → List (ByteString × Value)
  | [] => [(name, value)]
  | member :: rest =>
    if member.1 = name then (name, value) :: rest else member :: assignMember name value rest

/-- The value of the member of a name. -/
def findMember (name : ByteString) (members : List (ByteString × Value)) : Option Value :=
  (members.find? fun member ↦ decide (member.1 = name)).map Prod.snd

namespace Value

/-- The constructor from a `std::string`. -/
def ofStdString (text : ByteString) : Value := string (cString text)

/-- `operator[]` with the name of a member; a missing member is null. -/
def member (value : Value) (name : ByteString) : Except ValueError Value :=
  match value with
  | null => .ok null
  | object members => .ok ((findMember (cString name) members).getD null)
  | _ => .error .assertion

/-- `isNull`. -/
def isNull : Value → Bool
  | null => true
  | _ => false

/-- `asString`. -/
def asString : Value → Except ValueError ByteString
  | null => .ok []
  | string text => .ok text
  | boolean value => .ok (ofString (if value then "true" else "false"))
  | _ => .error (.runtimeError "Type is not convertible to string")

/-- `asInt`. -/
def asInt : Value → Except ValueError ℤ
  | null => .ok 0
  | int value => .ok value
  | uint value =>
    if value < maxInt then .ok value
    else .error (.runtimeError "integer out of signed integer range")
  | real (.finite value) =>
    if minInt ≤ value ∧ value ≤ maxInt then .ok (value.num.tdiv value.den)
    else .error (.runtimeError "Real out of signed integer range")
  | real (.infinite _) => .error (.runtimeError "Real out of signed integer range")
  | boolean value => .ok (if value then 1 else 0)
  | _ => .error (.runtimeError "Type is not convertible to int")

end Value

/-! ### Members -/

variable {name : ByteString} {value : Value} {members : List (ByteString × Value)}

/-- A new name is added at the end. -/
theorem assignMember_of_not_mem (hname : name ∉ members.map Prod.fst) :
    assignMember name value members = members ++ [(name, value)] := by
  induction members with
  | nil => rfl
  | cons member rest ih =>
    rw [List.map_cons, List.mem_cons, not_or] at hname
    rw [assignMember, if_neg (Ne.symm hname.1), ih hname.2, List.cons_append]

end RocketMQClient.Protocol
