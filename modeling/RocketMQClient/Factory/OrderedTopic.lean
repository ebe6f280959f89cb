import RocketMQClient.Factory.RouteQueues

/-!
# The configuration of an ordered topic

The queues of an ordered topic are given by items such as `broker:4`, separated by semicolons.
`topicRouteData2TopicPublishInfo` splits each item at its colons and reads the second piece as a
number, without looking whether there is one: an item without a colon, as behind a semicolon at the
end, has one piece only. `publishInfo` is that function with the access checked.

`parsedSafely_iff` says when all accesses are in range and the queues are those of the well-formed
items: when every item has a colon, and what an item that is not well-formed has behind its first
colon reads as no positive number. `trailing_separator_out_of_range` is the configuration `b:1;`.
-/

set_option autoImplicit false
set_option relaxedAutoImplicit false

namespace RocketMQClient.Factory

open Library Messages

/-! ### The operations of the source -/

/-- The loop over the items. -/
def orderItems (topic : ByteString) : List ByteString → Option (List MessageQueue)
  | [] => some []
  | piece :: rest =>
    (orderItem topic piece).bind fun queues ↦ (orderItems topic rest).map fun others ↦
      queues ++ others

/-- `topicRouteData2TopicPublishInfo`; nothing when a piece is accessed that is not there. -/
def publishInfo (topic : ByteString) (route : TopicRouteData) : Option (List MessageQueue) :=
  if route.orderTopicConf ≠ [] then orderItems topic (route.orderTopicConf.splitOn 59)
  else some (topicRouteData2TopicPublishInfo topic route)

/-! ### What the configuration says -/

/-- A decimal digit. -/
def isDigit (byte : Byte) : Bool := decide (48 ≤ byte.val ∧ byte.val ≤ 57)

/-- The number that some decimal digits write. -/
def numeral (digits : ByteString) : ℤ :=
  digits.foldl (fun value byte ↦ 10 * value + ((byte.val : ℤ) - 48)) 0

/-- The name and the number of an item that is a name, a colon and the digits of an `int`. -/
def wellFormedItem (piece : ByteString) : Option (ByteString × ℤ) :=
  match piece.splitOn 58 with
  | [name, digits] =>
    if name ≠ [] ∧ digits ≠ [] ∧ digits.all isDigit = true ∧ numeral digits ≤ 2147483647 then
      some (name, numeral digits)
    else none
  | _ => none

/-- The queues of the well-formed items, in their order. -/
def wellFormedQueues (topic : ByteString) (pieces : List ByteString) : List MessageQueue :=
  pieces.flatMap fun piece ↦
    ((wellFormedItem piece).map fun item ↦ queuesBelow topic item.1 item.2).getD []

/-- No access is out of range, and the queues are those of the well-formed items. -/
def ParsedSafely (topic : ByteString) (route : TopicRouteData) : Prop :=
  route.orderTopicConf ≠ [] → publishInfo topic route =
    some (wellFormedQueues topic (route.orderTopicConf.splitOn 59))

/-- An item has a colon, and if it is not well-formed, it gives no positive number. -/
def ReadsWell (piece : ByteString) : Prop :=
  ∃ item, itemOf piece = some item ∧ (wellFormedItem piece = none → atoiInt item.2 ≤ 0)

/-! ### Items -/

variable {topic piece name count : ByteString} {number : ℤ}

/-- The second piece of an item is there exactly when it has a colon. -/
theorem itemOf_isSome_iff : (∃ item, itemOf piece = some item) ↔ 58 ∈ piece := by
  unfold itemOf
  constructor
  · rintro ⟨item, hitem⟩
    by_contra hcolon
    rw [List.splitOn_eq_singleton hcolon] at hitem
    cases hitem
  · intro hcolon
    obtain ⟨before, after, rfl, hbefore⟩ := List.eq_append_cons_of_mem hcolon
    rw [List.splitOn_append_cons_self_of_not_mem hbefore]
    obtain ⟨second, rest, hsecond⟩ := List.exists_cons_of_ne_nil (List.splitOn_ne_nil 58 after)
    rw [hsecond]
    exact ⟨_, rfl⟩

/-- The digits of a number are read to their end. -/
theorem atoiDigits_eq {digits : ByteString} (hdigits : digits.all isDigit = true) (value : ℤ) :
    atoiDigits value digits =
      digits.foldl (fun value byte ↦ 10 * value + ((byte.val : ℤ) - 48)) value := by
  induction digits generalizing value with
  | nil => rfl
  | cons byte rest ih =>
    rw [List.all_cons, Bool.and_eq_true, isDigit, decide_eq_true_eq] at hdigits
    rw [atoiDigits, if_pos hdigits.1, ih hdigits.2, List.foldl_cons]

theorem isDigit_ne_zero {byte : Byte} (hdigit : isDigit byte = true) : byte ≠ 0 := by
  rintro rfl
  exact absurd hdigit (by decide)

/-- Digits are read as the number they write. -/
theorem atoi_of_digits {digits : ByteString} (hnonempty : digits ≠ [])
    (hdigits : digits.all isDigit = true) : atoi digits = numeral digits := by
  obtain ⟨first, rest, rfl⟩ := List.exists_cons_of_ne_nil hnonempty
  have hall := List.all_eq_true.mp hdigits
  have hzero : 0 ∉ first :: rest := fun hmem ↦ isDigit_ne_zero (hall 0 hmem) rfl
  have hfirst := hall first List.mem_cons_self
  rw [isDigit, decide_eq_true_eq] at hfirst
  have hspace : decide (first = 32 ∨ (9 ≤ first ∧ first ≤ 13)) = false := by
    rw [decide_eq_false_iff_not]
    rintro (rfl | ⟨-, hle⟩)
    · exact absurd hfirst (by decide)
    · have hval : first.val ≤ 13 := hle
      omega
  unfold atoi
  rw [cString_eq_self hzero, List.dropWhile_cons, hspace]
  simp only [Bool.false_eq_true, if_false]
  split
  · rename_i heq
    obtain ⟨rfl, -⟩ := List.cons.inj heq
    exact absurd hfirst (by decide)
  · rename_i heq
    obtain ⟨rfl, -⟩ := List.cons.inj heq
    exact absurd hfirst (by decide)
  · exact atoiDigits_eq hdigits 0

theorem foldl_numeral_nonneg {digits : ByteString} (hdigits : digits.all isDigit = true) {value : ℤ}
    (hvalue : 0 ≤ value) :
    0 ≤ digits.foldl (fun value byte ↦ 10 * value + ((byte.val : ℤ) - 48)) value := by
  induction digits generalizing value with
  | nil => exact hvalue
  | cons byte rest ih =>
    rw [List.all_cons, Bool.and_eq_true, isDigit, decide_eq_true_eq] at hdigits
    rw [List.foldl_cons]
    exact ih hdigits.2 (by omega)

/-- The pieces of a well-formed item. -/
theorem wellFormedItem_eq_some (hitem : wellFormedItem piece = some (name, number)) :
    ∃ digits, piece.splitOn 58 = [name, digits] ∧ name ≠ [] ∧ digits ≠ [] ∧
      digits.all isDigit = true ∧ numeral digits = number ∧ number ≤ 2147483647 := by
  unfold wellFormedItem at hitem
  split at hitem
  · rename_i found digits hsplit
    obtain ⟨⟨hname, hnonempty, hdigits, hmax⟩, hpair⟩ := Option.ite_none_right_eq_some.mp hitem
    obtain ⟨rfl, rfl⟩ := Prod.mk.inj (Option.some.inj hpair)
    exact ⟨digits, hsplit, hname, hnonempty, hdigits, rfl, hmax⟩
  · cases hitem

/-- The well-formed items are a name, a colon and digits that write an `int`. -/
theorem wellFormedItem_iff : wellFormedItem piece = some (name, number) ↔
    ∃ digits, piece = name ++ 58 :: digits ∧ 58 ∉ name ∧ name ≠ [] ∧ digits ≠ [] ∧
      digits.all isDigit = true ∧ numeral digits = number ∧ number ≤ 2147483647 := by
  constructor
  · intro hitem
    obtain ⟨digits, hsplit, hrest⟩ := wellFormedItem_eq_some hitem
    have hcolon : 58 ∈ piece := itemOf_isSome_iff.mp ⟨(name, digits), by rw [itemOf, hsplit]⟩
    obtain ⟨before, after, rfl, hbefore⟩ := List.eq_append_cons_of_mem hcolon
    rw [List.splitOn_append_cons_self_of_not_mem hbefore] at hsplit
    obtain ⟨rfl, hafter⟩ := List.cons.inj hsplit
    refine ⟨digits, ?_, hbefore, hrest⟩
    rw [← @List.intercalate_splitOn _ after _ _ 58, hafter]
    simp
  · rintro ⟨digits, rfl, hname, hnameNe, hnonempty, hdigits, rfl, hmax⟩
    have hcolon : 58 ∉ digits := fun hmem ↦
      absurd (List.all_eq_true.mp hdigits 58 hmem) (by decide)
    unfold wellFormedItem
    rw [List.splitOn_append_cons_self_of_not_mem hname, List.splitOn_eq_singleton hcolon]
    exact if_pos ⟨hnameNe, hnonempty, hdigits, hmax⟩

/-- A well-formed item gives its queues. -/
theorem orderItem_of_wellFormed (hitem : wellFormedItem piece = some (name, number)) :
    orderItem topic piece = some (queuesBelow topic name number) := by
  obtain ⟨digits, hsplit, -, hnonempty, hdigits, rfl, hmax⟩ := wellFormedItem_eq_some hitem
  have hnonneg : 0 ≤ numeral digits := foldl_numeral_nonneg hdigits le_rfl
  have hcount : atoiInt digits = numeral digits := by
    rw [atoiInt, atoi_of_digits hnonempty hdigits, min_eq_right (by omega), max_eq_right (by omega)]
    exact toInt32_eq_self (by omega) hmax
  rw [orderItem, itemOf, hsplit]
  exact congrArg (fun value ↦ some (queuesBelow topic name value)) hcount

theorem queuesBelow_eq_nil_iff {brokerName : ByteString} {value : ℤ} :
    queuesBelow topic brokerName value = [] ↔ value ≤ 0 := by
  rw [queuesBelow_eq, List.map_eq_nil_iff, List.range_eq_nil, Int.toNat_eq_zero]

/-! ### The whole configuration -/

/-- The loop gives at least the queues of the well-formed items. -/
theorem length_wellFormedQueues_le {pieces : List ByteString} {queues : List MessageQueue}
    (hqueues : orderItems topic pieces = some queues) :
    (wellFormedQueues topic pieces).length ≤ queues.length := by
  induction pieces generalizing queues with
  | nil => exact Nat.zero_le _
  | cons piece rest ih =>
    obtain ⟨first, hfirst, hmap⟩ := Option.bind_eq_some_iff.mp hqueues
    obtain ⟨others, hothers, rfl⟩ := Option.map_eq_some_iff.mp hmap
    have hrest := ih hothers
    rw [wellFormedQueues, List.flatMap_cons, ← wellFormedQueues, List.length_append,
      List.length_append]
    cases hitem : wellFormedItem piece with
    | none => simpa using Nat.le_add_left_of_le hrest
    | some item =>
      obtain rfl := Option.some.inj ((orderItem_of_wellFormed hitem).symm.trans hfirst)
      simpa using hrest

/-- The loop gives exactly the queues of the well-formed items exactly when every item reads well.
-/
theorem orderItems_eq_iff (pieces : List ByteString) :
    orderItems topic pieces = some (wellFormedQueues topic pieces) ↔
      ∀ piece ∈ pieces, ReadsWell piece := by
  induction pieces with
  | nil => exact iff_of_true rfl fun piece hpiece ↦ absurd hpiece List.not_mem_nil
  | cons piece rest ih =>
    rw [List.forall_mem_cons, ← ih, wellFormedQueues, List.flatMap_cons, ← wellFormedQueues,
      orderItems]
    cases hitem : wellFormedItem piece with
    | some item =>
      obtain ⟨pair, hpair⟩ : ∃ pair, itemOf piece = some pair := by
        obtain ⟨pair, hpair, -⟩ := Option.map_eq_some_iff.mp
          (@orderItem_of_wellFormed topic piece item.1 item.2 hitem)
        exact ⟨pair, hpair⟩
      have hwell : wellFormedItem piece ≠ none := hitem ▸ Option.some_ne_none item
      have hreads : ReadsWell piece := ⟨pair, hpair, fun hnone ↦ absurd hnone hwell⟩
      rw [@orderItem_of_wellFormed topic piece item.1 item.2 hitem, Option.bind_some,
        Option.map_eq_some_iff, and_iff_right hreads]
      constructor
      · rintro ⟨others, hothers, hsame⟩
        rw [hothers, List.append_cancel_left hsame]
      · exact fun hrest ↦ ⟨_, hrest, rfl⟩
    | none =>
      rw [Option.map_none, Option.getD_none, List.nil_append]
      constructor
      · intro hall
        obtain ⟨first, hfirst, hmap⟩ := Option.bind_eq_some_iff.mp hall
        obtain ⟨others, hothers, hsame⟩ := Option.map_eq_some_iff.mp hmap
        have hlength := congrArg List.length hsame
        rw [List.length_append] at hlength
        have hle := length_wellFormedQueues_le hothers
        have hnil : first = [] := List.eq_nil_of_length_eq_zero (by omega)
        obtain ⟨pair, hpair, hqueues⟩ := Option.map_eq_some_iff.mp hfirst
        refine ⟨⟨pair, hpair, fun _ ↦ queuesBelow_eq_nil_iff.mp (hqueues.trans hnil)⟩, ?_⟩
        rw [hothers, ← hsame, hnil, List.nil_append]
      · rintro ⟨⟨pair, hpair, hcount⟩, hrest⟩
        rw [orderItem, hpair, Option.map_some, Option.bind_some, hrest, Option.map_some,
          queuesBelow_eq_nil_iff.mpr (hcount hitem), List.nil_append]

/-! ### The function without the check -/

theorem flatMap_orderItemQueues_eq {pieces : List ByteString} {queues : List MessageQueue}
    (hqueues : orderItems topic pieces = some queues) :
    pieces.flatMap (orderItemQueues topic) = queues := by
  induction pieces generalizing queues with
  | nil => exact Option.some.inj hqueues
  | cons piece rest ih =>
    obtain ⟨first, hfirst, hmap⟩ := Option.bind_eq_some_iff.mp hqueues
    obtain ⟨others, hothers, rfl⟩ := Option.map_eq_some_iff.mp hmap
    rw [List.flatMap_cons, ih hothers, orderItemQueues, hfirst, Option.getD_some]

/-- The queues that are given are those of the function without the check. -/
theorem publishInfo_eq {route : TopicRouteData} {queues : List MessageQueue}
    (hqueues : publishInfo topic route = some queues) :
    topicRouteData2TopicPublishInfo topic route = queues := by
  unfold publishInfo at hqueues
  split_ifs at hqueues with hconf
  · rw [topicRouteData2TopicPublishInfo, if_pos hconf]
    exact flatMap_orderItemQueues_eq hqueues
  · exact Option.some.inj hqueues

/-! ### When the configuration is parsed safely -/

variable (topic) (route : TopicRouteData)

/-- The configuration of an ordered topic is parsed without an access out of range, and gives the
queues of its well-formed items, exactly when every item has a colon, and one that is not
well-formed gives no positive number. -/
theorem parsedSafely_iff :
    ParsedSafely topic route ↔ route.orderTopicConf = [] ∨
      ∀ piece ∈ route.orderTopicConf.splitOn 59, ReadsWell piece := by
  rw [ParsedSafely, publishInfo]
  by_cases hconf : route.orderTopicConf = []
  · exact iff_of_true (fun hne ↦ absurd hconf hne) (Or.inl hconf)
  · rw [if_pos hconf, orderItems_eq_iff]
    exact ⟨fun hall ↦ Or.inr (hall hconf), fun hor _ ↦ hor.resolve_left hconf⟩

/-- Behind the semicolon of `b:1;` is an item of one piece, of which the second one is accessed. -/
theorem trailing_separator_out_of_range :
    ¬ ParsedSafely [84] ⟨[98, 58, 49, 59], [], []⟩ ∧
      publishInfo [84] ⟨[98, 58, 49, 59], [], []⟩ = none := by
  have hnone : publishInfo [84] ⟨[98, 58, 49, 59], [], []⟩ = none := by decide
  refine ⟨fun hparsed ↦ ?_, hnone⟩
  have hsome := hparsed (List.cons_ne_nil _ _)
  rw [hnone] at hsome
  cases hsome

end RocketMQClient.Factory
