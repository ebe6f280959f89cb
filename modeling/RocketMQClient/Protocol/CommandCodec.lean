import RocketMQClient.Protocol.CommandDecode
import RocketMQClient.Protocol.CommandText
import RocketMQClient.Protocol.JsonMarks

/-!
# The codec of commands and custom headers

`RoundTrips` is what an encoded command should be: the JSON text of its head is an object of exactly
the fields of the command, with `extFields` an object of exactly the fields of the custom header,
and the headers that have both directions are decoded to themselves. `command_codec_iff` says for
which commands this is so.

The number of a field may stand in the document as a number or as the text of one. The order of
members does not matter.

The condition is on the command and not on its text. From a command whose head is read as its fields
it follows that the strings are plain, by counting quotes and backslashes
(`plainStrings_of_hasFields`), and for plain strings the members are compared one by one
(`hasFields_head_iff`, `hasFields_ext_iff`).
-/

set_option autoImplicit false
set_option relaxedAutoImplicit false

namespace RocketMQClient.Protocol

open Library

/-! ### Fields -/

/-- The value of a field. -/
inductive FieldValue where
  | text (value : ByteString)
  | number (value : ℤ)

/-- A value of a document that is the value of a field. -/
def FieldValue.IsCarriedBy : FieldValue → Value → Prop
  | text field, value => value = .string field
  | number field, value => value.number? = some (field : ℚ) ∨ value = .string (decimal field)

/-- An object with exactly the members of some names, and for each name a value as it should be. -/
def HasFields (fields : List (ByteString × (Value → Prop))) (value : Value) : Prop :=
  ∃ members object, List.Forall₂ (fun field member ↦ member.1 = field.1 ∧ field.2 member.2)
    fields members ∧ members.Perm object ∧ value = .object object

/-- The fields of the classes of custom headers. -/
def CommandCustomHeader.fields : CommandCustomHeader → List (ByteString × FieldValue)
  | getRouteInfoRequestHeader topic => [(ofString "topic", .text topic)]
  | subscriptionGroupConfigHeader groupName consumeEnable consumeFromMinEnable
      consumeBroadcastEnable retryQueueNums retryMaxTimes brokerId whichBrokerWhenConsumeSlowly =>
    [(ofString "groupName", .text groupName),
      (ofString "consumeEnable", .number (ofBool consumeEnable)),
      (ofString "consumeFromMinEnable", .number (ofBool consumeFromMinEnable)),
      (ofString "consumeBroadcastEnable", .number (ofBool consumeBroadcastEnable)),
      (ofString "retryQueueNums", .number retryQueueNums.toInt),
      (ofString "retryMaxTimes", .number retryMaxTimes.toInt),
      (ofString "brokerId", .number brokerId.toInt),
      (ofString "whichBrokerWhenConsumeSlowly", .number whichBrokerWhenConsumeSlowly.toInt)]
  | createTopicRequestHeader topic defaultTopic readQueueNums writeQueueNums perm
      topicFilterType =>
    [(ofString "topic", .text topic), (ofString "defaultTopic", .text defaultTopic),
      (ofString "readQueueNums", .number readQueueNums.toInt),
      (ofString "writeQueueNums", .number writeQueueNums.toInt),
      (ofString "perm", .number perm.toInt), (ofString "topicFilterType", .text topicFilterType)]
  | sendMessageRequestHeader producerGroup topic defaultTopic defaultTopicQueueNums queueId sysFlag
      bornTimestamp flag properties reconsumeTimes =>
    [(ofString "producerGroup", .text producerGroup), (ofString "topic", .text topic),
      (ofString "defaultTopic", .text defaultTopic),
      (ofString "defaultTopicQueueNums", .number defaultTopicQueueNums.toInt),
      (ofString "queueId", .number queueId.toInt), (ofString "sysFlag", .number sysFlag.toInt),
      (ofString "bornTimestamp", .number bornTimestamp.toInt),
      (ofString "flag", .number flag.toInt), (ofString "properties", .text properties),
      (ofString "reconsumeTimes", .number reconsumeTimes.toInt)]
  | sendMessageResponseHeader msgId queueId queueOffset =>
    [(ofString "msgId", .text msgId), (ofString "queueId", .number queueId.toInt),
      (ofString "queueOffset", .number queueOffset.toInt)]
  | pullMessageRequestHeader consumerGroup topic queueId queueOffset maxMsgNums sysFlag commitOffset
      suspendTimeoutMillis subscription subVersion =>
    [(ofString "consumerGroup", .text consumerGroup), (ofString "topic", .text topic),
      (ofString "queueId", .number queueId.toInt),
      (ofString "queueOffset", .number queueOffset.toInt),
      (ofString "maxMsgNums", .number maxMsgNums.toInt),
      (ofString "sysFlag", .number sysFlag.toInt),
      (ofString "commitOffset", .number commitOffset.toInt),
      (ofString "suspendTimeoutMillis", .number suspendTimeoutMillis.toInt),
      (ofString "subscription", .text subscription),
      (ofString "subVersion", .number subVersion.toInt)]
  | pullMessageResponseHeader suggestWhichBrokerId nextBeginOffset minOffset maxOffset =>
    [(ofString "suggestWhichBrokerId", .number suggestWhichBrokerId.toInt),
      (ofString "nextBeginOffset", .number nextBeginOffset.toInt),
      (ofString "minOffset", .number minOffset.toInt),
      (ofString "maxOffset", .number maxOffset.toInt)]
  | getConsumerListByGroupRequestHeader consumerGroup | notifyConsumerIdsChangedRequestHeader
      consumerGroup => [(ofString "consumerGroup", .text consumerGroup)]
  | getConsumerListByGroupResponseHeader | responseHaveNoCustomHeader => []
  | consumerSendMsgBackRequestHeader offset group delayLevel =>
    [(ofString "offset", .number offset.toInt), (ofString "group", .text group),
      (ofString "delayLevel", .number delayLevel.toInt)]
  | updateConsumerOffsetRequestHeader consumerGroup topic queueId commitOffset =>
    [(ofString "consumerGroup", .text consumerGroup), (ofString "topic", .text topic),
      (ofString "queueId", .number queueId.toInt),
      (ofString "commitOffset", .number commitOffset.toInt)]
  | queryConsumerOffsetRequestHeader consumerGroup topic queueId =>
    [(ofString "consumerGroup", .text consumerGroup), (ofString "topic", .text topic),
      (ofString "queueId", .number queueId.toInt)]
  | queryConsumerOffsetResponseHeader offset | searchOffsetResponseHeader offset
  | viewMessageRequestHeader offset => [(ofString "offset", .number offset.toInt)]
  | searchOffsetRequestHeader topic queueId timestamp =>
    [(ofString "topic", .text topic), (ofString "queueId", .number queueId.toInt),
      (ofString "timestamp", .number timestamp.toInt)]
  | getMinOffsetRequestHeader topic queueId | getMaxOffsetRequestHeader topic queueId
  | getEarliestMsgStoretimeRequestHeader topic queueId =>
    [(ofString "topic", .text topic), (ofString "queueId", .number queueId.toInt)]
  | getEarliestMsgStoretimeResponseHeader timestamp =>
    [(ofString "timestamp", .number timestamp.toInt)]
  | unregisterClientRequestHeader clientID producerGroup consumerGroup =>
    [(ofString "clientID", .text clientID), (ofString "producerGroup", .text producerGroup),
      (ofString "consumerGroup", .text consumerGroup)]

/-- The fields of the custom header of a command. -/
def extFieldsOf (customHeader : Option CommandCustomHeader) : List (ByteString × (Value → Prop)) :=
  match customHeader with
  | none => []
  | some header => header.fields.map fun field ↦ (field.1, field.2.IsCarriedBy)

/-- The fields of a command. -/
def headFields (command : RemotingCommand) : List (ByteString × (Value → Prop)) :=
  [(ofString "code", (FieldValue.number command.code.toInt).IsCarriedBy),
    (ofString "language", (FieldValue.text command.language).IsCarriedBy),
    (ofString "version", (FieldValue.number command.version.toInt).IsCarriedBy),
    (ofString "opaque", (FieldValue.number command.opaqueId.toInt).IsCarriedBy),
    (ofString "flag", (FieldValue.number command.flag.toInt).IsCarriedBy),
    (ofString "remark", (FieldValue.text command.remark).IsCarriedBy),
    (ofString "extFields", HasFields (extFieldsOf command.customHeader))]

/-! ### The codec -/

/-- The headers that have both directions are decoded from a frame to themselves. -/
def CommandCustomHeader.ReadsBack (header : CommandCustomHeader) (frame : ByteString) : Prop :=
  match header with
  | sendMessageResponseHeader _ _ _ =>
    CommandCustomHeader.decode sendMessageValue (frameDocument frame) true = .ok (some header)
  | pullMessageResponseHeader _ _ _ _ =>
    CommandCustomHeader.decode pullMessageValue (frameDocument frame) true = .ok (some header)
  | _ => True

/-- A command is encoded, the text behind the two lengths of its head is parsed to an object of its
fields, and its custom header is read back. -/
def RoundTrips (command : RemotingCommand) : Prop :=
  ∃ encoded, command.encode = some encoded ∧
    (∃ value, parse (encoded.head.drop 8) = .ok value ∧ HasFields (headFields command) value) ∧
      ∀ header ∈ command.customHeader, header.ReadsBack encoded.frame

/-- The classes of custom headers that have one direction, and an `Encode` for their fields. -/
def CommandCustomHeader.IsWritten : CommandCustomHeader → Prop
  | sendMessageResponseHeader _ _ _ | pullMessageResponseHeader _ _ _ _
  | queryConsumerOffsetResponseHeader _ | searchOffsetResponseHeader _
  | getEarliestMsgStoretimeResponseHeader _ | notifyConsumerIdsChangedRequestHeader _ => False
  | _ => True

/-- A number without quotes has at most 53 significant bits. -/
def Pasted.IsExact : Pasted → Prop
  | number value => HasSignificand value
  | _ => True

/-- The condition for the codec: a short head of a C++ client, strings without a quote, a backslash
and a zero byte, numbers that a double can hold, and a custom header of a class that is written. -/
structure Encodable (command : RemotingCommand) : Prop where
  language : command.language = ofString "CPP"
  short : command.headText.length + 8 ≤ 2147483647
  plain : command.PlainStrings
  noZero : command.NoZero
  exact : ∀ member ∈ extMembers command.customHeader, member.2.IsExact
  written : ∀ header ∈ command.customHeader, header.IsWritten

/-- The value of the field that is pasted. -/
def Pasted.field : Pasted → FieldValue
  | text value => .text value
  | number value | quotedNumber value => .number value

/-- What is written for a header are its fields. -/
theorem CommandCustomHeader.fields_eq_of_written {header : CommandCustomHeader}
    {members : List (ByteString × Pasted)} (hmembers : header.written = some members) :
    header.fields = members.map fun member ↦ (member.1, member.2.field) := by
  cases header <;> first
    | obtain rfl := Option.some.inj hmembers
      rfl
    | exact absurd hmembers.symm (Option.some_ne_none members)

/-! ### The strings of a command that round-trips -/

variable {command encoded : RemotingCommand} {value : Value}
  {fields : List (ByteString × (Value → Prop))}

/-- The need of the names and of the values of some fields. -/
theorem need_of_hasFields {bounds : List ℕ} {depth : ℕ}
    (hbounds : List.Forall₂ (fun field bound ↦ ∀ value, field.2 value → bound ≤ value.need depth)
      fields bounds) (hvalue : HasFields fields value) :
    (fields.map fun field ↦ need field.1).sum + bounds.sum ≤ value.need (depth + 1) := by
  obtain ⟨members, object, hmembers, hperm, rfl⟩ := hvalue
  have hsum : (Value.object object).need (depth + 1) =
      (members.map fun member ↦ need member.1 + member.2.need depth).sum :=
    (hperm.map _).sum_eq.symm
  rw [hsum]
  clear hsum hperm
  induction hmembers generalizing bounds with
  | nil =>
    rw [List.forall₂_nil_left_iff] at hbounds
    simp [hbounds]
  | cons hmember _ ih =>
    obtain ⟨bound, others, hbound, hothers, rfl⟩ := List.forall₂_cons_left_iff.mp hbounds
    have hrest := ih hothers
    have hfirst := hbound _ hmember.2
    simp only [List.map_cons, List.sum_cons, hmember.1]
    omega

/-- The need of a pasted value. -/
def Pasted.need : Pasted → ℕ
  | text value => Protocol.need value
  | _ => 0

theorem Pasted.marks_paste_le (pasted : Pasted) : marks pasted.paste ≤ pasted.need := by
  cases pasted with
  | text value =>
    rw [paste, marks_quoted]
    exact marks_le_need value
  | number value => exact (marks_decimal value).le
  | quotedNumber value =>
    rw [paste, marks_quoted, marks_decimal]
    exact Nat.zero_le _

/-- A pasted value that needs no more than it has marks has a plain string. -/
theorem Pasted.isPlain_of_need_le {pasted : Pasted} (hneed : pasted.need ≤ marks pasted.paste) :
    pasted.IsPlain := by
  cases pasted with
  | text value =>
    rw [paste, marks_quoted] at hneed
    exact plain_of_need_le hneed
  | number value => trivial
  | quotedNumber value => trivial

/-- A value that carries a field needs what is pasted for the field. -/
theorem Pasted.need_le_of_isCarriedBy {pasted : Pasted} (hvalue : pasted.field.IsCarriedBy value) :
    pasted.need ≤ value.need 0 := by
  cases pasted with
  | text text =>
    obtain rfl : value = .string text := hvalue
    exact le_rfl
  | number number => exact Nat.zero_le _
  | quotedNumber number => exact Nat.zero_le _

section Written

variable {header : CommandCustomHeader} {members : List (ByteString × Pasted)}

theorem extMembers_of_written (hmembers : header.written = some members) :
    extMembers (some header) = members := by
  rw [extMembers, Option.bind_some, hmembers, Option.getD_some]

/-- A header that is written has the fields of its members. -/
theorem extFieldsOf_of_written (hmembers : header.written = some members) :
    extFieldsOf (some header) =
      members.map fun member ↦ (member.1, member.2.field.IsCarriedBy) := by
  rw [extFieldsOf, CommandCustomHeader.fields_eq_of_written hmembers, List.map_map]
  rfl

end Written

/-- The need of the members of a custom header that are written. -/
theorem need_of_extFields {customHeader : Option CommandCustomHeader}
    (hvalue : HasFields (extFieldsOf customHeader) value) :
    ((extMembers customHeader).map fun member ↦ need member.1 + member.2.need).sum ≤
      value.need 1 := by
  cases hwritten : customHeader.bind CommandCustomHeader.written with
  | none => simp [extMembers, hwritten]
  | some members =>
    obtain ⟨header, rfl, hmembers⟩ := Option.bind_eq_some_iff.mp hwritten
    have hext := extMembers_of_written hmembers
    have hfields := extFieldsOf_of_written hmembers
    rw [hfields] at hvalue
    have hbounds := @need_of_hasFields value _ (members.map fun member ↦ member.2.need) 0
      (by
        rw [List.forall₂_map_left_iff, List.forall₂_map_right_iff, List.forall₂_same]
        exact fun member _ value hvalue ↦ Pasted.need_le_of_isCarriedBy hvalue) hvalue
    rw [hext, List.sum_map_add]
    simpa [List.map_map, Function.comp_def] using hbounds

/-- The need of the remark and of the custom header of a head is at most its marks. -/
theorem need_of_headFields (hparse : parse command.headText = .ok value)
    (hvalue : HasFields (headFields command) value) :
    need command.remark +
        ((extMembers command.customHeader).map fun member ↦ need member.1 + member.2.need).sum ≤
      marks command.remark + ((extMembers command.customHeader).map fun member ↦
        marks member.1 + marks member.2.paste).sum := by
  have hbounds := @need_of_hasFields value (headFields command)
    [0, 0, 0, 0, 0, need command.remark,
      ((extMembers command.customHeader).map fun member ↦ need member.1 + member.2.need).sum] 1
    (by
      have hzero : ∀ (name : ByteString) (property : Value → Prop) (value : Value),
          (name, property).2 value → 0 ≤ value.need 1 := fun _ _ _ _ ↦ Nat.zero_le _
      refine .cons (hzero _ _) (.cons (hzero _ _) (.cons (hzero _ _) (.cons (hzero _ _) (.cons
        (hzero _ _) (.cons (fun value hremark ↦ ?_) (.cons (fun value hext ↦ ?_) .nil))))))
      · obtain rfl : value = .string command.remark := hremark
        exact le_rfl
      · exact need_of_extFields hext) hvalue
  have hmarks := (need_parse hparse 2).trans_eq (by
    rw [RemotingCommand.headText, extText_eq, marks_pasteObject])
  simp only [List.map_cons, List.map_nil, List.sum_cons, List.sum_nil, marks_quoted, marks_decimal,
    marks_pasteObject, List.map_map, Function.comp_def] at hmarks
  have hnames : ((headFields command).map fun field ↦ need field.1).sum = 2 := rfl
  have hmarked : marks (ofString "code") = 0 ∧ marks (ofString "language") = 1 ∧
      marks (ofString "CPP") = 0 ∧ marks (ofString "version") = 0 ∧ marks (ofString "opaque") = 1 ∧
        marks (ofString "flag") = 0 ∧ marks (ofString "remark") = 0 ∧
          marks (ofString "extFields") = 0 := by decide
  rw [hnames] at hbounds
  simp only [List.sum_cons, List.sum_nil, Nat.reduceAdd] at hbounds
  simp only [hmarked] at hmarks
  omega

/-- The strings of a command whose head is an object of its fields are plain. -/
theorem plainStrings_of_hasFields (hparse : parse command.headText = .ok value)
    (hvalue : HasFields (headFields command) value) : command.PlainStrings := by
  have hneed := need_of_headFields hparse hvalue
  have hmember : ∀ member ∈ extMembers command.customHeader,
      marks member.1 + marks member.2.paste ≤ need member.1 + member.2.need :=
    fun member _ ↦ Nat.add_le_add (marks_le_need member.1) member.2.marks_paste_le
  have hremark := marks_le_need command.remark
  have hsum := List.sum_le_sum hmember
  refine ⟨plain_of_need_le (by omega), fun member hmem ↦ Pasted.isPlain_of_need_le ?_⟩
  by_contra hlarge
  have hstrict := List.sum_lt_sum _ _ hmember ⟨member, hmem, by
    have hname := marks_le_need member.1
    omega⟩
  omega

/-! ### A head of plain strings -/

/-- The order of members with different names is that of their names. -/
theorem eq_of_perm {members object : List (ByteString × Value)} (hperm : members.Perm object)
    (hnames : members.map Prod.fst = object.map Prod.fst)
    (hnodup : (object.map Prod.fst).Nodup) : members = object := by
  induction members generalizing object with
  | nil => exact hperm.nil_eq
  | cons member members ih =>
    cases object with
    | nil => exact absurd hnames (by simp)
    | cons other object =>
      simp only [List.map_cons, List.cons.injEq] at hnames
      rw [List.map_cons, List.nodup_cons] at hnodup
      obtain hequal | hmem := List.mem_cons.mp (hperm.subset List.mem_cons_self)
      · subst hequal
        rw [ih hperm.cons_inv hnames.2 hnodup.2]
      · exact absurd (hnames.1 ▸ List.mem_map_of_mem hmem) hnodup.1

/-- An object whose members are different and in the order of some fields has these fields exactly
when each member has the value of its field. -/
theorem hasFields_object_iff {object : List (ByteString × Value)}
    (hnames : fields.map Prod.fst = object.map Prod.fst) (hnodup : (object.map Prod.fst).Nodup) :
    HasFields fields (.object object) ↔
      List.Forall₂ (fun field member ↦ member.1 = field.1 ∧ field.2 member.2) fields object := by
  constructor
  · rintro ⟨members, other, hmembers, hperm, hequal⟩
    obtain rfl := Value.object.inj hequal
    have hsame : members.map Prod.fst = fields.map Prod.fst := by
      clear hperm hnames hnodup hequal
      induction hmembers with
      | nil => rfl
      | cons hmember _ ih => rw [List.map_cons, List.map_cons, ih, hmember.1]
    rwa [← eq_of_perm hperm (hsame.trans hnames) hnodup]
  · exact fun hmembers ↦ ⟨object, object, hmembers, .refl _, rfl⟩

/-! ### The condition -/

/-- A number that is read is not convertible to a string. -/
theorem not_hasString_numberValue (number : ℤ) : ¬ (numberValue number).HasString := by
  rw [numberValue]
  have hbranch : ∀ {condition : Prop} [Decidable condition] {first second : Value},
      ¬ first.HasString → ¬ second.HasString →
        ¬ (if condition then first else second).HasString := by
    intro condition _ first second hfirst hsecond
    split
    · exact hfirst
    · exact hsecond
  exact hbranch (hbranch id id) id

/-- A pasted value that is read carries its field exactly when it has no zero byte and its number is
exact. -/
theorem Pasted.isCarriedBy_read_iff {pasted : Pasted} (hword : pasted.IsWord) :
    pasted.field.IsCarriedBy pasted.read ↔ pasted.NoZero ∧ pasted.IsExact := by
  cases pasted with
  | text text =>
    refine Iff.trans ?_ (and_iff_left trivial).symm
    constructor
    · intro hcarried
      have hcut : cString text = text := Value.string.inj hcarried
      exact fun hmem ↦ zero_not_mem_cString text (hcut.symm ▸ hmem)
    · exact fun hzero ↦ congrArg Value.string (cString_eq_self hzero)
  | number number =>
    refine Iff.trans ?_ (and_iff_right trivial).symm
    have hstring : numberValue number ≠ .string (decimal number) := fun hequal ↦
      not_hasString_numberValue number (hequal ▸ trivial)
    exact (or_iff_left hstring).trans (number?_numberValue hword)
  | quotedNumber number =>
    refine iff_of_true (Or.inr ?_) ⟨trivial, trivial⟩
    exact congrArg Value.string (cString_eq_self (decimal_plainName number).2)

/-- The members of a custom header that are read are its fields exactly when the fields are written,
without a zero byte and with exact numbers. -/
theorem hasFields_ext_iff (customHeader : Option CommandCustomHeader) :
    HasFields (extFieldsOf customHeader)
        (.object ((extMembers customHeader).map fun member ↦ (member.1, member.2.read))) ↔
      (∀ header ∈ customHeader, header.written = none → header.fields = []) ∧
        ∀ member ∈ extMembers customHeader, member.2.NoZero ∧ member.2.IsExact := by
  cases hwritten : customHeader.bind CommandCustomHeader.written with
  | none =>
    have hempty : extMembers customHeader = [] := by rw [extMembers, hwritten, Option.getD_none]
    rw [hempty, and_iff_left (List.forall_mem_nil _)]
    cases customHeader with
    | none =>
      refine iff_of_true ?_ (by simp)
      exact (@hasFields_object_iff [] [] rfl List.nodup_nil).mpr .nil
    | some header =>
      have hnone : header.written = none := hwritten
      constructor
      · rintro ⟨members, object, hmembers, hperm, hequal⟩ other hother -
        obtain rfl := Option.some.inj hother
        obtain rfl := Value.object.inj hequal
        obtain rfl : members = [] := hperm.eq_nil
        exact List.map_eq_nil_iff.mp (List.forall₂_nil_right_iff.mp hmembers)
      · intro hfields
        rw [extFieldsOf, hfields header rfl hnone]
        exact (@hasFields_object_iff [] [] rfl List.nodup_nil).mpr .nil
  | some members =>
    obtain ⟨header, rfl, hmembers⟩ := Option.bind_eq_some_iff.mp hwritten
    obtain ⟨-, hnodup, hwords⟩ := extMembers_spec (some header)
    have hext := extMembers_of_written hmembers
    have hfields := extFieldsOf_of_written hmembers
    rw [hext] at hnodup hwords ⊢
    have hthere : ∀ other ∈ some header, other.written = none → other.fields = [] := by
      rintro other hother hnone
      obtain rfl := Option.some.inj hother
      exact absurd (hmembers.symm.trans hnone) (Option.some_ne_none members)
    rw [and_iff_right hthere, hfields, hasFields_object_iff (by simp)
      (by simpa [Function.comp_def] using hnodup), List.forall₂_map_left_iff,
      List.forall₂_map_right_iff, List.forall₂_same]
    exact forall₂_congr fun member hmember ↦
      (and_iff_right rfl).trans (Pasted.isCarriedBy_read_iff (hwords member hmember))

/-- The members of a head that are read are the fields of its command exactly when its language is
that of the client, its remark has no zero byte, and the custom header is read. -/
theorem hasFields_head_iff :
    HasFields (headFields command) (.object (headReads command)) ↔
      command.language = ofString "CPP" ∧ 0 ∉ command.remark ∧
        HasFields (extFieldsOf command.customHeader) (.object
          ((extMembers command.customHeader).map fun member ↦ (member.1, member.2.read))) := by
  have hnumber : ∀ word : BitVec 32,
      (FieldValue.number word.toInt).IsCarriedBy (numberValue word.toInt) := by
    intro word
    have hupper : 2 * word.toInt < ((2 ^ 32 : ℕ) : ℤ) := by
      exact_mod_cast BitVec.two_mul_toInt_lt
    have hlower : -((2 ^ 32 : ℕ) : ℤ) ≤ 2 * word.toInt := by
      exact_mod_cast BitVec.le_two_mul_toInt
    exact Or.inl ((number?_numberValue (isWord_int word)).mpr (hasSignificand_of_lt (by omega)))
  have hremark : (FieldValue.text command.remark).IsCarriedBy (.ofStdString command.remark) ↔
      0 ∉ command.remark :=
    (@Pasted.isCarriedBy_read_iff (.text command.remark) trivial).trans (and_iff_left trivial)
  have hlanguage : (FieldValue.text command.language).IsCarriedBy
      (.ofStdString (ofString "CPP")) ↔ command.language = ofString "CPP" :=
    ⟨fun hequal ↦ (Value.string.inj hequal).symm, fun hequal ↦ congrArg Value.string hequal.symm⟩
  rw [hasFields_object_iff rfl (headReads_names command), headFields, headReads]
  simp only [List.forall₂_cons, List.forall₂_nil_left_iff, hnumber, hlanguage, hremark, true_and,
    and_true]

/-- The text behind the two lengths is the head. -/
theorem drop_head (hencoded : command.encode = some encoded) :
    encoded.head.drop 8 = command.headText := by
  rw [RemotingCommand.encode] at hencoded
  split at hencoded
  · obtain rfl := Option.some.inj hencoded
    show (bigEndian 4 _ ++ (bigEndian 4 _ ++ command.headText)).drop 8 = command.headText
    rw [← List.append_assoc, List.drop_left' (by simp)]
  · exact absurd hencoded.symm (Option.some_ne_none encoded)

/-- The document of a frame whose strings are plain and have no zero byte. -/
theorem parse_frameDocument (hplain : command.PlainStrings) (hzero : command.NoZero)
    (hencoded : command.encode = some encoded) :
    parse (frameDocument encoded.frame) = .ok (.object (headReads command)) := by
  rw [frameDocument_frame hencoded, cString_append_of_not_mem (zero_not_mem_headText hzero)]
  exact parse_headText hplain _

/-- The headers that have both directions are not decoded to themselves, since their numbers are
written as numbers and read as strings. -/
theorem isWritten_of_readsBack (hplain : command.PlainStrings) (hzero : command.NoZero)
    (hencoded : command.encode = some encoded) {header : CommandCustomHeader}
    (hheader : command.customHeader = some header)
    (hfields : header.written = none → header.fields = [])
    (hreadsBack : header.ReadsBack encoded.frame) : header.IsWritten := by
  have hparsed := parse_frameDocument hplain hzero hencoded
  have hnumber : ∀ (name : String) (number : ℤ) {code : ℤ} {names : List String},
      CommandCustomHeader.decode code (frameDocument encoded.frame) true = .ok (some header) →
        CommandCustomHeader.members code true = some names → name ∈ names →
        ((Value.object (headReads command)).memberAt "extFields").memberAt name =
          numberValue number → header.IsWritten := by
    intro name number code names hdecode hmembers hname hmember
    have htyped := (CommandCustomHeader.decode_succeeds_iff hparsed trivial code true).mp
      ⟨_, hdecode⟩ names hmembers
    have hstring := htyped.2 name hname
    rw [hmember] at hstring
    exact absurd hstring (not_hasString_numberValue number)
  cases header with
  | sendMessageResponseHeader msgId queueId queueOffset =>
    refine hnumber "queueId" queueId.toInt hreadsBack rfl (by simp) ?_
    rw [headReads, hheader]
    rfl
  | pullMessageResponseHeader suggestWhichBrokerId nextBeginOffset minOffset maxOffset =>
    refine hnumber "minOffset" minOffset.toInt hreadsBack rfl (by simp) ?_
    rw [headReads, hheader]
    rfl
  | queryConsumerOffsetResponseHeader offset | searchOffsetResponseHeader offset
  | getEarliestMsgStoretimeResponseHeader timestamp
  | notifyConsumerIdsChangedRequestHeader consumerGroup =>
    exact absurd (hfields rfl) (List.cons_ne_nil _ _)
  | _ => trivial

/-- A header of a class that is written has its fields in the text, and is not decoded. -/
theorem CommandCustomHeader.IsWritten.fields_eq {header : CommandCustomHeader}
    (hwritten : header.IsWritten) (frame : ByteString) :
    (header.written = none → header.fields = []) ∧ header.ReadsBack frame := by
  cases header <;> first
    | exact hwritten.elim
    | exact ⟨fun _ ↦ rfl, trivial⟩
    | exact ⟨fun hnone ↦ absurd hnone.symm (Option.some_ne_none _).symm, trivial⟩

/-- A command that round-trips is encodable. -/
theorem encodable_of_roundTrips (hroundTrips : RoundTrips command) : Encodable command := by
  obtain ⟨encoded, hencoded, ⟨value, hparse, hvalue⟩, hreadsBack⟩ := hroundTrips
  rw [drop_head hencoded] at hparse
  have hplain := plainStrings_of_hasFields hparse hvalue
  have hequal := parse_headText hplain []
  rw [List.append_nil] at hequal
  obtain rfl := Except.ok.inj (hparse.symm.trans hequal)
  obtain ⟨hlanguage, hremark, hext⟩ := hasFields_head_iff.mp hvalue
  obtain ⟨hfields, hmembers⟩ := (hasFields_ext_iff command.customHeader).mp hext
  have hzero : command.NoZero := ⟨hremark, fun member hmember ↦ (hmembers member hmember).1⟩
  exact ⟨hlanguage, (frame_eq hencoded).2, hplain, hzero,
    fun member hmember ↦ (hmembers member hmember).2, fun header hheader ↦
      isWritten_of_readsBack hplain hzero hencoded hheader (hfields header hheader)
        (hreadsBack header hheader)⟩

/-- An encodable command round-trips. -/
theorem roundTrips_of_encodable (hencodable : Encodable command) : RoundTrips command := by
  obtain ⟨hlanguage, hshort, hplain, hzero, hexact, hwritten⟩ := hencodable
  have hencoded : command.encode = some _ := if_pos hshort
  refine ⟨_, hencoded, ⟨.object (headReads command), ?_, ?_⟩, fun header hheader ↦
    ((hwritten header hheader).fields_eq _).2⟩
  · have hequal := parse_headText hplain []
    rwa [List.append_nil, ← drop_head hencoded] at hequal
  · exact hasFields_head_iff.mpr ⟨hlanguage, hzero.remark,
      (hasFields_ext_iff command.customHeader).mpr
        ⟨fun header hheader ↦ ((hwritten header hheader).fields_eq []).1,
          fun member hmember ↦ ⟨hzero.customHeader member hmember, hexact member hmember⟩⟩⟩

/-- A command round-trips exactly when it is encodable. -/
theorem command_codec_iff (command : RemotingCommand) : RoundTrips command ↔ Encodable command :=
  ⟨encodable_of_roundTrips, roundTrips_of_encodable⟩

/-- A send of a message with a quote in its properties. -/
def quotedProperties : RemotingCommand :=
  RemotingCommand.createRequestCommand 10 (some (.sendMessageRequestHeader (ofString "g")
    (ofString "t") (ofString "d") 4 0 0 0 0 (ofString "k\"v") 0)) 1 2

/-- The head of the send is no object of its fields. -/
theorem quoted_properties_not_carried : ¬ RoundTrips quotedProperties := by
  intro hroundTrips
  have hplain := (encodable_of_roundTrips hroundTrips).plain
  revert hplain
  decide

end RocketMQClient.Protocol
