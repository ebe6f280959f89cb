import RocketMQClient.Common.UtilAll
import RocketMQClient.Factory.ClientFactory
import RocketMQClient.Library.OrderedSet

/-!
# Subscriptions

`FilterAPI.buildSubscriptionData` makes the subscription of a topic from an expression: the text of
tags between `||`, each without the white space around it. The version of a new subscription is not
set, so it is what was in its memory.

`Alternative` says what the tags of an expression are, and `Selects` which tags an expression is
for. The function never throws, and makes the set of the alternatives and the set of their hash
codes (`exists_buildSubscriptionData`).
-/

set_option autoImplicit false
set_option relaxedAutoImplicit false

namespace RocketMQClient.Common

open Library Factory

/-- A subscription. -/
structure SubscriptionData where
  topic : ByteString
  subString : ByteString
  tagsSet : OrderedSet ByteString
  codeSet : OrderedSet ℤ
  subVersion : ℤ
  deriving DecidableEq

namespace SubscriptionData

/-- The expression for all messages. -/
def subAll : ByteString := ofString "*"

/-- Sets of subscriptions are ordered by the topic and the expression. -/
abbrev Key := ByteString ×ₗ ByteString

def key (data : SubscriptionData) : Key := toLex (data.topic, data.subString)

/-- Adds a tag and its hash code, unless nothing is left of it. -/
def insertTag (data : SubscriptionData) (tag : ByteString) : SubscriptionData :=
  if tag = [] then data
  else
    let trimString := UtilAll.trim tag
    if trimString = [] then data
    else
      { data with
        tagsSet := data.tagsSet.insert trimString
        codeSet := data.codeSet.insert (UtilAll.hashCode trimString) }

end SubscriptionData

open SubscriptionData

/-- Between the tags of an expression. -/
def tagDelimiter : ByteString := ofString "||"

theorem tagDelimiter_ne_nil : tagDelimiter ≠ [] := by decide

namespace FilterAPI

/-- The subscription of a topic with an expression. The version that is not set is `memory`. -/
def buildSubscriptionData (memory : ℤ) (topic subString : ByteString) :
    Except MQException SubscriptionData :=
  let subscriptionData : SubscriptionData :=
    ⟨topic, subString, OrderedSet.empty, OrderedSet.empty, memory⟩
  if subString = [] ∨ subString = subAll then
    .ok { subscriptionData with subString := subAll }
  else
    let out := UtilAll.split subString tagDelimiter tagDelimiter_ne_nil
    if out = [] then
      .error ⟨.client, ofString "FilterAPI subString split error", -1⟩
    else .ok (out.foldl insertTag subscriptionData)

end FilterAPI

/-! ### What an expression selects -/

/-- A tag that an expression names: it is not empty, and it stands between two delimiters or an end
of the expression, with nothing but white space around it. -/
def Alternative (expression tag : ByteString) : Prop :=
  tag ≠ [] ∧ ∃ pieces, Separated tagDelimiter expression pieces ∧
    ∃ piece ∈ pieces, Trimmed UtilAll.isWhitespace piece tag

/-- The expression is for all messages. -/
def SelectsAll (expression : ByteString) : Prop :=
  expression = [] ∨ expression = subAll ∨ ∀ tag, ¬ Alternative expression tag

/-- The expression is for the messages with a tag. -/
def Selects (expression tag : ByteString) : Prop :=
  SelectsAll expression ∨ Alternative expression tag

/-- The tags of an expression are the pieces of `split`, trimmed. -/
theorem alternative_iff {expression tag : ByteString} :
    Alternative expression tag ↔ tag ≠ [] ∧
      ∃ piece ∈ UtilAll.split expression tagDelimiter tagDelimiter_ne_nil,
        UtilAll.trim piece = tag := by
  have hsplit := UtilAll.separated_split tagDelimiter_ne_nil expression
  refine and_congr_right fun _ ↦ ⟨?_, ?_⟩
  · rintro ⟨pieces, hpieces, piece, hpiece, htrimmed⟩
    exact ⟨piece, hpieces.unique hsplit ▸ hpiece,
      (UtilAll.trimmed_trim piece).unique htrimmed⟩
  · rintro ⟨piece, hpiece, rfl⟩
    exact ⟨_, hsplit, piece, hpiece, UtilAll.trimmed_trim piece⟩

instance (expression tag : ByteString) : Decidable (Alternative expression tag) :=
  decidable_of_iff _ alternative_iff.symm

/-- No piece of an expression has a tag. -/
theorem forall_not_alternative_iff {expression : ByteString} :
    (∀ tag, ¬ Alternative expression tag) ↔
      ∀ piece ∈ UtilAll.split expression tagDelimiter tagDelimiter_ne_nil,
        UtilAll.trim piece = [] := by
  simp only [alternative_iff]
  constructor
  · intro hnone piece hpiece
    by_contra hne
    exact hnone _ ⟨hne, piece, hpiece, rfl⟩
  · rintro hblank tag ⟨hne, piece, hpiece, rfl⟩
    exact hne (hblank piece hpiece)

instance (expression : ByteString) : Decidable (SelectsAll expression) :=
  decidable_of_iff (expression = [] ∨ expression = subAll ∨
      ∀ piece ∈ UtilAll.split expression tagDelimiter tagDelimiter_ne_nil,
        UtilAll.trim piece = [])
    (or_congr_right (or_congr_right forall_not_alternative_iff.symm))

instance (expression tag : ByteString) : Decidable (Selects expression tag) :=
  inferInstanceAs (Decidable (_ ∨ _))

/-! ### What is built -/

namespace SubscriptionData

/-- The tags and the hash codes that are added. -/
structure Tagged (data : SubscriptionData) (tags : List ByteString) (tagged : SubscriptionData) :
    Prop where
  topic_eq : tagged.topic = data.topic
  subString_eq : tagged.subString = data.subString
  subVersion_eq : tagged.subVersion = data.subVersion
  mem_tagsSet : ∀ tag, tag ∈ tagged.tagsSet ↔ tag ∈ data.tagsSet ∨ tag ∈ tags
  mem_codeSet : ∀ code, code ∈ tagged.codeSet ↔
    code ∈ data.codeSet ∨ ∃ tag ∈ tags, UtilAll.hashCode tag = code

theorem trim_nil : UtilAll.trim [] = [] := rfl

/-- One piece of an expression adds its tag. -/
theorem tagged_insertTag (data : SubscriptionData) (piece : ByteString) :
    Tagged data ([UtilAll.trim piece].filter (· ≠ [])) (data.insertTag piece) := by
  have hnone : UtilAll.trim piece = [] → Tagged data ([UtilAll.trim piece].filter (· ≠ [])) data :=
    fun hnil ↦ by constructor <;> simp [hnil]
  unfold insertTag
  simp only
  split_ifs with hpiece htrim
  · exact hnone (by rw [hpiece, trim_nil])
  · exact hnone htrim
  · constructor <;> simp [htrim, or_comm, eq_comm]

theorem Tagged.append {data middle tagged : SubscriptionData} {first second : List ByteString}
    (hfirst : Tagged data first middle) (hsecond : Tagged middle second tagged) :
    Tagged data (first ++ second) tagged where
  topic_eq := hsecond.topic_eq.trans hfirst.topic_eq
  subString_eq := hsecond.subString_eq.trans hfirst.subString_eq
  subVersion_eq := hsecond.subVersion_eq.trans hfirst.subVersion_eq
  mem_tagsSet tag := by
    rw [hsecond.mem_tagsSet, hfirst.mem_tagsSet, List.mem_append, or_assoc]
  mem_codeSet code := by
    rw [hsecond.mem_codeSet, hfirst.mem_codeSet, or_assoc]
    simp only [List.mem_append, or_and_right, exists_or]

/-- The loop adds the tags of all pieces. -/
theorem tagged_foldl (pieces : List ByteString) (data : SubscriptionData) :
    Tagged data ((pieces.map UtilAll.trim).filter (· ≠ [])) (pieces.foldl insertTag data) := by
  induction pieces generalizing data with
  | nil => constructor <;> simp
  | cons piece rest ih =>
    have hboth := (tagged_insertTag data piece).append (ih (data.insertTag piece))
    rwa [← List.filter_append, List.singleton_append, ← List.map_cons] at hboth

end SubscriptionData

/-- What a subscription is for an expression. -/
structure Subscribes (memory : ℤ) (topic subString : ByteString) (data : SubscriptionData) :
    Prop where
  topic_eq : data.topic = topic
  subString_eq : data.subString = if subString = [] then subAll else subString
  subVersion_eq : data.subVersion = memory
  mem_tagsSet : ∀ tag, tag ∈ data.tagsSet ↔
    subString ≠ subAll ∧ Alternative subString tag
  mem_codeSet : ∀ code, code ∈ data.codeSet ↔ ∃ tag ∈ data.tagsSet, UtilAll.hashCode tag = code

/-- The empty expression names no tag. -/
theorem not_alternative_nil (tag : ByteString) : ¬ Alternative [] tag := by
  rintro ⟨hne, pieces, hpieces, piece, hpiece, htrimmed⟩
  have hwhole : Separated tagDelimiter [] [[]] :=
    .last [] fun hoccurs ↦ tagDelimiter_ne_nil (List.infix_nil.mp hoccurs)
  rw [hpieces.unique hwhole, List.mem_singleton] at hpiece
  rw [htrimmed.eq_trim, hpiece] at hne
  exact hne rfl

namespace FilterAPI

/-- The function returns, with the subscription for the expression. -/
theorem exists_buildSubscriptionData (memory : ℤ) (topic subString : ByteString) :
    ∃ data, buildSubscriptionData memory topic subString = .ok data ∧
      Subscribes memory topic subString data := by
  unfold buildSubscriptionData
  simp only
  split_ifs with hall hout
  · refine ⟨_, rfl, rfl, ?_, rfl, fun tag ↦ ?_, fun code ↦ ?_⟩
    · rcases hall with hempty | hstar
      · rw [if_pos hempty]
      · rw [hstar]
        rfl
    · refine iff_of_false (OrderedSet.not_mem_empty tag) fun htag ↦ ?_
      rcases hall with hempty | hstar
      · exact not_alternative_nil tag (hempty ▸ htag.2)
      · exact htag.1 hstar
    · exact iff_of_false (OrderedSet.not_mem_empty code) fun ⟨tag, htag, _⟩ ↦
        OrderedSet.not_mem_empty tag htag
  · exact absurd hout (UtilAll.separated_split tagDelimiter_ne_nil subString).ne_nil
  · rw [not_or] at hall
    have htagged := tagged_foldl (UtilAll.split subString tagDelimiter tagDelimiter_ne_nil)
      ⟨topic, subString, OrderedSet.empty, OrderedSet.empty, memory⟩
    have hmem : ∀ tag, tag ∈ ((UtilAll.split subString tagDelimiter tagDelimiter_ne_nil).map
        UtilAll.trim).filter (· ≠ []) ↔ Alternative subString tag := fun tag ↦ by
      rw [alternative_iff, List.mem_filter, List.mem_map, decide_eq_true_iff, and_comm]
    refine ⟨_, rfl, htagged.topic_eq, ?_, htagged.subVersion_eq, fun tag ↦ ?_, fun code ↦ ?_⟩
    · rw [htagged.subString_eq, if_neg hall.1]
    · rw [htagged.mem_tagsSet, hmem]
      simp [hall.2]
    · rw [htagged.mem_codeSet]
      simp only [htagged.mem_tagsSet, OrderedSet.not_mem_empty, false_or]

end FilterAPI

/-- Without tags a subscription is for all messages. -/
theorem Subscribes.selects_iff {memory : ℤ} {topic subString : ByteString}
    {data : SubscriptionData} (hdata : Subscribes memory topic subString data) (tag : ByteString) :
    Selects subString tag ↔ data.tagsSet.isEmpty = true ∨ tag ∈ data.tagsSet := by
  rw [OrderedSet.isEmpty_iff]
  simp only [hdata.mem_tagsSet]
  unfold Selects SelectsAll
  by_cases hstar : subString = subAll
  · simp [hstar]
  · by_cases hempty : subString = []
    · simp [hempty, not_alternative_nil]
    · simp [hstar, hempty]

end RocketMQClient.Common
