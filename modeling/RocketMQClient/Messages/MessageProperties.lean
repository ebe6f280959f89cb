import RocketMQClient.Common.SplitJoin
import RocketMQClient.Messages.StoredMessages

/-!
# The text of properties

`string2messageProperties` is two loops of `UtilAll::split`: one over the text at the separator
behind each property, and one over each piece at the separator between name and value
(`string2messageProperties_eq`). The text that `messageProperties2String` makes ends with a
separator, so that the last piece is empty and has one part; it is skipped, while an empty name or
an empty value still makes two parts. Properties without separators come back as they were
(`read_written_properties`).
-/

set_option autoImplicit false
set_option relaxedAutoImplicit false

namespace RocketMQClient.Messages

open Library Common

/-- Adds the property of two parts of a piece, as the source does it. -/
def addParts (properties : Properties) (outValue : List ByteString) : Properties :=
  match outValue with
  | [name, value] => properties.assign name value
  | _ => properties

/-- The two loops of the source, over the vectors that `Split` fills. -/
theorem string2messageProperties_eq (properties : Properties) (propertiesString : ByteString) :
    string2messageProperties properties propertiesString =
      (UtilAll.splitChar propertiesString propertySeparator).foldl
        (fun properties piece ↦ addParts properties (UtilAll.splitChar piece nameValueSeparator))
        properties := by
  simp only [UtilAll.splitChar_eq]
  rfl

/-- Properties without separators are read back from their text. -/
theorem read_written_properties (properties : Properties) (hfree : SeparatorFree properties) :
    string2messageProperties OrderedMap.empty (messageProperties2String properties) =
      properties :=
  (string2messageProperties_of_separatorFree _ hfree).trans (assignPairs_entries properties)

set_option maxRecDepth 2000 in
/-- A property with an empty name and one with an empty value. -/
theorem read_written_properties_empty :
    string2messageProperties OrderedMap.empty (messageProperties2String
      ((OrderedMap.empty.assign [] (ofString "v")).assign (ofString "k") [])) =
        (OrderedMap.empty.assign [] (ofString "v")).assign (ofString "k") [] :=
  read_written_properties _ (by decide)

end RocketMQClient.Messages
