import RocketMQClient.Messages.MessageDecoder

/-!
# Which replies are decoded safely

`decodes` trusts the lengths in the data. A call is safe when it reads inside the data, asks for no
negative size and returns a message; a run of `decodes` is safe when it ends and all its calls are
safe. `RecordInside` is the condition on the bytes at one position: the parts that the lengths there
describe lie inside the data, the topic has a non-negative length, and a compressed body does not
make a buffer length overflow. A length may be negative otherwise, and the next position may lie
before this one. `RecordChain` follows the positions until the end of the data, and
`decodes_safe_iff` says that it is exactly what makes a run safe.

The reads of a call are recorded as ranges, in the order in which the source makes them, also those
that follow a bad length, so that safety is a property of what was read and not of a check that the
source does not make. The condition goes by the bytes alone, and by induction along the positions; a
position may be negative, since a length may be.
-/

set_option autoImplicit false
set_option relaxedAutoImplicit false

namespace RocketMQClient.Messages

open Library Transport

/-- A call reads inside the data, asks for no negative size and returns a message. -/
structure DecodeCall.Safe (len : ℤ) (call : DecodeCall) : Prop where
  reads_inside : ∀ range ∈ call.reads, 0 < range.2 → 0 ≤ range.1 ∧ range.1 + range.2 ≤ len
  allocations_nonneg : ∀ size ∈ call.allocations, 0 ≤ size
  message_ne_null : call.message ≠ none

section Records

variable (host : ByteOrder) (inflate : Inflate) (memory : Memory) (len : ℤ)

/-- The bytes of the body at a position inflate without a buffer length that overflows. -/
def BodyInflates (position : ℤ) : Prop :=
  let bodyLen := bodyLenAt host memory position
  let sysFlag := ntohl host (memcpyInt host memory (position + 36))
  bodyLen > 0 → sysFlag &&& compressedSysFlag = compressedSysFlag →
    bodyLen % 1073741824 < 536870912 ∧
      inflate.Grows (bytesAt memory (position + 88) bodyLen.toNat)

/-- The parts of the record at a position lie inside the data. -/
structure RecordInside (position : ℤ) : Prop where
  start_nonneg : 0 ≤ position
  header_le : position + 88 ≤ len
  topic_start_nonneg : 0 ≤ (topicAt host memory position).1
  topicLen_nonneg : 0 ≤ (topicAt host memory position).2
  properties_le : (propertiesAt host memory position).1 + 2 ≤ len
  end_le : (propertiesAt host memory position).1 + 2 + (propertiesAt host memory position).2 ≤ len
  body_inflates : BodyInflates host inflate memory position

/-- The position behind the record at a position. -/
def recordEnd (position : ℤ) : ℤ :=
  (propertiesAt host memory position).1 + 2 + (propertiesAt host memory position).2

/-- The records that follow each other from a position lie inside the data and reach its end. -/
inductive RecordChain : ℤ → Prop
  | finished {position : ℤ} (hend : len ≤ position) : RecordChain position
  | record {position : ℤ} (hbefore : position < len)
      (hinside : RecordInside host inflate memory len position)
      (hrest : RecordChain (recordEnd host memory position)) : RecordChain position

end Records

/-! ### One call -/

section Calls

variable {host : ByteOrder} {inflate : Inflate} {memory : Memory} {len position : ℤ}

/-- The first buffer has a non-negative length. -/
theorem firstBufferLen_nonneg_iff {bodyLen : ℤ} :
    0 ≤ firstBufferLen bodyLen ↔ bodyLen % 1073741824 < 536870912 := by
  have hmod := Int.bmod_def (4 * bodyLen) 4294967296
  unfold firstBufferLen toInt32
  split_ifs at hmod <;> omega

/-- `setBody` asks for no negative size. -/
theorem setBody_allocations (body : ByteString) (size : ℤ) :
    ∀ asked ∈ (setBody body size).2, 0 ≤ asked := by
  unfold setBody
  split_ifs with hpositive
  · intro asked hasked
    rw [List.mem_singleton.mp hasked]
    omega
  · exact fun asked hasked ↦ absurd hasked List.not_mem_nil

/-- The sizes asked for while a body is set are non-negative. -/
theorem bodyOf_allocations_iff (sysFlag : BitVec 32) (body : ByteString) :
    (∀ size ∈ (bodyOf inflate sysFlag body).2, 0 ≤ size) ↔
      (sysFlag &&& compressedSysFlag = compressedSysFlag →
        (body.length : ℤ) % 1073741824 < 536870912 ∧ inflate.Grows body) := by
  have hdecompress : (∀ size ∈ (decompress inflate body).allocations, 0 ≤ size) ↔
      (body.length : ℤ) % 1073741824 < 536870912 ∧ inflate.Grows body := by
    have hcopied := (@copyPieces_grows (firstBufferLen body.length) 0 (inflate.pieces body) []
      (Or.inr rfl) (inflate.length_le body)).2
    show (∀ size ∈ firstBufferLen body.length ::
      (copyPieces (firstBufferLen body.length) [] 0 (inflate.pieces body)).allocations,
        0 ≤ size) ↔ _
    rw [List.forall_mem_cons, firstBufferLen_nonneg_iff, hcopied]
    rfl
  unfold bodyOf
  by_cases hflag : sysFlag &&& compressedSysFlag = compressedSysFlag
  · rw [if_pos hflag]
    have hsplit : ∀ (copied : ByteString) (size : ℤ),
        (∀ asked ∈ (decompress inflate body).allocations ++ (setBody copied size).2, 0 ≤ asked) ↔
          (sysFlag &&& compressedSysFlag = compressedSysFlag →
            (body.length : ℤ) % 1073741824 < 536870912 ∧ inflate.Grows body) := by
      intro copied size
      rw [List.forall_mem_append, hdecompress]
      exact ⟨fun hall _ ↦ hall.1, fun hall ↦ ⟨hall hflag, setBody_allocations copied size⟩⟩
    dsimp only
    split
    · exact hsplit _ _
    · exact hsplit _ _
  · rw [if_neg hflag]
    exact iff_of_true (setBody_allocations body body.length) fun hcompressed ↦
      absurd hcompressed hflag

/-- The part of a range condition for a list of ranges. -/
def RangesInside (len : ℤ) (ranges : List (ℤ × ℤ)) : Prop :=
  ∀ range ∈ ranges, 0 < range.2 → 0 ≤ range.1 ∧ range.1 + range.2 ≤ len

theorem rangesInside_append {first second : List (ℤ × ℤ)} :
    RangesInside len (first ++ second) ↔ RangesInside len first ∧ RangesInside len second :=
  List.forall_mem_append

theorem rangesInside_cons {start size : ℤ} {ranges : List (ℤ × ℤ)} :
    RangesInside len ((start, size) :: ranges) ↔
      (0 < size → 0 ≤ start ∧ start + size ≤ len) ∧ RangesInside len ranges :=
  List.forall_mem_cons

theorem rangesInside_nil : RangesInside len [] ↔ True :=
  iff_true_intro fun _ hrange ↦ absurd hrange List.not_mem_nil

/-- A read that takes place only for a positive size. -/
theorem rangesInside_of_positive {start size : ℤ} :
    RangesInside len (if size > 0 then [(start, size)] else []) ↔
      (0 < size → 0 ≤ start ∧ start + size ≤ len) := by
  by_cases hpositive : size > 0
  · rw [if_pos hpositive, rangesInside_cons, rangesInside_nil, and_true]
  · rw [if_neg hpositive, rangesInside_nil]
    exact iff_of_true trivial fun hsize ↦ absurd hsize hpositive

/-- The header lies inside the data exactly when its first and its last word do. -/
theorem rangesInside_headerReads :
    RangesInside len (headerReads position) ↔ 0 ≤ position ∧ position + 88 ≤ len := by
  constructor
  · intro hinside
    have hfirst := hinside (position, 4) (by simp [headerReads]) (by simp)
    have hlast := hinside (position + 84, 4) (by simp [headerReads]) (by simp)
    dsimp only at hfirst hlast
    omega
  · rintro ⟨hstart, hend⟩ range hrange _
    have hbounds : position ≤ range.1 ∧ range.1 + range.2 ≤ position + 88 := by
      simp only [headerReads, List.mem_cons, List.not_mem_nil, or_false] at hrange
      rcases hrange with rfl | rfl | rfl | rfl | rfl | rfl | rfl | rfl | rfl | rfl | rfl | rfl |
        rfl | rfl | rfl | rfl <;> (dsimp only; omega)
    omega

/-- A record whose topic has a length that `new` rejects gives NULL. -/
theorem decode_message_eq_none_iff :
    (decode host inflate true memory position).message = none ↔
      (topicAt host memory position).2 + 1 < 0 := by
  unfold decode
  by_cases hnegative : (topicAt host memory position).2 + 1 < 0
  · simp only [if_pos hnegative]
    exact iff_of_true trivial hnegative
  · simp only [if_neg hnegative]
    exact iff_of_false (Option.some_ne_none _) hnegative

/-- A topic of negative length is read beyond any data. -/
theorem sizeOfInt_inside {start size : ℤ} (hlen : len ≤ 2147483647) (hsize : -1 ≤ size) :
    (0 < sizeOfInt size → 0 ≤ start ∧ start + sizeOfInt size ≤ len) ↔
      0 ≤ size ∧ (0 < size → 0 ≤ start ∧ start + size ≤ len) := by
  unfold sizeOfInt
  by_cases hnegative : size < 0
  · rw [if_pos hnegative]
    omega
  · rw [if_neg hnegative]
    omega

/-- The reads of a call that returns a message. -/
theorem decode_reads_inside_iff (hlen : len ≤ 2147483647)
    (hnegative : ¬ (topicAt host memory position).2 + 1 < 0) :
    RangesInside len (decode host inflate true memory position).reads ↔
      0 ≤ position ∧ position + 88 ≤ len ∧ 0 ≤ (topicAt host memory position).1 ∧
        0 ≤ (topicAt host memory position).2 ∧
        (propertiesAt host memory position).1 + 2 ≤ len ∧
        (propertiesAt host memory position).1 + 2 + (propertiesAt host memory position).2 ≤
          len := by
  have htopic : (topicAt host memory position).1 =
    position + 88 + bodyLenAt host memory position := rfl
  have hproperties : (propertiesAt host memory position).1 =
    (topicAt host memory position).1 + 1 + (topicAt host memory position).2 := rfl
  unfold decode
  simp only [if_neg hnegative, rangesInside_append, rangesInside_headerReads, rangesInside_cons,
    rangesInside_nil, rangesInside_of_positive, and_true,
    sizeOfInt_inside hlen (show -1 ≤ (topicAt host memory position).2 by omega)]
  omega

/-- The sizes that a call asks for while it sets the body. -/
theorem bodyAllocations_iff :
    (∀ size ∈ (if bodyLenAt host memory position > 0 ∧ true = true then
        bodyOf inflate (ntohl host (memcpyInt host memory (position + 36)))
          (bytesAt memory (position + 88) (bodyLenAt host memory position).toNat)
      else (none, [])).2, 0 ≤ size) ↔ BodyInflates host inflate memory position := by
  unfold BodyInflates
  by_cases hpositive : bodyLenAt host memory position > 0
  · rw [if_pos ⟨hpositive, rfl⟩, bodyOf_allocations_iff, length_bytesAt,
      Int.toNat_of_nonneg hpositive.le]
    exact ⟨fun hall _ ↦ hall, fun hall ↦ hall hpositive⟩
  · rw [if_neg fun hboth ↦ hpositive hboth.1]
    exact iff_of_true (fun size hsize ↦ absurd hsize List.not_mem_nil)
      fun hcontra ↦ absurd hcontra hpositive

/-- The sizes that a call asks for when it returns a message. -/
theorem decode_allocations_iff (hnegative : ¬ (topicAt host memory position).2 + 1 < 0) :
    (∀ size ∈ (decode host inflate true memory position).allocations, 0 ≤ size) ↔
      BodyInflates host inflate memory position := by
  rw [← bodyAllocations_iff]
  unfold decode
  simp only [if_neg hnegative, List.forall_mem_append, List.forall_mem_singleton]
  refine ⟨fun hall ↦ hall.1.1, fun hall ↦ ⟨⟨hall, not_lt.mp hnegative⟩, ?_⟩⟩
  intro size hsize
  split_ifs at hsize with hpositive
  · rw [List.mem_singleton.mp hsize]
    omega
  · exact absurd hsize List.not_mem_nil

/-- A call is safe exactly when the record that it reads lies inside the data. -/
theorem decode_safe_iff (hlen : len ≤ 2147483647) :
    (decode host inflate true memory position).Safe len ↔
      RecordInside host inflate memory len position := by
  by_cases hnegative : (topicAt host memory position).2 + 1 < 0
  · refine iff_of_false (fun hsafe ↦ ?_) fun hinside ↦ ?_
    · exact hsafe.message_ne_null (decode_message_eq_none_iff.mpr hnegative)
    · have := hinside.topicLen_nonneg
      omega
  constructor
  · intro hsafe
    obtain ⟨hstart, hheader, htopicStart, htopicLen, hle, hend⟩ :=
      (decode_reads_inside_iff hlen hnegative).mp hsafe.reads_inside
    exact ⟨hstart, hheader, htopicStart, htopicLen, hle, hend,
      (decode_allocations_iff hnegative).mp hsafe.allocations_nonneg⟩
  · intro hinside
    refine ⟨(decode_reads_inside_iff hlen hnegative).mpr ?_,
      (decode_allocations_iff hnegative).mpr hinside.body_inflates, fun hnull ↦ ?_⟩
    · exact ⟨hinside.start_nonneg, hinside.header_le, hinside.topic_start_nonneg,
        hinside.topicLen_nonneg, hinside.properties_le, hinside.end_le⟩
    · exact hnegative (decode_message_eq_none_iff.mp hnull)

end Calls

/-! ### The loop -/

section Loop

variable {host : ByteOrder} {inflate : Inflate} {memory : Memory} {len position : ℤ}

/-- The lengths of a record that lies inside the data lead to the position behind it. -/
theorem next_position (hlen : len ≤ 2147483647)
    (hinside : RecordInside host inflate memory len position) (tmp : ℤ) :
    toInt32 (position + (decode host inflate true memory position).offset.getD tmp) =
      recordEnd host memory position := by
  have hshort : -32768 ≤ (propertiesAt host memory position).2 := by
    have := BitVec.le_toInt (ntohs host (memcpyShort host memory
      (propertiesAt host memory position).1))
    exact this
  have htopicLen := hinside.topicLen_nonneg
  have htopicStart := hinside.topic_start_nonneg
  have hend := hinside.end_le
  have hproperties : (propertiesAt host memory position).1 =
    (topicAt host memory position).1 + 1 + (topicAt host memory position).2 := rfl
  have htopic : (topicAt host memory position).1 =
    position + 88 + bodyLenAt host memory position := rfl
  have hoffset : (decode host inflate true memory position).offset = some (toInt32
      (88 + bodyLenAt host memory position + 1 + (topicAt host memory position).2 + 2 +
        (propertiesAt host memory position).2)) := by
    unfold decode
    simp only [if_neg (show ¬ (topicAt host memory position).2 + 1 < 0 by omega)]
  rw [hoffset, Option.getD_some]
  unfold toInt32
  rw [Int.add_bmod_bmod]
  have hsum : position + (88 + bodyLenAt host memory position + 1 +
      (topicAt host memory position).2 + 2 + (propertiesAt host memory position).2) =
    recordEnd host memory position := by
    unfold recordEnd
    omega
  rw [hsum]
  exact toInt32_eq_self (by unfold recordEnd; omega) (by unfold recordEnd; omega)

/-- A run whose calls are safe follows a chain of records. -/
theorem recordChain_of_decodesLoop (hlen : len ≤ 2147483647) {fuel : ℕ} {tmp : ℤ}
    {calls : List DecodeCall}
    (hloop : decodesLoop host inflate memory len fuel position tmp = some calls)
    (hsafe : ∀ call ∈ calls, call.Safe len) : RecordChain host inflate memory len position := by
  induction fuel generalizing position tmp calls with
  | zero =>
    rw [decodesLoop] at hloop
    split_ifs at hloop with hbefore
    exact RecordChain.finished (not_lt.mp hbefore)
  | succ fuel ih =>
    rw [decodesLoop] at hloop
    split_ifs at hloop with hbefore
    · obtain ⟨rest, hrest, rfl⟩ := Option.map_eq_some_iff.mp hloop
      have hinside := (decode_safe_iff hlen).mp (hsafe _ List.mem_cons_self)
      rw [next_position hlen hinside] at hrest
      exact RecordChain.record hbefore hinside
        (ih hrest fun call hcall ↦ hsafe call (List.mem_cons_of_mem _ hcall))
    · exact RecordChain.finished (not_lt.mp hbefore)

/-- Along a chain of records the loop ends and its calls are safe. -/
theorem decodesLoop_of_recordChain (hlen : len ≤ 2147483647)
    (hchain : RecordChain host inflate memory len position) (tmp : ℤ) :
    ∃ fuel calls, decodesLoop host inflate memory len fuel position tmp = some calls ∧
      ∀ call ∈ calls, call.Safe len := by
  induction hchain generalizing tmp with
  | finished hend =>
    refine ⟨0, [], ?_, fun call hcall ↦ absurd hcall List.not_mem_nil⟩
    rw [decodesLoop, if_neg (not_lt.mpr hend)]
  | @record position hbefore hinside hrest ih =>
    obtain ⟨fuel, calls, hloop, hsafe⟩ :=
      ih ((decode host inflate true memory position).offset.getD tmp)
    refine ⟨fuel + 1, decode host inflate true memory position :: calls, ?_, ?_⟩
    · rw [decodesLoop, if_pos hbefore]
      dsimp only
      rw [next_position hlen hinside, hloop]
      rfl
    · rw [List.forall_mem_cons]
      exact ⟨(decode_safe_iff hlen).mpr hinside, hsafe⟩

end Loop

/-- For every data and length, `decodes` ends, reads only inside the data, asks for no negative size
and returns no NULL exactly when the data is a chain of records that lie inside it. -/
theorem decodes_safe_iff (host : ByteOrder) (inflate : Inflate) (memory : Memory) (len : BitVec 32)
    (tmp : ℤ) :
    (∃ fuel calls, decodesLoop host inflate memory len.toInt fuel 0 tmp = some calls ∧
        ∀ call ∈ calls, call.Safe len.toInt) ↔
      RecordChain host inflate memory len.toInt 0 := by
  have hlen : len.toInt ≤ 2147483647 := by
    have := @BitVec.toInt_lt 32 len
    omega
  constructor
  · rintro ⟨fuel, calls, hloop, hsafe⟩
    exact recordChain_of_decodesLoop hlen hloop hsafe
  · exact fun hchain ↦ decodesLoop_of_recordChain hlen hchain tmp

/-- A reply of one byte is not decoded safely: the header is read behind it. -/
theorem decodes_one_byte_unsafe :
    ¬ ∃ fuel calls, decodesLoop .little rejectingInflate (fun _ ↦ 0) 1 fuel 0 0 = some calls ∧
      ∀ call ∈ calls, call.Safe 1 := by
  rintro ⟨fuel, calls, hloop, hsafe⟩
  have hchain := recordChain_of_decodesLoop (by decide) hloop hsafe
  cases hchain with
  | finished hend => exact absurd hend (by decide)
  | record hbefore hinside hrest => exact absurd hinside.header_le (by decide)

end RocketMQClient.Messages
