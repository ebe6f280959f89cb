import RocketMQClient.Library.ByteString
import RocketMQClient.Library.MachineInt

/-!
# Decompressing a body

`UtilAll::decompress` calls `inflate` of the compression library until the stream ends, copies each
piece of output behind the earlier ones, and doubles the space it needs whenever the buffer is too
small. Lengths are 32-bit integers, and a negative length makes the allocation fail.

The compression library is the parameter `Inflate`: for an input, the pieces that the successive
calls of `inflate` put out and how the calls end. `Stream` says that an input is a compressed form
of some bytes. `decompress_stream` gives the result for such an input: the bytes, when the buffer
can grow as far as it has to (`GrowsBelow`), and a failure otherwise.
-/

set_option autoImplicit false
set_option relaxedAutoImplicit false

namespace RocketMQClient.Messages

open Library

/-- The space for the output of one call of `inflate`. -/
def chunk : ℕ := 8192

/-- How the calls of `inflate` for one input end. -/
inductive InflateStatus where
  | streamEnd
  | inputUsedUp
  | error
  deriving DecidableEq

/-- The decompression of the library, for an input handed over in pieces of `chunk` bytes. No call
is made for an empty input. -/
structure Inflate where
  pieces : ByteString → List ByteString
  status : ByteString → InflateStatus
  length_le : ∀ input, ∀ piece ∈ pieces input, piece.length ≤ chunk
  pieces_nil : pieces [] = []

/-- A decompression that rejects every input. -/
def rejectingInflate : Inflate where
  pieces := fun _ ↦ []
  status := fun _ ↦ .error
  length_le := fun _ _ hpiece ↦ absurd hpiece List.not_mem_nil
  pieces_nil := rfl

/-- An input is a whole compressed stream of some bytes. -/
structure Inflate.Stream (inflate : Inflate) (input body : ByteString) : Prop where
  ended : inflate.status input = .streamEnd
  output : (inflate.pieces input).flatten = body

/-- The length of the first buffer, four times that of the input as a 32-bit integer. -/
def firstBufferLen (inLen : ℤ) : ℤ := toInt32 (4 * inLen)

/-- What the calls of `inflate` leave: the buffer sizes asked for, and the output with its length,
unless the buffer could not grow. -/
structure InflateOutput where
  allocations : List ℤ
  output : Option (ByteString × ℤ)
  deriving DecidableEq

/-- The loop over the pieces of output, with the buffer length and the output so far. -/
def copyPieces : ℤ → ByteString → ℤ → List ByteString → InflateOutput
  | _, outData, outDataLen, [] => ⟨[], some (outData, outDataLen)⟩
  | outBufferLen, outData, outDataLen, piece :: rest =>
    let needed := toInt32 (outDataLen + piece.length)
    if needed > outBufferLen then
      let grown := toInt32 (2 * needed)
      if grown < 0 then ⟨[grown], none⟩
      else
        let last := copyPieces grown (outData ++ piece) needed rest
        ⟨grown :: last.allocations, last.output⟩
    else copyPieces outBufferLen (outData ++ piece) needed rest

/-- The buffers asked for, and the output with its length when the stream ended. -/
def decompress (inflate : Inflate) (input : ByteString) : InflateOutput :=
  let bufferLen := firstBufferLen input.length
  let copied := copyPieces bufferLen [] 0 (inflate.pieces input)
  ⟨bufferLen :: copied.allocations,
    if inflate.status input = .streamEnd then copied.output else none⟩

/-- Whenever a piece does not fit in the buffer, it ends below `2 ^ 30` bytes, so that twice the
space is a 32-bit length. -/
def GrowsBelow : ℤ → ℤ → List ℕ → Prop
  | _, _, [] => True
  | outBufferLen, outDataLen, piece :: rest =>
    if toInt32 (outDataLen + piece) > outBufferLen then
      toInt32 (outDataLen + piece) < 1073741824 ∧
        GrowsBelow (2 * toInt32 (outDataLen + piece)) (toInt32 (outDataLen + piece)) rest
    else GrowsBelow outBufferLen (toInt32 (outDataLen + piece)) rest

instance decidableGrowsBelow : ∀ outBufferLen outDataLen lengths,
    Decidable (GrowsBelow outBufferLen outDataLen lengths)
  | _, _, [] => isTrue trivial
  | outBufferLen, outDataLen, piece :: rest =>
    let needed := toInt32 (outDataLen + piece)
    if hgrow : needed > outBufferLen then
      have := decidableGrowsBelow (2 * needed) needed rest
      decidable_of_iff (needed < 1073741824 ∧ GrowsBelow (2 * needed) needed rest)
        (by rw [GrowsBelow, if_pos hgrow])
    else
      have := decidableGrowsBelow outBufferLen needed rest
      decidable_of_iff (GrowsBelow outBufferLen needed rest) (by rw [GrowsBelow, if_neg hgrow])

/-- The lengths of the pieces that an input inflates to. -/
def Inflate.lengths (inflate : Inflate) (input : ByteString) : List ℕ :=
  (inflate.pieces input).map List.length

/-- The buffer for the output of an input can grow as far as it has to. -/
def Inflate.Grows (inflate : Inflate) (input : ByteString) : Prop :=
  GrowsBelow (firstBufferLen input.length) 0 (inflate.lengths input)

instance (inflate : Inflate) (input : ByteString) : Decidable (inflate.Grows input) :=
  inferInstanceAs (Decidable (GrowsBelow _ _ _))

/-! ### Growing -/

/-- Twice a non-negative 32-bit integer is non-negative exactly below `2 ^ 30`, and then it does not
overflow. -/
theorem toInt32_double {needed : ℤ} (hlower : 0 ≤ needed) (hupper : needed ≤ 2147483647) :
    toInt32 (2 * needed) = if needed < 1073741824 then 2 * needed else 2 * needed - 4294967296 := by
  have hmod := Int.bmod_def (2 * needed) 4294967296
  unfold toInt32
  split_ifs at hmod ⊢ <;> omega

/-- A piece that does not fit ends at a non-negative position: the buffer has a non-negative length,
or nothing is in it yet. -/
theorem needed_nonneg {outBufferLen outDataLen : ℤ} {piece : ByteString}
    (hstart : 0 ≤ outBufferLen ∨ outDataLen = 0) (hpiece : piece.length ≤ chunk)
    (hgrow : toInt32 (outDataLen + piece.length) > outBufferLen) :
    0 ≤ toInt32 (outDataLen + piece.length) := by
  rcases hstart with hbuffer | hempty
  · omega
  · unfold chunk at hpiece
    rw [hempty, toInt32_eq_self (by omega) (by omega)]
    omega

/-- The loop succeeds, with sizes that are all non-negative, exactly when the buffer can grow. -/
theorem copyPieces_grows {outBufferLen outDataLen : ℤ} {pieces : List ByteString}
    (outData : ByteString) (hstart : 0 ≤ outBufferLen ∨ outDataLen = 0)
    (hpieces : ∀ piece ∈ pieces, piece.length ≤ chunk) :
    ((copyPieces outBufferLen outData outDataLen pieces).output.isSome ↔
        GrowsBelow outBufferLen outDataLen (pieces.map List.length)) ∧
      ((∀ size ∈ (copyPieces outBufferLen outData outDataLen pieces).allocations, 0 ≤ size) ↔
        GrowsBelow outBufferLen outDataLen (pieces.map List.length)) := by
  induction pieces generalizing outBufferLen outData outDataLen with
  | nil => simp [copyPieces, GrowsBelow]
  | cons piece rest ih =>
    have hrest : ∀ other ∈ rest, other.length ≤ chunk :=
      fun other hother ↦ hpieces other (List.mem_cons_of_mem piece hother)
    rw [List.map_cons, GrowsBelow, copyPieces]
    by_cases hgrow : toInt32 (outDataLen + piece.length) > outBufferLen
    · have hnonneg := needed_nonneg hstart (hpieces piece List.mem_cons_self) hgrow
      have hdouble := toInt32_double hnonneg (toInt32_range _).2
      simp only [if_pos hgrow]
      by_cases hsmall : toInt32 (outDataLen + piece.length) < 1073741824
      · rw [if_pos hsmall] at hdouble
        have hpositive : ¬ 2 * toInt32 (outDataLen + piece.length) < 0 := by omega
        obtain ⟨houtput, hsizes⟩ := ih (outData ++ piece) (Or.inl (not_lt.mp hpositive)) hrest
        rw [hdouble, if_neg hpositive]
        refine ⟨houtput.trans (by simp [hsmall]), ?_⟩
        rw [List.forall_mem_cons, hsizes]
        exact ⟨fun hall ↦ ⟨hsmall, hall.2⟩, fun hall ↦ ⟨not_lt.mp hpositive, hall.2⟩⟩
      · rw [if_neg hsmall] at hdouble
        have hrange := (toInt32_range (outDataLen + piece.length)).2
        have hnegative : toInt32 (2 * toInt32 (outDataLen + piece.length)) < 0 := by omega
        rw [if_pos hnegative]
        simp only [Option.isSome_none, List.forall_mem_singleton, hsmall, false_and, iff_false,
          Bool.false_eq_true, true_and, not_le]
        exact hnegative
    · simp only [if_neg hgrow]
      refine ih (outData ++ piece) ?_ hrest
      rcases hstart with hbuffer | hempty
      · exact Or.inl hbuffer
      · left
        have hlength : piece.length ≤ 8192 := hpieces piece List.mem_cons_self
        rw [hempty, toInt32_eq_self (by omega) (by omega)] at hgrow
        omega

/-- A loop that succeeds puts the pieces one behind the other. -/
theorem copyPieces_output {outBufferLen : ℤ} {outData : ByteString} {pieces : List ByteString}
    {output : ByteString × ℤ} (hlength : (outData ++ pieces.flatten).length ≤ 2147483647)
    (houtput : (copyPieces outBufferLen outData outData.length pieces).output = some output) :
    output = (outData ++ pieces.flatten, ((outData ++ pieces.flatten).length : ℤ)) := by
  induction pieces generalizing outBufferLen outData with
  | nil =>
    rw [List.flatten_nil, List.append_nil]
    exact (Option.some.inj houtput).symm
  | cons piece rest ih =>
    rw [List.flatten_cons, ← List.append_assoc] at hlength ⊢
    have hneeded : toInt32 (outData.length + piece.length) = ((outData ++ piece).length : ℤ) := by
      rw [List.length_append] at hlength
      rw [List.length_append, Int.natCast_add]
      exact toInt32_eq_self (by omega) (by simp only [List.length_append] at hlength; omega)
    rw [copyPieces] at houtput
    simp only [hneeded] at houtput
    split_ifs at houtput with hgrow hnegative
    · exact ih hlength houtput
    · exact ih hlength houtput

/-- What `decompress` makes of a compressed form of bytes: the bytes, or a failure when the buffer
cannot grow as far as it has to. -/
theorem decompress_stream {inflate : Inflate} {input body : ByteString}
    (hstream : inflate.Stream input body) (hbody : body.length ≤ 2147483647) :
    (decompress inflate input).output =
      if inflate.Grows input then some (body, (body.length : ℤ)) else none := by
  have hsome := (@copyPieces_grows (firstBufferLen input.length) 0 (inflate.pieces input) []
    (Or.inr rfl) (inflate.length_le input)).1
  show (if inflate.status input = .streamEnd then
    (copyPieces (firstBufferLen input.length) [] 0 (inflate.pieces input)).output else none) = _
  rw [if_pos hstream.ended]
  cases houtput : (copyPieces (firstBufferLen input.length) [] 0 (inflate.pieces input)).output with
  | none =>
    rw [houtput] at hsome
    exact (if_neg fun hgrows ↦ absurd (hsome.mpr hgrows) Bool.false_ne_true).symm
  | some output =>
    rw [houtput] at hsome
    have hvalue := @copyPieces_output (firstBufferLen input.length) [] (inflate.pieces input) output
      (by rw [List.nil_append, hstream.output]; exact hbody) houtput
    rw [List.nil_append, hstream.output] at hvalue
    rw [if_pos (show inflate.Grows input from hsome.mp rfl), hvalue]

end RocketMQClient.Messages
