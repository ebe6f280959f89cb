import Mathlib.Data.Int.Order.Basic
import RocketMQClient.Library.ByteString
import RocketMQClient.Library.MachineInt

/-!
# The receiving side of a connection

`TcpTransport` holds the bytes received and not yet delivered in a buffer of `recvBufSize` bytes, of
which the first `recvBufUsed` are in use. A frame begins with the length of the rest of it as a
big-endian word of four bytes, and `getMsgSize` is the length of the whole frame as a 32-bit signed
integer. `processData` delivers the complete frames at the head of the buffer: it grows a buffer
that is too small for the next frame and leaves, may shrink it after a countdown, and moves the
bytes behind a delivered frame to the front in place.

The model is defined for all contents of the buffer. A negative length makes the construction of the
frame's string throw, and a frame of length zero is delivered again and again; `processLoop` has
fuel for one iteration more than there are bytes in use, which it exhausts only in the second case.
`realloc` says whether the allocator grants a size.
-/

set_option autoImplicit false
set_option relaxedAutoImplicit false

namespace RocketMQClient.Transport

open Library

/-- The number of frames between two attempts to shrink the buffer. -/
def defaultShrinkCount : ℤ := 32

/-- The initial size of the buffer. -/
def defaultRecvBufferSize : ℤ := 1024 * 16

/-- The receive buffer of a connection. -/
structure TcpTransport where
  recvBuf : ByteString
  recvBufSize : ℤ
  recvBufUsed : ℤ
  shrinkMax : ℤ
  shrinkCheckCnt : ℤ
  deriving DecidableEq

namespace TcpTransport

/-! ### The operations of the source -/

/-- A transport with the default configuration. -/
def new : TcpTransport where
  recvBuf := List.replicate defaultRecvBufferSize.toNat 0
  recvBufSize := defaultRecvBufferSize
  recvBufUsed := 0
  shrinkMax := defaultRecvBufferSize
  shrinkCheckCnt := defaultShrinkCount

/-- Stores the bytes that `recv` returned behind those in use. -/
def recvMsg (transport : TcpTransport) (received : ByteString) : TcpTransport :=
  let used := transport.recvBufUsed.toNat
  { transport with
    recvBuf := transport.recvBuf.take used ++ received ++
      transport.recvBuf.drop (used + received.length)
    recvBufUsed := transport.recvBufUsed + received.length }

/-- The contents of a buffer after `realloc`: a prefix, or everything and bytes of no meaning. -/
def reallocated (contents : ByteString) (size : ℕ) : ByteString :=
  contents.take size ++ List.replicate (size - contents.length) 0

/-- Changes the size of the buffer when the allocator grants it. -/
def resizeBuf (realloc : ℤ → Bool) (transport : TcpTransport) (newSize : ℤ) :
    Bool × TcpTransport :=
  if realloc newSize then
    (true, { transport with
      recvBuf := reallocated transport.recvBuf newSize.toNat
      recvBufSize := newSize })
  else (false, transport)

/-- Records the length of a frame and shrinks the buffer at the end of the countdown. -/
def tryShrink (realloc : ℤ → Bool) (transport : TcpTransport) (msgLen : ℤ) : TcpTransport :=
  let recorded := { transport with
    shrinkMax := if msgLen > transport.shrinkMax then msgLen else transport.shrinkMax }
  if recorded.shrinkCheckCnt = 0 then
    let restarted := { recorded with shrinkCheckCnt := defaultShrinkCount }
    if restarted.recvBufSize > restarted.shrinkMax then
      (resizeBuf realloc restarted restarted.shrinkMax).2
    else restarted
  else { recorded with shrinkCheckCnt := recorded.shrinkCheckCnt - 1 }

/-- The first four bytes as a big-endian unsigned number. -/
def bigEndian32 (bytes : ByteString) : ℕ :=
  (bytes.take 4).foldl (fun value byte ↦ value * 256 + byte.val) 0

/-- The length of the frame at the head of the buffer, as a 32-bit signed integer. -/
def getMsgSize (bytes : ByteString) : ℤ := toInt32 (bigEndian32 bytes + 4)

/-- What one iteration of the loop of `processData` does. -/
inductive ProcessStep where
  /-- The loop ends. -/
  | stop (transport : TcpTransport)
  /-- A frame is delivered and the loop goes on. -/
  | deliver (data : ByteString) (transport : TcpTransport)
  /-- The string of a frame of negative length cannot be built. -/
  | lengthError (transport : TcpTransport)

/-- Removes a delivered frame from the head of the buffer. -/
def dropFrame (transport : TcpTransport) (msgLen : ℤ) : TcpTransport :=
  let used := transport.recvBufUsed - msgLen
  { transport with
    recvBufUsed := used
    recvBuf := (transport.recvBuf.drop msgLen.toNat).take used.toNat ++
      transport.recvBuf.drop used.toNat }

/-- One iteration of the loop of `processData`. -/
def processStep (realloc : ℤ → Bool) (transport : TcpTransport) : ProcessStep :=
  if transport.recvBufUsed > 4 then
    let msgLen := getMsgSize transport.recvBuf
    if msgLen > transport.recvBufSize then
      let resized := resizeBuf realloc transport msgLen
      .stop (if resized.1 then { resized.2 with shrinkCheckCnt := defaultShrinkCount }
        else resized.2)
    else
      let shrunk := tryShrink realloc transport msgLen
      if shrunk.recvBufUsed ≥ msgLen then
        if msgLen < 0 then .lengthError shrunk
        else .deliver (shrunk.recvBuf.take msgLen.toNat) (shrunk.dropFrame msgLen)
      else .stop shrunk
  else .stop transport

/-- How a call of `processData` ends. -/
inductive ProcessOutcome where
  | finished
  | lengthError
  | endless
  deriving DecidableEq, Repr

/-- The loop of `processData`. -/
def processLoop (realloc : ℤ → Bool) :
    ℕ → TcpTransport → List ByteString → ProcessOutcome × TcpTransport × List ByteString
  | 0, transport, outDataList => (.endless, transport, outDataList)
  | fuel + 1, transport, outDataList =>
    match processStep realloc transport with
    | .stop stopped => (.finished, stopped, outDataList)
    | .lengthError stopped => (.lengthError, stopped, outDataList)
    | .deliver data rest => processLoop realloc fuel rest (outDataList ++ [data])

/-- Delivers the complete frames at the head of the buffer. -/
def processData (realloc : ℤ → Bool) (transport : TcpTransport) (outDataList : List ByteString) :
    ProcessOutcome × TcpTransport × List ByteString :=
  processLoop realloc (transport.recvBufUsed.toNat + 1) transport outDataList

/-! ### The bytes in use -/

/-- The bytes received and not yet delivered. -/
def contents (transport : TcpTransport) : ByteString :=
  transport.recvBuf.take transport.recvBufUsed.toNat

/-- The buffer has its size, and the bytes in use fit into it. -/
structure Sound (transport : TcpTransport) : Prop where
  length_recvBuf : (transport.recvBuf.length : ℤ) = transport.recvBufSize
  used_nonneg : 0 ≤ transport.recvBufUsed
  used_le : transport.recvBufUsed ≤ transport.recvBufSize

theorem length_reallocated (contents : ByteString) (size : ℕ) :
    (reallocated contents size).length = size := by
  simp only [reallocated, List.length_append, List.length_take, List.length_replicate]
  omega

namespace Sound

variable {transport : TcpTransport}

theorem length_contents (hsound : transport.Sound) :
    (transport.contents.length : ℤ) = transport.recvBufUsed := by
  obtain ⟨hlength, hnonneg, hle⟩ := hsound
  rw [contents, List.length_take]
  omega

/-- The bytes received are appended to those in use. -/
theorem contents_recvMsg (hsound : transport.Sound) (received : ByteString) :
    (transport.recvMsg received).contents = transport.contents ++ received := by
  have hlength := hsound.length_contents
  have hused : transport.contents.length = transport.recvBufUsed.toNat := by omega
  have hnonneg := hsound.used_nonneg
  have hsum : (transport.recvBufUsed + received.length).toNat =
      (transport.contents ++ received).length := by
    rw [List.length_append]
    omega
  change List.take _ (transport.contents ++ received ++ _) = _
  rw [recvMsg]
  dsimp only
  rw [hsum, List.take_left]

theorem recvMsg_sound (hsound : transport.Sound) {received : ByteString}
    (hfits : (received.length : ℤ) ≤ transport.recvBufSize - transport.recvBufUsed) :
    (transport.recvMsg received).Sound := by
  obtain ⟨hlength, hnonneg, hle⟩ := hsound
  refine ⟨?_, ?_, ?_⟩
  · simp only [recvMsg, List.length_append, List.length_take, List.length_drop]
    omega
  · simp only [recvMsg]
    omega
  · simp only [recvMsg]
    omega

/-- The bytes behind a delivered frame remain. -/
theorem contents_dropFrame (hsound : transport.Sound) {msgLen : ℤ} (hnonneg : 0 ≤ msgLen)
    (hle : msgLen ≤ transport.recvBufUsed) :
    (transport.dropFrame msgLen).contents = transport.contents.drop msgLen.toNat := by
  obtain ⟨hlength, hused, hfits⟩ := hsound
  have hlen : ((transport.recvBuf.drop msgLen.toNat).take
      (transport.recvBufUsed - msgLen).toNat).length = (transport.recvBufUsed - msgLen).toNat := by
    rw [List.length_take, List.length_drop]
    omega
  simp only [dropFrame, contents]
  rw [List.take_append_of_le_length hlen.ge, List.take_take, Nat.min_self, List.drop_take]
  congr 1
  omega

theorem dropFrame_sound (hsound : transport.Sound) {msgLen : ℤ} (hnonneg : 0 ≤ msgLen)
    (hle : msgLen ≤ transport.recvBufUsed) : (transport.dropFrame msgLen).Sound := by
  obtain ⟨hlength, hused, hfits⟩ := hsound
  refine ⟨?_, ?_, ?_⟩
  · simp only [dropFrame, List.length_append, List.length_take, List.length_drop]
    omega
  · simp only [dropFrame]
    omega
  · simp only [dropFrame]
    omega

/-- A buffer of another size that has room for the bytes in use keeps them. -/
theorem contents_reallocated (hsound : transport.Sound) {size : ℕ}
    (hroom : transport.recvBufUsed ≤ size) :
    (reallocated transport.recvBuf size).take transport.recvBufUsed.toNat =
      transport.contents := by
  obtain ⟨hlength, hused, hfits⟩ := hsound
  have hkept : transport.recvBufUsed.toNat ≤ (transport.recvBuf.take size).length := by
    rw [List.length_take]
    omega
  rw [reallocated, List.take_append_of_le_length hkept, List.take_take,
    Nat.min_eq_left (by omega)]
  rfl

end Sound

end TcpTransport

end RocketMQClient.Transport
