import RocketMQClient.Library.EventSystem
import RocketMQClient.Library.FrameStream
import RocketMQClient.Transport.TcpTransport

/-!
# Frame reassembly

A connection delivers the bytes of a stream of frames in pieces of any size. `recvSystem` is one
connection: each event is the result of one `recv`, at least one byte and at most as many as the
buffer has room for, followed by `processData`; it records the bytes received and the strings
delivered.

`processLoop_eq` describes the loop on a buffer that holds a prefix of a stream of frames: it
delivers the complete frames and leaves the bytes behind them. It rests on two facts about the
sizes. A buffer that holds the head of a frame is grown to the length of that frame before it is
full, so there is always room to receive more. And the buffer is never larger than the longest frame
recorded, except between its growth and the next iteration, which records the frame it was grown for
(`Ready`); so `tryShrink` never finds a buffer to shrink. `frames_reassembled` lifts this to every
connection and every splitting of the stream.
-/

set_option autoImplicit false
set_option relaxedAutoImplicit false

namespace RocketMQClient.Transport

open Library

namespace TcpTransport

/-! ### Frames -/

/-- A frame: four bytes with the length of what follows, from one byte to what a 32-bit signed
integer can hold together with the four bytes. -/
def IsFrame (frame : ByteString) : Prop :=
  frame.length = bigEndian32 frame + 4 ∧ 1 ≤ bigEndian32 frame ∧ bigEndian32 frame ≤ 2147483643

instance (frame : ByteString) : Decidable (IsFrame frame) := inferInstanceAs (Decidable (_ ∧ _))

theorem IsFrame.length_gt {frame : ByteString} (hframe : IsFrame frame) : 4 < frame.length := by
  obtain ⟨hlength, hpositive, -⟩ := hframe
  omega

theorem bigEndian32_congr {first second : ByteString} (htake : first.take 4 = second.take 4) :
    bigEndian32 first = bigEndian32 second := by
  simp only [bigEndian32, htake]

theorem getMsgSize_congr {first second : ByteString} (htake : first.take 4 = second.take 4) :
    getMsgSize first = getMsgSize second := by
  simp only [getMsgSize, bigEndian32_congr htake]

/-- The size computed from the head of a frame is its length. -/
theorem getMsgSize_of_frame {frame : ByteString} (hframe : IsFrame frame) :
    getMsgSize frame = frame.length := by
  obtain ⟨hlength, hpositive, hbound⟩ := hframe
  rw [getMsgSize, toInt32_eq_self (by omega) (by omega), hlength]
  omega

/-- A stream that shows more than four bytes shows the size of its first frame. -/
theorem getMsgSize_of_stream {stream frame : ByteString} {rest : List ByteString}
    (hframe : IsFrame frame) (hstream : stream <+: (frame :: rest).flatten)
    (hlong : 4 < stream.length) : getMsgSize stream = frame.length := by
  have hframeLong := hframe.length_gt
  obtain ⟨unread, hunread⟩ := hstream
  have hhead : stream.take 4 = frame.take 4 := by
    have htake := congrArg (List.take 4) hunread
    rw [List.flatten_cons, List.take_append_of_le_length hlong.le,
      List.take_append_of_le_length hframeLong.le] at htake
    exact htake
  rw [getMsgSize_congr hhead, getMsgSize_of_frame hframe]

/-- A stream that shows its whole first frame begins with it and goes on with the rest. -/
theorem take_drop_of_stream {stream frame : ByteString} {rest : List ByteString}
    (hstream : stream <+: (frame :: rest).flatten) (hlong : frame.length ≤ stream.length) :
    stream.take frame.length = frame ∧ stream.drop frame.length <+: rest.flatten := by
  obtain ⟨unread, hunread⟩ := hstream
  rw [List.flatten_cons] at hunread
  have htake := congrArg (List.take frame.length) hunread
  have hdrop := congrArg (List.drop frame.length) hunread
  rw [List.take_append_of_le_length hlong, List.take_left] at htake
  rw [List.drop_append_of_le_length hlong, List.drop_left] at hdrop
  exact ⟨htake, unread, hdrop⟩

/-! ### The sizes of the buffer -/

/-- The buffer is not larger than the longest frame recorded, unless it was just grown for the frame
at its head. -/
structure Ready (transport : TcpTransport) : Prop where
  size_ge : defaultRecvBufferSize ≤ transport.recvBufSize
  size_le : transport.recvBufSize ≤ transport.shrinkMax ∨
    (4 < transport.recvBufUsed ∧ getMsgSize transport.recvBuf = transport.recvBufSize)

/-- What `tryShrink` keeps, and the longest frame it has recorded. -/
theorem tryShrink_eq (realloc : ℤ → Bool) {transport : TcpTransport} {msgLen : ℤ}
    (hsize : transport.recvBufSize ≤ transport.shrinkMax ∨ transport.recvBufSize ≤ msgLen) :
    (tryShrink realloc transport msgLen).recvBuf = transport.recvBuf ∧
      (tryShrink realloc transport msgLen).recvBufSize = transport.recvBufSize ∧
      (tryShrink realloc transport msgLen).recvBufUsed = transport.recvBufUsed ∧
      transport.recvBufSize ≤ (tryShrink realloc transport msgLen).shrinkMax := by
  have hrecorded : transport.recvBufSize ≤
      if msgLen > transport.shrinkMax then msgLen else transport.shrinkMax := by
    split_ifs <;> omega
  unfold tryShrink
  dsimp only
  by_cases hcount : transport.shrinkCheckCnt = 0
  · rw [if_pos hcount, if_neg (not_lt.mpr hrecorded)]
    exact ⟨rfl, rfl, rfl, hrecorded⟩
  · rw [if_neg hcount]
    exact ⟨rfl, rfl, rfl, hrecorded⟩

/-- The bytes in use begin the buffer, so both show the same size. -/
theorem getMsgSize_contents {transport : TcpTransport} (hlong : 4 < transport.recvBufUsed) :
    getMsgSize transport.recvBuf = getMsgSize transport.contents := by
  refine getMsgSize_congr ?_
  rw [contents, List.take_take, Nat.min_eq_left (by omega)]

/-! ### One call of `processData` -/

section Loop

variable {realloc : ℤ → Bool} (hrealloc : ∀ size, realloc size = true)

include hrealloc in
/-- A buffer too small for the frame at its head is grown to the length of that frame. -/
theorem processStep_of_large {transport : TcpTransport} (hsound : transport.Sound)
    (hready : transport.Ready) (hlong : 4 < transport.recvBufUsed) {msgLen : ℤ}
    (hmsg : getMsgSize transport.recvBuf = msgLen) (hlarge : transport.recvBufSize < msgLen) :
    ∃ grown, processStep realloc transport = .stop grown ∧ grown.Sound ∧ grown.Ready ∧
      grown.recvBufUsed < grown.recvBufSize ∧ grown.contents = transport.contents := by
  have hsize := hready.size_ge
  have hpositive : 0 ≤ defaultRecvBufferSize := by decide
  obtain ⟨hlength, hnonneg, hle⟩ := hsound
  have hcontents := @Sound.contents_reallocated transport ⟨hlength, hnonneg, hle⟩ msgLen.toNat
    (by omega)
  refine ⟨{ transport with
    recvBuf := reallocated transport.recvBuf msgLen.toNat
    recvBufSize := msgLen
    shrinkCheckCnt := defaultShrinkCount }, ?_, ⟨?_, hnonneg, ?_⟩, ⟨?_, Or.inr ⟨hlong, ?_⟩⟩, ?_,
    hcontents⟩
  · rw [processStep, if_pos hlong]
    dsimp only
    rw [hmsg, if_pos hlarge, resizeBuf, if_pos (hrealloc _)]
    simp only [↓reduceIte]
  · rw [length_reallocated]
    dsimp only
    omega
  · dsimp only
    omega
  · dsimp only
    omega
  · dsimp only
    rw [← hmsg]
    refine getMsgSize_congr ?_
    have hall : transport.recvBuf.take msgLen.toNat = transport.recvBuf :=
      List.take_of_length_le (by omega)
    rw [hmsg, reallocated, hall, List.take_append_of_le_length (by omega)]
  · dsimp only
    omega

/-- Recording a frame that fits the buffer changes neither the buffer nor what is in use. -/
theorem tryShrink_ready (realloc : ℤ → Bool) {transport : TcpTransport} (hsound : transport.Sound)
    (hready : transport.Ready) {msgLen : ℤ} (hmsg : getMsgSize transport.recvBuf = msgLen) :
    let shrunk := tryShrink realloc transport msgLen
    shrunk.Sound ∧ shrunk.recvBuf = transport.recvBuf ∧
      shrunk.recvBufSize = transport.recvBufSize ∧
      shrunk.recvBufUsed = transport.recvBufUsed ∧ shrunk.recvBufSize ≤ shrunk.shrinkMax := by
  obtain ⟨hbuf, hsize, hused, hmax⟩ := tryShrink_eq realloc
    (hready.size_le.imp_right fun hgrown ↦ (hmsg.symm.trans hgrown.2).ge)
  refine ⟨⟨?_, ?_, ?_⟩, hbuf, hsize, hused, by rw [hsize]; exact hmax⟩
  · rw [hbuf, hsize]
    exact hsound.length_recvBuf
  · rw [hused]
    exact hsound.used_nonneg
  · rw [hused, hsize]
    exact hsound.used_le

/-- A frame that is not complete in a buffer that is large enough for it is waited for. -/
theorem processStep_of_incomplete (realloc : ℤ → Bool) {transport : TcpTransport}
    (hsound : transport.Sound) (hready : transport.Ready) (hlong : 4 < transport.recvBufUsed)
    {msgLen : ℤ} (hmsg : getMsgSize transport.recvBuf = msgLen)
    (hfits : msgLen ≤ transport.recvBufSize) (hincomplete : transport.recvBufUsed < msgLen) :
    ∃ waiting, processStep realloc transport = .stop waiting ∧ waiting.Sound ∧ waiting.Ready ∧
      waiting.recvBufUsed < waiting.recvBufSize ∧ waiting.contents = transport.contents := by
  obtain ⟨hshrunk, hbuf, hsize, hused, hmax⟩ := tryShrink_ready realloc hsound hready hmsg
  refine ⟨tryShrink realloc transport msgLen, ?_, hshrunk,
    ⟨by rw [hsize]; exact hready.size_ge, Or.inl hmax⟩, by omega,
    by rw [contents, hbuf, hused]; rfl⟩
  rw [processStep, if_pos hlong]
  dsimp only
  rw [hmsg, if_neg (not_lt.mpr hfits), if_neg (by omega)]

/-- A complete frame is delivered and removed. -/
theorem processStep_of_complete (realloc : ℤ → Bool) {transport : TcpTransport}
    (hsound : transport.Sound) (hready : transport.Ready) (hlong : 4 < transport.recvBufUsed)
    {msgLen : ℤ} (hmsg : getMsgSize transport.recvBuf = msgLen) (hpositive : 0 < msgLen)
    (hcomplete : msgLen ≤ transport.recvBufUsed) :
    ∃ rest, processStep realloc transport =
        .deliver (transport.contents.take msgLen.toNat) rest ∧
      rest.Sound ∧ rest.Ready ∧ rest.recvBufUsed = transport.recvBufUsed - msgLen ∧
      rest.contents = transport.contents.drop msgLen.toNat := by
  have hfits := hsound.used_le
  obtain ⟨hshrunk, hbuf, hsize, hused, hmax⟩ := tryShrink_ready realloc hsound hready hmsg
  have hcontents : (tryShrink realloc transport msgLen).contents = transport.contents := by
    rw [contents, hbuf, hused]
    rfl
  refine ⟨(tryShrink realloc transport msgLen).dropFrame msgLen, ?_,
    hshrunk.dropFrame_sound hpositive.le (by omega),
    ⟨by rw [dropFrame, hsize]; exact hready.size_ge, Or.inl hmax⟩, by rw [dropFrame, hused], ?_⟩
  · rw [processStep, if_pos hlong]
    dsimp only
    rw [hmsg, if_neg (not_lt.mpr (by omega)), if_pos (by omega), if_neg (not_lt.mpr hpositive.le),
      hbuf, contents, List.take_take, Nat.min_eq_left (by omega)]
  · rw [hshrunk.contents_dropFrame hpositive.le (by omega), hcontents]

/-- The loop ends, delivers the complete frames, leaves the bytes behind them, and leaves room to
receive more. -/
def DeliversComplete (realloc : ℤ → Bool) (fuel : ℕ) (transport : TcpTransport)
    (frames outDataList : List ByteString) : Prop :=
  ∃ last, processLoop realloc fuel transport outDataList =
      (.finished, last, outDataList ++ completeFrames frames transport.contents.length) ∧
    last.Sound ∧ last.Ready ∧ last.recvBufUsed < last.recvBufSize ∧
    last.contents = transport.contents.drop
      (completeFrames frames transport.contents.length).flatten.length

/-- A step that stops before the first frame is complete. -/
theorem deliversComplete_of_stop {fuel : ℕ} {transport last : TcpTransport}
    {frames : List ByteString} (hstep : processStep realloc transport = .stop last)
    (hsound : last.Sound) (hready : last.Ready) (hroom : last.recvBufUsed < last.recvBufSize)
    (hsame : last.contents = transport.contents)
    (hshort : ∀ frame rest, frames = frame :: rest →
      transport.contents.length < frame.length) (outDataList : List ByteString) :
    DeliversComplete realloc (fuel + 1) transport frames outDataList := by
  have hnone : completeFrames frames transport.contents.length = [] :=
    completeFrames_eq_nil hshort
  refine ⟨last, ?_, hsound, hready, hroom, ?_⟩
  · rw [processLoop, hstep, hnone, List.append_nil]
  · rw [hnone, hsame]
    rfl

/-- A step that delivers the first frame, and the loop on the rest. -/
theorem deliversComplete_of_deliver {fuel : ℕ} {transport left : TcpTransport}
    {frame : ByteString} {rest outDataList : List ByteString}
    (hstep : processStep realloc transport = .deliver frame left)
    (hcontents : left.contents = transport.contents.drop frame.length)
    (hcomplete : frame.length ≤ transport.contents.length)
    (hrest : DeliversComplete realloc fuel left rest (outDataList ++ [frame])) :
    DeliversComplete realloc (fuel + 1) transport (frame :: rest) outDataList := by
  obtain ⟨last, hloop, hlast, hready, hroom, hlastContents⟩ := hrest
  have hcount : left.contents.length = transport.contents.length - frame.length := by
    rw [hcontents, List.length_drop]
  have hframes : completeFrames (frame :: rest) transport.contents.length =
      frame :: completeFrames rest left.contents.length := by
    rw [completeFrames, if_pos hcomplete, hcount]
  refine ⟨last, ?_, hlast, hready, hroom, ?_⟩
  · rw [processLoop, hstep]
    dsimp only
    rw [hloop, hframes, List.append_assoc, List.singleton_append]
  · rw [hlastContents, hframes, hcontents, List.drop_drop, List.flatten_cons, List.length_append]

include hrealloc in
/-- The loop on a buffer that holds a prefix of a stream of frames. -/
theorem processLoop_eq {fuel : ℕ} {transport : TcpTransport} (hsound : transport.Sound)
    (hready : transport.Ready) (hfuel : transport.recvBufUsed < fuel) {frames : List ByteString}
    (hframes : ∀ frame ∈ frames, IsFrame frame)
    (hstream : transport.contents <+: frames.flatten) (outDataList : List ByteString) :
    DeliversComplete realloc fuel transport frames outDataList := by
  induction fuel generalizing transport frames outDataList with
  | zero =>
    have := hsound.used_nonneg
    omega
  | succ fuel ih =>
    have hlength := hsound.length_contents
    by_cases hlong : 4 < transport.recvBufUsed
    · cases frames with
      | nil =>
        have hnil : transport.contents = [] := List.prefix_nil.mp hstream
        rw [hnil, List.length_nil] at hlength
        omega
      | cons frame rest =>
        have hframe := hframes frame List.mem_cons_self
        have hmsg : getMsgSize transport.recvBuf = frame.length :=
          (getMsgSize_contents hlong).trans (getMsgSize_of_stream hframe hstream (by omega))
        have hframeLong := hframe.length_gt
        have hused := hsound.used_le
        rcases lt_or_ge transport.recvBufSize frame.length with hlarge | hfits
        · obtain ⟨grown, hstep, hgrown, hgrownReady, hroom, hsame⟩ :=
            processStep_of_large hrealloc hsound hready hlong hmsg hlarge
          refine deliversComplete_of_stop hstep hgrown hgrownReady hroom hsame ?_ outDataList
          rintro _ _ ⟨rfl, rfl⟩
          omega
        · rcases lt_or_ge transport.recvBufUsed frame.length with hincomplete | hcomplete
          · obtain ⟨waiting, hstep, hwaiting, hwaitingReady, hroom, hsame⟩ :=
              processStep_of_incomplete realloc hsound hready hlong hmsg hfits hincomplete
            refine deliversComplete_of_stop hstep hwaiting hwaitingReady hroom hsame ?_ outDataList
            rintro _ _ ⟨rfl, rfl⟩
            omega
          · obtain ⟨left, hstep, hleft, hleftReady, hleftUsed, hleftContents⟩ :=
              processStep_of_complete realloc hsound hready hlong hmsg (by omega) hcomplete
            rw [Int.toNat_natCast] at hstep hleftContents
            obtain ⟨hdata, hrest⟩ := take_drop_of_stream hstream (by omega)
            rw [← hleftContents] at hrest
            rw [hdata] at hstep
            refine deliversComplete_of_deliver hstep hleftContents (by omega) ?_
            exact ih hleft hleftReady (by omega)
              (fun other hother ↦ hframes other (List.mem_cons_of_mem frame hother)) hrest _
    · refine deliversComplete_of_stop ?_ hsound hready ?_ rfl ?_ outDataList
      · rw [processStep, if_neg hlong]
      · have := hready.size_ge
        have : 4 < defaultRecvBufferSize := by decide
        omega
      · rintro frame rest rfl
        have := (hframes frame List.mem_cons_self).length_gt
        omega

end Loop

end TcpTransport

/-! ### A connection -/

open TcpTransport

/-- A connection: its buffer, the strings delivered, the bytes received, and how the last call of
`processData` ended. -/
structure RecvState where
  transport : TcpTransport
  outDataList : List ByteString
  received : ByteString
  outcome : ProcessOutcome
  deriving DecidableEq

namespace RecvState

/-- A new connection with the default configuration. -/
def initial : RecvState where
  transport := TcpTransport.new
  outDataList := []
  received := []
  outcome := .finished

/-- One call of `recvMsg` and `processData`: `recv` returns at least one byte and at most as many as
it was asked for. -/
def recvData (realloc : ℤ → Bool) (state : RecvState) (piece : ByteString) : Option RecvState :=
  if state.outcome = .finished ∧ 1 ≤ piece.length ∧
      (piece.length : ℤ) ≤ state.transport.recvBufSize - state.transport.recvBufUsed then
    let processed := (state.transport.recvMsg piece).processData realloc state.outDataList
    some ⟨processed.2.1, processed.2.2, state.received ++ piece, processed.1⟩
  else none

end RecvState

/-- The receiving side of one connection. -/
def recvSystem (realloc : ℤ → Bool) : EventSystem RecvState ByteString :=
  ⟨RecvState.recvData realloc⟩

/-- What holds of a connection on which a prefix of a stream of frames was received. -/
structure RecvInvariant (frames : List ByteString) (state : RecvState) : Prop where
  finished : state.outcome = .finished
  sound : state.transport.Sound
  ready : state.transport.Ready
  room : state.transport.recvBufUsed < state.transport.recvBufSize
  delivered : state.outDataList = completeFrames frames state.received.length
  undelivered : state.transport.contents = state.received.drop state.outDataList.flatten.length

theorem recvInvariant_initial (frames : List ByteString)
    (hframes : ∀ frame ∈ frames, IsFrame frame) : RecvInvariant frames RecvState.initial where
  finished := rfl
  sound := by
    refine ⟨?_, by decide, by decide⟩
    simp only [RecvState.initial, TcpTransport.new, List.length_replicate]
    decide
  ready := ⟨by decide, Or.inl (by decide)⟩
  room := by decide
  delivered := by
    refine (completeFrames_eq_nil fun frame rest hcons ↦ ?_).symm
    have hlong := (hframes frame (hcons ▸ List.mem_cons_self)).length_gt
    exact Nat.zero_lt_of_lt hlong
  undelivered := rfl

/-- Receiving bytes leaves the size at the head of the buffer as it is. -/
theorem recvMsg_ready {transport : TcpTransport} (hsound : transport.Sound)
    (hready : transport.Ready) (piece : ByteString) : (transport.recvMsg piece).Ready := by
  refine ⟨hready.size_ge, hready.size_le.imp_right fun hgrown ↦ ⟨?_, ?_⟩⟩
  · have := hgrown.1
    simp only [recvMsg]
    omega
  · refine (getMsgSize_congr ?_).trans hgrown.2
    have hlong := hgrown.1
    have hlength := hsound.length_contents
    change List.take 4 (transport.contents ++ piece ++ _) = _
    rw [List.append_assoc, List.take_append_of_le_length (by omega), contents, List.take_take,
      Nat.min_eq_left (by omega)]

/-- The fuel of `processData` is more than the number of bytes in use. -/
theorem fuel_sufficient {transport : TcpTransport} (hsound : transport.Sound) :
    transport.recvBufUsed < ((transport.recvBufUsed.toNat + 1 : ℕ) : ℤ) := by
  have := hsound.used_nonneg
  omega

/-- One call of `recvMsg` and `processData` keeps the invariant while the stream is one of frames.
-/
theorem recvInvariant_step {realloc : ℤ → Bool} (hrealloc : ∀ size, realloc size = true)
    {frames : List ByteString} (hframes : ∀ frame ∈ frames, IsFrame frame) {state next : RecvState}
    {piece : ByteString} (hstep : (recvSystem realloc).step state piece = some next)
    (hinvariant : RecvInvariant frames state)
    (hstream : next.received <+: frames.flatten) : RecvInvariant frames next := by
  obtain ⟨-, hsound, hready, hroom, hdelivered, hundelivered⟩ := hinvariant
  simp only [recvSystem, RecvState.recvData, Option.ite_none_right_eq_some,
    Option.some.injEq] at hstep
  obtain ⟨⟨-, -, hfits⟩, rfl⟩ := hstep
  dsimp only at hstream
  -- The frames not yet delivered, and the bytes in use as a prefix of them.
  have hsplit : frames = state.outDataList ++ frames.drop state.outDataList.length := by
    have hfirst := completeFrames_isPrefix frames state.received.length
    rw [← hdelivered] at hfirst
    conv_lhs => rw [← List.take_append_drop state.outDataList.length frames]
    rw [← List.prefix_iff_eq_take.mp hfirst]
  have hle : state.outDataList.flatten.length ≤ state.received.length := by
    rw [hdelivered]
    exact length_flatten_completeFrames frames _
  have hcontents : (state.transport.recvMsg piece).contents =
      (state.received ++ piece).drop state.outDataList.flatten.length := by
    rw [hsound.contents_recvMsg, hundelivered, List.drop_append_of_le_length hle]
  have hrest : (state.transport.recvMsg piece).contents <+:
      (frames.drop state.outDataList.length).flatten := by
    obtain ⟨unread, hunread⟩ := hstream
    have hdrop := congrArg (List.drop state.outDataList.flatten.length) hunread
    rw [hsplit, List.flatten_append, List.drop_left, List.drop_append_of_le_length
      (by rw [List.length_append]; omega), ← hcontents] at hdrop
    exact ⟨unread, hdrop⟩
  obtain ⟨last, hloop, hlast, hlastReady, hlastRoom, hlastContents⟩ :=
    processLoop_eq hrealloc (hsound.recvMsg_sound hfits) (recvMsg_ready hsound hready piece)
      (fuel_sufficient (hsound.recvMsg_sound hfits))
      (fun frame hframe ↦ hframes frame (List.mem_of_mem_drop hframe)) hrest state.outDataList
  have hcount : (state.transport.recvMsg piece).contents.length =
      state.received.length + piece.length - state.outDataList.flatten.length := by
    rw [hcontents, List.length_drop, List.length_append]
  have hall : state.outDataList ++ completeFrames (frames.drop state.outDataList.length)
      (state.transport.recvMsg piece).contents.length =
        completeFrames frames (state.received ++ piece).length := by
    rw [List.length_append, completeFrames_add, ← hdelivered, hcount]
  unfold processData
  rw [hloop]
  refine ⟨rfl, hlast, hlastReady, hlastRoom, hall, ?_⟩
  dsimp only
  rw [hlastContents, hcontents, List.drop_drop, List.flatten_append, List.length_append]

/-- The bytes received are the pieces in order. -/
theorem received_of_run {realloc : ℤ → Bool} {pieces : List ByteString} {state last : RecvState}
    (hrun : (recvSystem realloc).run state pieces = some last) :
    last.received = state.received ++ pieces.flatten := by
  induction pieces generalizing state with
  | nil =>
    obtain rfl := Option.some.inj hrun
    rw [List.flatten_nil, List.append_nil]
  | cons piece rest ih =>
    obtain ⟨next, hnext, hrest⟩ := EventSystem.run_cons.mp hrun
    simp only [recvSystem, RecvState.recvData, Option.ite_none_right_eq_some,
      Option.some.injEq] at hnext
    obtain ⟨-, rfl⟩ := hnext
    rw [ih hrest, List.flatten_cons, List.append_assoc]

/-- Assumes: an allocator that grants every size, a stream of frames, and pieces that form a prefix
of the stream. After every run of a new connection the last call of `processData` has ended without
an exception, the strings delivered are exactly the frames that are complete in the bytes received,
in order, and the buffer has room to receive more; when all bytes are received, all frames are
delivered. -/
theorem frames_reassembled {realloc : ℤ → Bool} (hrealloc : ∀ size, realloc size = true)
    {frames : List ByteString} (hframes : ∀ frame ∈ frames, IsFrame frame)
    {pieces : List ByteString} {state : RecvState}
    (hrun : (recvSystem realloc).run RecvState.initial pieces = some state)
    (hstream : pieces.flatten <+: frames.flatten) :
    state.outcome = .finished ∧
      state.outDataList = completeFrames frames pieces.flatten.length ∧
      state.transport.recvBufUsed < state.transport.recvBufSize ∧
      (pieces.flatten = frames.flatten → state.outDataList = frames) := by
  have hreceived : state.received = pieces.flatten := received_of_run hrun
  have hstep : ∀ (state : RecvState) (piece : ByteString) (next : RecvState),
      (recvSystem realloc).step state piece = some next →
      (state.received <+: frames.flatten → RecvInvariant frames state) →
      next.received <+: frames.flatten → RecvInvariant frames next := by
    intro state piece next hstep hstate hnext
    have hone : next.received = state.received ++ piece := by
      have hrunOne := EventSystem.run_cons.mpr ⟨next, hstep, EventSystem.run_nil next⟩
      have := received_of_run hrunOne
      rwa [List.flatten_singleton] at this
    refine recvInvariant_step hrealloc hframes hstep (hstate ?_) hnext
    rw [hone] at hnext
    exact (List.prefix_append _ _).trans hnext
  have hinvariant : RecvInvariant frames state :=
    EventSystem.run_invariant hstep hrun (fun _ ↦ recvInvariant_initial frames hframes)
      (hreceived ▸ hstream)
  have hdelivered := hinvariant.delivered
  rw [hreceived] at hdelivered
  refine ⟨hinvariant.finished, hdelivered, hinvariant.room, fun hcomplete ↦ ?_⟩
  rw [hdelivered, hcomplete, completeFrames_all]

/-- One piece with a whole frame and the first byte of the next. -/
theorem frames_reassembled_of_two :
    ∃ state, (recvSystem fun _ ↦ true).run RecvState.initial [[0, 0, 0, 1, 7, 0]] = some state ∧
      state.outDataList = [[0, 0, 0, 1, 7]] := by
  obtain ⟨next, hnext⟩ : ∃ next,
      (recvSystem fun _ ↦ true).step RecvState.initial [0, 0, 0, 1, 7, 0] = some next := by
    simp only [recvSystem, RecvState.recvData]
    exact ⟨_, if_pos ⟨rfl, by decide, by decide⟩⟩
  have hrun := EventSystem.run_cons.mpr ⟨next, hnext, EventSystem.run_nil next⟩
  have hframes : ∀ frame ∈ [[0, 0, 0, 1, 7], [0, 0, 0, 2, 8, 9]], IsFrame frame := by decide
  obtain ⟨-, hdelivered, -⟩ :=
    frames_reassembled (fun _ ↦ rfl) hframes hrun ⟨[0, 0, 2, 8, 9], rfl⟩
  exact ⟨next, hrun, hdelivered.trans (by decide)⟩

end RocketMQClient.Transport
