import RocketMQClient.Library.EventSystem
import RocketMQClient.Transport.FrameLoop

/-!
# How the buffer shrinks

A transport is created with a configured buffer, and its buffer grows to the first frame that does
not fit. `tryShrink` records the longest frame and cuts the buffer to it at the end of a countdown.
`shrinkSystem` interleaves the bytes that arrive with the two halves of an iteration of the frame
loop, up to the end of `tryShrink` and from there on, over any number of calls of `Connect`.

`buffer_shrinks_and_keeps_bytes` says that a run in which every cut leaves room for the bytes in use
and no frame longer than the bound is recorded keeps the bytes in use inside the buffer, and that
the buffer is within the bound after a row of short frames. The longest frame is never forgotten
(`shrinkMax_le_recvBufSize`), so one long frame keeps the buffer for ever
(`long_frame_keeps_buffer`).

The bound needs both halves of the condition. A cut leaves room for the bytes in use or loses some
of them (`cut_loses_bytes`), and a frame beyond the bound that is recorded raises the size to which
later cuts go. `Kept` says how far the countdown and the row of short frames have got together, and
`run_row` computes what a row of frames of one length does, for the runs at the end.
-/

set_option autoImplicit false
set_option relaxedAutoImplicit false

namespace RocketMQClient.Transport

open Library

namespace TcpTransport

/-! ### The two halves of an iteration -/

/-- A new transport whose configuration names a size for the buffer. -/
def configured (recvBufferSize : ℕ) : TcpTransport :=
  { new with
    recvBuf := List.replicate recvBufferSize 0
    recvBufSize := recvBufferSize }

/-- A successful `Connect`. -/
def connect (transport : TcpTransport) : TcpTransport := { transport with recvBufUsed := 0 }

/-- What the first half of an iteration does: the loop ends, or the length of a frame has been
recorded. -/
inductive HeadStep where
  | stop (transport : TcpTransport)
  | recorded (transport : TcpTransport) (msgLen : ℤ)

/-- The first half of an iteration, for a buffer with more than four bytes in use. -/
def readHead (realloc : ℤ → Bool) (transport : TcpTransport) : HeadStep :=
  let msgLen := getMsgSize transport.recvBuf
  if msgLen > transport.recvBufSize then
    let resized := resizeBuf realloc transport msgLen
    .stop (if resized.1 then { resized.2 with shrinkCheckCnt := defaultShrinkCount }
      else resized.2)
  else .recorded (tryShrink realloc transport msgLen) msgLen

/-- The second half of an iteration. -/
def takeFrame (transport : TcpTransport) (msgLen : ℤ) : ProcessStep :=
  if transport.recvBufUsed ≥ msgLen then
    if msgLen < 0 then .lengthError transport
    else .deliver (transport.recvBuf.take msgLen.toNat) (transport.dropFrame msgLen)
  else .stop transport

/-- The rest of an iteration. -/
def HeadStep.finish : HeadStep → ProcessStep
  | .stop transport => .stop transport
  | .recorded transport msgLen => transport.takeFrame msgLen

/-- An iteration is its two halves. -/
theorem processStep_eq_finish (realloc : ℤ → Bool) {transport : TcpTransport}
    (hlong : transport.recvBufUsed > 4) :
    transport.processStep realloc = (transport.readHead realloc).finish := by
  rw [processStep, if_pos hlong, readHead]
  dsimp only
  by_cases hlarger : getMsgSize transport.recvBuf > transport.recvBufSize
  · rw [if_pos hlarger, if_pos hlarger, HeadStep.finish]
  · rw [if_neg hlarger, if_neg hlarger, HeadStep.finish, takeFrame]

/-- A frame that does not fit makes the buffer grow, if the allocator grants it. -/
theorem readHead_of_larger {realloc : ℤ → Bool} {transport : TcpTransport}
    (hlarger : transport.recvBufSize < getMsgSize transport.recvBuf) :
    transport.readHead realloc = .stop (if realloc (getMsgSize transport.recvBuf) = true then
      { transport with
        recvBuf := reallocated transport.recvBuf (getMsgSize transport.recvBuf).toNat
        recvBufSize := getMsgSize transport.recvBuf
        shrinkCheckCnt := defaultShrinkCount }
      else transport) := by
  rw [readHead]
  dsimp only
  rw [if_pos hlarger, resizeBuf]
  by_cases hrealloc : realloc (getMsgSize transport.recvBuf) = true
  · simp only [hrealloc, if_true]
  · simp only [hrealloc, Bool.false_eq_true, if_false]

/-- A frame that fits is recorded. -/
theorem readHead_of_fitting {realloc : ℤ → Bool} {transport : TcpTransport}
    (hfits : ¬ transport.recvBufSize < getMsgSize transport.recvBuf) :
    transport.readHead realloc =
      .recorded (tryShrink realloc transport (getMsgSize transport.recvBuf))
        (getMsgSize transport.recvBuf) := by
  rw [readHead]
  dsimp only
  rw [if_neg hfits]

end TcpTransport

/-! ### Runs -/

/-- A transport, the length of the frame that has just been recorded, and the number of complete
frames in a row that are no longer than a limit. -/
structure ShrinkState where
  transport : TcpTransport
  recorded : Option ℤ
  row : ℕ

/-- The steps of the receiving side. -/
inductive ShrinkEvent where
  | connect
  | recv (received : ByteString)
  | readHead
  | takeFrame
  deriving DecidableEq

namespace ShrinkState

/-- A new transport. -/
def initial (recvBufferSize : ℕ) : ShrinkState := ⟨.configured recvBufferSize, none, 0⟩

/-- The state after the first half of an iteration. -/
def afterHead (row : ℕ) : TcpTransport.HeadStep → ShrinkState
  | .stop transport => ⟨transport, none, row⟩
  | .recorded transport msgLen => ⟨transport, some msgLen, row⟩

/-- The state after an iteration, with the length of the row before and after a frame. -/
def afterFrame (row next : ℕ) : TcpTransport.ProcessStep → ShrinkState
  | .deliver _ transport => ⟨transport, none, next⟩
  | .stop transport | .lengthError transport => ⟨transport, none, row⟩

/-- One step, with the limit for the frames of a row. -/
def step (realloc : ℤ → Bool) (limit : ℤ) (state : ShrinkState) : ShrinkEvent → Option ShrinkState
  | .connect =>
    if state.recorded = none then some { state with transport := state.transport.connect }
    else none
  | .recv received =>
    if state.recorded = none ∧
        received.length ≤ state.transport.recvBufSize - state.transport.recvBufUsed then
      some { state with transport := state.transport.recvMsg received }
    else none
  | .readHead =>
    if state.recorded = none ∧ state.transport.recvBufUsed > 4 then
      let row := if TcpTransport.getMsgSize state.transport.recvBuf ≤ limit then state.row else 0
      some (afterHead row (state.transport.readHead realloc))
    else none
  | .takeFrame =>
    state.recorded.map fun msgLen ↦
      afterFrame state.row (if msgLen ≤ limit then state.row + 1 else 0)
        (state.transport.takeFrame msgLen)

/-- A frame that is recorded is no longer than the limit or the default size, and when the buffer is
to be cut, the allocator does it and the bytes in use fit. -/
def CutsSafely (realloc : ℤ → Bool) (limit : ℤ) (state : ShrinkState) : ShrinkEvent → Prop
  | .readHead =>
    TcpTransport.getMsgSize state.transport.recvBuf ≤ state.transport.recvBufSize →
      TcpTransport.getMsgSize state.transport.recvBuf ≤ max defaultRecvBufferSize limit ∧
        (state.transport.shrinkCheckCnt = 0 →
          state.transport.sizes.recorded (TcpTransport.getMsgSize state.transport.recvBuf) <
              state.transport.recvBufSize →
            realloc (state.transport.sizes.recorded
                (TcpTransport.getMsgSize state.transport.recvBuf)) = true ∧
              state.transport.recvBufUsed ≤ state.transport.sizes.recorded
                (TcpTransport.getMsgSize state.transport.recvBuf))
  | .connect | .recv _ | .takeFrame => True

instance (realloc : ℤ → Bool) (limit : ℤ) (state : ShrinkState) :
    ∀ event : ShrinkEvent, Decidable (state.CutsSafely realloc limit event)
  | .readHead => inferInstanceAs (Decidable (_ → _))
  | .connect | .recv _ | .takeFrame => isTrue trivial

end ShrinkState

/-- A transport over any number of connections. -/
def shrinkSystem (realloc : ℤ → Bool) (limit : ℤ) : EventSystem ShrinkState ShrinkEvent where
  step := ShrinkState.step realloc limit

namespace ShrinkState

/-! ### What a run keeps -/

/-- The bytes in use are inside the buffer, no frame beyond the bound has been recorded, and the
buffer is within the bound or the countdown has not yet run out in this row. -/
structure Kept (limit : ℤ) (state : ShrinkState) : Prop where
  bounded : state.transport.Bounded
  recorded : state.transport.shrinkMax ≤ max defaultRecvBufferSize limit
  countdown : 0 ≤ state.transport.shrinkCheckCnt
  counted : state.transport.recvBufSize ≤ max defaultRecvBufferSize limit ∨
    state.transport.shrinkCheckCnt + state.row + state.recorded.isSome.toNat ≤ defaultShrinkCount

theorem defaultShrinkCount_nonneg : 0 ≤ defaultShrinkCount := by decide

theorem kept_initial (limit : ℤ) (recvBufferSize : ℕ) : (initial recvBufferSize).Kept limit where
  bounded := ⟨le_refl 0, Int.natCast_nonneg recvBufferSize⟩
  recorded := le_max_left _ _
  countdown := defaultShrinkCount_nonneg
  counted := Or.inr (le_refl defaultShrinkCount)

variable {realloc : ℤ → Bool} {limit : ℤ} {state next : ShrinkState}

/-- A row that begins again is no longer than before. -/
theorem row_le (row : ℕ) (msgLen limit : ℤ) : (if msgLen ≤ limit then row else 0) ≤ row := by
  split_ifs
  · exact le_refl row
  · exact Nat.zero_le row

/-- The first half of an iteration: the buffer grows to a frame that does not fit, the allocator
refuses that, or the frame is recorded. -/
theorem readHead_cases (hstep : state.step realloc limit .readHead = some next) :
    let msgLen := TcpTransport.getMsgSize state.transport.recvBuf
    let row := if msgLen ≤ limit then state.row else 0
    state.recorded = none ∧
      (state.transport.recvBufSize < msgLen ∧
          next = ⟨{ state.transport with
            recvBuf := TcpTransport.reallocated state.transport.recvBuf msgLen.toNat
            recvBufSize := msgLen
            shrinkCheckCnt := defaultShrinkCount }, none, row⟩ ∨
        next = ⟨state.transport, none, row⟩ ∨
        msgLen ≤ state.transport.recvBufSize ∧
          next = ⟨state.transport.tryShrink realloc msgLen, some msgLen, row⟩) := by
  intro msgLen row
  obtain ⟨hhead, hnext⟩ := Option.ite_none_right_eq_some.mp hstep
  refine ⟨hhead.1, ?_⟩
  obtain rfl : afterHead row (state.transport.readHead realloc) = next := Option.some.inj hnext
  by_cases hlarger : state.transport.recvBufSize < msgLen
  · rw [TcpTransport.readHead_of_larger hlarger, afterHead]
    by_cases hrealloc : realloc msgLen = true
    · exact Or.inl ⟨hlarger, by rw [if_pos hrealloc]⟩
    · exact Or.inr (Or.inl (by rw [if_neg hrealloc]))
  · rw [TcpTransport.readHead_of_fitting hlarger]
    exact Or.inr (Or.inr ⟨not_lt.mp hlarger, rfl⟩)

/-- The buffer grows to a frame that does not fit. -/
theorem Kept.grow (hkept : state.Kept limit) {recvBuf : ByteString} {msgLen : ℤ}
    (hlarger : state.transport.recvBufSize < msgLen) :
    Kept limit ⟨{ state.transport with
      recvBuf := recvBuf
      recvBufSize := msgLen
      shrinkCheckCnt := defaultShrinkCount }, none,
        if msgLen ≤ limit then state.row else 0⟩ := by
  obtain ⟨hnonneg, hle⟩ := hkept.bounded
  refine ⟨⟨hnonneg, hle.trans hlarger.le⟩, hkept.recorded, defaultShrinkCount_nonneg, ?_⟩
  by_cases hshort : msgLen ≤ limit
  · exact Or.inl (hshort.trans (le_max_right _ _))
  · refine Or.inr ?_
    dsimp only
    rw [if_neg hshort]
    exact le_refl defaultShrinkCount

/-- A frame that fits is recorded, and the buffer is cut safely if it is cut. -/
theorem Kept.record (hkept : state.Kept limit) (hnone : state.recorded = none) {msgLen : ℤ}
    (hbound : msgLen ≤ max defaultRecvBufferSize limit)
    (hcut : state.transport.shrinkCheckCnt = 0 →
      state.transport.sizes.recorded msgLen < state.transport.recvBufSize →
        realloc (state.transport.sizes.recorded msgLen) = true ∧
          state.transport.recvBufUsed ≤ state.transport.sizes.recorded msgLen) :
    Kept limit ⟨state.transport.tryShrink realloc msgLen, some msgLen,
      if msgLen ≤ limit then state.row else 0⟩ := by
  obtain ⟨⟨hnonneg, hle⟩, hrecorded, hcountdown, hcounted⟩ := hkept
  rw [hnone] at hcounted
  have hrecord : state.transport.sizes.recorded msgLen ≤ max defaultRecvBufferSize limit :=
    max_le hbound hrecorded
  have hsize := TcpTransport.tryShrink_recvBufSize realloc state.transport msgLen
  have hsizes := TcpTransport.tryShrink_sizes realloc state.transport msgLen
  have hshrinkMax : (state.transport.tryShrink realloc msgLen).shrinkMax =
      state.transport.sizes.recorded msgLen := congrArg BufferSizes.shrinkMax hsizes
  have hcnt : (state.transport.tryShrink realloc msgLen).shrinkCheckCnt =
      if state.transport.shrinkCheckCnt = 0 then defaultShrinkCount
        else state.transport.shrinkCheckCnt - 1 := congrArg BufferSizes.shrinkCheckCnt hsizes
  have hused := TcpTransport.tryShrink_recvBufUsed realloc state.transport msgLen
  have hrow := row_le state.row msgLen limit
  refine ⟨⟨hused.symm ▸ hnonneg, ?_⟩, hshrinkMax.symm ▸ hrecord, ?_, ?_⟩
  · dsimp only
    rw [hused, hsize, BufferSizes.record]
    dsimp only
    split_ifs with hshrinks
    · exact (hcut hshrinks.1 hshrinks.2.1).2
    · exact hle
  · dsimp only
    rw [hcnt]
    split_ifs
    · exact defaultShrinkCount_nonneg
    · omega
  · dsimp only
    rw [hcnt, hsize, BufferSizes.record]
    dsimp only
    by_cases hzero : state.transport.shrinkCheckCnt = 0
    · refine Or.inl ?_
      split_ifs with hshrinks
      · exact hrecord
      · refine le_trans (not_lt.mp fun hlarge ↦ hshrinks ?_) hrecord
        exact ⟨hzero, hlarge, (hcut hzero hlarge).1⟩
    · rw [if_neg hzero, if_neg fun hshrinks ↦ hzero hshrinks.1]
      refine hcounted.imp_right fun hcount ↦ ?_
      simp only [Option.isSome_none, Option.isSome_some, Bool.toNat_false,
        Bool.toNat_true] at hcount ⊢
      omega

/-- The first half of an iteration keeps the bytes in use inside the buffer. -/
theorem Kept.readHead (hkept : state.Kept limit)
    (hsafe : state.CutsSafely realloc limit .readHead)
    (hstep : state.step realloc limit .readHead = some next) : next.Kept limit := by
  obtain ⟨hnone, ⟨hlarger, rfl⟩ | rfl | ⟨hfits, rfl⟩⟩ := readHead_cases hstep
  · exact hkept.grow hlarger
  · have hcounted := hkept.counted
    have hrow := row_le state.row (TcpTransport.getMsgSize state.transport.recvBuf) limit
    refine ⟨hkept.bounded, hkept.recorded, hkept.countdown, hcounted.imp_right fun hcount ↦ ?_⟩
    simp only [hnone, Option.isSome_none, Bool.toNat_false] at hcount ⊢
    omega
  · exact hkept.record hnone (hsafe hfits).1 (hsafe hfits).2

/-- The second half of an iteration keeps the bytes in use inside the buffer. -/
theorem Kept.takeFrame (hkept : state.Kept limit)
    (hstep : state.step realloc limit .takeFrame = some next) : next.Kept limit := by
  obtain ⟨⟨hnonneg, hle⟩, hrecorded, hcountdown, hcounted⟩ := hkept
  obtain ⟨msgLen, hmsgLen, rfl⟩ := Option.map_eq_some_iff.mp hstep
  rw [hmsgLen] at hcounted
  simp only [Option.isSome_some, Bool.toNat_true] at hcounted
  have hstopped : ShrinkState.Kept limit ⟨state.transport, none, state.row⟩ := by
    refine ⟨⟨hnonneg, hle⟩, hrecorded, hcountdown, hcounted.imp_right fun hcount ↦ ?_⟩
    simp only [Option.isSome_none, Bool.toNat_false]
    omega
  rw [TcpTransport.takeFrame]
  by_cases hcomplete : state.transport.recvBufUsed ≥ msgLen
  · by_cases hnegative : msgLen < 0
    · rw [if_pos hcomplete, if_pos hnegative, afterFrame]
      exact hstopped
    · rw [if_pos hcomplete, if_neg hnegative, afterFrame]
      refine ⟨⟨?_, ?_⟩, hrecorded, hcountdown, hcounted.imp_right fun hcount ↦ ?_⟩
      · simp only [TcpTransport.dropFrame]
        omega
      · simp only [TcpTransport.dropFrame]
        omega
      · simp only [TcpTransport.dropFrame, Option.isSome_none, Bool.toNat_false]
        split_ifs
        · omega
        · omega
  · rw [if_neg hcomplete, afterFrame]
    exact hstopped

/-- A step that cuts safely keeps the bytes in use inside the buffer. -/
theorem kept_step (state : ShrinkState) (event : ShrinkEvent) (next : ShrinkState)
    (hsafe : state.CutsSafely realloc limit event)
    (hsystem : (shrinkSystem realloc limit).step state event = some next)
    (hkept : state.Kept limit) : next.Kept limit := by
  have hstep : state.step realloc limit event = some next := hsystem
  cases event with
  | connect =>
    rw [step] at hstep
    split_ifs at hstep with hnone
    rw [← Option.some.inj hstep]
    exact ⟨⟨le_refl 0, hkept.bounded.1.trans hkept.bounded.2⟩, hkept.recorded, hkept.countdown,
      hkept.counted⟩
  | recv received =>
    rw [step] at hstep
    split_ifs at hstep with hroom
    rw [← Option.some.inj hstep]
    obtain ⟨hnonneg, hle⟩ := hkept.bounded
    refine ⟨⟨?_, ?_⟩, hkept.recorded, hkept.countdown, hkept.counted⟩
    · simp only [TcpTransport.recvMsg]
      omega
    · simp only [TcpTransport.recvMsg]
      omega
  | readHead => exact hkept.readHead hsafe hstep
  | takeFrame => exact hkept.takeFrame hstep

/-! ### Rows of short frames -/

/-- In a run whose cuts leave room for the bytes in use and which records no frame beyond the bound,
the bytes in use are inside the buffer in every state reached, so after every `tryShrink`, and the
buffer is within the bound after a row of short frames. -/
theorem buffer_shrinks_and_keeps_bytes (realloc : ℤ → Bool) (limit : ℤ) (recvBufferSize : ℕ)
    {events : List ShrinkEvent}
    (hsafe : (shrinkSystem realloc limit).Along (CutsSafely realloc limit)
      (initial recvBufferSize) events)
    (hrun : (shrinkSystem realloc limit).run (initial recvBufferSize) events = some state) :
    0 ≤ state.transport.recvBufUsed ∧
      state.transport.recvBufUsed ≤ state.transport.recvBufSize ∧
        (2 * (defaultShrinkCount + 1) < state.row →
          state.transport.recvBufSize ≤ max defaultRecvBufferSize limit) := by
  have hkept := EventSystem.run_invariant_of_along kept_step hsafe hrun
    (kept_initial limit recvBufferSize)
  refine ⟨hkept.bounded.1, hkept.bounded.2, fun hrow ↦ hkept.counted.resolve_right fun hcount ↦ ?_⟩
  have hcountdown := hkept.countdown
  have hcount32 := defaultShrinkCount_nonneg
  omega

/-- Sixty-seven frames of five bytes, each of which arrives as a whole. -/
def shortFrames : List ShrinkEvent :=
  (List.replicate 67 [.recv [0, 0, 0, 1, 0], .readHead, .takeFrame]).flatten

/-- The buffer of 20000 bytes is cut after the first half of the frames and not again. -/
theorem buffer_shrinks_and_keeps_bytes_of_frames : ∃ state,
    (shrinkSystem (fun _ ↦ true) 5).run (initial 20000) shortFrames = some state ∧
      state.row = 67 ∧ 0 ≤ state.transport.recvBufUsed ∧
        state.transport.recvBufUsed ≤ state.transport.recvBufSize ∧
          state.transport.recvBufSize ≤ 16384 := by
  have hsafe : (shrinkSystem (fun _ ↦ true) 5).Along (CutsSafely (fun _ ↦ true) 5) (initial 20000)
      shortFrames := by decide +kernel
  have hrow : ((shrinkSystem (fun _ ↦ true) 5).run (initial 20000) shortFrames).map
      ShrinkState.row = some 67 := by decide +kernel
  obtain ⟨state, hrun, hstate⟩ := Option.map_eq_some_iff.mp hrow
  obtain ⟨hnonneg, hused, hsize⟩ :=
    buffer_shrinks_and_keeps_bytes (fun _ ↦ true) 5 20000 hsafe hrun
  exact ⟨state, hrun, hstate, hnonneg, hused, hsize (by rw [hstate]; decide)⟩

/-! ### The longest frame is not forgotten -/

/-- The longest frame is not forgotten, and a buffer that is as long stays so. -/
def Remembers (before after : BufferSizes) : Prop :=
  before.shrinkMax ≤ after.shrinkMax ∧
    (before.shrinkMax ≤ max defaultRecvBufferSize before.recvBufSize →
      after.shrinkMax ≤ max defaultRecvBufferSize after.recvBufSize)

theorem remembers_refl (sizes : BufferSizes) : Remembers sizes sizes := ⟨le_refl _, id⟩

theorem remembers_trans (first second third : BufferSizes) (hfirst : Remembers first second)
    (hsecond : Remembers second third) : Remembers first third :=
  ⟨hfirst.1.trans hsecond.1, fun hmax ↦ hsecond.2 (hfirst.2 hmax)⟩

theorem remembers_record {sizes : BufferSizes} {msgLen : ℤ} (hfits : msgLen ≤ sizes.recvBufSize) :
    Remembers sizes (sizes.record realloc msgLen) := by
  refine ⟨le_max_right _ _, fun hmax ↦ ?_⟩
  rw [BufferSizes.record]
  dsimp only
  split_ifs
  · exact le_max_right _ _
  · exact max_le (hfits.trans (le_max_right _ _)) hmax

theorem remembers_grow {sizes : BufferSizes} {msgLen : ℤ} (hlarger : sizes.recvBufSize < msgLen) :
    Remembers sizes { sizes with
      recvBufSize := msgLen
      shrinkCheckCnt := defaultShrinkCount } :=
  ⟨le_refl _, fun hmax ↦ hmax.trans
    (max_le (le_max_left _ _) (hlarger.le.trans (le_max_right _ _)))⟩

theorem remembers_step (state : ShrinkState) (event : ShrinkEvent) (next : ShrinkState)
    (hsystem : (shrinkSystem realloc limit).step state event = some next) :
    Remembers state.transport.sizes next.transport.sizes := by
  have hstep : state.step realloc limit event = some next := hsystem
  cases event with
  | connect =>
    rw [step] at hstep
    split_ifs at hstep
    rw [← Option.some.inj hstep]
    exact remembers_refl _
  | recv received =>
    rw [step] at hstep
    split_ifs at hstep
    rw [← Option.some.inj hstep]
    exact remembers_refl _
  | readHead =>
    obtain ⟨-, ⟨hlarger, rfl⟩ | rfl | ⟨hfits, rfl⟩⟩ := readHead_cases hstep
    · dsimp only [TcpTransport.sizes]
      exact remembers_grow hlarger
    · exact remembers_refl _
    · dsimp only
      rw [TcpTransport.tryShrink_sizes]
      exact remembers_record hfits
  | takeFrame =>
    obtain ⟨msgLen, -, rfl⟩ := Option.map_eq_some_iff.mp hstep
    rw [TcpTransport.takeFrame]
    split_ifs <;> exact remembers_refl _

/-- A frame beyond the default size that was recorded keeps the buffer at its length for ever. -/
theorem shrinkMax_le_recvBufSize {recvBufferSize : ℕ} {last : ShrinkState}
    {earlier later : List ShrinkEvent}
    (hearlier : (shrinkSystem realloc limit).run (initial recvBufferSize) earlier = some state)
    (hlong : defaultRecvBufferSize < state.transport.shrinkMax)
    (hlater : (shrinkSystem realloc limit).run state later = some last) :
    state.transport.shrinkMax ≤ last.transport.recvBufSize := by
  have hremembers : ∀ {first second : ShrinkState} {events : List ShrinkEvent},
      (shrinkSystem realloc limit).run first events = some second →
        Remembers first.transport.sizes second.transport.sizes := fun hrun ↦
    @EventSystem.run_relation _ _ _
      (fun before after ↦ Remembers before.transport.sizes after.transport.sizes)
      (fun _ ↦ remembers_refl _) (fun _ _ _ ↦ remembers_trans _ _ _) remembers_step _ _ _ hrun
  have hinitial : (initial recvBufferSize).transport.sizes.shrinkMax ≤
      max defaultRecvBufferSize (initial recvBufferSize).transport.sizes.recvBufSize :=
    le_max_left defaultRecvBufferSize (recvBufferSize : ℤ)
  obtain ⟨hkept, hlast⟩ := hremembers hlater
  have hmax : last.transport.shrinkMax ≤ max defaultRecvBufferSize last.transport.recvBufSize :=
    hlast ((hremembers hearlier).2 hinitial)
  have hlonger : state.transport.shrinkMax ≤ last.transport.shrinkMax := hkept
  omega

/-! ### Two runs of frames -/

/-- The steps of a frame that arrives as a whole. -/
def frameEvents (frame : ByteString) : List ShrinkEvent := [.recv frame, .readHead, .takeFrame]

/-- Bytes that fit are received. -/
theorem step_recv {transport : TcpTransport} {row : ℕ} {frame : ByteString}
    (hfits : (frame.length : ℤ) ≤ transport.recvBufSize - transport.recvBufUsed) :
    step realloc limit ⟨transport, none, row⟩ (.recv frame) =
      some ⟨transport.recvMsg frame, none, row⟩ := by
  rw [step, if_pos ⟨rfl, hfits⟩]

/-- The length of a frame that fits is recorded. -/
theorem step_readHead {transport : TcpTransport} {row : ℕ} {msgLen : ℤ}
    (hlong : transport.recvBufUsed > 4)
    (hmsgLen : TcpTransport.getMsgSize transport.recvBuf = msgLen)
    (hfits : msgLen ≤ transport.recvBufSize) :
    step realloc limit ⟨transport, none, row⟩ .readHead =
      some ⟨transport.tryShrink realloc msgLen, some msgLen,
        if msgLen ≤ limit then row else 0⟩ := by
  rw [step, if_pos ⟨rfl, hlong⟩]
  dsimp only
  rw [TcpTransport.readHead_of_fitting (by rw [hmsgLen]; exact not_lt.mpr hfits), hmsgLen,
    afterHead]

/-- A complete frame is taken. -/
theorem step_takeFrame {transport : TcpTransport} {row : ℕ} {msgLen : ℤ} (hnonneg : 0 ≤ msgLen)
    (hcomplete : msgLen ≤ transport.recvBufUsed) :
    step realloc limit ⟨transport, some msgLen, row⟩ .takeFrame =
      some ⟨transport.dropFrame msgLen, none, if msgLen ≤ limit then row + 1 else 0⟩ := by
  rw [step, Option.map_some, TcpTransport.takeFrame, if_pos hcomplete, if_neg (not_lt.mpr hnonneg),
    afterFrame]

/-- An empty buffer with room for a frame takes it. -/
theorem run_frame (realloc : ℤ → Bool) (limit : ℤ) {transport : TcpTransport}
    {frame : ByteString} (row : ℕ)
    (hsound : transport.Sound) (hempty : transport.recvBufUsed = 0)
    (hlength : TcpTransport.getMsgSize frame = frame.length) (hlong : 4 < frame.length)
    (hroom : frame.length ≤ transport.recvBufSize) :
    ∃ after, (shrinkSystem realloc limit).run ⟨transport, none, row⟩ (frameEvents frame) =
        some ⟨after, none, if frame.length ≤ limit then row + 1 else 0⟩ ∧
      after.Sound ∧ after.recvBufUsed = 0 ∧
        after.sizes = transport.sizes.record realloc frame.length := by
  obtain ⟨received, hreceived⟩ : ∃ received, transport.recvMsg frame = received := ⟨_, rfl⟩
  obtain ⟨msgLen, hframe⟩ : ∃ msgLen : ℤ, frame.length = msgLen := ⟨_, rfl⟩
  have hfits : (frame.length : ℤ) ≤ transport.recvBufSize - transport.recvBufUsed := by omega
  have hsoundReceived : received.Sound := hreceived ▸ hsound.recvMsg_sound hfits
  have hcontents : received.contents = frame := by
    have hnone : transport.contents = [] := by
      rw [TcpTransport.contents, hempty]
      rfl
    rw [← hreceived, hsound.contents_recvMsg frame, hnone, List.nil_append]
  have hsizes : received.sizes = transport.sizes := hreceived ▸ rfl
  have hsize : received.recvBufSize = transport.recvBufSize :=
    congrArg BufferSizes.recvBufSize hsizes
  have hused : received.recvBufUsed = msgLen := by
    rw [← hsoundReceived.length_contents, hcontents, hframe]
  have hmsgLen : TcpTransport.getMsgSize received.recvBuf = msgLen := by
    rw [TcpTransport.getMsgSize_recvBuf (by omega), hcontents, hlength, hframe]
  have hkept : received.recvBufUsed ≤ (received.sizes.record realloc msgLen).recvBufSize := by
    rw [BufferSizes.record]
    dsimp only
    split_ifs
    · exact hused.le.trans (le_max_left _ _)
    · exact hsoundReceived.used_le
  obtain ⟨hafter, -, hafterSizes⟩ :=
    TcpTransport.sound_dropFrame_tryShrink hsoundReceived (by omega) hused.ge hkept
  have hrecv : step realloc limit ⟨transport, none, row⟩ (.recv frame) =
      some ⟨received, none, row⟩ := by
    rw [step_recv hfits, hreceived]
  have hread : step realloc limit ⟨received, none, row⟩ .readHead =
      some ⟨received.tryShrink realloc msgLen, some msgLen, if msgLen ≤ limit then row else 0⟩ :=
    step_readHead (by omega) hmsgLen (by omega)
  have htake : step realloc limit
      ⟨received.tryShrink realloc msgLen, some msgLen, if msgLen ≤ limit then row else 0⟩
        .takeFrame = some ⟨(received.tryShrink realloc msgLen).dropFrame msgLen, none,
          if msgLen ≤ limit then (if msgLen ≤ limit then row else 0) + 1 else 0⟩ :=
    step_takeFrame (by omega) (by rw [TcpTransport.tryShrink_recvBufUsed]; omega)
  rw [hframe]
  refine ⟨_, EventSystem.run_cons.mpr ⟨_, hrecv, EventSystem.run_cons.mpr ⟨_, hread,
    EventSystem.run_cons.mpr ⟨_, htake, ?_⟩⟩⟩, hafter, ?_, by rw [hafterSizes, hsizes]⟩
  · rw [EventSystem.run_nil]
    by_cases hshort : msgLen ≤ limit
    · rw [if_pos hshort, if_pos hshort, if_pos hshort]
    · rw [if_neg hshort, if_neg hshort]
  · show (received.tryShrink realloc msgLen).recvBufUsed - msgLen = 0
    rw [TcpTransport.tryShrink_recvBufUsed]
    omega

/-- The sizes of a buffer after a row of frames of one length. -/
def recordRow (realloc : ℤ → Bool) (msgLen : ℤ) : ℕ → BufferSizes → BufferSizes
  | 0, sizes => sizes
  | count + 1, sizes => recordRow realloc msgLen count (sizes.record realloc msgLen)

/-- An empty buffer takes a row of frames of one length, when no cut leaves too little room for
them. -/
theorem run_row (realloc : ℤ → Bool) {frame : ByteString}
    (hlength : TcpTransport.getMsgSize frame = frame.length)
    (hlong : 4 < frame.length) (hshort : (frame.length : ℤ) ≤ limit) (count : ℕ)
    {transport : TcpTransport} (row : ℕ) (hsound : transport.Sound)
    (hempty : transport.recvBufUsed = 0) (hroom : frame.length ≤ transport.recvBufSize) :
    ∃ after, (shrinkSystem realloc limit).run ⟨transport, none, row⟩
        (List.replicate count (frameEvents frame)).flatten =
          some ⟨after, none, row + count⟩ ∧
      after.Sound ∧ after.recvBufUsed = 0 ∧
        after.sizes = recordRow realloc frame.length count transport.sizes := by
  induction count generalizing transport row with
  | zero => exact ⟨transport, rfl, hsound, hempty, rfl⟩
  | succ count ih =>
    obtain ⟨middle, hrun, hmiddle, hnone, hsizes⟩ :=
      run_frame realloc limit row hsound hempty hlength hlong hroom
    rw [if_pos hshort] at hrun
    have hmiddleRoom : frame.length ≤ middle.recvBufSize := by
      have hsize : middle.recvBufSize =
          (transport.sizes.record realloc frame.length).recvBufSize :=
        congrArg BufferSizes.recvBufSize hsizes
      rw [hsize, BufferSizes.record]
      dsimp only
      split_ifs
      · exact le_max_left _ _
      · exact hroom
    obtain ⟨after, hrest, hafter, hafterNone, hafterSizes⟩ := ih (row + 1) hmiddle hnone hmiddleRoom
    refine ⟨after, ?_, hafter, hafterNone, by rw [hafterSizes, hsizes, recordRow]⟩
    rw [List.replicate_succ, List.flatten_cons, EventSystem.run_append]
    refine ⟨_, hrun, hrest.trans ?_⟩
    rw [Nat.add_right_comm, Nat.add_assoc]

/-- Before the end of the countdown frames that are not longer than the longest one leave the size
of the buffer. -/
theorem recordRow_eq {msgLen : ℤ} (count : ℕ) (sizes : BufferSizes)
    (hshort : msgLen ≤ sizes.shrinkMax) (hcount : count ≤ sizes.shrinkCheckCnt) :
    recordRow realloc msgLen count sizes =
      ⟨sizes.recvBufSize, sizes.shrinkMax, sizes.shrinkCheckCnt - count⟩ := by
  induction count generalizing sizes with
  | zero => simp [recordRow]
  | succ count ih =>
    have hpositive : sizes.shrinkCheckCnt ≠ 0 := by omega
    have hrecord : sizes.record realloc msgLen =
        ⟨sizes.recvBufSize, sizes.shrinkMax, sizes.shrinkCheckCnt - 1⟩ := by
      rw [BufferSizes.record, if_neg hpositive, if_neg fun hshrinks ↦ hpositive hshrinks.1,
        BufferSizes.recorded, max_eq_right hshort]
    rw [recordRow, hrecord,
      ih ⟨sizes.recvBufSize, sizes.shrinkMax, sizes.shrinkCheckCnt - 1⟩ hshort
        (by dsimp only; omega)]
    congr 1
    push_cast
    omega

theorem configured_sound (recvBufferSize : ℕ) :
    (TcpTransport.configured recvBufferSize).Sound where
  length_recvBuf := by
    show ((List.replicate recvBufferSize (0 : Byte)).length : ℤ) = recvBufferSize
    rw [List.length_replicate]
  used_nonneg := le_refl 0
  used_le := Int.natCast_nonneg recvBufferSize

/-- A frame of five bytes. -/
def shortFrame : ByteString := [0, 0, 0, 1, 0]

/-- A frame of 16385 bytes. -/
def longFrame : ByteString := [0, 0, 63, 253] ++ List.replicate 16381 0

/-- A frame of 16385 bytes and 67 frames of five bytes. -/
def longFrameEvents : List ShrinkEvent :=
  frameEvents longFrame ++ (List.replicate 67 (frameEvents shortFrame)).flatten

/-- One frame longer than the default size keeps the buffer at its length, however many short frames
follow. -/
theorem long_frame_keeps_buffer : ∃ state,
    (shrinkSystem (fun _ ↦ true) 5).run (initial 16385) longFrameEvents = some state ∧
      2 * (defaultShrinkCount + 1) < state.row ∧
        ¬ state.transport.recvBufSize ≤ max defaultRecvBufferSize 5 := by
  have hlength : (longFrame.length : ℤ) = 16385 := by
    rw [longFrame, List.length_append, List.length_replicate]
    rfl
  have hmsgLen : TcpTransport.getMsgSize longFrame = longFrame.length := by
    rw [hlength]
    decide
  obtain ⟨middle, hlong, hmiddle, hempty, hsizes⟩ := run_frame (fun _ ↦ true) 5 0
    (configured_sound 16385) rfl hmsgLen (by omega) hlength.le
  have hmiddleSizes : middle.sizes = ⟨16385, 16385, 31⟩ := by
    rw [hsizes, hlength]
    rfl
  have hroom : middle.recvBufSize = 16385 := congrArg BufferSizes.recvBufSize hmiddleSizes
  have hshrinkMax : middle.shrinkMax = 16385 := congrArg BufferSizes.shrinkMax hmiddleSizes
  rw [if_neg (by rw [hlength]; decide)] at hlong
  have hmsgLenShort : TcpTransport.getMsgSize shortFrame = shortFrame.length := by decide
  obtain ⟨after, hshort, -⟩ := run_row (fun _ ↦ true) hmsgLenShort (by decide) (le_refl 5) 67 0
    hmiddle hempty (by rw [hroom]; decide)
  refine ⟨_, EventSystem.run_append.mpr ⟨_, hlong, hshort⟩, ?_, ?_⟩
  · show 2 * (defaultShrinkCount + 1) < ((0 + 67 : ℕ) : ℤ)
    decide
  · have hkept := shrinkMax_le_recvBufSize hlong (by rw [hshrinkMax]; decide) hshort
    dsimp only at hkept ⊢
    rw [hshrinkMax] at hkept
    have hbound : max defaultRecvBufferSize 5 = 16384 := by decide
    omega

/-- 32 frames of five bytes, and then 20000 bytes at once that begin with another one. -/
def cutEvents : List ShrinkEvent :=
  (List.replicate 32 (frameEvents shortFrame)).flatten ++
    [.recv (shortFrame ++ List.replicate 19995 0), .readHead]

/-- A buffer of 20000 bytes that is full is cut to the default size. -/
theorem cut_loses_bytes : ∃ state,
    (shrinkSystem (fun _ ↦ true) 5).run (initial 20000) cutEvents = some state ∧
      state.transport.recvBufSize < state.transport.recvBufUsed := by
  have hmsgLen : TcpTransport.getMsgSize shortFrame = shortFrame.length := by decide
  obtain ⟨middle, hshort, hmiddle, hempty, hsizes⟩ := run_row (fun _ ↦ true) hmsgLen (by decide)
    (le_refl 5) 32 0 (configured_sound 20000) rfl (by decide)
  have hmiddleSizes : middle.sizes = ⟨20000, 16384, 0⟩ :=
    hsizes.trans (recordRow_eq 32 ⟨20000, 16384, 32⟩ (by decide) (by decide))
  have hsize : middle.recvBufSize = 20000 := congrArg BufferSizes.recvBufSize hmiddleSizes
  obtain ⟨bytes, hbytes⟩ : ∃ bytes, bytes = shortFrame ++ List.replicate 19995 0 := ⟨_, rfl⟩
  have hlength : bytes.length = 20000 := by
    rw [hbytes, List.length_append, List.length_replicate]
    rfl
  have hfits : (bytes.length : ℤ) ≤ middle.recvBufSize - middle.recvBufUsed := by omega
  have hused : (middle.recvMsg bytes).recvBufUsed = 20000 := by
    show middle.recvBufUsed + bytes.length = 20000
    omega
  have hreceivedSizes : (middle.recvMsg bytes).sizes = ⟨20000, 16384, 0⟩ := hmiddleSizes
  have hhead : TcpTransport.getMsgSize (middle.recvMsg bytes).recvBuf = 5 := by
    have hcontents : middle.contents = [] := by
      rw [TcpTransport.contents, hempty]
      rfl
    rw [TcpTransport.getMsgSize_recvBuf (by omega), hmiddle.contents_recvMsg, hcontents,
      List.nil_append, hbytes]
    decide
  have hrecv : step (fun _ ↦ true) 5 ⟨middle, none, 0 + 32⟩ (.recv bytes) =
      some ⟨middle.recvMsg bytes, none, 0 + 32⟩ := step_recv hfits
  have hread : step (fun _ ↦ true) 5 ⟨middle.recvMsg bytes, none, 0 + 32⟩ .readHead =
      some ⟨(middle.recvMsg bytes).tryShrink (fun _ ↦ true) 5, some 5,
        if (5 : ℤ) ≤ 5 then 0 + 32 else 0⟩ :=
    step_readHead (by omega) hhead (by
      show 5 ≤ middle.recvBufSize
      omega)
  rw [cutEvents, ← hbytes]
  refine ⟨_, EventSystem.run_append.mpr ⟨_, hshort, EventSystem.run_cons.mpr ⟨_, hrecv,
    EventSystem.run_cons.mpr ⟨_, hread, EventSystem.run_nil _⟩⟩⟩, ?_⟩
  dsimp only
  rw [TcpTransport.tryShrink_recvBufUsed, TcpTransport.tryShrink_recvBufSize, hreceivedSizes, hused]
  decide

end ShrinkState

end RocketMQClient.Transport
