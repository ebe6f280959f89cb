import RocketMQClient.Transport.TcpTransport

/-!
# The frame loop on any bytes

The loop of `processData` trusts the size word of each frame. `EndsWell` is what it should do on any
contents of the buffer: end without an exception, keep the bytes in use inside the buffer in every
state it passes, and deliver no empty string. `FrameChain` is the condition on the bytes in use and
the sizes of the buffer: at each position either at most four bytes are left, or the frame is longer
than the bytes left, or its length is positive and `tryShrink` does not cut off bytes in use.
`ends_well_iff` says that the two agree. A size word of `-4` makes the loop endless
(`zero_length_frame_endless`).

What the loop does to the sizes of the buffer depends on the lengths of the frames alone
(`BufferSizes.record`).
-/

set_option autoImplicit false
set_option relaxedAutoImplicit false

namespace RocketMQClient.Transport

open Library

/-! ### The sizes of a buffer -/

/-- The size of a buffer, the longest frame recorded, and the countdown to the next attempt to
shrink the buffer. -/
structure BufferSizes where
  recvBufSize : ℤ
  shrinkMax : ℤ
  shrinkCheckCnt : ℤ

namespace BufferSizes

/-- The longest frame recorded after a frame. -/
def recorded (sizes : BufferSizes) (msgLen : ℤ) : ℤ := max msgLen sizes.shrinkMax

/-- The buffer shrinks to the longest frame recorded. -/
def Shrinks (realloc : ℤ → Bool) (sizes : BufferSizes) (msgLen : ℤ) : Prop :=
  sizes.shrinkCheckCnt = 0 ∧ sizes.recorded msgLen < sizes.recvBufSize ∧
    realloc (sizes.recorded msgLen) = true

instance (realloc : ℤ → Bool) (sizes : BufferSizes) (msgLen : ℤ) :
    Decidable (sizes.Shrinks realloc msgLen) := inferInstanceAs (Decidable (_ ∧ _))

/-- The sizes after `tryShrink`. -/
def record (realloc : ℤ → Bool) (sizes : BufferSizes) (msgLen : ℤ) : BufferSizes where
  recvBufSize := if sizes.Shrinks realloc msgLen then sizes.recorded msgLen else sizes.recvBufSize
  shrinkMax := sizes.recorded msgLen
  shrinkCheckCnt := if sizes.shrinkCheckCnt = 0 then defaultShrinkCount
    else sizes.shrinkCheckCnt - 1

end BufferSizes

namespace TcpTransport

/-- The sizes of the buffer of a transport. -/
def sizes (transport : TcpTransport) : BufferSizes :=
  ⟨transport.recvBufSize, transport.shrinkMax, transport.shrinkCheckCnt⟩

/-- `tryShrink` leaves the bytes alone or cuts the buffer, and does to the sizes what `record`
says. -/
theorem tryShrink_spec (realloc : ℤ → Bool) (transport : TcpTransport) (msgLen : ℤ) :
    tryShrink realloc transport msgLen = {
      recvBuf := if transport.sizes.Shrinks realloc msgLen then
          reallocated transport.recvBuf (transport.sizes.recorded msgLen).toNat
        else transport.recvBuf
      recvBufSize := (transport.sizes.record realloc msgLen).recvBufSize
      recvBufUsed := transport.recvBufUsed
      shrinkMax := (transport.sizes.record realloc msgLen).shrinkMax
      shrinkCheckCnt := (transport.sizes.record realloc msgLen).shrinkCheckCnt } := by
  have hmax : (if msgLen > transport.shrinkMax then msgLen else transport.shrinkMax) =
      max msgLen transport.shrinkMax := by
    split_ifs <;> omega
  unfold tryShrink
  rw [hmax]
  simp only [sizes, BufferSizes.record, BufferSizes.Shrinks, BufferSizes.recorded, resizeBuf]
  by_cases hcount : transport.shrinkCheckCnt = 0
  · by_cases hsize : transport.recvBufSize > max msgLen transport.shrinkMax
    · by_cases hrealloc : realloc (max msgLen transport.shrinkMax) = true
      · simp [hcount, hsize, hrealloc]
      · simp [hcount, hsize, hrealloc]
    · simp [hcount, hsize]
  · simp [hcount]

@[simp] theorem tryShrink_recvBufUsed (realloc : ℤ → Bool) (transport : TcpTransport)
    (msgLen : ℤ) : (tryShrink realloc transport msgLen).recvBufUsed = transport.recvBufUsed := by
  rw [tryShrink_spec]

@[simp] theorem tryShrink_sizes (realloc : ℤ → Bool) (transport : TcpTransport) (msgLen : ℤ) :
    (tryShrink realloc transport msgLen).sizes = transport.sizes.record realloc msgLen := by
  rw [tryShrink_spec]
  rfl

theorem tryShrink_recvBufSize (realloc : ℤ → Bool) (transport : TcpTransport) (msgLen : ℤ) :
    (tryShrink realloc transport msgLen).recvBufSize =
      (transport.sizes.record realloc msgLen).recvBufSize := by
  rw [tryShrink_spec]

namespace Sound

variable {transport : TcpTransport}

/-- Recording a frame keeps a buffer in order when the bytes in use fit afterwards. -/
theorem tryShrink (hsound : transport.Sound) {realloc : ℤ → Bool} {msgLen : ℤ}
    (hfits : transport.recvBufUsed ≤ (transport.sizes.record realloc msgLen).recvBufSize) :
    (TcpTransport.tryShrink realloc transport msgLen).Sound ∧
      (TcpTransport.tryShrink realloc transport msgLen).contents = transport.contents := by
  have hused := hsound.used_nonneg
  rw [tryShrink_spec]
  by_cases hshrinks : transport.sizes.Shrinks realloc msgLen
  · have hsize : (transport.sizes.record realloc msgLen).recvBufSize =
        transport.sizes.recorded msgLen := if_pos hshrinks
    rw [if_pos hshrinks]
    refine ⟨⟨?_, hused, hfits⟩, ?_⟩
    · rw [length_reallocated]
      dsimp only
      omega
    · exact hsound.contents_reallocated (by omega)
  · rw [if_neg hshrinks]
    have hsize : (transport.sizes.record realloc msgLen).recvBufSize = transport.recvBufSize :=
      if_neg hshrinks
    refine ⟨⟨?_, hused, hfits⟩, rfl⟩
    rw [hsize]
    exact hsound.length_recvBuf

end Sound

/-! ### What the loop should do -/

/-- The number of bytes in use lies between zero and the size of the buffer. -/
def Bounded (transport : TcpTransport) : Prop :=
  0 ≤ transport.recvBufUsed ∧ transport.recvBufUsed ≤ transport.recvBufSize

/-- The states that the loop passes: after each `tryShrink` and at the end of each iteration. -/
def passedStates (realloc : ℤ → Bool) : ℕ → TcpTransport → List TcpTransport
  | 0, _ => []
  | fuel + 1, transport =>
    match processStep realloc transport with
    | .stop stopped => [stopped]
    | .lengthError stopped => [stopped]
    | .deliver _ rest =>
      tryShrink realloc transport (getMsgSize transport.recvBuf) :: rest ::
        passedStates realloc fuel rest

/-- The loop ends without an exception, keeps the bytes in use, which it reads and moves, inside the
buffer, and delivers no empty string. -/
structure LoopEndsWell (realloc : ℤ → Bool) (fuel : ℕ) (transport : TcpTransport)
    (outDataList : List ByteString) : Prop where
  finished : (processLoop realloc fuel transport outDataList).1 = .finished
  bounded : ∀ passed ∈ passedStates realloc fuel transport, passed.Bounded
  nonempty : ∃ delivered, (processLoop realloc fuel transport outDataList).2.2 =
    outDataList ++ delivered ∧ ∀ data ∈ delivered, data ≠ []

/-- A call of `processData` ends well. -/
def EndsWell (realloc : ℤ → Bool) (transport : TcpTransport) (outDataList : List ByteString) :
    Prop :=
  LoopEndsWell realloc (transport.recvBufUsed.toNat + 1) transport outDataList

/-- The bytes in use are frames that can be delivered, up to bytes that are not a whole frame. -/
inductive FrameChain (realloc : ℤ → Bool) : ByteString → BufferSizes → Prop
  | short {contents : ByteString} {sizes : BufferSizes} (hshort : contents.length ≤ 4) :
    FrameChain realloc contents sizes
  | incomplete {contents : ByteString} {sizes : BufferSizes}
    (hincomplete : contents.length < getMsgSize contents) : FrameChain realloc contents sizes
  | complete {contents : ByteString} {sizes : BufferSizes} (hlong : 4 < contents.length)
    (hpositive : 1 ≤ getMsgSize contents) (hcomplete : getMsgSize contents ≤ contents.length)
    (hfits : contents.length ≤ (sizes.record realloc (getMsgSize contents)).recvBufSize)
    (hrest : FrameChain realloc (contents.drop (getMsgSize contents).toNat)
      (sizes.record realloc (getMsgSize contents))) : FrameChain realloc contents sizes

/-! ### One iteration -/

section Iteration

variable {realloc : ℤ → Bool} {fuel : ℕ} {transport : TcpTransport}
  {outDataList : List ByteString}

/-- The loop only appends to the strings delivered. -/
theorem processLoop_appends (realloc : ℤ → Bool) (fuel : ℕ) (transport : TcpTransport)
    (outDataList : List ByteString) : ∃ delivered,
      (processLoop realloc fuel transport outDataList).2.2 = outDataList ++ delivered := by
  induction fuel generalizing transport outDataList with
  | zero => exact ⟨[], (List.append_nil _).symm⟩
  | succ fuel ih =>
    rw [processLoop]
    cases processStep realloc transport with
    | stop stopped => exact ⟨[], (List.append_nil _).symm⟩
    | lengthError stopped => exact ⟨[], (List.append_nil _).symm⟩
    | deliver data rest =>
      obtain ⟨delivered, hdelivered⟩ := ih rest (outDataList ++ [data])
      exact ⟨data :: delivered, by rw [hdelivered, List.append_assoc, List.singleton_append]⟩

theorem loopEndsWell_of_stop {stopped : TcpTransport}
    (hstep : processStep realloc transport = .stop stopped) :
    LoopEndsWell realloc (fuel + 1) transport outDataList ↔ stopped.Bounded := by
  constructor
  · intro hwell
    refine hwell.bounded stopped ?_
    rw [passedStates, hstep]
    exact List.mem_singleton_self stopped
  · intro hbounded
    refine ⟨?_, ?_, [], ?_, by simp⟩
    · rw [processLoop, hstep]
    · rw [passedStates, hstep]
      simpa using hbounded
    · rw [processLoop, hstep, List.append_nil]

theorem not_loopEndsWell_of_lengthError {stopped : TcpTransport}
    (hstep : processStep realloc transport = .lengthError stopped) :
    ¬ LoopEndsWell realloc (fuel + 1) transport outDataList := by
  intro hwell
  have hfinished := hwell.finished
  rw [processLoop, hstep] at hfinished
  exact absurd hfinished (by simp)

theorem loopEndsWell_of_deliver {data : ByteString} {rest : TcpTransport}
    (hstep : processStep realloc transport = .deliver data rest) :
    LoopEndsWell realloc (fuel + 1) transport outDataList ↔
      data ≠ [] ∧ (tryShrink realloc transport (getMsgSize transport.recvBuf)).Bounded ∧
        rest.Bounded ∧ LoopEndsWell realloc fuel rest (outDataList ++ [data]) := by
  have hloop : processLoop realloc (fuel + 1) transport outDataList =
      processLoop realloc fuel rest (outDataList ++ [data]) := by
    rw [processLoop, hstep]
  have hpassed : passedStates realloc (fuel + 1) transport =
      tryShrink realloc transport (getMsgSize transport.recvBuf) :: rest ::
        passedStates realloc fuel rest := by
    rw [passedStates, hstep]
  constructor
  · rintro ⟨hfinished, hbounded, delivered, hdelivered, hnonempty⟩
    rw [hloop] at hfinished hdelivered
    rw [hpassed, List.forall_mem_cons, List.forall_mem_cons] at hbounded
    obtain ⟨later, hlater⟩ := processLoop_appends realloc fuel rest (outDataList ++ [data])
    have hsplit : delivered = data :: later := by
      rw [hlater, List.append_assoc, List.append_right_inj, List.singleton_append] at hdelivered
      exact hdelivered.symm
    rw [hsplit, List.forall_mem_cons] at hnonempty
    exact ⟨hnonempty.1, hbounded.1, hbounded.2.1, hfinished, hbounded.2.2, later, hlater,
      hnonempty.2⟩
  · rintro ⟨hdata, hshrunk, hrest, hfinished, hbounded, later, hlater, hnonempty⟩
    refine ⟨hloop ▸ hfinished, ?_, data :: later, ?_, List.forall_mem_cons.mpr ⟨hdata, hnonempty⟩⟩
    · rw [hpassed, List.forall_mem_cons, List.forall_mem_cons]
      exact ⟨hshrunk, hrest, hbounded⟩
    · rw [hloop, hlater, List.append_assoc, List.singleton_append]

/-- A size word that is read from the buffer is read from the bytes in use. -/
theorem getMsgSize_recvBuf (hlong : 4 < transport.recvBufUsed) :
    getMsgSize transport.recvBuf = getMsgSize transport.contents := by
  rw [getMsgSize, getMsgSize, bigEndian32, bigEndian32, contents, List.take_take,
    Nat.min_eq_left (by omega)]

/-- A frame that is longer than the bytes in use ends the loop. -/
theorem processStep_of_longer (realloc : ℤ → Bool) (hsound : transport.Sound)
    (hlong : 4 < transport.recvBufUsed)
    (hlonger : transport.recvBufUsed < getMsgSize transport.contents) :
    ∃ stopped, processStep realloc transport = .stop stopped ∧ stopped.Bounded := by
  have hnonneg := hsound.used_nonneg
  have hle := hsound.used_le
  rw [processStep, if_pos hlong]
  dsimp only
  rw [getMsgSize_recvBuf hlong]
  by_cases hlarge : getMsgSize transport.contents > transport.recvBufSize
  · refine ⟨_, if_pos hlarge, ?_⟩
    by_cases hrealloc : realloc (getMsgSize transport.contents) = true
    · simp only [resizeBuf, hrealloc, if_true, Bounded]
      exact ⟨hnonneg, hlonger.le⟩
    · simp only [resizeBuf, hrealloc, Bool.false_eq_true, if_false, Bounded]
      exact ⟨hnonneg, hle⟩
  · rw [if_neg hlarge, tryShrink_recvBufUsed, if_neg (by omega)]
    refine ⟨_, rfl, ?_⟩
    rw [Bounded, tryShrink_recvBufUsed, tryShrink_recvBufSize, BufferSizes.record]
    dsimp only
    split_ifs
    · have := le_max_left (getMsgSize transport.contents) transport.sizes.shrinkMax
      rw [BufferSizes.recorded]
      omega
    · exact ⟨hnonneg, hle⟩

/-- A size word that says no more than the bytes in use. -/
theorem processStep_of_not_longer (realloc : ℤ → Bool) (hsound : transport.Sound)
    (hlong : 4 < transport.recvBufUsed)
    (hcomplete : getMsgSize transport.contents ≤ transport.recvBufUsed) :
    processStep realloc transport =
      let shrunk := tryShrink realloc transport (getMsgSize transport.contents)
      if getMsgSize transport.contents < 0 then .lengthError shrunk
      else .deliver (shrunk.recvBuf.take (getMsgSize transport.contents).toNat)
        (shrunk.dropFrame (getMsgSize transport.contents)) := by
  have hle := hsound.used_le
  rw [processStep, if_pos hlong]
  dsimp only
  rw [getMsgSize_recvBuf hlong, if_neg (by omega), tryShrink_recvBufUsed, if_pos hcomplete]

/-- A chain of frames whose first frame is complete. -/
theorem frameChain_iff_of_complete {contents : ByteString} {sizes : BufferSizes}
    (hlong : 4 < contents.length) (hcomplete : getMsgSize contents ≤ contents.length) :
    FrameChain realloc contents sizes ↔
      1 ≤ getMsgSize contents ∧
        contents.length ≤ (sizes.record realloc (getMsgSize contents)).recvBufSize ∧
        FrameChain realloc (contents.drop (getMsgSize contents).toNat)
          (sizes.record realloc (getMsgSize contents)) := by
  constructor
  · intro hchain
    cases hchain with
    | short hshort => omega
    | incomplete hincomplete => omega
    | complete _ hpositive _ hfits hrest => exact ⟨hpositive, hfits, hrest⟩
  · rintro ⟨hpositive, hfits, hrest⟩
    exact .complete hlong hpositive hcomplete hfits hrest

/-- The state after a delivered frame. -/
theorem sound_dropFrame_tryShrink (hsound : transport.Sound) {msgLen : ℤ} (hnonneg : 0 ≤ msgLen)
    (hcomplete : msgLen ≤ transport.recvBufUsed)
    (hfits : transport.recvBufUsed ≤ (transport.sizes.record realloc msgLen).recvBufSize) :
    ((tryShrink realloc transport msgLen).dropFrame msgLen).Sound ∧
      ((tryShrink realloc transport msgLen).dropFrame msgLen).contents =
        transport.contents.drop msgLen.toNat ∧
      ((tryShrink realloc transport msgLen).dropFrame msgLen).sizes =
        transport.sizes.record realloc msgLen := by
  obtain ⟨hshrunk, hcontents⟩ := hsound.tryShrink hfits
  have hused : msgLen ≤ (tryShrink realloc transport msgLen).recvBufUsed := by
    rwa [tryShrink_recvBufUsed]
  refine ⟨hshrunk.dropFrame_sound hnonneg hused, ?_, tryShrink_sizes realloc transport msgLen⟩
  rw [hshrunk.contents_dropFrame hnonneg hused, hcontents]

/-- The string of a complete frame is as long as the frame. -/
theorem length_take_tryShrink (hsound : transport.Sound) {msgLen : ℤ}
    (hcomplete : msgLen ≤ transport.recvBufUsed)
    (hfits : transport.recvBufUsed ≤ (transport.sizes.record realloc msgLen).recvBufSize) :
    ((tryShrink realloc transport msgLen).recvBuf.take msgLen.toNat).length = msgLen.toNat := by
  have hlength := (hsound.tryShrink hfits).1.length_recvBuf
  rw [tryShrink_recvBufSize] at hlength
  rw [List.length_take]
  omega

/-- On a buffer in order the loop ends well exactly when the bytes in use are a chain of frames. -/
theorem loopEndsWell_iff (hsound : transport.Sound) (hfuel : transport.contents.length < fuel) :
    LoopEndsWell realloc fuel transport outDataList ↔
      FrameChain realloc transport.contents transport.sizes := by
  induction fuel generalizing transport outDataList with
  | zero => omega
  | succ fuel ih =>
    have hlength := hsound.length_contents
    by_cases hlong : 4 < transport.recvBufUsed
    · by_cases hcomplete : getMsgSize transport.contents ≤ transport.recvBufUsed
      · rw [frameChain_iff_of_complete (by omega) (by omega), hlength]
        have hstep := processStep_of_not_longer realloc hsound hlong hcomplete
        dsimp only at hstep
        by_cases hnegative : getMsgSize transport.contents < 0
        · rw [if_pos hnegative] at hstep
          refine iff_of_false (not_loopEndsWell_of_lengthError hstep) ?_
          rintro ⟨hpositive, -⟩
          omega
        · rw [if_neg hnegative] at hstep
          rw [loopEndsWell_of_deliver hstep, getMsgSize_recvBuf hlong, Bounded,
            tryShrink_recvBufUsed, tryShrink_recvBufSize]
          constructor
          · rintro ⟨hdata, ⟨-, hfits⟩, -, hwell⟩
            have htake := length_take_tryShrink hsound hcomplete hfits
            have hpositive : 1 ≤ getMsgSize transport.contents := by
              have := List.length_pos_iff.mpr hdata
              omega
            obtain ⟨hrest, hcontents, hsizes⟩ :=
              sound_dropFrame_tryShrink hsound (by omega) hcomplete hfits
            rw [ih hrest (by rw [hcontents, List.length_drop]; omega), hcontents, hsizes] at hwell
            exact ⟨hpositive, hfits, hwell⟩
          · rintro ⟨hpositive, hfits, hchain⟩
            have htake := length_take_tryShrink hsound hcomplete hfits
            obtain ⟨hrest, hcontents, hsizes⟩ :=
              sound_dropFrame_tryShrink hsound (by omega) hcomplete hfits
            refine ⟨?_, ⟨hsound.used_nonneg, hfits⟩, ⟨hrest.used_nonneg, hrest.used_le⟩, ?_⟩
            · rw [← List.length_pos_iff]
              omega
            · rw [ih hrest (by rw [hcontents, List.length_drop]; omega), hcontents, hsizes]
              exact hchain
      · obtain ⟨stopped, hstep, hbounded⟩ :=
          processStep_of_longer realloc hsound hlong (not_le.mp hcomplete)
        refine iff_of_true ((loopEndsWell_of_stop hstep).mpr hbounded) (.incomplete ?_)
        omega
    · have hstep : processStep realloc transport = .stop transport := by
        rw [processStep, if_neg hlong]
      refine iff_of_true ((loopEndsWell_of_stop hstep).mpr ?_) (.short (by omega))
      exact ⟨hsound.used_nonneg, hsound.used_le⟩

end Iteration

/-! ### Every content of the buffer -/

/-- A call of `processData` on a buffer in order ends well exactly when the bytes in use are a chain
of frames. -/
theorem ends_well_iff {transport : TcpTransport} (hsound : transport.Sound) (realloc : ℤ → Bool)
    (outDataList : List ByteString) :
    EndsWell realloc transport outDataList ↔
      FrameChain realloc transport.contents transport.sizes := by
  have hlength := hsound.length_contents
  exact loopEndsWell_iff hsound (by omega)

/-- A connection with a buffer of sixteen bytes that received an empty frame, a frame of one byte
and a part of the next. -/
def twoFramesReceived : TcpTransport :=
  ⟨[0, 0, 0, 0, 0, 0, 0, 1, 7, 0, 0, 0, 9, 8, 0, 0], 16, 14, 16384, 32⟩

/-- The loop delivers the two frames and keeps the part. -/
theorem ends_well_of_two_frames :
    EndsWell (fun _ ↦ true) twoFramesReceived [] ∧
      (processLoop (fun _ ↦ true) 15 twoFramesReceived []).2.2 =
        [[0, 0, 0, 0], [0, 0, 0, 1, 7]] ∧
      (processLoop (fun _ ↦ true) 15 twoFramesReceived []).2.1.contents = [0, 0, 0, 9, 8] := by
  have hsound : twoFramesReceived.Sound := ⟨rfl, by decide, by decide⟩
  have hpart (sizes : BufferSizes) : FrameChain (fun _ ↦ true) [0, 0, 0, 9, 8] sizes :=
    .incomplete (by decide)
  have hsecond : FrameChain (fun _ ↦ true) [0, 0, 0, 1, 7, 0, 0, 0, 9, 8]
      (twoFramesReceived.sizes.record (fun _ ↦ true) 4) :=
    .complete (by decide) (by decide) (by decide) (by decide) (hpart _)
  have hsize : getMsgSize twoFramesReceived.contents = 4 := by decide
  have hfirst : FrameChain (fun _ ↦ true) twoFramesReceived.contents twoFramesReceived.sizes := by
    refine .complete (by decide) (by decide) (by decide) (by decide) ?_
    rw [hsize]
    exact hsecond
  exact ⟨(ends_well_iff hsound (fun _ ↦ true) []).mpr hfirst, by decide, by decide⟩

/-- A size word of `-4` makes a frame of length zero, which is delivered again and again, here on a
connection with a buffer of five bytes. -/
theorem zero_length_frame_endless :
    (⟨[255, 255, 255, 252, 0], 5, 5, 16384, 32⟩ : TcpTransport).Sound ∧
      ∀ realloc, ¬ EndsWell realloc ⟨[255, 255, 255, 252, 0], 5, 5, 16384, 32⟩ [] := by
  have hsound : (⟨[255, 255, 255, 252, 0], 5, 5, 16384, 32⟩ : TcpTransport).Sound :=
    ⟨rfl, by decide, by decide⟩
  refine ⟨hsound, fun realloc hwell ↦ ?_⟩
  have hlength := hsound.length_contents
  rw [EndsWell, loopEndsWell_iff hsound (by omega), frameChain_iff_of_complete (by decide)
    (by decide)] at hwell
  exact absurd hwell.1 (by decide)

end TcpTransport

end RocketMQClient.Transport
