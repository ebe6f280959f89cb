import RocketMQClient.Library.MachineInt
import RocketMQClient.Library.StoredCoder

/-!
# Compressing in pieces

`UtilAll::compress` and `UtilAll::decompress` give the compression library their input in pieces of
`chunk` bytes and call it for each piece until it leaves some of the space for its output. What is
put out is copied to a buffer, which is enlarged to twice the space that is needed whenever it is
too small. Lengths are 32-bit integers.

`drain` is the loop over the calls for one piece. It ends, keeps what each call keeps and never
writes behind the buffer, if the output is bounded (`drain_spec`). `compress_round_trip` says that
the two functions are inverse and that a stream that is cut off is rejected.

The library is a parameter: its states, its calls, and `Follows`, what its documentation promises of
them for one level. The loop is the same in both directions, and `LastCall` is what can be said when
it ends: the last call left some space, so that the library had nothing more to put out. An
invariant of the session of calls then says what has been put out so far.
-/

set_option autoImplicit false
set_option relaxedAutoImplicit false

namespace RocketMQClient.Common.UtilAll

open Library

/-- The size of a piece of input and of the space for output. -/
def chunk : ℕ := 8192

/-- How a function goes wrong. -/
inductive CoderFault where
  /-- `memcpy` writes behind the buffer. -/
  | overrun
  | assertion
  | outOfFuel
  deriving DecidableEq

/-- The output so far, the number of its bytes and the length that is allocated for it. -/
structure OutBuffer where
  outData : ByteString
  outDataLen : ℤ
  outBufferLen : ℤ

/-- Enlarges the buffer if it is too small, and copies a piece of output to it. A buffer of a
negative length cannot be had. -/
def OutBuffer.put (buffer : OutBuffer) (out : ByteString) :
    Except CoderFault (Option OutBuffer) :=
  let needed := toInt32 (buffer.outDataLen + out.length)
  let outBufferLen :=
    if needed > buffer.outBufferLen then toInt32 (2 * needed) else buffer.outBufferLen
  if needed > buffer.outBufferLen ∧ outBufferLen < 0 then .ok none
  else if outBufferLen < buffer.outDataLen + out.length then .error .overrun
  else .ok (some ⟨buffer.outData ++ out, needed, outBufferLen⟩)

/-- The bytes that a caller gets. -/
def OutBuffer.contents (buffer : OutBuffer) : ByteString :=
  buffer.outData.take buffer.outDataLen.toNat

/-- What the calls for a piece of input leave. -/
structure Drained (State : Type) where
  strm : State
  availIn : ByteString
  buffer : OutBuffer
  ret : ReturnCode

/-- Calls the library until some of the space for its output is left. -/
def drain {State : Type} (call : State → ByteString → State × Progress)
    (rejected : ReturnCode → Bool) :
    ℕ → State → ByteString → OutBuffer → Except CoderFault (Option (Drained State))
  | 0, _, _, _ => .error .outOfFuel
  | fuel + 1, strm, availIn, buffer =>
    let (strm, progress) := call strm availIn
    if progress.ret = .streamError then .error .assertion
    else if rejected progress.ret then .ok none
    else
      match buffer.put progress.output with
      | .error fault => .error fault
      | .ok none => .ok none
      | .ok (some buffer) =>
        let availIn := availIn.drop progress.used
        if progress.output.length = chunk then drain call rejected fuel strm availIn buffer
        else .ok (some ⟨strm, availIn, buffer, progress.ret⟩)

/-- The calls of `deflate` for a piece of input. -/
def deflateCall (zlib : StreamCoder) (flush : Flush) (strm : zlib.DeflateState)
    (availIn : ByteString) : zlib.DeflateState × Progress := zlib.deflate strm availIn flush chunk

/-- The calls of `inflate` for a piece of input. -/
def inflateCall (zlib : StreamCoder) (strm : zlib.InflateState) (availIn : ByteString) :
    zlib.InflateState × Progress := zlib.inflate strm availIn chunk

/-- The results of `inflate` that make `decompress` give up. -/
def isRejected (ret : ReturnCode) : Bool :=
  decide (ret = .needDict ∨ ret = .dataError ∨ ret = .memError)

/-- The loop of `compress` over the pieces of what is left of the input. -/
def compressLoop (zlib : StreamCoder) (fuel : ℕ) :
    ℕ → zlib.DeflateState → ByteString → OutBuffer → Except CoderFault (Option OutBuffer)
  | 0, _, _, _ => .error .outOfFuel
  | rounds + 1, strm, left, buffer =>
    let flush := if left.length ≤ chunk then Flush.finish else .noFlush
    match drain (deflateCall zlib flush) (fun _ ↦ false) fuel strm (left.take chunk) buffer with
    | .error fault => .error fault
    | .ok none => .ok none
    | .ok (some drained) =>
      if drained.availIn ≠ [] then .error .assertion
      else if flush = .finish then
        if drained.ret = .streamEnd then .ok (some drained.buffer) else .error .assertion
      else compressLoop zlib fuel rounds drained.strm (left.drop chunk) drained.buffer

/-- `compress`: the output, or nothing when it returns false. -/
def compress (zlib : StreamCoder) (fuel : ℕ) (input : ByteString) (level : ℤ) :
    Except CoderFault (Option ByteString) :=
  match zlib.deflateInit level with
  | none => .ok none
  | some strm =>
    (compressLoop zlib fuel fuel strm input ⟨[], 0, toInt32 input.length⟩).map
      (Option.map OutBuffer.contents)

/-- The loop of `decompress` over the pieces of what is left of the input, with the result of the
last call. -/
def decompressLoop (zlib : StreamCoder) (fuel : ℕ) :
    ℕ → zlib.InflateState → ByteString → OutBuffer → ReturnCode →
      Except CoderFault (Option (OutBuffer × ReturnCode))
  | 0, _, _, _, _ => .error .outOfFuel
  | rounds + 1, strm, left, buffer, ret =>
    if left.take chunk = [] then .ok (some (buffer, ret))
    else
      match drain (inflateCall zlib) isRejected fuel strm (left.take chunk) buffer with
      | .error fault => .error fault
      | .ok none => .ok none
      | .ok (some drained) =>
        if drained.ret = .streamEnd then .ok (some (drained.buffer, drained.ret))
        else
          decompressLoop zlib fuel rounds drained.strm (left.drop chunk) drained.buffer drained.ret

/-- `decompress`: the output, or nothing when it returns false. -/
def decompress (zlib : StreamCoder) (fuel : ℕ) (input : ByteString) :
    Except CoderFault (Option ByteString) :=
  match zlib.inflateInit with
  | none => .ok none
  | some strm =>
    (decompressLoop zlib fuel fuel strm input ⟨[], 0, toInt32 (4 * input.length)⟩ .ok).map
      fun last ↦ last.bind fun (buffer, ret) ↦
        if ret = .streamEnd then some buffer.contents else none

/-! ### The buffer -/

/-- The length is that of the output, which fits the buffer. -/
structure OutBuffer.Sound (buffer : OutBuffer) : Prop where
  outDataLen : buffer.outDataLen = buffer.outData.length
  fits : (buffer.outData.length : ℤ) ≤ buffer.outBufferLen
  isInt : buffer.outBufferLen ≤ 2147483647

theorem OutBuffer.Sound.contents_eq {buffer : OutBuffer} (hsound : buffer.Sound) :
    buffer.contents = buffer.outData := by
  rw [OutBuffer.contents, hsound.outDataLen, Int.toNat_natCast, List.take_length]

/-- Output of less than `2 ^ 30` bytes is copied, and never behind the buffer. -/
theorem OutBuffer.Sound.put_eq {buffer : OutBuffer} (hsound : buffer.Sound) {out : ByteString}
    (hsmall : (buffer.outData ++ out).length < 1073741824) :
    ∃ next, buffer.put out = .ok (some next) ∧ next.Sound ∧
      next.outData = buffer.outData ++ out := by
  obtain ⟨hlength, hfits, hint⟩ := hsound
  rw [List.length_append] at hsmall
  have hneeded : toInt32 (buffer.outDataLen + out.length) = buffer.outDataLen + out.length :=
    toInt32_eq_self (by omega) (by omega)
  have hdouble : toInt32 (2 * (buffer.outDataLen + out.length)) =
      2 * (buffer.outDataLen + out.length) := toInt32_eq_self (by omega) (by omega)
  unfold OutBuffer.put
  simp only [hneeded, hdouble]
  by_cases hgrow : buffer.outDataLen + out.length > buffer.outBufferLen
  · rw [if_pos hgrow, if_neg (by omega), if_neg (by omega)]
    refine ⟨_, rfl, ⟨?_, ?_, ?_⟩, rfl⟩ <;> simp only [List.length_append] <;> omega
  · rw [if_neg hgrow, if_neg (fun hboth ↦ hgrow hboth.1), if_neg (by omega)]
    refine ⟨_, rfl, ⟨?_, ?_, ?_⟩, rfl⟩ <;> simp only [List.length_append] <;> omega

/-! ### The calls for a piece of input -/

section Drain

variable {State : Type} {call : State → ByteString → State × Progress}
  {rejected : ReturnCode → Bool}

/-- A call of the library that is accepted and keeps an invariant of the state, the input that is
left and the output. -/
structure KeepsCall (Inv : State → ByteString → ByteString → Prop) (rejected : ReturnCode → Bool)
    (input produced : ByteString) (result : State × Progress) : Prop where
  output_le : result.2.output.length ≤ chunk
  noError : result.2.ret ≠ .streamError
  accepted : rejected result.2.ret = false
  keeps : Inv result.1 (input.drop result.2.used) (produced ++ result.2.output)

/-- What the loop leaves comes from a last call, which left some space. -/
structure LastCall (Inv : State → ByteString → ByteString → Prop)
    (call : State → ByteString → State × Progress) (drained : Drained State) : Prop where
  sound : drained.buffer.Sound
  last : ∃ strm availIn produced, Inv strm availIn produced ∧
    (call strm availIn).2.output.length < chunk ∧ drained.strm = (call strm availIn).1 ∧
    drained.availIn = availIn.drop (call strm availIn).2.used ∧
    drained.buffer.outData = produced ++ (call strm availIn).2.output ∧
    drained.ret = (call strm availIn).2.ret

/-- The calls end, if each of them keeps an invariant that bounds the output. -/
theorem drain_spec {Inv : State → ByteString → ByteString → Prop} {bound : ℕ}
    (hsmall : bound < 1073741824)
    (hbound : ∀ strm availIn produced, Inv strm availIn produced → produced.length ≤ bound)
    (hcall : ∀ strm availIn produced, Inv strm availIn produced →
      KeepsCall Inv rejected availIn produced (call strm availIn))
    {fuel : ℕ} {strm : State} {availIn : ByteString} {buffer : OutBuffer} (hsound : buffer.Sound)
    (hinv : Inv strm availIn buffer.outData)
    (hfuel : bound < fuel * chunk + buffer.outData.length) :
    ∃ drained, drain call rejected fuel strm availIn buffer = .ok (some drained) ∧
      LastCall Inv call drained := by
  induction fuel generalizing strm availIn buffer with
  | zero =>
    have := hbound _ _ _ hinv
    omega
  | succ fuel ih =>
    obtain ⟨houtput, hnoError, haccepted, hkeeps⟩ := hcall strm availIn buffer.outData hinv
    have hlength := hbound _ _ _ hkeeps
    obtain ⟨next, hput, hnext, hdata⟩ := hsound.put_eq (lt_of_le_of_lt hlength hsmall)
    rw [drain]
    simp only [if_neg hnoError, haccepted, Bool.false_eq_true, if_false, hput]
    by_cases hfull : (call strm availIn).2.output.length = chunk
    · rw [if_pos hfull]
      refine ih hnext (hdata ▸ hkeeps) ?_
      rw [hdata, List.length_append, hfull]
      rw [Nat.succ_mul] at hfuel
      omega
    · rw [if_neg hfull]
      exact ⟨_, rfl, hnext, strm, availIn, buffer.outData, hinv, lt_of_le_of_ne houtput hfull, rfl,
        rfl, hdata, rfl⟩

end Drain

/-! ### Compressing -/

section Compress

variable {zlib : StreamCoder} {IsStream : ByteString → ByteString → Prop} {level : ℤ}
  {flush : Flush} {goal : ByteString}

/-- A compression that has been given a text up to what is left of a piece. -/
def Deflates (zlib : StreamCoder) (level : ℤ) (flush : Flush) (goal : ByteString)
    (strm : zlib.DeflateState) (availIn produced : ByteString) : Prop :=
  ∃ given unread, DeflateSession zlib level strm given produced unread ∧
    (∀ rest ∈ unread, flush = .finish ∧ availIn = rest) ∧ given ++ availIn = goal

/-- What a call does to a compression that is given a text. -/
theorem Deflates.step (hzlib : zlib.Follows level IsStream) {strm : zlib.DeflateState}
    {availIn produced : ByteString} (hinv : Deflates zlib level flush goal strm availIn produced) :
    ∃ given unread, given ++ availIn = goal ∧
      DeflateStep IsStream given produced availIn flush chunk
        (deflateCall zlib flush strm availIn).2 ∧
      DeflateSession zlib level (deflateCall zlib flush strm availIn).1
        (given ++ availIn.take (deflateCall zlib flush strm availIn).2.used)
        (produced ++ (deflateCall zlib flush strm availIn).2.output) unread ∧
      ∀ rest ∈ unread, flush = .finish ∧
        availIn.drop (deflateCall zlib flush strm availIn).2.used = rest := by
  obtain ⟨given, unread, hsession, hpermitted, hgoal⟩ := hinv
  have hspace : 0 < chunk := by decide
  refine ⟨given, _, hgoal,
    hzlib.deflate strm given produced unread hsession availIn flush chunk hpermitted hspace,
    hsession.call strm given produced unread availIn flush chunk hpermitted hspace, ?_⟩
  intro rest hrest
  split_ifs at hrest with hfinish
  · exact ⟨hfinish, Option.some.inj hrest⟩
  · cases hrest

theorem Deflates.keeps (hzlib : zlib.Follows level IsStream) {strm : zlib.DeflateState}
    {availIn produced : ByteString} (hinv : Deflates zlib level flush goal strm availIn produced) :
    KeepsCall (Deflates zlib level flush goal) (fun _ ↦ false) availIn produced
      (deflateCall zlib flush strm availIn) := by
  obtain ⟨given, unread, hgoal, hstep, hsession, hunread⟩ := hinv.step hzlib
  refine ⟨hstep.output_le, hstep.noError, rfl, _, _, hsession, hunread, ?_⟩
  rw [List.append_assoc, List.take_append_drop, hgoal]

theorem Deflates.length_le (hzlib : zlib.Follows level IsStream) {strm : zlib.DeflateState}
    {availIn produced : ByteString} (hinv : Deflates zlib level flush goal strm availIn produced)
    (hshort : goal.length < 268435456) : produced.length ≤ 536870912 := by
  obtain ⟨given, unread, hsession, -, hgoal⟩ := hinv
  have hexpands := hzlib.expands strm given produced unread hsession
  rw [← hgoal, List.length_append] at hshort
  omega

/-- Behind the last call for a piece the whole piece has been taken, and behind that for the last
piece everything has been put out. -/
theorem Deflates.last (hzlib : zlib.Follows level IsStream) {drained : Drained zlib.DeflateState}
    (hlast : LastCall (Deflates zlib level flush goal) (deflateCall zlib flush) drained) :
    drained.availIn = [] ∧
      (flush = .noFlush →
        DeflateSession zlib level drained.strm goal drained.buffer.outData none) ∧
      (flush = .finish →
        drained.ret = .streamEnd ∧ IsStream drained.buffer.outData goal) ∧
      drained.buffer.outData.length < 2 * max goal.length 16 := by
  obtain ⟨strm, availIn, produced, hinv, hroom, hstrm, havail, hdata, hret⟩ := hlast.last
  obtain ⟨given, unread, hgoal, hstep, hsession, hunread⟩ := hinv.step hzlib
  have hused := hstep.takesAll hroom
  rw [hused, List.take_length, hgoal, ← hstrm, ← hdata] at hsession
  refine ⟨by rw [havail, hused, List.drop_length], ?_, ?_, hzlib.expands _ _ _ _ hsession⟩
  · rintro rfl
    cases unread with
    | none => exact hsession
    | some rest => exact absurd (hunread rest rfl).1 (by decide)
  · intro hfinish
    have hwhole := hstep.finishes hfinish hroom
    refine ⟨hret.trans (hstep.ended.mpr ⟨hfinish, hused, hwhole⟩), ?_⟩
    rwa [hdata, ← hgoal]

/-- What is left of the input is compressed behind what was given before. -/
theorem compressLoop_eq (hzlib : zlib.Follows level IsStream) {input : ByteString}
    (hshort : input.length < 268435456) {fuel : ℕ} (hfuel : 65536 < fuel) {rounds : ℕ}
    {strm : zlib.DeflateState} {given left : ByteString} {buffer : OutBuffer}
    (hsession : DeflateSession zlib level strm given buffer.outData none) (hsound : buffer.Sound)
    (hinput : given ++ left = input) (hleft : left ≠ []) (hrounds : left.length ≤ rounds * chunk) :
    ∃ last, compressLoop zlib fuel rounds strm left buffer = .ok (some last) ∧ last.Sound ∧
      IsStream last.outData input ∧
      last.outData.length < 2 * max input.length 16 := by
  induction rounds generalizing strm given left buffer with
  | zero =>
    rw [Nat.zero_mul, Nat.le_zero, List.length_eq_zero_iff] at hrounds
    exact absurd hrounds hleft
  | succ rounds ih =>
    have hgoal : ∀ flush, ∃ drained, drain (deflateCall zlib flush) (fun _ ↦ false) fuel strm
        (left.take chunk) buffer = .ok (some drained) ∧
          LastCall (Deflates zlib level flush (given ++ left.take chunk)) (deflateCall zlib flush)
            drained := by
      intro flush
      have hpiece : (given ++ left.take chunk).length < 268435456 := by
        rw [← hinput] at hshort
        simp only [List.length_append, List.length_take] at hshort ⊢
        omega
      refine drain_spec (show 536870912 < 1073741824 by decide)
        (fun _ _ _ hinv ↦ hinv.length_le hzlib hpiece) (fun _ _ _ hinv ↦ hinv.keeps hzlib) hsound
        ⟨given, none, hsession, fun _ hnone ↦ (nomatch hnone), rfl⟩ ?_
      unfold chunk
      omega
    rw [compressLoop]
    by_cases hlast : left.length ≤ chunk
    · obtain ⟨drained, hdrain, hdrained⟩ := hgoal .finish
      obtain ⟨havail, -, hfinish, hlength⟩ := Deflates.last hzlib hdrained
      obtain ⟨hret, hdata⟩ := hfinish rfl
      rw [List.take_of_length_le hlast, hinput] at hdata hlength
      simp only [if_pos hlast, hdrain, havail, hret, ne_eq, not_true_eq_false, if_false, if_true]
      exact ⟨_, rfl, hdrained.sound, hdata, hlength⟩
    · obtain ⟨drained, hdrain, hdrained⟩ := hgoal .noFlush
      obtain ⟨havail, hnext, -, -⟩ := Deflates.last hzlib hdrained
      simp only [if_neg hlast, hdrain, havail, ne_eq, not_true_eq_false, if_false,
        reduceCtorEq]
      refine ih (hnext rfl) hdrained.sound ?_ ?_ ?_
      · rw [List.append_assoc, List.take_append_drop, hinput]
      · rw [ne_eq, List.drop_eq_nil_iff]
        exact hlast
      · rw [List.length_drop]
        rw [Nat.succ_mul] at hrounds
        omega

/-- An input is compressed to one of its streams, which is less than `2 ^ 29` bytes. -/
theorem exists_compress (hzlib : zlib.Follows level IsStream) {input : ByteString}
    (hinput : input ≠ []) (hshort : input.length < 268435456) (hlevel : IsLevel level) {fuel : ℕ}
    (hfuel : 65536 < fuel) :
    ∃ stream, compress zlib fuel input level = .ok (some stream) ∧ IsStream stream input ∧
      stream.length < 536870912 := by
  obtain ⟨strm, hinit⟩ := Option.isSome_iff_exists.mp (hzlib.deflateInit hlevel)
  have hlength : toInt32 (input.length : ℤ) = input.length :=
    toInt32_eq_self (by omega) (by omega)
  have hsound : OutBuffer.Sound ⟨[], 0, toInt32 (input.length : ℤ)⟩ := by
    rw [hlength]
    exact ⟨rfl, Int.natCast_nonneg _, show (input.length : ℤ) ≤ 2147483647 by omega⟩
  obtain ⟨last, hloop, hlast, hstream, hshorter⟩ := compressLoop_eq hzlib hshort hfuel
    (DeflateSession.init strm hinit) hsound (List.nil_append input) hinput
    (show input.length ≤ fuel * chunk by unfold chunk; omega)
  refine ⟨last.outData, ?_, hstream, by omega⟩
  rw [compress, hinit]
  show (compressLoop zlib fuel fuel strm input ⟨[], 0, toInt32 input.length⟩).map _ = _
  rw [hloop, ← hlast.contents_eq]
  rfl

end Compress

/-! ### Decompressing -/

section Decompress

variable {zlib : StreamCoder} {IsStream : ByteString → ByteString → Prop} {level : ℤ}
  {stream data goal : ByteString}

/-- A decompression that has been given a text up to what is left of a piece, and has put out a part
of the data. -/
def Inflates (zlib : StreamCoder) (data goal : ByteString) (strm : zlib.InflateState)
    (availIn produced : ByteString) : Prop :=
  ∃ given, InflateSession zlib strm given produced ∧ given ++ availIn = goal ∧ produced <+: data

theorem Inflates.step (hzlib : zlib.Follows level IsStream) (hstream : IsStream stream data)
    (hgoal : goal <+: stream) {strm : zlib.InflateState}
    {availIn produced : ByteString} (hinv : Inflates zlib data goal strm availIn produced) :
    ∃ given, given ++ availIn = goal ∧
      InflateStep stream data given produced availIn chunk
        (inflateCall zlib strm availIn).2 ∧
      InflateSession zlib (inflateCall zlib strm availIn).1
        (given ++ availIn.take (inflateCall zlib strm availIn).2.used)
        (produced ++ (inflateCall zlib strm availIn).2.output) := by
  obtain ⟨given, hsession, rfl, -⟩ := hinv
  have hspace : 0 < chunk := by decide
  exact ⟨given, rfl,
    hzlib.inflate stream data hstream strm given produced hsession availIn chunk hgoal hspace,
    hsession.call strm given produced availIn chunk hspace⟩

theorem Inflates.keeps (hzlib : zlib.Follows level IsStream) (hstream : IsStream stream data)
    (hgoal : goal <+: stream) {strm : zlib.InflateState}
    {availIn produced : ByteString} (hinv : Inflates zlib data goal strm availIn produced) :
    KeepsCall (Inflates zlib data goal) isRejected availIn produced
      (inflateCall zlib strm availIn) := by
  obtain ⟨given, hgiven, hstep, hsession⟩ := hinv.step hzlib hstream hgoal
  have haccepted : (inflateCall zlib strm availIn).2.ret ≠ .streamError ∧
      isRejected (inflateCall zlib strm availIn).2.ret = false := by
    rcases hstep.accepted with hret | hret | hret <;> rw [hret] <;> decide
  refine ⟨hstep.output_le, haccepted.1, haccepted.2, _, hsession, ?_, hstep.output_begins⟩
  rw [List.append_assoc, List.take_append_drop, hgiven]

/-- Behind the last call for a piece the whole piece has been taken, and the end is reported if it
was the end of the stream. -/
theorem Inflates.last (hzlib : zlib.Follows level IsStream) (hstream : IsStream stream data)
    (hgoal : goal <+: stream) {drained : Drained zlib.InflateState}
    (hlast : LastCall (Inflates zlib data goal) (inflateCall zlib) drained) :
    InflateSession zlib drained.strm goal drained.buffer.outData ∧
      drained.buffer.outData <+: data ∧
      (goal = stream → drained.buffer.outData = data) ∧
      (drained.ret = .streamEnd ↔ goal = stream) := by
  obtain ⟨strm, availIn, produced, hinv, hroom, hstrm, -, hdata, hret⟩ := hlast.last
  obtain ⟨given, hgiven, hstep, hsession⟩ := hinv.step hzlib hstream hgoal
  have hended := hstep.ended
  have hwhole := hstep.finishes hroom
  rw [hstep.takesAll hroom, List.take_length, hgiven] at hsession hended
  rw [hgiven] at hwhole
  rw [hstrm, hdata, hret]
  exact ⟨hsession, hstep.output_begins, hwhole,
    hended.trans ⟨fun hboth ↦ hboth.1, fun hend ↦ ⟨hend, hwhole hend⟩⟩⟩

/-- What the loop over the pieces leaves, if what is given is the start of a stream. -/
theorem decompressLoop_eq (hzlib : zlib.Follows level IsStream) (hstream : IsStream stream data)
    (hshort : data.length < 268435456) {input : ByteString} (hstart : input <+: stream)
    {fuel : ℕ} (hfuel : 65536 < fuel) {rounds : ℕ} {strm : zlib.InflateState}
    {given left : ByteString} {buffer : OutBuffer} {ret : ReturnCode}
    (hsession : InflateSession zlib strm given buffer.outData) (hsound : buffer.Sound)
    (hinput : given ++ left = input) (hdata : buffer.outData <+: data)
    (hret : ret = .streamEnd ↔ given = stream)
    (hwhole : given = stream → buffer.outData = data)
    (hrounds : left.length + chunk ≤ rounds * chunk) :
    ∃ last lastRet, decompressLoop zlib fuel rounds strm left buffer ret =
        .ok (some (last, lastRet)) ∧ last.Sound ∧
      (lastRet = .streamEnd ↔ input = stream) ∧
      (input = stream → last.outData = data) := by
  induction rounds generalizing strm given left buffer ret with
  | zero =>
    unfold chunk at hrounds
    omega
  | succ rounds ih =>
    rw [decompressLoop]
    by_cases hnone : left.take chunk = []
    · have hleft : left = [] := by
        rw [List.take_eq_nil_iff] at hnone
        exact hnone.resolve_left (by decide)
      rw [hleft, List.append_nil] at hinput
      rw [if_pos hnone, ← hinput]
      exact ⟨buffer, ret, rfl, hsound, hret, hwhole⟩
    · rw [if_neg hnone]
      have hpiece : given ++ left.take chunk <+: stream := by
        refine List.IsPrefix.trans ?_ hstart
        rw [← hinput]
        exact (List.prefix_append_right_inj given).mpr (List.take_prefix chunk left)
      obtain ⟨drained, hdrain, hdrained⟩ := drain_spec (show 268435456 < 1073741824 by decide)
        (fun _ _ produced (hinv : Inflates zlib data (given ++ left.take chunk) _ _ produced) ↦ by
          obtain ⟨-, -, -, hbegins⟩ := hinv
          exact le_trans hbegins.length_le hshort.le)
        (fun _ _ _ hinv ↦ hinv.keeps hzlib hstream hpiece) hsound
        ⟨given, hsession, rfl, hdata⟩ (show 268435456 < fuel * chunk + _ by unfold chunk; omega)
      obtain ⟨hnext, hnextData, hnextWhole, hnextRet⟩ := Inflates.last hzlib hstream hpiece hdrained
      simp only [hdrain]
      by_cases hend : drained.ret = .streamEnd
      · rw [if_pos hend]
        have hlast : input = stream := by
          refine hstart.eq_of_length_le ?_
          rw [← hnextRet.mp hend, ← hinput]
          simp only [List.length_append, List.length_take]
          omega
        exact ⟨drained.buffer, drained.ret, rfl, hdrained.sound, iff_of_true hend hlast,
          fun _ ↦ hnextWhole (hnextRet.mp hend)⟩
      · rw [if_neg hend]
        refine ih hnext hdrained.sound ?_ hnextData hnextRet hnextWhole ?_
        · rw [List.append_assoc, List.take_append_drop, hinput]
        · have hpositive : 0 < left.length :=
            List.length_pos_iff.mpr fun hnil ↦ hnone (by rw [hnil, List.take_nil])
          rw [List.length_drop]
          unfold chunk at hrounds ⊢
          omega

/-- The start of a stream is decompressed exactly when it is the whole stream. -/
theorem decompress_eq (hzlib : zlib.Follows level IsStream) (hstream : IsStream stream data)
    (hshort : data.length < 268435456) (hsize : stream.length < 536870912)
    {input : ByteString} (hstart : input <+: stream) {fuel : ℕ}
    (hfuel : 65536 < fuel) :
    decompress zlib fuel input = .ok (if input = stream then some data else none) := by
  obtain ⟨strm, hinit⟩ := Option.isSome_iff_exists.mp hzlib.inflateInit
  have hinput := hstart.length_le
  have hlength : toInt32 (4 * (input.length : ℤ)) = 4 * input.length :=
    toInt32_eq_self (by omega) (by omega)
  have hsound : OutBuffer.Sound ⟨[], 0, toInt32 (4 * (input.length : ℤ))⟩ := by
    rw [hlength]
    refine ⟨rfl, show (0 : ℤ) ≤ 4 * input.length by omega, ?_⟩
    show 4 * (input.length : ℤ) ≤ 2147483647
    omega
  have hbegin : ([] : ByteString) ≠ stream := fun hnil ↦ hzlib.header data (hnil ▸ hstream)
  have hrunning : ReturnCode.ok = .streamEnd ↔ [] = stream :=
    iff_of_false (by decide) hbegin
  obtain ⟨last, lastRet, hloop, hlast, hret, hdata⟩ := decompressLoop_eq hzlib hstream hshort hstart
    hfuel (InflateSession.init strm hinit) hsound (List.nil_append input) List.nil_prefix
    hrunning (fun hwhole ↦ absurd hwhole hbegin)
    (show input.length + chunk ≤ fuel * chunk by unfold chunk; omega)
  rw [decompress, hinit]
  show (decompressLoop zlib fuel fuel strm input ⟨[], 0, toInt32 (4 * input.length)⟩ .ok).map _ = _
  rw [hloop]
  by_cases hwhole : input = stream
  · rw [if_pos hwhole, ← hdata hwhole, ← hlast.contents_eq]
    show Except.ok (if lastRet = .streamEnd then some last.contents else none) = _
    rw [if_pos (hret.mpr hwhole)]
  · rw [if_neg hwhole]
    show Except.ok (if lastRet = .streamEnd then some last.contents else none) = _
    rw [if_neg fun hend ↦ hwhole (hret.mp hend)]

end Decompress

/-! ### The round trip -/

/-- With enough rounds of the loops an input is compressed, the stream is decompressed to it, and a
stream that is cut off is rejected. The buffers are never overrun. -/
theorem compress_round_trip (zlib : StreamCoder) (level : ℤ)
    (IsStream : ByteString → ByteString → Prop) (hzlib : zlib.Follows level IsStream)
    (input : ByteString) (hinput : input ≠ []) (hshort : input.length < 268435456)
    (hlevel : IsLevel level) :
    ∃ enough, ∀ fuel ≥ enough, ∃ stream,
      compress zlib fuel input level = .ok (some stream) ∧
        decompress zlib fuel stream = .ok (some input) ∧
        ∀ cut, cut <+: stream → cut ≠ stream → decompress zlib fuel cut = .ok none := by
  refine ⟨65537, fun fuel hfuel ↦ ?_⟩
  obtain ⟨stream, hcompress, hstream, hlength⟩ :=
    exists_compress hzlib hinput hshort hlevel hfuel
  refine ⟨stream, hcompress, ?_, fun cut hcut hproper ↦ ?_⟩
  · rw [decompress_eq hzlib hstream hshort hlength (List.prefix_refl _) hfuel, if_pos rfl]
  · rw [decompress_eq hzlib hstream hshort hlength hcut hfuel, if_neg hproper]

/-- The stream of twenty bytes at the level that stores. -/
def storedTwenty : ByteString :=
  [0x78, 0x01, 0x01, 0x14, 0x00, 0xeb, 0xff] ++ List.replicate 20 97 ++ [0x4f, 0xa6, 0x07, 0x95]

/-- At the level that stores, a short text goes through one call each way. -/
theorem compress_round_trip_stored :
    ∃ enough, ∀ fuel ≥ enough,
      compress storedCoder fuel (List.replicate 20 97) 0 = .ok (some storedTwenty) ∧
        decompress storedCoder fuel storedTwenty = .ok (some (List.replicate 20 97)) ∧
        ∀ cut, cut <+: storedTwenty → cut ≠ storedTwenty →
          decompress storedCoder fuel cut = .ok none := by
  obtain ⟨enough, htrip⟩ := compress_round_trip storedCoder 0 IsStored (storedCoder_follows 0)
    (List.replicate 20 97) (by decide) (by decide) (by decide)
  refine ⟨max enough 65537, fun fuel hfuel ↦ ?_⟩
  obtain ⟨stream, hcompress, hdecompress⟩ := htrip fuel ((le_max_left _ _).trans hfuel)
  obtain ⟨other, hother, hstored, -⟩ := @exists_compress storedCoder IsStored 0
    (storedCoder_follows 0) (List.replicate 20 97) (by decide) (by decide) (by decide) fuel
    ((le_max_right _ _).trans hfuel)
  have hsame : stream = storedTwenty := by
    have hequal : stream = other := by
      rw [hcompress] at hother
      exact Option.some.inj (Except.ok.inj hother)
    rw [hequal, hstored]
    decide
  rw [hsame] at hcompress hdecompress
  exact ⟨hcompress, hdecompress⟩

end RocketMQClient.Common.UtilAll
