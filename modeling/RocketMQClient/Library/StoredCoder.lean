import Mathlib.Data.List.TakeDrop
import RocketMQClient.Library.ByteOrder
import RocketMQClient.Library.StreamCoder

/-!
# Storing instead of compressing

A stream may hold its data as it is, in blocks of at most 65535 bytes with their lengths in front.
The blocks stand between two bytes that tell the format and a checksum (`stored`). Such a stream
tells where it ends, so that none is the start of another (`stored_prefixFree`).

`storedCoder` is the library that writes and reads such streams. It behaves as a compression library
does (`storedCoder_follows`).

It is there to show that what is assumed of a compression library can be met: a small library whose
two sessions can be evaluated, and which puts out as much in each call as there is room for.
-/

set_option autoImplicit false
set_option relaxedAutoImplicit false

namespace RocketMQClient.Library

/-- The checksum of a stream: the sum of the bytes and the sum of these sums. -/
def adler32 (data : ByteString) : ℕ :=
  let sums := data.foldl (fun sums byte ↦
    ((sums.1 + byte.val) % 65521, (sums.2 + (sums.1 + byte.val) % 65521) % 65521)) (1, 0)
  sums.2 * 65536 + sums.1

/-- The greatest length of a block. -/
def blockLimit : ℕ := 65535

/-- A block: whether it is the last one, its length, the complement of its length and the data. -/
def storedBlock (last : Byte) (data : ByteString) : ByteString :=
  last :: (littleEndian 2 data.length ++ littleEndian 2 (65535 - data.length) ++ data)

/-- Data in a number of full blocks and a last one. -/
def storedBlocks : ℕ → ByteString → ByteString
  | 0, data => storedBlock 1 data
  | full + 1, data =>
    storedBlock 0 (data.take blockLimit) ++ storedBlocks full (data.drop blockLimit)

/-- The number of full blocks in front of the last one. -/
def fullBlocks (data : ByteString) : ℕ := (data.length - 1) / blockLimit

/-- The stream that holds the data as it is. -/
def stored (data : ByteString) : ByteString :=
  [0x78, 0x01] ++ (storedBlocks (fullBlocks data) data ++ bigEndian 4 (adler32 data))

/-- A stream is the one of some data. -/
def IsStored (stream data : ByteString) : Prop := stream = stored data

example : stored [97, 98, 99] =
    [0x78, 0x01, 0x01, 0x03, 0x00, 0xfc, 0xff, 97, 98, 99, 0x02, 0x4d, 0x01, 0x27] := by
  decide

/-- Reads blocks up to the last one, and gives the data. -/
def readBlocks : ℕ → ByteString → Option ByteString
  | 0, _ => none
  | _, [] => none
  | rounds + 1, last :: rest =>
    let body := rest.drop 4
    let length := ofLittleEndian (rest.take 2)
    if last = 1 then some (body.take length)
    else (readBlocks rounds (body.drop length)).map (body.take length ++ ·)

/-- The data of a whole stream. -/
def unstored (stream : ByteString) : Option ByteString :=
  (readBlocks stream.length (stream.drop 2)).filter fun data ↦ stored data = stream

/-! ### The format -/

theorem length_storedBlock (last : Byte) (data : ByteString) :
    (storedBlock last data).length = data.length + 5 := by
  rw [storedBlock, List.length_cons, List.length_append, List.length_append, length_littleEndian,
    length_littleEndian]
  omega

theorem length_storedBlocks (full : ℕ) (data : ByteString) :
    (storedBlocks full data).length = data.length + 5 * (full + 1) := by
  induction full generalizing data with
  | zero => rw [storedBlocks, length_storedBlock]
  | succ full ih =>
    rw [storedBlocks, List.length_append, length_storedBlock, ih, List.length_take,
      List.length_drop]
    omega

theorem length_stored (data : ByteString) :
    (stored data).length = data.length + 5 * (fullBlocks data + 1) + 6 := by
  rw [stored, List.length_append, List.length_append, length_storedBlocks, length_bigEndian]
  show 2 + (_ + 4) = _
  omega

/-- A block is read, whatever follows. -/
theorem readBlocks_storedBlock (last : Byte) {data : ByteString} (hdata : data.length ≤ blockLimit)
    (rounds : ℕ) (rest : ByteString) :
    readBlocks (rounds + 1) (storedBlock last data ++ rest) =
      if last = 1 then some data else (readBlocks rounds rest).map (data ++ ·) := by
  have hlength : ofLittleEndian (littleEndian 2 data.length) = data.length := by
    unfold blockLimit at hdata
    rw [ofLittleEndian_littleEndian, Nat.mod_eq_of_lt (by omega)]
  have hhead : (littleEndian 2 data.length ++ littleEndian 2 (65535 - data.length) ++ data ++
      rest).take 2 = littleEndian 2 data.length := by
    rw [List.append_assoc, List.append_assoc]
    exact List.take_left' (length_littleEndian 2 _)
  have hbody : (littleEndian 2 data.length ++ littleEndian 2 (65535 - data.length) ++ data ++
      rest).drop 4 = data ++ rest := by
    rw [List.append_assoc]
    exact List.drop_left' (by rw [List.length_append, length_littleEndian, length_littleEndian])
  rw [storedBlock, List.cons_append, readBlocks]
  simp only [hhead, hbody, hlength, List.take_left, List.drop_left]

/-- The blocks are read, whatever follows. -/
theorem readBlocks_storedBlocks {full : ℕ} {data : ByteString}
    (hdata : data.length ≤ (full + 1) * blockLimit) {rounds : ℕ} (hrounds : full < rounds)
    (rest : ByteString) : readBlocks rounds (storedBlocks full data ++ rest) = some data := by
  induction full generalizing data rounds with
  | zero =>
    obtain ⟨rounds, rfl⟩ := Nat.exists_eq_add_of_lt hrounds
    rw [storedBlocks, readBlocks_storedBlock 1 (by omega), if_pos rfl]
  | succ full ih =>
    obtain ⟨less, rfl⟩ : ∃ less, rounds = less + 1 := ⟨rounds - 1, by omega⟩
    have hpiece : (data.take blockLimit).length ≤ blockLimit := List.length_take_le _ _
    have hleft : (data.drop blockLimit).length ≤ (full + 1) * blockLimit := by
      rw [List.length_drop]
      rw [Nat.succ_mul] at hdata
      omega
    rw [storedBlocks, List.append_assoc, readBlocks_storedBlock 0 hpiece, if_neg (by decide),
      ih hleft (by omega)]
    exact congrArg some (List.take_append_drop blockLimit data)

/-- The data of a stream are read, whatever follows. -/
theorem readBlocks_stored (data rest : ByteString) {rounds : ℕ}
    (hrounds : (stored data).length ≤ rounds) :
    readBlocks rounds ((stored data ++ rest).drop 2) = some data := by
  have hdrop : (stored data ++ rest).drop 2 =
      storedBlocks (fullBlocks data) data ++ (bigEndian 4 (adler32 data) ++ rest) := by
    rw [stored, List.append_assoc, List.append_assoc]
    rfl
  rw [length_stored] at hrounds
  rw [hdrop]
  refine readBlocks_storedBlocks ?_ (by omega) _
  unfold fullBlocks blockLimit
  omega

theorem unstored_stored (data : ByteString) : unstored (stored data) = some data := by
  have hread := readBlocks_stored data [] (le_refl _)
  rw [List.append_nil] at hread
  rw [unstored, hread]
  simp

theorem stored_of_unstored {stream data : ByteString} (hdata : unstored stream = some data) :
    stored data = stream := by
  simpa using (Option.filter_eq_some_iff.mp hdata).2

/-- No stream is the start of another. -/
theorem stored_prefixFree {first second : ByteString} (hbegins : stored first <+: stored second) :
    first = second := by
  obtain ⟨rest, hrest⟩ := hbegins
  have hlonger : (stored first).length ≤ (stored second).length := by
    rw [← hrest, List.length_append]
    omega
  have hfirst := readBlocks_stored first rest hlonger
  have hsecond := readBlocks_stored second [] (le_refl _)
  rw [hrest] at hfirst
  rw [List.append_nil, hfirst] at hsecond
  exact Option.some.inj hsecond

/-- The start of a stream holds data only if it is the whole stream. -/
theorem unstored_of_begins {stream data : ByteString} (hbegins : stream <+: stored data) :
    unstored stream = if stream = stored data then some data else none := by
  split_ifs with hwhole
  · rw [hwhole, unstored_stored]
  · refine Option.eq_none_iff_forall_ne_some.mpr fun other hother ↦ ?_
    have hstream := stored_of_unstored hother
    rw [← hstream] at hbegins hwhole
    exact hwhole (congrArg stored (stored_prefixFree hbegins))

/-! ### The library -/

/-- The next bytes of a text of which a part has been put out. -/
def nextOutput (whole produced : ByteString) (space : ℕ) : ByteString :=
  (whole.drop produced.length).take space

/-- The bytes given and put out so far. -/
structure StoredState where
  given : ByteString
  produced : ByteString

/-- A call that takes its whole input and puts out a piece. -/
def StoredState.call (state : StoredState) (input output : ByteString) (ret : ReturnCode) :
    StoredState × Progress :=
  (⟨state.given ++ input, state.produced ++ output⟩, ⟨input.length, output, ret⟩)

/-- A call that puts out the next bytes of a text, and reports the end with the last of them. -/
def StoredState.putOut (state : StoredState) (input whole : ByteString) (space : ℕ) :
    StoredState × Progress :=
  state.call input (nextOutput whole state.produced space)
    (if whole.length ≤ state.produced.length + space then .streamEnd else .ok)

/-- The library that stores data in streams. It writes when it has all of the data, and reads when
it has the whole stream. -/
def storedCoder : StreamCoder where
  DeflateState := StoredState
  InflateState := StoredState
  deflateInit _ := some ⟨[], []⟩
  deflate state input flush space :=
    if flush = .finish then state.putOut input (stored (state.given ++ input)) space
    else state.call input [] .ok
  inflateInit := some ⟨[], []⟩
  inflate state input space :=
    (unstored (state.given ++ input)).elim
      (state.call input [] (if input = [] then .bufError else .ok))
      fun data ↦ state.putOut input data space

section PutOut

variable {whole produced : ByteString}

theorem append_nextOutput_begins (hbegins : produced <+: whole) (space : ℕ) :
    produced ++ nextOutput whole produced space <+: whole := by
  obtain ⟨rest, rfl⟩ := hbegins
  rw [nextOutput, List.drop_left, List.prefix_append_right_inj]
  exact List.take_prefix space rest

theorem append_nextOutput_eq_iff (hbegins : produced <+: whole) (space : ℕ) :
    produced ++ nextOutput whole produced space = whole ↔
      whole.length ≤ produced.length + space := by
  obtain ⟨rest, rfl⟩ := hbegins
  rw [nextOutput, List.drop_left, List.append_cancel_left_eq, List.take_eq_self_iff,
    List.length_append]
  omega

theorem append_nextOutput_of_room (hbegins : produced <+: whole) {space : ℕ}
    (hroom : (nextOutput whole produced space).length < space) :
    produced ++ nextOutput whole produced space = whole := by
  rw [append_nextOutput_eq_iff hbegins]
  rw [nextOutput, List.length_take, List.length_drop] at hroom
  omega

end PutOut

theorem length_nextOutput_le (whole produced : ByteString) (space : ℕ) :
    (nextOutput whole produced space).length ≤ space := List.length_take_le _ _

theorem putOut_ret (state : StoredState) (input whole : ByteString) (space : ℕ) :
    (state.putOut input whole space).2.ret = .ok ∨
      (state.putOut input whole space).2.ret = .streamEnd := by
  show (if _ then ReturnCode.streamEnd else .ok) = _ ∨ (if _ then ReturnCode.streamEnd else .ok) = _
  split_ifs
  · exact Or.inr rfl
  · exact Or.inl rfl

theorem putOut_ret_iff (state : StoredState) (input whole : ByteString) (space : ℕ) :
    (state.putOut input whole space).2.ret = .streamEnd ↔
      whole.length ≤ state.produced.length + space := by
  show (if _ then ReturnCode.streamEnd else .ok) = _ ↔ _
  split_ifs with hend
  · exact iff_of_true rfl hend
  · exact iff_of_false (by decide) hend

/-- The output of a compression is the start of the stream. Before the first call for the last of
the input there is none, and behind it nothing is left of the input. -/
structure Storing (given produced : ByteString) (unread : Option ByteString) : Prop where
  output_begins : produced <+: stored given
  waiting : unread = none → produced = []
  nothingLeft : ∀ rest ∈ unread, rest = []

theorem Storing.next_begins {given produced input : ByteString} {unread : Option ByteString}
    {flush : Flush} (hstoring : Storing given produced unread)
    (hpermitted : ∀ rest ∈ unread, flush = .finish ∧ input = rest) :
    produced <+: stored (given ++ input) := by
  cases hunread : unread with
  | none =>
    rw [hstoring.waiting hunread]
    exact List.nil_prefix
  | some rest =>
    rw [(hpermitted rest hunread).2, hstoring.nothingLeft rest hunread, List.append_nil]
    exact hstoring.output_begins

theorem Storing.waiting_of_noFlush {given produced input : ByteString} {unread : Option ByteString}
    (hstoring : Storing given produced unread)
    (hpermitted : ∀ rest ∈ unread, Flush.noFlush = .finish ∧ input = rest) : produced = [] := by
  cases hunread : unread with
  | none => exact hstoring.waiting hunread
  | some rest => exact absurd (hpermitted rest hunread).1 (by decide)

theorem deflate_session {level : ℤ} {state : storedCoder.DeflateState}
    {given produced : ByteString} {unread : Option ByteString}
    (hsession : DeflateSession storedCoder level state given produced unread) :
    state = StoredState.mk given produced ∧ Storing given produced unread := by
  induction hsession with
  | init state hinit =>
    cases hinit
    exact ⟨rfl, List.nil_prefix, fun _ ↦ rfl, fun _ hrest ↦ (nomatch hrest)⟩
  | call state given produced unread input flush space hsession hpermitted hspace ih =>
    obtain ⟨rfl, hstoring⟩ := ih
    cases flush with
    | noFlush =>
      obtain rfl := hstoring.waiting_of_noFlush hpermitted
      show StoredState.mk (given ++ input) ([] ++ []) =
          ⟨given ++ input.take input.length, [] ++ []⟩ ∧
        Storing (given ++ input.take input.length) ([] ++ []) none
      rw [List.take_length]
      exact ⟨rfl, List.nil_prefix, fun _ ↦ rfl, fun _ hrest ↦ (nomatch hrest)⟩
    | finish =>
      show StoredState.mk (given ++ input) _ = ⟨given ++ input.take input.length, _⟩ ∧
        Storing (given ++ input.take input.length)
          (produced ++ nextOutput (stored (given ++ input)) produced space)
          (some (input.drop input.length))
      rw [List.take_length, List.drop_length]
      exact ⟨rfl, append_nextOutput_begins (hstoring.next_begins hpermitted) space,
        fun hnone ↦ (nomatch hnone), fun rest hrest ↦ (Option.some.inj hrest).symm⟩

theorem deflate_step {level : ℤ} {state : storedCoder.DeflateState}
    {given produced : ByteString} {unread : Option ByteString}
    (hsession : DeflateSession storedCoder level state given produced unread) (input : ByteString)
    (flush : Flush) {space : ℕ} (hpermitted : ∀ rest ∈ unread, flush = .finish ∧ input = rest)
    (hspace : 0 < space) :
    DeflateStep IsStored given produced input flush space
      (storedCoder.deflate state input flush space).2 := by
  obtain ⟨rfl, hstoring⟩ := deflate_session hsession
  cases flush with
  | noFlush =>
    exact ⟨le_refl _, hspace.le, fun herror ↦ (nomatch herror), fun _ ↦ rfl,
      fun hfinish ↦ (nomatch hfinish),
      iff_of_false (fun hend ↦ (nomatch hend)) fun hended ↦ (nomatch hended.1)⟩
  | finish =>
    have hbegins := hstoring.next_begins hpermitted
    have hret := putOut_ret_iff ⟨given, produced⟩ input (stored (given ++ input)) space
    refine ⟨le_refl _, length_nextOutput_le _ _ _, ?_, fun _ ↦ rfl,
      fun _ ↦ append_nextOutput_of_room hbegins, ?_⟩
    · show (StoredState.putOut ⟨given, produced⟩ input (stored (given ++ input)) space).2.ret ≠ _
      rcases putOut_ret ⟨given, produced⟩ input (stored (given ++ input)) space with hok | hend
      · rw [hok]
        decide
      · rw [hend]
        decide
    · rw [← append_nextOutput_eq_iff hbegins] at hret
      exact hret.trans ⟨fun hend ↦ ⟨rfl, rfl, hend⟩, fun hended ↦ hended.2.2⟩

theorem inflate_of_some {state : StoredState} {input data : ByteString} {space : ℕ}
    (hdata : unstored (state.given ++ input) = some data) :
    storedCoder.inflate state input space = state.putOut input data space := by
  show Option.elim (unstored (state.given ++ input)) _ _ = _
  rw [hdata]
  rfl

theorem inflate_of_none {state : StoredState} {input : ByteString} {space : ℕ}
    (hdata : unstored (state.given ++ input) = none) :
    storedCoder.inflate state input space =
      state.call input [] (if input = [] then .bufError else .ok) := by
  show Option.elim (unstored (state.given ++ input)) _ _ = _
  rw [hdata]
  rfl

/-- The output of a decompression is the start of the data, if what was given is the start of a
stream. -/
theorem inflate_session {state : storedCoder.InflateState} {given produced : ByteString}
    (hsession : InflateSession storedCoder state given produced) :
    state = StoredState.mk given produced ∧
      ∀ data, given <+: stored data → produced <+: data := by
  induction hsession with
  | init state hinit =>
    cases hinit
    exact ⟨rfl, fun _ _ ↦ List.nil_prefix⟩
  | call state given produced input space hsession hspace ih =>
    obtain ⟨rfl, hdata⟩ := ih
    have hgiven (data : ByteString) (hstart : given ++ input <+: stored data) : produced <+: data :=
      hdata data ((List.prefix_append given input).trans hstart)
    cases hstream : unstored (given ++ input) with
    | none =>
      rw [inflate_of_none hstream]
      show StoredState.mk (given ++ input) (produced ++ []) =
          ⟨given ++ input.take input.length, produced ++ []⟩ ∧
        ∀ data, given ++ input.take input.length <+: stored data → produced ++ [] <+: data
      rw [List.take_length, List.append_nil]
      exact ⟨rfl, hgiven⟩
    | some whole =>
      rw [inflate_of_some hstream]
      show StoredState.mk (given ++ input) (produced ++ nextOutput whole produced space) =
          ⟨given ++ input.take input.length, produced ++ nextOutput whole produced space⟩ ∧
        ∀ data, given ++ input.take input.length <+: stored data →
          produced ++ nextOutput whole produced space <+: data
      rw [List.take_length]
      refine ⟨rfl, fun data hstart ↦ ?_⟩
      have hwhole := hgiven whole (stored_of_unstored hstream ▸ List.prefix_rfl)
      rw [← stored_of_unstored hstream] at hstart
      rw [← stored_prefixFree hstart]
      exact append_nextOutput_begins hwhole space

theorem inflate_step {data : ByteString} {state : storedCoder.InflateState}
    {given produced : ByteString} (hsession : InflateSession storedCoder state given produced)
    {input : ByteString} {space : ℕ} (hstart : given ++ input <+: stored data)
    (hspace : 0 < space) :
    InflateStep (stored data) data given produced input space
      (storedCoder.inflate state input space).2 := by
  obtain ⟨rfl, hproduced⟩ := inflate_session hsession
  have hbegins := hproduced data ((List.prefix_append given input).trans hstart)
  have hstream := unstored_of_begins hstart
  by_cases hwhole : given ++ input = stored data
  · rw [if_pos hwhole] at hstream
    rw [inflate_of_some hstream]
    have hret := putOut_ret_iff ⟨given, produced⟩ input data space
    rw [← append_nextOutput_eq_iff hbegins] at hret
    have htake : given ++ input.take input.length = stored data := by
      rw [List.take_length, hwhole]
    refine ⟨le_refl _, length_nextOutput_le _ _ _, ?_, append_nextOutput_begins hbegins space,
      fun _ ↦ rfl, fun hroom _ ↦ append_nextOutput_of_room hbegins hroom,
      hret.trans ⟨fun hend ↦ ⟨htake, hend⟩, fun hended ↦ hended.2⟩⟩
    exact (putOut_ret _ _ _ _).imp_right Or.inl
  · rw [if_neg hwhole] at hstream
    rw [inflate_of_none hstream]
    refine ⟨le_refl _, hspace.le, ?_, ?_, fun _ ↦ rfl, fun _ hend ↦ absurd hend hwhole,
      iff_of_false ?_ fun hended ↦ hwhole ?_⟩
    · show (if input = [] then ReturnCode.bufError else .ok) = _ ∨ _ ∨
        (if input = [] then ReturnCode.bufError else .ok) = _
      split_ifs
      · exact Or.inr (Or.inr rfl)
      · exact Or.inl rfl
    · show produced ++ [] <+: data
      rwa [List.append_nil]
    · show (if input = [] then ReturnCode.bufError else .ok) ≠ _
      split_ifs <;> decide
    · rw [← hended.1]
      show _ = given ++ input.take input.length
      rw [List.take_length]

/-- The library behaves as a compression library does. -/
theorem storedCoder_follows (level : ℤ) : storedCoder.Follows level IsStored where
  header data := by
    rw [IsStored, stored]
    exact (List.cons_ne_nil _ _).symm
  deflateInit _ := rfl
  deflate _ _ _ _ hsession input flush _ hpermitted hspace :=
    deflate_step hsession input flush hpermitted hspace
  expands _ given produced _ hsession := by
    have hlength := (deflate_session hsession).2.output_begins.length_le
    rw [length_stored, fullBlocks, blockLimit] at hlength
    omega
  inflateInit := rfl
  inflate _ _ hstream _ _ _ hsession _ _ hstart hspace := by
    rw [hstream] at hstart ⊢
    exact inflate_step hsession hstart hspace

end RocketMQClient.Library
