import Mathlib.Data.List.Nodup
import Mathlib.Data.List.TakeDrop
import Mathlib.Data.List.TakeWhile
import RocketMQClient.Library.ByteString
import RocketMQClient.Library.EventSystem

/-!
# The stream of sent bytes

`SendData` takes the send lock and sends its buffer with `SendOneMsg`, whose loop calls `send` as
long as bytes are left and the transport is connected. The loop closes the transport when `send` or
`select` fails or times out, and the receiving side may close it between any two steps.

`sendSystem` interleaves any number of calls with the results of `send` and `select` and with
`Close`. `whole_frames_sent` says that the bytes accepted by the socket are whole frames in the
order of the lock and then at most a part of one, that a call returns zero exactly when its whole
frame was accepted, and that nothing is sent after a call that returns something else.

The invariant goes along with the lock: the calls that had it stand in `lockOrder`, and the accepted
bytes are what each of them has got through, one after another (`taken`). While the lock is held on
a connected transport all frames before are whole (`Sound.len_eq_zero`), so that the frame that is
cut belongs to the call that closes the transport or finds it closed. Each result of `send` is a
step of its own: the socket may accept any number of the bytes that are left.
-/

set_option autoImplicit false
set_option relaxedAutoImplicit false

namespace RocketMQClient.Transport

open Library

/-! ### Calls -/

/-- The states of a transport. -/
inductive TransportState where
  | uninit
  | inited
  | connected
  | disconnect
  deriving DecidableEq

/-- How far a call of `SendData` has got. -/
inductive SendPhase where
  | notCalled
  /-- Waits for the send lock. -/
  | sendLock
  /-- At the head of the loop of `SendOneMsg`. -/
  | loop
  | send
  | select
  | close
  /-- The loop has ended. -/
  | leave
  | returned (ret : ℤ)
  deriving DecidableEq

/-- What `send` returns, and the error it leaves. -/
inductive SendReturn where
  | accepted (count : ℕ)
  | zero
  | wouldBlock
  | interrupted
  | failed
  deriving DecidableEq

/-- What `select` returns, and whether the socket is then in the set. -/
inductive SelectReturn where
  | failed
  | returned (isSet : Bool)
  deriving DecidableEq

/-- A call of `SendData` with the local variables of `SendOneMsg`. -/
structure SendCall where
  pBuffer : ByteString
  nTimeOut : ℤ
  pos : ℕ
  len : ℕ
  phase : SendPhase
  deriving DecidableEq

/-- The steps of the loop of `SendOneMsg`. -/
inductive SendAction where
  | check
  | send (result : SendReturn)
  | select (result : SelectReturn)
  | close
  deriving DecidableEq

namespace SendCall

/-- A call that has not been made. -/
def idle : SendCall := ⟨[], 0, 0, 0, .notCalled⟩

/-- A step of the loop: the call after it, the bytes that the socket accepts, and whether `Close`
is called. -/
def step (state : TransportState) (call : SendCall) :
    SendAction → Option (SendCall × ByteString × Bool)
  | .check =>
    if call.phase = .loop then
      some ({ call with phase := if 0 < call.len ∧ state = .connected then .send else .leave },
        [], false)
    else none
  | .send result =>
    if call.phase = .send then
      match result with
      | .accepted count =>
        if 1 ≤ count ∧ count ≤ call.len then
          some ({ call with len := call.len - count, pos := call.pos + count, phase := .loop },
            (call.pBuffer.drop call.pos).take count, false)
        else none
      | .zero | .failed => some ({ call with phase := .close }, [], false)
      | .wouldBlock | .interrupted => some ({ call with phase := .select }, [], false)
    else none
  | .select result =>
    if call.phase = .select then
      match result with
      | .failed => some ({ call with phase := .close }, [], false)
      | .returned isSet =>
        some ({ call with
          phase := if call.nTimeOut > 0 ∧ isSet = false then .close else .loop }, [], false)
    else none
  | .close => if call.phase = .close then some ({ call with phase := .leave }, [], true) else none

/-- The bytes of a call that the socket has accepted. -/
def taken (call : SendCall) : ByteString := call.pBuffer.take call.pos

end SendCall

/-! ### The stream -/

/-- A transport with the calls of `SendData` made on it, the order in which they took the lock, and
the bytes that the socket has accepted. -/
structure SendStream where
  state : TransportState
  sendLock : Option ℕ
  calls : ℕ → SendCall
  lockOrder : List ℕ
  accepted : ByteString

/-- The steps of the calls, and `Close` by the receiving side. -/
inductive SendEvent where
  | sendData (index : ℕ) (pBuffer : ByteString) (nTimeOut : ℤ)
  | lock (index : ℕ)
  | act (index : ℕ) (action : SendAction)
  | unlock (index : ℕ)
  | recvClose
  deriving DecidableEq

namespace SendStream

/-- A connected transport on which nothing has been sent. -/
def initial : SendStream where
  state := .connected
  sendLock := none
  calls := fun _ ↦ SendCall.idle
  lockOrder := []
  accepted := []

/-- `Close`. -/
def close (stream : SendStream) : SendStream :=
  if stream.state = .connected then { stream with state := .disconnect } else stream

/-- A call goes on. -/
def setCall (stream : SendStream) (index : ℕ) (call : SendCall) : SendStream :=
  { stream with calls := Function.update stream.calls index call }

/-- One step. -/
def step (stream : SendStream) : SendEvent → Option SendStream
  | .sendData index pBuffer nTimeOut =>
    if (stream.calls index).phase = .notCalled then
      some (stream.setCall index ⟨pBuffer, nTimeOut, 0, pBuffer.length, .sendLock⟩)
    else none
  | .lock index =>
    if (stream.calls index).phase = .sendLock ∧ stream.sendLock = none then
      some { stream.setCall index { stream.calls index with phase := .loop } with
        sendLock := some index
        lockOrder := stream.lockOrder ++ [index] }
    else none
  | .act index action =>
    ((stream.calls index).step stream.state action).map fun after ↦
      let moved := { stream.setCall index after.1 with accepted := stream.accepted ++ after.2.1 }
      if after.2.2 then moved.close else moved
  | .unlock index =>
    if (stream.calls index).phase = .leave then
      some { stream.setCall index { stream.calls index with
          phase := .returned (if (stream.calls index).len = 0 then 0 else -1) } with
        sendLock := none }
    else none
  | .recvClose => some stream.close

end SendStream

/-- A transport and the calls of `SendData` on it. -/
def sendSystem : EventSystem SendStream SendEvent where
  step := SendStream.step

/-! ### A step of the loop -/

namespace SendPhase

/-- The call does not have the lock yet. -/
def Waiting : SendPhase → Prop
  | notCalled | sendLock => True
  | loop | send | select | close | leave | returned _ => False

/-- The loop has ended. -/
def Left : SendPhase → Prop
  | leave | returned _ => True
  | notCalled | sendLock | loop | send | select | close => False

/-- The call has the lock. -/
def Holds : SendPhase → Prop
  | loop | send | select | close | leave => True
  | notCalled | sendLock | returned _ => False

theorem left_of_not {phase : SendPhase} (hwaiting : ¬ phase.Waiting) (hholds : ¬ phase.Holds) :
    phase.Left := by
  cases phase with
  | notCalled | sendLock => exact absurd trivial hwaiting
  | loop | send | select | close | leave => exact absurd trivial hholds
  | returned ret => trivial

theorem not_waiting_of_holds {phase : SendPhase} (hholds : phase.Holds) : ¬ phase.Waiting := by
  cases phase with
  | notCalled | sendLock | returned _ => exact hholds.elim
  | loop | send | select | close | leave => exact id

end SendPhase

namespace SendCall

/-- What a step of the loop does. -/
structure Moves (state : TransportState) (call next : SendCall) (sent : ByteString)
    (closes : Bool) : Prop where
  holds : call.phase.Holds
  holds_next : next.phase.Holds
  pBuffer : next.pBuffer = call.pBuffer
  sizes : next.pos + next.len = next.pBuffer.length
  taken : next.taken = call.taken ++ sent
  pos : call.phase ≠ .send → next.pos = call.pos
  len : call.phase ≠ .send → next.len = call.len
  complete : call.len = 0 → next.len = 0
  send : next.phase = .send → state = .connected
  leave : next.phase.Left → next.len = 0 ∨ state ≠ .connected ∨ closes = true

/-- A step that changes the phase only. -/
theorem moves_of_phase {state : TransportState} {call : SendCall} {phase : SendPhase}
    {closes : Bool} (hsizes : call.pos + call.len = call.pBuffer.length)
    (hholds : call.phase.Holds) (hnext : phase.Holds)
    (hsend : phase = .send → state = .connected)
    (hleave : phase.Left → call.len = 0 ∨ state ≠ .connected ∨ closes = true) :
    call.Moves state { call with phase := phase } [] closes where
  holds := hholds
  holds_next := hnext
  pBuffer := rfl
  sizes := hsizes
  taken := (List.append_nil _).symm
  pos := fun _ ↦ rfl
  len := fun _ ↦ rfl
  complete := id
  send := hsend
  leave := hleave

/-- A step in which the socket accepts bytes. -/
theorem moves_of_accepted {state : TransportState} {call : SendCall} {count : ℕ}
    (hsizes : call.pos + call.len = call.pBuffer.length) (hphase : call.phase = .send)
    (hcount : count ≤ call.len) :
    call.Moves state { call with len := call.len - count, pos := call.pos + count, phase := .loop }
      ((call.pBuffer.drop call.pos).take count) false where
  holds := by rw [hphase]; trivial
  holds_next := trivial
  pBuffer := rfl
  sizes := by dsimp only; omega
  taken := by
    show call.pBuffer.take (call.pos + count) = _
    rw [List.take_add]
    rfl
  pos := fun hne ↦ absurd hphase hne
  len := fun hne ↦ absurd hphase hne
  complete := fun hlen ↦ by dsimp only; omega
  send := fun hsend ↦ nomatch hsend
  leave := False.elim

/-- What a step of the loop does, on a call whose sizes are in order. -/
theorem step_moves {state : TransportState} {call next : SendCall} {action : SendAction}
    {sent : ByteString} {closes : Bool} (hsizes : call.pos + call.len = call.pBuffer.length)
    (hstep : call.step state action = some (next, sent, closes)) :
    call.Moves state next sent closes := by
  cases action with
  | check =>
    rw [step] at hstep
    split_ifs at hstep with hphase hcheck
    · obtain ⟨rfl, rfl, rfl⟩ : _ ∧ _ ∧ _ := by simpa using hstep
      exact moves_of_phase hsizes (by rw [hphase]; trivial) trivial (fun _ ↦ hcheck.2) False.elim
    · obtain ⟨rfl, rfl, rfl⟩ : _ ∧ _ ∧ _ := by simpa using hstep
      refine moves_of_phase hsizes (by rw [hphase]; trivial) trivial (fun hsend ↦ nomatch hsend)
        fun _ ↦ ?_
      by_cases hlen : call.len = 0
      · exact Or.inl hlen
      · exact Or.inr (Or.inl fun hconnected ↦ hcheck ⟨by omega, hconnected⟩)
  | send result =>
    cases result with
    | accepted count =>
      simp only [step] at hstep
      split_ifs at hstep with hphase hcount
      obtain ⟨rfl, rfl, rfl⟩ : _ ∧ _ ∧ _ := by simpa using hstep
      exact moves_of_accepted hsizes hphase hcount.2
    | zero | failed | wouldBlock | interrupted =>
      simp only [step] at hstep
      split_ifs at hstep with hphase
      obtain ⟨rfl, rfl, rfl⟩ : _ ∧ _ ∧ _ := by simpa using hstep
      exact moves_of_phase hsizes (by rw [hphase]; trivial) trivial (fun hsend ↦ nomatch hsend)
        False.elim
  | select result =>
    cases result with
    | failed =>
      simp only [step] at hstep
      split_ifs at hstep with hphase
      obtain ⟨rfl, rfl, rfl⟩ : _ ∧ _ ∧ _ := by simpa using hstep
      exact moves_of_phase hsizes (by rw [hphase]; trivial) trivial (fun hsend ↦ nomatch hsend)
        False.elim
    | returned isSet =>
      simp only [step] at hstep
      split_ifs at hstep with hphase htimeOut
      · obtain ⟨rfl, rfl, rfl⟩ : _ ∧ _ ∧ _ := by simpa using hstep
        exact moves_of_phase hsizes (by rw [hphase]; trivial) trivial
          (fun hsend ↦ nomatch hsend) False.elim
      · obtain ⟨rfl, rfl, rfl⟩ : _ ∧ _ ∧ _ := by simpa using hstep
        exact moves_of_phase hsizes (by rw [hphase]; trivial) trivial
          (fun hsend ↦ nomatch hsend) False.elim
  | close =>
    rw [step] at hstep
    split_ifs at hstep with hphase
    obtain ⟨rfl, rfl, rfl⟩ : _ ∧ _ ∧ _ := by simpa using hstep
    exact moves_of_phase hsizes (by rw [hphase]; trivial) trivial (fun hsend ↦ nomatch hsend)
      fun _ ↦ Or.inr (Or.inr rfl)

end SendCall

/-! ### What a run keeps -/

namespace SendStream

/-- What holds of the call at an index. -/
structure CallSound (stream : SendStream) (index : ℕ) (call : SendCall) : Prop where
  sizes : call.pos + call.len = call.pBuffer.length
  unsent : call.phase.Waiting → call.pos = 0
  holds : call.phase.Holds ↔ stream.sendLock = some index
  ordered : index ∈ stream.lockOrder ↔ ¬ call.phase.Waiting
  left : call.phase.Left → call.len = 0 ∨ stream.state ≠ .connected
  returned : ∀ ret, call.phase = .returned ret → (ret = 0 ↔ call.len = 0)

/-- The calls are in order, the holder of the lock is the last that took it, the bytes accepted are
those of the calls one after another, and nothing of a frame is sent after a frame that was cut. -/
structure Sound (stream : SendStream) : Prop where
  calls : ∀ index, stream.CallSound index (stream.calls index)
  nodup : stream.lockOrder.Nodup
  last : ∀ index, stream.sendLock = some index → ∃ earlier, stream.lockOrder = earlier ++ [index]
  accepted : stream.accepted =
    (stream.lockOrder.map fun index ↦ (stream.calls index).taken).flatten
  cut : stream.lockOrder.Pairwise fun earlier later ↦
    (stream.calls earlier).len = 0 ∨ (stream.calls later).pos = 0
  send : ∀ index, (stream.calls index).phase = .send →
    ∀ other ∈ stream.lockOrder, other ≠ index → (stream.calls other).len = 0

/-- `Close` leaves everything but the state, and the transport is not connected afterwards. -/
theorem close_eq (stream : SendStream) :
    ∃ state, state ≠ .connected ∧ stream.close = { stream with state := state } := by
  unfold close
  split_ifs with hconnected
  · exact ⟨.disconnect, by decide, rfl⟩
  · exact ⟨stream.state, hconnected, rfl⟩

variable {stream next : SendStream} {index : ℕ}

theorem sound_initial : initial.Sound where
  calls := fun index ↦
    { sizes := rfl
      unsent := fun _ ↦ rfl
      holds := iff_of_false id (by simp [initial])
      ordered := iff_of_false List.not_mem_nil fun hnot ↦ hnot trivial
      left := False.elim
      returned := fun _ hret ↦ nomatch hret }
  nodup := List.nodup_nil
  last := fun _ hlock ↦ nomatch hlock
  accepted := rfl
  cut := List.Pairwise.nil
  send := fun _ hsend ↦ nomatch hsend

/-- A call whose surroundings change in nothing that concerns it stays in order. -/
theorem CallSound.of_same {call : SendCall} (hcall : stream.CallSound index call)
    (hstate : next.state = .connected → stream.state = .connected)
    (hlock : next.sendLock = some index ↔ stream.sendLock = some index)
    (horder : index ∈ next.lockOrder ↔ index ∈ stream.lockOrder) : next.CallSound index call where
  sizes := hcall.sizes
  unsent := hcall.unsent
  holds := hcall.holds.trans hlock.symm
  ordered := horder.trans hcall.ordered
  left := fun hleft ↦ (hcall.left hleft).imp_right fun hne hconnected ↦ hne (hstate hconnected)
  returned := hcall.returned

/-- A change of a call that leaves its bytes leaves what the stream is made of. -/
theorem Sound.stream_of_same (hsound : stream.Sound) (next : SendStream)
    (horder : next.lockOrder = stream.lockOrder) (haccepted : next.accepted = stream.accepted)
    (hsame : ∀ other ∈ stream.lockOrder, (next.calls other).pBuffer = (stream.calls other).pBuffer ∧
      (next.calls other).pos = (stream.calls other).pos ∧
        (next.calls other).len = (stream.calls other).len) :
    next.accepted = (next.lockOrder.map fun index ↦ (next.calls index).taken).flatten ∧
      next.lockOrder.Pairwise fun earlier later ↦
        (next.calls earlier).len = 0 ∨ (next.calls later).pos = 0 := by
  constructor
  · rw [haccepted, horder, hsound.accepted]
    congr 1
    refine List.map_congr_left fun other hother ↦ ?_
    obtain ⟨hbuffer, hpos, -⟩ := hsame other hother
    rw [SendCall.taken, SendCall.taken, hbuffer, hpos]
  · rw [horder]
    refine hsound.cut.imp_of_mem fun hearlier hlater hcut ↦ ?_
    rw [(hsame _ hearlier).2.2, (hsame _ hlater).2.1]
    exact hcut

/-- The calls after a change of one of them. -/
theorem Sound.calls_of_update (hsound : stream.Sound) {call : SendCall}
    (hcalls : next.calls = Function.update stream.calls index call)
    (hcall : next.CallSound index call)
    (hstate : next.state = .connected → stream.state = .connected)
    (hlock : ∀ other, other ≠ index →
      (next.sendLock = some other ↔ stream.sendLock = some other))
    (horder : ∀ other, other ≠ index → (other ∈ next.lockOrder ↔ other ∈ stream.lockOrder)) :
    ∀ other, next.CallSound other (next.calls other) := by
  intro other
  rw [hcalls]
  by_cases hother : other = index
  · rw [hother, Function.update_self]
    exact hcall
  · rw [Function.update_of_ne hother]
    exact (hsound.calls other).of_same hstate (hlock other hother) (horder other hother)

theorem setCall_self {call : SendCall} : (stream.setCall index call).calls index = call :=
  Function.update_self ..

theorem setCall_of_ne {call : SendCall} {other : ℕ} (hne : other ≠ index) :
    (stream.setCall index call).calls other = stream.calls other :=
  Function.update_of_ne hne ..

/-- A call that has not had the lock is not among those that have. -/
theorem Sound.ne_of_waiting (hsound : stream.Sound)
    (hwaiting : (stream.calls index).phase.Waiting) {other : ℕ} (hmem : other ∈ stream.lockOrder) :
    other ≠ index :=
  fun heq ↦ (hsound.calls index).ordered.mp (heq ▸ hmem) hwaiting

/-- A new call of `SendData`. -/
theorem Sound.sendData (hsound : stream.Sound) (pBuffer : ByteString) (nTimeOut : ℤ)
    (hphase : (stream.calls index).phase = .notCalled) :
    (stream.setCall index ⟨pBuffer, nTimeOut, 0, pBuffer.length, .sendLock⟩).Sound := by
  have hcall := hsound.calls index
  have hwaiting : (stream.calls index).phase.Waiting := by
    rw [hphase]
    trivial
  have hne : ∀ other ∈ stream.lockOrder, other ≠ index := fun _ ↦ hsound.ne_of_waiting hwaiting
  have hnot : index ∉ stream.lockOrder := fun hmem ↦ hne index hmem rfl
  have hholds : stream.sendLock ≠ some index := by
    rw [Ne, ← hcall.holds, hphase]
    exact id
  obtain ⟨call, hnew⟩ : ∃ call : SendCall,
      call = ⟨pBuffer, nTimeOut, 0, pBuffer.length, .sendLock⟩ := ⟨_, rfl⟩
  rw [← hnew]
  obtain ⟨haccepted, hcut⟩ := hsound.stream_of_same (stream.setCall index call) rfl rfl
    fun other hmem ↦ by
      rw [setCall_of_ne (hne other hmem)]
      exact ⟨rfl, rfl, rfl⟩
  refine ⟨hsound.calls_of_update rfl ?_ id (fun _ _ ↦ Iff.rfl) fun _ _ ↦ Iff.rfl, hsound.nodup,
    hsound.last, haccepted, hcut, fun sender hsend other hmem hsender ↦ ?_⟩
  · rw [hnew]
    exact ⟨Nat.zero_add _, fun _ ↦ rfl, iff_of_false id hholds,
      iff_of_false hnot fun hwait ↦ hwait trivial, False.elim, fun _ hret ↦ nomatch hret⟩
  · rw [setCall_of_ne (hne other hmem)]
    refine hsound.send sender ?_ other hmem hsender
    by_cases hindex : sender = index
    · rw [hindex, setCall_self, hnew] at hsend
      exact nomatch hsend
    · rwa [setCall_of_ne hindex] at hsend

/-- A call takes the lock. -/
theorem Sound.lock (hsound : stream.Sound) (hphase : (stream.calls index).phase = .sendLock)
    (hlock : stream.sendLock = none) :
    Sound { stream.setCall index { stream.calls index with phase := .loop } with
      sendLock := some index
      lockOrder := stream.lockOrder ++ [index] } := by
  have hcall := hsound.calls index
  have hwaiting : (stream.calls index).phase.Waiting := by
    rw [hphase]
    trivial
  have hpos := hcall.unsent hwaiting
  have hne : ∀ other ∈ stream.lockOrder, other ≠ index := fun _ ↦ hsound.ne_of_waiting hwaiting
  obtain ⟨call, hnew⟩ : ∃ call : SendCall, call = { stream.calls index with phase := .loop } :=
    ⟨_, rfl⟩
  rw [← hnew]
  have htaken : call.taken = [] := by
    rw [hnew, SendCall.taken]
    dsimp only
    rw [hpos, List.take_zero]
  obtain ⟨haccepted, hcut⟩ := hsound.stream_of_same (stream.setCall index call) rfl rfl
    fun other hmem ↦ by
      rw [setCall_of_ne (hne other hmem)]
      exact ⟨rfl, rfl, rfl⟩
  have hmem : ∀ other, other ∈ stream.lockOrder ++ [index] ↔
      other ∈ stream.lockOrder ∨ other = index := by simp
  refine ⟨hsound.calls_of_update rfl ?_ id ?_ ?_, ?_, ?_, ?_, ?_, ?_⟩
  · rw [hnew]
    exact ⟨hcall.sizes, False.elim, iff_of_true trivial rfl,
      iff_of_true ((hmem index).mpr (Or.inr rfl)) id, False.elim, fun _ hret ↦ nomatch hret⟩
  · intro other hne
    refine iff_of_false (fun hsome ↦ hne (Option.some.inj hsome).symm) ?_
    rw [hlock]
    exact (Option.some_ne_none other).symm
  · intro other hne
    exact (hmem other).trans (or_iff_left hne)
  · exact List.nodup_append.mpr ⟨hsound.nodup, List.nodup_singleton index,
      fun earlier hearlier later hlater ↦ by
        rw [List.mem_singleton.mp hlater]
        exact hne earlier hearlier⟩
  · intro holder hholder
    exact ⟨stream.lockOrder, by rw [Option.some.inj hholder]⟩
  · show stream.accepted = _
    rw [List.map_append, List.flatten_append, List.map_singleton, List.flatten_singleton]
    dsimp only
    rw [setCall_self, htaken, List.append_nil]
    exact haccepted
  · refine List.pairwise_append.mpr ⟨hcut, List.pairwise_singleton .., ?_⟩
    intro earlier _ later hlater
    rw [List.mem_singleton.mp hlater]
    refine Or.inr ?_
    dsimp only
    rw [setCall_self, hnew]
    exact hpos
  · intro sender hsend
    dsimp only at hsend
    by_cases hsender : sender = index
    · rw [hsender, setCall_self, hnew] at hsend
      exact nomatch hsend
    · rw [setCall_of_ne hsender] at hsend
      have hholds := (hsound.calls sender).holds
      rw [hlock, hsend] at hholds
      exact absurd (hholds.mp trivial) (Option.some_ne_none sender).symm

/-- Only the holder of the lock is in the loop. -/
theorem Sound.eq_of_holds (hsound : stream.Sound) {other : ℕ}
    (hholds : (stream.calls index).phase.Holds) (hother : (stream.calls other).phase.Holds) :
    other = index := by
  rw [(hsound.calls index).holds] at hholds
  rw [(hsound.calls other).holds, hholds] at hother
  exact (Option.some.inj hother).symm

/-- When the lock is held on a connected transport, the frames of the other calls that had it are
whole. -/
theorem Sound.len_eq_zero (hsound : stream.Sound) (hholds : (stream.calls index).phase.Holds)
    (hconnected : stream.state = .connected) {other : ℕ} (hmem : other ∈ stream.lockOrder)
    (hne : other ≠ index) : (stream.calls other).len = 0 := by
  have hcall := hsound.calls other
  have hnotWaiting := hcall.ordered.mp hmem
  have hnotHolds : ¬ (stream.calls other).phase.Holds :=
    fun hother ↦ hne (hsound.eq_of_holds hholds hother)
  exact (hcall.left (SendPhase.left_of_not hnotWaiting hnotHolds)).resolve_right
    fun hdisconnected ↦ hdisconnected hconnected

/-- A step of the loop. -/
theorem Sound.act (hsound : stream.Sound) {call : SendCall} {sent : ByteString} {closes : Bool}
    {state : TransportState} (hmoves : (stream.calls index).Moves stream.state call sent closes)
    (hstate : state = .connected → stream.state = .connected ∧ closes = false) :
    Sound { stream.setCall index call with
      state := state
      accepted := stream.accepted ++ sent } := by
  have hcall := hsound.calls index
  have hlock := hcall.holds.mp hmoves.holds
  obtain ⟨earlier, horder⟩ := hsound.last index hlock
  have hnodup := hsound.nodup
  rw [horder, List.nodup_append] at hnodup
  have hne : ∀ other ∈ earlier, other ≠ index :=
    fun other hmem ↦ hnodup.2.2 other hmem index List.mem_cons_self
  refine ⟨hsound.calls_of_update rfl ?_ (fun hconnected ↦ (hstate hconnected).1)
    (fun _ _ ↦ Iff.rfl) fun _ _ ↦ Iff.rfl, hsound.nodup, hsound.last, ?_, ?_, ?_⟩
  · refine ⟨hmoves.sizes, fun hwaiting ↦ ?_, ?_, ?_, fun hleft ↦ ?_, fun ret hret ↦ ?_⟩
    · exact absurd hwaiting (SendPhase.not_waiting_of_holds hmoves.holds_next)
    · exact iff_of_true hmoves.holds_next hlock
    · refine iff_of_true ?_ (SendPhase.not_waiting_of_holds hmoves.holds_next)
      show index ∈ stream.lockOrder
      rw [horder]
      exact List.mem_append_right earlier List.mem_cons_self
    · rcases hmoves.leave hleft with hlen | hdisconnected | hcloses
      · exact Or.inl hlen
      · exact Or.inr fun hconnected ↦ hdisconnected (hstate hconnected).1
      · refine Or.inr fun hconnected ↦ ?_
        rw [(hstate hconnected).2] at hcloses
        exact absurd hcloses (by decide)
    · have hholds := hmoves.holds_next
      rw [hret] at hholds
      exact hholds.elim
  · show stream.accepted ++ sent = _
    have hearlier : earlier.map (fun index ↦ (stream.calls index).taken) =
        earlier.map fun other ↦ ((stream.setCall index call).calls other).taken :=
      List.map_congr_left fun other hmem ↦ by rw [setCall_of_ne (hne other hmem)]
    have haccepted := hsound.accepted
    rw [horder, List.map_append, List.flatten_append, List.map_singleton,
      List.flatten_singleton] at haccepted
    rw [haccepted]
    show _ = ((stream.lockOrder.map fun other ↦
      ((stream.setCall index call).calls other).taken)).flatten
    rw [horder, List.map_append, List.flatten_append, List.map_singleton, List.flatten_singleton,
      setCall_self, hmoves.taken, ← hearlier, List.append_assoc]
  · have hcut := hsound.cut
    rw [horder, List.pairwise_append] at hcut
    show stream.lockOrder.Pairwise _
    rw [horder, List.pairwise_append]
    refine ⟨hcut.1.imp_of_mem fun hfirst hsecond hold ↦ ?_, List.pairwise_singleton ..,
      fun first hfirst second hsecond ↦ ?_⟩
    · dsimp only
      rw [setCall_of_ne (hne _ hfirst), setCall_of_ne (hne _ hsecond)]
      exact hold
    · rw [List.mem_singleton.mp hsecond]
      dsimp only
      rw [setCall_of_ne (hne first hfirst), setCall_self]
      by_cases hsend : (stream.calls index).phase = .send
      · refine Or.inl (hsound.send index hsend first ?_ (hne first hfirst))
        rw [horder]
        exact List.mem_append_left _ hfirst
      · rw [hmoves.pos hsend]
        exact hcut.2.2 first hfirst index List.mem_cons_self
  · intro sender hsend other hmem hsender
    have hindex : sender = index := by
      by_contra hne
      dsimp only at hsend
      rw [setCall_of_ne hne] at hsend
      refine hne (hsound.eq_of_holds hmoves.holds ?_)
      rw [hsend]
      trivial
    rw [hindex] at hsend hsender
    dsimp only at hsend
    rw [setCall_self] at hsend
    dsimp only
    rw [setCall_of_ne hsender]
    exact hsound.len_eq_zero hmoves.holds (hmoves.send hsend) hmem hsender

/-- A call returns. -/
theorem Sound.unlock (hsound : stream.Sound) (hphase : (stream.calls index).phase = .leave) :
    Sound { stream.setCall index { stream.calls index with
        phase := .returned (if (stream.calls index).len = 0 then 0 else -1) } with
      sendLock := none } := by
  have hcall := hsound.calls index
  have hholds : (stream.calls index).phase.Holds := by
    rw [hphase]
    trivial
  have hlock := hcall.holds.mp hholds
  obtain ⟨call, hnew⟩ : ∃ call : SendCall, call = { stream.calls index with
      phase := .returned (if (stream.calls index).len = 0 then 0 else -1) } := ⟨_, rfl⟩
  rw [← hnew]
  obtain ⟨haccepted, hcut⟩ := hsound.stream_of_same (stream.setCall index call) rfl rfl
    fun other _ ↦ by
      by_cases hindex : other = index
      · rw [hindex, setCall_self, hnew]
        exact ⟨rfl, rfl, rfl⟩
      · rw [setCall_of_ne hindex]
        exact ⟨rfl, rfl, rfl⟩
  refine ⟨hsound.calls_of_update rfl ?_ id ?_ fun _ _ ↦ Iff.rfl, hsound.nodup,
    (fun _ hholder ↦ nomatch hholder), haccepted, hcut, ?_⟩
  · rw [hnew]
    refine ⟨hcall.sizes, False.elim, iff_of_false id (by simp), iff_of_true ?_ id, fun _ ↦ ?_, ?_⟩
    · exact hcall.ordered.mpr (SendPhase.not_waiting_of_holds hholds)
    · exact hcall.left (by rw [hphase]; trivial)
    · intro ret hret
      obtain rfl := SendPhase.returned.inj hret
      dsimp only
      split_ifs with hlen
      · exact iff_of_true rfl hlen
      · exact iff_of_false (by decide) hlen
  · intro other hne
    refine iff_of_false (by simp) fun hholder ↦ hne ?_
    rw [hlock] at hholder
    exact (Option.some.inj hholder).symm
  · intro sender hsend
    dsimp only at hsend
    by_cases hsender : sender = index
    · rw [hsender, setCall_self, hnew] at hsend
      exact nomatch hsend
    · rw [setCall_of_ne hsender] at hsend
      refine absurd (hsound.eq_of_holds hholds ?_) hsender
      rw [hsend]
      trivial

/-- `Close` by the receiving side. -/
theorem Sound.close (hsound : stream.Sound) : stream.close.Sound := by
  obtain ⟨state, hstate, hclose⟩ := close_eq stream
  rw [hclose]
  exact ⟨fun index ↦ (hsound.calls index).of_same (fun hconnected ↦ absurd hconnected hstate)
    Iff.rfl Iff.rfl, hsound.nodup, hsound.last, hsound.accepted, hsound.cut, hsound.send⟩

/-- Every step keeps the stream in order. -/
theorem sound_step (stream : SendStream) (event : SendEvent) (next : SendStream)
    (hstep : stream.step event = some next) (hsound : stream.Sound) : next.Sound := by
  cases event with
  | sendData index pBuffer nTimeOut =>
    rw [step] at hstep
    split_ifs at hstep with hphase
    rw [← Option.some.inj hstep]
    exact hsound.sendData pBuffer nTimeOut hphase
  | lock index =>
    rw [step] at hstep
    split_ifs at hstep with hphase
    rw [← Option.some.inj hstep]
    exact hsound.lock hphase.1 hphase.2
  | act index action =>
    obtain ⟨⟨call, sent, closes⟩, hcall, rfl⟩ := Option.map_eq_some_iff.mp hstep
    have hmoves := SendCall.step_moves (hsound.calls index).sizes hcall
    cases closes with
    | false => exact hsound.act hmoves fun hconnected ↦ ⟨hconnected, rfl⟩
    | true =>
      obtain ⟨state, hstate, hclose⟩ :=
        close_eq { stream.setCall index call with accepted := stream.accepted ++ sent }
      show (close { stream.setCall index call with accepted := stream.accepted ++ sent }).Sound
      rw [hclose]
      exact hsound.act hmoves fun hconnected ↦ absurd hconnected hstate
  | unlock index =>
    by_cases hphase : (stream.calls index).phase = .leave
    · rw [step, if_pos hphase] at hstep
      rw [← Option.some.inj hstep]
      exact hsound.unlock hphase
    · rw [step, if_neg hphase] at hstep
      exact absurd hstep.symm (Option.some_ne_none next)
  | recvClose =>
    rw [← Option.some.inj hstep]
    exact hsound.close

/-- Every run of a connected transport keeps the stream in order. -/
theorem sound_run {events : List SendEvent} (hrun : sendSystem.run initial events = some stream) :
    stream.Sound :=
  EventSystem.run_invariant sound_step hrun sound_initial

/-! ### Whole frames -/

/-- The bytes accepted are the frames of the first calls that had the lock and a proper prefix of
the frame of the next one, and nothing of later frames. -/
structure WholeFrames (stream : SendStream) (complete cut : List ℕ) : Prop where
  order : stream.lockOrder = complete ++ cut
  accepted : stream.accepted =
    (complete.map fun index ↦ (stream.calls index).pBuffer).flatten ++
      (cut.head?.elim [] fun index ↦ (stream.calls index).taken)
  whole : ∀ index ∈ complete, (stream.calls index).taken = (stream.calls index).pBuffer
  proper : ∀ index ∈ cut.head?, (stream.calls index).taken ≠ (stream.calls index).pBuffer
  nothing : ∀ index ∈ cut.tail, (stream.calls index).taken = []

/-- A call that has returned is not changed, and nothing is sent when its frame was cut. -/
theorem step_of_returned {event : SendEvent} (hstep : stream.step event = some next)
    (hsound : stream.Sound) {ret : ℤ} (hreturned : (stream.calls index).phase = .returned ret) :
    next.calls index = stream.calls index ∧
      ((stream.calls index).len ≠ 0 → next.accepted = stream.accepted) := by
  have hne : ∀ {other : ℕ} {phase : SendPhase}, (stream.calls other).phase = phase →
      phase ≠ .returned ret → index ≠ other := by
    rintro other phase hphase hdifferent rfl
    exact hdifferent (hphase.symm.trans hreturned)
  cases event with
  | sendData other pBuffer nTimeOut =>
    rw [step] at hstep
    split_ifs at hstep with hphase
    rw [← Option.some.inj hstep]
    exact ⟨Function.update_of_ne (hne hphase (by simp)) .., fun _ ↦ rfl⟩
  | lock other =>
    rw [step] at hstep
    split_ifs at hstep with hphase
    rw [← Option.some.inj hstep]
    exact ⟨Function.update_of_ne (hne hphase.1 (by simp)) .., fun _ ↦ rfl⟩
  | act other action =>
    obtain ⟨⟨call, sent, closes⟩, hcall, hnext⟩ := Option.map_eq_some_iff.mp hstep
    have hmoves := SendCall.step_moves (hsound.calls other).sizes hcall
    have hindex : index ≠ other := by
      rintro rfl
      have hholds := hmoves.holds
      rw [hreturned] at hholds
      exact hholds
    have hsame : next.calls = Function.update stream.calls other call ∧
        next.accepted = stream.accepted ++ sent := by
      rw [← hnext]
      obtain ⟨state, -, hclose⟩ :=
        close_eq { stream.setCall other call with accepted := stream.accepted ++ sent }
      dsimp only
      rw [hclose]
      split <;> exact ⟨rfl, rfl⟩
    refine ⟨by rw [hsame.1, Function.update_of_ne hindex], fun hcut ↦ ?_⟩
    have hmem : index ∈ stream.lockOrder := by
      rw [(hsound.calls index).ordered, hreturned]
      exact id
    have hpos := hmoves.pos fun hsend ↦ hcut (hsound.send other hsend index hmem hindex)
    have htaken := hmoves.taken
    rw [SendCall.taken, SendCall.taken, hmoves.pBuffer, hpos, List.self_eq_append_right] at htaken
    rw [hsame.2, htaken, List.append_nil]
  | unlock other =>
    by_cases hphase : (stream.calls other).phase = .leave
    · rw [step, if_pos hphase] at hstep
      rw [← Option.some.inj hstep]
      exact ⟨Function.update_of_ne (hne hphase (by simp)) .., fun _ ↦ rfl⟩
    · rw [step, if_neg hphase] at hstep
      exact absurd hstep.symm (Option.some_ne_none next)
  | recvClose =>
    obtain ⟨state, -, hclose⟩ := close_eq stream
    rw [← Option.some.inj hstep, hclose]
    exact ⟨rfl, fun _ ↦ rfl⟩

/-- The frame of a call is accepted as a whole exactly when no bytes of it are left. -/
theorem Sound.taken_eq_iff (hsound : stream.Sound) (index : ℕ) :
    (stream.calls index).taken = (stream.calls index).pBuffer ↔ (stream.calls index).len = 0 := by
  have hsizes := (hsound.calls index).sizes
  rw [SendCall.taken, List.take_eq_self_iff]
  omega

/-- A stream in order is made of whole frames and a part of one. -/
theorem Sound.wholeFrames (hsound : stream.Sound) :
    ∃ complete cut, stream.WholeFrames complete cut := by
  obtain ⟨complete, cut, horder, hcomplete, hhead⟩ : ∃ complete cut,
      stream.lockOrder = complete ++ cut ∧
        (∀ index ∈ complete, (stream.calls index).len = 0) ∧
          ∀ index ∈ cut.head?, (stream.calls index).len ≠ 0 := by
    obtain ⟨whole, hwhole⟩ : ∃ whole : ℕ → Bool,
        whole = fun index ↦ decide ((stream.calls index).len = 0) := ⟨_, rfl⟩
    refine ⟨stream.lockOrder.takeWhile whole, stream.lockOrder.dropWhile whole,
      List.takeWhile_append_dropWhile.symm, fun index hmem ↦ ?_, fun index hmem ↦ ?_⟩
    · have hlen := List.mem_takeWhile_imp hmem
      rw [hwhole] at hlen
      exact of_decide_eq_true hlen
    · have hlen := List.head?_dropWhile_not whole stream.lockOrder
      rw [Option.mem_def.mp hmem, hwhole] at hlen
      exact of_decide_eq_false hlen
  have hwhole : ∀ index ∈ complete, (stream.calls index).taken = (stream.calls index).pBuffer :=
    fun index hmem ↦ (hsound.taken_eq_iff index).mpr (hcomplete index hmem)
  have hcut := hsound.cut
  rw [horder, List.pairwise_append] at hcut
  have hnothing : ∀ index ∈ cut.tail, (stream.calls index).taken = [] := by
    cases cut with
    | nil => exact fun index hmem ↦ absurd hmem List.not_mem_nil
    | cons first rest =>
      intro index hmem
      have hpos := ((List.pairwise_cons.mp hcut.2.1).1 index hmem).resolve_left (hhead first rfl)
      rw [SendCall.taken, hpos, List.take_zero]
  refine ⟨complete, cut, horder, ?_, hwhole,
    fun index hmem ↦ mt (hsound.taken_eq_iff index).mp (hhead index hmem), hnothing⟩
  have hframes : complete.map (fun index ↦ (stream.calls index).taken) =
      complete.map fun index ↦ (stream.calls index).pBuffer := List.map_congr_left hwhole
  rw [hsound.accepted, horder, List.map_append, List.flatten_append, hframes]
  congr 1
  cases cut with
  | nil => rfl
  | cons first rest =>
    have hrest : (rest.map fun index ↦ (stream.calls index).taken).flatten = [] := by
      rw [List.flatten_eq_nil_iff]
      exact List.forall_mem_map.mpr hnothing
    rw [List.map_cons, List.flatten_cons, hrest, List.append_nil]
    rfl

/-- The bytes accepted by the socket are whole frames in the order of the lock and a proper prefix
of at most one more; a call returns zero exactly when its whole frame was accepted, and nothing is
sent after a call that returned something else. -/
theorem whole_frames_sent {events : List SendEvent}
    (hrun : sendSystem.run initial events = some stream) :
    (∃ complete cut, stream.WholeFrames complete cut) ∧
      ∀ index ret, (stream.calls index).phase = .returned ret →
        index ∈ stream.lockOrder ∧
          (ret = 0 ↔ (stream.calls index).taken = (stream.calls index).pBuffer) ∧
            (ret ≠ 0 → ∀ more last, sendSystem.run stream more = some last →
              last.accepted = stream.accepted) := by
  have hsound := sound_run hrun
  refine ⟨hsound.wholeFrames, fun index ret hreturned ↦ ?_⟩
  have hcall := hsound.calls index
  have hret := hcall.returned ret hreturned
  refine ⟨hcall.ordered.mpr (by rw [hreturned]; exact id),
    hret.trans (hsound.taken_eq_iff index).symm, fun hcut more last hmore ↦ ?_⟩
  have hkept := EventSystem.run_invariant
    (fun before event after hstep (hkept : before.Sound ∧
      before.calls index = stream.calls index ∧ before.accepted = stream.accepted) ↦ by
        obtain ⟨hbefore, hsame, haccepted⟩ := hkept
        obtain ⟨hcalls, hquiet⟩ := step_of_returned hstep hbefore (hsame ▸ hreturned)
        refine ⟨sound_step before event after hstep hbefore, hcalls.trans hsame,
          (hquiet ?_).trans haccepted⟩
        rw [hsame]
        exact mt hret.mpr hcut) hmore ⟨hsound, rfl, rfl⟩
  exact hkept.2.2

/-- Three calls: the first frame is accepted in two pieces, two of the three bytes of the second one
are accepted before `send` fails, and the third call finds the transport closed. -/
def cutEvents : List SendEvent :=
  [.sendData 0 [8, 9] 3000, .sendData 1 [1, 2, 3] 3000, .sendData 2 [4] 3000, .lock 0,
    .act 0 .check, .act 0 (.send (.accepted 1)), .act 0 .check, .act 0 (.send (.accepted 1)),
    .act 0 .check, .unlock 0, .lock 1, .act 1 .check, .act 1 (.send (.accepted 2)), .act 1 .check,
    .act 1 (.send .wouldBlock), .act 1 (.select (.returned true)), .act 1 .check,
    .act 1 (.send .failed), .act 1 .close, .unlock 1, .lock 2, .act 2 .check, .unlock 2]

/-- The first call returns zero and its whole frame was accepted, and after the second one the
socket accepts nothing more. -/
theorem whole_frames_sent_of_cut : ∃ stream, sendSystem.run initial cutEvents = some stream ∧
    stream.lockOrder = [0, 1, 2] ∧ stream.accepted = [8, 9, 1, 2] ∧
      (∃ complete cut, stream.WholeFrames complete cut) ∧
        (stream.calls 0).taken = [8, 9] ∧ (stream.calls 1).taken ≠ [1, 2, 3] ∧
          ∀ more last, sendSystem.run stream more = some last →
            last.accepted = [8, 9, 1, 2] := by
  obtain ⟨stream, hrun, horder, haccepted, hfirst, hsecond, hframe, hcut⟩ : ∃ stream,
      sendSystem.run initial cutEvents = some stream ∧ stream.lockOrder = [0, 1, 2] ∧
        stream.accepted = [8, 9, 1, 2] ∧ (stream.calls 0).phase = .returned 0 ∧
        (stream.calls 1).phase = .returned (-1) ∧ (stream.calls 0).pBuffer = [8, 9] ∧
        (stream.calls 1).pBuffer = [1, 2, 3] := ⟨_, rfl, rfl, rfl, rfl, rfl, rfl, rfl⟩
  obtain ⟨hframes, hreturned⟩ := whole_frames_sent hrun
  obtain ⟨-, hwhole, -⟩ := hreturned 0 0 hfirst
  obtain ⟨-, hpart, hquiet⟩ := hreturned 1 (-1) hsecond
  refine ⟨stream, hrun, horder, haccepted, hframes, ?_, ?_, fun more last hmore ↦ ?_⟩
  · rw [hwhole.mp rfl, hframe]
  · rw [← hcut]
    exact mt hpart.mpr (by decide)
  · rw [hquiet (by decide) more last hmore, haccepted]

end SendStream

end RocketMQClient.Transport
