import Mathlib.Tactic.Common
import RocketMQClient.Library.EventSystem
import RocketMQClient.Library.Registry

/-!
# Response futures

`invokeSyncImpl` and `invokeAsyncImpl` put a `ResponseFuture` into `m_responseTable` under the
opaque of their request and send the request. Three parties share the future: the caller, the worker
that processes the response frame, and the event loop in `HandleTimerEvent`. A worker or the event
loop first takes the entry out of the table, under `m_mutexResp`, and goes on with the address; it
is the holder of the future until it has finished with it. The steps between two locks are steps of
their own, so that other threads can run in between; the event loop lets go of the lock after every
entry here, which allows more interleavings than the code has.

Two exits leave a future behind. `MakeCustomHeader` may throw when the entry of the response is out
of the table, and `ProcessDataWork::Do` swallows the exception. And a callback may throw, which
skips the release behind it.

A command is known by its opaque. A future counts its deletions, records what each run of
`operationComplete` saw, and notes an access after its deletion; `damaged` notes an
`erase(end())` of the table. Requests have distinct opaques, as the counter of `RemotingCommand`
gives them.

`Maintained.step` reduces an invariant of the system to what each step does to one call.
-/

set_option autoImplicit false
set_option relaxedAutoImplicit false

namespace RocketMQClient.Transport

open Library

/-- A `ResponseFuture`. One with `block` has a monitor and no callback, one without has a callback
and no monitor. The last three fields are the history of the object. -/
structure ResponseFuture where
  opaqueId : ℤ
  timeoutMillis : ℤ
  beginTimestamp : ℤ
  block : Bool
  sendRequestOK : Bool
  responseCommand : Option ℤ
  notifyFlag : Bool
  exec : ℕ
  callbacks : List (Option ℤ)
  deletions : ℕ
  misused : Bool
  deriving DecidableEq, Repr

namespace ResponseFuture

/-- The constructor. -/
def new (opaqueId timeoutMillis now : ℤ) (block : Bool) : ResponseFuture where
  opaqueId := opaqueId
  timeoutMillis := timeoutMillis
  beginTimestamp := now
  block := block
  sendRequestOK := false
  responseCommand := none
  notifyFlag := false
  exec := 0
  callbacks := []
  deletions := 0
  misused := false

/-- Any access to the object. -/
def access (future : ResponseFuture) : ResponseFuture :=
  { future with misused := future.misused || decide (0 < future.deletions) }

/-- The flag the caller sets when `SendCmd` has returned. -/
def setSendRequestOK (future : ResponseFuture) (sendRequestOK : Bool) : ResponseFuture :=
  { future.access with sendRequestOK := sendRequestOK }

/-- `m_exec++ == 0` guards the callback. -/
def executeInvokeCallback (future : ResponseFuture) : ResponseFuture :=
  if future.block then future.access
  else { future.access with
    exec := future.exec + 1
    callbacks := if future.exec = 0 then future.callbacks ++ [future.responseCommand]
      else future.callbacks }

/-- Whether the call has waited longer than its time-out. -/
def isTimeout (future : ResponseFuture) (now : ℤ) : Bool :=
  decide (now - future.beginTimestamp > future.timeoutMillis)

/-- The first half of `putResponse`. -/
def setResponseCommand (future : ResponseFuture) (response : Option ℤ) : ResponseFuture :=
  { future.access with responseCommand := response }

/-- The second half of `putResponse`, inside the monitor. -/
def notify (future : ResponseFuture) : ResponseFuture :=
  { future.access with notifyFlag := true }

/-- The release of the object. -/
def delete (future : ResponseFuture) : ResponseFuture :=
  { future.access with deletions := future.deletions + 1 }

end ResponseFuture

/-- Where the caller of `invokeSyncImpl` or `invokeAsyncImpl` is. -/
inductive CallerPhase where
  /-- Inside `SendCmd`. -/
  | sending
  | returned (ok : Bool)
  /-- The send has failed and the entry is still to be erased. -/
  | failing
  | erased
  /-- The callback of the failed call has been run. -/
  | executed
  /-- Inside `waitResponse`. -/
  | waiting
  /-- `waitResponse` has returned a response. -/
  | answered
  | finished
  deriving DecidableEq, Repr

/-- Where the thread that took the entry out of the table is. -/
inductive HolderPhase where
  | idle
  /-- The entry is out of the table, `putResponse` is next. -/
  | took (response : Option ℤ)
  /-- `m_pResponseCommand` is set. -/
  | stored (response : Option ℤ)
  /-- The event loop has notified a waiter and asks for the callback. -/
  | checking
  /-- The callback has been run. -/
  | called
  deriving DecidableEq, Repr

/-- A future with the threads that use it. -/
structure Call where
  future : ResponseFuture
  caller : CallerPhase
  holder : HolderPhase
  deriving DecidableEq, Repr

/-- The steps of the threads on a future they have the address of. -/
inductive CallStep where
  | sendCmd (ok : Bool)
  | setSendRequestOK
  | eraseEntry
  | callerExecutes (throws : Bool)
  | waitResponse
  | callerDeletes
  /-- `MakeCustomHeader` throws. -/
  | headerThrows
  | putResponse
  | notify
  | getInvokeCallback
  | holderExecutes (throws : Bool)
  | holderDeletes
  deriving DecidableEq, Repr

namespace Call

/-- The key of a call in the table. -/
def opaqueId (call : Call) : ℤ := call.future.opaqueId

/-- A call whose future has just been inserted. -/
def new (opaqueId timeoutMillis now : ℤ) (block : Bool) : Call :=
  ⟨ResponseFuture.new opaqueId timeoutMillis now block, .sending, .idle⟩

/-- A worker or the event loop takes the entry out of the table. -/
def take (call : Call) (response : Option ℤ) : Call :=
  { call with future := call.future.access, holder := .took response }

/-- What a step does to a call. `eraseEntry` is the caller's part of it; `waitResponse` may return
at any time, with what `m_pResponseCommand` is then. A callback that throws ends the code that runs
it. -/
def advance (call : Call) : CallStep → Option Call
  | .sendCmd ok =>
    if call.caller = .sending then some { call with caller := .returned ok } else none
  | .setSendRequestOK =>
    match call.caller with
    | .returned true => some { call with
        future := call.future.setSendRequestOK true
        caller := if call.future.block then .waiting else .finished }
    | .returned false => some { call with
        future := call.future.setSendRequestOK false
        caller := .failing }
    | _ => none
  | .eraseEntry => if call.caller = .failing then some { call with caller := .erased } else none
  | .callerExecutes throws =>
    if call.caller = .erased ∧ call.future.block = false then
      some { call with
        future := call.future.executeInvokeCallback
        caller := if throws then .finished else .executed }
    else none
  | .waitResponse =>
    if call.caller = .waiting then
      some { call with
        future := call.future.access
        caller := if call.future.responseCommand.isSome then .answered else .finished }
    else none
  | .callerDeletes =>
    if call.caller = .executed ∨ call.caller = .answered ∨
        call.caller = .erased ∧ call.future.block = true then
      some { call with future := call.future.delete, caller := .finished }
    else none
  | .headerThrows =>
    match call.holder with
    | .took (some _) => some { call with holder := .idle }
    | _ => none
  | .putResponse =>
    match call.holder with
    | .took response => some { call with
        future := call.future.setResponseCommand response
        holder := .stored response }
    | _ => none
  | .notify =>
    match call.holder with
    | .stored response =>
      if call.future.block then
        some { call with
          future := call.future.notify
          holder := if response.isSome then .idle else .checking }
      else none
    | _ => none
  | .getInvokeCallback =>
    if call.holder = .checking then
      some { call with future := call.future.access, holder := .idle }
    else none
  | .holderExecutes throws =>
    match call.holder with
    | .stored _ =>
      if call.future.block then none
      else some { call with
        future := call.future.executeInvokeCallback
        holder := if throws then .idle else .called }
    | _ => none
  | .holderDeletes =>
    if call.holder = .called then
      some { call with future := call.future.delete, holder := .idle }
    else none

end Call

/-! ### The event system -/

/-- `m_responseTable` with the calls made so far, and whether the table was damaged. -/
structure RemotingState where
  responses : Registry ℤ Call
  damaged : Bool

/-- A new call, a step of a thread on a call, the locked part of `ProcessData` for a response frame,
and one round of the loop of `HandleTimerEvent`. -/
inductive RemotingEvent where
  | invoke (opaqueId timeoutMillis now : ℤ) (block : Bool)
  | thread (address : ℕ) (step : CallStep)
  | processData (opaqueId : ℤ)
  | handleTimerEvent (opaqueId now : ℤ)

namespace RemotingState

/-- No call has been made. -/
def initial : RemotingState := ⟨Registry.empty, false⟩

/-- The entry of an opaque, with the call it leads to. -/
def find (state : RemotingState) (opaqueId : ℤ) : Option (ℕ × Call) :=
  (state.responses.table.find? opaqueId).bind fun address ↦
    (state.responses.objects[address]?).map fun call ↦ (address, call)

/-- A call moves on. -/
def replace (state : RemotingState) (address : ℕ) (call : Call) : RemotingState :=
  { state with responses := state.responses.replace address call }

/-- A call moves on and its entry is erased. -/
def withdraw (state : RemotingState) (address : ℕ) (call : Call) : RemotingState :=
  { state with responses := (state.responses.replace address call).withdraw call.opaqueId }

/-- The locked part of the failure paths: `invokeSyncImpl` looks whether `find` found the entry,
`invokeAsyncImpl` erases what `find` returned. -/
def eraseEntry (state : RemotingState) (address : ℕ) (call : Call) : RemotingState :=
  if call.opaqueId ∈ state.responses.table then state.withdraw address call
  else if call.future.block then state.replace address call
  else { state.replace address call with damaged := true }

/-- One step. -/
def step (state : RemotingState) : RemotingEvent → Option RemotingState
  | .invoke opaqueId timeoutMillis now block =>
    if ∃ call ∈ state.responses.objects, call.opaqueId = opaqueId then none
    else some { state with responses :=
      state.responses.enter opaqueId (Call.new opaqueId timeoutMillis now block) }
  | .thread address step =>
    (state.responses.objects[address]?).bind fun call ↦
      (call.advance step).map fun next ↦
        if step = .eraseEntry then state.eraseEntry address next else state.replace address next
  | .processData opaqueId =>
    match state.find opaqueId with
    | none => some state
    | some (address, call) => some (state.withdraw address (call.take (some opaqueId)))
  | .handleTimerEvent opaqueId now =>
    (state.find opaqueId).map fun entry ↦
      if entry.2.future.isTimeout now then state.withdraw entry.1 (entry.2.take none)
      else state.replace entry.1 { entry.2 with future := entry.2.future.access }

/-- The opaque whose call an event is about. -/
def subject (state : RemotingState) : RemotingEvent → Option ℤ
  | .invoke opaqueId _ _ _ => some opaqueId
  | .thread address _ => (state.responses.objects[address]?).map Call.opaqueId
  | .processData opaqueId => some opaqueId
  | .handleTimerEvent opaqueId _ => some opaqueId

/-- A condition on the steps of threads, given whether the entry of the call is in the table. -/
def Meets (good : Bool → CallStep → Call → Bool) (state : RemotingState) (event : RemotingEvent) :
    Prop :=
  match event with
  | .thread address step => (state.responses.objects[address]?).all fun call ↦
      good (decide (call.opaqueId ∈ state.responses.table)) step call
  | _ => True

instance (good : Bool → CallStep → Call → Bool) (state : RemotingState) (event : RemotingEvent) :
    Decidable (state.Meets good event) :=
  match event with
  | .thread _ _ => inferInstanceAs (Decidable (_ = true))
  | .invoke _ _ _ _ => isTrue trivial
  | .processData _ => isTrue trivial
  | .handleTimerEvent _ _ => isTrue trivial

end RemotingState

/-- The remoting client as an event system. -/
def remotingSystem : EventSystem RemotingState RemotingEvent := ⟨RemotingState.step⟩

/-! ### One call at a time -/

/-- The steps other than the erase of the failure paths leave the entry of a call alone. -/
theorem CallStep.keeps_entry (registered : Bool) {step : CallStep} (hstep : step ≠ .eraseEntry) :
    (registered && step != .eraseEntry) = registered := by
  rw [bne_iff_ne.mpr hstep, Bool.and_true]

namespace Call

variable {call next : Call}

theorem advance_setSendRequestOK (hadvance : call.advance .setSendRequestOK = some next) :
    ∃ ok, call.caller = .returned ok ∧ next = { call with
      future := call.future.setSendRequestOK ok
      caller := if ok then if call.future.block then .waiting else .finished else .failing } := by
  simp only [advance] at hadvance
  split at hadvance
  · rename_i hcaller
    exact ⟨true, hcaller, (Option.some.inj hadvance).symm⟩
  · rename_i hcaller
    exact ⟨false, hcaller, (Option.some.inj hadvance).symm⟩
  · exact absurd hadvance (Option.some_ne_none next).symm

theorem advance_putResponse (hadvance : call.advance .putResponse = some next) :
    ∃ response, call.holder = .took response ∧ next = { call with
      future := call.future.setResponseCommand response
      holder := .stored response } := by
  simp only [advance] at hadvance
  split at hadvance
  · rename_i response hholder
    exact ⟨response, hholder, (Option.some.inj hadvance).symm⟩
  · exact absurd hadvance (Option.some_ne_none next).symm

theorem advance_notify (hadvance : call.advance .notify = some next) :
    ∃ response, call.holder = .stored response ∧ call.future.block = true ∧ next = { call with
      future := call.future.notify
      holder := if response.isSome then .idle else .checking } := by
  simp only [advance] at hadvance
  split at hadvance
  · rename_i response hholder
    obtain ⟨hblock, rfl⟩ := Option.ite_some_none_eq_some.mp hadvance
    exact ⟨response, hholder, hblock, rfl⟩
  · exact absurd hadvance (Option.some_ne_none next).symm

theorem advance_headerThrows (hadvance : call.advance .headerThrows = some next) :
    ∃ response, call.holder = .took (some response) ∧ next = { call with holder := .idle } := by
  simp only [advance] at hadvance
  split at hadvance
  · rename_i response hholder
    exact ⟨response, hholder, (Option.some.inj hadvance).symm⟩
  · exact absurd hadvance (Option.some_ne_none next).symm

theorem advance_holderExecutes {throws : Bool}
    (hadvance : call.advance (.holderExecutes throws) = some next) :
    ∃ response, call.holder = .stored response ∧ call.future.block = false ∧ next = { call with
      future := call.future.executeInvokeCallback
      holder := if throws then .idle else .called } := by
  simp only [advance] at hadvance
  split at hadvance
  · rename_i response hholder
    obtain ⟨hblock, hsome⟩ := Option.ite_none_left_eq_some.mp hadvance
    exact ⟨response, hholder, Bool.eq_false_of_not_eq_true hblock, (Option.some.inj hsome).symm⟩
  · exact absurd hadvance (Option.some_ne_none next).symm

end Call

theorem ResponseFuture.executeInvokeCallback_opaqueId (future : ResponseFuture) :
    future.executeInvokeCallback.opaqueId = future.opaqueId := by
  rw [executeInvokeCallback]
  split <;> rfl

theorem ResponseFuture.executeInvokeCallback_block (future : ResponseFuture) :
    future.executeInvokeCallback.block = future.block := by
  rw [executeInvokeCallback]
  split <;> rfl

/-- No step changes the opaque of a call or whether it is synchronous. -/
theorem Call.advance_future {call next : Call} {step : CallStep}
    (hadvance : call.advance step = some next) :
    next.future.opaqueId = call.future.opaqueId ∧ next.future.block = call.future.block := by
  have hexecute := call.future.executeInvokeCallback_opaqueId
  have hblock := call.future.executeInvokeCallback_block
  cases step <;> simp only [Call.advance] at hadvance <;> split at hadvance <;>
    first
      | exact absurd hadvance (Option.some_ne_none next).symm
      | (obtain rfl := Option.some.inj hadvance
         first | exact ⟨rfl, rfl⟩ | exact ⟨hexecute, hblock⟩)
      | (split at hadvance
         all_goals first
           | exact absurd hadvance (Option.some_ne_none next).symm
           | (obtain rfl := Option.some.inj hadvance
              first | exact ⟨rfl, rfl⟩ | exact ⟨hexecute, hblock⟩))

theorem Call.advance_opaqueId {call next : Call} {step : CallStep}
    (hadvance : call.advance step = some next) : next.opaqueId = call.opaqueId :=
  (Call.advance_future hadvance).1

theorem Call.advance_block {call next : Call} {step : CallStep}
    (hadvance : call.advance step = some next) : next.future.block = call.future.block :=
  (Call.advance_future hadvance).2

namespace RemotingState

theorem find_eq_some {state : RemotingState} {opaqueId : ℤ} {address : ℕ} {call : Call}
    (hfind : state.find opaqueId = some (address, call)) :
    state.responses.table.find? opaqueId = some address ∧
      state.responses.objects[address]? = some call := by
  obtain ⟨found, htable, hobject⟩ := Option.bind_eq_some_iff.mp hfind
  obtain ⟨object, hget, hpair⟩ := Option.map_eq_some_iff.mp hobject
  obtain ⟨rfl, rfl⟩ := Prod.mk.inj hpair
  exact ⟨htable, hget⟩

end RemotingState

/-- A property of calls that new calls have, and that the steps of threads that meet a condition,
the removal of an entry and a look at an entry preserve. -/
structure Maintained (good : Bool → CallStep → Call → Bool) (property : Bool → Call → Prop) :
    Prop where
  new : ∀ opaqueId timeoutMillis now block,
    property true (Call.new opaqueId timeoutMillis now block)
  advance : ∀ registered step call next, good registered step call = true →
    call.advance step = some next → property registered call →
    property (registered && step != .eraseEntry) next
  take : ∀ call response, response = none ∨ response = some call.opaqueId → property true call →
    property false (call.take response)
  access : ∀ call, property true call →
    property true { call with future := call.future.access }

namespace Maintained

variable {good : Bool → CallStep → Call → Bool} {property : Bool → Call → Prop}
variable {state next : RemotingState} {event : RemotingEvent}

/-- An entry that is found belongs to a registered call with the property. -/
theorem of_find {opaqueId : ℤ} {address : ℕ} {call : Call}
    (hholds : state.responses.Holds Call.opaqueId property)
    (hfind : state.find opaqueId = some (address, call)) :
    state.responses.objects[address]? = some call ∧ call.opaqueId = opaqueId ∧
      decide (call.opaqueId ∈ state.responses.table) = true ∧ property true call := by
  obtain ⟨htable, hget⟩ := RemotingState.find_eq_some hfind
  obtain ⟨object, hobject, hkey⟩ := hholds.sound opaqueId address htable
  obtain rfl := Option.some.inj (hget.symm.trans hobject)
  have hmem : decide (call.opaqueId ∈ state.responses.table) = true :=
    decide_eq_true (hkey.symm ▸ OrderedMap.key_mem (OrderedMap.find?_eq_some.mp htable))
  have heach := hholds.each address call hget
  rw [hmem] at heach
  exact ⟨hget, hkey, hmem, heach⟩

/-- The steps of threads. -/
theorem thread (hmaintained : Maintained good property) {address : ℕ} {step : CallStep}
    {call moved : Call} (hgood : state.Meets good (.thread address step))
    (hget : state.responses.objects[address]? = some call)
    (hadvance : call.advance step = some moved)
    (hholds : state.responses.Holds Call.opaqueId property) :
    (if step = .eraseEntry then state.eraseEntry address moved
      else state.replace address moved).responses.Holds Call.opaqueId property := by
  have hkey := Call.advance_opaqueId hadvance
  rw [RemotingState.Meets, hget, Option.all_some] at hgood
  have hmoved := hmaintained.advance _ step call moved hgood hadvance
    (hholds.each address call hget)
  by_cases herase : step = .eraseEntry
  · rw [if_pos herase, RemotingState.eraseEntry]
    have hfalse : property false moved := by
      simpa [herase] using hmoved
    split
    · rw [RemotingState.withdraw, hkey]
      exact hholds.withdraw hget hkey hfalse
    · rename_i habsent
      have hreplace : (state.replace address moved).responses.Holds Call.opaqueId property := by
        refine hholds.replace hget hkey ?_
        rw [← hkey, decide_eq_false habsent]
        exact hfalse
      split
      · exact hreplace
      · exact hreplace
  · rw [if_neg herase]
    rw [CallStep.keeps_entry _ herase] at hmoved
    exact hholds.replace hget hkey hmoved

/-- The removal of an entry that was found. -/
theorem take_found (hmaintained : Maintained good property) {opaqueId : ℤ} {address : ℕ}
    {call : Call} {response : Option ℤ} (hholds : state.responses.Holds Call.opaqueId property)
    (hfind : state.find opaqueId = some (address, call))
    (hresponse : response = none ∨ response = some opaqueId) :
    (state.withdraw address (call.take response)).responses.Holds Call.opaqueId property := by
  obtain ⟨hget, hkey, -, hproperty⟩ := of_find hholds hfind
  rw [RemotingState.withdraw, show (call.take response).opaqueId = call.opaqueId from rfl]
  exact hholds.withdraw hget rfl (hmaintained.take call response (hkey.symm ▸ hresponse) hproperty)

/-- Every step that meets the condition keeps the property of every call. -/
theorem step (hmaintained : Maintained good property) (hgood : state.Meets good event)
    (hstep : remotingSystem.step state event = some next)
    (hholds : state.responses.Holds Call.opaqueId property) :
    next.responses.Holds Call.opaqueId property := by
  cases event with
  | invoke opaqueId timeoutMillis now block =>
    simp only [remotingSystem, RemotingState.step] at hstep
    split at hstep
    · exact absurd hstep (Option.some_ne_none next).symm
    · rename_i hfresh
      obtain rfl := Option.some.inj hstep
      have hdistinct : ∀ earlier ∈ state.responses.objects,
          earlier.opaqueId ≠ (Call.new opaqueId timeoutMillis now block).opaqueId :=
        fun earlier hearlier hkey ↦ hfresh ⟨earlier, hearlier, hkey⟩
      exact hholds.enter hdistinct (hmaintained.new opaqueId timeoutMillis now block)
  | thread address step =>
    obtain ⟨call, hget, hcall⟩ := Option.bind_eq_some_iff.mp hstep
    obtain ⟨moved, hadvance, rfl⟩ := Option.map_eq_some_iff.mp hcall
    exact hmaintained.thread hgood hget hadvance hholds
  | processData opaqueId =>
    simp only [remotingSystem, RemotingState.step] at hstep
    split at hstep
    · exact Option.some.inj hstep ▸ hholds
    · rename_i address call hfind
      obtain rfl := Option.some.inj hstep
      exact hmaintained.take_found hholds hfind (Or.inr rfl)
  | handleTimerEvent opaqueId now =>
    obtain ⟨⟨address, call⟩, hfind, rfl⟩ := Option.map_eq_some_iff.mp hstep
    split
    · exact hmaintained.take_found hholds hfind (Or.inl rfl)
    · obtain ⟨hget, -, hmem, hproperty⟩ := of_find hholds hfind
      refine hholds.replace hget rfl ?_
      rw [hmem]
      exact hmaintained.access call hproperty

/-- In every run whose steps meet the condition every call has the property. -/
theorem run (hmaintained : Maintained good property) {events : List RemotingEvent}
    {last : RemotingState}
    (halong : remotingSystem.Along (RemotingState.Meets good) RemotingState.initial events)
    (hrun : remotingSystem.run RemotingState.initial events = some last) :
    last.responses.Holds Call.opaqueId property :=
  EventSystem.run_invariant_of_along
    (fun _ _ _ hgood hstep hholds ↦ hmaintained.step hgood hstep hholds) halong hrun
    Registry.Holds.of_empty

end Maintained

/-! ### What one call's steps leave alone -/

/-- A step changes the entry of no other call. -/
theorem RemotingState.step_other {property : Bool → Call → Prop} {state next : RemotingState}
    {event : RemotingEvent} (hholds : state.responses.Holds Call.opaqueId property)
    (hstep : remotingSystem.step state event = some next) {other : ℤ}
    (hother : state.subject event ≠ some other) :
    next.responses.table.find? other = state.responses.table.find? other := by
  cases event with
  | invoke opaqueId timeoutMillis now block =>
    simp only [remotingSystem, RemotingState.step] at hstep
    split at hstep
    · exact absurd hstep (Option.some_ne_none next).symm
    · obtain rfl := Option.some.inj hstep
      have hne : other ≠ opaqueId := fun heq ↦ hother (congrArg some heq.symm)
      simp only [Registry.enter]
      split
      · rfl
      · exact OrderedMap.find?_assign_of_ne _ _ hne
  | thread address step =>
    obtain ⟨call, hget, hcall⟩ := Option.bind_eq_some_iff.mp hstep
    obtain ⟨moved, hadvance, rfl⟩ := Option.map_eq_some_iff.mp hcall
    rw [RemotingState.subject, hget, Option.map_some, ← Call.advance_opaqueId hadvance] at hother
    have hne : other ≠ moved.opaqueId := fun heq ↦ hother (congrArg some heq.symm)
    split
    · rw [RemotingState.eraseEntry]
      split
      · exact OrderedMap.find?_erase_of_ne _ hne
      · split
        · rfl
        · rfl
    · rfl
  | processData opaqueId =>
    simp only [remotingSystem, RemotingState.step] at hstep
    split at hstep
    · rw [Option.some.inj hstep]
    · rename_i address call hfind
      obtain rfl := Option.some.inj hstep
      have hkey := (Maintained.of_find hholds hfind).2.1
      have hne : other ≠ call.opaqueId := fun heq ↦ hother (congrArg some (heq.trans hkey).symm)
      exact OrderedMap.find?_erase_of_ne _ hne
  | handleTimerEvent opaqueId now =>
    obtain ⟨⟨address, call⟩, hfind, rfl⟩ := Option.map_eq_some_iff.mp hstep
    have hkey := (Maintained.of_find hholds hfind).2.1
    have hne : other ≠ call.opaqueId := fun heq ↦ hother (congrArg some (heq.trans hkey).symm)
    split
    · exact OrderedMap.find?_erase_of_ne _ hne
    · rfl

/-- The table is damaged only by an erase of the failure path of `invokeAsyncImpl`. -/
theorem RemotingState.step_damaged {good : Bool → CallStep → Call → Bool}
    (herase : ∀ call, good false .eraseEntry call = true → call.future.block = true)
    {state next : RemotingState} {event : RemotingEvent} (hgood : state.Meets good event)
    (hstep : remotingSystem.step state event = some next) (hsound : state.damaged = false) :
    next.damaged = false := by
  cases event with
  | invoke opaqueId timeoutMillis now block =>
    simp only [remotingSystem, RemotingState.step] at hstep
    split at hstep
    · exact absurd hstep (Option.some_ne_none next).symm
    · exact Option.some.inj hstep ▸ hsound
  | thread address step =>
    obtain ⟨call, hget, hcall⟩ := Option.bind_eq_some_iff.mp hstep
    obtain ⟨moved, hadvance, rfl⟩ := Option.map_eq_some_iff.mp hcall
    rw [RemotingState.Meets, hget, Option.all_some] at hgood
    split
    · rename_i hsame
      subst hsame
      rw [RemotingState.eraseEntry]
      split
      · exact hsound
      · rename_i habsent
        rw [Call.advance_opaqueId hadvance] at habsent
        rw [decide_eq_false habsent] at hgood
        rw [if_pos ((Call.advance_block hadvance).trans (herase call hgood))]
        exact hsound
    · exact hsound
  | processData opaqueId =>
    simp only [remotingSystem, RemotingState.step] at hstep
    split at hstep
    · exact Option.some.inj hstep ▸ hsound
    · exact Option.some.inj hstep ▸ hsound
  | handleTimerEvent opaqueId now =>
    obtain ⟨⟨address, call⟩, hfind, rfl⟩ := Option.map_eq_some_iff.mp hstep
    split
    · exact hsound
    · exact hsound

theorem RemotingState.run_damaged {good : Bool → CallStep → Call → Bool}
    (herase : ∀ call, good false .eraseEntry call = true → call.future.block = true)
    {events : List RemotingEvent} {last : RemotingState}
    (halong : remotingSystem.Along (RemotingState.Meets good) RemotingState.initial events)
    (hrun : remotingSystem.run RemotingState.initial events = some last) :
    last.damaged = false := by
  have hpreserved : ∀ state event next, state.Meets good event →
      remotingSystem.step state event = some next → state.damaged = false →
      next.damaged = false :=
    fun state event next hgood hstep hsound ↦
      RemotingState.step_damaged herase hgood hstep hsound
  exact EventSystem.run_invariant_of_along hpreserved halong hrun rfl

end RocketMQClient.Transport
