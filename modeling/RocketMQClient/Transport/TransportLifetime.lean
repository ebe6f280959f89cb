import RocketMQClient.Library.EventSystem
import RocketMQClient.Library.TaskPool

/-!
# The lifetime of a transport

The calls to one address share a transport, which `GetAndCreateTransport` finds in the table of the
client under its lock. A caller that finds the transport disconnected deletes it and connects a new
one. The lock is released before the transport is used, so that other callers may still be between
their own `GetAndCreateTransport` and the end of `SendCmd`, or may come back to the transport for a
log line after a failed send or a wait without a response.

`transportSystem` interleaves any number of calls of the three kinds with the loss of the
connection, found by `RecvMsg` or by `SendOneMsg`. `transport_lifetime_iff` says that no call of a
run ever has a deleted transport in use exactly when the run is made of `Harmless` steps, and
`transport_deleted_in_use` has a second caller that deletes the transport of a slow sender.

A transport is in use from the lookup to the end of `SendCmd`, and again when its caller writes a
log line about it. `Harmless` is a condition on the state before a step: a lookup that finds the
transport disconnected is harmless when nobody else has it in use, and a wait without a response
when the transport has not been deleted. Each step is safe exactly when it is harmless
(`leadsToSafety_iff`).
-/

set_option autoImplicit false
set_option relaxedAutoImplicit false

namespace RocketMQClient.Transport

open Library

/-! ### Calls and transports -/

/-- The kinds of calls of the client. -/
inductive CallKind where
  | sync
  | async
  | oneway
  deriving DecidableEq

/-- How far a call has got with the transport at an address. -/
inductive TransportPhase where
  /-- `GetAndCreateTransport` has returned the transport. -/
  | obtained (kind : CallKind) (address : ℕ)
  /-- The transport was connected, and `SendCmd` is called. -/
  | sendCmd (kind : CallKind) (address : ℕ)
  /-- `SendOneMsg` runs under the send lock. -/
  | sendOneMsg (kind : CallKind) (address : ℕ)
  /-- `waitResponse` of a synchronous call runs. -/
  | waitResponse (address : ℕ)
  /-- A synchronous call without a response logs the server of the transport. -/
  | getServerURL (address : ℕ)
  | finished
  deriving DecidableEq

/-- The transport that a call has in use. A synchronous call that waits uses it again only if there
is no response. -/
def TransportPhase.uses : TransportPhase → Option ℕ
  | .obtained _ address | .sendCmd _ address | .sendOneMsg _ address | .getServerURL address =>
    some address
  | .waitResponse _ | .finished => none

/-- What the life of a transport depends on. -/
structure TransportCell where
  connected : Bool
  sendLocked : Bool
  deleted : Bool
  deriving DecidableEq

/-- The entry of the address in the table, the transports by their own addresses, the next free one,
and the calls. -/
structure LifetimeState where
  entry : Option ℕ
  transports : ℕ → TransportCell
  allocated : ℕ
  calls : List TransportPhase

/-- The steps of the calls and of the event thread. -/
inductive LifetimeEvent where
  /-- A new call runs `GetAndCreateTransport`, and a connection it makes succeeds or fails. -/
  | getAndCreateTransport (kind : CallKind) (connects : Bool)
  /-- A call checks whether its transport is connected. -/
  | isConnected (call : ℕ)
  /-- A call logs the server and takes the send lock. -/
  | lockSend (call : ℕ)
  /-- `SendOneMsg` finds the connection lost. -/
  | close (call : ℕ)
  /-- `SendData` returns. -/
  | sendReturns (call : ℕ) (ok : Bool)
  | waitResponseReturns (call : ℕ) (response : Bool)
  | getServerURLReturns (call : ℕ)
  /-- `RecvMsg` finds the connection lost. -/
  | recvMsg
  deriving DecidableEq

namespace LifetimeState

/-- A client without transports. -/
def initial : LifetimeState where
  entry := none
  transports := fun _ ↦ ⟨false, false, false⟩
  allocated := 0
  calls := []

/-- Changes the transport at an address. -/
def setTransport (state : LifetimeState) (address : ℕ) (cell : TransportCell) : LifetimeState :=
  { state with
    transports := fun other ↦ if other = address then cell else state.transports other }

/-- The connection of a transport is lost. -/
def closeTransport (state : LifetimeState) (address : ℕ) : LifetimeState :=
  state.setTransport address { state.transports address with connected := false }

/-- The send lock of a transport is taken or given back. -/
def setSendLocked (state : LifetimeState) (address : ℕ) (locked : Bool) : LifetimeState :=
  state.setTransport address { state.transports address with sendLocked := locked }

/-- A transport is deleted. -/
def deleteTransport (state : LifetimeState) (address : ℕ) : LifetimeState :=
  state.setTransport address { state.transports address with deleted := true }

/-- A call goes on. -/
def setCall (state : LifetimeState) (call : ℕ) (phase : TransportPhase) : LifetimeState :=
  { state with calls := state.calls.set call phase }

/-- Connects a new transport and puts it into the table; it is deleted again if that fails. -/
def createTransport (state : LifetimeState) (kind : CallKind) (connects : Bool) : LifetimeState :=
  if connects then
    { state.setTransport state.allocated ⟨true, false, false⟩ with
      entry := some state.allocated
      allocated := state.allocated + 1
      calls := state.calls ++ [.obtained kind state.allocated] }
  else { state with calls := state.calls ++ [.finished] }

/-- A new call gets a transport. -/
def getAndCreateTransport (state : LifetimeState) (kind : CallKind) (connects : Bool) :
    LifetimeState :=
  match state.entry with
  | none => state.createTransport kind connects
  | some address =>
    if (state.transports address).connected then
      { state with calls := state.calls ++ [.obtained kind address] }
    else
      createTransport { state.deleteTransport address with entry := none } kind connects

/-- What a call does after `SendCmd`. -/
def afterSend (kind : CallKind) (address : ℕ) (ok : Bool) : TransportPhase :=
  match kind with
  | .sync => if ok then .waitResponse address else .getServerURL address
  | .async | .oneway => .finished

/-- One step. -/
def step (state : LifetimeState) : LifetimeEvent → Option LifetimeState
  | .getAndCreateTransport kind connects => some (state.getAndCreateTransport kind connects)
  | .isConnected call =>
    match state.calls[call]? with
    | some (.obtained kind address) =>
      some (state.setCall call
        (if (state.transports address).connected then .sendCmd kind address else .finished))
    | _ => none
  | .lockSend call =>
    match state.calls[call]? with
    | some (.sendCmd kind address) =>
      if (state.transports address).sendLocked then none
      else some ((state.setSendLocked address true).setCall call (.sendOneMsg kind address))
    | _ => none
  | .close call =>
    match state.calls[call]? with
    | some (.sendOneMsg _ address) => some (state.closeTransport address)
    | _ => none
  | .sendReturns call ok =>
    match state.calls[call]? with
    | some (.sendOneMsg kind address) =>
      some ((state.setSendLocked address false).setCall call (afterSend kind address ok))
    | _ => none
  | .waitResponseReturns call response =>
    match state.calls[call]? with
    | some (.waitResponse address) =>
      some (state.setCall call (if response then .finished else .getServerURL address))
    | _ => none
  | .getServerURLReturns call =>
    match state.calls[call]? with
    | some (.getServerURL _) => some (state.setCall call .finished)
    | _ => none
  | .recvMsg => state.entry.map state.closeTransport

end LifetimeState

/-- The calls of a client to one address. -/
def transportSystem : EventSystem LifetimeState LifetimeEvent where
  step := LifetimeState.step

namespace LifetimeState

/-! ### Transports in use -/

/-- No call has a deleted transport in use. -/
def NoneDeletedInUse (state : LifetimeState) : Prop :=
  ∀ phase ∈ state.calls, ∀ address ∈ phase.uses, (state.transports address).deleted = false

/-- A step after which no call has a deleted transport in use. -/
def LeadsToSafety (state : LifetimeState) (event : LifetimeEvent) : Prop :=
  ∀ next, state.step event = some next → next.NoneDeletedInUse

/-- A lookup that finds the transport disconnected does so while no other call has it in use, and a
wait without a response ends while the transport is not deleted. -/
def Harmless (state : LifetimeState) : LifetimeEvent → Prop
  | .getAndCreateTransport _ _ => ∀ address ∈ state.entry,
    (state.transports address).connected = false → ∀ phase ∈ state.calls, address ∉ phase.uses
  | .waitResponseReturns call false => ∀ address,
    state.calls[call]? = some (.waitResponse address) → (state.transports address).deleted = false
  | _ => True

/-- The table has a transport that is not deleted, and no call has a deleted transport in use. -/
structure Sound (state : LifetimeState) : Prop where
  bounded : ∀ address ∈ state.entry, address < state.allocated
  live : ∀ address ∈ state.entry, (state.transports address).deleted = false
  safe : state.NoneDeletedInUse

theorem sound_initial : initial.Sound :=
  ⟨fun _ haddress ↦ absurd haddress.symm (Option.some_ne_none _),
    fun _ haddress ↦ absurd haddress.symm (Option.some_ne_none _),
    fun _ hphase ↦ absurd hphase List.not_mem_nil⟩

/-! ### What the steps change -/

theorem setTransport_deleted (state : LifetimeState) {address : ℕ} {cell : TransportCell}
    (hcell : cell.deleted = (state.transports address).deleted) (other : ℕ) :
    ((state.setTransport address cell).transports other).deleted =
      (state.transports other).deleted := by
  unfold setTransport
  dsimp only
  split_ifs with hsame
  · rw [hsame, hcell]
  · rfl

/-- Calls stay safe when no transport is deleted. -/
theorem NoneDeletedInUse.mono {state next : LifetimeState} (hsafe : state.NoneDeletedInUse)
    (hdeleted : ∀ address, (next.transports address).deleted = (state.transports address).deleted)
    (hcalls : ∀ phase ∈ next.calls, ∀ address ∈ phase.uses,
      phase ∈ state.calls ∨ (state.transports address).deleted = false) :
    next.NoneDeletedInUse := by
  intro phase hphase address huses
  rw [hdeleted]
  rcases hcalls phase hphase address huses with hold | hnew
  · exact hsafe phase hold address huses
  · exact hnew

/-- A step that deletes no transport, and after which the calls use the transports that they used
before. -/
structure GoesOn (state next : LifetimeState) : Prop where
  entry : next.entry = state.entry
  allocated : next.allocated = state.allocated
  deleted : ∀ address, (next.transports address).deleted = (state.transports address).deleted
  uses : ∀ phase ∈ next.calls, ∀ address ∈ phase.uses,
    phase ∈ state.calls ∨ ∃ old ∈ state.calls, address ∈ old.uses

/-- A change of a transport that does not delete it. -/
theorem goesOn_setTransport (state : LifetimeState) {address : ℕ} {cell : TransportCell}
    (hcell : cell.deleted = (state.transports address).deleted) :
    state.GoesOn (state.setTransport address cell) :=
  ⟨rfl, rfl, state.setTransport_deleted hcell, fun _ hphase _ _ ↦ Or.inl hphase⟩

theorem goesOn_setSendLocked (state : LifetimeState) (address : ℕ) (locked : Bool) :
    state.GoesOn (state.setSendLocked address locked) :=
  goesOn_setTransport state rfl

/-- A call that goes on with what it used before. -/
theorem GoesOn.setCall {state next : LifetimeState} (hgoes : state.GoesOn next)
    (hcalls : next.calls = state.calls) {call : ℕ} {old phase : TransportPhase}
    (hget : state.calls[call]? = some old) (huses : ∀ address ∈ phase.uses, address ∈ old.uses) :
    state.GoesOn (next.setCall call phase) where
  entry := hgoes.entry
  allocated := hgoes.allocated
  deleted := hgoes.deleted
  uses := by
    intro other hother address haddress
    rcases List.mem_or_eq_of_mem_set hother with hold | rfl
    · exact Or.inl (hcalls ▸ hold)
    · exact Or.inr ⟨old, List.mem_of_getElem? hget, huses address haddress⟩

theorem goesOn_refl (state : LifetimeState) : state.GoesOn state :=
  ⟨rfl, rfl, fun _ ↦ rfl, fun _ hphase _ _ ↦ Or.inl hphase⟩

/-- Every step that is neither a lookup nor a wait without a response goes on. -/
theorem goesOn_step {state next : LifetimeState} {event : LifetimeEvent}
    (hnext : state.step event = some next)
    (hlookup : ∀ kind connects, event ≠ .getAndCreateTransport kind connects)
    (hwait : ∀ call, event ≠ .waitResponseReturns call false) : state.GoesOn next := by
  cases event with
  | getAndCreateTransport kind connects => exact absurd rfl (hlookup kind connects)
  | isConnected call =>
    simp only [step] at hnext
    split at hnext
    · rename_i kind address hget
      rw [← Option.some.inj hnext]
      refine (goesOn_refl state).setCall rfl hget fun other huses ↦ ?_
      split_ifs at huses
      · exact huses
      · exact absurd huses.symm (Option.some_ne_none other)
    · exact absurd hnext.symm (Option.some_ne_none next)
  | lockSend call =>
    simp only [step] at hnext
    split at hnext
    · rename_i kind address hget
      obtain ⟨-, hmoved⟩ := Option.ite_none_left_eq_some.mp hnext
      rw [← Option.some.inj hmoved]
      exact (goesOn_setSendLocked state address true).setCall rfl hget fun _ huses ↦ huses
    · exact absurd hnext.symm (Option.some_ne_none next)
  | close call =>
    simp only [step] at hnext
    split at hnext
    · rw [← Option.some.inj hnext]
      exact goesOn_setTransport state rfl
    · exact absurd hnext.symm (Option.some_ne_none next)
  | sendReturns call ok =>
    simp only [step] at hnext
    split at hnext
    · rename_i kind address hget
      rw [← Option.some.inj hnext]
      refine (goesOn_setSendLocked state address false).setCall rfl hget fun other huses ↦ ?_
      cases kind with
      | sync =>
        cases ok with
        | true => exact absurd huses.symm (Option.some_ne_none other)
        | false => exact huses
      | async => exact absurd huses.symm (Option.some_ne_none other)
      | oneway => exact absurd huses.symm (Option.some_ne_none other)
    · exact absurd hnext.symm (Option.some_ne_none next)
  | waitResponseReturns call response =>
    cases response with
    | true =>
      simp only [step] at hnext
      split at hnext
      · rename_i address hget
        rw [← Option.some.inj hnext]
        exact (goesOn_refl state).setCall rfl hget fun other huses ↦
          absurd huses.symm (Option.some_ne_none other)
      · exact absurd hnext.symm (Option.some_ne_none next)
    | false => exact absurd rfl (hwait call)
  | getServerURLReturns call =>
    simp only [step] at hnext
    split at hnext
    · rename_i address hget
      rw [← Option.some.inj hnext]
      exact (goesOn_refl state).setCall rfl hget fun other huses ↦
        absurd huses.symm (Option.some_ne_none other)
    · exact absurd hnext.symm (Option.some_ne_none next)
  | recvMsg =>
    obtain ⟨address, -, rfl⟩ := Option.map_eq_some_iff.mp hnext
    exact goesOn_setTransport state rfl

/-- A step that goes on keeps everything sound. -/
theorem Sound.goesOn {state next : LifetimeState} (hsound : state.Sound)
    (hgoes : state.GoesOn next) : next.Sound where
  bounded := by
    rw [hgoes.entry, hgoes.allocated]
    exact hsound.bounded
  live := by
    intro address haddress
    rw [hgoes.deleted]
    exact hsound.live address (hgoes.entry ▸ haddress)
  safe := by
    intro phase hphase address huses
    rw [hgoes.deleted]
    rcases hgoes.uses phase hphase address huses with hold | ⟨old, hold, hused⟩
    · exact hsound.safe phase hold address huses
    · exact hsound.safe old hold address hused

/-- A wait without a response is safe exactly when the transport is not deleted. -/
theorem safe_waitResponse_iff {state : LifetimeState} (hsafe : state.NoneDeletedInUse) {call : ℕ}
    {address : ℕ} (hget : state.calls[call]? = some (.waitResponse address)) :
    (state.setCall call (.getServerURL address)).NoneDeletedInUse ↔
      (state.transports address).deleted = false := by
  constructor
  · intro hnext
    have hmem : TransportPhase.getServerURL address ∈
        state.calls.set call (.getServerURL address) :=
      List.mem_set (List.getElem?_eq_some_iff.mp hget).1 _
    exact hnext _ hmem address rfl
  · intro hlive
    refine hsafe.mono (fun _ ↦ rfl) fun phase hphase other huses ↦ ?_
    rcases List.mem_or_eq_of_mem_set hphase with hold | rfl
    · exact Or.inl hold
    · exact Or.inr (Option.some.inj huses ▸ hlive)

/-- A new transport, at an address that is not the one of any transport in use, and its call. -/
theorem safe_createTransport_iff {state : LifetimeState} (kind : CallKind) (connects : Bool)
    (hfresh : ∀ phase ∈ state.calls, ∀ address ∈ phase.uses,
      (state.transports address).deleted = true → address < state.allocated) :
    (state.createTransport kind connects).NoneDeletedInUse ↔ state.NoneDeletedInUse := by
  unfold createTransport
  cases connects with
  | false =>
    constructor
    · exact fun hnext phase hphase ↦ hnext phase (List.mem_append_left _ hphase)
    · intro hsafe
      refine hsafe.mono (fun _ ↦ rfl) fun phase hphase address huses ↦ ?_
      rcases List.mem_append.mp hphase with hold | hnew
      · exact Or.inl hold
      · rw [List.mem_singleton.mp hnew] at huses
        exact absurd huses.symm (Option.some_ne_none address)
  | true =>
    constructor
    · intro hnext phase hphase address huses
      rw [← Bool.not_eq_true]
      intro hdeleted
      have hlt := hfresh phase hphase address huses hdeleted
      have hkept := hnext phase (List.mem_append_left _ hphase) address huses
      simp only [if_true, LifetimeState.setTransport, Nat.ne_of_lt hlt, if_false] at hkept
      rw [hkept] at hdeleted
      exact Bool.false_ne_true hdeleted
    · intro hsafe phase hphase address huses
      simp only [if_true, LifetimeState.setTransport]
      split_ifs with hsame
      · rfl
      · rcases List.mem_append.mp hphase with hold | hnew
        · exact hsafe phase hold address huses
        · rw [List.mem_singleton.mp hnew] at huses
          exact absurd (Option.some.inj huses).symm hsame

/-- A lookup is safe exactly when it is harmless. -/
theorem safe_getAndCreateTransport_iff {state : LifetimeState} (hsound : state.Sound)
    (kind : CallKind) (connects : Bool) :
    (state.getAndCreateTransport kind connects).NoneDeletedInUse ↔
      state.Harmless (.getAndCreateTransport kind connects) := by
  unfold getAndCreateTransport Harmless
  cases hentry : state.entry with
  | none =>
    refine iff_of_true ?_ fun address haddress ↦ absurd haddress.symm (Option.some_ne_none address)
    refine (safe_createTransport_iff kind connects fun phase hphase address huses hdeleted ↦ ?_).mpr
      hsound.safe
    rw [hsound.safe phase hphase address huses] at hdeleted
    exact absurd hdeleted Bool.false_ne_true
  | some address =>
    simp only [Option.mem_def, Option.some.injEq, forall_eq']
    cases hconnected : (state.transports address).connected with
    | true =>
      refine iff_of_true ?_ fun hfalse ↦ absurd hfalse.symm Bool.false_ne_true
      refine hsound.safe.mono (fun _ ↦ rfl) fun phase hphase other huses ↦ ?_
      rcases List.mem_append.mp hphase with hold | hnew
      · exact Or.inl hold
      · rw [List.mem_singleton.mp hnew] at huses
        rw [← Option.some.inj huses]
        exact Or.inr (hsound.live address hentry)
    | false =>
      have hdeletion : ∀ other, (({ state.deleteTransport address with
          entry := none } : LifetimeState).transports other).deleted = true ↔
          other = address ∨ (state.transports other).deleted = true := by
        intro other
        simp only [deleteTransport, LifetimeState.setTransport]
        split_ifs with hsame
        · exact iff_of_true rfl (Or.inl hsame)
        · exact (or_iff_right hsame).symm
      have hold : ∀ phase ∈ state.calls, ∀ other ∈ phase.uses,
          (state.transports other).deleted ≠ true := by
        intro phase hphase other huses
        rw [hsound.safe phase hphase other huses]
        exact Bool.false_ne_true
      have hcreate := @safe_createTransport_iff { state.deleteTransport address with entry := none }
        kind connects ?_
      · simp only [Bool.false_eq_true, if_false]
        refine hcreate.trans ⟨fun hsafe _ phase hphase huses ↦ ?_, fun hunused ↦ ?_⟩
        · have hkept := hsafe phase hphase address huses
          rw [← Bool.not_eq_true, hdeletion] at hkept
          exact hkept (Or.inl rfl)
        · intro phase hphase other huses
          rw [← Bool.not_eq_true, hdeletion]
          rintro (rfl | hdeleted)
          · exact hunused trivial phase hphase huses
          · exact hold phase hphase other huses hdeleted
      · intro phase hphase other huses hdeleted
        rcases (hdeletion other).mp hdeleted with rfl | hbefore
        · exact hsound.bounded other hentry
        · exact absurd hbefore (hold phase hphase other huses)

/-- A step is safe exactly when it is harmless. -/
theorem leadsToSafety_iff {state : LifetimeState} (hsound : state.Sound) (event : LifetimeEvent) :
    state.LeadsToSafety event ↔ state.Harmless event := by
  by_cases hlookup : ∃ kind connects, event = .getAndCreateTransport kind connects
  · obtain ⟨kind, connects, rfl⟩ := hlookup
    refine Iff.trans ?_ (safe_getAndCreateTransport_iff hsound kind connects)
    refine ⟨fun hsafe ↦ hsafe _ rfl, fun hsafe next hnext ↦ ?_⟩
    rwa [← Option.some.inj hnext]
  · by_cases hwait : ∃ call, event = .waitResponseReturns call false
    · obtain ⟨call, rfl⟩ := hwait
      unfold LeadsToSafety Harmless
      simp only [step]
      constructor
      · intro hsafe address hget
        rw [hget] at hsafe
        exact (safe_waitResponse_iff hsound.safe hget).mp (hsafe _ rfl)
      · intro hharmless next hnext
        split at hnext
        · rename_i address hget
          rw [← Option.some.inj hnext]
          exact (safe_waitResponse_iff hsound.safe hget).mpr (hharmless address hget)
        · exact absurd hnext.symm (Option.some_ne_none next)
    · push Not at hlookup hwait
      refine iff_of_true (fun next hnext ↦ ?_) ?_
      · exact (hsound.goesOn (goesOn_step hnext hlookup hwait)).safe
      · cases event with
        | getAndCreateTransport kind connects => exact absurd rfl (hlookup kind connects)
        | waitResponseReturns call response =>
          cases response with
          | true => trivial
          | false => exact absurd rfl (hwait call)
        | _ => trivial

/-- A safe step keeps everything sound. -/
theorem Sound.step {state next : LifetimeState} {event : LifetimeEvent} (hsound : state.Sound)
    (hsafe : state.LeadsToSafety event) (hnext : state.step event = some next) : next.Sound := by
  by_cases hlookup : ∃ kind connects, event = .getAndCreateTransport kind connects
  · obtain ⟨kind, connects, rfl⟩ := hlookup
    have htable : (∀ address ∈ next.entry, address < next.allocated) ∧
        ∀ address ∈ next.entry, (next.transports address).deleted = false := by
      rw [← Option.some.inj hnext]
      have hcreated : ∀ start : LifetimeState, start.entry = none →
          (∀ address ∈ (start.createTransport kind connects).entry,
            address < (start.createTransport kind connects).allocated) ∧
          ∀ address ∈ (start.createTransport kind connects).entry,
            ((start.createTransport kind connects).transports address).deleted = false := by
        intro start hstart
        cases connects with
        | true => simp [createTransport, LifetimeState.setTransport]
        | false => simp [createTransport, hstart]
      unfold getAndCreateTransport
      cases hentry : state.entry with
      | none => exact hcreated state hentry
      | some address =>
        have hbounded := hsound.bounded
        have hlive := hsound.live
        rw [hentry] at hbounded hlive
        dsimp only
        split_ifs
        · exact ⟨hbounded, hlive⟩
        · exact hcreated { state.deleteTransport address with entry := none } rfl
    exact ⟨htable.1, htable.2, hsafe next hnext⟩
  · by_cases hwait : ∃ call, event = .waitResponseReturns call false
    · obtain ⟨call, rfl⟩ := hwait
      have hafter := hsafe next hnext
      simp only [LifetimeState.step] at hnext
      split at hnext
      · obtain rfl := Option.some.inj hnext
        exact ⟨hsound.bounded, hsound.live, hafter⟩
      · exact absurd hnext.symm (Option.some_ne_none next)
    · push Not at hlookup hwait
      exact hsound.goesOn (goesOn_step hnext hlookup hwait)

end LifetimeState

/-- No call of a run ever has a deleted transport in use exactly when every step of it is harmless.
-/
theorem transport_lifetime_iff (events : List LifetimeEvent) :
    transportSystem.Along LifetimeState.LeadsToSafety LifetimeState.initial events ↔
      transportSystem.Along LifetimeState.Harmless LifetimeState.initial events :=
  EventSystem.along_congr_of_invariant (fun _ event hsound ↦ LifetimeState.leadsToSafety_iff hsound
    event) (fun _ _ _ hsound hsafe hnext ↦ hsound.step hsafe hnext) LifetimeState.sound_initial

/-- The first call is inside `SendOneMsg` when the event thread finds the connection lost, and a
second call looks the address up. -/
def slowSender : List LifetimeEvent :=
  [.getAndCreateTransport .sync true, .isConnected 0, .lockSend 0, .recvMsg,
    .getAndCreateTransport .oneway true]

/-- The second call deletes the transport that the first one sends on. -/
theorem transport_deleted_in_use :
    ¬ ∀ (events : List LifetimeEvent) (last : LifetimeState),
      transportSystem.run LifetimeState.initial events = some last → last.NoneDeletedInUse := by
  intro hclaim
  have hfacts : (transportSystem.run LifetimeState.initial slowSender).map (fun last ↦
      (last.calls, (last.transports 0).deleted)) =
      some ([.sendOneMsg .sync 0, .obtained .oneway 1], true) := by decide
  obtain ⟨last, hrun, hlast⟩ := Option.map_eq_some_iff.mp hfacts
  obtain ⟨hcalls, hdeleted⟩ := Prod.mk.inj hlast
  have hsafe := hclaim slowSender last hrun (.sendOneMsg .sync 0) (by simp [hcalls]) 0 rfl
  rw [hsafe] at hdeleted
  exact Bool.false_ne_true hdeleted

end RocketMQClient.Transport
