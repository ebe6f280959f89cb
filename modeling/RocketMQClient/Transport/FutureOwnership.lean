import RocketMQClient.Transport.ResponseFuture

/-!
# Who releases a response future

The future of an asynchronous call is deleted by the party that took its entry out of the table. The
future of a synchronous call is deleted by its caller, after a failed send or when `waitResponse`
has returned a response; when it has returned `NULL` nobody deletes it, although the comment in
`invokeSyncImpl` leaves this to `HandleTimerEvent` (`timed_out_sync_call_never_released`).

Besides, a caller uses the future after `SendCmd` without looking whether it is still there, and
deletes the future of a synchronous call without looking whether another thread is still inside
`putResponse`. And the future of an asynchronous call is left behind when the custom header of its
response cannot be made, or when its callback throws. In every run without these steps each future
is deleted exactly once and nobody accesses it afterwards (`response_future_released_once`).

The argument is one of ownership. Each future has one owner at a time: the table while its entry is
there, then whoever took the entry out, or the caller. `AsyncOwner` and `SyncOwner` are the owners
of the two kinds, a step that respects them hands the future on or deletes it
(`respectsOwner_maintained`), and a step that does not is one of those that the condition excludes.
-/

set_option autoImplicit false
set_option relaxedAutoImplicit false

namespace RocketMQClient.Transport

open Library

namespace ResponseFuture

/-- Not deleted, and never accessed when it was. -/
def Live (future : ResponseFuture) : Prop := future.deletions = 0 ∧ future.misused = false

/-- Deleted once, and not accessed since. -/
def Released (future : ResponseFuture) : Prop := future.deletions = 1 ∧ future.misused = false

variable {future : ResponseFuture}

theorem Live.access (hlive : future.Live) : future.access.Live := by
  simp [Live, ResponseFuture.access, hlive.1, hlive.2]

theorem Live.setSendRequestOK (hlive : future.Live) (ok : Bool) :
    (future.setSendRequestOK ok).Live := hlive.access

theorem Live.setResponseCommand (hlive : future.Live) (response : Option ℤ) :
    (future.setResponseCommand response).Live := hlive.access

theorem Live.notify (hlive : future.Live) : future.notify.Live := hlive.access

theorem Live.executeInvokeCallback (hlive : future.Live) : future.executeInvokeCallback.Live := by
  rw [ResponseFuture.executeInvokeCallback]
  split
  · exact hlive.access
  · exact hlive.access

theorem Live.delete (hlive : future.Live) : future.delete.Released :=
  ⟨congrArg (· + 1) hlive.1, hlive.access.2⟩

end ResponseFuture

/-- The caller is still inside `invokeAsyncImpl` before its erase, or has left it. -/
def CallerPhase.sends : CallerPhase → Bool
  | .sending | .returned _ | .failing | .finished => true
  | .erased | .executed | .waiting | .answered => false

/-- The owner of the future of an asynchronous call: the table, the holder, the failing caller, or
nobody any more. -/
inductive AsyncOwner : Bool → Call → Prop
  | table {call : Call} : call.future.Live → call.holder = .idle → call.caller.sends = true →
    AsyncOwner true call
  | holder {call : Call} : call.future.Live → call.holder ≠ .idle → call.holder ≠ .checking →
    call.caller.sends = true → AsyncOwner false call
  | caller {call : Call} : call.future.Live → call.holder = .idle →
    call.caller = .erased ∨ call.caller = .executed → AsyncOwner false call
  | nobody {call : Call} : call.future.Released → call.holder = .idle → call.caller.sends = true →
    AsyncOwner false call

/-- The owner of the future of a synchronous call: the caller until it has finished. -/
inductive SyncOwner : Bool → Call → Prop
  | caller {registered : Bool} {call : Call} : call.future.Live → call.caller ≠ .finished →
    call.caller ≠ .executed → call.holder ≠ .called →
    (registered = true → call.holder = .idle ∧ call.future.responseCommand = none ∧
      call.caller ≠ .erased ∧ call.caller ≠ .answered) → SyncOwner registered call
  | nobody {call : Call} : call.future.Released → call.holder = .idle → call.caller = .finished →
    SyncOwner false call

/-- The steps that respect the owner: the caller of an asynchronous call sets `sendRequestOK` while
the future is in the table or held, and erases its entry while it is in the table; `waitResponse`
returns a response; the caller of a synchronous call deletes the future while nobody holds it; the
custom header of the response to an asynchronous call can be made; and callbacks do not throw. -/
def respectsOwner (registered : Bool) (step : CallStep) (call : Call) : Bool :=
  match step with
  | .setSendRequestOK => call.future.block || registered || call.holder != .idle
  | .eraseEntry => call.future.block || registered
  | .waitResponse => call.future.responseCommand.isSome
  | .callerDeletes => !call.future.block || call.holder == .idle
  | .headerThrows => call.future.block
  | .callerExecutes throws | .holderExecutes throws => !throws
  | _ => true

/-- The steps on the future of an asynchronous call. -/
theorem AsyncOwner.advance {registered : Bool} {step : CallStep} {call next : Call}
    (hgood : respectsOwner registered step call = true)
    (hadvance : call.advance step = some next) (hasync : call.future.block = false)
    (howner : AsyncOwner registered call) :
    AsyncOwner (registered && step != .eraseEntry) next := by
  cases step with
  | sendCmd ok =>
    obtain ⟨hcaller, rfl⟩ := Option.ite_some_none_eq_some.mp hadvance
    cases howner with
    | table hlive hidle hsends => exact .table hlive hidle rfl
    | holder hlive hholder hchecking hsends => exact .holder hlive hholder hchecking rfl
    | caller hlive hidle hfailed => simp [hcaller] at hfailed
    | nobody hreleased hidle hsends => exact .nobody hreleased hidle rfl
  | setSendRequestOK =>
    obtain ⟨ok, hcaller, rfl⟩ := Call.advance_setSendRequestOK hadvance
    have hsends : (if ok = true then if call.future.block = true then CallerPhase.waiting
        else .finished else .failing).sends = true := by
      cases ok <;> simp [hasync, CallerPhase.sends]
    cases howner with
    | table hlive hidle _ => exact .table (hlive.setSendRequestOK ok) hidle hsends
    | holder hlive hholder hchecking _ =>
      exact .holder (hlive.setSendRequestOK ok) hholder hchecking hsends
    | caller hlive hidle hfailed => simp [hcaller] at hfailed
    | nobody hreleased hidle _ => simp [respectsOwner, hasync, hidle] at hgood
  | eraseEntry =>
    obtain ⟨hcaller, rfl⟩ := Option.ite_some_none_eq_some.mp hadvance
    have hregistered : registered = true := by
      simpa [respectsOwner, hasync] using hgood
    subst hregistered
    cases howner with
    | table hlive hidle _ => exact .caller hlive hidle (Or.inl rfl)
  | callerExecutes throws =>
    obtain ⟨⟨hcaller, -⟩, rfl⟩ := Option.ite_some_none_eq_some.mp hadvance
    obtain rfl : throws = false := Bool.not_eq_true' _ ▸ hgood
    cases howner with
    | caller hlive hidle _ => exact .caller hlive.executeInvokeCallback hidle (Or.inr rfl)
    | _ => simp_all [CallerPhase.sends]
  | waitResponse =>
    obtain ⟨hcaller, rfl⟩ := Option.ite_some_none_eq_some.mp hadvance
    cases howner <;> simp_all [CallerPhase.sends]
  | callerDeletes =>
    obtain ⟨hcaller, rfl⟩ := Option.ite_some_none_eq_some.mp hadvance
    cases howner with
    | caller hlive hidle _ => exact .nobody hlive.delete hidle rfl
    | _ =>
      rcases hcaller with hcaller | hcaller | ⟨-, hblock⟩ <;> simp_all [CallerPhase.sends]
  | headerThrows =>
    have hblock : call.future.block = true := hgood
    exact absurd hblock (by simp [hasync])
  | putResponse =>
    obtain ⟨response, hholder, rfl⟩ := Call.advance_putResponse hadvance
    cases howner with
    | holder hlive _ _ hsends =>
      exact .holder (hlive.setResponseCommand response) (by simp) (by simp) hsends
    | _ => simp_all
  | notify =>
    obtain ⟨response, -, hblock, -⟩ := Call.advance_notify hadvance
    exact absurd hblock (by simp [hasync])
  | getInvokeCallback =>
    obtain ⟨hholder, rfl⟩ := Option.ite_some_none_eq_some.mp hadvance
    cases howner <;> simp_all
  | holderExecutes throws =>
    obtain ⟨response, hholder, -, rfl⟩ := Call.advance_holderExecutes hadvance
    obtain rfl : throws = false := Bool.not_eq_true' _ ▸ hgood
    cases howner with
    | holder hlive _ _ hsends =>
      exact .holder hlive.executeInvokeCallback (by simp) (by simp) hsends
    | _ => simp_all
  | holderDeletes =>
    obtain ⟨hholder, rfl⟩ := Option.ite_some_none_eq_some.mp hadvance
    cases howner with
    | holder hlive _ _ hsends => exact .nobody hlive.delete rfl hsends
    | _ => simp_all

/-- A step of the holder of the future of a synchronous call. -/
theorem SyncOwner.of_held {registered : Bool} {call : Call} {future : ResponseFuture}
    {holder : HolderPhase} (howner : SyncOwner registered call) (hheld : call.holder ≠ .idle)
    (hlive : call.future.Live → future.Live) (hcalled : holder ≠ .called) :
    SyncOwner registered { call with future := future, holder := holder } := by
  cases howner with
  | caller hold hfinished hexecuted _ hentry =>
    refine .caller (hlive hold) hfinished hexecuted hcalled fun hin ↦ ?_
    exact absurd (hentry hin).1 hheld
  | nobody _ hidle _ => exact absurd hidle hheld

/-- The steps on the future of a synchronous call. -/
theorem SyncOwner.advance {registered : Bool} {step : CallStep} {call next : Call}
    (hgood : respectsOwner registered step call = true)
    (hadvance : call.advance step = some next) (hsync : call.future.block = true)
    (howner : SyncOwner registered call) :
    SyncOwner (registered && step != .eraseEntry) next := by
  cases step with
  | sendCmd ok =>
    obtain ⟨hcaller, rfl⟩ := Option.ite_some_none_eq_some.mp hadvance
    cases howner with
    | caller hlive _ _ hholder hentry =>
      refine .caller hlive (by simp) (by simp) hholder fun hin ↦ ?_
      obtain ⟨hidle, hnone, -⟩ := hentry (by simpa using hin)
      exact ⟨hidle, hnone, by simp, by simp⟩
    | nobody _ _ hfinished => simp [hcaller] at hfinished
  | setSendRequestOK =>
    obtain ⟨ok, hcaller, rfl⟩ := Call.advance_setSendRequestOK hadvance
    cases howner with
    | caller hlive _ _ hholder hentry =>
      refine .caller (hlive.setSendRequestOK ok) ?_ ?_ hholder fun hin ↦ ?_
      · cases ok <;> simp [hsync]
      · cases ok <;> simp [hsync]
      · obtain ⟨hidle, hnone, -⟩ := hentry (by simpa using hin)
        exact ⟨hidle, hnone, by cases ok <;> simp [hsync], by cases ok <;> simp [hsync]⟩
    | nobody _ _ hfinished => simp [hcaller] at hfinished
  | eraseEntry =>
    obtain ⟨hcaller, rfl⟩ := Option.ite_some_none_eq_some.mp hadvance
    cases howner with
    | caller hlive _ _ hholder hentry =>
      exact .caller hlive (by simp) (by simp) hholder fun hin ↦ absurd hin (by simp)
    | nobody _ _ hfinished => simp [hcaller] at hfinished
  | callerExecutes throws =>
    obtain ⟨⟨-, hblock⟩, -⟩ := Option.ite_some_none_eq_some.mp hadvance
    exact absurd hsync (by simp [hblock])
  | waitResponse =>
    obtain ⟨hcaller, rfl⟩ := Option.ite_some_none_eq_some.mp hadvance
    have hanswer : call.future.responseCommand.isSome = true := hgood
    cases howner with
    | caller hlive _ _ hholder hentry =>
      refine .caller hlive.access (by simp [hanswer]) (by simp [hanswer]) hholder fun hin ↦ ?_
      have hnone := (hentry (by simpa using hin)).2.1
      simp [hnone] at hanswer
    | nobody _ _ hfinished => simp [hcaller] at hfinished
  | callerDeletes =>
    obtain ⟨hcaller, rfl⟩ := Option.ite_some_none_eq_some.mp hadvance
    have hidle : call.holder = .idle := by
      simpa [respectsOwner, hsync] using hgood
    cases howner with
    | caller hlive hfinished hexecuted hholder hentry =>
      have hgone : registered = false := by
        by_contra hin
        obtain ⟨-, -, herased, hanswered⟩ := hentry (Bool.eq_true_of_not_eq_false hin)
        rcases hcaller with hcaller | hcaller | ⟨hcaller, -⟩
        · exact hexecuted hcaller
        · exact hanswered hcaller
        · exact herased hcaller
      subst hgone
      exact .nobody hlive.delete hidle rfl
    | nobody _ _ hfinished => simp [hfinished] at hcaller
  | headerThrows =>
    obtain ⟨response, hholder, rfl⟩ := Call.advance_headerThrows hadvance
    have hheld : call.holder ≠ .idle := by simp [hholder]
    rw [CallStep.keeps_entry registered (by decide)]
    exact howner.of_held hheld id (by simp)
  | putResponse =>
    obtain ⟨response, hholder, rfl⟩ := Call.advance_putResponse hadvance
    have hheld : call.holder ≠ .idle := by simp [hholder]
    rw [CallStep.keeps_entry registered (by decide)]
    exact howner.of_held hheld (fun hlive ↦ hlive.setResponseCommand response) (by simp)
  | notify =>
    obtain ⟨response, hholder, -, rfl⟩ := Call.advance_notify hadvance
    have hheld : call.holder ≠ .idle := by simp [hholder]
    have hcalled : (if response.isSome = true then HolderPhase.idle else .checking) ≠ .called := by
      cases response <;> simp
    rw [CallStep.keeps_entry registered (by decide)]
    exact howner.of_held hheld (fun hlive ↦ hlive.notify) hcalled
  | getInvokeCallback =>
    obtain ⟨hholder, rfl⟩ := Option.ite_some_none_eq_some.mp hadvance
    have hheld : call.holder ≠ .idle := by simp [hholder]
    rw [CallStep.keeps_entry registered (by decide)]
    exact howner.of_held hheld (fun hlive ↦ hlive.access) (by simp)
  | holderExecutes throws =>
    obtain ⟨response, -, hblock, -⟩ := Call.advance_holderExecutes hadvance
    exact absurd hsync (by simp [hblock])
  | holderDeletes =>
    obtain ⟨hholder, rfl⟩ := Option.ite_some_none_eq_some.mp hadvance
    cases howner <;> simp_all

/-- The owner of a future, by the kind of its call. -/
def Owner (registered : Bool) (call : Call) : Prop :=
  if call.future.block then SyncOwner registered call else AsyncOwner registered call

theorem owner_sync {registered : Bool} {call : Call} (hsync : call.future.block = true) :
    Owner registered call ↔ SyncOwner registered call := by
  rw [Owner, if_pos hsync]

theorem owner_async {registered : Bool} {call : Call} (hasync : call.future.block = false) :
    Owner registered call ↔ AsyncOwner registered call := by
  rw [Owner, if_neg (by simp [hasync])]

/-- The steps that respect the owner keep one owner for every future. -/
theorem respectsOwner_maintained : Maintained respectsOwner Owner where
  new opaqueId timeoutMillis now block := by
    cases block with
    | false => exact (owner_async rfl).mpr (.table ⟨rfl, rfl⟩ rfl rfl)
    | true =>
      refine (owner_sync rfl).mpr (.caller ⟨rfl, rfl⟩ ?_ ?_ ?_ fun _ ↦ ⟨rfl, rfl, ?_, ?_⟩) <;>
        simp [Call.new]
  advance registered step call next hgood hadvance howner := by
    have hsame := Call.advance_block hadvance
    cases hblock : call.future.block with
    | false =>
      exact (owner_async (hsame.trans hblock)).mpr
        (AsyncOwner.advance hgood hadvance hblock ((owner_async hblock).mp howner))
    | true =>
      exact (owner_sync (hsame.trans hblock)).mpr
        (SyncOwner.advance hgood hadvance hblock ((owner_sync hblock).mp howner))
  take call response _ howner := by
    cases hblock : call.future.block with
    | false =>
      cases (owner_async hblock).mp howner with
      | table hlive hidle hsends =>
        have hasync : (call.take response).future.block = false := hblock
        refine (owner_async hasync).mpr (.holder hlive.access ?_ ?_ hsends) <;> simp [Call.take]
    | true =>
      cases (owner_sync hblock).mp howner with
      | caller hlive hfinished hexecuted _ _ =>
        have hsync : (call.take response).future.block = true := hblock
        refine (owner_sync hsync).mpr (.caller hlive.access hfinished hexecuted ?_ ?_) <;>
          simp [Call.take]
  access call howner := by
    cases hblock : call.future.block with
    | false =>
      cases (owner_async hblock).mp howner with
      | table hlive hidle hsends =>
        refine (owner_async ?_).mpr (.table hlive.access hidle hsends)
        exact hblock
    | true =>
      cases (owner_sync hblock).mp howner with
      | caller hlive hfinished hexecuted hholder hentry =>
        refine (owner_sync ?_).mpr (.caller hlive.access hfinished hexecuted hholder hentry)
        exact hblock

/-- What is due to a future: it is deleted at most once and not accessed afterwards, and it has been
deleted when the caller has returned, no thread holds it and its entry is gone. -/
structure Call.ReleasedOnce (registered : Bool) (call : Call) : Prop where
  atMostOnce : call.future.deletions ≤ 1
  notMisused : call.future.misused = false
  released : call.caller = .finished → call.holder = .idle → registered = false →
    call.future.deletions = 1

/-- A future with an owner gets its due. -/
theorem Owner.releasedOnce {registered : Bool} {call : Call} (howner : Owner registered call) :
    call.ReleasedOnce registered := by
  have hlive : call.future.Live → (call.caller = .finished → call.holder = .idle →
      registered = true) → call.ReleasedOnce registered := by
    intro hlive huse
    refine ⟨by rw [hlive.1]; exact Nat.zero_le 1, hlive.2, fun hfinished hidle hgone ↦ ?_⟩
    exact absurd (huse hfinished hidle) (by simp [hgone])
  have hreleased : call.future.Released → call.ReleasedOnce registered :=
    fun hreleased ↦ ⟨le_of_eq hreleased.1, hreleased.2, fun _ _ _ ↦ hreleased.1⟩
  cases hblock : call.future.block with
  | false =>
    cases (owner_async hblock).mp howner with
    | table hold hidle hsends => exact hlive hold fun _ _ ↦ rfl
    | holder hold hheld hchecking hsends => exact hlive hold fun _ hidle ↦ absurd hidle hheld
    | caller hold hidle hfailed =>
      exact hlive hold fun hfinished _ ↦ absurd hfailed (by simp [hfinished])
    | nobody hdeleted hidle hsends => exact hreleased hdeleted
  | true =>
    cases (owner_sync hblock).mp howner with
    | caller hold hfinished hexecuted hholder hentry =>
      exact hlive hold fun hend _ ↦ absurd hend hfinished
    | nobody hdeleted hidle hfinished => exact hreleased hdeleted

/-- In every run whose steps respect the owners, every future is released exactly once and nobody
accesses it after its release. -/
theorem response_future_released_once {events : List RemotingEvent} {last : RemotingState}
    (halong : remotingSystem.Along (RemotingState.Meets respectsOwner) RemotingState.initial
      events)
    (hrun : remotingSystem.run RemotingState.initial events = some last) :
    ∀ call ∈ last.responses.objects,
      call.ReleasedOnce (decide (call.opaqueId ∈ last.responses.table)) := by
  intro call hcall
  obtain ⟨address, hget⟩ := List.mem_iff_getElem?.mp hcall
  have howner : Owner (decide (call.opaqueId ∈ last.responses.table)) call :=
    (respectsOwner_maintained.run halong hrun).each address call hget
  exact howner.releasedOnce

/-- A synchronous call that is answered and an asynchronous one that expires: both futures are
deleted. -/
theorem response_futures_of_two_calls_released :
    let events : List RemotingEvent := [.invoke 1 3000 0 true, .invoke 2 3000 0 false,
      .thread 0 (.sendCmd true), .thread 1 (.sendCmd true), .thread 0 .setSendRequestOK,
      .thread 1 .setSendRequestOK, .processData 1, .thread 0 .putResponse, .thread 0 .notify,
      .handleTimerEvent 2 4000, .thread 0 .waitResponse, .thread 1 .putResponse,
      .thread 0 .callerDeletes, .thread 1 (.holderExecutes false), .thread 1 .holderDeletes]
    ∃ last, remotingSystem.run RemotingState.initial events = some last ∧
      (last.responses.objects.map fun call ↦ call.future.deletions) = [1, 1] ∧
      ∀ call ∈ last.responses.objects,
        call.ReleasedOnce (decide (call.opaqueId ∈ last.responses.table)) := by
  intro events
  have hdeletions : (remotingSystem.run RemotingState.initial events).map (fun last ↦
      last.responses.objects.map fun call ↦ call.future.deletions) = some [1, 1] := by decide
  obtain ⟨last, hrun, hlast⟩ := Option.map_eq_some_iff.mp hdeletions
  exact ⟨last, hrun, hlast, response_future_released_once (by decide) hrun⟩

/-- A synchronous call whose response does not come: the event loop takes the entry out and stores
`NULL`, `waitResponse` returns `NULL`, and the future is never deleted. -/
theorem timed_out_sync_call_never_released :
    let events : List RemotingEvent := [.invoke 1 3000 0 true, .thread 0 (.sendCmd true),
      .thread 0 .setSendRequestOK, .handleTimerEvent 1 3001, .thread 0 .putResponse,
      .thread 0 .notify, .thread 0 .getInvokeCallback, .thread 0 .waitResponse]
    (remotingSystem.run RemotingState.initial events).map (fun last ↦
        (last.responses.table.keys, last.responses.objects.map fun call ↦
          (call.caller, call.holder, call.future.deletions))) =
      some ([], [(.finished, .idle, 0)]) := by
  decide

end RocketMQClient.Transport
