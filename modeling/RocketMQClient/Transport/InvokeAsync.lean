import RocketMQClient.Transport.ResponseFuture

/-!
# Completion of asynchronous calls

Whoever takes the entry of an asynchronous call out of the table runs the callback: the worker with
the response, the event loop without one, or the caller when its send has failed. The failure path
of `invokeAsyncImpl` does not look whether it found the entry, so a send that fails after the entry
has expired, or after a response has been processed, erases `end()` (`expired_before_failed_send`).
And a worker takes the entry out before it makes the custom header of the response; when that
throws, nobody is left to run the callback.

In every run in which a failure path of `invokeAsyncImpl` still finds its entry, and the header of a
response to an asynchronous call can be made, each callback runs exactly once
(`invokeAsync_completes_once`), also when callbacks throw.
-/

set_option autoImplicit false
set_option relaxedAutoImplicit false

namespace RocketMQClient.Transport

open Library

/-- A response a callback may see: none, or the one of its own request. -/
def ResponseFuture.Own (future : ResponseFuture) (response : Option ℤ) : Prop :=
  response = none ∨ response = some future.opaqueId

/-- No callback has been run and no response stored. -/
def ResponseFuture.Pending (future : ResponseFuture) : Prop :=
  future.exec = 0 ∧ future.callbacks = []

namespace Call

/-- The party that took the entry out of the table has not run the callback yet. -/
def Completing (call : Call) : Prop :=
  (∃ response, call.holder = .took response) ∨ (∃ response, call.holder = .stored response) ∨
    call.caller = .erased

/-- What an asynchronous call is owed: no callback while its entry is in the table, one callback
when the party that took the entry out is done, and no other response than its own. -/
structure CompletedOnce (registered : Bool) (call : Call) : Prop where
  atMostOnce : call.future.callbacks.length ≤ 1
  own : ∀ response ∈ call.future.callbacks, call.future.Own response
  waiting : registered = true → call.future.callbacks = []
  completed : registered = false → ¬ call.Completing → call.future.callbacks.length = 1

/-- Who is to complete an asynchronous call: nobody yet, the holder, the caller, or it is done. -/
inductive Progress : Bool → Call → Prop
  | waiting {call : Call} : call.future.Pending → call.future.responseCommand = none →
    call.holder = .idle → call.caller ≠ .erased → Progress true call
  | taken {call : Call} {response : Option ℤ} : call.future.Pending → call.future.Own response →
    call.holder = .took response → call.caller ≠ .erased → Progress false call
  | stored {call : Call} : call.future.Pending →
    call.future.Own call.future.responseCommand →
    call.holder = .stored call.future.responseCommand → call.caller ≠ .erased →
    Progress false call
  | failed {call : Call} : call.future.Pending → call.future.responseCommand = none →
    call.holder = .idle → call.caller = .erased → Progress false call
  | done {call : Call} {response : Option ℤ} : 0 < call.future.exec →
    call.future.callbacks = [response] → call.future.Own response →
    call.holder = .idle ∨ call.holder = .called → call.caller ≠ .erased → Progress false call

end Call

/-- An asynchronous call erases its entry only while it is in the table, and the custom header of
its response can be made. -/
def keepsCompletion (registered : Bool) (step : CallStep) (call : Call) : Bool :=
  match step with
  | .eraseEntry => call.future.block || registered
  | .headerThrows => call.future.block
  | _ => true

namespace Call.Progress

variable {registered : Bool} {call next : Call}

/-- A step that neither completes the call nor changes who is to complete it. -/
theorem of_same (hprogress : Progress registered call)
    (hexec : next.future.exec = call.future.exec)
    (hcallbacks : next.future.callbacks = call.future.callbacks)
    (hresponse : next.future.responseCommand = call.future.responseCommand)
    (hkey : next.future.opaqueId = call.future.opaqueId) (hholder : next.holder = call.holder)
    (hcaller : next.caller = .erased ↔ call.caller = .erased) : Progress registered next := by
  have hpending : call.future.Pending → next.future.Pending :=
    fun hold ↦ ⟨hexec.trans hold.1, hcallbacks.trans hold.2⟩
  have hown : ∀ response, call.future.Own response → next.future.Own response :=
    fun response hold ↦ hold.imp_right fun hsome ↦ hkey ▸ hsome
  cases hprogress with
  | waiting hold hnone hidle herased =>
    exact .waiting (hpending hold) (hresponse.trans hnone) (hholder.trans hidle)
      (mt hcaller.mp herased)
  | taken hold hresp htook herased =>
    exact .taken (hpending hold) (hown _ hresp) (hholder.trans htook) (mt hcaller.mp herased)
  | stored hold hresp hstored herased =>
    rw [← hresponse] at hresp hstored
    exact .stored (hpending hold) (hown _ hresp) (hholder.trans hstored) (mt hcaller.mp herased)
  | failed hold hnone hidle herased =>
    exact .failed (hpending hold) (hresponse.trans hnone) (hholder.trans hidle)
      (hcaller.mpr herased)
  | done hdone hruns hresp hafter herased =>
    exact .done (hexec ▸ hdone) (hcallbacks.trans hruns) (hown _ hresp) (hholder ▸ hafter)
      (mt hcaller.mp herased)

/-- The first run of the callback of an asynchronous call. -/
theorem executeInvokeCallback_pending {future : ResponseFuture} (hasync : future.block = false)
    (hpending : future.Pending) :
    future.executeInvokeCallback.exec = 1 ∧
      future.executeInvokeCallback.callbacks = [future.responseCommand] ∧
      future.executeInvokeCallback.opaqueId = future.opaqueId := by
  simp [ResponseFuture.executeInvokeCallback, ResponseFuture.access, hasync, hpending.1,
    hpending.2]

theorem own_executeInvokeCallback {future : ResponseFuture} (hasync : future.block = false)
    (hpending : future.Pending) {response : Option ℤ} (hown : future.Own response) :
    future.executeInvokeCallback.Own response := by
  rw [ResponseFuture.Own, (executeInvokeCallback_pending hasync hpending).2.2]
  exact hown

end Call.Progress

/-- Every step of a thread that meets the condition keeps an asynchronous call in order. -/
theorem Call.Progress.advance {registered : Bool} {step : CallStep} {call next : Call}
    (hgood : keepsCompletion registered step call = true)
    (hadvance : call.advance step = some next) (hasync : call.future.block = false)
    (hprogress : Call.Progress registered call) :
    Call.Progress (registered && step != .eraseEntry) next := by
  cases step with
  | sendCmd ok =>
    obtain ⟨hcaller, rfl⟩ := Option.ite_some_none_eq_some.mp hadvance
    rw [CallStep.keeps_entry registered (by simp)]
    exact hprogress.of_same rfl rfl rfl rfl rfl (by simp [hcaller])
  | setSendRequestOK =>
    obtain ⟨ok, hcaller, rfl⟩ := Call.advance_setSendRequestOK hadvance
    rw [CallStep.keeps_entry registered (by decide)]
    refine hprogress.of_same rfl rfl rfl rfl rfl ?_
    cases ok <;> simp [hcaller, hasync]
  | eraseEntry =>
    obtain ⟨hcaller, rfl⟩ := Option.ite_some_none_eq_some.mp hadvance
    have hregistered : registered = true := by
      simpa [keepsCompletion, hasync] using hgood
    subst hregistered
    cases hprogress with
    | waiting hpending hnone hidle herased => exact .failed hpending hnone hidle rfl
  | callerExecutes throws =>
    obtain ⟨⟨hcaller, -⟩, rfl⟩ := Option.ite_some_none_eq_some.mp hadvance
    cases hprogress with
    | failed hpending hnone hidle herased =>
      obtain ⟨hexec, hcallbacks, -⟩ := executeInvokeCallback_pending hasync hpending
      exact .done (by rw [hexec]; exact Nat.one_pos) hcallbacks
        (own_executeInvokeCallback hasync hpending (Or.inl hnone)) (Or.inl hidle)
        (by cases throws <;> simp)
    | _ => exact absurd hcaller ‹_›
  | waitResponse =>
    obtain ⟨hcaller, rfl⟩ := Option.ite_some_none_eq_some.mp hadvance
    rw [CallStep.keeps_entry registered (by decide)]
    refine hprogress.of_same rfl rfl rfl rfl rfl ?_
    by_cases hanswer : call.future.responseCommand.isSome <;> simp [hanswer, hcaller]
  | callerDeletes =>
    obtain ⟨hcaller, rfl⟩ := Option.ite_some_none_eq_some.mp hadvance
    rw [CallStep.keeps_entry registered (by decide)]
    refine hprogress.of_same rfl rfl rfl rfl rfl ?_
    rcases hcaller with hcaller | hcaller | ⟨-, hblock⟩
    · simp [hcaller]
    · simp [hcaller]
    · exact absurd hblock (by simp [hasync])
  | headerThrows =>
    have hblock : call.future.block = true := hgood
    exact absurd hblock (by simp [hasync])
  | putResponse =>
    obtain ⟨response, hholder, rfl⟩ := Call.advance_putResponse hadvance
    cases hprogress with
    | taken hpending hown htook herased =>
      obtain rfl := HolderPhase.took.inj (hholder.symm.trans htook)
      exact .stored hpending hown rfl herased
    | _ => simp_all
  | notify =>
    obtain ⟨response, -, hblock, -⟩ := Call.advance_notify hadvance
    exact absurd hblock (by simp [hasync])
  | getInvokeCallback =>
    obtain ⟨hholder, rfl⟩ := Option.ite_some_none_eq_some.mp hadvance
    cases hprogress <;> simp_all
  | holderExecutes throws =>
    obtain ⟨response, hholder, -, rfl⟩ := Call.advance_holderExecutes hadvance
    cases hprogress with
    | stored hpending hown hstored herased =>
      obtain ⟨hexec, hcallbacks, -⟩ := executeInvokeCallback_pending hasync hpending
      exact .done (by rw [hexec]; exact Nat.one_pos) hcallbacks
        (own_executeInvokeCallback hasync hpending hown) (by cases throws <;> simp) herased
    | _ => simp_all
  | holderDeletes =>
    obtain ⟨hholder, rfl⟩ := Option.ite_some_none_eq_some.mp hadvance
    cases hprogress with
    | done hexec hcallbacks hown hafter herased =>
      exact .done hexec hcallbacks hown (Or.inl rfl) herased
    | _ => simp_all

/-- The calls of `invokeAsyncImpl` make progress. -/
theorem keepsCompletion_maintained :
    Maintained keepsCompletion fun registered call ↦
      call.future.block = false → Call.Progress registered call where
  new opaqueId timeoutMillis now block := by
    intro hasync
    exact .waiting ⟨rfl, rfl⟩ rfl rfl (by simp [Call.new])
  advance registered step call next hgood hadvance hprogress := by
    intro hasync
    rw [Call.advance_block hadvance] at hasync
    exact Call.Progress.advance hgood hadvance hasync (hprogress hasync)
  take call response hresponse hprogress := by
    intro hasync
    cases hprogress hasync with
    | waiting hpending hnone hidle herased => exact .taken hpending hresponse rfl herased
  access call hprogress := by
    intro hasync
    exact (hprogress hasync).of_same rfl rfl rfl rfl rfl Iff.rfl

/-- A call that makes progress gets what it is owed. -/
theorem Call.Progress.completedOnce {registered : Bool} {call : Call}
    (hprogress : Call.Progress registered call) : call.CompletedOnce registered := by
  have hpending : ∀ {inTable : Bool}, call.future.Pending →
      (inTable = false → call.Completing) → call.CompletedOnce inTable := by
    intro inTable hold hcompleting
    refine ⟨?_, ?_, fun _ ↦ hold.2, fun hgone hidle ↦ absurd (hcompleting hgone) hidle⟩
    · rw [hold.2]
      exact Nat.zero_le 1
    · intro response hmem
      rw [hold.2] at hmem
      exact absurd hmem List.not_mem_nil
  cases hprogress with
  | waiting hold => exact hpending hold fun hgone ↦ absurd hgone (by decide)
  | taken hold hown htook => exact hpending hold fun _ ↦ Or.inl ⟨_, htook⟩
  | stored hold hown hstored => exact hpending hold fun _ ↦ Or.inr (Or.inl ⟨_, hstored⟩)
  | failed hold hnone hidle herased => exact hpending hold fun _ ↦ Or.inr (Or.inr herased)
  | done hexec hcallbacks hown =>
    refine ⟨by rw [hcallbacks]; rfl, ?_, fun hin ↦ absurd hin (by decide), ?_⟩
    · intro other hmem
      rw [hcallbacks, List.mem_singleton] at hmem
      exact hmem ▸ hown
    · intro _ _
      rw [hcallbacks]
      rfl

/-- In every run in which the failure paths of `invokeAsyncImpl` find their entries, and the headers
of the responses to asynchronous calls can be made, the table is not damaged, every asynchronous
call completes once, and no step changes another call's entry. -/
theorem invokeAsync_completes_once {events : List RemotingEvent} {last : RemotingState}
    (halong : remotingSystem.Along (RemotingState.Meets keepsCompletion) RemotingState.initial
      events)
    (hrun : remotingSystem.run RemotingState.initial events = some last) :
    last.damaged = false ∧
      (∀ call ∈ last.responses.objects, call.future.block = false →
        call.CompletedOnce (decide (call.opaqueId ∈ last.responses.table))) ∧
      ∀ event next, remotingSystem.step last event = some next → ∀ other,
        last.subject event ≠ some other →
        next.responses.table.find? other = last.responses.table.find? other := by
  have hholds := keepsCompletion_maintained.run halong hrun
  refine ⟨?_, ?_, ?_⟩
  · have herase : ∀ call, keepsCompletion false .eraseEntry call = true →
        call.future.block = true := by
      intro call hcall
      simpa [keepsCompletion] using hcall
    exact RemotingState.run_damaged herase halong hrun
  · intro call hcall hasync
    obtain ⟨address, hget⟩ := List.mem_iff_getElem?.mp hcall
    exact (hholds.each address call hget hasync).completedOnce
  · intro event next hstep other hother
    exact RemotingState.step_other hholds hstep hother

/-- Two asynchronous calls, one answered while its caller is still in `SendCmd`, one whose send
fails and whose callback throws. -/
theorem invokeAsync_completes_two_calls :
    let events : List RemotingEvent := [.invoke 1 3000 0 false, .invoke 2 3000 0 false,
      .thread 0 (.sendCmd true), .processData 1, .thread 1 (.sendCmd false),
      .thread 1 .setSendRequestOK, .thread 0 .putResponse, .thread 1 .eraseEntry,
      .thread 0 .setSendRequestOK, .thread 0 (.holderExecutes false),
      .thread 1 (.callerExecutes true), .thread 0 .holderDeletes]
    ∃ last, remotingSystem.run RemotingState.initial events = some last ∧
      (last.responses.objects.map fun call ↦ call.future.callbacks) = [[some 1], [none]] ∧
      last.damaged = false ∧ ∀ call ∈ last.responses.objects, call.future.block = false →
        call.CompletedOnce (decide (call.opaqueId ∈ last.responses.table)) := by
  intro events
  have hcallbacks : (remotingSystem.run RemotingState.initial events).map (fun last ↦
      last.responses.objects.map fun call ↦ call.future.callbacks) = some [[some 1], [none]] := by
    decide
  obtain ⟨last, hrun, hlast⟩ := Option.map_eq_some_iff.mp hcallbacks
  have hall := invokeAsync_completes_once (by decide) hrun
  exact ⟨last, hrun, hlast, hall.1, hall.2.1⟩

/-- A send that fails after the entry has expired: the event loop has run the callback and deleted
the future, and the failure path erases `end()` and uses the future again. -/
theorem expired_before_failed_send :
    let events : List RemotingEvent := [.invoke 1 3000 0 false, .handleTimerEvent 1 3001,
      .thread 0 .putResponse, .thread 0 (.holderExecutes false), .thread 0 .holderDeletes,
      .thread 0 (.sendCmd false), .thread 0 .setSendRequestOK, .thread 0 .eraseEntry]
    (remotingSystem.run RemotingState.initial events).map (fun last ↦
        (last.damaged, last.responses.objects.map fun call ↦
          (call.future.callbacks, call.future.deletions, call.future.misused))) =
      some (true, [([none], 1, true)]) := by
  decide

end RocketMQClient.Transport
