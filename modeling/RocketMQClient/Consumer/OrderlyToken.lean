import RocketMQClient.Consumer.OrderlyRequest

/-!
# The consume token of an orderly queue

The consuming flag of a process queue is to say that a request or a timer for it exists, its token.
`TokenInvariant` holds in every run: there is never more than one token, none while the flag is off,
and one while the flag is on and the queue is not dropped.

A `takeMessags` that takes nothing clears the flag in a second step, after it has released the lock
of the tree map. A `putMessage` between the two steps still sees the flag and asks for no request,
so its messages stay without one (`put_before_clear_loses_wakeup`). In every run in which no
messages are stored between the two steps, a queue that is not dropped and has messages has exactly
one token (`orderly_one_token`).
-/

set_option autoImplicit false
set_option relaxedAutoImplicit false

namespace RocketMQClient.Consumer

open Library Messages

/-! ### At most one token -/

/-- One token at most, none while the flag is off, and one while it is on and the queue is not
dropped. -/
structure TokenInvariant (state : OrderlyRequestState) : Prop where
  atMostOne : state.tokens ≤ 1
  resting : state.processQueue.consuming = false → state.tokens = 0
  present : state.processQueue.droped = false → state.processQueue.consuming = true →
    state.tokens = 1

theorem tokenInvariant_initial (now : ℤ) : TokenInvariant (OrderlyRequestState.initial now) where
  atMostOne := Nat.zero_le 1
  resting _ := rfl
  present _ hconsuming := absurd hconsuming (by
    simp [OrderlyRequestState.initial, ProcessQueue.new])

/-- `putMessage` asks for a request when it sets the flag. -/
theorem putMessage_consuming (queue : ProcessQueue) (msgs : List MessageExt) :
    (queue.putMessage msgs).1 = true ∧ queue.consuming = false ∧
        (queue.putMessage msgs).2.consuming = true ∨
      (queue.putMessage msgs).1 = false ∧
        (queue.putMessage msgs).2.consuming = queue.consuming ∧
        (queue.consuming = false → (queue.putMessage msgs).2.msgTreeMap.isEmpty = true) := by
  unfold ProcessQueue.putMessage
  dsimp only
  split
  · rename_i hdispatch
    rw [Bool.and_eq_true, Bool.not_eq_true', Bool.not_eq_true'] at hdispatch
    exact Or.inl ⟨rfl, hdispatch.2, rfl⟩
  · rename_i hkeep
    refine Or.inr ⟨rfl, rfl, fun hconsuming ↦ ?_⟩
    by_contra hempty
    exact hkeep (by simp [hconsuming, Bool.eq_false_of_not_eq_true hempty])

section Steps

variable {messageModel : MessageModel} {batchSize : ℤ} {state next : OrderlyRequestState}

/-- The tokens after a step of a request. -/
theorem tokens_afterRequest {index : ℕ} {phase : RequestPhase} (input : RequestInput)
    (hget : state.requests[index]? = some phase) :
    (state.afterRequest messageModel batchSize index phase input).tokens + phase.carries.toNat =
      state.tokens +
        ((phase.advance messageModel batchSize state.processQueue input).phase.carries.toNat +
          (phase.advance messageModel batchSize state.processQueue input).submitted.countP
            RequestPhase.carries) := by
  have hcount := countP_advanceTask RequestPhase.carries
    (phase.advance messageModel batchSize state.processQueue input).phase
    (phase.advance messageModel batchSize state.processQueue input).submitted hget
  show state.submitting + (advanceTask state.requests index _ _).countP RequestPhase.carries + _ =
    state.submitting + state.requests.countP RequestPhase.carries + _
  omega

/-- A request of a queue has at most the token of the queue. -/
theorem carries_le_tokens {index : ℕ} {phase : RequestPhase}
    (hget : state.requests[index]? = some phase) : phase.carries.toNat ≤ state.tokens := by
  cases hcarries : phase.carries with
  | false => exact Nat.zero_le _
  | true =>
    have hpos : 0 < state.requests.countP RequestPhase.carries :=
      List.countP_pos_iff.mpr ⟨phase, List.mem_of_getElem? hget, hcarries⟩
    exact Nat.le_add_left_of_le hpos

theorem tokenInvariant_putMessage (msgs : List MessageExt) (hinvariant : TokenInvariant state)
    (hstep : (orderlyRequestSystem messageModel batchSize).step state (.putMessage msgs) =
      some next) : TokenInvariant next := by
  obtain rfl := Option.some.inj hstep
  rcases putMessage_consuming state.processQueue msgs with
    ⟨hdispatch, hoff, hon⟩ | ⟨hkeep, hsame, -⟩
  · have htokens := hinvariant.resting hoff
    rw [OrderlyRequestState.tokens] at htokens
    have hone : state.submitting + 1 + state.requests.countP RequestPhase.carries = 1 := by
      omega
    refine ⟨?_, fun hresting ↦ ?_, fun _ _ ↦ ?_⟩
    · simp only [OrderlyRequestState.tokens, hdispatch, if_true]
      omega
    · exact absurd (hon.symm.trans hresting) (by decide)
    · simpa only [OrderlyRequestState.tokens, hdispatch, if_true] using hone
  · refine ⟨?_, fun hresting ↦ ?_, fun hdroped hconsuming ↦ ?_⟩
    · simpa [OrderlyRequestState.tokens, hkeep] using hinvariant.atMostOne
    · simpa [OrderlyRequestState.tokens, hkeep] using hinvariant.resting (hsame.symm.trans hresting)
    · rw [ProcessQueue.putMessage_droped] at hdroped
      simpa [OrderlyRequestState.tokens, hkeep] using
        hinvariant.present hdroped (hsame.symm.trans hconsuming)

variable (messageModel batchSize) in
/-- A request that clears the flag, or leaves a dropped queue, takes its token with it; every other
step of a request keeps the tokens and the flag. -/
theorem afterRequest_cases {index : ℕ} {phase : RequestPhase} (input : RequestInput)
    (hget : state.requests[index]? = some phase) :
    let after := state.afterRequest messageModel batchSize index phase input
    (phase = .clearing ∧ after.tokens + 1 = state.tokens ∧
        after.processQueue.consuming = false) ∨
      (phase.leavesDroped state.processQueue = true ∧ after.tokens + 1 = state.tokens ∧
        after.processQueue.consuming = state.processQueue.consuming) ∨
      (phase ≠ .clearing ∧ phase.leavesDroped state.processQueue = false ∧
        after.tokens = state.tokens ∧
        after.processQueue.consuming = state.processQueue.consuming) := by
  intro after
  have htokens : after.tokens + phase.carries.toNat = state.tokens + _ :=
    tokens_afterRequest input hget
  by_cases hclearing : phase = .clearing
  · subst hclearing
    exact Or.inl ⟨rfl, htokens, rfl⟩
  · have hflag := (RequestPhase.advance_flags messageModel batchSize state.processQueue input
      phase).2.2 hclearing
    cases hleaves : phase.leavesDroped state.processQueue with
    | true =>
      cases phase with
      | looping beginTime =>
        have hdroped : state.processQueue.droped = true := hleaves
        simp only [RequestPhase.advance, hdroped, if_true] at htokens
        exact Or.inr (Or.inl ⟨rfl, htokens, hflag⟩)
      | _ => exact absurd hleaves (by simp [RequestPhase.leavesDroped])
    | false =>
      have hbalance := RequestPhase.advance_balance messageModel batchSize state.processQueue input
        hclearing hleaves
      exact Or.inr (Or.inr ⟨hclearing, rfl, by omega, hflag⟩)

theorem tokenInvariant_afterRequest {index : ℕ} {phase : RequestPhase} (input : RequestInput)
    (hinvariant : TokenInvariant state) (hget : state.requests[index]? = some phase) :
    TokenInvariant (state.afterRequest messageModel batchSize index phase input) := by
  have hdroped := (RequestPhase.advance_flags messageModel batchSize state.processQueue input
    phase).1
  have hone := hinvariant.atMostOne
  rcases afterRequest_cases messageModel batchSize input hget with
    ⟨-, htokens, hoff⟩ | ⟨hleaves, htokens, -⟩ | ⟨-, -, htokens, hflag⟩
  · exact ⟨by omega, fun _ ↦ by omega, fun _ hon ↦ absurd (hoff.symm.trans hon) (by decide)⟩
  · refine ⟨by omega, fun _ ↦ by omega, fun hlive _ ↦ ?_⟩
    cases phase with
    | looping beginTime => exact absurd (hlive.symm.trans (hdroped.trans hleaves)) (by decide)
    | _ => exact absurd hleaves (by simp [RequestPhase.leavesDroped])
  · refine ⟨htokens.trans_le hone, fun hoff ↦ ?_, fun hlive hon ↦ ?_⟩
    · exact htokens.trans (hinvariant.resting (hflag.symm.trans hoff))
    · exact htokens.trans (hinvariant.present (hdroped.symm.trans hlive) (hflag.symm.trans hon))

/-- A callback that submits its request hands its token over. -/
theorem tokens_submit (hpos : 0 < state.submitting) :
    ({ state with
        submitting := state.submitting - 1
        requests := state.requests ++ [.queued] } : OrderlyRequestState).tokens =
      state.tokens := by
  rw [OrderlyRequestState.tokens, OrderlyRequestState.tokens, List.countP_append]
  simp only [List.countP_singleton, RequestPhase.carries, if_true]
  omega

/-- A step that neither touches the process queue nor changes the number of tokens. -/
theorem TokenInvariant.of_tokens (hinvariant : TokenInvariant state)
    (hqueue : next.processQueue = state.processQueue) (htokens : next.tokens = state.tokens) :
    TokenInvariant next where
  atMostOne := htokens.trans_le hinvariant.atMostOne
  resting hoff := htokens.trans (hinvariant.resting (hqueue ▸ hoff))
  present hlive hon := htokens.trans (hinvariant.present (hqueue ▸ hlive) (hqueue ▸ hon))

/-- Every step keeps the invariant. -/
theorem tokenInvariant_step {event : OrderlyRequestEvent} (hinvariant : TokenInvariant state)
    (hstep : (orderlyRequestSystem messageModel batchSize).step state event = some next) :
    TokenInvariant next := by
  cases event with
  | putMessage msgs => exact tokenInvariant_putMessage msgs hinvariant hstep
  | submitConsumeRequest =>
    obtain ⟨hpos, rfl⟩ := Option.ite_some_none_eq_some.mp hstep
    exact hinvariant.of_tokens rfl (tokens_submit hpos)
  | request index input =>
    obtain ⟨phase, hget, -, rfl⟩ := orderlyRequest_cases hstep
    exact tokenInvariant_afterRequest input hinvariant hget
  | setDroped =>
    obtain rfl := Option.some.inj hstep
    exact ⟨hinvariant.atMostOne, hinvariant.resting, fun hlive _ ↦ absurd hlive (by
      simp [ProcessQueue.setDroped])⟩
  | setLocked locked now =>
    obtain rfl := Option.some.inj hstep
    exact ⟨hinvariant.atMostOne, hinvariant.resting, hinvariant.present⟩

end Steps

/-! ### No lost wake-up -/

/-- No messages are stored while a request has taken nothing and has not cleared the flag yet. -/
def StoresOutsideClear (state : OrderlyRequestState) : OrderlyRequestEvent → Prop
  | .putMessage msgs => msgs = [] ∨ RequestPhase.clearing ∉ state.requests
  | _ => True

instance (state : OrderlyRequestState) (event : OrderlyRequestEvent) :
    Decidable (StoresOutsideClear state event) :=
  match event with
  | .putMessage _ => inferInstanceAs (Decidable (_ ∨ _))
  | .submitConsumeRequest => isTrue trivial
  | .request _ _ => isTrue trivial
  | .setDroped => isTrue trivial
  | .setLocked _ _ => isTrue trivial

/-- A queue that is not dropped, has messages and has no step half done has exactly one request or
timer still to consume. -/
def OneToken (state : OrderlyRequestState) : Prop :=
  state.processQueue.droped = false → state.processQueue.msgTreeMap.isEmpty = false →
    state.submitting = 0 → RequestPhase.clearing ∉ state.requests →
    state.requests.countP RequestPhase.carries = 1

/-- The tokens, and an empty tree map while the flag is off or about to be cleared. -/
structure WakeupInvariant (state : OrderlyRequestState) : Prop where
  token : TokenInvariant state
  drained : state.processQueue.consuming = false → state.processQueue.msgTreeMap.isEmpty = true
  clearing : RequestPhase.clearing ∈ state.requests → state.processQueue.msgTreeMap.isEmpty = true

theorem WakeupInvariant.oneToken {state : OrderlyRequestState}
    (hinvariant : WakeupInvariant state) : OneToken state := by
  intro hlive hmessages hsubmitting _
  have hon : state.processQueue.consuming = true := by
    by_contra hoff
    have hempty := hinvariant.drained (Bool.eq_false_of_not_eq_true hoff)
    exact absurd (hmessages.symm.trans hempty) (by decide)
  have hone := hinvariant.token.present hlive hon
  rwa [OrderlyRequestState.tokens, hsubmitting, Nat.zero_add] at hone

/-- Messages are stored while no request is about to clear the flag. -/
theorem wakeupInvariant_putMessage {messageModel : MessageModel} {batchSize : ℤ}
    {state next : OrderlyRequestState} {msgs : List MessageExt}
    (hgood : StoresOutsideClear state (.putMessage msgs)) (hinvariant : WakeupInvariant state)
    (hstep : (orderlyRequestSystem messageModel batchSize).step state (.putMessage msgs) =
      some next) : WakeupInvariant next := by
  have htoken := tokenInvariant_putMessage msgs hinvariant.token hstep
  obtain rfl := Option.some.inj hstep
  refine ⟨htoken, fun hoff ↦ ?_, fun hclearing ↦ ?_⟩
  · rcases putMessage_consuming state.processQueue msgs with ⟨-, -, hon⟩ | ⟨-, hsame, hempty⟩
    · exact absurd (hon.symm.trans hoff) (by decide)
    · exact hempty (hsame.symm.trans hoff)
  · rcases hgood with rfl | habsent
    · show (state.processQueue.putMessage []).2.msgTreeMap.isEmpty = true
      rw [ProcessQueue.putMessage_msgTreeMap]
      exact hinvariant.clearing hclearing
    · exact absurd hclearing habsent

/-- A request empties the tree map before it is about to clear the flag, and no other request gives
messages back meanwhile. -/
theorem wakeupInvariant_afterRequest {messageModel : MessageModel} {batchSize : ℤ}
    (hbatch : 1 ≤ batchSize) {state : OrderlyRequestState} {index : ℕ} {phase : RequestPhase}
    (input : RequestInput) (hinvariant : WakeupInvariant state)
    (hget : state.requests[index]? = some phase) :
    WakeupInvariant (state.afterRequest messageModel batchSize index phase input) := by
  have hother : ∀ other ∈ state.requests, other.carries = true → phase.carries = true →
      other = phase := by
    intro other hmem hcarries hphase
    by_contra hne
    have htwo := two_le_countP hget hphase hmem hcarries hne
    have hone := hinvariant.token.atMostOne
    rw [OrderlyRequestState.tokens] at hone
    omega
  refine ⟨tokenInvariant_afterRequest input hinvariant.token hget, fun hoff ↦ ?_,
    fun hclearing ↦ ?_⟩
  · by_cases hclearing : phase = .clearing
    · subst hclearing
      exact hinvariant.clearing (List.mem_of_getElem? hget)
    · have hflag := (RequestPhase.advance_flags messageModel batchSize state.processQueue input
        phase).2.2 hclearing
      have hrest : state.processQueue.consuming = false := hflag.symm.trans hoff
      have hzero := hinvariant.token.resting hrest
      have hcarries : phase.carries = false := by
        have hle := carries_le_tokens hget
        rw [hzero] at hle
        cases hphase : phase.carries with
        | false => rfl
        | true => simp [hphase] at hle
      refine RequestPhase.advance_tree messageModel batchSize state.processQueue input ?_
        (hinvariant.drained hrest)
      rintro beginTime msgs rfl
      simp [RequestPhase.carries] at hcarries
  · rcases mem_advanceTask hclearing with hbefore | hnext | hsubmitted
    · refine RequestPhase.advance_tree messageModel batchSize state.processQueue input ?_
        (hinvariant.clearing hbefore)
      rintro beginTime msgs rfl
      exact absurd (hother _ hbefore rfl rfl) (by simp)
    · exact RequestPhase.advance_clearing messageModel batchSize state.processQueue input hbatch
        hnext.symm
    · rcases RequestPhase.advance_submitted messageModel batchSize state.processQueue input
        hsubmitted with hsame | hsame
      · simp at hsame
      · simp at hsame

/-- Every step that stores no messages between an empty take and its clear keeps the invariant. -/
theorem wakeupInvariant_step {messageModel : MessageModel} {batchSize : ℤ}
    (hbatch : 1 ≤ batchSize) {state next : OrderlyRequestState} {event : OrderlyRequestEvent}
    (hgood : StoresOutsideClear state event)
    (hstep : (orderlyRequestSystem messageModel batchSize).step state event = some next)
    (hinvariant : WakeupInvariant state) : WakeupInvariant next := by
  cases event with
  | putMessage msgs => exact wakeupInvariant_putMessage hgood hinvariant hstep
  | submitConsumeRequest =>
    have htoken := tokenInvariant_step hinvariant.token hstep
    obtain ⟨-, rfl⟩ := Option.ite_some_none_eq_some.mp hstep
    refine ⟨htoken, hinvariant.drained, fun hclearing ↦ hinvariant.clearing ?_⟩
    simpa using hclearing
  | request index input =>
    obtain ⟨phase, hget, -, rfl⟩ := orderlyRequest_cases hstep
    exact wakeupInvariant_afterRequest hbatch input hinvariant hget
  | setDroped =>
    have htoken := tokenInvariant_step hinvariant.token hstep
    obtain rfl := Option.some.inj hstep
    exact ⟨htoken, hinvariant.drained, hinvariant.clearing⟩
  | setLocked locked now =>
    have htoken := tokenInvariant_step hinvariant.token hstep
    obtain rfl := Option.some.inj hstep
    exact ⟨htoken, hinvariant.drained, hinvariant.clearing⟩

/-- In every run that stores no messages between an empty take and its clear, a queue that is not
dropped, has messages and has no step half done has exactly one request or timer. The batch size is
one that `checkConfig` accepts. -/
theorem orderly_one_token {messageModel : MessageModel} {batchSize now : ℤ}
    (hbatch : 1 ≤ batchSize) {events : List OrderlyRequestEvent} {last : OrderlyRequestState}
    (halong : (orderlyRequestSystem messageModel batchSize).Along StoresOutsideClear
      (OrderlyRequestState.initial now) events)
    (hrun : (orderlyRequestSystem messageModel batchSize).run (OrderlyRequestState.initial now)
      events = some last) : OneToken last := by
  have hinitial : WakeupInvariant (OrderlyRequestState.initial now) :=
    ⟨tokenInvariant_initial now, fun _ ↦ rfl, fun hmem ↦ absurd hmem List.not_mem_nil⟩
  refine WakeupInvariant.oneToken (EventSystem.run_invariant_of_along ?_ halong hrun hinitial)
  exact fun state event next hgood hstep hinvariant ↦
    wakeupInvariant_step hbatch hgood hstep hinvariant

/-- Messages stored after the clear get a request. -/
theorem orderly_one_token_after_clear :
    let input : RequestInput := ⟨0, some .success, true⟩
    let events : List OrderlyRequestEvent := [.setLocked true 0, .putMessage [⟨1, 5⟩],
      .submitConsumeRequest] ++ List.replicate 15 (.request 0 input) ++
      [.putMessage [⟨2, 6⟩], .submitConsumeRequest, .request 0 input]
    ∃ last, (orderlyRequestSystem .clustering 1).run (OrderlyRequestState.initial 0) events =
      some last ∧ last.processQueue.msgTreeMap.keys = [6] ∧ OneToken last := by
  intro input events
  have hkeys : ((orderlyRequestSystem .clustering 1).run (OrderlyRequestState.initial 0)
      events).map (fun last ↦ last.processQueue.msgTreeMap.keys) = some [6] := by decide
  obtain ⟨last, hrun, hlast⟩ := Option.map_eq_some_iff.mp hkeys
  exact ⟨last, hrun, hlast, orderly_one_token (by decide) (by decide) hrun⟩

/-- Messages stored between an empty take and its clear stay without a request. -/
theorem put_before_clear_loses_wakeup :
    let input : RequestInput := ⟨0, some .success, true⟩
    let events : List OrderlyRequestEvent := [.setLocked true 0, .putMessage [⟨1, 5⟩],
      .submitConsumeRequest] ++ List.replicate 14 (.request 0 input) ++
      [.putMessage [⟨2, 6⟩], .request 0 input, .request 0 input]
    ((orderlyRequestSystem .clustering 1).run (OrderlyRequestState.initial 0) events).map
        (fun last ↦ (last.processQueue.droped, last.processQueue.msgTreeMap.keys,
          last.submitting, last.requests)) =
      some (false, [6], 0, [.finished]) := by
  decide

end RocketMQClient.Consumer
