import RocketMQClient.Factory.MemberFactories

/-!
# Runs of starts and shutdowns

Each operation of a producer, a consumer or a factory keeps `Sound`, whether it returns or throws.
`client_lifecycle` says what holds in every run of starts and shutdowns, whichever of them fail: at
most one factory of an id is open, it is the one in the table, and a consumer that runs is
registered with a running factory. The same holds of producers in every run in which no `shutdown`
closes a factory that has a producer of the user left; `shutdown_strands_producer` is a run in which
one does.

The operations are programs over `Session`, and each has a rule that says what it leaves on both of
its ways out (`startProducer_yields`, `startConsumer_yields`, `shutdownMember_yields`); the rule of
a caller is put together from those of what it calls. A step of a run is one call from beginning to
end: starts and shutdowns do not overlap here.
-/

set_option autoImplicit false
set_option relaxedAutoImplicit false

namespace RocketMQClient.Factory

open Library

namespace Lifecycle

/-! ### Starting -/

section Starting

variable {strict : Prop} {busy : Option ℕ} {state : Lifecycle} {index member : ℕ}
  {pid group : ByteString} {config : ClientConfig} {answers : StartAnswers}

theorem getAndCreate_yields (hsound : state.Sound strict busy) {touched : ℕ}
    (htouched : touched < state.memberCount) :
    (getAndCreateMQClientFactory config).Yields state
      (fun found next ↦ next.Sound strict busy ∧ Grows touched state next ∧
        next.members touched = state.members touched ∧ found < next.factoryCount ∧
        (next.factories found).serviceState ≠ .shutdownAlready)
      (fun _ ↦ False) := by
  apply Session.Yields.read
  cases hfind : state.factoryTable.find? config.buildMQClientId with
  | some found =>
    obtain ⟨hlt, -, hopen⟩ := (hsound.table _ _).mp hfind
    exact Session.Yields.pure ⟨hsound, Grows.refl _ _, rfl, hlt, hopen⟩
  | none =>
    apply Session.Yields.read
    apply Session.Yields.modify
    refine Session.Yields.pure ⟨hsound.addFactory hfind, grows_addFactory htouched,
      members_setMember_of_ne htouched.ne, Nat.lt_succ_self _, ?_⟩
    rw [factories_addFactory_self]
    exact nofun

/-- A member enters the table of its factory under a group that is free. -/
theorem grows_assignProducer {factory : MQClientFactory} (hfree : group ∉ factory.producerTable) :
    factory.Grows { factory with producerTable := factory.producerTable.assign group member } := by
  refine ⟨rfl, rfl, fun _ _ ↦ id, fun other found hfind ↦ ?_, id, Iff.rfl⟩
  have hne : other ≠ group := by
    rintro rfl
    exact hfree (OrderedMap.key_mem (OrderedMap.find?_eq_some.mp hfind))
  rwa [OrderedMap.find?_assign_of_ne _ _ hne]

theorem grows_assignConsumer {factory : MQClientFactory} (hfree : group ∉ factory.consumerTable) :
    factory.Grows { factory with consumerTable := factory.consumerTable.assign group member } := by
  refine ⟨rfl, rfl, fun other found hfind ↦ ?_, fun _ _ ↦ id, id, Iff.rfl⟩
  have hne : other ≠ group := by
    rintro rfl
    exact hfree (OrderedMap.key_mem (OrderedMap.find?_eq_some.mp hfind))
  rwa [OrderedMap.find?_assign_of_ne _ _ hne]

theorem registerProducer_yields (hsound : state.Sound strict busy) (touched : ℕ) :
    (registerProducer index group member).Yields state
      (fun registerOK next ↦ next.Sound strict busy ∧ Grows touched state next ∧
        next.members = state.members ∧ (registerOK = true →
          (next.factories index).producerTable.find? group = some member))
      (fun _ ↦ False) := by
  apply Session.Yields.bind
  change Session.Yields (if group = [] ∨ decide (group ∈ (state.factories index).producerTable) =
    true then pure false else _ : LifecycleCall Bool) state _ _
  split_ifs with htaken
  · exact Session.Yields.pure ⟨hsound, Grows.refl _ _, rfl, fun hok ↦ absurd hok (by simp)⟩
  · have hfree : group ∉ (state.factories index).producerTable :=
      fun hmem ↦ htaken (Or.inr (decide_eq_true hmem))
    apply Session.Yields.modify
    refine Session.Yields.pure ⟨hsound.setFactory (grows_assignProducer hfree),
      grows_setFactory (grows_assignProducer hfree), rfl, fun _ ↦ ?_⟩
    rw [factories_setFactory_self]
    exact OrderedMap.find?_assign_self _ _ _

theorem registerConsumer_yields (hsound : state.Sound strict busy) (touched : ℕ) :
    (registerConsumer index group member).Yields state
      (fun registerOK next ↦ next.Sound strict busy ∧ Grows touched state next ∧
        next.members = state.members ∧ (registerOK = true →
          (next.factories index).consumerTable.find? group = some member))
      (fun _ ↦ False) := by
  apply Session.Yields.bind
  change Session.Yields (if group = [] ∨ decide (group ∈ (state.factories index).consumerTable) =
    true then pure false else _ : LifecycleCall Bool) state _ _
  split_ifs with htaken
  · exact Session.Yields.pure ⟨hsound, Grows.refl _ _, rfl, fun hok ↦ absurd hok (by simp)⟩
  · have hfree : group ∉ (state.factories index).consumerTable :=
      fun hmem ↦ htaken (Or.inr (decide_eq_true hmem))
    apply Session.Yields.modify
    refine Session.Yields.pure ⟨hsound.setFactory (grows_assignConsumer hfree),
      grows_setFactory (grows_assignConsumer hfree), rfl, fun _ ↦ ?_⟩
    rw [factories_setFactory_self]
    exact OrderedMap.find?_assign_self _ _ _

/-- The member that starts is marked and renamed. -/
theorem sound_change (hsound : state.Sound strict busy) {change : Member → Member}
    (hkind : (change (state.members member)).kind = (state.members member).kind)
    (hinner : (change (state.members member)).inner = (state.members member).inner)
    (hgroup : (change (state.members member)).group = (state.members member).group)
    (hidle : (change (state.members member)).serviceState ≠ .running) :
    (state.setMember member (change (state.members member))).Sound strict busy ∧
      Grows member state (state.setMember member (change (state.members member))) :=
  ⟨hsound.setMember hinner hgroup fun hrunning ↦ absurd hrunning hidle,
    grows_setMember hkind hinner hgroup⟩

theorem enrollProducer_yields (hsound : state.Sound strict busy)
    (hmember : member < state.memberCount) :
    (enrollProducer pid member).Yields state
      (fun found next ↦ next.Sound strict busy ∧ Grows member state next ∧
        found < next.factoryCount ∧ (next.factories found).serviceState ≠ .shutdownAlready ∧
        (next.members member).mqClientFactory = found ∧
        ((state.members member).group ≠ clientInnerProducerGroup →
          (next.factories found).producerTable.find? (state.members member).group = some member))
      (fun next ↦ next.Sound strict busy) := by
  apply Session.Yields.modify
  obtain ⟨hmarked, hgrowsMarked⟩ := @sound_change strict busy state member hsound
    (fun current ↦ { current with serviceState := .startFailed }) rfl rfl rfl nofun
  have hidle : ((state.setMember member { state.members member with
      serviceState := .startFailed }).members member).serviceState = .startFailed := by
    rw [members_setMember_self]
  generalize state.setMember member { state.members member with
    serviceState := .startFailed } = marked at hmarked hgrowsMarked hidle ⊢
  apply Session.Yields.modify
  obtain ⟨hrenamed, hgrowsRenamed⟩ := @sound_change strict busy marked member hmarked
    (fun current ↦ if current.group = clientInnerProducerGroup then
      { current with clientConfig := current.clientConfig.changeInstanceNameToPID pid }
      else current) (by split_ifs <;> rfl) (by split_ifs <;> rfl) (by split_ifs <;> rfl)
    (by split_ifs <;> simp [hidle])
  have hidleRenamed : ((marked.setMember member (if (marked.members member).group =
      clientInnerProducerGroup then { marked.members member with
        clientConfig := (marked.members member).clientConfig.changeInstanceNameToPID pid }
      else marked.members member)).members member).serviceState = .startFailed := by
    rw [members_setMember_self]
    split_ifs <;> exact hidle
  generalize marked.setMember member (if (marked.members member).group =
      clientInnerProducerGroup then { marked.members member with
        clientConfig := (marked.members member).clientConfig.changeInstanceNameToPID pid }
      else marked.members member) = renamed at hrenamed hgrowsRenamed hidleRenamed ⊢
  have hgrowsBefore := hgrowsMarked.trans hgrowsRenamed
  apply Session.Yields.read
  apply Session.Yields.bind
  refine (getAndCreate_yields hrenamed (hmember.trans_le hgrowsBefore.memberCount)).mono ?_
    fun _ hfalse ↦ hfalse.elim
  rintro found created ⟨hcreated, hgrowsCreated, hkept, hlt, hopen⟩
  apply Session.Yields.modify
  obtain ⟨hplaced, hgrowsPlaced⟩ := @sound_change strict busy created member hcreated
    (fun current ↦ { current with mqClientFactory := found }) rfl rfl rfl
    (by rw [hkept]; exact hidleRenamed ▸ nofun)
  have hself := @members_setMember_self created member
    { created.members member with mqClientFactory := found }
  apply Session.Yields.bind
  refine (registerProducer_yields hplaced member).mono ?_ fun _ hfalse ↦ hfalse.elim
  rintro registerOK entered ⟨hentered, hgrowsEntered, hmembers, hfind⟩
  have hgrows := hgrowsBefore.trans (hgrowsCreated.trans (hgrowsPlaced.trans hgrowsEntered))
  split_ifs with hfailed
  · apply Session.Yields.modify
    apply Session.Yields.throw
    exact hentered.setMember rfl rfl nofun
  · refine Session.Yields.pure ⟨hentered, hgrows, hlt.trans_le hgrowsEntered.factoryCount, ?_, ?_,
      fun hgroup ↦ ?_⟩
    · have hgrown := (hgrowsPlaced.trans hgrowsEntered).factories found hlt
      rwa [ne_eq, hgrown.closed]
    · rw [hmembers, hself]
    · rw [← hgrowsBefore.group] at hgroup ⊢
      refine hfind ?_
      by_contra hnot
      exact hfailed ⟨Bool.eq_false_of_not_eq_true hnot, hgroup⟩

/-- A factory's own producer starts. -/
theorem startInnerProducer_yields (hsound : state.Sound strict busy)
    (hmember : member < state.memberCount) (hinner : (state.members member).inner = true) :
    (startInnerProducer pid member).Yields state
      (fun _ next ↦ next.Sound strict busy ∧ Grows member state next)
      (fun next ↦ next.Sound strict busy) := by
  apply Session.Yields.read
  split_ifs
  · apply Session.Yields.bind
    refine (enrollProducer_yields hsound hmember).mono ?_ fun _ ↦ id
    rintro found entered ⟨hentered, hgrows, -⟩
    refine ⟨hentered.setMember rfl rfl fun _ ↦ hgrows.inner.trans hinner, hgrows.trans ?_⟩
    exact grows_setMember rfl rfl rfl
  · exact Session.Yields.throw hsound

/-- A factory that is not closed starts, or runs. -/
theorem startFactory_yields (hsound : state.Sound strict busy) (hindex : index < state.factoryCount)
    (hopen : (state.factories index).serviceState ≠ .shutdownAlready) :
    (startFactory pid answers index).Yields state
      (fun _ next ↦ next.Sound strict busy ∧
        Grows (state.factories index).defaultMQProducer state next ∧
        (next.factories index).serviceState = .running)
      (fun next ↦ next.Sound strict busy) := by
  apply Session.Yields.read
  cases hstate : (state.factories index).serviceState with
  | createJust =>
    have hgrows : (state.factories index).Grows
        { state.factories index with serviceState := .startFailed } :=
      ⟨rfl, rfl, fun _ _ ↦ id, fun _ _ ↦ id, fun hrunning ↦ by simp [hstate] at hrunning,
        by simp [hstate]⟩
    apply Session.Yields.modify
    have hmarked := hsound.setFactory hgrows
    have hinner := hsound.inner index hindex
    have hself := @factories_setFactory_self state index
      { state.factories index with serviceState := .startFailed }
    have hbefore := @grows_setFactory state index (state.factories index).defaultMQProducer _ hgrows
    split_ifs
    · apply Session.Yields.bind
      refine (startInnerProducer_yields hmarked hinner.1 hinner.2.1).mono ?_ fun _ ↦ id
      rintro - started ⟨hstarted, hgrowsStarted⟩
      have hclosed := (hgrowsStarted.factories index hindex).closed
      rw [hself] at hclosed
      have hlast : (started.factories index).Grows
          { started.factories index with serviceState := .running } :=
        ⟨rfl, rfl, fun _ _ ↦ id, fun _ _ ↦ id, fun _ ↦ rfl, by rw [hclosed]; simp⟩
      refine ⟨hstarted.setFactory hlast,
        hbefore.trans (hgrowsStarted.trans (grows_setFactory hlast)), ?_⟩
      change ((started.setFactory index _).factories index).serviceState = .running
      rw [factories_setFactory_self]
    · exact Session.Yields.throw hmarked
  | running => exact Session.Yields.pure ⟨hsound, Grows.refl _ _, hstate⟩
  | shutdownAlready => exact absurd hstate hopen
  | startFailed => exact Session.Yields.throw hsound

/-- A factory starts for a member of the user, which stays as it is. -/
theorem startFactory_keeps (hsound : state.Sound strict busy) (hindex : index < state.factoryCount)
    (hopen : (state.factories index).serviceState ≠ .shutdownAlready)
    (hmember : member < state.memberCount) (huser : (state.members member).inner = false) :
    (startFactory pid answers index).Yields state
      (fun _ next ↦ next.Sound strict busy ∧ next.members member = state.members member ∧
        index < next.factoryCount ∧ (state.factories index).Grows (next.factories index) ∧
        (next.factories index).serviceState = .running)
      (fun next ↦ next.Sound strict busy) := by
  refine (startFactory_yields hsound hindex hopen).mono ?_ fun _ ↦ id
  rintro - next ⟨hnext, hgrows, hrunning⟩
  refine ⟨hnext, hgrows.members member hmember ?_, hindex.trans_le hgrows.factoryCount,
    hgrows.factories index hindex, hrunning⟩
  rintro rfl
  exact Bool.false_ne_true (huser.symm.trans (hsound.inner index hindex).2.1)

theorem startProducer_yields (hsound : state.Sound strict busy)
    (hmember : member < state.memberCount) (huser : (state.members member).inner = false)
    (hkind : (state.members member).kind = .producer) :
    (startProducer pid answers member).Yields state (fun _ next ↦ next.Sound strict busy)
      (fun next ↦ next.Sound strict busy) := by
  apply Session.Yields.read
  split_ifs
  · apply Session.Yields.bind
    refine (enrollProducer_yields hsound hmember).mono ?_ fun _ ↦ id
    rintro found entered ⟨hentered, hgrows, hlt, hopen, hfactory, hfind⟩
    apply Session.Yields.bind
    refine (startFactory_keeps hentered hlt hopen (hmember.trans_le hgrows.memberCount)
      (hgrows.inner.trans huser)).mono ?_ fun _ ↦ id
    rintro - started ⟨hstarted, hsame, hstartedLt, hgrown, hrunning⟩
    have hplace : (started.members member).mqClientFactory = found := by rw [hsame, hfactory]
    refine hstarted.run (hplace ▸ hstartedLt) (fun hconsumer ↦ ?_) fun _ hgroup ↦ ?_
    · rw [hsame, hgrows.kind, hkind] at hconsumer
      exact absurd rfl hconsumer
    · unfold factoryOf
      rw [hplace]
      rw [hsame, hgrows.group] at hgroup ⊢
      exact ⟨hgrown.producerTable _ _ (hfind hgroup), fun _ ↦ hrunning⟩
  · exact Session.Yields.throw hsound

theorem enrollConsumer_yields (hsound : state.Sound strict busy)
    {messageModel : Consumer.MessageModel} (hmember : member < state.memberCount)
    (hidle : (state.members member).serviceState = .startFailed) :
    (enrollConsumer pid answers messageModel member).Yields state
      (fun found next ↦ next.Sound strict busy ∧ Grows member state next ∧
        found < next.factoryCount ∧ (next.factories found).serviceState ≠ .shutdownAlready ∧
        (next.members member).mqClientFactory = found ∧
        (next.factories found).consumerTable.find? (state.members member).group = some member)
      (fun next ↦ next.Sound strict busy) := by
  apply Session.Yields.modify
  obtain ⟨hrenamed, hgrowsRenamed⟩ := @sound_change strict busy state member hsound
    (fun current ↦ if messageModel = .clustering then
      { current with clientConfig := current.clientConfig.changeInstanceNameToPID pid }
      else current) (by split_ifs <;> rfl) (by split_ifs <;> rfl) (by split_ifs <;> rfl)
    (by split_ifs <;> simp [hidle])
  have hidleRenamed : ((state.setMember member (if messageModel = .clustering then
      { state.members member with
        clientConfig := (state.members member).clientConfig.changeInstanceNameToPID pid }
      else state.members member)).members member).serviceState = .startFailed := by
    rw [members_setMember_self]
    split_ifs <;> exact hidle
  generalize state.setMember member (if messageModel = .clustering then
      { state.members member with
        clientConfig := (state.members member).clientConfig.changeInstanceNameToPID pid }
      else state.members member) = renamed at hrenamed hgrowsRenamed hidleRenamed ⊢
  apply Session.Yields.read
  apply Session.Yields.bind
  refine (getAndCreate_yields hrenamed (hmember.trans_le hgrowsRenamed.memberCount)).mono ?_
    fun _ hfalse ↦ hfalse.elim
  rintro found created ⟨hcreated, hgrowsCreated, hkept, hlt, hopen⟩
  apply Session.Yields.modify
  obtain ⟨hplaced, hgrowsPlaced⟩ := @sound_change strict busy created member hcreated
    (fun current ↦ { current with mqClientFactory := found }) rfl rfl rfl
    (by rw [hkept]; exact hidleRenamed ▸ nofun)
  have hself := @members_setMember_self created member
    { created.members member with mqClientFactory := found }
  split_ifs
  · exact Session.Yields.throw hplaced
  · apply Session.Yields.bind
    refine (registerConsumer_yields hplaced member).mono ?_ fun _ hfalse ↦ hfalse.elim
    rintro registerOK entered ⟨hentered, hgrowsEntered, hmembers, hfind⟩
    have hgrows := hgrowsRenamed.trans (hgrowsCreated.trans (hgrowsPlaced.trans hgrowsEntered))
    split_ifs with hfailed
    · apply Session.Yields.modify
      apply Session.Yields.throw
      exact hentered.setMember rfl rfl nofun
    · refine Session.Yields.pure ⟨hentered, hgrows, hlt.trans_le hgrowsEntered.factoryCount, ?_,
        ?_, ?_⟩
      · have hgrown := (hgrowsPlaced.trans hgrowsEntered).factories found hlt
        rwa [ne_eq, hgrown.closed]
      · rw [hmembers, hself]
      · rw [← hgrowsRenamed.group]
        exact hfind (Bool.eq_true_of_not_eq_false hfailed)

theorem startConsumer_yields (hsound : state.Sound strict busy)
    {messageModel : Consumer.MessageModel} (hmember : member < state.memberCount)
    (huser : (state.members member).inner = false)
    (hkind : (state.members member).kind ≠ .producer) :
    (startConsumer pid answers messageModel member).Yields state
      (fun _ next ↦ next.Sound strict busy) (fun next ↦ next.Sound strict busy) := by
  apply Session.Yields.read
  split
  · apply Session.Yields.modify
    obtain ⟨hmarked, hgrowsMarked⟩ := @sound_change strict busy state member hsound
      (fun current ↦ { current with serviceState := .startFailed }) rfl rfl rfl nofun
    have hidle : ((state.setMember member { state.members member with
        serviceState := .startFailed }).members member).serviceState = .startFailed := by
      rw [members_setMember_self]
    generalize state.setMember member { state.members member with
      serviceState := .startFailed } = marked at hmarked hgrowsMarked hidle ⊢
    split
    · exact Session.Yields.throw hmarked
    · apply Session.Yields.bind
      refine (enrollConsumer_yields hmarked (hmember.trans_le hgrowsMarked.memberCount) hidle).mono
        ?_ fun _ ↦ id
      rintro found entered ⟨hentered, hgrowsEntered, hlt, hopen, hfactory, hfind⟩
      have hgrows := hgrowsMarked.trans hgrowsEntered
      apply Session.Yields.bind
      refine (startFactory_keeps hentered hlt hopen (hmember.trans_le hgrows.memberCount)
        (hgrows.inner.trans huser)).mono ?_ fun _ ↦ id
      rintro - started ⟨hstarted, hsame, hstartedLt, hgrown, hrunning⟩
      have hplace : (started.members member).mqClientFactory = found := by rw [hsame, hfactory]
      refine hstarted.run (hplace ▸ hstartedLt) (fun _ ↦ ?_) fun hproducer ↦ ?_
      · unfold factoryOf
        rw [hplace, hsame, hgrowsEntered.group]
        exact ⟨hgrown.consumerTable _ _ hfind, hrunning⟩
      · rw [hsame, hgrows.kind] at hproducer
        exact absurd hproducer hkind
  · exact Session.Yields.throw hsound

end Starting

/-! ### Shutting down -/

section Stopping

variable {strict : Prop} {busy : Option ℕ} {state : Lifecycle} {index member : ℕ}

/-- A factory's own producer shuts down. -/
theorem shutdownInner_yields (hsound : state.Sound strict busy)
    (hindex : index < state.factoryCount) :
    (shutdownInnerProducer (state.factories index).defaultMQProducer).Yields state
      (fun _ next ↦ next.Sound strict busy ∧ next.factoryCount = state.factoryCount ∧
        (∀ found, (next.factories found).consumerTable = (state.factories found).consumerTable ∧
          (next.factories found).serviceState = (state.factories found).serviceState) ∧
        ∀ other, next.RunsProducer other → state.RunsProducer other ∧
          next.members other = state.members other)
      (fun _ ↦ False) := by
  apply Session.Yields.read
  have hinner := (hsound.inner index hindex).2
  generalize (state.factories index).defaultMQProducer = producer at hinner ⊢
  split
  · apply Session.Yields.modify
    have hshrunk := @Sound.shrink strict busy state (state.members producer).mqClientFactory hsound
      { state.factories (state.members producer).mqClientFactory with
        producerTable := (state.factories
          (state.members producer).mqClientFactory).producerTable.erase
            (state.members producer).group } rfl rfl rfl (fun _ _ _ _ ↦ rfl)
      fun other _ hruns _ ↦ OrderedMap.find?_erase_of_ne _ (hinner.2.symm ▸ hruns.2.2.2.1)
    refine ⟨hshrunk.setMember rfl rfl nofun, rfl, fun found ↦ ?_, fun other hruns ↦ ?_⟩
    · change ((state.setFactory _ _).factories found).consumerTable = _ ∧
        ((state.setFactory _ _).factories found).serviceState = _
      by_cases hfound : found = (state.members producer).mqClientFactory
      · subst hfound
        rw [factories_setFactory_self]
        exact ⟨rfl, rfl⟩
      · rw [factories_setFactory_of_ne hfound]
        exact ⟨rfl, rfl⟩
    · have hother : other ≠ producer := by
        rintro rfl
        have hrunning := hruns.2.2.2.2
        change ((Lifecycle.setMember _ other _).members other).serviceState = _ at hrunning
        rw [members_setMember_self] at hrunning
        exact nomatch hrunning
      have hsame : (((state.setFactory (state.members producer).mqClientFactory
          { state.factories (state.members producer).mqClientFactory with
            producerTable := (state.factories
              (state.members producer).mqClientFactory).producerTable.erase
                (state.members producer).group }).setMember producer
          { state.members producer with serviceState := .shutdownAlready }).members other) =
          state.members other := members_setMember_of_ne hother
      refine ⟨?_, hsame⟩
      obtain ⟨hlt, hruns⟩ := hruns
      refine ⟨hlt, ?_⟩
      rw [← hsame]
      exact hruns
  · exact Session.Yields.pure ⟨hsound, rfl, fun _ ↦ ⟨rfl, rfl⟩, fun _ hruns ↦ ⟨hruns, rfl⟩⟩

/-- A factory is shut down, when it closes none of the running members' factories. -/
theorem shutdownFactory_yields (hsound : state.Sound strict busy)
    (hindex : index < state.factoryCount)
    (hleft : strict → (state.factories index).consumerTable.isEmpty = true →
      (state.factories index).producerTable.size ≤ 1 →
      (state.factories index).serviceState = .running →
      ∀ other, some other ≠ busy → state.RunsProducer other →
        (state.members other).mqClientFactory ≠ index) :
    (shutdownFactory index).Yields state (fun _ next ↦ next.Sound strict busy)
      (fun _ ↦ False) := by
  apply Session.Yields.read
  split
  · exact Session.Yields.pure hsound
  · rename_i hclosing
    rw [not_or, not_or, Bool.not_eq_false, not_lt, not_not] at hclosing
    obtain ⟨hempty, hsize, hrunning⟩ := hclosing
    apply Session.Yields.bind
    refine (shutdownInner_yields hsound hindex).mono ?_ fun _ ↦ id
    rintro - stopped ⟨hstopped, hcount, hfactories, hproducers⟩
    refine hstopped.close (hcount ▸ hindex) ((hfactories index).2.trans hrunning)
      (fun other hbusy hruns hplace ↦ ?_) fun hstrict other hbusy hruns ↦ ?_
    · have hfind := (hstopped.consumers other hbusy hruns).1
      unfold factoryOf at hfind
      rw [hplace, (hfactories index).1] at hfind
      exact OrderedMap.isEmpty_iff.mp hempty _
        (OrderedMap.key_mem (OrderedMap.find?_eq_some.mp hfind))
    · obtain ⟨hbefore, hsame⟩ := hproducers other hruns
      rw [hsame]
      exact hleft hstrict hempty hsize hrunning other hbusy hbefore

/-- A running member leaves its factory. -/
theorem unregister_yields (hsound : state.Sound strict none) (hmember : member < state.memberCount)
    (huser : (state.members member).inner = false)
    (hrunning : (state.members member).serviceState = .running) :
    (unregister (state.members member)).Yields state
      (fun _ next ↦ next.Sound strict (some member) ∧
        next = state.setFactory (state.members member).mqClientFactory
          ((state.factoryOf member).without (state.members member)))
      (fun _ ↦ False) := by
  have hother : ∀ {other}, some other ≠ some member → other ≠ member :=
    fun hne hsame ↦ hne (congrArg some hsame)
  unfold unregister MQClientFactory.without
  cases hkind : (state.members member).kind with
  | producer =>
    refine ⟨hsound.mark.shrink rfl rfl rfl (fun _ _ _ _ ↦ rfl) fun other hbusy hruns hplace ↦ ?_,
      rfl⟩
    refine OrderedMap.find?_erase_of_ne _ fun hgroup ↦ hother hbusy ?_
    have hfind := (hsound.producers other nofun hruns).1
    have hown := (hsound.producers member nofun
      ⟨hmember, huser, hkind, hgroup ▸ hruns.2.2.2.1, hrunning⟩).1
    unfold factoryOf at hfind hown
    rw [hplace, hgroup, hown] at hfind
    exact (Option.some.inj hfind).symm
  | consumer messageModel =>
    refine ⟨hsound.mark.shrink rfl rfl rfl (fun other hbusy hruns hplace ↦ ?_) fun _ _ _ _ ↦ rfl,
      rfl⟩
    refine OrderedMap.find?_erase_of_ne _ fun hgroup ↦ hother hbusy ?_
    have hfind := (hsound.consumers other nofun hruns).1
    have hown := (hsound.consumers member nofun
      ⟨hmember, huser, by rw [hkind]; exact nofun, hrunning⟩).1
    unfold factoryOf at hfind hown
    rw [hplace, hgroup, hown] at hfind
    exact (Option.some.inj hfind).symm

theorem shutdownMember_yields (hsound : state.Sound strict none)
    (hmember : member < state.memberCount) (huser : (state.members member).inner = false)
    (hkeeps : strict → ¬ state.Strands member) :
    (shutdownMember member).Yields state (fun _ next ↦ next.Sound strict none)
      (fun _ ↦ False) := by
  apply Session.Yields.read
  split
  · rename_i hrunning
    have hindex := hsound.placed member ⟨hmember, huser, hrunning⟩
    apply Session.Yields.bind
    refine (unregister_yields hsound hmember huser hrunning).mono ?_ fun _ ↦ id
    rintro - next ⟨hnext, rfl⟩
    apply Session.Yields.bind
    refine (shutdownFactory_yields hnext hindex ?_).mono (fun _ stopped hstopped ↦ hstopped.stop)
      fun _ ↦ id
    intro hstrict hempty hsize hopen other hbusy hruns hplace
    rw [factories_setFactory_self] at hempty hsize hopen
    have hfind := (hnext.producers other hbusy hruns).1
    change ((state.setFactory _ _).factories
      (state.members other).mqClientFactory).producerTable.find? (state.members other).group = _
      at hfind
    change (state.members other).mqClientFactory = _ at hplace
    rw [hplace, factories_setFactory_self] at hfind
    have hrunningFactory : (state.factoryOf member).serviceState = .running := by
      unfold MQClientFactory.without at hopen
      split at hopen <;> exact hopen
    exact hkeeps hstrict ⟨hrunning, hempty, hsize, hrunningFactory,
      ⟨_, OrderedMap.find?_eq_some.mp hfind, hruns.2.2.2.1⟩⟩
  · exact Session.Yields.pure hsound

end Stopping

/-! ### Runs -/

theorem sound_initial (strict : Prop) : initial.Sound strict none where
  table _ index := iff_of_false
    (fun hfind ↦ absurd (OrderedMap.find?_eq_some.mp hfind) List.not_mem_nil)
    fun hindex ↦ absurd hindex.1 (Nat.not_lt_zero index)
  inner index hindex := absurd hindex (Nat.not_lt_zero index)
  placed member hruns := absurd hruns.1 (Nat.not_lt_zero member)
  consumers member _ hruns := absurd hruns.1 (Nat.not_lt_zero member)
  producers member _ hruns := absurd hruns.1 (Nat.not_lt_zero member)

/-- Every call keeps the invariant; its last part when no producer of the user loses its factory. -/
theorem sound_step {strict : Prop} {pid : ByteString} {state next : Lifecycle}
    {event : LifecycleEvent} (hkeeps : strict → KeepsFactories state event)
    (hstep : (lifecycleSystem pid).step state event = some next)
    (hsound : state.Sound strict none) : next.Sound strict none := by
  cases event with
  | create kind group config =>
    obtain rfl := Option.some.inj hstep
    exact hsound.addMember rfl
  | start member answers =>
    obtain ⟨⟨hmember, huser⟩, hcall⟩ := Option.ite_none_right_eq_some.mp hstep
    cases hkind : (state.members member).kind with
    | producer =>
      rw [hkind] at hcall
      obtain rfl := Option.some.inj hcall
      exact (startProducer_yields hsound hmember huser hkind).final
    | consumer messageModel =>
      rw [hkind] at hcall
      obtain rfl := Option.some.inj hcall
      exact (startConsumer_yields hsound hmember huser (by rw [hkind]; exact nofun)).final
  | shutdown member =>
    obtain ⟨⟨hmember, huser⟩, hcall⟩ := Option.ite_some_none_eq_some.mp hstep
    obtain rfl := hcall
    exact ((shutdownMember_yields hsound hmember huser hkeeps).mono (fun _ _ ↦ id)
      fun _ hfalse ↦ hfalse.elim).final

end Lifecycle

open Lifecycle

/-- In every run of starts and shutdowns of any members, whichever of them fail: the table has
exactly the factories that are not closed, by their ids; a consumer that runs is registered under
its group with its factory, which runs; and so is a producer, whose factory runs when no `shutdown`
before closed a factory that had a producer of the user left. -/
theorem client_lifecycle {pid : ByteString} {events : List LifecycleEvent} {last : Lifecycle}
    (hrun : (lifecycleSystem pid).run initial events = some last) :
    last.Registers ∧
      (∀ member, last.RunsConsumer member →
        (last.factoryOf member).consumerTable.find? (last.members member).group = some member ∧
          (last.factoryOf member).serviceState = .running) ∧
      (∀ member, last.RunsProducer member →
        (last.factoryOf member).producerTable.find? (last.members member).group = some member) ∧
      ((lifecycleSystem pid).Along KeepsFactories initial events →
        ∀ member, last.RunsProducer member → (last.factoryOf member).serviceState = .running) := by
  have hsound : last.Sound False none :=
    @EventSystem.run_invariant _ _ _ (Sound False none)
      (fun _ _ _ hstep hbefore ↦ sound_step False.elim hstep hbefore) _ _ _ hrun
      (sound_initial False)
  refine ⟨hsound.table, fun member ↦ hsound.consumers member nofun,
    fun member hruns ↦ (hsound.producers member nofun hruns).1, fun halong member hruns ↦ ?_⟩
  have hstrict : last.Sound True none :=
    @EventSystem.run_invariant_of_along _ _ _ KeepsFactories (Sound True none)
      (fun _ _ _ hkeeps hstep hbefore ↦ sound_step (fun _ ↦ hkeeps) hstep hbefore) _ _ _ halong hrun
      (sound_initial True)
  exact (hstrict.producers member nofun hruns).2 trivial

/-- The configuration of a client that is not told its name. -/
def unnamedInstance : ClientConfig := ⟨ofString "10.0.0.1", ofString "DEFAULT"⟩

/-- Two producers start. -/
def startTwoProducers : List LifecycleEvent :=
  [.create .producer (ofString "a") unnamedInstance,
    .create .producer (ofString "b") unnamedInstance, .start 0 ⟨true, true, true⟩,
    .start 1 ⟨true, true, true⟩]

/-- A consumer starts after them. -/
def startConsumerToo : List LifecycleEvent :=
  startTwoProducers ++ [.create (.consumer .clustering) (ofString "c") unnamedInstance,
    .start 4 ⟨true, true, true⟩]

/-- The producers share a factory, and the consumer has the one of its process: each is registered
with its factory, and both run. -/
theorem client_lifecycle_three :
    ∃ last, (lifecycleSystem (ofString "77")).run initial startConsumerToo = some last ∧
      last.factoryTable.find? (ofString "10.0.0.1@DEFAULT") = some 0 ∧
      last.factoryTable.find? (ofString "10.0.0.1@77") = some 1 ∧
      ((last.factoryOf 4).consumerTable.find? (ofString "c") = some 4 ∧
        (last.factoryOf 4).serviceState = .running) ∧
      (last.factoryOf 0).producerTable.find? (ofString "a") = some 0 ∧
      (last.factoryOf 1).producerTable.find? (ofString "b") = some 1 ∧
      (last.factoryOf 0).serviceState = .running ∧
      (last.factoryOf 1).serviceState = .running := by
  obtain ⟨hregisters, hconsumers, hproducers, hruns⟩ :=
    @client_lifecycle (ofString "77") startConsumerToo _ rfl
  have hruns := hruns (by decide)
  exact ⟨_, rfl, (hregisters _ 0).mpr (by decide), (hregisters _ 1).mpr (by decide),
    hconsumers 4 (by decide), hproducers 0 (by decide), hproducers 1 (by decide),
    hruns 0 (by decide), hruns 1 (by decide)⟩

/-- The first `shutdown` closes the factory of the producer that is left. -/
theorem shutdown_strands_producer :
    ((lifecycleSystem (ofString "77")).run initial (startTwoProducers ++ [.shutdown 0])).map
        (fun last ↦ ((last.members 1).serviceState, (last.factoryOf 1).serviceState)) =
      some (.running, .shutdownAlready) := by
  decide

end RocketMQClient.Factory
