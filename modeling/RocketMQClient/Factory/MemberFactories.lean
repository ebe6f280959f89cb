import RocketMQClient.Factory.ClientLifecycle

/-!
# Members and their factories

`Sound` relates the members of a process to the factories: the table of the manager has the
factories that are not closed, by their ids, and a member that runs is registered with its factory.
The changes that the operations are made of keep it: a member is overwritten that does not run, a
factory grows (`Grows`) or loses entries that no running member has, a member runs that is
registered, a factory is added when the table has none of its id, and one is closed that no running
member has.

For producers the invariant comes in two strengths. A `shutdown` may close a factory that a running
producer of the user still has, so that a running factory is asked for only where `strict` holds,
and only the runs without such a `shutdown` keep that. While a call is under way its own member is
`busy`, and the invariant asks nothing of it.
-/

set_option autoImplicit false
set_option relaxedAutoImplicit false

namespace RocketMQClient.Factory

open Library

/-! ### The invariant -/

/-- The producer of a factory. -/
def Member.Own (member : Member) : Prop :=
  member.inner = true ∧ member.group = clientInnerProducerGroup

namespace Lifecycle

/-- A member that runs, of the user. -/
def Runs (state : Lifecycle) (member : ℕ) : Prop :=
  member < state.memberCount ∧ (state.members member).inner = false ∧
    (state.members member).serviceState = .running

/-- A consumer that runs, of the user. -/
def RunsConsumer (state : Lifecycle) (member : ℕ) : Prop :=
  member < state.memberCount ∧ (state.members member).inner = false ∧
    (state.members member).kind ≠ .producer ∧ (state.members member).serviceState = .running

/-- A producer that runs, of the user; a factory's own group is not one of the user's. -/
def RunsProducer (state : Lifecycle) (member : ℕ) : Prop :=
  member < state.memberCount ∧ (state.members member).inner = false ∧
    (state.members member).kind = .producer ∧
    (state.members member).group ≠ clientInnerProducerGroup ∧
    (state.members member).serviceState = .running

instance (state : Lifecycle) (member : ℕ) : Decidable (state.RunsConsumer member) :=
  inferInstanceAs (Decidable (_ ∧ _))

instance (state : Lifecycle) (member : ℕ) : Decidable (state.RunsProducer member) :=
  inferInstanceAs (Decidable (_ ∧ _))

theorem RunsConsumer.runs {state : Lifecycle} {member : ℕ} (hruns : state.RunsConsumer member) :
    state.Runs member := ⟨hruns.1, hruns.2.1, hruns.2.2.2⟩

theorem RunsProducer.runs {state : Lifecycle} {member : ℕ} (hruns : state.RunsProducer member) :
    state.Runs member := ⟨hruns.1, hruns.2.1, hruns.2.2.2.2⟩

/-- The table has the factories that are not closed, by their ids. -/
def Registers (state : Lifecycle) : Prop :=
  ∀ clientId index, state.factoryTable.find? clientId = some index ↔
    index < state.factoryCount ∧ (state.factories index).clientId = clientId ∧
      (state.factories index).serviceState ≠ .shutdownAlready

/-- The factories are registered, and members that run are registered with their factories, which
run; for producers the last part is asked for when `strict` holds. One member may be busy. -/
structure Sound (strict : Prop) (busy : Option ℕ) (state : Lifecycle) : Prop where
  table : state.Registers
  inner : ∀ index < state.factoryCount,
    (state.factories index).defaultMQProducer < state.memberCount ∧
      (state.members (state.factories index).defaultMQProducer).Own
  placed : ∀ member, state.Runs member →
    (state.members member).mqClientFactory < state.factoryCount
  consumers : ∀ member, some member ≠ busy → state.RunsConsumer member →
    (state.factoryOf member).consumerTable.find? (state.members member).group = some member ∧
      (state.factoryOf member).serviceState = .running
  producers : ∀ member, some member ≠ busy → state.RunsProducer member →
    (state.factoryOf member).producerTable.find? (state.members member).group = some member ∧
      (strict → (state.factoryOf member).serviceState = .running)

end Lifecycle

/-- What a factory keeps while members start: its id, its producer, its members, and that it runs or
is closed. -/
structure MQClientFactory.Grows (before after : MQClientFactory) : Prop where
  clientId : after.clientId = before.clientId
  defaultMQProducer : after.defaultMQProducer = before.defaultMQProducer
  consumerTable : ∀ group member, before.consumerTable.find? group = some member →
    after.consumerTable.find? group = some member
  producerTable : ∀ group member, before.producerTable.find? group = some member →
    after.producerTable.find? group = some member
  running : before.serviceState = .running → after.serviceState = .running
  closed : after.serviceState = .shutdownAlready ↔ before.serviceState = .shutdownAlready

theorem MQClientFactory.Grows.refl (factory : MQClientFactory) : factory.Grows factory :=
  ⟨rfl, rfl, fun _ _ ↦ id, fun _ _ ↦ id, id, Iff.rfl⟩

theorem MQClientFactory.Grows.trans {first second third : MQClientFactory}
    (hfirst : first.Grows second) (hsecond : second.Grows third) : first.Grows third where
  clientId := hsecond.clientId.trans hfirst.clientId
  defaultMQProducer := hsecond.defaultMQProducer.trans hfirst.defaultMQProducer
  consumerTable group member hfind :=
    hsecond.consumerTable group member (hfirst.consumerTable group member hfind)
  producerTable group member hfind :=
    hsecond.producerTable group member (hfirst.producerTable group member hfind)
  running := hsecond.running ∘ hfirst.running
  closed := hsecond.closed.trans hfirst.closed

namespace Lifecycle

/-- What a call keeps that touches one member and lets factories grow. -/
structure Grows (touched : ℕ) (before after : Lifecycle) : Prop where
  factoryCount : before.factoryCount ≤ after.factoryCount
  memberCount : before.memberCount ≤ after.memberCount
  members : ∀ member < before.memberCount, member ≠ touched →
    after.members member = before.members member
  kind : (after.members touched).kind = (before.members touched).kind
  inner : (after.members touched).inner = (before.members touched).inner
  group : (after.members touched).group = (before.members touched).group
  factories : ∀ index < before.factoryCount,
    (before.factories index).Grows (after.factories index)

theorem Grows.refl (touched : ℕ) (state : Lifecycle) : Grows touched state state :=
  ⟨le_rfl, le_rfl, fun _ _ _ ↦ rfl, rfl, rfl, rfl, fun _ _ ↦ MQClientFactory.Grows.refl _⟩

theorem Grows.trans {touched : ℕ} {first second third : Lifecycle}
    (hfirst : Grows touched first second) (hsecond : Grows touched second third) :
    Grows touched first third where
  factoryCount := hfirst.factoryCount.trans hsecond.factoryCount
  memberCount := hfirst.memberCount.trans hsecond.memberCount
  members member hlt hne :=
    (hsecond.members member (hlt.trans_le hfirst.memberCount) hne).trans
      (hfirst.members member hlt hne)
  kind := hsecond.kind.trans hfirst.kind
  inner := hsecond.inner.trans hfirst.inner
  group := hsecond.group.trans hfirst.group
  factories index hlt := (hfirst.factories index hlt).trans
    (hsecond.factories index (hlt.trans_le hfirst.factoryCount))

/-! ### Elementary changes -/

section Changes

variable {strict : Prop} {busy : Option ℕ} {state : Lifecycle} {index touched : ℕ}
  {member : Member} {factory : MQClientFactory}

theorem members_setMember_of_ne {other : ℕ} (hne : other ≠ index) :
    (state.setMember index member).members other = state.members other :=
  Function.update_of_ne hne _ _

theorem members_setMember_self : (state.setMember index member).members index = member :=
  Function.update_self _ _ _

theorem factories_setFactory_of_ne {other : ℕ} (hne : other ≠ index) :
    (state.setFactory index factory).factories other = state.factories other :=
  Function.update_of_ne hne _ _

theorem factories_setFactory_self : (state.setFactory index factory).factories index = factory :=
  Function.update_self _ _ _

/-- A member is overwritten that does not run then, or is a factory's own. -/
theorem Sound.setMember (hsound : state.Sound strict busy)
    (hinner : member.inner = (state.members index).inner)
    (hgroup : member.group = (state.members index).group)
    (hidle : member.serviceState = .running → member.inner = true) :
    (state.setMember index member).Sound strict busy := by
  have hsame : ∀ other, ((state.setMember index member).members other).inner = false →
      ((state.setMember index member).members other).serviceState = .running →
      (state.setMember index member).members other = state.members other := by
    intro other huser hrunning
    by_cases hother : other = index
    · subst hother
      rw [members_setMember_self] at huser hrunning
      exact absurd (huser.symm.trans (hidle hrunning)) Bool.false_ne_true
    · exact members_setMember_of_ne hother
  refine ⟨hsound.table, fun found hfound ↦ ?_, fun other hruns ↦ ?_, fun other hbusy hruns ↦ ?_,
    fun other hbusy hruns ↦ ?_⟩
  · obtain ⟨hlt, hproducer⟩ := hsound.inner found hfound
    refine ⟨hlt, ?_⟩
    change ((state.setMember index member).members (state.factories found).defaultMQProducer).Own
    by_cases hother : (state.factories found).defaultMQProducer = index
    · rw [hother] at hproducer ⊢
      rw [members_setMember_self]
      exact ⟨hinner.trans hproducer.1, hgroup.trans hproducer.2⟩
    · rwa [members_setMember_of_ne hother]
  · have hkept := hsame other hruns.2.1 hruns.2.2
    unfold Runs at hruns
    rw [hkept] at hruns ⊢
    exact hsound.placed other hruns
  · have hkept := hsame other hruns.2.1 hruns.2.2.2
    unfold RunsConsumer at hruns
    unfold factoryOf
    rw [hkept] at hruns ⊢
    exact hsound.consumers other hbusy hruns
  · have hkept := hsame other hruns.2.1 hruns.2.2.2.2
    unfold RunsProducer at hruns
    unfold factoryOf
    rw [hkept] at hruns ⊢
    exact hsound.producers other hbusy hruns

theorem grows_setMember (hkind : member.kind = (state.members index).kind)
    (hinner : member.inner = (state.members index).inner)
    (hgroup : member.group = (state.members index).group) :
    Grows index state (state.setMember index member) where
  factoryCount := le_rfl
  memberCount := le_rfl
  members _ _ hne := members_setMember_of_ne hne
  kind := by rw [members_setMember_self, hkind]
  inner := by rw [members_setMember_self, hinner]
  group := by rw [members_setMember_self, hgroup]
  factories found _ := MQClientFactory.Grows.refl _

/-- Each factory after the change of one that grows. -/
theorem grows_factories (hgrows : (state.factories index).Grows factory) (other : ℕ) :
    (state.factories other).Grows ((state.setFactory index factory).factories other) := by
  by_cases hother : other = index
  · subst hother
    rwa [factories_setFactory_self]
  · rw [factories_setFactory_of_ne hother]
    exact MQClientFactory.Grows.refl _

theorem grows_setFactory (hgrows : (state.factories index).Grows factory) :
    Grows touched state (state.setFactory index factory) :=
  ⟨le_rfl, le_rfl, fun _ _ _ ↦ rfl, rfl, rfl, rfl, fun other _ ↦ grows_factories hgrows other⟩

/-- A factory grows. -/
theorem Sound.setFactory (hsound : state.Sound strict busy)
    (hgrows : (state.factories index).Grows factory) :
    (state.setFactory index factory).Sound strict busy := by
  have hfactories := grows_factories hgrows
  refine ⟨fun clientId found ↦ ?_, fun found hfound ↦ ?_, hsound.placed,
    fun other hbusy hruns ↦ ?_, fun other hbusy hruns ↦ ?_⟩
  · rw [(hfactories found).clientId, ne_eq, (hfactories found).closed]
    exact hsound.table clientId found
  · rw [(hfactories found).defaultMQProducer]
    exact hsound.inner found hfound
  · obtain ⟨hfind, hrunning⟩ := hsound.consumers other hbusy hruns
    exact ⟨(hfactories _).consumerTable _ _ hfind, (hfactories _).running hrunning⟩
  · obtain ⟨hfind, hrunning⟩ := hsound.producers other hbusy hruns
    exact ⟨(hfactories _).producerTable _ _ hfind,
      fun hstrict ↦ (hfactories _).running (hrunning hstrict)⟩

theorem runs_addMember {other : ℕ} (hidle : member.serviceState = .createJust)
    (hrunning : ((state.addMember member).members other).serviceState = .running) :
    other ≠ state.memberCount ∧
      (state.addMember member).members other = state.members other := by
  have hne : other ≠ state.memberCount := by
    rintro rfl
    change ((state.setMember state.memberCount member).members state.memberCount).serviceState = _
      at hrunning
    rw [members_setMember_self, hidle] at hrunning
    exact nomatch hrunning
  exact ⟨hne, members_setMember_of_ne hne⟩

/-- A new member. -/
theorem Sound.addMember (hsound : state.Sound strict busy)
    (hidle : member.serviceState = .createJust) :
    (state.addMember member).Sound strict busy := by
  refine ⟨hsound.table, fun found hfound ↦ ?_, fun other hruns ↦ ?_, fun other hbusy hruns ↦ ?_,
    fun other hbusy hruns ↦ ?_⟩
  · obtain ⟨hlt, hproducer⟩ := hsound.inner found hfound
    refine ⟨Nat.lt_succ_of_lt hlt, ?_⟩
    change ((state.setMember state.memberCount member).members
      (state.factories found).defaultMQProducer).Own
    rwa [members_setMember_of_ne hlt.ne]
  · obtain ⟨hne, hkept⟩ := runs_addMember hidle hruns.2.2
    unfold Runs at hruns
    rw [hkept] at hruns ⊢
    exact hsound.placed other ⟨Nat.lt_of_le_of_ne (Nat.le_of_lt_succ hruns.1) hne, hruns.2⟩
  · obtain ⟨hne, hkept⟩ := runs_addMember hidle hruns.2.2.2
    unfold RunsConsumer at hruns
    unfold factoryOf
    rw [hkept] at hruns ⊢
    exact hsound.consumers other hbusy
      ⟨Nat.lt_of_le_of_ne (Nat.le_of_lt_succ hruns.1) hne, hruns.2⟩
  · obtain ⟨hne, hkept⟩ := runs_addMember hidle hruns.2.2.2.2
    unfold RunsProducer at hruns
    unfold factoryOf
    rw [hkept] at hruns ⊢
    exact hsound.producers other hbusy
      ⟨Nat.lt_of_le_of_ne (Nat.le_of_lt_succ hruns.1) hne, hruns.2⟩

theorem factories_addFactory_of_ne {config : ClientConfig} {other : ℕ}
    (hne : other ≠ state.factoryCount) :
    (state.addFactory config).factories other = state.factories other :=
  Function.update_of_ne hne _ _

theorem factories_addFactory_self {config : ClientConfig} :
    (state.addFactory config).factories state.factoryCount = ⟨config, config.buildMQClientId,
      .createJust, OrderedMap.empty, OrderedMap.empty, state.memberCount⟩ :=
  Function.update_self _ _ _

/-- A new factory, when the table has none of its id. -/
theorem Sound.addFactory (hsound : state.Sound strict busy) {config : ClientConfig}
    (hnone : state.factoryTable.find? config.buildMQClientId = none) :
    (state.addFactory config).Sound strict busy := by
  have hadded := @addMember strict busy state
    ⟨.producer, true, clientInnerProducerGroup, config, .createJust, 0⟩ hsound rfl
  refine ⟨fun clientId found ↦ ?_, fun found hfound ↦ ?_,
    fun other hruns ↦ Nat.lt_succ_of_lt (hadded.placed other hruns),
    fun other hbusy hruns ↦ ?_, fun other hbusy hruns ↦ ?_⟩
  · change (state.factoryTable.assign config.buildMQClientId state.factoryCount).find? clientId =
      some found ↔ found < state.factoryCount + 1 ∧ _
    by_cases hnew : found = state.factoryCount
    · subst hnew
      rw [factories_addFactory_self]
      by_cases hsame : clientId = config.buildMQClientId
      · subst hsame
        simp [OrderedMap.find?_assign_self]
      · rw [OrderedMap.find?_assign_of_ne _ _ hsame, hsound.table]
        exact ⟨fun hold ↦ absurd hold.1 (lt_irrefl _), fun hold ↦ absurd hold.2.1.symm hsame⟩
    · rw [factories_addFactory_of_ne hnew]
      have hlt : found < state.factoryCount + 1 ↔ found < state.factoryCount := by omega
      rw [hlt, ← hsound.table]
      by_cases hsame : clientId = config.buildMQClientId
      · subst hsame
        rw [OrderedMap.find?_assign_self, hnone]
        simp [Ne.symm hnew]
      · rw [OrderedMap.find?_assign_of_ne _ _ hsame]
  · by_cases hnew : found = state.factoryCount
    · subst hnew
      rw [factories_addFactory_self]
      refine ⟨Nat.lt_succ_self _, ?_⟩
      change ((state.setMember state.memberCount _).members state.memberCount).Own
      rw [members_setMember_self]
      exact ⟨rfl, rfl⟩
    · rw [factories_addFactory_of_ne hnew]
      exact hadded.inner found (Nat.lt_of_le_of_ne (Nat.le_of_lt_succ hfound) hnew)
  · have hold : (state.addFactory config).factoryOf other = (state.addMember
        ⟨.producer, true, clientInnerProducerGroup, config, .createJust, 0⟩).factoryOf other :=
      factories_addFactory_of_ne (hadded.placed other hruns.runs).ne
    rw [hold]
    exact hadded.consumers other hbusy hruns
  · have hold : (state.addFactory config).factoryOf other = (state.addMember
        ⟨.producer, true, clientInnerProducerGroup, config, .createJust, 0⟩).factoryOf other :=
      factories_addFactory_of_ne (hadded.placed other hruns.runs).ne
    rw [hold]
    exact hadded.producers other hbusy hruns

theorem grows_addFactory {config : ClientConfig} (htouched : touched < state.memberCount) :
    Grows touched state (state.addFactory config) := by
  have hmembers : ∀ other < state.memberCount,
      (state.addFactory config).members other = state.members other :=
    fun other hother ↦ members_setMember_of_ne hother.ne
  refine ⟨Nat.le_succ _, Nat.le_succ _, fun other hother _ ↦ hmembers other hother,
    by rw [hmembers touched htouched], by rw [hmembers touched htouched],
    by rw [hmembers touched htouched], fun found hfound ↦ ?_⟩
  rw [factories_addFactory_of_ne hfound.ne]
  exact MQClientFactory.Grows.refl _

/-- A member runs that is registered with its factory. -/
theorem Sound.run (hsound : state.Sound strict busy)
    (hplaced : (state.members index).mqClientFactory < state.factoryCount)
    (hconsumer : (state.members index).kind ≠ .producer →
      (state.factoryOf index).consumerTable.find? (state.members index).group = some index ∧
        (state.factoryOf index).serviceState = .running)
    (hproducer : (state.members index).kind = .producer →
      (state.members index).group ≠ clientInnerProducerGroup →
      (state.factoryOf index).producerTable.find? (state.members index).group = some index ∧
        (strict → (state.factoryOf index).serviceState = .running)) :
    (state.setMember index { state.members index with serviceState := .running }).Sound strict
      busy := by
  refine ⟨hsound.table, fun found hfound ↦ ?_, fun other hruns ↦ ?_, fun other hbusy hruns ↦ ?_,
    fun other hbusy hruns ↦ ?_⟩
  · obtain ⟨hlt, hinner⟩ := hsound.inner found hfound
    refine ⟨hlt, ?_⟩
    change ((state.setMember index _).members (state.factories found).defaultMQProducer).Own
    by_cases hother : (state.factories found).defaultMQProducer = index
    · rw [hother] at hinner ⊢
      rwa [members_setMember_self]
    · rwa [members_setMember_of_ne hother]
  · unfold Runs at hruns
    by_cases hother : other = index
    · subst hother
      rwa [members_setMember_self]
    · rw [members_setMember_of_ne hother] at hruns ⊢
      exact hsound.placed other hruns
  · unfold RunsConsumer at hruns
    unfold factoryOf
    by_cases hother : other = index
    · subst hother
      rw [members_setMember_self] at hruns ⊢
      exact hconsumer hruns.2.2.1
    · rw [members_setMember_of_ne hother] at hruns ⊢
      exact hsound.consumers other hbusy hruns
  · unfold RunsProducer at hruns
    unfold factoryOf
    by_cases hother : other = index
    · subst hother
      rw [members_setMember_self] at hruns ⊢
      exact hproducer hruns.2.2.1 hruns.2.2.2.1
    · rw [members_setMember_of_ne hother] at hruns ⊢
      exact hsound.producers other hbusy hruns

end Changes

/-! ### Changes of a shutdown -/

section Stopping

variable {strict : Prop} {busy : Option ℕ} {state : Lifecycle} {index member : ℕ}

theorem Sound.mark (hsound : state.Sound strict none) : state.Sound strict (some member) :=
  ⟨hsound.table, hsound.inner, hsound.placed, fun other _ ↦ hsound.consumers other nofun,
    fun other _ ↦ hsound.producers other nofun⟩

/-- A busy member stops. -/
theorem Sound.stop (hsound : state.Sound strict (some member)) :
    (state.setMember member { state.members member with serviceState := .shutdownAlready }).Sound
      strict none := by
  have hstopped := @setMember strict (some member) state member
    { state.members member with serviceState := .shutdownAlready } hsound rfl rfl nofun
  have hself := @members_setMember_self state member
    { state.members member with serviceState := .shutdownAlready }
  refine ⟨hstopped.table, hstopped.inner, hstopped.placed, fun other _ hruns ↦ ?_,
    fun other _ hruns ↦ ?_⟩
  · refine hstopped.consumers other (fun hsame ↦ ?_) hruns
    obtain rfl := Option.some.inj hsame
    have hrunning := hruns.2.2.2
    rw [hself] at hrunning
    exact nomatch hrunning
  · refine hstopped.producers other (fun hsame ↦ ?_) hruns
    obtain rfl := Option.some.inj hsame
    have hrunning := hruns.2.2.2.2
    rw [hself] at hrunning
    exact nomatch hrunning

/-- A factory loses entries that no running member has. -/
theorem Sound.shrink (hsound : state.Sound strict busy) {factory : MQClientFactory}
    (hclientId : factory.clientId = (state.factories index).clientId)
    (hproducer : factory.defaultMQProducer = (state.factories index).defaultMQProducer)
    (hstate : factory.serviceState = (state.factories index).serviceState)
    (hconsumers : ∀ other, some other ≠ busy → state.RunsConsumer other →
      (state.members other).mqClientFactory = index →
      factory.consumerTable.find? (state.members other).group =
        (state.factories index).consumerTable.find? (state.members other).group)
    (hproducers : ∀ other, some other ≠ busy → state.RunsProducer other →
      (state.members other).mqClientFactory = index →
      factory.producerTable.find? (state.members other).group =
        (state.factories index).producerTable.find? (state.members other).group) :
    (state.setFactory index factory).Sound strict busy := by
  have hkept : ∀ other,
      ((state.setFactory index factory).factories other).clientId =
          (state.factories other).clientId ∧
        ((state.setFactory index factory).factories other).defaultMQProducer =
          (state.factories other).defaultMQProducer ∧
        ((state.setFactory index factory).factories other).serviceState =
          (state.factories other).serviceState := by
    intro other
    by_cases hother : other = index
    · subst hother
      rw [factories_setFactory_self]
      exact ⟨hclientId, hproducer, hstate⟩
    · rw [factories_setFactory_of_ne hother]
      exact ⟨rfl, rfl, rfl⟩
  refine ⟨fun clientId found ↦ ?_, fun found hfound ↦ ?_, hsound.placed,
    fun other hbusy hruns ↦ ?_, fun other hbusy hruns ↦ ?_⟩
  · rw [(hkept found).1, (hkept found).2.2]
    exact hsound.table clientId found
  · rw [(hkept found).2.1]
    exact hsound.inner found hfound
  · obtain ⟨hfind, hrunning⟩ := hsound.consumers other hbusy hruns
    refine ⟨?_, (hkept _).2.2.trans hrunning⟩
    change ((state.setFactory index factory).factories
      (state.members other).mqClientFactory).consumerTable.find? (state.members other).group = _
    by_cases hplace : (state.members other).mqClientFactory = index
    · rw [hplace, factories_setFactory_self, hconsumers other hbusy hruns hplace, ← hplace]
      exact hfind
    · rw [factories_setFactory_of_ne hplace]
      exact hfind
  · obtain ⟨hfind, hrunning⟩ := hsound.producers other hbusy hruns
    refine ⟨?_, fun hstrict ↦ (hkept _).2.2.trans (hrunning hstrict)⟩
    change ((state.setFactory index factory).factories
      (state.members other).mqClientFactory).producerTable.find? (state.members other).group = _
    by_cases hplace : (state.members other).mqClientFactory = index
    · rw [hplace, factories_setFactory_self, hproducers other hbusy hruns hplace, ← hplace]
      exact hfind
    · rw [factories_setFactory_of_ne hplace]
      exact hfind

/-- A factory is closed that no running member has. -/
theorem Sound.close (hsound : state.Sound strict busy)
    (hindex : index < state.factoryCount)
    (hrunning : (state.factories index).serviceState = .running)
    (hconsumers : ∀ other, some other ≠ busy → state.RunsConsumer other →
      (state.members other).mqClientFactory ≠ index)
    (hproducers : strict → ∀ other, some other ≠ busy → state.RunsProducer other →
      (state.members other).mqClientFactory ≠ index) :
    (state.closeFactory index).Sound strict busy := by
  have hself : (state.closeFactory index).factories index =
      { state.factories index with serviceState := .shutdownAlready } := factories_setFactory_self
  have hothers : ∀ other ≠ index, (state.closeFactory index).factories other =
      state.factories other := fun other hother ↦ factories_setFactory_of_ne hother
  have hown : state.factoryTable.find? (state.factories index).clientId = some index :=
    (hsound.table _ _).mpr ⟨hindex, rfl, by rw [hrunning]; exact nofun⟩
  refine ⟨fun clientId found ↦ ?_, fun found hfound ↦ ?_, hsound.placed,
    fun other hbusy hruns ↦ ?_, fun other hbusy hruns ↦ ?_⟩
  · change (state.factoryTable.erase (state.factories index).clientId).find? clientId =
      some found ↔ found < state.factoryCount ∧ _
    by_cases hclosed : found = index
    · subst hclosed
      rw [hself]
      refine iff_of_false ?_ fun hopen ↦ hopen.2.2 rfl
      by_cases hsame : clientId = (state.factories found).clientId
      · rw [hsame, OrderedMap.find?_erase_self]
        exact nofun
      · rw [OrderedMap.find?_erase_of_ne _ hsame, hsound.table]
        exact fun hold ↦ hsame hold.2.1.symm
    · rw [hothers found hclosed, ← hsound.table]
      by_cases hsame : clientId = (state.factories index).clientId
      · rw [hsame, OrderedMap.find?_erase_self, hown]
        exact iff_of_false nofun fun hfound ↦ hclosed (Option.some.inj hfound).symm
      · rw [OrderedMap.find?_erase_of_ne _ hsame]
  · have hproducer : ((state.closeFactory index).factories found).defaultMQProducer =
        (state.factories found).defaultMQProducer := by
      by_cases hclosed : found = index
      · subst hclosed
        rw [hself]
      · rw [hothers found hclosed]
    rw [hproducer]
    exact hsound.inner found hfound
  · have hplace : (state.closeFactory index).factoryOf other = state.factoryOf other :=
      hothers _ (hconsumers other hbusy hruns)
    rw [hplace]
    exact hsound.consumers other hbusy hruns
  · obtain ⟨hfind, hopen⟩ := hsound.producers other hbusy hruns
    refine ⟨?_, fun hstrict ↦ ?_⟩
    · change ((state.closeFactory index).factories
        (state.members other).mqClientFactory).producerTable.find? _ = _
      by_cases hclosed : (state.members other).mqClientFactory = index
      · rw [hclosed, hself, ← hclosed]
        exact hfind
      · rw [hothers _ hclosed]
        exact hfind
    · have hplace : (state.closeFactory index).factoryOf other = state.factoryOf other :=
        hothers _ (hproducers hstrict other hbusy hruns)
      rw [hplace]
      exact hopen hstrict

end Stopping

end Lifecycle

end RocketMQClient.Factory
