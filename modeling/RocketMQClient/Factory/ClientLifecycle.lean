import RocketMQClient.Consumer.OffsetStore
import RocketMQClient.Library.ByteString
import RocketMQClient.Library.EventSystem
import RocketMQClient.Library.OrderedMap
import RocketMQClient.Library.Session

/-!
# Starting and shutting down clients

The producers and consumers of a process share a `MQClientFactory` when their clients have one id,
which is made of the address and the instance name. `MQClientManager` keeps the factories by their
ids; the first `start` of a member creates and starts the factory, and the last `shutdown` is meant
to close it. A factory has a producer of its own, which is started with it and whose id may be
another one: an instance named `DEFAULT` is renamed to the process id for that producer, so it
registers with another factory.

The operations are sessions that may throw. `lifecycleSystem` runs one of them to its end after the
other, in any order. A `shutdown` closes the factory when it has no consumer and at most one
producer left, the one of its own; when that one is registered elsewhere, the one left is a producer
of the user (`Strands`). -/

set_option autoImplicit false
set_option relaxedAutoImplicit false

namespace RocketMQClient.Factory

open Library

/-- How far a member or a factory is. -/
inductive ServiceState where
  | createJust
  | running
  | shutdownAlready
  | startFailed
  deriving DecidableEq

/-- The part of the configuration that the id of a client is made of. -/
structure ClientConfig where
  clientIP : ByteString
  instanceName : ByteString
  deriving DecidableEq

namespace ClientConfig

def buildMQClientId (config : ClientConfig) : ByteString :=
  config.clientIP ++ ofString "@" ++ config.instanceName

/-- An instance that has no name of its own is named after the process. -/
def changeInstanceNameToPID (pid : ByteString) (config : ClientConfig) : ClientConfig :=
  if config.instanceName = ofString "DEFAULT" then { config with instanceName := pid } else config

end ClientConfig

/-- The group of the producers that belong to factories. -/
def clientInnerProducerGroup : ByteString := ofString "CLIENT_INNER_PRODUCER"

/-- What a member is. -/
inductive MemberKind where
  | producer
  | consumer (messageModel : Consumer.MessageModel)
  deriving DecidableEq

/-- A producer or a consumer; `inner` is one that belongs to a factory. -/
structure Member where
  kind : MemberKind
  inner : Bool
  group : ByteString
  clientConfig : ClientConfig
  serviceState : ServiceState
  mqClientFactory : ℕ
  deriving DecidableEq

/-- A factory, with its members by their groups and its own producer. -/
structure MQClientFactory where
  clientConfig : ClientConfig
  clientId : ByteString
  serviceState : ServiceState
  consumerTable : OrderedMap ByteString ℕ
  producerTable : OrderedMap ByteString ℕ
  defaultMQProducer : ℕ

/-- The factories by their ids, and all factories and members of the process. -/
structure Lifecycle where
  factoryTable : OrderedMap ByteString ℕ
  factories : ℕ → MQClientFactory
  factoryCount : ℕ
  members : ℕ → Member
  memberCount : ℕ

namespace Lifecycle

/-- No factory and no member. -/
def initial : Lifecycle where
  factoryTable := OrderedMap.empty
  factories _ := ⟨⟨[], []⟩, [], .createJust, OrderedMap.empty, OrderedMap.empty, 0⟩
  factoryCount := 0
  members _ := ⟨.producer, false, [], ⟨[], []⟩, .createJust, 0⟩
  memberCount := 0

/-- A member is overwritten. -/
def setMember (state : Lifecycle) (index : ℕ) (member : Member) : Lifecycle :=
  { state with members := Function.update state.members index member }

/-- A factory is overwritten. -/
def setFactory (state : Lifecycle) (index : ℕ) (factory : MQClientFactory) : Lifecycle :=
  { state with factories := Function.update state.factories index factory }

/-- A new member. -/
def addMember (state : Lifecycle) (member : Member) : Lifecycle :=
  { state.setMember state.memberCount member with memberCount := state.memberCount + 1 }

/-- The constructor of a factory, which creates its producer, and its entry in the table. -/
def addFactory (state : Lifecycle) (config : ClientConfig) : Lifecycle :=
  let clientId := config.buildMQClientId
  let created := state.addMember
    ⟨.producer, true, clientInnerProducerGroup, config, .createJust, 0⟩
  { created.setFactory state.factoryCount
      ⟨config, clientId, .createJust, OrderedMap.empty, OrderedMap.empty, state.memberCount⟩ with
    factoryTable := state.factoryTable.assign clientId state.factoryCount
    factoryCount := state.factoryCount + 1 }

/-- `removeClientFactory` and the end of a factory. -/
def closeFactory (state : Lifecycle) (index : ℕ) : Lifecycle :=
  { state.setFactory index { state.factories index with serviceState := .shutdownAlready } with
    factoryTable := state.factoryTable.erase (state.factories index).clientId }

end Lifecycle

/-- A call that may throw an exception with a message. -/
abbrev LifecycleCall := Session Lifecycle ByteString

/-- Which parts of a start succeed: the check of the configuration and the copy of the
subscriptions, the load of the offsets, and what a factory starts. -/
structure StartAnswers where
  checkConfig : Bool
  load : Bool
  startFactory : Bool

/-- What a member throws that is started twice, or again after a start that failed. -/
def stateNotOk (description : String) : ByteString :=
  ofString description ++ ofString " service state not OK, maybe started once, "

/-- What a member throws whose group is taken. -/
def createdBefore (description : String) (group : ByteString) : ByteString :=
  ofString description ++ ofString " group[" ++ group ++
    ofString "] has been created before, specify another name please."

/-! ### The operations of the source -/

/-- A change of a member. -/
def changeMember (index : ℕ) (change : Member → Member) : LifecycleCall Unit :=
  Session.modify fun state ↦ state.setMember index (change (state.members index))

/-- A change of a factory. -/
def changeFactory (index : ℕ) (change : MQClientFactory → MQClientFactory) : LifecycleCall Unit :=
  Session.modify fun state ↦ state.setFactory index (change (state.factories index))

/-- `m_serviceState` of a member. -/
def setServiceState (index : ℕ) (serviceState : ServiceState) : LifecycleCall Unit :=
  changeMember index fun member ↦ { member with serviceState := serviceState }

def getAndCreateMQClientFactory (config : ClientConfig) : LifecycleCall ℕ := do
  let found ← Session.read fun state ↦ state.factoryTable.find? config.buildMQClientId
  match found with
  | some index => pure index
  | none => do
    let index ← Session.read Lifecycle.factoryCount
    Session.modify fun state ↦ state.addFactory config
    pure index

def registerConsumer (index : ℕ) (group : ByteString) (consumer : ℕ) : LifecycleCall Bool := do
  let taken ← Session.read fun state ↦ decide (group ∈ (state.factories index).consumerTable)
  if group = [] ∨ taken = true then pure false
  else do
    changeFactory index fun factory ↦
      { factory with consumerTable := factory.consumerTable.assign group consumer }
    pure true

def registerProducer (index : ℕ) (group : ByteString) (producer : ℕ) : LifecycleCall Bool := do
  let taken ← Session.read fun state ↦ decide (group ∈ (state.factories index).producerTable)
  if group = [] ∨ taken = true then pure false
  else do
    changeFactory index fun factory ↦
      { factory with producerTable := factory.producerTable.assign group producer }
    pure true

def unregisterConsumer (index : ℕ) (group : ByteString) : LifecycleCall Unit :=
  changeFactory index fun factory ↦
    { factory with consumerTable := factory.consumerTable.erase group }

def unregisterProducer (index : ℕ) (group : ByteString) : LifecycleCall Unit :=
  changeFactory index fun factory ↦
    { factory with producerTable := factory.producerTable.erase group }

/-- A producer is registered with its factory, in `DefaultMQProducerImpl::start`. -/
def enrollProducer (pid : ByteString) (producer : ℕ) : LifecycleCall ℕ := do
  setServiceState producer .startFailed
  changeMember producer fun member ↦
    if member.group = clientInnerProducerGroup then
      { member with clientConfig := member.clientConfig.changeInstanceNameToPID pid }
    else member
  let member ← Session.read fun state ↦ state.members producer
  let index ← getAndCreateMQClientFactory member.clientConfig
  changeMember producer fun current ↦ { current with mqClientFactory := index }
  let registerOK ← registerProducer index member.group producer
  if registerOK = false ∧ member.group ≠ clientInnerProducerGroup then do
    setServiceState producer .createJust
    Session.throw (createdBefore "The producer" member.group)
  else pure index

/-- `DefaultMQProducerImpl::start(false)`. -/
def startInnerProducer (pid : ByteString) (producer : ℕ) : LifecycleCall Unit := do
  let serviceState ← Session.read fun state ↦ (state.members producer).serviceState
  if serviceState = .createJust then do
    let _ ← enrollProducer pid producer
    setServiceState producer .running
  else Session.throw (stateNotOk "The producer")

/-- `MQClientFactory::start`. -/
def startFactory (pid : ByteString) (answers : StartAnswers) (index : ℕ) : LifecycleCall Unit := do
  let factory ← Session.read fun state ↦ state.factories index
  match factory.serviceState with
  | .createJust => do
    changeFactory index fun current ↦ { current with serviceState := .startFailed }
    if answers.startFactory then do
      startInnerProducer pid factory.defaultMQProducer
      changeFactory index fun current ↦ { current with serviceState := .running }
    else Session.throw []
  | .running => pure ()
  | .shutdownAlready => pure ()
  | .startFailed => Session.throw (ofString "The Factory object start failed")

/-- `DefaultMQProducerImpl::start`. -/
def startProducer (pid : ByteString) (answers : StartAnswers) (producer : ℕ) :
    LifecycleCall Unit := do
  let serviceState ← Session.read fun state ↦ (state.members producer).serviceState
  if serviceState = .createJust then do
    let index ← enrollProducer pid producer
    startFactory pid answers index
    setServiceState producer .running
  else Session.throw (stateNotOk "The producer")

/-- The load of the offsets and the registration, in `DefaultMQPushConsumerImpl::start`. -/
def enrollConsumer (pid : ByteString) (answers : StartAnswers)
    (messageModel : Consumer.MessageModel) (consumer : ℕ) : LifecycleCall ℕ := do
  changeMember consumer fun member ↦
    if messageModel = .clustering then
      { member with clientConfig := member.clientConfig.changeInstanceNameToPID pid }
    else member
  let member ← Session.read fun state ↦ state.members consumer
  let index ← getAndCreateMQClientFactory member.clientConfig
  changeMember consumer fun current ↦ { current with mqClientFactory := index }
  if answers.load = false then Session.throw []
  else do
    let registerOK ← registerConsumer index member.group consumer
    if registerOK = false then do
      setServiceState consumer .createJust
      Session.throw (createdBefore "The consumer" member.group)
    else pure index

/-- `DefaultMQPushConsumerImpl::start` and `DefaultMQPullConsumerImpl::start`. -/
def startConsumer (pid : ByteString) (answers : StartAnswers)
    (messageModel : Consumer.MessageModel) (consumer : ℕ) : LifecycleCall Unit := do
  let serviceState ← Session.read fun state ↦ (state.members consumer).serviceState
  if serviceState = .createJust then do
    setServiceState consumer .startFailed
    if answers.checkConfig = false then Session.throw []
    else do
      let index ← enrollConsumer pid answers messageModel consumer
      startFactory pid answers index
      setServiceState consumer .running
  else Session.throw (stateNotOk "The PullConsumer")

/-- `DefaultMQProducerImpl::shutdown(false)`. -/
def shutdownInnerProducer (producer : ℕ) : LifecycleCall Unit := do
  let member ← Session.read fun state ↦ state.members producer
  if member.serviceState = .running then do
    unregisterProducer member.mqClientFactory member.group
    setServiceState producer .shutdownAlready
  else pure ()

/-- `MQClientFactory::shutdown`. -/
def shutdownFactory (index : ℕ) : LifecycleCall Unit := do
  let factory ← Session.read fun state ↦ state.factories index
  if factory.consumerTable.isEmpty = false ∨ 1 < factory.producerTable.size ∨
      factory.serviceState ≠ .running then pure ()
  else do
    shutdownInnerProducer factory.defaultMQProducer
    Session.modify fun state ↦ state.closeFactory index

/-- A member leaves its factory. -/
def unregister (member : Member) : LifecycleCall Unit :=
  match member.kind with
  | .producer => unregisterProducer member.mqClientFactory member.group
  | .consumer _ => unregisterConsumer member.mqClientFactory member.group

/-- `shutdown` of a producer or a consumer. -/
def shutdownMember (index : ℕ) : LifecycleCall Unit := do
  let member ← Session.read fun state ↦ state.members index
  if member.serviceState = .running then do
    unregister member
    shutdownFactory member.mqClientFactory
    setServiceState index .shutdownAlready
  else pure ()

/-- A factory without the entry of a member. -/
def MQClientFactory.without (factory : MQClientFactory) (member : Member) : MQClientFactory :=
  match member.kind with
  | .producer => { factory with producerTable := factory.producerTable.erase member.group }
  | .consumer _ => { factory with consumerTable := factory.consumerTable.erase member.group }

/-- The factory of a member. -/
def Lifecycle.factoryOf (state : Lifecycle) (member : ℕ) : MQClientFactory :=
  state.factories (state.members member).mqClientFactory

/-! ### The event system -/

/-- What the user does. -/
inductive LifecycleEvent where
  | create (kind : MemberKind) (group : ByteString) (config : ClientConfig)
  | start (member : ℕ) (answers : StartAnswers)
  | shutdown (member : ℕ)

namespace Lifecycle

/-- One call to its end, returned or thrown. -/
def step (pid : ByteString) (state : Lifecycle) : LifecycleEvent → Option Lifecycle
  | .create kind group config =>
    some (state.addMember ⟨kind, false, group, config, .createJust, 0⟩)
  | .start member answers =>
    if member < state.memberCount ∧ (state.members member).inner = false then
      match (state.members member).kind with
      | .producer => some (startProducer pid answers member state).2
      | .consumer messageModel => some (startConsumer pid answers messageModel member state).2
    else none
  | .shutdown member =>
    if member < state.memberCount ∧ (state.members member).inner = false then
      some (shutdownMember member state).2
    else none

end Lifecycle

/-- Starts and shutdowns in a process. -/
def lifecycleSystem (pid : ByteString) : EventSystem Lifecycle LifecycleEvent :=
  ⟨Lifecycle.step pid⟩

/-- A `shutdown` of the member closes a factory that has a producer of the user left. -/
def Lifecycle.Strands (state : Lifecycle) (member : ℕ) : Prop :=
  (state.members member).serviceState = .running ∧
    ((state.factoryOf member).without (state.members member)).consumerTable.isEmpty = true ∧
    ((state.factoryOf member).without (state.members member)).producerTable.size ≤ 1 ∧
    (state.factoryOf member).serviceState = .running ∧
    ∃ entry ∈ ((state.factoryOf member).without (state.members member)).producerTable.entries,
      entry.1 ≠ clientInnerProducerGroup

instance (state : Lifecycle) (member : ℕ) : Decidable (state.Strands member) :=
  inferInstanceAs (Decidable (_ ∧ _))

/-- No producer of the user loses its factory. -/
def KeepsFactories (state : Lifecycle) : LifecycleEvent → Prop
  | .shutdown member => ¬ state.Strands member
  | .create _ _ _ | .start _ _ => True

instance (state : Lifecycle) : ∀ event, Decidable (KeepsFactories state event)
  | .shutdown member => inferInstanceAs (Decidable (¬ state.Strands member))
  | .create _ _ _ | .start _ _ => isTrue trivial

end RocketMQClient.Factory
