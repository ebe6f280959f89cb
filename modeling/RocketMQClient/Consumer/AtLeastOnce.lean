import RocketMQClient.Consumer.DroppedQueue

/-!
# Delivery across clients and restarts

The clients of a group take one message queue in turn, or several at once while a rebalance is under
way: each process queue that a client has had for it is a session, which starts at an offset that
`computePullFromWhere` gives, pulls from there and consumes what it pulled. `groupSystem` has any
number of clients and sessions. The sessions of one client share its offset table, the offsets that
`persist` or a pull request sends to the broker travel and may arrive in any order or never, and a
client may crash at any time, with the offset table and all messages that it holds.

The steps of a session are those of `droppedSystem`; what that system asks of a batch follows here
from the replies of the broker, which hold every selected message from the offset of the request to
the next offset (`replies_enabled`). `Covered` says that every selected message below an offset has
been given to a listener, or was skipped by a session that found no committed offset or by the
correction of an illegal offset. `covered_of_tracked` is the argument: what lies below an offset
that a session may store was pulled by it or lies below its start. `delivered_at_least_once` is the
statement about whole runs. -/

set_option autoImplicit false
set_option relaxedAutoImplicit false

namespace RocketMQClient.Consumer

open Library Messages

/-! ### Clients, sessions and the broker -/

/-- The offsets of the selected messages from one offset to another. -/
def selectedOffsets (wanted : ℤ → Bool) (first last : ℤ) : List ℤ :=
  ((List.range (last - first).toNat).map fun index : ℕ ↦ first + index).filter wanted

/-- A client of the group, with the offset table that its sessions share. -/
structure GroupClient where
  alive : Bool
  offsetTable : OffsetTable

/-- A process queue that a client has had for the message queue, with the offset it started from and
the next offset of its pull request. -/
structure ConsumeSession where
  client : ℕ
  startOffset : ℤ
  nextOffset : ℤ
  consumption : DroppedState

/-- The offset committed at the broker, the offsets on their way to it, the clients and sessions,
and the offsets that sessions have skipped to. -/
structure GroupState where
  committed : Option ℤ
  commits : List ℤ
  clients : ℕ → GroupClient
  sessions : List ConsumeSession
  skips : List ℤ

/-- The steps of the clients and of the broker. -/
inductive GroupEvent where
  /-- A rebalance adds a process queue, and the broker answers with the committed offset. -/
  | startFromStore (client : ℕ) (now : ℤ)
  /-- A rebalance adds a process queue that got no committed offset. -/
  | startFromWhere (client : ℕ) (now offset : ℤ)
  /-- A pull reply with messages. -/
  | found (index : ℕ) (msgs : List MessageExt) (nextBeginOffset : ℤ)
  /-- A pull reply `NO_NEW_MSG` or `NO_MATCHED_MSG`. -/
  | noMatchedMsg (index : ℕ) (nextBeginOffset : ℤ)
  | consume (index : ℕ) (event : DroppedEvent)
  /-- An offset arrives at the broker. -/
  | commit (offset : ℤ)
  | crash (client : ℕ)

namespace DroppedEvent

/-- The offsets that the pull callback puts. -/
def puts : DroppedEvent → List ℤ
  | putMessage msgs => msgs.map MessageExt.queueOffset
  | _ => []

/-- The next offset that the pull callback hands to `correctTagsOffset`. -/
def nexts : DroppedEvent → List ℤ
  | correctTagsOffset nextOffset => [nextOffset]
  | _ => []

/-- The correction of an illegal offset. -/
def corrections : DroppedEvent → List ℤ
  | executePullTaskLater nextOffset => [nextOffset]
  | _ => []

/-- The step is one of the pull callback on a reply. -/
def ofReply : DroppedEvent → Bool
  | putMessage _ | correctTagsOffset _ => true
  | _ => false

end DroppedEvent

/-- The process queue with the offset table of its client, and nothing written or sent yet. -/
def DroppedState.lend (queue : MessageQueue) (table : OffsetTable) (consumption : DroppedState) :
    DroppedState :=
  { consumption with
    commit := { consumption.commit with offsetTable := table }
    written := []
    corrected := (table.readOffset queue).toList
    sent := [] }

namespace GroupState

/-- No offset is committed and no client has the queue. -/
def initial : GroupState := ⟨none, [], fun _ ↦ ⟨true, OrderedMap.empty⟩, [], []⟩

/-- The offsets given to a listener. -/
def given (state : GroupState) : List ℤ :=
  state.sessions.flatMap fun session ↦ session.consumption.given

/-- A client changes its offset table. -/
def setTable (state : GroupState) (client : ℕ) (table : OffsetTable) : GroupState :=
  { state with
    clients :=
      Function.update state.clients client { state.clients client with offsetTable := table } }

/-- A session starts. -/
def start (state : GroupState) (queue : MessageQueue) (client : ℕ) (now offset : ℤ) :
    GroupState :=
  { state with
    sessions := state.sessions ++
      [⟨client, offset, offset, DroppedState.initial now queue OrderedMap.empty⟩] }

/-- A session has taken a step over the offset table of its client; what it sent is on its way to
the broker. -/
def write (state : GroupState) (index : ℕ) (session : ConsumeSession) (event : DroppedEvent)
    (nextOffset : ℤ) (consumption : DroppedState) : GroupState :=
  { state.setTable session.client consumption.commit.offsetTable with
    commits := state.commits ++ consumption.sent
    sessions := state.sessions.set index
      { session with nextOffset := nextOffset, consumption := consumption }
    skips := state.skips ++ event.corrections }

/-- A session of a client that lives takes a step. -/
def act (queue : MessageQueue) (batchSize : ℕ) (state : GroupState) (index : ℕ)
    (event : DroppedEvent) (advance : ℤ → ℤ) : Option GroupState :=
  (state.sessions[index]?).bind fun session ↦
    if (state.clients session.client).alive then
      ((session.consumption.lend queue (state.clients session.client).offsetTable).step queue
        batchSize .clustering event).map
          (state.write index session event (advance session.nextOffset))
    else none

/-- A reply from the next offset of the pull request to the one in the reply, with the offsets of
its messages. -/
def Replies (wanted : ℤ → Bool) (state : GroupState) (index : ℕ) (offsets : List ℤ)
    (nextBeginOffset : ℤ) : Prop :=
  ∀ session ∈ state.sessions[index]?, session.nextOffset ≤ nextBeginOffset ∧
    offsets = selectedOffsets wanted session.nextOffset nextBeginOffset

instance (wanted : ℤ → Bool) (state : GroupState) (index : ℕ) (offsets : List ℤ)
    (nextBeginOffset : ℤ) : Decidable (state.Replies wanted index offsets nextBeginOffset) :=
  inferInstanceAs (Decidable (∀ session ∈ state.sessions[index]?, _))

/-- One step. The broker keeps the last offset that arrived. -/
def step (wanted : ℤ → Bool) (queue : MessageQueue) (batchSize : ℕ) (state : GroupState) :
    GroupEvent → Option GroupState
  | .startFromStore client now =>
    state.committed.bind fun offset ↦
      if 0 ≤ offset ∧ (state.clients client).alive then
        some ((state.setTable client
          ((state.clients client).offsetTable.updateOffset queue offset false)).start queue client
            now offset)
      else none
  | .startFromWhere client now offset =>
    if (state.clients client).alive then
      some { state.start queue client now offset with skips := state.skips ++ [offset] }
    else none
  | .found index msgs nextBeginOffset =>
    if state.Replies wanted index (msgs.map MessageExt.queueOffset) nextBeginOffset then
      state.act queue batchSize index (.putMessage msgs) fun _ ↦ nextBeginOffset
    else none
  | .noMatchedMsg index nextBeginOffset =>
    if state.Replies wanted index [] nextBeginOffset then
      state.act queue batchSize index (.correctTagsOffset nextBeginOffset) fun _ ↦ nextBeginOffset
    else none
  | .consume index event =>
    if event.ofReply then none else state.act queue batchSize index event id
  | .commit offset =>
    if offset ∈ state.commits then
      some { state with committed := some offset, commits := state.commits.erase offset }
    else none
  | .crash client =>
    some { state with
      clients :=
        Function.update state.clients client { state.clients client with alive := false } }

end GroupState

/-- The clients of a group that consume one message queue in clustering mode. -/
def groupSystem (wanted : ℤ → Bool) (queue : MessageQueue) (batchSize : ℕ) :
    EventSystem GroupState GroupEvent :=
  ⟨GroupState.step wanted queue batchSize⟩

/-- The step of a session that an event is. -/
def GroupEvent.ofSession : GroupEvent → Option (ℕ × DroppedEvent)
  | .found index msgs _ => some (index, .putMessage msgs)
  | .noMatchedMsg index nextBeginOffset => some (index, .correctTagsOffset nextBeginOffset)
  | .consume index event => some (index, event)
  | .startFromStore _ _ | .startFromWhere _ _ _ | .commit _ | .crash _ => none

/-- The step is held back by the messages that its session has discarded, if there are any. -/
def GroupState.HoldsBack (state : GroupState) (event : GroupEvent) : Prop :=
  ∀ step ∈ event.ofSession, ∀ session ∈ state.sessions[step.1]?,
    session.consumption.HoldsBack .clustering step.2

instance (state : GroupState) (event : GroupEvent) : Decidable (state.HoldsBack event) :=
  inferInstanceAs (Decidable (∀ step ∈ event.ofSession, ∀ session ∈ state.sessions[step.1]?, _))

/-- Every selected message below the offset has been given to a listener or skipped. -/
def GroupState.Covered (wanted : ℤ → Bool) (state : GroupState) (offset : ℤ) : Prop :=
  ∀ below < offset, wanted below = true →
    below ∈ state.given ∨ ∃ skip ∈ state.skips, below < skip

/-! ### One step of a session -/

namespace DroppedState

variable {queue : MessageQueue} {state next : DroppedState} {event : DroppedEvent}

/-- A message that was removed has been given to the listener or discarded, and one that a request
runs with has been given. -/
structure Accounted (state : DroppedState) : Prop where
  removed : ∀ offset ∈ state.commit.removedOffsets, offset ∈ state.given ∨ offset ∈ state.discarded
  running : ∀ msgs ∈ state.running, ∀ msg ∈ msgs, msg.queueOffset ∈ state.given

/-- What a step does to the history of a process queue. -/
structure Sequel (event : DroppedEvent) (state next : DroppedState) : Prop where
  given : ∀ offset ∈ state.given, offset ∈ next.given
  accounted : state.Accounted → next.Accounted
  corrected : next.corrected = state.corrected ++ event.corrections
  putOffsets : next.commit.putOffsets = state.commit.putOffsets ++ event.puts
  nextOffsets : next.commit.nextOffsets = state.commit.nextOffsets ++ event.nexts
  initialOffset : next.commit.initialOffset = state.commit.initialOffset

/-- A step that gives, removes and discards nothing. -/
theorem Sequel.of_same (hgiven : next.given = state.given)
    (hremoved : next.commit.removedOffsets = state.commit.removedOffsets)
    (hdiscarded : next.discarded = state.discarded)
    (hrunning : ∀ msgs ∈ next.running, msgs ∈ state.running)
    (hcorrected : next.corrected = state.corrected ++ event.corrections)
    (hput : next.commit.putOffsets = state.commit.putOffsets ++ event.puts)
    (hnext : next.commit.nextOffsets = state.commit.nextOffsets ++ event.nexts)
    (hinitial : next.commit.initialOffset = state.commit.initialOffset) :
    Sequel event state next := by
  refine ⟨fun offset hoffset ↦ ?_, fun haccounted ↦ ⟨?_, fun msgs hmsgs ↦ ?_⟩, hcorrected, hput,
    hnext, hinitial⟩
  · rwa [hgiven]
  · rw [hremoved, hgiven, hdiscarded]
    exact haccounted.removed
  · rw [hgiven]
    exact haccounted.running msgs (hrunning msgs hmsgs)

/-- The messages that a result removes are those of its request. -/
theorem accounted_processConsumeResult {messageModel : MessageModel} {msgs : List MessageExt}
    {result : ConsumeConcurrentlyResult} (haccounted : state.Accounted)
    (hmem : msgs ∈ state.running) :
    (processConsumeResult messageModel { state with running := state.running.erase msgs } msgs
      result).Accounted := by
  refine ⟨fun offset hoffset ↦ ?_, fun other hother ↦ ?_⟩
  · rcases List.mem_append.mp hoffset with hbefore | hremoved
    · exact haccounted.removed offset hbefore
    · obtain ⟨msg, hmsg, rfl⟩ := List.mem_map.mp hremoved
      exact Or.inl (haccounted.running msgs hmem msg (List.mem_filter.mp hmsg).1)
  · exact haccounted.running other (List.mem_of_mem_erase hother)

theorem sequel_start {batchSize : ℕ} {messageModel : MessageModel} {msgs : List MessageExt}
    (hstep : state.step queue batchSize messageModel (.start msgs) = some next) :
    Sequel (.start msgs) state next := by
  simp only [step, Option.ite_none_right_eq_some] at hstep
  obtain ⟨-, hstarted⟩ := hstep
  split_ifs at hstarted with hdroped
  · obtain rfl := Option.some.inj hstarted
    exact Sequel.of_same rfl rfl rfl (fun _ ↦ id) (List.append_nil _).symm
      (List.append_nil _).symm (List.append_nil _).symm rfl
  · obtain rfl := Option.some.inj hstarted
    refine ⟨fun offset ↦ List.mem_append_left _, fun haccounted ↦ ⟨?_, ?_⟩,
      (List.append_nil _).symm, (List.append_nil _).symm, (List.append_nil _).symm, rfl⟩
    · exact fun offset hoffset ↦
        (haccounted.removed offset hoffset).imp_left (List.mem_append_left _)
    · intro other hother msg hmsg
      rcases List.mem_append.mp hother with hbefore | hnew
      · exact List.mem_append_left _ (haccounted.running other hbefore msg hmsg)
      · obtain rfl := List.mem_singleton.mp hnew
        exact List.mem_append_right _ (List.mem_map_of_mem hmsg)

theorem sequel_discard {batchSize : ℕ} {messageModel : MessageModel} {msgs : List MessageExt}
    (hstep : state.step queue batchSize messageModel (.discard msgs) = some next) :
    Sequel (.discard msgs) state next := by
  simp only [step, Option.ite_none_right_eq_some, Option.some.injEq] at hstep
  obtain ⟨-, rfl⟩ := hstep
  refine ⟨fun _ ↦ id, fun haccounted ↦ ⟨fun offset hoffset ↦ ?_, haccounted.running⟩,
    (List.append_nil _).symm, (List.append_nil _).symm, (List.append_nil _).symm, rfl⟩
  rcases List.mem_append.mp hoffset with hbefore | hremoved
  · exact (haccounted.removed offset hbefore).imp_right (List.mem_append_left _)
  · by_cases hgiven : offset ∈ state.given
    · exact Or.inl hgiven
    · refine Or.inr (List.mem_append_right _ (List.mem_filter.mpr ⟨hremoved, ?_⟩))
      exact decide_eq_true hgiven

theorem sequel_processConsumeResult {batchSize : ℕ} {messageModel : MessageModel}
    {msgs : List MessageExt} {result : ConsumeConcurrentlyResult}
    (hstep : state.step queue batchSize messageModel (.processConsumeResult msgs result) =
      some next) :
    Sequel (.processConsumeResult msgs result) state next := by
  simp only [step, Option.ite_none_right_eq_some, Option.some.injEq] at hstep
  obtain ⟨hmem, hended⟩ := hstep
  split_ifs at hended with hnone
  · subst hended
    exact Sequel.of_same rfl rfl rfl (fun _ ↦ List.mem_of_mem_erase) (List.append_nil _).symm
      (List.append_nil _).symm (List.append_nil _).symm rfl
  · subst hended
    exact ⟨fun _ ↦ id, fun haccounted ↦ accounted_processConsumeResult haccounted hmem,
      (List.append_nil _).symm, (List.append_nil _).symm, (List.append_nil _).symm, rfl⟩

theorem sequel_of_step {batchSize : ℕ} {messageModel : MessageModel}
    (hstep : state.step queue batchSize messageModel event = some next) :
    Sequel event state next := by
  cases event with
  | start msgs => exact sequel_start hstep
  | discard msgs => exact sequel_discard hstep
  | processConsumeResult msgs result => exact sequel_processConsumeResult hstep
  | putMessage msgs =>
    obtain ⟨commit, hcommit, rfl⟩ := Option.map_eq_some_iff.mp hstep
    simp only [CommitState.step, Option.ite_none_right_eq_some, Option.some.injEq] at hcommit
    obtain ⟨-, rfl⟩ := hcommit
    exact Sequel.of_same rfl rfl rfl (fun _ ↦ id) (List.append_nil _).symm rfl
      (List.append_nil _).symm rfl
  | correctTagsOffset nextOffset =>
    obtain ⟨commit, hcommit, rfl⟩ := Option.map_eq_some_iff.mp hstep
    simp only [CommitState.step, Option.ite_none_right_eq_some, Option.some.injEq] at hcommit
    obtain ⟨-, rfl⟩ := hcommit
    exact Sequel.of_same rfl rfl rfl (fun _ ↦ id) (List.append_nil _).symm
      (List.append_nil _).symm rfl rfl
  | updateOffset offset =>
    obtain ⟨commit, hcommit, rfl⟩ := Option.map_eq_some_iff.mp hstep
    simp only [CommitState.step, Option.ite_none_right_eq_some, Option.some.injEq] at hcommit
    obtain ⟨-, rfl⟩ := hcommit
    exact Sequel.of_same rfl rfl rfl (fun _ ↦ id) (List.append_nil _).symm
      (List.append_nil _).symm (List.append_nil _).symm rfl
  | submitConsumeRequest msgs | submitConsumeRequestLater msgs =>
    simp only [step, Option.ite_none_right_eq_some, Option.some.injEq] at hstep
    obtain ⟨-, rfl⟩ := hstep
    exact Sequel.of_same rfl rfl rfl (fun _ ↦ id) (List.append_nil _).symm
      (List.append_nil _).symm (List.append_nil _).symm rfl
  | setDroped | persist | removeOffset =>
    obtain rfl := Option.some.inj hstep
    exact Sequel.of_same rfl rfl rfl (fun _ ↦ id) (List.append_nil _).symm
      (List.append_nil _).symm (List.append_nil _).symm rfl
  | executePullTaskLater nextOffset =>
    obtain rfl := Option.some.inj hstep
    exact Sequel.of_same rfl rfl rfl (fun _ ↦ id) rfl
      (List.append_nil _).symm (List.append_nil _).symm rfl

end DroppedState

/-! ### What a session has pulled -/

theorem mem_selectedOffsets {wanted : ℤ → Bool} {first last offset : ℤ} :
    offset ∈ selectedOffsets wanted first last ↔
      first ≤ offset ∧ offset < last ∧ wanted offset = true := by
  simp only [selectedOffsets, List.mem_filter, List.mem_map, List.mem_range]
  constructor
  · rintro ⟨⟨index, hindex, rfl⟩, hwanted⟩
    exact ⟨by omega, by omega, hwanted⟩
  · rintro ⟨hfirst, hlast, hwanted⟩
    exact ⟨⟨(offset - first).toNat, by omega, by omega⟩, hwanted⟩

theorem pairwise_selectedOffsets (wanted : ℤ → Bool) (first last : ℤ) :
    (selectedOffsets wanted first last).Pairwise (· < ·) := by
  refine List.Pairwise.filter wanted (List.pairwise_map.mpr ?_)
  exact List.pairwise_lt_range.imp fun hlt ↦ by omega

namespace ConsumeSession

variable {wanted : ℤ → Bool} {queue : MessageQueue} {batchSize : ℕ} {session : ConsumeSession}
  {table : OffsetTable} {event : DroppedEvent} {next : DroppedState}

/-- The process queue is as its history says, its waiting updates pass no message that is held or
was discarded, and what has been put is what the subscription selects from the start of the session
to the next offset of its pull request. -/
structure Sound (wanted : ℤ → Bool) (session : ConsumeSession) : Prop where
  held : HeldInvariant session.consumption.commit
  flying : DroppedState.Flying session.consumption.commit.processQueue session.consumption.inFlight
  tracked : ∀ offset ∈ session.consumption.commit.pendingUpdates,
    session.consumption.Tracked offset
  initialOffset : session.consumption.commit.initialOffset = none
  put_iff : ∀ offset, offset ∈ session.consumption.commit.putOffsets ↔
    session.startOffset ≤ offset ∧ offset < session.nextOffset ∧ wanted offset = true
  nexts_le : ∀ offset ∈ session.consumption.commit.nextOffsets, offset ≤ session.nextOffset
  start_le : session.startOffset ≤ session.nextOffset
  accounted : session.consumption.Accounted

theorem sound_initial (client : ℕ) (now offset : ℤ) :
    Sound wanted ⟨client, offset, offset, DroppedState.initial now queue OrderedMap.empty⟩ where
  held := heldInvariant_initial now queue OrderedMap.empty
  flying := ⟨List.Pairwise.nil, fun _ hmsg ↦ absurd hmsg List.not_mem_nil⟩
  tracked := fun _ hoffset ↦ absurd hoffset List.not_mem_nil
  initialOffset := rfl
  put_iff := by
    intro put
    refine ⟨fun hput ↦ absurd hput List.not_mem_nil, ?_⟩
    rintro ⟨hfirst, hlast, -⟩
    exact absurd hfirst (not_le.mpr hlast)
  nexts_le := fun _ hoffset ↦ absurd hoffset List.not_mem_nil
  start_le := le_refl offset
  accounted :=
    ⟨fun _ hoffset ↦ absurd hoffset List.not_mem_nil, fun _ hmsgs ↦ absurd hmsgs List.not_mem_nil⟩

/-- Over the offset table of its client, a session meets the invariant of `droppedSystem`. -/
theorem Sound.invariant_lend (hsound : session.Sound wanted) (table : OffsetTable) :
    (session.consumption.lend queue table).Invariant queue where
  held := ⟨hsound.held.increasing, hsound.held.held_iff, hsound.held.counted,
    hsound.held.removed_put, hsound.held.offsetMax,
    fun offset hoffset ↦ ⟨(hsound.tracked offset hoffset).safe.le_held,
      (hsound.tracked offset hoffset).safe.le_bound⟩⟩
  flying := hsound.flying
  tracked := by
    intro offset hoffset
    simp only [DroppedState.offsets, DroppedState.lend, hsound.initialOffset, Option.toList_none,
      List.append_nil] at hoffset
    obtain ⟨hsafe, hdiscarded⟩ := hsound.tracked offset hoffset
    exact ⟨⟨hsafe.le_held, hsafe.le_bound⟩, hdiscarded⟩
  source := fun _ hoffset ↦ List.mem_append_right _ hoffset

/-- What is put or kept as a next offset is not above the next offset of the pull request. -/
theorem Sound.bound_le (hsound : session.Sound wanted) {bound : ℤ}
    (hbound : bound ∈ session.consumption.commit.bounds) : bound ≤ session.nextOffset := by
  simp only [CommitState.bounds, hsound.initialOffset, Option.toList_none, List.nil_append,
    List.mem_append, Option.mem_toList, Option.map_eq_some_iff] at hbound
  rcases hbound with ⟨last, hlast, rfl⟩ | hnext
  · exact ((hsound.put_iff last).mp (List.mem_of_getLast? hlast)).2.1
  · exact hsound.nexts_le bound hnext

/-- What a session may store is covered by what it has given and what lies below its start. -/
theorem Sound.given_of_tracked (hsound : session.Sound wanted) {offset : ℤ}
    (htracked : session.consumption.Tracked offset) {below : ℤ} (hbelow : below < offset)
    (hwanted : wanted below = true) (hstart : session.startOffset ≤ below) :
    below ∈ session.consumption.given := by
  obtain ⟨bound, hbound, hle⟩ := htracked.safe.le_bound
  have hnext := hsound.bound_le hbound
  have hput : below ∈ session.consumption.commit.putOffsets :=
    (hsound.put_iff below).mpr ⟨hstart, by omega, hwanted⟩
  have hremoved : below ∈ session.consumption.commit.removedOffsets := by
    by_contra hleft
    have hheld := htracked.safe.le_held below ((hsound.held.held_iff below).mpr ⟨hput, hleft⟩)
    omega
  rcases hsound.accounted.removed below hremoved with hgiven | hlost
  · exact hgiven
  · have hle := htracked.le_discarded below hlost
    omega

/-- The offsets that a step puts are those of the reply, and the next offset is that of the reply.
-/
structure Advances (wanted : ℤ → Bool) (session : ConsumeSession) (event : DroppedEvent)
    (nextOffset : ℤ) : Prop where
  le_next : session.nextOffset ≤ nextOffset
  puts : event.puts = selectedOffsets wanted session.nextOffset nextOffset
  nexts : ∀ offset ∈ event.nexts, offset ≤ nextOffset

theorem Sound.step (hsound : session.Sound wanted)
    (hholds : session.consumption.HoldsBack .clustering event) {nextOffset : ℤ}
    (hadvances : session.Advances wanted event nextOffset)
    (hstep : (session.consumption.lend queue table).step queue batchSize .clustering event =
      some next) :
    Sound wanted { session with nextOffset := nextOffset, consumption := next } := by
  have hholds' : (session.consumption.lend queue table).HoldsBack .clustering event := by
    cases event <;> exact hholds
  have hinvariant := DroppedState.step_invariant hholds' hstep (hsound.invariant_lend table)
  have hsequel := DroppedState.sequel_of_step hstep
  refine ⟨hinvariant.held, hinvariant.flying, fun offset hoffset ↦ hinvariant.tracked offset ?_,
    hsequel.initialOffset.trans hsound.initialOffset, fun offset ↦ ?_, fun offset hoffset ↦ ?_,
    hsound.start_le.trans hadvances.le_next,
    hsequel.accounted ⟨hsound.accounted.removed, hsound.accounted.running⟩⟩
  · exact List.mem_append_left _ (List.mem_append_left _ hoffset)
  · have hput := hsound.put_iff offset
    have hstart := hsound.start_le
    have hle := hadvances.le_next
    rw [hsequel.putOffsets, hadvances.puts, List.mem_append, mem_selectedOffsets]
    dsimp only [DroppedState.lend]
    rw [hput]
    constructor
    · rintro (⟨hfirst, hlast, hwanted⟩ | ⟨hfirst, hlast, hwanted⟩)
      · exact ⟨hfirst, by omega, hwanted⟩
      · exact ⟨by omega, hlast, hwanted⟩
    · rintro ⟨hfirst, hlast, hwanted⟩
      by_cases hbefore : offset < session.nextOffset
      · exact Or.inl ⟨hfirst, hbefore, hwanted⟩
      · exact Or.inr ⟨by omega, hlast, hwanted⟩
  · rw [hsequel.nextOffsets] at hoffset
    rcases List.mem_append.mp hoffset with hbefore | hnew
    · exact (hsound.nexts_le offset hbefore).trans hadvances.le_next
    · exact hadvances.nexts offset hnew

/-- What a step leaves in the offset table or sends was in the table before, is a correction, or may
be stored. -/
theorem Sound.source_step (hsound : session.Sound wanted)
    (hholds : session.consumption.HoldsBack .clustering event)
    (hstep : (session.consumption.lend queue table).step queue batchSize .clustering event =
      some next) {offset : ℤ}
    (hoffset : offset ∈ next.sent ++ (next.commit.offsetTable.readOffset queue).toList) :
    offset ∈ table.readOffset queue ∨ offset ∈ event.corrections ∨ next.Tracked offset := by
  have hholds' : (session.consumption.lend queue table).HoldsBack .clustering event := by
    cases event <;> exact hholds
  have hinvariant := DroppedState.step_invariant hholds' hstep (hsound.invariant_lend table)
  have hsequel := DroppedState.sequel_of_step hstep
  have hinitial : next.commit.initialOffset = none :=
    hsequel.initialOffset.trans hsound.initialOffset
  have hsource := hinvariant.source offset hoffset
  rw [hinitial, hsequel.corrected, Option.toList_none, List.append_nil] at hsource
  rcases List.mem_append.mp hsource with hwritten | hcorrected
  · refine Or.inr (Or.inr (hinvariant.tracked offset ?_))
    exact List.mem_append_left _ (List.mem_append_right _ hwritten)
  · rcases List.mem_append.mp hcorrected with hbefore | hnew
    · exact Or.inl (Option.mem_toList.mp hbefore)
    · exact Or.inr (Or.inl hnew)

end ConsumeSession

/-! ### The invariant -/

namespace GroupState

variable {wanted : ℤ → Bool} {queue : MessageQueue} {batchSize : ℕ} {state next : GroupState}

/-- The sessions are sound and start where all before is covered, and every offset that is
committed, on its way, or in an offset table is covered. -/
structure Delivers (wanted : ℤ → Bool) (queue : MessageQueue) (state : GroupState) : Prop where
  sessions : ∀ session ∈ state.sessions,
    session.Sound wanted ∧ state.Covered wanted session.startOffset
  committed : ∀ offset ∈ state.committed, state.Covered wanted offset
  commits : ∀ offset ∈ state.commits, state.Covered wanted offset
  tables : ∀ client, ∀ offset ∈ (state.clients client).offsetTable.readOffset queue,
    state.Covered wanted offset

theorem delivers_initial : initial.Delivers wanted queue where
  sessions := fun _ hsession ↦ absurd hsession List.not_mem_nil
  committed := fun _ hoffset ↦ absurd hoffset (Option.not_mem_none _)
  commits := fun _ hoffset ↦ absurd hoffset List.not_mem_nil
  tables := fun _ _ hoffset ↦ absurd hoffset (Option.not_mem_none _)

theorem mem_given {offset : ℤ} :
    offset ∈ state.given ↔ ∃ session ∈ state.sessions, offset ∈ session.consumption.given :=
  List.mem_flatMap

/-- What is covered stays covered. -/
theorem Covered.mono {offset : ℤ} (hcovered : state.Covered wanted offset)
    (hgiven : ∀ below ∈ state.given, below ∈ next.given)
    (hskips : ∀ skip ∈ state.skips, skip ∈ next.skips) : next.Covered wanted offset := by
  intro below hbelow hwanted
  rcases hcovered below hbelow hwanted with hbefore | ⟨skip, hskip, hlt⟩
  · exact Or.inl (hgiven below hbefore)
  · exact Or.inr ⟨skip, hskips skip hskip, hlt⟩

theorem covered_of_skip {offset : ℤ} (hskip : offset ∈ state.skips) :
    state.Covered wanted offset :=
  fun _ hbelow _ ↦ Or.inr ⟨offset, hskip, hbelow⟩

/-- An offset that a session may store is covered when its start is. -/
theorem covered_of_tracked {session : ConsumeSession} (hmem : session ∈ state.sessions)
    (hsound : session.Sound wanted) (hstart : state.Covered wanted session.startOffset) {offset : ℤ}
    (htracked : session.consumption.Tracked offset) : state.Covered wanted offset := by
  intro below hbelow hwanted
  by_cases hbefore : below < session.startOffset
  · exact hstart below hbefore hwanted
  · have hgiven := hsound.given_of_tracked htracked hbelow hwanted (not_lt.mp hbefore)
    exact Or.inl (mem_given.mpr ⟨session, hmem, hgiven⟩)

/-- A step that keeps the sessions, or adds one, and what is covered. -/
theorem Delivers.of_sessions (hdelivers : state.Delivers wanted queue)
    (hkept : ∀ session ∈ state.sessions, session ∈ next.sessions)
    (hadded : ∀ session ∈ next.sessions, session ∈ state.sessions ∨
      session.Sound wanted ∧ next.Covered wanted session.startOffset)
    (hskips : ∀ skip ∈ state.skips, skip ∈ next.skips)
    (hcommitted : ∀ offset ∈ next.committed, offset ∈ state.committed ∨ offset ∈ state.commits)
    (hcommits : ∀ offset ∈ next.commits, offset ∈ state.commits)
    (htables : ∀ client, ∀ offset ∈ (next.clients client).offsetTable.readOffset queue,
      offset ∈ (state.clients client).offsetTable.readOffset queue ∨ offset ∈ state.committed) :
    next.Delivers wanted queue := by
  have hgiven : ∀ offset ∈ state.given, offset ∈ next.given := by
    intro offset hoffset
    obtain ⟨session, hsession, hmem⟩ := mem_given.mp hoffset
    exact mem_given.mpr ⟨session, hkept session hsession, hmem⟩
  have hmono := fun offset (hcovered : state.Covered wanted offset) ↦ hcovered.mono hgiven hskips
  refine ⟨fun session hsession ↦ ?_, fun offset hoffset ↦ ?_, fun offset hoffset ↦ ?_,
    fun client offset hoffset ↦ ?_⟩
  · rcases hadded session hsession with hbefore | hnew
    · obtain ⟨hsound, hstart⟩ := hdelivers.sessions session hbefore
      exact ⟨hsound, hmono _ hstart⟩
    · exact hnew
  · rcases hcommitted offset hoffset with hbefore | harrived
    · exact hmono _ (hdelivers.committed offset hbefore)
    · exact hmono _ (hdelivers.commits offset harrived)
  · exact hmono _ (hdelivers.commits offset (hcommits offset hoffset))
  · rcases htables client offset hoffset with hbefore | hstored
    · exact hmono _ (hdelivers.tables client offset hbefore)
    · exact hmono _ (hdelivers.committed offset hstored)

/-! ### One step of the group -/

theorem readOffset_setTable {client other : ℕ} {table : OffsetTable} {offset : ℤ}
    (hoffset : offset ∈
      ((state.setTable client table).clients other).offsetTable.readOffset queue) :
    offset ∈ table.readOffset queue ∨
      offset ∈ (state.clients other).offsetTable.readOffset queue := by
  by_cases hsame : other = client
  · subst hsame
    left
    simpa only [setTable, Function.update_self] using hoffset
  · right
    simpa only [setTable, Function.update_of_ne hsame] using hoffset

theorem delivers_startFromStore {client : ℕ} {now offset : ℤ}
    (hdelivers : state.Delivers wanted queue) (hcommitted : state.committed = some offset) :
    ((state.setTable client ((state.clients client).offsetTable.updateOffset queue offset
      false)).start queue client now offset).Delivers wanted queue := by
  have hstart := hdelivers.committed offset hcommitted
  refine hdelivers.of_sessions (fun _ ↦ List.mem_append_left _) (fun session hsession ↦ ?_)
    (fun _ ↦ id) (fun _ ↦ Or.inl) (fun _ ↦ id) fun other stored hstored ↦ ?_
  · rcases List.mem_append.mp hsession with hbefore | hnew
    · exact Or.inl hbefore
    · obtain rfl := List.mem_singleton.mp hnew
      refine Or.inr ⟨ConsumeSession.sound_initial client now offset, hstart.mono ?_ fun _ ↦ id⟩
      intro below hbelow
      obtain ⟨session, hmem, hgiven⟩ := mem_given.mp hbelow
      exact mem_given.mpr ⟨session, List.mem_append_left _ hmem, hgiven⟩
  · rcases readOffset_setTable hstored with hupdated | hbefore
    · rw [OffsetTable.readOffset_updateOffset] at hupdated
      right
      cases hread : (state.clients client).offsetTable.readOffset queue <;>
        · rw [hread] at hupdated
          rw [hcommitted]
          exact hupdated
    · exact Or.inl hbefore

theorem delivers_startFromWhere {client : ℕ} {now offset : ℤ}
    (hdelivers : state.Delivers wanted queue) :
    ({ state.start queue client now offset with skips := state.skips ++ [offset] } :
      GroupState).Delivers wanted queue := by
  refine hdelivers.of_sessions (fun _ ↦ List.mem_append_left _) (fun session hsession ↦ ?_)
    (fun _ ↦ List.mem_append_left _) (fun _ ↦ Or.inl) (fun _ ↦ id) fun _ _ ↦ Or.inl
  rcases List.mem_append.mp hsession with hbefore | hnew
  · exact Or.inl hbefore
  · obtain rfl := List.mem_singleton.mp hnew
    exact Or.inr ⟨ConsumeSession.sound_initial client now offset,
      covered_of_skip (List.mem_append_right _ (List.mem_singleton_self offset))⟩

theorem delivers_commit {offset : ℤ} (hdelivers : state.Delivers wanted queue)
    (hmem : offset ∈ state.commits) :
    ({ state with committed := some offset, commits := state.commits.erase offset } :
      GroupState).Delivers wanted queue := by
  refine hdelivers.of_sessions (fun _ ↦ id) (fun _ ↦ Or.inl) (fun _ ↦ id) (fun stored hstored ↦ ?_)
    (fun _ ↦ List.mem_of_mem_erase) fun _ _ ↦ Or.inl
  obtain rfl := Option.some.inj hstored
  exact Or.inr hmem

theorem delivers_crash {client : ℕ} (hdelivers : state.Delivers wanted queue) :
    ({ state with
      clients := Function.update state.clients client
        { state.clients client with alive := false } } : GroupState).Delivers wanted queue := by
  refine hdelivers.of_sessions (fun _ ↦ id) (fun _ ↦ Or.inl) (fun _ ↦ id) (fun _ ↦ Or.inl)
    (fun _ ↦ id) fun other offset hoffset ↦ Or.inl ?_
  by_cases hsame : other = client
  · subst hsame
    simpa only [Function.update_self] using hoffset
  · simpa only [Function.update_of_ne hsame] using hoffset

/-- What a list loses when an element is overwritten is that element. -/
theorem mem_set_or_eq {sessions : List ConsumeSession} {index : ℕ}
    {session other : ConsumeSession} (hother : other ∈ sessions)
    (hsession : sessions[index]? = some session) :
    (∀ written, other ∈ sessions.set index written) ∨ other = session := by
  obtain ⟨place, hplace⟩ := List.mem_iff_getElem?.mp hother
  by_cases hsame : index = place
  · subst hsame
    exact Or.inr (Option.some.inj (hplace.symm.trans hsession))
  · refine Or.inl fun written ↦ List.mem_iff_getElem?.mpr ⟨place, ?_⟩
    rw [List.getElem?_set_ne hsame, hplace]

theorem delivers_act {index : ℕ} {event : DroppedEvent} {advance : ℤ → ℤ}
    (hdelivers : state.Delivers wanted queue)
    (hholds : ∀ session ∈ state.sessions[index]?, session.consumption.HoldsBack .clustering event)
    (hadvances : ∀ session ∈ state.sessions[index]?,
      session.Advances wanted event (advance session.nextOffset))
    (hstep : state.act queue batchSize index event advance = some next) :
    next.Delivers wanted queue := by
  obtain ⟨session, hsession, hact⟩ := Option.bind_eq_some_iff.mp hstep
  obtain ⟨-, htaken⟩ := Option.ite_none_right_eq_some.mp hact
  obtain ⟨consumption, hconsumption, rfl⟩ := Option.map_eq_some_iff.mp htaken
  have hmem := List.mem_of_getElem? hsession
  obtain ⟨hsound, hstart⟩ := hdelivers.sessions session hmem
  have hsound' := hsound.step (hholds session hsession) (hadvances session hsession) hconsumption
  have hsequel := DroppedState.sequel_of_step hconsumption
  have hnew := List.mem_set (List.getElem?_eq_some_iff.mp hsession).1
    ({ session with nextOffset := advance session.nextOffset, consumption := consumption } :
      ConsumeSession)
  have hmono : ∀ offset, state.Covered wanted offset →
      (state.write index session event (advance session.nextOffset) consumption).Covered wanted
        offset := by
    refine fun offset hcovered ↦ hcovered.mono (fun below hbelow ↦ ?_)
      fun _ ↦ List.mem_append_left _
    obtain ⟨other, hother, hgiven⟩ := mem_given.mp hbelow
    rcases mem_set_or_eq hother hsession with hkept | rfl
    · exact mem_given.mpr ⟨other, hkept _, hgiven⟩
    · exact mem_given.mpr ⟨_, hnew, hsequel.given below hgiven⟩
  have hstart' := hmono _ hstart
  have hsource : ∀ offset ∈ consumption.sent ++
      (consumption.commit.offsetTable.readOffset queue).toList,
      (state.write index session event (advance session.nextOffset) consumption).Covered wanted
        offset := by
    intro offset hoffset
    rcases hsound.source_step (hholds session hsession) hconsumption hoffset with
      hbefore | hcorrected | htracked
    · exact hmono _ (hdelivers.tables session.client offset hbefore)
    · exact covered_of_skip (List.mem_append_right _ hcorrected)
    · exact covered_of_tracked hnew hsound' hstart' htracked
  refine ⟨fun other hother ↦ ?_, fun offset hoffset ↦ hmono _ (hdelivers.committed offset hoffset),
    fun offset hoffset ↦ ?_, fun client offset hoffset ↦ ?_⟩
  · rcases List.mem_or_eq_of_mem_set hother with hbefore | rfl
    · exact ⟨(hdelivers.sessions other hbefore).1, hmono _ (hdelivers.sessions other hbefore).2⟩
    · exact ⟨hsound', hstart'⟩
  · rcases List.mem_append.mp hoffset with hbefore | hsent
    · exact hmono _ (hdelivers.commits offset hbefore)
    · exact hsource offset (List.mem_append_left _ hsent)
  · rcases readOffset_setTable hoffset with hwritten | hbefore
    · exact hsource offset (List.mem_append_right _ (Option.mem_toList.mpr hwritten))
    · exact hmono _ (hdelivers.tables client offset hbefore)

theorem advances_of_replies {index : ℕ} {event : DroppedEvent} {nextBeginOffset : ℤ}
    (hreplies : state.Replies wanted index event.puts nextBeginOffset)
    (hnexts : ∀ offset ∈ event.nexts, offset ≤ nextBeginOffset) :
    ∀ session ∈ state.sessions[index]?, session.Advances wanted event nextBeginOffset :=
  fun session hsession ↦
    ⟨(hreplies session hsession).1, (hreplies session hsession).2, hnexts⟩

theorem advances_of_not_ofReply {event : DroppedEvent} (hother : event.ofReply = false)
    (session : ConsumeSession) : session.Advances wanted event session.nextOffset := by
  have hnone : selectedOffsets wanted session.nextOffset session.nextOffset = [] := by
    simp [selectedOffsets]
  cases event with
  | putMessage | correctTagsOffset => exact (Bool.true_eq_false.mp hother).elim
  | _ => exact ⟨le_refl _, hnone.symm, fun _ hoffset ↦ absurd hoffset List.not_mem_nil⟩

theorem delivers_step {event : GroupEvent} (hholds : state.HoldsBack event)
    (hstep : state.step wanted queue batchSize event = some next)
    (hdelivers : state.Delivers wanted queue) : next.Delivers wanted queue := by
  cases event with
  | startFromStore client now =>
    obtain ⟨offset, hcommitted, hstart⟩ := Option.bind_eq_some_iff.mp hstep
    obtain ⟨-, hnext⟩ := Option.ite_none_right_eq_some.mp hstart
    obtain rfl := Option.some.inj hnext
    exact delivers_startFromStore hdelivers hcommitted
  | startFromWhere client now offset =>
    obtain ⟨-, hnext⟩ := Option.ite_none_right_eq_some.mp hstep
    obtain rfl := Option.some.inj hnext
    exact delivers_startFromWhere hdelivers
  | found index msgs nextBeginOffset =>
    obtain ⟨hreplies, hact⟩ := Option.ite_none_right_eq_some.mp hstep
    refine delivers_act hdelivers (hholds _ rfl) ?_ hact
    exact advances_of_replies hreplies fun _ hoffset ↦ absurd hoffset List.not_mem_nil
  | noMatchedMsg index nextBeginOffset =>
    obtain ⟨hreplies, hact⟩ := Option.ite_none_right_eq_some.mp hstep
    refine delivers_act hdelivers (hholds _ rfl) ?_ hact
    exact advances_of_replies hreplies fun _ hoffset ↦ (List.mem_singleton.mp hoffset).le
  | consume index event =>
    simp only [step, Option.ite_none_left_eq_some, Bool.not_eq_true] at hstep
    obtain ⟨hother, hact⟩ := hstep
    exact delivers_act hdelivers (hholds _ rfl)
      (fun session _ ↦ advances_of_not_ofReply hother session) hact
  | commit offset =>
    obtain ⟨hmem, hnext⟩ := Option.ite_none_right_eq_some.mp hstep
    obtain rfl := Option.some.inj hnext
    exact delivers_commit hdelivers hmem
  | crash client =>
    obtain rfl := Option.some.inj hstep
    exact delivers_crash hdelivers

/-- The broker's replies are what `putMessage` and the correction ask for: a session of a client
that lives takes every reply that holds the selected messages from its next offset on, and every
reply that says that there are none. -/
theorem replies_enabled {index : ℕ} {session : ConsumeSession} {nextBeginOffset : ℤ}
    (hdelivers : state.Delivers wanted queue) (hsession : state.sessions[index]? = some session)
    (halive : (state.clients session.client).alive = true)
    (hnext : session.nextOffset ≤ nextBeginOffset) :
    (∀ msgs : List MessageExt, msgs.map MessageExt.queueOffset =
        selectedOffsets wanted session.nextOffset nextBeginOffset →
      (state.step wanted queue batchSize (.found index msgs nextBeginOffset)).isSome = true) ∧
    (selectedOffsets wanted session.nextOffset nextBeginOffset = [] →
      (state.step wanted queue batchSize (.noMatchedMsg index nextBeginOffset)).isSome = true) := by
  have hsound := (hdelivers.sessions session (List.mem_of_getElem? hsession)).1
  have hreplies {offsets : List ℤ}
      (hoffsets : offsets = selectedOffsets wanted session.nextOffset nextBeginOffset) :
      state.Replies wanted index offsets nextBeginOffset := by
    intro other hother
    obtain rfl := Option.some.inj (hsession.symm.trans hother)
    exact ⟨hnext, hoffsets⟩
  constructor
  · intro msgs hmsgs
    have hadmissible : session.consumption.commit.Admissible msgs := by
      rw [CommitState.Admissible, hmsgs, hsound.initialOffset]
      refine ⟨List.pairwise_append.mpr ⟨hsound.held.increasing,
        pairwise_selectedOffsets wanted _ _, fun put hput offset hoffset ↦ ?_⟩,
        fun lower hlower msg hmsg ↦ ?_⟩
      · exact ((hsound.put_iff put).mp hput).2.1.trans_le (mem_selectedOffsets.mp hoffset).1
      · have hmem : msg.queueOffset ∈ msgs.map MessageExt.queueOffset := List.mem_map_of_mem hmsg
        rw [hmsgs] at hmem
        exact (hsound.nexts_le lower hlower).trans (mem_selectedOffsets.mp hmem).1
    have hput : (session.consumption.lend queue
        (state.clients session.client).offsetTable).commit.Admissible msgs := hadmissible
    simp [step, hreplies hmsgs, act, hsession, halive, DroppedState.step, CommitState.step, hput]
  · intro hnone
    have hput : ∀ offset ∈ (session.consumption.lend queue
        (state.clients session.client).offsetTable).commit.putOffsets, offset < nextBeginOffset :=
      fun offset hoffset ↦ ((hsound.put_iff offset).mp hoffset).2.1.trans_le hnext
    simpa [step, hreplies hnone.symm, act, hsession, halive, DroppedState.step, CommitState.step]
      using hput

end GroupState

open GroupState

/-- In every run whose steps are held back by what their sessions have discarded: every selected
message below the offset committed at the broker, below an offset on its way to it, and below the
start of a session has been given to a listener, or lies below an offset at which a session started
without a committed one or to which an illegal offset was corrected. -/
theorem delivered_at_least_once {wanted : ℤ → Bool} {queue : MessageQueue} {batchSize : ℕ}
    {events : List GroupEvent} {state : GroupState}
    (halong : (groupSystem wanted queue batchSize).Along HoldsBack initial events)
    (hrun : (groupSystem wanted queue batchSize).run initial events = some state) :
    ∀ offset, (state.committed = some offset ∨ offset ∈ state.commits ∨
        ∃ session ∈ state.sessions, session.startOffset = offset) →
      ∀ below < offset, wanted below = true →
        (∃ session ∈ state.sessions, below ∈ session.consumption.given) ∨
          ∃ skip ∈ state.skips, below < skip := by
  have hdelivers : state.Delivers wanted queue :=
    @EventSystem.run_invariant_of_along _ _ _ HoldsBack (Delivers wanted queue)
      (fun _ _ _ hholds hstep ↦ delivers_step hholds hstep) _ _ _ halong hrun delivers_initial
  intro offset hsource below hbelow hwanted
  have hcovered : state.Covered wanted offset := by
    rcases hsource with hcommitted | hcommit | ⟨session, hsession, rfl⟩
    · exact hdelivers.committed offset hcommitted
    · exact hdelivers.commits offset hcommit
    · exact (hdelivers.sessions session hsession).2
  exact (hcovered below hbelow hwanted).imp_left mem_given.mp

/-- A client starts without a committed offset, consumes one of the two messages that it has pulled,
sends the offset and crashes. The next client starts at the committed offset, consumes the other
message and sends its offset. -/
def crashAfterPersist : List GroupEvent :=
  [.startFromWhere 0 0 5, .found 0 [⟨0, 5⟩, ⟨1, 6⟩] 7,
    .consume 0 (.submitConsumeRequest [⟨0, 5⟩, ⟨1, 6⟩]), .consume 0 (.start [⟨0, 5⟩]),
    .consume 0 (.processConsumeResult [⟨0, 5⟩] ⟨.consumeSuccess, 2147483647, fun _ ↦ true⟩),
    .consume 0 (.updateOffset 6), .consume 0 .persist, .crash 0, .commit 6, .startFromStore 1 0,
    .found 1 [⟨2, 6⟩] 7, .consume 1 (.submitConsumeRequest [⟨2, 6⟩]),
    .consume 1 (.start [⟨2, 6⟩]),
    .consume 1 (.processConsumeResult [⟨2, 6⟩] ⟨.consumeSuccess, 2147483647, fun _ ↦ true⟩),
    .consume 1 (.updateOffset 7), .consume 1 .persist, .commit 7]

/-- Both messages below the committed offset have been given to a listener. -/
theorem delivered_at_least_once_crash :
    ∃ state, (groupSystem (fun _ ↦ true) ⟨[], [], 0⟩ 1).run initial crashAfterPersist = some state ∧
      state.committed = some 7 ∧ state.skips = [5] ∧
      (∃ session ∈ state.sessions, 5 ∈ session.consumption.given) ∧
      ∃ session ∈ state.sessions, 6 ∈ session.consumption.given := by
  obtain ⟨state, hrun, hcommitted, hskips⟩ : ∃ state,
      (groupSystem (fun _ ↦ true) ⟨[], [], 0⟩ 1).run initial crashAfterPersist = some state ∧
        state.committed = some 7 ∧ state.skips = [5] := ⟨_, rfl, rfl, rfl⟩
  have hdelivered := @delivered_at_least_once (fun _ ↦ true) ⟨[], [], 0⟩ 1 crashAfterPersist state
    (by decide) hrun 7 (Or.inl hcommitted)
  have hnone {below : ℤ} (hbelow : 5 ≤ below) : ¬ ∃ skip ∈ state.skips, below < skip := by
    rw [hskips]
    simpa using hbelow
  exact ⟨state, hrun, hcommitted, hskips,
    (hdelivered 5 (by decide) rfl).resolve_right (hnone (le_refl 5)),
    (hdelivered 6 (by decide) rfl).resolve_right (hnone (by decide))⟩

end RocketMQClient.Consumer
