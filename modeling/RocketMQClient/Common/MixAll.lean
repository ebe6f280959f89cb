import Mathlib.Algebra.Group.Int.Defs
import RocketMQClient.Consumer.OffsetStore
import RocketMQClient.Library.RaisedCell

/-!
# Raising an atomic value

`compareAndIncreaseOnly` reads a value, and while the new one is larger it tries to exchange the two
and reads again when another thread was faster. `increaseSystem` interleaves the calls of any number
of threads on one value, with a step for each `Get` and each `CompareAndSet`; what a call does
between them is local.

An exchange takes place only when the value is still the one that was read, and that one is smaller.
So each call raises the value in one step, or finds in one step that it is not smaller: the calls do
what the callers of a `RaisedCell` do (`increase_refines`). `concurrent_maximum` is what follows for
every interleaving. A call that nobody disturbs is the function on integers that the offset stores
use (`increase_alone`).
-/

set_option autoImplicit false
set_option relaxedAutoImplicit false

namespace RocketMQClient.Common

open Library

/-! ### Atomic values -/

namespace AtomicValue

variable {Value : Type*}

/-- `fetchAndAdd`: the value before and the value behind it. -/
def fetchAndAdd [Add Value] (value n : Value) : Value × Value := (value, value + n)

/-- `Get` adds zero. -/
def get [Add Value] [Zero Value] (value : Value) : Value × Value := fetchAndAdd value 0

/-- `CompareAndSet`: the value before and the value behind it. -/
def compareAndSet [DecidableEq Value] (value comparand exchange : Value) : Value × Value :=
  (value, if value = comparand then exchange else value)

end AtomicValue

/-! ### The calls -/

namespace MixAll

/-- What a call of `compareAndIncreaseOnly` does next. -/
inductive IncreasePlace (Value : Type*) where
  /-- `current = target.Get()`, which the test of the loop follows. -/
  | get
  /-- `tmp = target.CompareAndSet(current, value)`. -/
  | compareAndSet (current : Value)
  | returned (result : Bool)
  deriving DecidableEq

/-- The result of a call that has returned. -/
def IncreasePlace.result {Value : Type*} : IncreasePlace Value → Option Bool
  | returned result => some result
  | get | compareAndSet _ => none

/-- The atomic value and the calls of all threads. -/
structure IncreaseState (Thread Value : Type*) where
  target : Value
  calls : Thread → IncreasePlace Value

/-- `while (value > current)`. -/
def testLoop {Value : Type*} [LinearOrder Value] (value current : Value) : IncreasePlace Value :=
  if value > current then .compareAndSet current else .returned false

namespace IncreaseState

variable {Thread Value : Type*}

/-- All threads begin their call. -/
def start (initial : Value) : IncreaseState Thread Value := ⟨initial, fun _ ↦ .get⟩

/-- What the calls have done to the value. -/
def view (state : IncreaseState Thread Value) : RaisedCell Thread Value :=
  ⟨state.target, fun thread ↦ (state.calls thread).result⟩

variable [DecidableEq Thread] [LinearOrder Value] [AddZeroClass Value]

/-- The next step of the call of a thread. -/
def advance (values : Thread → Value) (state : IncreaseState Thread Value) (thread : Thread) :
    Option (IncreaseState Thread Value) :=
  match state.calls thread with
  | .get =>
    let (current, target) := AtomicValue.get state.target
    some ⟨target, Function.update state.calls thread (testLoop (values thread) current)⟩
  | .compareAndSet current =>
    let (tmp, target) := AtomicValue.compareAndSet state.target current (values thread)
    some ⟨target,
      Function.update state.calls thread (if tmp = current then .returned true else .get)⟩
  | .returned _ => none

end IncreaseState

/-- An atomic value and the threads that each raise it once. -/
def increaseSystem {Thread Value : Type*} [DecidableEq Thread] [LinearOrder Value]
    [AddZeroClass Value] (values : Thread → Value) :
    EventSystem (IncreaseState Thread Value) Thread where
  step := IncreaseState.advance values

namespace IncreaseState

section Update

variable {Thread Value : Type*} [DecidableEq Thread] {state : IncreaseState Thread Value}
  {thread other : Thread} {place : IncreasePlace Value}

theorem calls_update_self (calls : Thread → IncreasePlace Value) (target : Value) (thread : Thread)
    (place : IncreasePlace Value) :
    (mk target (Function.update calls thread place)).calls thread = place :=
  Function.update_self thread place calls

theorem calls_update_of_ne (hne : other ≠ thread) (calls : Thread → IncreasePlace Value)
    (target : Value) (place : IncreasePlace Value) :
    (mk target (Function.update calls thread place)).calls other = calls other :=
  Function.update_of_ne hne place calls

theorem view_update (target : Value) (place : IncreasePlace Value) :
    (mk target (Function.update state.calls thread place)).view =
      ⟨target, Function.update state.view.results thread place.result⟩ :=
  congrArg (RaisedCell.mk target)
    (Function.comp_update IncreasePlace.result state.calls thread place)

/-- A call that goes on without having returned has not changed what is seen of it. -/
theorem view_update_of_none (hplace : place.result = none)
    (hcall : (state.calls thread).result = none) :
    (mk state.target (Function.update state.calls thread place)).view = state.view := by
  rw [view_update, hplace, ← hcall]
  exact congrArg (RaisedCell.mk state.target) (Function.update_eq_self thread state.view.results)

end Update

section Below

variable {Thread Value : Type*} [LinearOrder Value] {values : Thread → Value}
  {state : IncreaseState Thread Value} {thread : Thread}

/-- A call tries to exchange the value only for a larger one. -/
def ComparesBelow (values : Thread → Value) (state : IncreaseState Thread Value) : Prop :=
  ∀ thread current, state.calls thread = .compareAndSet current → current < values thread

theorem comparesBelow_start (initial : Value) :
    (start initial : IncreaseState Thread Value).ComparesBelow values :=
  fun _ _ hplace ↦ by cases hplace

variable [DecidableEq Thread]

theorem ComparesBelow.update (hbelow : state.ComparesBelow values) {place : IncreasePlace Value}
    (hplace : ∀ current, place = .compareAndSet current → current < values thread)
    (target : Value) :
    (mk target (Function.update state.calls thread place)).ComparesBelow values := by
  intro other current hother
  by_cases hsame : other = thread
  · subst hsame
    rw [calls_update_self] at hother
    exact hplace current hother
  · rw [calls_update_of_ne hsame] at hother
    exact hbelow other current hother

theorem raise_view (hcall : (state.calls thread).result = none) :
    state.view.raise values thread = some
      ⟨max state.target (values thread), Function.update state.view.results thread
        (some (decide (state.target < values thread)))⟩ := by
  unfold RaisedCell.raise
  rw [show state.view.results thread = none from hcall]
  rfl

end Below

variable {Thread Value : Type*} [DecidableEq Thread] [LinearOrder Value] [AddZeroClass Value]
  {values : Thread → Value} {state next last : IncreaseState Thread Value} {thread : Thread}
  {events : List Thread}

/-- A successful `CompareAndSet` that raises the value to the one of the thread. -/
structure Raises (values : Thread → Value) (state : IncreaseState Thread Value) (thread : Thread) :
    Prop where
  compares : state.calls thread = .compareAndSet state.target
  raised : state.target < values thread
  exchanges : ∃ next, state.advance values thread = some next ∧ next.target = values thread

/-- The steps of a call: it reads a value, it raises it, or another thread was faster. -/
inductive Advances (values : Thread → Value) (state : IncreaseState Thread Value)
    (thread : Thread) : IncreaseState Thread Value → Prop
  | get (hplace : state.calls thread = .get) : Advances values state thread
      ⟨state.target, Function.update state.calls thread (testLoop (values thread) state.target)⟩
  | exchanged (hplace : state.calls thread = .compareAndSet state.target) :
      Advances values state thread
        ⟨values thread, Function.update state.calls thread (.returned true)⟩
  | overtaken (current : Value) (hplace : state.calls thread = .compareAndSet current)
      (hne : state.target ≠ current) :
      Advances values state thread ⟨state.target, Function.update state.calls thread .get⟩

theorem advance_of_get (hplace : state.calls thread = .get) :
    state.advance values thread = some ⟨state.target,
      Function.update state.calls thread (testLoop (values thread) state.target)⟩ := by
  unfold advance
  rw [hplace]
  show some (mk (state.target + 0) _) = _
  rw [add_zero]

theorem advance_of_exchanged (hplace : state.calls thread = .compareAndSet state.target) :
    state.advance values thread =
      some ⟨values thread, Function.update state.calls thread (.returned true)⟩ := by
  unfold advance
  rw [hplace]
  show some (mk (if state.target = state.target then _ else _)
    (Function.update state.calls thread (if state.target = state.target then _ else _))) = _
  rw [if_pos rfl, if_pos rfl]

theorem advance_of_overtaken {current : Value}
    (hplace : state.calls thread = .compareAndSet current) (hne : state.target ≠ current) :
    state.advance values thread =
      some ⟨state.target, Function.update state.calls thread .get⟩ := by
  unfold advance
  rw [hplace]
  show some (mk (if state.target = current then _ else _)
    (Function.update state.calls thread (if state.target = current then _ else _))) = _
  rw [if_neg hne, if_neg hne]

theorem advances_of_advance (hadvance : state.advance values thread = some next) :
    Advances values state thread next := by
  cases hplace : state.calls thread with
  | get => exact Option.some.inj ((advance_of_get hplace).symm.trans hadvance) ▸ .get hplace
  | compareAndSet current =>
    by_cases hsame : state.target = current
    · subst hsame
      exact Option.some.inj ((advance_of_exchanged hplace).symm.trans hadvance) ▸ .exchanged hplace
    · exact Option.some.inj ((advance_of_overtaken hplace hsame).symm.trans hadvance) ▸
        .overtaken current hplace hsame
  | returned result =>
    unfold advance at hadvance
    rw [hplace] at hadvance
    cases hadvance

/-! ### What a step does -/

theorem ComparesBelow.advance (hbelow : state.ComparesBelow values)
    (hadvance : state.advance values thread = some next) : next.ComparesBelow values := by
  cases advances_of_advance hadvance with
  | get hplace =>
    refine hbelow.update (fun current htest ↦ ?_) _
    unfold testLoop at htest
    split_ifs at htest with hlarger
    obtain rfl := IncreasePlace.compareAndSet.inj htest
    exact hlarger
  | exchanged hplace => exact hbelow.update (fun _ hreturned ↦ by cases hreturned) _
  | overtaken current hplace hne => exact hbelow.update (fun _ hget ↦ by cases hget) _

/-- A step raises the cell or leaves it as it is. -/
theorem view_advance (hbelow : state.ComparesBelow values)
    (hadvance : state.advance values thread = some next) :
    next.view = state.view ∨ state.view.raise values thread = some next.view := by
  cases advances_of_advance hadvance with
  | get hplace =>
    have hcall : (state.calls thread).result = none := by rw [hplace]; rfl
    by_cases hlarger : values thread > state.target
    · rw [testLoop, if_pos hlarger]
      exact Or.inl (view_update_of_none rfl hcall)
    · rw [testLoop, if_neg hlarger, raise_view hcall, max_eq_left (not_lt.mp hlarger),
        decide_eq_false hlarger, view_update]
      exact Or.inr rfl
  | exchanged hplace =>
    have hlarger := hbelow thread state.target hplace
    rw [raise_view (by rw [hplace]; rfl), max_eq_right hlarger.le, decide_eq_true hlarger,
      view_update]
    exact Or.inr rfl
  | overtaken current hplace hne =>
    exact Or.inl (view_update_of_none rfl (by rw [hplace]; rfl))

theorem calls_of_ne {other : Thread} (hne : other ≠ thread)
    (hadvance : state.advance values thread = some next) :
    next.calls other = state.calls other := by
  cases advances_of_advance hadvance <;> exact Function.update_of_ne hne _ _

/-! ### Runs -/

theorem ComparesBelow.run (hbelow : state.ComparesBelow values)
    (hrun : (increaseSystem values).run state events = some last) : last.ComparesBelow values :=
  @EventSystem.run_invariant _ _ (increaseSystem values) (ComparesBelow values)
    (fun _ _ _ hadvance hbelow ↦ hbelow.advance hadvance) _ _ _ hrun hbelow

/-- The calls do what the callers of a cell do, each of them in one of its steps. -/
theorem increase_refines (hbelow : state.ComparesBelow values)
    (hrun : (increaseSystem values).run state events = some last) :
    ∃ taken, taken.Sublist events ∧
      (raisingSystem values).run state.view taken = some last.view :=
  @EventSystem.run_of_stuttering _ _ (increaseSystem values) _ (raisingSystem values) view
    (ComparesBelow values) (fun _ _ _ hadvance hbelow ↦ hbelow.advance hadvance)
    (fun _ _ _ hbelow hadvance ↦ view_advance hbelow hadvance) _ _ _ hrun hbelow

/-- The value never decreases. -/
theorem target_le (hbelow : state.ComparesBelow values)
    (hrun : (increaseSystem values).run state events = some last) : state.target ≤ last.target := by
  obtain ⟨taken, -, hview⟩ := increase_refines hbelow hrun
  exact RaisedCell.le_of_run hview

/-- When all calls have returned, the value is the greatest of the first one and all others. -/
theorem isGreatest_target {initial : Value}
    (hrun : (increaseSystem values).run (start initial) events = some last)
    (hreturned : ∀ thread, (last.calls thread).result ≠ none) :
    IsGreatest (insert initial (Set.range values)) last.target := by
  obtain ⟨taken, -, hview⟩ := increase_refines (comparesBelow_start initial) hrun
  have hstart : IsGreatest ((start initial : IncreaseState Thread Value).view.inputs values initial)
      initial := by
    have hnone : {thread |
        (start initial : IncreaseState Thread Value).view.results thread ≠ none} = ∅ :=
      Set.eq_empty_of_forall_notMem fun _ hsome ↦ hsome rfl
    rw [RaisedCell.inputs, hnone, Set.image_empty, insert_empty_eq]
    exact isGreatest_singleton
  have hlast := RaisedCell.isGreatest_of_run hview hstart
  have hall : {thread | last.view.results thread ≠ none} = Set.univ :=
    Set.eq_univ_of_forall hreturned
  rwa [RaisedCell.inputs, hall, Set.image_univ] at hlast

/-- A call that nobody disturbs returns after one or two steps. -/
theorem returns_of_get (hplace : state.calls thread = .get) :
    ∃ steps ≤ 2, (increaseSystem values).run state (List.replicate steps thread) =
      some ⟨max state.target (values thread), Function.update state.calls thread
        (.returned (decide (state.target < values thread)))⟩ := by
  have hfirst := @advance_of_get _ _ _ _ _ values _ _ hplace
  by_cases hlarger : values thread > state.target
  · rw [testLoop, if_pos hlarger] at hfirst
    refine ⟨2, le_rfl, EventSystem.run_cons.mpr ⟨_, hfirst, EventSystem.run_cons.mpr ⟨_, ?_, rfl⟩⟩⟩
    rw [max_eq_right hlarger.le, decide_eq_true hlarger]
    have hsecond := @advance_of_exchanged _ _ _ _ _ values ⟨state.target,
      Function.update state.calls thread (.compareAndSet state.target)⟩ thread
      (Function.update_self _ _ _)
    rwa [Function.update_idem] at hsecond
  · rw [testLoop, if_neg hlarger] at hfirst
    refine ⟨1, by decide, EventSystem.run_cons.mpr ⟨_, hfirst, ?_⟩⟩
    rw [max_eq_left (not_lt.mp hlarger), decide_eq_false hlarger]
    rfl

/-- A call that runs alone returns after at most three steps. -/
theorem returns_alone (values : Thread → Value) (state : IncreaseState Thread Value)
    (thread : Thread) :
    ∃ steps ≤ 3, ∃ finish result,
      (increaseSystem values).run state (List.replicate steps thread) = some finish ∧
        finish.calls thread = .returned result := by
  cases hplace : state.calls thread with
  | get =>
    obtain ⟨steps, hsteps, hrun⟩ := @returns_of_get _ _ _ _ _ values _ _ hplace
    exact ⟨steps, hsteps.trans (by decide), _, _, hrun, Function.update_self _ _ _⟩
  | compareAndSet current =>
    by_cases hsame : state.target = current
    · subst hsame
      exact ⟨1, by decide, _, true,
        EventSystem.run_cons.mpr ⟨_, advance_of_exchanged hplace, rfl⟩, Function.update_self _ _ _⟩
    · obtain ⟨steps, hsteps, hrun⟩ := @returns_of_get _ _ _ _ _ values
        ⟨state.target, Function.update state.calls thread .get⟩ thread (Function.update_self _ _ _)
      exact ⟨steps + 1, Nat.succ_le_succ hsteps, _, _,
        EventSystem.run_cons.mpr ⟨_, advance_of_overtaken hplace hsame, hrun⟩,
        Function.update_self _ _ _⟩
  | returned result => exact ⟨0, Nat.zero_le 3, state, result, rfl, hplace⟩

/-- A call that has returned stays as it is. -/
theorem returned_run {result : Bool} (hplace : state.calls thread = .returned result)
    (hrun : (increaseSystem values).run state events = some last) :
    last.calls thread = .returned result := by
  refine @EventSystem.run_invariant _ _ (increaseSystem values)
    (fun state ↦ state.calls thread = .returned result) (fun state event next hadvance hplace ↦ ?_)
    _ _ _ hrun hplace
  by_cases hsame : event = thread
  · subst hsame
    have hnone : state.advance values event = none := by
      unfold advance
      rw [hplace]
    exact absurd (hnone.symm.trans hadvance).symm (Option.some_ne_none next)
  · rw [calls_of_ne (Ne.symm hsame) hadvance, hplace]

theorem raises_of_exchanged (hbelow : state.ComparesBelow values)
    (hplace : state.calls thread = .compareAndSet state.target) : state.Raises values thread where
  compares := hplace
  raised := hbelow thread state.target hplace
  exchanges := ⟨_, advance_of_exchanged hplace, rfl⟩

/-- A call that returns true has raised the value in one of its steps. -/
theorem exists_raises (hbelow : state.ComparesBelow values)
    (hrun : (increaseSystem values).run state events = some last)
    (hstart : (state.calls thread).result = none) (htrue : last.calls thread = .returned true) :
    ∃ before after middle, events = before ++ thread :: after ∧
      (increaseSystem values).run state before = some middle ∧ middle.Raises values thread := by
  induction events generalizing state with
  | nil =>
    obtain rfl := Option.some.inj hrun
    rw [htrue] at hstart
    exact absurd hstart (Option.some_ne_none true)
  | cons event rest ih =>
    obtain ⟨next, hadvance, hrest⟩ := EventSystem.run_cons.mp hrun
    have hlater (hnext : (next.calls thread).result = none) :
        ∃ before after middle, event :: rest = before ++ thread :: after ∧
          (increaseSystem values).run state before = some middle ∧
            middle.Raises values thread := by
      obtain ⟨before, after, middle, rfl, hbefore, hraises⟩ :=
        ih (hbelow.advance hadvance) hrest hnext
      exact ⟨event :: before, after, middle, rfl,
        EventSystem.run_cons.mpr ⟨next, hadvance, hbefore⟩, hraises⟩
    by_cases hsame : event = thread
    · subst hsame
      cases advances_of_advance hadvance with
      | get hplace =>
        by_cases hlarger : values event > state.target
        · refine hlater ?_
          rw [testLoop, if_pos hlarger, calls_update_self]
          rfl
        · rw [testLoop, if_neg hlarger] at hrest
          have hfalse := returned_run (Function.update_self _ _ _) hrest
          exact absurd (IncreasePlace.returned.inj (hfalse.symm.trans htrue)) Bool.false_ne_true
      | exchanged hplace =>
        exact ⟨[], rest, state, rfl, rfl, raises_of_exchanged hbelow hplace⟩
      | overtaken current hplace hne => exact hlater (by rw [calls_update_self]; rfl)
    · exact hlater (by rwa [calls_of_ne (Ne.symm hsame) hadvance])

/-- A call returns true exactly when it has raised the value in one of its steps. -/
theorem returned_true_iff (hbelow : state.ComparesBelow values)
    (hrun : (increaseSystem values).run state events = some last)
    (hstart : (state.calls thread).result = none) {result : Bool}
    (hresult : last.calls thread = .returned result) :
    result = true ↔ ∃ before after middle, events = before ++ thread :: after ∧
      (increaseSystem values).run state before = some middle ∧ middle.Raises values thread := by
  constructor
  · rintro rfl
    exact exists_raises hbelow hrun hstart hresult
  · rintro ⟨before, after, middle, rfl, hbefore, hraises⟩
    obtain ⟨middle', hbefore', hlater⟩ := EventSystem.run_append.mp hrun
    obtain rfl := Option.some.inj (hbefore.symm.trans hbefore')
    obtain ⟨next, hadvance, hafter⟩ := EventSystem.run_cons.mp hlater
    obtain rfl := Option.some.inj ((advance_of_exchanged hraises.compares).symm.trans hadvance)
    have htrue := returned_run (Function.update_self _ _ _) hafter
    exact IncreasePlace.returned.inj (hresult.symm.trans htrue)

end IncreaseState

open IncreaseState

/-- A call on integers that nobody disturbs is the function that the offset stores use. -/
theorem increase_alone {Thread : Type*} [DecidableEq Thread] {values : Thread → ℤ}
    {state : IncreaseState Thread ℤ} {thread : Thread} (hplace : state.calls thread = .get) :
    ∃ steps ≤ 2, (increaseSystem values).run state (List.replicate steps thread) = some
      ⟨(Consumer.compareAndIncreaseOnly state.target (values thread)).2,
        Function.update state.calls thread
          (.returned (Consumer.compareAndIncreaseOnly state.target (values thread)).1)⟩ := by
  have hresult : (Consumer.compareAndIncreaseOnly state.target (values thread)).1 =
      decide (state.target < values thread) := by
    unfold Consumer.compareAndIncreaseOnly
    split_ifs with hlarger
    · exact (decide_eq_true hlarger).symm
    · exact (decide_eq_false hlarger).symm
  rw [Consumer.compareAndIncreaseOnly_eq_max, hresult]
  exact returns_of_get hplace

/-- Any number of threads that raise one value, in any interleaving of their steps: each call
returns when it runs alone, the value never decreases, it is the maximum when all calls have
returned, and a call returns true exactly when it has raised the value. -/
theorem concurrent_maximum {Thread Value : Type*} [DecidableEq Thread] [LinearOrder Value]
    [AddZeroClass Value] (values : Thread → Value) (initial : Value) (events : List Thread)
    (state : IncreaseState Thread Value)
    (hrun : (increaseSystem values).run (start initial) events = some state) :
    (∀ thread, ∃ steps ≤ 3, ∃ finish result,
      (increaseSystem values).run state (List.replicate steps thread) = some finish ∧
        finish.calls thread = .returned result) ∧
    (∀ later finish, (increaseSystem values).run state later = some finish →
      state.target ≤ finish.target) ∧
    ((∀ thread, (state.calls thread).result ≠ none) →
      IsGreatest (insert initial (Set.range values)) state.target) ∧
    ∀ thread result, state.calls thread = .returned result →
      (result = true ↔ ∃ before after middle, events = before ++ thread :: after ∧
        (increaseSystem values).run (start initial) before = some middle ∧
          middle.Raises values thread) := by
  have hbelow := (comparesBelow_start initial).run hrun
  refine ⟨returns_alone values state, fun later finish hlater ↦ target_le hbelow hlater,
    isGreatest_target hrun, fun thread result hresult ↦ ?_⟩
  exact returned_true_iff (comparesBelow_start initial) hrun rfl hresult

/-- The offsets of two threads. -/
def twoOffsets (second : Bool) : ℤ := if second then 9 else 7

/-- The second of two threads is overtaken, tries again and raises the value once more. -/
theorem concurrent_maximum_overtaken :
    ∃ state : IncreaseState Bool ℤ, (increaseSystem twoOffsets).run (start 5)
        [true, false, false, true, true, true] = some state ∧
      state.calls true = .returned true ∧ state.calls false = .returned true ∧
      IsGreatest (insert 5 (Set.range twoOffsets)) state.target := by
  refine ⟨⟨9, _⟩, rfl, rfl, rfl, ?_⟩
  have hall := concurrent_maximum twoOffsets 5 [true, false, false, true, true, true] _ rfl
  exact hall.2.2.1 (by decide)

end MixAll

end RocketMQClient.Common
