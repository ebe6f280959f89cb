import Mathlib.Algebra.Order.Group.Nat
import Mathlib.Logic.Basic

/-!
# Event systems

A concurrent component as a deterministic event system: in a state an event either is not enabled
or leads to one next state, and an interleaving is a list of events. Threads and the environment
choose the events, so a statement about every list of events is a statement about every schedule.

`run_invariant` carries a property along a run, `run_relation` relates the states a run starts and
ends in, `run_of_stuttering` and `run_of_simulation` turn a run into one of another system, and
`Along` is the condition that every event of a run meets a predicate on the state it happens in,
with `run_invariant_of_along` the invariant rule for such runs. `Reaches` says that a component
which takes one step after the other comes to a target. -/

set_option autoImplicit false
set_option relaxedAutoImplicit false

namespace RocketMQClient.Library

/-- States and events, with the partial step function of the component. -/
structure EventSystem (State Event : Type*) where
  step : State → Event → Option State

namespace EventSystem

variable {State Event : Type*} (system : EventSystem State Event)

/-- The state after a list of events, when each of them is enabled in its turn. -/
def run : State → List Event → Option State
  | state, [] => some state
  | state, event :: rest => (system.step state event).bind fun next ↦ run next rest

/-- Every event of a run meets a predicate on the state in which it happens. -/
def Along (good : State → Event → Prop) : State → List Event → Prop
  | _, [] => True
  | state, event :: rest =>
    good state event ∧ ∀ next, system.step state event = some next → Along good next rest

/-- An event that happens again and again, at most a number of times, leads to a target. -/
def Reaches (event : Event) (target : State → Prop) (bound : ℕ) (state : State) : Prop :=
  ∃ steps ≤ bound, ∃ last, system.run state (List.replicate steps event) = some last ∧ target last

variable {system}

instance decidableAlong {good : State → Event → Prop}
    [∀ state event, Decidable (good state event)] :
    ∀ (state : State) (events : List Event), Decidable (system.Along good state events)
  | _, [] => isTrue trivial
  | state, event :: rest =>
    have : Decidable (∀ next, system.step state event = some next → system.Along good next rest) :=
      match system.step state event with
      | none => isTrue fun next hnext ↦ absurd hnext (Option.some_ne_none next).symm
      | some next =>
        have : Decidable (system.Along good next rest) := decidableAlong next rest
        decidable_of_iff (system.Along good next rest)
          ⟨fun halong _ hnext ↦ Option.some.inj hnext ▸ halong, fun hall ↦ hall next rfl⟩
    inferInstanceAs (Decidable (_ ∧ _))

theorem run_nil (state : State) : system.run state [] = some state := rfl

/-- A run that starts with an event is a step and the run of the rest. -/
theorem run_cons {state last : State} {event : Event} {rest : List Event} :
    system.run state (event :: rest) = some last ↔
      ∃ next, system.step state event = some next ∧ system.run next rest = some last := by
  rw [run, Option.bind_eq_some_iff]

/-- A run of two lists of events passes through a state between them. -/
theorem run_append {state last : State} {earlier later : List Event} :
    system.run state (earlier ++ later) = some last ↔
      ∃ middle, system.run state earlier = some middle ∧ system.run middle later = some last := by
  induction earlier generalizing state with
  | nil => simp [run]
  | cons event rest ih =>
    rw [List.cons_append, run_cons]
    constructor
    · rintro ⟨next, hstep, hrun⟩
      obtain ⟨middle, hrest, hlater⟩ := ih.mp hrun
      exact ⟨middle, run_cons.mpr ⟨next, hstep, hrest⟩, hlater⟩
    · rintro ⟨middle, hearlier, hlater⟩
      obtain ⟨next, hstep, hrest⟩ := run_cons.mp hearlier
      exact ⟨next, hstep, ih.mpr ⟨middle, hrest, hlater⟩⟩

theorem reaches_here {event : Event} {target : State → Prop} {state : State}
    (htarget : target state) (bound : ℕ) : system.Reaches event target bound state :=
  ⟨0, Nat.zero_le bound, state, rfl, htarget⟩

theorem reaches_step {event : Event} {target : State → Prop} {bound : ℕ} {state next : State}
    (hstep : system.step state event = some next)
    (hreaches : system.Reaches event target bound next) :
    system.Reaches event target (bound + 1) state := by
  obtain ⟨steps, hsteps, last, hrun, htarget⟩ := hreaches
  exact ⟨steps + 1, Nat.succ_le_succ hsteps, last, run_cons.mpr ⟨next, hstep, hrun⟩, htarget⟩

theorem reaches_mono {event : Event} {target : State → Prop} {bound bound' : ℕ} {state : State}
    (hle : bound ≤ bound') (hreaches : system.Reaches event target bound state) :
    system.Reaches event target bound' state := by
  obtain ⟨steps, hsteps, hlast⟩ := hreaches
  exact ⟨steps, hsteps.trans hle, hlast⟩

theorem reaches_of_imp {event : Event} {target target' : State → Prop} {bound : ℕ} {state : State}
    (himp : ∀ last, target last → target' last)
    (hreaches : system.Reaches event target bound state) :
    system.Reaches event target' bound state := by
  obtain ⟨steps, hsteps, last, hrun, htarget⟩ := hreaches
  exact ⟨steps, hsteps, last, hrun, himp last htarget⟩

/-- From a target on to a second one. -/
theorem reaches_trans {event : Event} {target target' : State → Prop} {bound bound' : ℕ}
    {state : State} (hreaches : system.Reaches event target bound state)
    (hlater : ∀ middle, target middle → system.Reaches event target' bound' middle) :
    system.Reaches event target' (bound + bound') state := by
  obtain ⟨steps, hsteps, middle, hrun, hmiddle⟩ := hreaches
  obtain ⟨more, hmore, last, hrest, htarget⟩ := hlater middle hmiddle
  refine ⟨steps + more, Nat.add_le_add hsteps hmore, last, ?_, htarget⟩
  rw [← List.replicate_append_replicate]
  exact run_append.mpr ⟨middle, hrun, hrest⟩

/-- A property that every good event preserves holds at the end of every run of good events. -/
theorem run_invariant_of_along {good : State → Event → Prop} {invariant : State → Prop}
    (hstep : ∀ state event next, good state event → system.step state event = some next →
      invariant state → invariant next)
    {events : List Event} {state last : State} (halong : system.Along good state events)
    (hrun : system.run state events = some last) (hinitial : invariant state) :
    invariant last := by
  induction events generalizing state with
  | nil => exact Option.some.inj hrun ▸ hinitial
  | cons event rest ih =>
    obtain ⟨next, hnext, hrest⟩ := run_cons.mp hrun
    exact ih (halong.2 next hnext) hrest (hstep state event next halong.1 hnext hinitial)

theorem along_true (state : State) (events : List Event) :
    system.Along (fun _ _ ↦ True) state events := by
  induction events generalizing state with
  | nil => trivial
  | cons event rest ih => exact ⟨trivial, fun next _ ↦ ih next⟩

/-- A list of events that meet a predicate meet every weaker one. -/
theorem along_mono {good good' : State → Event → Prop}
    (hweaker : ∀ state event, good state event → good' state event)
    {events : List Event} {state : State} (halong : system.Along good state events) :
    system.Along good' state events := by
  induction events generalizing state with
  | nil => trivial
  | cons event rest ih =>
    exact ⟨hweaker state event halong.1, fun next hnext ↦ ih (halong.2 next hnext)⟩

/-- The later events of a list meet what every event of the list does. -/
theorem along_of_append {good : State → Event → Prop} {earlier later : List Event}
    {state middle : State} (halong : system.Along good state (earlier ++ later))
    (hrun : system.run state earlier = some middle) : system.Along good middle later := by
  induction earlier generalizing state with
  | nil => exact Option.some.inj hrun ▸ halong
  | cons event rest ih =>
    obtain ⟨next, hstep, hrest⟩ := run_cons.mp hrun
    exact ih (halong.2 next hstep) hrest

/-- Predicates that agree while an invariant holds, which good events keep, agree along every list
of events. -/
theorem along_congr_of_invariant {good good' : State → Event → Prop} {invariant : State → Prop}
    (hiff : ∀ state event, invariant state → (good state event ↔ good' state event))
    (hstep : ∀ state event next, invariant state → good state event →
      system.step state event = some next → invariant next)
    {events : List Event} {state : State} (hinitial : invariant state) :
    system.Along good state events ↔ system.Along good' state events := by
  induction events generalizing state with
  | nil => exact Iff.rfl
  | cons event rest ih =>
    refine (and_congr_right fun hgood ↦ forall_congr' fun next ↦ ?_).trans
      (and_congr_left fun _ ↦ hiff state event hinitial)
    exact imp_congr_right fun hnext ↦ ih (hstep state event next hinitial hgood hnext)

/-- Predicates that agree on every event agree along every list of events. -/
theorem along_congr {good good' : State → Event → Prop}
    (hiff : ∀ state event, good state event ↔ good' state event)
    {events : List Event} {state : State} :
    system.Along good state events ↔ system.Along good' state events :=
  @along_congr_of_invariant State Event system good good' (fun _ ↦ True)
    (fun state event _ ↦ hiff state event) (fun _ _ _ _ _ _ ↦ trivial) events state trivial

/-- A property that every event preserves holds at the end of every run. -/
theorem run_invariant {invariant : State → Prop}
    (hstep : ∀ state event next, system.step state event = some next →
      invariant state → invariant next)
    {events : List Event} {state last : State} (hrun : system.run state events = some last)
    (hinitial : invariant state) : invariant last :=
  run_invariant_of_along (fun state event next _ ↦ hstep state event next)
    (along_true state events) hrun hinitial

/-- When a good event keeps an invariant, a bad one breaks it and what is broken stays broken, a run
with a bad event ends broken. -/
theorem broken_of_not_along {good : State → Event → Prop} {invariant broken : State → Prop}
    (hkeep : ∀ state event next, invariant state → good state event →
      system.step state event = some next → invariant next)
    (hbreak : ∀ state event next, invariant state → ¬ good state event →
      system.step state event = some next → broken next)
    (hstay : ∀ state event next, system.step state event = some next → broken state → broken next)
    {events : List Event} {state last : State} (hrun : system.run state events = some last)
    (hinitial : invariant state) (hbad : ¬ system.Along good state events) : broken last := by
  induction events generalizing state with
  | nil => exact absurd trivial hbad
  | cons event rest ih =>
    obtain ⟨next, hnext, hrest⟩ := run_cons.mp hrun
    by_cases hgood : good state event
    · refine ih hrest (hkeep state event next hinitial hgood hnext) fun hlater ↦ ?_
      refine hbad ⟨hgood, fun other hother ↦ ?_⟩
      rwa [← Option.some.inj (hnext.symm.trans hother)]
    · exact run_invariant hstay hrest (hbreak state event next hinitial hgood hnext)

/-- When moreover nothing is broken while the invariant holds, the events of a run are all good
exactly when the run does not end broken. -/
theorem along_iff_not_broken {good : State → Event → Prop} {invariant broken : State → Prop}
    (hkeep : ∀ state event next, invariant state → good state event →
      system.step state event = some next → invariant next)
    (hbreak : ∀ state event next, invariant state → ¬ good state event →
      system.step state event = some next → broken next)
    (hstay : ∀ state event next, system.step state event = some next → broken state → broken next)
    (hexclusive : ∀ state, invariant state → ¬ broken state)
    {events : List Event} {state last : State} (hrun : system.run state events = some last)
    (hinitial : invariant state) : system.Along good state events ↔ ¬ broken last := by
  constructor
  · intro halong
    refine hexclusive last (run_invariant_of_along ?_ halong hrun hinitial)
    intro state event next hgood hstep hinvariant
    exact hkeep state event next hinvariant hgood hstep
  · intro hwhole
    refine Classical.byContradiction fun hbad ↦ ?_
    exact hwhole (broken_of_not_along hkeep hbreak hstay hrun hinitial hbad)

/-- A property that holds after an event exactly when it held before and the event is good holds at
the end of a run exactly when it held at the start and all events are good. -/
theorem run_iff_along {good : State → Event → Prop} {invariant property : State → Prop}
    (hstep : ∀ state event next, system.step state event = some next → invariant state →
      invariant next)
    (hiff : ∀ state event next, invariant state → system.step state event = some next →
      (property next ↔ property state ∧ good state event))
    {events : List Event} {state last : State} (hrun : system.run state events = some last)
    (hinitial : invariant state) :
    property last ↔ property state ∧ system.Along good state events := by
  induction events generalizing state with
  | nil => exact Option.some.inj hrun ▸ (and_iff_left trivial).symm
  | cons event rest ih =>
    obtain ⟨next, hnext, hrest⟩ := run_cons.mp hrun
    have halong : system.Along good state (event :: rest) ↔
        good state event ∧ system.Along good next rest :=
      and_congr_right fun _ ↦ ⟨fun hall ↦ hall next hnext, fun hlater other hother ↦
        Option.some.inj (hnext.symm.trans hother) ▸ hlater⟩
    rw [ih hrest (hstep state event next hnext hinitial), hiff state event next hinitial hnext,
      halong, and_assoc]

/-- When each event is an event of another system or leaves its view of the state as it is, the view
of a run is a run of some of the events. -/
theorem run_of_stuttering {View : Type*} {abstraction : EventSystem View Event}
    {view : State → View} {invariant : State → Prop}
    (hinvariant : ∀ state event next, system.step state event = some next → invariant state →
      invariant next)
    (hstep : ∀ state event next, invariant state → system.step state event = some next →
      view next = view state ∨ abstraction.step (view state) event = some (view next))
    {events : List Event} {state last : State} (hrun : system.run state events = some last)
    (hinitial : invariant state) :
    ∃ taken, taken.Sublist events ∧ abstraction.run (view state) taken = some (view last) := by
  induction events generalizing state with
  | nil => exact ⟨[], List.Sublist.slnil, Option.some.inj hrun ▸ rfl⟩
  | cons event rest ih =>
    obtain ⟨next, hnext, hrest⟩ := run_cons.mp hrun
    obtain ⟨taken, htaken, hview⟩ := ih hrest (hinvariant state event next hnext hinitial)
    rcases hstep state event next hinitial hnext with hsame | htakes
    · exact ⟨taken, htaken.cons event, hsame ▸ hview⟩
    · exact ⟨event :: taken, htaken.cons_cons event, run_cons.mpr ⟨view next, htakes, hview⟩⟩

/-- When each event does to the view of the state nothing or what some action of another system
does, the view of a run is a run of that system. -/
theorem run_of_simulation {View Action : Type*} {abstraction : EventSystem View Action}
    {view : State → View} {invariant : State → Prop}
    (hinvariant : ∀ state event next, system.step state event = some next → invariant state →
      invariant next)
    (hstep : ∀ state event next, invariant state → system.step state event = some next →
      view next = view state ∨ ∃ action, abstraction.step (view state) action = some (view next))
    {events : List Event} {state last : State} (hrun : system.run state events = some last)
    (hinitial : invariant state) :
    ∃ actions, abstraction.run (view state) actions = some (view last) := by
  induction events generalizing state with
  | nil => exact ⟨[], Option.some.inj hrun ▸ rfl⟩
  | cons event rest ih =>
    obtain ⟨next, hnext, hrest⟩ := run_cons.mp hrun
    obtain ⟨actions, hview⟩ := ih hrest (hinvariant state event next hnext hinitial)
    rcases hstep state event next hinitial hnext with hsame | ⟨action, haction⟩
    · exact ⟨actions, hsame ▸ hview⟩
    · exact ⟨action :: actions, run_cons.mpr ⟨view next, haction, hview⟩⟩

/-- A reflexive and transitive relation that holds across every event holds across every run. -/
theorem run_relation {related : State → State → Prop} (hrefl : ∀ state, related state state)
    (htrans : ∀ first second third, related first second → related second third →
      related first third)
    (hstep : ∀ state event next, system.step state event = some next → related state next)
    {events : List Event} {state last : State} (hrun : system.run state events = some last) :
    related state last := by
  induction events generalizing state with
  | nil => exact Option.some.inj hrun ▸ hrefl state
  | cons event rest ih =>
    obtain ⟨next, hnext, hrest⟩ := run_cons.mp hrun
    exact htrans state next last (hstep state event next hnext) (ih hrest)

end EventSystem

end RocketMQClient.Library
