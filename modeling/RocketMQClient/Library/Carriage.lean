import Mathlib.Tactic.ByContra

/-!
# Tasks that are carried one at a time

A task is marked when it is started, and the mark is taken off at its end, so that nobody starts it
again in between. Meanwhile it is handed over from carrier to carrier. `Carriage` is the part of a
state that is about this, and `Carriage.Step` says what a step may do to it: nothing, start a task
that is not marked, hand one over, end one, or lose some of one carrier, whose marks stay.

Then a task has one carrier at most (`Carriage.Sound`), one that was lost never has one again
(`Carriage.Lost`), and every marked task has a carrier (`Carriage.Complete`) as long as none was
lost.
-/

set_option autoImplicit false
set_option relaxedAutoImplicit false

namespace RocketMQClient.Library

/-- The tasks that are marked, and what the carriers have. -/
structure Carriage (Carrier Task : Type*) where
  marked : Task → Prop
  carries : Carrier → Task → Prop

namespace Carriage

variable {Carrier Task : Type*}

/-- What a carrier has is marked, and no other carrier has it. -/
structure Sound (carriage : Carriage Carrier Task) : Prop where
  marked : ∀ {carrier task}, carriage.carries carrier task → carriage.marked task
  alone : ∀ {task first second}, carriage.carries first task → carriage.carries second task →
    first = second

/-- A task that is marked and has no carrier. -/
def Lost (carriage : Carriage Carrier Task) (task : Task) : Prop :=
  carriage.marked task ∧ ∀ carrier, ¬ carriage.carries carrier task

/-- Every task that is marked has a carrier. -/
def Complete (carriage : Carriage Carrier Task) : Prop :=
  ∀ task, carriage.marked task → ∃ carrier, carriage.carries carrier task

/-- What a step does. It loses a task exactly when `loses`. -/
inductive Step (loses : Prop) (before after : Carriage Carrier Task) : Prop where
  | keep (hkeeps : ¬ loses) (hmarked : ∀ task, after.marked task ↔ before.marked task)
      (hcarries : ∀ carrier task, after.carries carrier task ↔ before.carries carrier task)
  | start (target : Carrier) (started : Task) (hkeeps : ¬ loses) (hfree : ¬ before.marked started)
      (hmarked : ∀ task, after.marked task ↔ task = started ∨ before.marked task)
      (hcarries : ∀ carrier task, after.carries carrier task ↔
        carrier = target ∧ task = started ∨ before.carries carrier task)
  | handOver (source target : Carrier) (moved : Task) (hkeeps : ¬ loses)
      (hsource : before.carries source moved)
      (hmarked : ∀ task, after.marked task ↔ before.marked task)
      (hcarries : ∀ carrier task, after.carries carrier task ↔
        carrier = target ∧ task = moved ∨ task ≠ moved ∧ before.carries carrier task)
  | finish (source : Carrier) (ended : Task) (hkeeps : ¬ loses)
      (hsource : before.carries source ended)
      (hmarked : ∀ task, after.marked task ↔ task ≠ ended ∧ before.marked task)
      (hcarries : ∀ carrier task, after.carries carrier task ↔
        task ≠ ended ∧ before.carries carrier task)
  | lose (source : Carrier) (lost : Task → Prop) (hloses : loses) (hsome : ∃ task, lost task)
      (hsource : ∀ task, lost task → before.carries source task)
      (hmarked : ∀ task, after.marked task ↔ before.marked task)
      (hcarries : ∀ carrier task, after.carries carrier task ↔
        ¬ lost task ∧ before.carries carrier task)

variable {loses : Prop} {before after : Carriage Carrier Task}

theorem Sound.step (hsound : before.Sound) (hstep : Step loses before after) : after.Sound := by
  cases hstep with
  | keep hkeeps hmarked hcarries =>
    refine ⟨fun hhas ↦ ?_, fun hfirst hsecond ↦ ?_⟩
    · exact (hmarked _).mpr (hsound.marked ((hcarries _ _).mp hhas))
    · exact hsound.alone ((hcarries _ _).mp hfirst) ((hcarries _ _).mp hsecond)
  | start target started hkeeps hfree hmarked hcarries =>
    refine ⟨fun hhas ↦ ?_, fun hfirst hsecond ↦ ?_⟩
    · exact (hmarked _).mpr (((hcarries _ _).mp hhas).imp And.right hsound.marked)
    · rcases (hcarries _ _).mp hfirst with ⟨rfl, rfl⟩ | hfirst <;>
        rcases (hcarries _ _).mp hsecond with ⟨rfl, hsame⟩ | hsecond
      · rfl
      · exact absurd (hsound.marked hsecond) hfree
      · exact absurd (hsound.marked (hsame ▸ hfirst)) hfree
      · exact hsound.alone hfirst hsecond
  | handOver source target moved hkeeps hsource hmarked hcarries =>
    refine ⟨fun hhas ↦ (hmarked _).mpr ?_, fun hfirst hsecond ↦ ?_⟩
    · rcases (hcarries _ _).mp hhas with ⟨-, rfl⟩ | ⟨-, hbefore⟩
      · exact hsound.marked hsource
      · exact hsound.marked hbefore
    · rcases (hcarries _ _).mp hfirst with ⟨rfl, rfl⟩ | ⟨hne, hfirst⟩ <;>
        rcases (hcarries _ _).mp hsecond with ⟨rfl, hsame⟩ | ⟨hne', hsecond⟩
      · rfl
      · exact absurd rfl hne'
      · exact absurd hsame hne
      · exact hsound.alone hfirst hsecond
  | finish source ended hkeeps hsource hmarked hcarries =>
    refine ⟨fun hhas ↦ ?_, fun hfirst hsecond ↦ ?_⟩
    · obtain ⟨hne, hbefore⟩ := (hcarries _ _).mp hhas
      exact (hmarked _).mpr ⟨hne, hsound.marked hbefore⟩
    · exact hsound.alone ((hcarries _ _).mp hfirst).2 ((hcarries _ _).mp hsecond).2
  | lose source lost hloses hsome hsource hmarked hcarries =>
    refine ⟨fun hhas ↦ ?_, fun hfirst hsecond ↦ ?_⟩
    · exact (hmarked _).mpr (hsound.marked ((hcarries _ _).mp hhas).2)
    · exact hsound.alone ((hcarries _ _).mp hfirst).2 ((hcarries _ _).mp hsecond).2

/-- What one carrier has, the others do not have. -/
theorem Sound.carries_iff {carriage : Carriage Carrier Task} {moved : Task} {source : Carrier}
    (hsound : carriage.Sound) (hsource : carriage.carries source moved) (carrier : Carrier)
    (task : Task) (hne : carrier ≠ source) :
    carriage.carries carrier task ↔ task ≠ moved ∧ carriage.carries carrier task :=
  ⟨fun hhas ↦ ⟨fun hsame ↦ hne (hsound.alone hhas (hsame ▸ hsource)), hhas⟩, And.right⟩

/-- A task that was lost stays lost: it is not started again, since its mark stays. -/
theorem Lost.step {task : Task} (hlost : before.Lost task) (hstep : Step loses before after) :
    after.Lost task := by
  obtain ⟨hmark, hnone⟩ := hlost
  cases hstep with
  | keep hkeeps hmarked hcarries =>
    exact ⟨(hmarked task).mpr hmark, fun carrier hhas ↦ hnone _ ((hcarries _ _).mp hhas)⟩
  | start target started hkeeps hfree hmarked hcarries =>
    refine ⟨(hmarked task).mpr (Or.inr hmark), fun carrier hhas ↦ ?_⟩
    rcases (hcarries _ _).mp hhas with ⟨-, rfl⟩ | hbefore
    · exact hfree hmark
    · exact hnone _ hbefore
  | handOver source target moved hkeeps hsource hmarked hcarries =>
    refine ⟨(hmarked task).mpr hmark, fun carrier hhas ↦ ?_⟩
    rcases (hcarries _ _).mp hhas with ⟨-, rfl⟩ | ⟨-, hbefore⟩
    · exact hnone _ hsource
    · exact hnone _ hbefore
  | finish source ended hkeeps hsource hmarked hcarries =>
    have hne : task ≠ ended := fun hsame ↦ hnone _ (hsame ▸ hsource)
    exact ⟨(hmarked task).mpr ⟨hne, hmark⟩, fun _ hhas ↦ hnone _ ((hcarries _ _).mp hhas).2⟩
  | lose source lost hloses hsome hsource hmarked hcarries =>
    exact ⟨(hmarked task).mpr hmark, fun _ hhas ↦ hnone _ ((hcarries _ _).mp hhas).2⟩

/-- Nothing is lost in a step that does not lose anything. -/
theorem Complete.step (hcomplete : before.Complete) (hloses : ¬ loses)
    (hstep : Step loses before after) : after.Complete := by
  intro task hmark
  cases hstep with
  | keep hkeeps hmarked hcarries =>
    obtain ⟨carrier, hhas⟩ := hcomplete task ((hmarked task).mp hmark)
    exact ⟨carrier, (hcarries _ _).mpr hhas⟩
  | start target started hkeeps hfree hmarked hcarries =>
    rcases (hmarked task).mp hmark with rfl | hbefore
    · exact ⟨target, (hcarries _ _).mpr (Or.inl ⟨rfl, rfl⟩)⟩
    · obtain ⟨carrier, hhas⟩ := hcomplete task hbefore
      exact ⟨carrier, (hcarries _ _).mpr (Or.inr hhas)⟩
  | handOver source target moved hkeeps hsource hmarked hcarries =>
    by_cases hsame : task = moved
    · exact ⟨target, (hcarries _ _).mpr (Or.inl ⟨rfl, hsame⟩)⟩
    · obtain ⟨carrier, hhas⟩ := hcomplete task ((hmarked task).mp hmark)
      exact ⟨carrier, (hcarries _ _).mpr (Or.inr ⟨hsame, hhas⟩)⟩
  | finish source ended hkeeps hsource hmarked hcarries =>
    obtain ⟨hne, hbefore⟩ := (hmarked task).mp hmark
    obtain ⟨carrier, hhas⟩ := hcomplete task hbefore
    exact ⟨carrier, (hcarries _ _).mpr ⟨hne, hhas⟩⟩
  | lose source lost hlost hsome hsource hmarked hcarries => exact absurd hlost hloses

/-- What is lost is missing behind the step. -/
theorem Step.not_complete (hsound : before.Sound) (hstep : Step loses before after)
    (hloses : loses) : ¬ after.Complete := by
  cases hstep with
  | keep hkeeps | start _ _ hkeeps | handOver _ _ _ hkeeps | finish _ _ hkeeps =>
    exact absurd hloses hkeeps
  | lose source lost hlost hsome hsource hmarked hcarries =>
    intro hcomplete
    obtain ⟨task, hgone⟩ := hsome
    have hkept := (hmarked task).mpr (hsound.marked (hsource task hgone))
    obtain ⟨carrier, hhas⟩ := hcomplete task hkept
    exact ((hcarries _ _).mp hhas).1 hgone

/-- No task is missing behind a step just when none was before and the step loses none. -/
theorem Step.complete_iff (hsound : before.Sound) (hstep : Step loses before after) :
    after.Complete ↔ before.Complete ∧ ¬ loses := by
  refine ⟨fun hcomplete ↦ ⟨fun task hmark ↦ ?_, fun hloses ↦ ?_⟩, fun hboth ↦ ?_⟩
  · by_contra hnone
    obtain ⟨hmark', hnone'⟩ := Lost.step ⟨hmark, not_exists.mp hnone⟩ hstep
    exact (hcomplete task hmark').elim hnone'
  · exact hstep.not_complete hsound hloses hcomplete
  · exact hboth.1.step hboth.2 hstep

end Carriage

end RocketMQClient.Library
