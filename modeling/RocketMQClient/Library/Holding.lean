import Mathlib.Algebra.Order.Group.Nat
import Mathlib.Logic.Function.Basic

/-!
# What threads hold

A resource that at most one of many threads holds is a variable for its holder. `HeldBy` says that
the holder is the thread whose own state says that it holds the resource, so that no two threads do
(`HeldBy.unique`). A step of one thread keeps the holder, takes what is free or drops what the
thread holds.

`Nested` is the same for a lock that its owner may take several times, with a count of how often.
`ListedBy` is for a list of threads, as that of those that wait.
-/

set_option autoImplicit false
set_option relaxedAutoImplicit false

namespace RocketMQClient.Library

variable {Thread Local : Type*}

/-- The holder is the thread whose state says that it holds the resource. -/
def HeldBy (holds : Local → Prop) (holder : Option Thread) (threads : Thread → Local) : Prop :=
  ∀ thread, holder = some thread ↔ holds (threads thread)

/-- The list has the threads whose state says that they are in it. -/
def ListedBy (listed : Local → Prop) (list : List Thread) (threads : Thread → Local) : Prop :=
  ∀ thread, thread ∈ list ↔ listed (threads thread)

/-- The owner is the thread with a depth, which is the count. -/
structure Nested (depth : Local → ℕ) (owner : Option Thread) (count : ℕ)
    (threads : Thread → Local) : Prop where
  heldBy : HeldBy (fun own ↦ 0 < depth own) owner threads
  count_eq : ∀ thread, owner = some thread → count = depth (threads thread)
  free : owner = none → count = 0

section Update

variable [DecidableEq Thread] {property : Local → Prop} {threads : Thread → Local} {thread : Thread}
  {own : Local}

/-- What holds of a thread and of all others holds of all threads. -/
theorem forall_update_of_ne (hall : ∀ other, other ≠ thread → property (threads other))
    (hown : property own) (other : Thread) : property (Function.update threads thread own other) :=
  (Function.forall_update_iff threads fun _ state ↦ property state).mpr ⟨hown, hall⟩ other

theorem forall_update (hall : ∀ other, property (threads other)) (hown : property own)
    (other : Thread) : property (Function.update threads thread own other) :=
  forall_update_of_ne (fun other _ ↦ hall other) hown other

end Update

namespace HeldBy

variable {holds : Local → Prop} {holder : Option Thread} {threads threads' : Thread → Local}

theorem unique (hheld : HeldBy holds holder threads) {first second : Thread}
    (hfirst : holds (threads first)) (hsecond : holds (threads second)) : first = second :=
  Option.some.inj (((hheld first).mpr hfirst).symm.trans ((hheld second).mpr hsecond))

theorem congr (hheld : HeldBy holds holder threads)
    (hsame : ∀ thread, holds (threads' thread) ↔ holds (threads thread)) :
    HeldBy holds holder threads' :=
  fun thread ↦ (hheld thread).trans (hsame thread).symm

variable [DecidableEq Thread] {thread : Thread} {own old : Local}

/-- The states of some threads change, but not what they hold. -/
theorem wake (hheld : HeldBy holds holder threads) {change : Local → Local}
    (hsame : ∀ own, holds (change own) ↔ holds own) (woken : List Thread) :
    HeldBy holds holder fun thread ↦
      if thread ∈ woken then change (threads thread) else threads thread :=
  hheld.congr fun thread ↦ by
    split_ifs
    · exact hsame (threads thread)
    · exact Iff.rfl

theorem keep (hheld : HeldBy holds holder threads) (hown : threads thread = old)
    (hsame : holds own ↔ holds old) : HeldBy holds holder (Function.update threads thread own) := by
  refine hheld.congr fun other ↦ ?_
  by_cases hother : other = thread
  · rw [hother, Function.update_self, hown, hsame]
  · rw [Function.update_of_ne hother]

/-- A thread takes what nobody holds. -/
theorem take (hheld : HeldBy holds holder threads) (hfree : holder = none) (hholds : holds own) :
    HeldBy holds (some thread) (Function.update threads thread own) := by
  intro other
  by_cases hother : other = thread
  · rw [hother, Function.update_self]
    exact iff_of_true rfl hholds
  · rw [Function.update_of_ne hother, ← hheld other, hfree]
    exact iff_of_false (fun hsome ↦ hother (Option.some.inj hsome).symm)
      (Option.some_ne_none _).symm

/-- The holder drops what it holds. -/
theorem drop (hheld : HeldBy holds holder threads) (hown : threads thread = old)
    (hholder : holds old) (hdrops : ¬ holds own) :
    HeldBy holds none (Function.update threads thread own) := by
  intro other
  by_cases hother : other = thread
  · rw [hother, Function.update_self]
    exact iff_of_false (Option.some_ne_none _).symm hdrops
  · rw [Function.update_of_ne hother]
    exact iff_of_false (Option.some_ne_none _).symm fun hholds ↦
      hother (hheld.unique hholds (hown.symm ▸ hholder))

end HeldBy

namespace ListedBy

variable {listed : Local → Prop} {list : List Thread} {threads : Thread → Local}
  [DecidableEq Thread] {thread : Thread} {own old : Local}

theorem keep (hlisted : ListedBy listed list threads) (hown : threads thread = old)
    (hsame : listed own ↔ listed old) :
    ListedBy listed list (Function.update threads thread own) := by
  intro other
  by_cases hother : other = thread
  · rw [hother, Function.update_self, hlisted thread, hown, hsame]
  · rw [Function.update_of_ne hother, hlisted other]

/-- A thread comes last in the list. -/
theorem add (hlisted : ListedBy listed list threads) (hown : listed own) :
    ListedBy listed (list ++ [thread]) (Function.update threads thread own) := by
  intro other
  rw [List.mem_append, List.mem_singleton]
  by_cases hother : other = thread
  · rw [hother, Function.update_self]
    exact iff_of_true (Or.inr rfl) hown
  · rw [Function.update_of_ne hother, or_iff_left hother, hlisted other]

/-- Some threads leave the list. -/
theorem wake (hlisted : ListedBy listed list threads) {change : Local → Local}
    (hleft : ∀ own, ¬ listed (change own)) (woken : List Thread) :
    ListedBy listed (list.filter fun thread ↦ thread ∉ woken) fun thread ↦
      if thread ∈ woken then change (threads thread) else threads thread := by
  intro thread
  show _ ↔ listed (if thread ∈ woken then change (threads thread) else threads thread)
  rw [List.mem_filter, hlisted thread, decide_eq_true_iff]
  split_ifs with hwoken
  · exact iff_of_false (fun hboth ↦ hboth.2 hwoken) (hleft (threads thread))
  · exact and_iff_left hwoken

end ListedBy

namespace Nested

variable {depth : Local → ℕ} {owner : Option Thread} {count : ℕ} {threads threads' : Thread → Local}

/-- The count is not zero while a thread owns the lock. -/
theorem pos (hnested : Nested depth owner count threads) {thread : Thread}
    (howner : owner = some thread) : 0 < count := by
  rw [hnested.count_eq thread howner]
  exact (hnested.heldBy thread).mp howner

/-- The count of a thread with a depth is its depth. -/
theorem count_of_pos (hnested : Nested depth owner count threads) {thread : Thread}
    (hdepth : 0 < depth (threads thread)) : count = depth (threads thread) :=
  hnested.count_eq thread ((hnested.heldBy thread).mpr hdepth)

/-- Nobody owns a lock whose count is zero. -/
theorem owner_of_zero (hnested : Nested depth owner count threads) (hcount : count = 0) :
    owner = none := by
  cases howner : owner with
  | none => rfl
  | some thread =>
    have hpos := hnested.pos howner
    omega

theorem congr (hnested : Nested depth owner count threads)
    (hsame : ∀ thread, depth (threads' thread) = depth (threads thread)) :
    Nested depth owner count threads' where
  heldBy := hnested.heldBy.congr fun thread ↦ by rw [hsame]
  count_eq thread howner := by rw [hsame, hnested.count_eq thread howner]
  free := hnested.free

variable [DecidableEq Thread] {thread : Thread} {own old : Local}

theorem wake (hnested : Nested depth owner count threads) {change : Local → Local}
    (hsame : ∀ own, depth (change own) = depth own) (woken : List Thread) :
    Nested depth owner count fun thread ↦
      if thread ∈ woken then change (threads thread) else threads thread :=
  hnested.congr fun thread ↦ by
    split_ifs
    · exact hsame (threads thread)
    · rfl

theorem keep (hnested : Nested depth owner count threads) (hown : threads thread = old)
    (hsame : depth own = depth old) :
    Nested depth owner count (Function.update threads thread own) := by
  refine hnested.congr fun other ↦ ?_
  by_cases hother : other = thread
  · rw [hother, Function.update_self, hown, hsame]
  · rw [Function.update_of_ne hother]

/-- A thread takes a free lock a number of times. -/
theorem take (hnested : Nested depth owner count threads) (hcount : count = 0)
    (hown : 0 < depth own) {taken : ℕ} (htaken : taken = depth own) :
    Nested depth (some thread) taken (Function.update threads thread own) where
  heldBy := hnested.heldBy.take (hnested.owner_of_zero hcount) hown
  count_eq other howner := by rw [← Option.some.inj howner, Function.update_self, htaken]
  free hnone := absurd hnone (Option.some_ne_none _)

/-- The owner changes how often it holds the lock. -/
theorem change (hnested : Nested depth owner count threads) (hown : threads thread = old)
    (howner : 0 < depth old) (hpos : 0 < depth own) {taken : ℕ} (htaken : taken = depth own) :
    Nested depth owner taken (Function.update threads thread own) where
  heldBy := hnested.heldBy.keep hown (iff_of_true hpos howner)
  count_eq other hother := by
    rw [← hown] at howner
    have hsame := Option.some.inj (hother.symm.trans ((hnested.heldBy thread).mpr howner))
    rw [hsame, Function.update_self, htaken]
  free hnone := by
    rw [← hown] at howner
    exact absurd (((hnested.heldBy thread).mpr howner).symm.trans hnone) (Option.some_ne_none _)

/-- The owner gives the lock up. -/
theorem drop (hnested : Nested depth owner count threads) (hown : threads thread = old)
    (howner : 0 < depth old) (hnone : depth own = 0) :
    Nested depth none 0 (Function.update threads thread own) where
  heldBy := hnested.heldBy.drop hown howner (by rw [hnone]; exact lt_irrefl 0)
  count_eq _ hsome := absurd hsome.symm (Option.some_ne_none _)
  free _ := rfl

end Nested

end RocketMQClient.Library
