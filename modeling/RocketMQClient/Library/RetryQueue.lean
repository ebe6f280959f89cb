import Mathlib.Data.List.Infix
import RocketMQClient.Library.EventSystem

/-!
# A queue whose first item is tried again

Items are served in the order in which they were submitted. A call for the first item succeeds or
fails; the item leaves the queue when its call has succeeded, and is called again when it has
failed.

`RetryQueue.Orderly` says what comes of it: the items whose calls have succeeded are the first ones
submitted, in their order, the others wait in theirs, and every call is for the first item that no
earlier call has succeeded for.
-/

set_option autoImplicit false
set_option relaxedAutoImplicit false

namespace RocketMQClient.Library

/-- The items that wait, with the history: the items submitted, and the calls with their success. -/
structure RetryQueue (Item : Type*) where
  waiting : List Item
  submitted : List Item
  calls : List (Item × Bool)

inductive RetryEvent (Item : Type*) where
  | submit (item : Item)
  | call (succeeds : Bool)

namespace RetryQueue

variable {Item : Type*}

def empty : RetryQueue Item := ⟨[], [], []⟩

def step (queue : RetryQueue Item) : RetryEvent Item → Option (RetryQueue Item)
  | .submit item =>
    some { queue with waiting := queue.waiting ++ [item], submitted := queue.submitted ++ [item] }
  | .call succeeds =>
    match queue.waiting with
    | [] => none
    | item :: rest =>
      some { queue with
        waiting := if succeeds then rest else item :: rest
        calls := queue.calls ++ [(item, succeeds)] }

end RetryQueue

/-- A queue and those who submit to it. -/
def retryQueueSystem (Item : Type*) : EventSystem (RetryQueue Item) (RetryEvent Item) where
  step := RetryQueue.step

/-- The items whose calls have succeeded. -/
def succeeded {Item : Type*} (calls : List (Item × Bool)) : List Item :=
  (calls.filter fun call ↦ call.2).map fun call ↦ call.1

section Succeeded

variable {Item : Type*} (calls : List (Item × Bool)) (item : Item)

theorem succeeded_concat_true :
    succeeded (calls ++ [(item, true)]) = succeeded calls ++ [item] := by
  simp [succeeded]

theorem succeeded_concat_false : succeeded (calls ++ [(item, false)]) = succeeded calls := by
  simp [succeeded]

end Succeeded

namespace RetryQueue

variable {Item : Type*}

/-- Items leave the queue in their order, each when its call has succeeded. -/
structure Orderly (queue : RetryQueue Item) : Prop where
  submitted_eq : queue.submitted = succeeded queue.calls ++ queue.waiting
  first : ∀ before call after, queue.calls = before ++ call :: after →
    queue.submitted[(succeeded before).length]? = some call.1

theorem orderly_empty : (empty : RetryQueue Item).Orderly where
  submitted_eq := rfl
  first before call after hcalls := by simp [empty] at hcalls

/-- One more call, for the first item that waits. -/
theorem Orderly.first_concat {queue : RetryQueue Item} (horderly : queue.Orderly) {item : Item}
    {rest : List Item} (hwaiting : queue.waiting = item :: rest) (succeeds : Bool)
    (before : List (Item × Bool)) (call : Item × Bool) (after : List (Item × Bool))
    (hcalls : queue.calls ++ [(item, succeeds)] = before ++ call :: after) :
    queue.submitted[(succeeded before).length]? = some call.1 := by
  rcases List.eq_nil_or_concat after with rfl | ⟨earlier, last, rfl⟩
  · obtain ⟨rfl, hcall⟩ := List.append_inj' hcalls rfl
    obtain rfl := (List.cons.inj hcall).1
    rw [horderly.submitted_eq, hwaiting, List.getElem?_append_right le_rfl, Nat.sub_self]
    rfl
  · have hsplit : queue.calls ++ [(item, succeeds)] = (before ++ call :: earlier) ++ [last] := by
      simpa using hcalls
    exact horderly.first before call earlier (List.append_inj' hsplit rfl).1

theorem step_orderly {queue next : RetryQueue Item} {event : RetryEvent Item}
    (hstep : queue.step event = some next) (horderly : queue.Orderly) : next.Orderly := by
  cases event with
  | submit item =>
    obtain rfl := Option.some.inj hstep
    refine ⟨?_, fun before call after hcalls ↦ ?_⟩
    · show queue.submitted ++ [item] = succeeded queue.calls ++ (queue.waiting ++ [item])
      rw [horderly.submitted_eq, List.append_assoc]
    · have hfirst := horderly.first before call after hcalls
      show (queue.submitted ++ [item])[(succeeded before).length]? = some call.1
      rw [List.getElem?_append_left (List.getElem?_eq_some_iff.mp hfirst).1, hfirst]
  | call succeeds =>
    rw [step] at hstep
    split at hstep
    · exact absurd hstep.symm (Option.some_ne_none next)
    · rename_i item rest hwaiting
      obtain rfl := Option.some.inj hstep
      refine ⟨?_, horderly.first_concat hwaiting succeeds⟩
      show queue.submitted = succeeded (queue.calls ++ [(item, succeeds)]) ++
        if succeeds then rest else item :: rest
      rw [horderly.submitted_eq, hwaiting]
      cases succeeds with
      | true => rw [succeeded_concat_true, List.append_assoc]; rfl
      | false => rw [succeeded_concat_false]; rfl

/-- The queue is orderly after every run. -/
theorem run_orderly {queue last : RetryQueue Item} {events : List (RetryEvent Item)}
    (hrun : (retryQueueSystem Item).run queue events = some last) (horderly : queue.Orderly) :
    last.Orderly :=
  @EventSystem.run_invariant _ _ (retryQueueSystem Item) Orderly
    (fun _ _ _ hstep ↦ step_orderly hstep) _ _ _ hrun horderly

end RetryQueue

end RocketMQClient.Library
