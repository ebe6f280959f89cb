import RocketMQClient.Common.ServiceThread
import RocketMQClient.Library.Holding
import RocketMQClient.Library.RetryQueue

/-!
# The service that pulls messages

Pull requests are put into a list by any thread, and one thread takes the first one, pulls for it
and removes it. `pullServiceSystem` interleaves the calls of `executePullRequestImmediately` and
`stop` with the steps of the thread of the service: a step for each section of `m_mutexQueue` that
is not left in between, for each section of the monitor and for each look at a flag or at the list
outside a lock. A call holds `m_mutexQueue` while it wakes the service.

The list is a `RetryQueue` (`pullService_refines`): a request leaves it when its pull has returned,
and a pull that throws is done again. So requests are pulled for in their order and none is lost or
skipped (`pulls_in_order`).

The places of the thread follow the statements of `Run`, and `Moves` lists what each step does once,
with what enables it, for the lemmas of this module and of the next one. That `front` and
`pop_front` find an element is part of the refinement: the second look at the list is outside the
lock, and only the thread itself removes requests.
-/

set_option autoImplicit false
set_option relaxedAutoImplicit false

namespace RocketMQClient.Consumer

open Library Common

/-! ### The threads -/

/-- What the thread of the service does next. -/
inductive RunPlace (Request : Type*) where
  /-- `while (!m_stoped)`. -/
  | testStop
  /-- The first `m_pullRequestQueue.empty()`. -/
  | testEmpty
  | waitForRunning
  /-- `Wait`. -/
  | waiting
  /-- The second `m_pullRequestQueue.empty()`. -/
  | testWork
  | front
  | pullMessage (request : Request)
  | popFront
  | ended
  /-- An operation on an empty list that needs an element. -/
  | damaged
  deriving DecidableEq

/-- What another thread does next. -/
inductive SubmitPlace (Request : Type*) where
  | outside
  /-- `executePullRequestImmediately`: `lock(m_mutexQueue)`. -/
  | enter (request : Request)
  /-- `push_back` and the test of the size. -/
  | pushBack (request : Request)
  | wakeup
  /-- The end of the section. -/
  | leave
  /-- `stop`: `wakeup()`. -/
  | stopping
  deriving DecidableEq

/-- The place is in the section of `m_mutexQueue`. -/
def SubmitPlace.HoldsQueue {Request : Type*} : SubmitPlace Request → Prop
  | pushBack _ | wakeup | leave => True
  | outside | enter _ | stopping => False

/-- The service with its list, the holder of `m_mutexQueue` among the other threads, and for the
statements the requests submitted and the pulls, each with whether it has returned. -/
structure PullMessageService (Thread Request : Type*) where
  service : ServiceThread
  pullRequestQueue : List Request
  mutexQueue : Option Thread
  place : RunPlace Request
  threads : Thread → SubmitPlace Request
  submitted : List Request
  pulls : List (Request × Bool)

/-- A call of a function of the service, the next step of its caller, the next step of the thread of
the service (which may throw) and a wait that nobody has ended. -/
inductive PullServiceEvent (Thread Request : Type*) where
  | executePullRequestImmediately (thread : Thread) (request : Request)
  | stop (thread : Thread)
  | advance (thread : Thread)
  | run (throws : Bool)
  | endWait
  deriving DecidableEq

namespace PullMessageService

variable {Thread Request : Type*}

def initial : PullMessageService Thread Request :=
  ⟨ServiceThread.initial, [], none, .testStop, fun _ ↦ .outside, [], []⟩

/-- `push_back`. -/
def pushBack (state : PullMessageService Thread Request) (request : Request) :
    PullMessageService Thread Request :=
  { state with
    pullRequestQueue := state.pullRequestQueue ++ [request]
    submitted := state.submitted ++ [request] }

section Steps

variable [DecidableEq Thread]

def set (state : PullMessageService Thread Request) (thread : Thread)
    (place : SubmitPlace Request) : PullMessageService Thread Request :=
  { state with threads := Function.update state.threads thread place }

/-- A thread calls a function of the service. -/
def call (state : PullMessageService Thread Request) (thread : Thread)
    (place : SubmitPlace Request) : Option (PullMessageService Thread Request) :=
  match state.threads thread with
  | .outside => some (state.set thread place)
  | _ => none

/-- The next step of a thread that has called a function of the service. -/
def advance (state : PullMessageService Thread Request) (thread : Thread) :
    Option (PullMessageService Thread Request) :=
  match state.threads thread with
  | .outside => none
  | .enter request =>
    if state.mutexQueue = none then
      some ({ state with mutexQueue := some thread }.set thread (.pushBack request))
    else none
  | .pushBack request =>
    some ((state.pushBack request).set thread
      (if (state.pushBack request).pullRequestQueue.length = 1 then .wakeup else .leave))
  | .wakeup => some ({ state with service := state.service.wakeup }.set thread .leave)
  | .leave => some ({ state with mutexQueue := none }.set thread .outside)
  | .stopping => some ({ state with service := state.service.wakeup }.set thread .outside)

end Steps

/-- The next step of `Run`. -/
def run (state : PullMessageService Thread Request) (throws : Bool) :
    Option (PullMessageService Thread Request) :=
  match state.place with
  | .testStop =>
    some { state with place := if state.service.stoped then .ended else .testEmpty }
  | .testEmpty =>
    some { state with
      place := if state.pullRequestQueue = [] then .waitForRunning else .testWork }
  | .waitForRunning =>
    some { state with
      service := state.service.waitForRunning
      place := if state.service.notified then .testWork else .waiting }
  | .waiting =>
    if state.service.blocked then none
    else some { state with service := state.service.leaveWait throws, place := .testWork }
  | .testWork =>
    some { state with place := if state.pullRequestQueue = [] then .testStop else .front }
  | .front =>
    if state.mutexQueue = none then
      some { state with place := match state.pullRequestQueue with
        | request :: _ => .pullMessage request
        | [] => .damaged }
    else none
  | .pullMessage request =>
    some { state with
      place := if throws then .testStop else .popFront
      pulls := state.pulls ++ [(request, !throws)] }
  | .popFront =>
    if state.mutexQueue = none then
      match state.pullRequestQueue with
      | _ :: rest => some { state with pullRequestQueue := rest, place := .testStop }
      | [] => some { state with place := .damaged }
    else none
  | .ended | .damaged => none

variable [DecidableEq Thread]

/-- One step. -/
def step (state : PullMessageService Thread Request) :
    PullServiceEvent Thread Request → Option (PullMessageService Thread Request)
  | .executePullRequestImmediately thread request => state.call thread (.enter request)
  | .stop thread =>
    ({ state with service := state.service.setStoped } : PullMessageService _ _).call thread
      .stopping
  | .advance thread => state.advance thread
  | .run throws => state.run throws
  | .endWait =>
    if state.service.blocked then some { state with service := state.service.endWait } else none

end PullMessageService

/-- The service and the threads that use it. -/
def pullServiceSystem (Thread Request : Type*) [DecidableEq Thread] :
    EventSystem (PullMessageService Thread Request) (PullServiceEvent Thread Request) where
  step := PullMessageService.step

namespace PullMessageService

/-! ### The list of requests -/

section View

variable {Thread Request : Type*} {state : PullMessageService Thread Request}

/-- The list has what the place needs: the thread of the service alone removes requests. -/
def Fits (state : PullMessageService Thread Request) : Prop :=
  match state.place with
  | .front | .popFront => state.pullRequestQueue ≠ []
  | .pullMessage request => state.pullRequestQueue.head? = some request
  | .damaged => False
  | _ => True

/-- The list as a queue: a request whose pull has returned has left it. -/
def view (state : PullMessageService Thread Request) : RetryQueue Request where
  waiting := match state.place with
    | .popFront => state.pullRequestQueue.tail
    | _ => state.pullRequestQueue
  submitted := state.submitted
  calls := state.pulls

theorem fits_initial : (initial : PullMessageService Thread Request).Fits := trivial

/-- Requests that are added change nothing for the place. -/
theorem Fits.pushBack (hfits : state.Fits) (request : Request) : (state.pushBack request).Fits := by
  have hne : state.pullRequestQueue ++ [request] ≠ [] :=
    List.append_ne_nil_of_right_ne_nil _ (List.cons_ne_nil request [])
  have hhead {first : Request} (hfirst : state.pullRequestQueue.head? = some first) :
      (state.pullRequestQueue ++ [request]).head? = some first := by
    rw [List.head?_append, hfirst, Option.some_or]
  unfold Fits at hfits ⊢
  show match state.place with
    | .front | .popFront => state.pullRequestQueue ++ [request] ≠ []
    | .pullMessage first => (state.pullRequestQueue ++ [request]).head? = some first
    | .damaged => False
    | _ => True
  cases hplace : state.place with
  | front | popFront => exact hne
  | pullMessage first =>
    rw [hplace] at hfits
    exact hhead hfits
  | damaged =>
    rw [hplace] at hfits
    exact hfits.elim
  | _ => trivial

/-- A request that is added waits last. -/
theorem view_pushBack (hfits : state.Fits) (request : Request) :
    state.view.step (.submit request) = some (state.pushBack request).view := by
  refine congrArg some (congrArg₂ (fun waiting submitted ↦ RetryQueue.mk waiting submitted _) ?_
    rfl)
  show _ = match state.place with
    | .popFront => (state.pullRequestQueue ++ [request]).tail
    | _ => state.pullRequestQueue ++ [request]
  unfold Fits at hfits
  cases hplace : state.place with
  | popFront =>
    rw [hplace] at hfits
    rw [view, hplace, List.tail_append_of_ne_nil hfits]
  | _ => rw [view, hplace]

end View

variable {Thread Request : Type*} [DecidableEq Thread]
  {state next : PullMessageService Thread Request}

/-! ### What a step does -/

/-- The steps, each with what enables it and the state behind it. -/
inductive Moves (state : PullMessageService Thread Request) :
    PullServiceEvent Thread Request → PullMessageService Thread Request → Prop where
  | call (thread : Thread) (request : Request) (hplace : state.threads thread = .outside) :
    Moves state (.executePullRequestImmediately thread request) (state.set thread (.enter request))
  | stop (thread : Thread) (hplace : state.threads thread = .outside) :
    Moves state (.stop thread)
      ({ state with service := state.service.setStoped }.set thread .stopping)
  | enter (thread : Thread) (request : Request) (hplace : state.threads thread = .enter request)
      (hfree : state.mutexQueue = none) :
    Moves state (.advance thread)
      ({ state with mutexQueue := some thread }.set thread (.pushBack request))
  | pushFirst (thread : Thread) (request : Request)
      (hplace : state.threads thread = .pushBack request) (hempty : state.pullRequestQueue = []) :
    Moves state (.advance thread) ((state.pushBack request).set thread .wakeup)
  | pushMore (thread : Thread) (request : Request)
      (hplace : state.threads thread = .pushBack request) (hsome : state.pullRequestQueue ≠ []) :
    Moves state (.advance thread) ((state.pushBack request).set thread .leave)
  | wakeup (thread : Thread) (hplace : state.threads thread = .wakeup) :
    Moves state (.advance thread)
      ({ state with service := state.service.wakeup }.set thread .leave)
  | leave (thread : Thread) (hplace : state.threads thread = .leave) :
    Moves state (.advance thread) ({ state with mutexQueue := none }.set thread .outside)
  | stopping (thread : Thread) (hplace : state.threads thread = .stopping) :
    Moves state (.advance thread)
      ({ state with service := state.service.wakeup }.set thread .outside)
  | finish (throws : Bool) (hplace : state.place = .testStop)
      (hstoped : state.service.stoped = true) :
    Moves state (.run throws) { state with place := .ended }
  | goOn (throws : Bool) (hplace : state.place = .testStop)
      (hrunning : state.service.stoped = false) :
    Moves state (.run throws) { state with place := .testEmpty }
  | findEmpty (throws : Bool) (hplace : state.place = .testEmpty)
      (hempty : state.pullRequestQueue = []) :
    Moves state (.run throws) { state with place := .waitForRunning }
  | findSome (throws : Bool) (hplace : state.place = .testEmpty)
      (hsome : state.pullRequestQueue ≠ []) :
    Moves state (.run throws) { state with place := .testWork }
  | passWait (throws : Bool) (hplace : state.place = .waitForRunning)
      (hnotified : state.service.notified = true) :
    Moves state (.run throws)
      { state with service := state.service.waitForRunning, place := .testWork }
  | block (throws : Bool) (hplace : state.place = .waitForRunning)
      (hquiet : state.service.notified = false) :
    Moves state (.run throws)
      { state with service := state.service.waitForRunning, place := .waiting }
  | leaveWait (throws : Bool) (hplace : state.place = .waiting)
      (hwoken : state.service.blocked = false) :
    Moves state (.run throws)
      { state with service := state.service.leaveWait throws, place := .testWork }
  | findNoWork (throws : Bool) (hplace : state.place = .testWork)
      (hempty : state.pullRequestQueue = []) :
    Moves state (.run throws) { state with place := .testStop }
  | findWork (throws : Bool) (hplace : state.place = .testWork)
      (hsome : state.pullRequestQueue ≠ []) :
    Moves state (.run throws) { state with place := .front }
  | front (throws : Bool) (request : Request) (rest : List Request) (hplace : state.place = .front)
      (hfree : state.mutexQueue = none) (hqueue : state.pullRequestQueue = request :: rest) :
    Moves state (.run throws) { state with place := .pullMessage request }
  | pullMessage (throws : Bool) (request : Request) (hplace : state.place = .pullMessage request) :
    Moves state (.run throws)
      { state with
        place := if throws then .testStop else .popFront
        pulls := state.pulls ++ [(request, !throws)] }
  | popFront (throws : Bool) (request : Request) (rest : List Request)
      (hplace : state.place = .popFront) (hfree : state.mutexQueue = none)
      (hqueue : state.pullRequestQueue = request :: rest) :
    Moves state (.run throws) { state with pullRequestQueue := rest, place := .testStop }
  | damage (throws : Bool) (hplace : state.place = .front ∨ state.place = .popFront)
      (hempty : state.pullRequestQueue = []) :
    Moves state (.run throws) { state with place := .damaged }
  | endWait (hblocked : state.service.blocked = true) :
    Moves state .endWait { state with service := state.service.endWait }

theorem call_eq_some {thread : Thread} {place : SubmitPlace Request}
    (hcall : state.call thread place = some next) :
    state.threads thread = .outside ∧ next = state.set thread place := by
  unfold call at hcall
  split at hcall
  · exact ⟨‹_›, (Option.some.inj hcall).symm⟩
  · exact absurd hcall.symm (Option.some_ne_none next)

theorem moves_of_advance {thread : Thread} (hadvance : state.advance thread = some next) :
    Moves state (.advance thread) next := by
  unfold advance at hadvance
  cases hplace : state.threads thread with
  | outside => simp [hplace] at hadvance
  | enter request =>
    simp only [hplace] at hadvance
    obtain ⟨hfree, hnext⟩ := Option.ite_none_right_eq_some.mp hadvance
    exact Option.some.inj hnext ▸ .enter thread request hplace hfree
  | pushBack request =>
    simp only [hplace] at hadvance
    obtain rfl := Option.some.inj hadvance
    have hlength : (state.pushBack request).pullRequestQueue.length = 1 ↔
        state.pullRequestQueue = [] := by
      simp [pushBack]
    split_ifs with hone
    · exact .pushFirst thread request hplace (hlength.mp hone)
    · exact .pushMore thread request hplace fun hempty ↦ hone (hlength.mpr hempty)
  | wakeup =>
    simp only [hplace] at hadvance
    exact Option.some.inj hadvance ▸ .wakeup thread hplace
  | leave =>
    simp only [hplace] at hadvance
    exact Option.some.inj hadvance ▸ .leave thread hplace
  | stopping =>
    simp only [hplace] at hadvance
    exact Option.some.inj hadvance ▸ .stopping thread hplace

theorem moves_of_run {throws : Bool} (hrun : state.run throws = some next) :
    Moves state (.run throws) next := by
  unfold run at hrun
  cases hplace : state.place with
  | testStop =>
    simp only [hplace] at hrun
    obtain rfl := Option.some.inj hrun
    cases hstoped : state.service.stoped with
    | true => exact .finish throws hplace hstoped
    | false => exact .goOn throws hplace hstoped
  | testEmpty =>
    simp only [hplace] at hrun
    obtain rfl := Option.some.inj hrun
    split_ifs with hqueue
    · exact .findEmpty throws hplace hqueue
    · exact .findSome throws hplace hqueue
  | waitForRunning =>
    simp only [hplace] at hrun
    obtain rfl := Option.some.inj hrun
    cases hnotified : state.service.notified with
    | true => exact .passWait throws hplace hnotified
    | false => exact .block throws hplace hnotified
  | waiting =>
    simp only [hplace] at hrun
    split_ifs at hrun with hblocked
    exact Option.some.inj hrun ▸ .leaveWait throws hplace (Bool.eq_false_iff.mpr hblocked)
  | testWork =>
    simp only [hplace] at hrun
    obtain rfl := Option.some.inj hrun
    split_ifs with hqueue
    · exact .findNoWork throws hplace hqueue
    · exact .findWork throws hplace hqueue
  | front =>
    simp only [hplace] at hrun
    obtain ⟨hfree, hnext⟩ := Option.ite_none_right_eq_some.mp hrun
    obtain rfl := Option.some.inj hnext
    split
    · next request rest hqueue => exact .front throws request rest hplace hfree hqueue
    · next hqueue => exact .damage throws (Or.inl hplace) hqueue
  | pullMessage request =>
    simp only [hplace] at hrun
    exact Option.some.inj hrun ▸ .pullMessage throws request hplace
  | popFront =>
    simp only [hplace] at hrun
    obtain ⟨hfree, hpop⟩ := Option.ite_none_right_eq_some.mp hrun
    split at hpop
    · next request rest hqueue =>
      exact Option.some.inj hpop ▸ .popFront throws request rest hplace hfree hqueue
    · next hqueue => exact Option.some.inj hpop ▸ .damage throws (Or.inr hplace) hqueue
  | ended | damaged => simp [hplace] at hrun

theorem moves_of_step {event : PullServiceEvent Thread Request}
    (hstep : state.step event = some next) : Moves state event next := by
  cases event with
  | executePullRequestImmediately thread request =>
    obtain ⟨hplace, rfl⟩ := call_eq_some hstep
    exact .call thread request hplace
  | stop thread =>
    obtain ⟨hplace, rfl⟩ := call_eq_some hstep
    exact .stop thread hplace
  | advance thread => exact moves_of_advance hstep
  | run throws => exact moves_of_run hstep
  | endWait =>
    obtain ⟨hblocked, hnext⟩ := Option.ite_none_right_eq_some.mp hstep
    exact Option.some.inj hnext ▸ .endWait hblocked

theorem moves_fits {event : PullServiceEvent Thread Request} (hmoves : Moves state event next)
    (hfits : state.Fits) : next.Fits := by
  cases hmoves with
  | pushFirst thread request | pushMore thread request => exact hfits.pushBack request
  | call | stop | enter | wakeup | leave | stopping | endWait => exact hfits
  | finish | goOn | findEmpty | findSome | passWait | block | leaveWait | findNoWork
  | popFront => trivial
  | findWork throws hplace hsome => exact hsome
  | front throws request rest hplace hfree hqueue =>
    show state.pullRequestQueue.head? = some request
    rw [hqueue, List.head?_cons]
  | pullMessage throws request hplace =>
    rw [Fits, hplace] at hfits
    cases throws with
    | true => trivial
    | false =>
      show state.pullRequestQueue ≠ []
      intro hempty
      rw [hempty] at hfits
      exact Option.some_ne_none request hfits.symm
  | damage throws hplace hempty =>
    rcases hplace with hplace | hplace <;> rw [Fits, hplace] at hfits <;> exact hfits hempty

/-- A step adds a request, pulls for the first one, or does nothing to the queue. -/
theorem moves_view {event : PullServiceEvent Thread Request} (hmoves : Moves state event next)
    (hfits : state.Fits) :
    next.view = state.view ∨ ∃ action, state.view.step action = some next.view := by
  cases hmoves with
  | call | stop | enter | wakeup | leave | stopping | endWait => exact Or.inl rfl
  | pushFirst thread request | pushMore thread request =>
    exact Or.inr ⟨.submit request, view_pushBack hfits request⟩
  | finish throws hplace | goOn throws hplace | findEmpty throws hplace | findSome throws hplace
  | passWait throws hplace | block throws hplace | leaveWait throws hplace
  | findNoWork throws hplace | findWork throws hplace | front throws request rest hplace =>
    exact Or.inl (by rw [view, view, hplace])
  | pullMessage throws request hplace =>
    rw [Fits, hplace] at hfits
    obtain ⟨rest, hqueue⟩ := List.head?_eq_some_iff.mp hfits
    refine Or.inr ⟨.call (!throws), ?_⟩
    cases throws <;> simp [view, RetryQueue.step, hplace, hqueue]
  | popFront throws request rest hplace hfree hqueue =>
    exact Or.inl (by rw [view, view, hplace, hqueue]; rfl)
  | damage throws hplace hempty =>
    rcases hplace with hplace | hplace <;> rw [Fits, hplace] at hfits <;>
      exact absurd hempty hfits

/-- The list of requests is a queue whose first item is tried again. -/
theorem pullService_refines {events : List (PullServiceEvent Thread Request)}
    (hrun : (pullServiceSystem Thread Request).run state events = some next) (hfits : state.Fits) :
    ∃ actions, (retryQueueSystem Request).run state.view actions = some next.view :=
  @EventSystem.run_of_simulation _ _ (pullServiceSystem Thread Request) _ _
    (retryQueueSystem Request) view Fits
    (fun _ _ _ hstep hfits ↦ moves_fits (moves_of_step hstep) hfits)
    (fun _ _ _ hfits hstep ↦ moves_view (moves_of_step hstep) hfits) _ _ _ hrun hfits

theorem run_fits {events : List (PullServiceEvent Thread Request)}
    (hrun : (pullServiceSystem Thread Request).run state events = some next) (hfits : state.Fits) :
    next.Fits :=
  @EventSystem.run_invariant _ _ (pullServiceSystem Thread Request) Fits
    (fun _ _ _ hstep hfits ↦ moves_fits (moves_of_step hstep) hfits) _ _ _ hrun hfits

end PullMessageService

open PullMessageService

/-- In every run of the service: no operation needs an element that the list does not have, the
requests whose pulls have returned are the first ones submitted, in their order and each once, the
list holds all others in theirs, and every pull is for the first request whose pull has not
returned. -/
theorem pulls_in_order {Thread Request : Type*} [DecidableEq Thread]
    (events : List (PullServiceEvent Thread Request)) (state : PullMessageService Thread Request)
    (hrun : (pullServiceSystem Thread Request).run PullMessageService.initial events =
      some state) :
    state.place ≠ .damaged ∧
      (state.place ≠ .popFront →
        state.submitted = succeeded state.pulls ++ state.pullRequestQueue) ∧
      (state.place = .popFront →
        state.submitted = succeeded state.pulls ++ state.pullRequestQueue.tail) ∧
      ∀ before pull after, state.pulls = before ++ pull :: after →
        state.submitted[(succeeded before).length]? = some pull.1 := by
  obtain ⟨actions, hview⟩ := pullService_refines hrun fits_initial
  have horderly := RetryQueue.run_orderly hview RetryQueue.orderly_empty
  have hfits := run_fits hrun fits_initial
  refine ⟨fun hdamaged ↦ ?_, fun hother ↦ ?_, fun hpop ↦ ?_, horderly.first⟩
  · rw [Fits, hdamaged] at hfits
    exact hfits
  · have hsubmitted := horderly.submitted_eq
    rw [view] at hsubmitted
    cases hplace : state.place with
    | popFront => exact absurd hplace hother
    | _ => rwa [hplace] at hsubmitted
  · have hsubmitted := horderly.submitted_eq
    rwa [view, hpop] at hsubmitted

/-- Two threads submit a request each while the service waits. The first pull throws and is done
again, and the second request has been pulled but not yet taken off the list. -/
def pulledAgain : List (PullServiceEvent ℕ ℕ) :=
  List.replicate 3 (.run false) ++
    .executePullRequestImmediately 0 7 :: .executePullRequestImmediately 1 8 ::
    List.replicate 4 (.advance 0) ++ List.replicate 3 (.advance 1) ++
    List.replicate 3 (.run false) ++ .run true :: List.replicate 11 (.run false)

theorem pulls_in_order_pulledAgain :
    ∃ state, (pullServiceSystem ℕ ℕ).run PullMessageService.initial pulledAgain = some state ∧
      state.place ≠ .damaged ∧ state.pulls = [(7, false), (7, true), (8, true)] ∧
      state.pullRequestQueue = [8] ∧
      state.submitted = succeeded state.pulls ++ state.pullRequestQueue.tail ∧
      state.submitted[0]? = some 7 ∧ state.submitted[1]? = some 8 := by
  obtain ⟨state, hrun, hplace, hpulls, hqueue⟩ : ∃ state,
      (pullServiceSystem ℕ ℕ).run PullMessageService.initial pulledAgain = some state ∧
        state.place = .popFront ∧ state.pulls = [(7, false), (7, true), (8, true)] ∧
        state.pullRequestQueue = [8] := ⟨_, rfl, rfl, rfl, rfl⟩
  obtain ⟨hsafe, -, hpop, hfirst⟩ := pulls_in_order pulledAgain state hrun
  exact ⟨state, hrun, hsafe, hpulls, hqueue, hpop hplace,
    hfirst [(7, false)] (7, true) [(8, true)] hpulls,
    hfirst [(7, false), (7, true)] (8, true) [] hpulls⟩

end RocketMQClient.Consumer
