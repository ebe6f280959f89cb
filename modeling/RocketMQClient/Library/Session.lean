import Mathlib.Logic.Basic

/-!
# Sessions

A session is a sequential computation over a state that may throw an exception, which a caller can
catch, and may get stuck, which nobody can. The state keeps a history of what the environment was
asked and answered.

`Quiet` says that a session throws no exception and relates the states before and after, `Yields`
what it leaves when it returns and when it throws one, and `StuckExactly` that it gets stuck exactly
when it adds a bad entry to the history, as long as an invariant holds that the session keeps. Each
has a rule for every way in which sessions are put together.
-/

set_option autoImplicit false
set_option relaxedAutoImplicit false

namespace RocketMQClient.Library

/-- How a session ends. -/
inductive Outcome (Error Result : Type) where
  | ok (result : Result)
  | thrown (error : Error)
  | stuck
  deriving DecidableEq

theorem Outcome.ok_ne_stuck {Error Result : Type} (result : Result) :
    (.ok result : Outcome Error Result) ≠ .stuck := nofun

theorem Outcome.thrown_ne_stuck {Error Result : Type} (error : Error) :
    (.thrown error : Outcome Error Result) ≠ .stuck := nofun

theorem Outcome.ok_ne_thrown {Error Result : Type} (result : Result) (error : Error) :
    Outcome.ok result ≠ .thrown error := nofun

theorem Outcome.stuck_ne_thrown {Error Result : Type} (error : Error) :
    (.stuck : Outcome Error Result) ≠ .thrown error := nofun

/-- A sequential computation over a state. -/
def Session (State Error Result : Type) := State → Outcome Error Result × State

namespace Session

variable {State Error Result Next Item Entry : Type}

instance : Monad (Session State Error) where
  pure result := fun state ↦ (.ok result, state)
  bind first rest := fun state ↦
    match first state with
    | (.ok result, after) => rest result after
    | (.thrown error, after) => (.thrown error, after)
    | (.stuck, after) => (.stuck, after)

/-- Throws an exception. -/
def throw (error : Error) : Session State Error Result := fun state ↦ (.thrown error, state)

/-- Runs a session and handles an exception that it throws. -/
def tryCatch (body : Session State Error Result) (handler : Error → Session State Error Result) :
    Session State Error Result := fun state ↦
  match body state with
  | (.thrown error, after) => handler error after
  | other => other

/-- Reads from the state. -/
def read (view : State → Result) : Session State Error Result := fun state ↦
  (.ok (view state), state)

/-- Changes the state. -/
def modify (change : State → State) : Session State Error Unit := fun state ↦
  (.ok (), change state)

/-- Runs a session for one item after another, and threads a value through. -/
def forEach (items : List Item) (body : Result → Item → Session State Error Result)
    (start : Result) : Session State Error Result :=
  match items with
  | [] => pure start
  | item :: rest => do
    let next ← body start item
    forEach rest body next

theorem bind_def (first : Session State Error Result)
    (rest : Result → Session State Error Next) (state : State) :
    (first >>= rest) state = match first state with
      | (.ok result, after) => rest result after
      | (.thrown error, after) => (.thrown error, after)
      | (.stuck, after) => (.stuck, after) := rfl

theorem bind_read (view : State → Result) (rest : Result → Session State Error Next)
    (state : State) : (read view >>= rest) state = rest (view state) state := rfl

theorem bind_modify (change : State → State) (rest : Unit → Session State Error Next)
    (state : State) : (modify change >>= rest) state = rest () (change state) := rfl

theorem bind_ok {first : Session State Error Result} {rest : Result → Session State Error Next}
    {state after : State} {result : Result} (hfirst : first state = (.ok result, after)) :
    (first >>= rest) state = rest result after := by
  rw [bind_def, hfirst]

theorem bind_thrown {first : Session State Error Result}
    {rest : Result → Session State Error Next} {state after : State} {error : Error}
    (hfirst : first state = (.thrown error, after)) :
    (first >>= rest) state = (.thrown error, after) := by
  rw [bind_def, hfirst]

theorem bind_stuck {first : Session State Error Result}
    {rest : Result → Session State Error Next} {state after : State}
    (hfirst : first state = (.stuck, after)) : (first >>= rest) state = (.stuck, after) := by
  rw [bind_def, hfirst]

/-- A value returned at the end changes neither the state nor whether the session gets stuck. -/
theorem bind_pure_ne_stuck (first : Session State Error Result) (next : Result → Next)
    (state : State) :
    ((first >>= fun result ↦ pure (next result)) state).2 = (first state).2 ∧
      (((first >>= fun result ↦ pure (next result)) state).1 ≠ .stuck ↔
        (first state).1 ≠ .stuck) := by
  rcases hrun : first state with ⟨result | error | -, after⟩
  · rw [bind_ok hrun]
    exact ⟨rfl, fun _ ↦ Outcome.ok_ne_stuck _, fun _ ↦ Outcome.ok_ne_stuck _⟩
  · rw [bind_thrown hrun]
    exact ⟨rfl, fun _ ↦ Outcome.thrown_ne_stuck _, fun _ ↦ Outcome.thrown_ne_stuck _⟩
  · rw [bind_stuck hrun]
    exact ⟨rfl, fun hnot ↦ absurd rfl hnot, fun hnot ↦ absurd rfl hnot⟩

theorem tryCatch_ok {body : Session State Error Result}
    {handler : Error → Session State Error Result} {state after : State} {result : Result}
    (hbody : body state = (.ok result, after)) :
    tryCatch body handler state = (.ok result, after) := by
  rw [tryCatch, hbody]

theorem tryCatch_thrown {body : Session State Error Result}
    {handler : Error → Session State Error Result} {state after : State} {error : Error}
    (hbody : body state = (.thrown error, after)) :
    tryCatch body handler state = handler error after := by
  rw [tryCatch, hbody]

theorem tryCatch_stuck {body : Session State Error Result}
    {handler : Error → Session State Error Result} {state after : State}
    (hbody : body state = (.stuck, after)) :
    tryCatch body handler state = (.stuck, after) := by
  rw [tryCatch, hbody]

/-! ### Sessions without exceptions -/

/-- The session throws no exception, and the states before and after are related. -/
def Quiet (related : State → State → Prop) (session : Session State Error Result) : Prop :=
  ∀ state, related state (session state).2 ∧ ∀ error, (session state).1 ≠ .thrown error

namespace Quiet

variable {related : State → State → Prop}

theorem pure (hrefl : ∀ state, related state state) (result : Result) :
    Quiet related (pure result : Session State Error Result) :=
  fun state ↦ ⟨hrefl state, Outcome.ok_ne_thrown _⟩

theorem read (hrefl : ∀ state, related state state) (view : State → Result) :
    Quiet related (read view : Session State Error Result) :=
  fun state ↦ ⟨hrefl state, Outcome.ok_ne_thrown _⟩

theorem modify {change : State → State} (hchange : ∀ state, related state (change state)) :
    Quiet related (modify change : Session State Error Unit) :=
  fun state ↦ ⟨hchange state, Outcome.ok_ne_thrown _⟩

theorem bind (htrans : ∀ first second third, related first second → related second third →
      related first third) {first : Session State Error Result}
    {rest : Result → Session State Error Next} (hfirst : Quiet related first)
    (hrest : ∀ result, Quiet related (rest result)) : Quiet related (first >>= rest) := by
  intro state
  obtain ⟨hbefore, hthrown⟩ := hfirst state
  rcases hrun : first state with ⟨result | error | -, after⟩
  · rw [hrun] at hbefore
    rw [bind_ok hrun]
    obtain ⟨hafter, hthrownAfter⟩ := hrest result after
    exact ⟨htrans _ _ _ hbefore hafter, hthrownAfter⟩
  · rw [hrun] at hthrown
    exact absurd rfl (hthrown error)
  · rw [hrun] at hbefore
    rw [bind_stuck hrun]
    exact ⟨hbefore, Outcome.stuck_ne_thrown⟩

theorem ite {condition : Prop} [Decidable condition] {first second : Session State Error Result}
    (hfirst : condition → Quiet related first) (hsecond : ¬ condition → Quiet related second) :
    Quiet related (if condition then first else second) := by
  by_cases hcondition : condition
  · rw [if_pos hcondition]
    exact hfirst hcondition
  · rw [if_neg hcondition]
    exact hsecond hcondition

end Quiet

/-! ### Getting stuck -/

/-- From a state with the invariant, the session keeps the invariant, only adds to the history, and
gets stuck exactly when it adds an entry that is not good. -/
def StuckExactly (invariant : State → Prop) (history : State → List Entry) (good : Entry → Prop)
    (session : Session State Error Result) : Prop :=
  ∀ state, invariant state → invariant (session state).2 ∧
    ∃ added, history (session state).2 = history state ++ added ∧
      ((session state).1 ≠ .stuck ↔ ∀ entry ∈ added, good entry)

namespace StuckExactly

variable {invariant : State → Prop} {history : State → List Entry} {good : Entry → Prop}

/-- A session that adds nothing to the history and does not get stuck. -/
theorem of_quiet {session : Session State Error Result}
    (hquiet : ∀ state, invariant state → invariant (session state).2 ∧
      history (session state).2 = history state ∧ (session state).1 ≠ .stuck) :
    StuckExactly invariant history good session := by
  intro state hstate
  obtain ⟨hafter, hhistory, houtcome⟩ := hquiet state hstate
  refine ⟨hafter, [], by rw [hhistory, List.append_nil], ?_⟩
  exact ⟨fun _ entry hentry ↦ absurd hentry List.not_mem_nil, fun _ ↦ houtcome⟩

theorem pure (result : Result) :
    StuckExactly invariant history good (pure result : Session State Error Result) :=
  of_quiet fun _ hstate ↦ ⟨hstate, rfl, Outcome.ok_ne_stuck _⟩

theorem throw (error : Error) :
    StuckExactly invariant history good (throw error : Session State Error Result) :=
  of_quiet fun _ hstate ↦ ⟨hstate, rfl, Outcome.thrown_ne_stuck _⟩

theorem read (view : State → Result) :
    StuckExactly invariant history good (read view : Session State Error Result) :=
  of_quiet fun _ hstate ↦ ⟨hstate, rfl, Outcome.ok_ne_stuck _⟩

/-- A change of the state that keeps the invariant and the history. -/
theorem modify {change : State → State} (hinvariant : ∀ state, invariant state →
      invariant (change state)) (hhistory : ∀ state, history (change state) = history state) :
    StuckExactly invariant history good (modify change : Session State Error Unit) :=
  of_quiet fun state hstate ↦ ⟨hinvariant state hstate, hhistory state, Outcome.ok_ne_stuck _⟩

theorem bind {first : Session State Error Result} {rest : Result → Session State Error Next}
    (hfirst : StuckExactly invariant history good first)
    (hrest : ∀ result, StuckExactly invariant history good (rest result)) :
    StuckExactly invariant history good (first >>= rest) := by
  intro state hstate
  obtain ⟨hmiddle, added, hadded, hstuck⟩ := hfirst state hstate
  rcases hrun : first state with ⟨result | error | -, after⟩
  · rw [hrun] at hmiddle hadded hstuck
    obtain ⟨hlast, more, hmore, hstuckRest⟩ := hrest result after hmiddle
    rw [bind_ok hrun]
    refine ⟨hlast, added ++ more, by rw [hmore, hadded, List.append_assoc], ?_⟩
    have hgood := hstuck.mp (Outcome.ok_ne_stuck result)
    rw [hstuckRest, List.forall_mem_append]
    exact ⟨fun hmoreGood ↦ ⟨hgood, hmoreGood⟩, And.right⟩
  · rw [hrun] at hmiddle hadded hstuck
    rw [bind_thrown hrun]
    refine ⟨hmiddle, added, hadded, ?_⟩
    exact ⟨fun _ ↦ hstuck.mp (Outcome.thrown_ne_stuck error),
      fun _ ↦ Outcome.thrown_ne_stuck error⟩
  · rw [hrun] at hmiddle hadded hstuck
    rw [bind_stuck hrun]
    refine ⟨hmiddle, added, hadded, ?_⟩
    exact ⟨fun hnot ↦ absurd rfl hnot, fun hgood ↦ absurd rfl (hstuck.mpr hgood)⟩

theorem tryCatch {body : Session State Error Result}
    {handler : Error → Session State Error Result}
    (hbody : StuckExactly invariant history good body)
    (hhandler : ∀ error, StuckExactly invariant history good (handler error)) :
    StuckExactly invariant history good (tryCatch body handler) := by
  intro state hstate
  obtain ⟨hmiddle, added, hadded, hstuck⟩ := hbody state hstate
  rcases hrun : body state with ⟨result | error | -, after⟩
  · rw [hrun] at hmiddle hadded hstuck
    rw [tryCatch_ok hrun]
    exact ⟨hmiddle, added, hadded, hstuck⟩
  · rw [hrun] at hmiddle hadded hstuck
    obtain ⟨hlast, more, hmore, hstuckRest⟩ := hhandler error after hmiddle
    rw [tryCatch_thrown hrun]
    refine ⟨hlast, added ++ more, by rw [hmore, hadded, List.append_assoc], ?_⟩
    have hgood := hstuck.mp (Outcome.thrown_ne_stuck error)
    rw [hstuckRest, List.forall_mem_append]
    exact ⟨fun hmoreGood ↦ ⟨hgood, hmoreGood⟩, And.right⟩
  · rw [hrun] at hmiddle hadded hstuck
    rw [tryCatch_stuck hrun]
    exact ⟨hmiddle, added, hadded, hstuck⟩

theorem forEach {items : List Item} {body : Result → Item → Session State Error Result}
    (hbody : ∀ value item, StuckExactly invariant history good (body value item))
    (start : Result) : StuckExactly invariant history good (forEach items body start) := by
  induction items generalizing start with
  | nil => exact pure start
  | cons item rest ih => exact bind (hbody start item) fun next ↦ ih next

theorem ite {condition : Prop} [Decidable condition] {first second : Session State Error Result}
    (hfirst : condition → StuckExactly invariant history good first)
    (hsecond : ¬ condition → StuckExactly invariant history good second) :
    StuckExactly invariant history good (if condition then first else second) := by
  by_cases hcondition : condition
  · rw [if_pos hcondition]
    exact hfirst hcondition
  · rw [if_neg hcondition]
    exact hsecond hcondition

end StuckExactly

/-! ### What a session yields -/

/-- From a state the session returns and leaves `after`, or throws an exception and leaves
`failed`. -/
def Yields (session : Session State Error Result) (state : State) (after : Result → State → Prop)
    (failed : State → Prop) : Prop :=
  match session state with
  | (.ok result, next) => after result next
  | (.thrown _, next) => failed next
  | (.stuck, _) => False

namespace Yields

variable {state : State} {failed : State → Prop}

theorem pure {after : Result → State → Prop} {result : Result} (hafter : after result state) :
    Yields (Pure.pure result : Session State Error Result) state after failed := hafter

theorem throw {after : Result → State → Prop} {error : Error} (hfailed : failed state) :
    Yields (Session.throw error : Session State Error Result) state after failed := hfailed

theorem bind {first : Session State Error Result} {rest : Result → Session State Error Next}
    {after : Next → State → Prop}
    (hfirst : Yields first state (fun result next ↦ Yields (rest result) next after failed)
      failed) : Yields (first >>= rest) state after failed := by
  unfold Yields at hfirst ⊢
  rw [bind_def]
  rcases hrun : first state with ⟨result | error | -, next⟩
  · rw [hrun] at hfirst
    exact hfirst
  · rw [hrun] at hfirst
    exact hfirst
  · rw [hrun] at hfirst
    exact hfirst.elim

theorem read {view : State → Result} {rest : Result → Session State Error Next}
    {after : Next → State → Prop} (hrest : Yields (rest (view state)) state after failed) :
    Yields (Session.read view >>= rest) state after failed := hrest

theorem modify {change : State → State} {rest : Unit → Session State Error Next}
    {after : Next → State → Prop} (hrest : Yields (rest ()) (change state) after failed) :
    Yields (Session.modify change >>= rest) state after failed := hrest

theorem mono {session : Session State Error Result} {after after' : Result → State → Prop}
    {failed' : State → Prop} (hyields : Yields session state after failed)
    (hafter : ∀ result next, after result next → after' result next)
    (hfailed : ∀ next, failed next → failed' next) : Yields session state after' failed' := by
  unfold Yields at hyields ⊢
  rcases hrun : session state with ⟨result | error | -, next⟩
  · rw [hrun] at hyields
    exact hafter result next hyields
  · rw [hrun] at hyields
    exact hfailed next hyields
  · rw [hrun] at hyields
    exact hyields

/-- However the session ends. -/
theorem final {session : Session State Error Result} {after : State → Prop}
    (hyields : Yields session state (fun _ next ↦ after next) after) :
    after (session state).2 := by
  unfold Yields at hyields
  rcases hrun : session state with ⟨result | error | -, next⟩ <;> rw [hrun] at hyields
  · exact hyields
  · exact hyields
  · exact hyields.elim

end Yields

end Session

end RocketMQClient.Library
