import Mathlib.Logic.Basic

/-!
# Computations that may fail

`Succeeds` says that a computation in `Except` returns a result. A sequence of steps succeeds when
each step does (`succeeds_bind`), and for a step whose success does not depend on the results before
it this is a condition of its own (`succeeds_bind_iff`). Converting the errors of a computation does
not change when it succeeds (`succeeds_mapError`).
-/

set_option autoImplicit false
set_option relaxedAutoImplicit false

namespace RocketMQClient.Library

variable {Error Failure Result Next : Type}

/-- A computation that does not fail. -/
def Succeeds (run : Except Error Result) : Prop := ∃ result, run = .ok result

@[simp] theorem succeeds_ok (result : Result) : Succeeds (.ok result : Except Error Result) :=
  ⟨result, rfl⟩

@[simp] theorem succeeds_pure (result : Result) : Succeeds (pure result : Except Error Result) :=
  ⟨result, rfl⟩

@[simp] theorem not_succeeds_error (error : Error) :
    ¬ Succeeds (.error error : Except Error Result) := fun ⟨_, hresult⟩ ↦ by simp at hresult

@[simp] theorem mapError_eq_ok_iff {run : Except Error Result} {convert : Error → Failure}
    {result : Result} : run.mapError convert = .ok result ↔ run = .ok result := by
  cases run with
  | error error => exact ⟨nofun, nofun⟩
  | ok other =>
    constructor
    · rintro ⟨⟩
      rfl
    · rintro ⟨⟩
      rfl

@[simp] theorem succeeds_mapError {run : Except Error Result} {convert : Error → Failure} :
    Succeeds (run.mapError convert) ↔ Succeeds run :=
  exists_congr fun _ ↦ mapError_eq_ok_iff

/-- What follows a step that succeeds. -/
theorem succeeds_bind_of_ok {run : Except Error Result} {next : Result → Except Error Next}
    {result : Result} (hrun : run = .ok result) :
    Succeeds (run >>= next) ↔ Succeeds (next result) := by
  rw [hrun]
  rfl

/-- The result of two steps. -/
theorem bind_eq_ok_iff {run : Except Error Result} {next : Result → Except Error Next}
    {last : Next} :
    (run >>= next) = .ok last ↔ ∃ result, run = .ok result ∧ next result = .ok last := by
  cases run with
  | error error => simp [bind, Except.bind]
  | ok result => simp [bind, Except.bind]

/-- Two steps. -/
theorem succeeds_bind {run : Except Error Result} {next : Result → Except Error Next} :
    Succeeds (run >>= next) ↔ ∃ result, run = .ok result ∧ Succeeds (next result) := by
  constructor
  · rintro ⟨last, hlast⟩
    obtain ⟨result, hresult, hnext⟩ := bind_eq_ok_iff.mp hlast
    exact ⟨result, hresult, last, hnext⟩
  · rintro ⟨result, hresult, last, hnext⟩
    exact ⟨last, bind_eq_ok_iff.mpr ⟨result, hresult, hnext⟩⟩

theorem succeeds_of_bind {run : Except Error Result} {next : Result → Except Error Next}
    (hrun : Succeeds (run >>= next)) : Succeeds run := by
  obtain ⟨result, hresult, -⟩ := succeeds_bind.mp hrun
  exact ⟨result, hresult⟩

/-- Two steps, if the success of the second does not depend on the result of the first. -/
theorem succeeds_bind_iff {run : Except Error Result} {next : Result → Except Error Next}
    {condition : Prop} (hnext : ∀ result, Succeeds (next result) ↔ condition) :
    Succeeds (run >>= next) ↔ Succeeds run ∧ condition := by
  cases run with
  | error error => exact iff_of_false (not_succeeds_error error) fun hboth ↦
      not_succeeds_error error hboth.1
  | ok result => exact (hnext result).trans (and_iff_right (succeeds_ok result)).symm

/-- A last step that only makes up the result. -/
@[simp] theorem succeeds_bind_pure {run : Except Error Result} {result : Result → Next} :
    (Succeeds do return result (← run)) ↔ Succeeds run :=
  (succeeds_bind_iff fun _ ↦ iff_true_intro (succeeds_pure _)).trans (and_iff_left trivial)

/-- What a run over a list gives comes from the values of the list. -/
theorem exists_of_mem_mapM {Value : Type} {run : Value → Except Error Result} {values : List Value}
    {results : List Result} (hrun : values.mapM run = .ok results) {result : Result}
    (hresult : result ∈ results) : ∃ value ∈ values, run value = .ok result := by
  induction values generalizing results with
  | nil =>
    obtain rfl := Except.ok.inj hrun
    exact absurd hresult List.not_mem_nil
  | cons value rest ih =>
    rw [List.mapM_cons] at hrun
    obtain ⟨first, hfirst, hrun⟩ := bind_eq_ok_iff.mp hrun
    obtain ⟨others, hothers, hrun⟩ := bind_eq_ok_iff.mp hrun
    obtain rfl := Except.ok.inj hrun
    rcases List.mem_cons.mp hresult with rfl | hrest
    · exact ⟨value, List.mem_cons_self, hfirst⟩
    · obtain ⟨found, hfound, heq⟩ := ih hothers hrest
      exact ⟨found, List.mem_cons_of_mem value hfound, heq⟩

end RocketMQClient.Library
