import Mathlib.Logic.Function.Basic
import Mathlib.Order.Bounds.Basic
import RocketMQClient.Library.EventSystem

/-!
# A cell that is raised

Callers raise a cell of an ordered type, each of them once and to a value of its own. To raise the
cell to a value that is not larger leaves it as it is; the result says which of the two it was.

The cell only grows (`RaisedCell.le_of_run`), and it holds the greatest of its first value and the
values of the callers so far (`RaisedCell.isGreatest_of_run`), in whatever order they came.
-/

set_option autoImplicit false
set_option relaxedAutoImplicit false

namespace RocketMQClient.Library

/-- A cell, and the results of the callers that have raised it. -/
structure RaisedCell (Caller Value : Type*) where
  value : Value
  results : Caller → Option Bool

namespace RaisedCell

variable {Caller Value : Type*}

/-- The values that have gone into a cell. -/
def inputs (values : Caller → Value) (first : Value) (cell : RaisedCell Caller Value) :
    Set Value :=
  insert first (values '' {caller | cell.results caller ≠ none})

variable [DecidableEq Caller] [LinearOrder Value]

/-- A caller raises the cell, unless it has done so already. -/
def raise (values : Caller → Value) (cell : RaisedCell Caller Value) (caller : Caller) :
    Option (RaisedCell Caller Value) :=
  match cell.results caller with
  | none =>
    some ⟨max cell.value (values caller),
      Function.update cell.results caller (some (decide (cell.value < values caller)))⟩
  | some _ => none

end RaisedCell

/-- A cell and its callers. -/
def raisingSystem {Caller Value : Type*} [DecidableEq Caller] [LinearOrder Value]
    (values : Caller → Value) : EventSystem (RaisedCell Caller Value) Caller where
  step := RaisedCell.raise values

namespace RaisedCell

variable {Caller Value : Type*} [DecidableEq Caller] [LinearOrder Value] {values : Caller → Value}
  {cell next last : RaisedCell Caller Value} {caller : Caller} {callers : List Caller}

theorem raise_eq_some (hraise : cell.raise values caller = some next) :
    cell.results caller = none ∧ next =
      ⟨max cell.value (values caller),
        Function.update cell.results caller (some (decide (cell.value < values caller)))⟩ := by
  unfold raise at hraise
  cases hresult : cell.results caller with
  | none =>
    rw [hresult] at hraise
    exact ⟨rfl, (Option.some.inj hraise).symm⟩
  | some result =>
    rw [hresult] at hraise
    exact absurd hraise.symm (Option.some_ne_none next)

/-- The cell only grows. -/
theorem le_of_run (hrun : (raisingSystem values).run cell callers = some last) :
    cell.value ≤ last.value := by
  refine @EventSystem.run_relation _ _ (raisingSystem values)
    (fun earlier later ↦ earlier.value ≤ later.value) (fun _ ↦ le_rfl)
    (fun _ _ _ hfirst hsecond ↦ hfirst.trans hsecond) (fun earlier caller later hraise ↦ ?_) _ _ _
    hrun
  obtain ⟨-, rfl⟩ := raise_eq_some hraise
  exact le_max_left _ _

/-- One more value has gone into a cell that is raised. -/
theorem inputs_raise {first : Value} (hraise : cell.raise values caller = some next) :
    next.inputs values first = insert (values caller) (cell.inputs values first) := by
  obtain ⟨-, rfl⟩ := raise_eq_some hraise
  have hresults : {other | Function.update cell.results caller
      (some (decide (cell.value < values caller))) other ≠ none} =
        insert caller {other | cell.results other ≠ none} := by
    ext other
    by_cases hother : other = caller
    · simp [hother]
    · simp [hother]
  rw [inputs, inputs, hresults, Set.image_insert_eq, Set.insert_comm]

/-- The cell holds the greatest of the values that have gone into it. -/
theorem isGreatest_of_run {first : Value}
    (hrun : (raisingSystem values).run cell callers = some last)
    (hcell : IsGreatest (cell.inputs values first) cell.value) :
    IsGreatest (last.inputs values first) last.value := by
  refine @EventSystem.run_invariant _ _ (raisingSystem values)
    (fun state ↦ IsGreatest (state.inputs values first) state.value)
    (fun state caller next hraise hgreatest ↦ ?_) _ _ _ hrun hcell
  rw [inputs_raise hraise]
  obtain ⟨-, rfl⟩ := raise_eq_some hraise
  rw [max_comm]
  exact hgreatest.insert (values caller)

end RaisedCell

end RocketMQClient.Library
