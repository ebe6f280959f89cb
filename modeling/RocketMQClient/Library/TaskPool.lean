import Mathlib.Data.List.Perm.Basic

/-!
# Pools of tasks

Tasks that run in threads, wait in an executor or wait in a timer are the elements of one list, each
given by the phase it is in. A step moves one task to its next phase and appends the tasks that it
submits; a task that has ended stays in the list in a last phase, so that its index names it for
good. `countP_advanceTask` is the balance of a step for any kind of tasks, `two_le_countP` says that
two different tasks of a kind count twice, and `flatMap_advanceTask_perm` is the balance of what the
tasks hold. `getElem?_set_cases` and `getElem?_concat_cases` say what an index names after a write
and after an append.
-/

set_option autoImplicit false
set_option relaxedAutoImplicit false

namespace RocketMQClient.Library

variable {Phase : Type*}

/-- A task moves to its next phase and submits further tasks. -/
def advanceTask (pool : List Phase) (index : ℕ) (next : Phase) (submitted : List Phase) :
    List Phase :=
  pool.set index next ++ submitted

variable {pool submitted : List Phase} {index : ℕ} {phase next found : Phase}

/-- A task after a step was there before, is the one that moved, or has been submitted. -/
theorem mem_advanceTask (hfound : found ∈ advanceTask pool index next submitted) :
    found ∈ pool ∨ found = next ∨ found ∈ submitted := by
  rcases List.mem_append.mp hfound with hset | hsubmitted
  · exact (List.mem_or_eq_of_mem_set hset).imp_right Or.inl
  · exact Or.inr (Or.inr hsubmitted)

/-- What an index names after a task has been overwritten. -/
theorem getElem?_set_cases {other : ℕ} (hget : pool[index]? = some phase)
    (hfound : (pool.set index next)[other]? = some found) :
    other = index ∧ found = next ∨ other ≠ index ∧ pool[other]? = some found := by
  by_cases hsame : other = index
  · subst hsame
    rw [List.getElem?_set_self (List.getElem?_eq_some_iff.mp hget).1] at hfound
    exact Or.inl ⟨rfl, (Option.some.inj hfound).symm⟩
  · rw [List.getElem?_set_ne (Ne.symm hsame)] at hfound
    exact Or.inr ⟨hsame, hfound⟩

/-- What an index names after a task has been appended. -/
theorem getElem?_concat_cases (hfound : (pool ++ [next])[index]? = some found) :
    pool[index]? = some found ∨ index = pool.length ∧ found = next := by
  rw [List.getElem?_append] at hfound
  split at hfound
  · exact Or.inl hfound
  · rename_i hge
    rw [List.getElem?_singleton] at hfound
    split at hfound
    · exact Or.inr ⟨by omega, (Option.some.inj hfound).symm⟩
    · exact absurd hfound (Option.some_ne_none found).symm

/-- What a step does to the number of tasks of a kind. -/
theorem countP_advanceTask (kind : Phase → Bool) (next : Phase) (submitted : List Phase)
    (hget : pool[index]? = some phase) :
    (advanceTask pool index next submitted).countP kind + (kind phase).toNat =
      pool.countP kind + (kind next).toNat + submitted.countP kind := by
  obtain ⟨hlt, hphase⟩ := List.getElem?_eq_some_iff.mp hget
  have htoNat : ∀ task, (if kind task then 1 else 0) = (kind task).toNat :=
    fun task ↦ by cases kind task <;> rfl
  have hle : (kind phase).toNat ≤ pool.countP kind := by
    cases hkind : kind phase with
    | false => exact Nat.zero_le _
    | true => exact List.countP_pos_iff.mpr ⟨phase, List.mem_of_getElem? hget, hkind⟩
  rw [advanceTask, List.countP_append, List.countP_set hlt, hphase, htoNat, htoNat]
  omega

/-- Two different tasks of a kind. -/
theorem two_le_countP {kind : Phase → Bool} (hget : pool[index]? = some phase)
    (hphase : kind phase = true) (hfound : found ∈ pool) (hkind : kind found = true)
    (hne : found ≠ phase) : 2 ≤ pool.countP kind := by
  induction pool generalizing index with
  | nil => exact absurd hfound List.not_mem_nil
  | cons head rest ih =>
    rw [List.countP_cons]
    cases index with
    | zero =>
      obtain rfl := Option.some.inj hget
      have hrest := (List.mem_cons.mp hfound).resolve_left hne
      have hpos : 0 < rest.countP kind := List.countP_pos_iff.mpr ⟨found, hrest, hkind⟩
      rw [if_pos hphase]
      omega
    | succ index =>
      have hrest : rest[index]? = some phase := hget
      rcases List.mem_cons.mp hfound with rfl | hmem
      · have hpos : 0 < rest.countP kind :=
          List.countP_pos_iff.mpr ⟨phase, List.mem_of_getElem? hrest, hphase⟩
        rw [if_pos hkind]
        omega
      · have := ih hrest hmem
        omega

/-- What a step does to what the tasks hold: some tasks stay as they are. -/
theorem flatMap_advanceTask_perm {Item : Type*} (held : Phase → List Item) (next : Phase)
    (submitted : List Phase) (hget : pool[index]? = some phase) :
    ∃ others, (pool.flatMap held).Perm (held phase ++ others) ∧
      ((advanceTask pool index next submitted).flatMap held).Perm
        (held next ++ submitted.flatMap held ++ others) := by
  obtain ⟨hlt, rfl⟩ := List.getElem?_eq_some_iff.mp hget
  refine ⟨(pool.eraseIdx index).flatMap held, ?_, ?_⟩
  · exact (List.getElem_cons_eraseIdx_perm hlt).symm.flatMap_right held
  · have hset := (List.set_perm_cons_eraseIdx hlt next).flatMap_right held
    rw [List.flatMap_cons] at hset
    rw [advanceTask, List.flatMap_append]
    refine (hset.append_right _).trans ?_
    rw [List.append_assoc, List.append_assoc]
    exact List.perm_append_comm.append_left _

end RocketMQClient.Library
