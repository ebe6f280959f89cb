import Mathlib.Data.List.Perm.Basic

/-!
# Token custody

Work that is handed from place to place is carried by tokens, and each token belongs to an owner.
The places together are a list with one owner for each token. `OneEach` says that every active owner
has exactly one token in it. A token may move (`OneEach.move`), be thrown away once its owner is no
longer active (`OneEach.discard`), and be issued for an owner that had none (`OneEach.issue`).
-/

set_option autoImplicit false
set_option relaxedAutoImplicit false

namespace RocketMQClient.Library

variable {Owner : Type*} [DecidableEq Owner]

/-- Every active owner has exactly one token. -/
def OneEach (active : Owner → Prop) (tokens : List Owner) : Prop :=
  ∀ owner, active owner → tokens.count owner = 1

namespace OneEach

variable {active active' : Owner → Prop} {tokens tokens' : List Owner}

/-- Moving tokens and ending the activity of owners. -/
theorem move (hone : OneEach active tokens) (hactive : ∀ owner, active' owner → active owner)
    (hmove : tokens'.Perm tokens) : OneEach active' tokens' := by
  intro owner howner
  rw [hmove.count_eq]
  exact hone owner (hactive owner howner)

/-- Throwing away the token of an owner that is not active. -/
theorem discard {gone : Owner} (hone : OneEach active tokens)
    (hactive : ∀ owner, active' owner → active owner) (hgone : ¬ active' gone)
    (hdiscard : tokens.Perm (gone :: tokens')) : OneEach active' tokens' := by
  intro owner howner
  have hne : gone ≠ owner := fun heq ↦ hgone (heq ▸ howner)
  have hcount := hone owner (hactive owner howner)
  rwa [hdiscard.count_eq, List.count_cons_of_ne hne] at hcount

/-- Issuing the first token of an owner. -/
theorem issue {fresh : Owner} (hone : OneEach active tokens) (hfresh : fresh ∉ tokens)
    (hactive : ∀ owner, active' owner → owner = fresh ∨ active owner)
    (hissue : tokens'.Perm (fresh :: tokens)) : OneEach active' tokens' := by
  intro owner howner
  rw [hissue.count_eq]
  by_cases heq : owner = fresh
  · rw [heq, List.count_cons_self, List.count_eq_zero.mpr hfresh]
  · rw [List.count_cons_of_ne fun h ↦ heq h.symm]
    exact hone owner ((hactive owner howner).resolve_left heq)

end OneEach

end RocketMQClient.Library
