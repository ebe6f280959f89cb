import Mathlib.Data.List.Basic

/-!
# Streams of frames

A sender writes frames one after another, and a receiver has read some number of bytes of their
concatenation. `completeFrames` are the frames that lie entirely within the bytes read. They are the
first frames of the stream (`completeFrames_isPrefix`), reading on only adds frames behind them
(`completeFrames_add`), and after reading everything they are all frames (`completeFrames_all`).
-/

set_option autoImplicit false
set_option relaxedAutoImplicit false

namespace RocketMQClient.Library

variable {α : Type*}

/-- The frames that lie within the first `count` elements of their concatenation. -/
def completeFrames : List (List α) → ℕ → List (List α)
  | [], _ => []
  | frame :: rest, count =>
    if frame.length ≤ count then frame :: completeFrames rest (count - frame.length) else []

/-- The complete frames are the first frames. -/
theorem completeFrames_isPrefix (frames : List (List α)) (count : ℕ) :
    completeFrames frames count <+: frames := by
  induction frames generalizing count with
  | nil => exact List.nil_prefix
  | cons frame rest ih =>
    rw [completeFrames]
    split_ifs
    · exact List.cons_prefix_cons.mpr ⟨rfl, ih _⟩
    · exact List.nil_prefix

/-- The complete frames fit into the elements read. -/
theorem length_flatten_completeFrames (frames : List (List α)) (count : ℕ) :
    (completeFrames frames count).flatten.length ≤ count := by
  induction frames generalizing count with
  | nil => exact Nat.zero_le count
  | cons frame rest ih =>
    rw [completeFrames]
    split_ifs with hfits
    · rw [List.flatten_cons, List.length_append]
      have := ih (count - frame.length)
      omega
    · exact Nat.zero_le count

/-- Reading on keeps the complete frames and adds those that the elements after them complete. -/
theorem completeFrames_add (frames : List (List α)) (count more : ℕ) :
    completeFrames frames (count + more) =
      completeFrames frames count ++
        completeFrames (frames.drop (completeFrames frames count).length)
          (count + more - (completeFrames frames count).flatten.length) := by
  induction frames generalizing count with
  | nil => rfl
  | cons frame rest ih =>
    by_cases hfits : frame.length ≤ count
    · have hrest := ih (count - frame.length)
      have hsum : count - frame.length + more = count + more - frame.length := by omega
      rw [hsum] at hrest
      rw [completeFrames, if_pos (by omega), completeFrames, if_pos hfits, hrest, List.cons_append,
        List.length_cons, List.drop_succ_cons, List.flatten_cons, List.length_append,
        Nat.sub_sub]
    · rw [completeFrames.eq_def (frame :: rest) count]
      dsimp only
      rw [if_neg hfits]
      rfl

/-- After the whole stream every frame is complete. -/
theorem completeFrames_all (frames : List (List α)) :
    completeFrames frames frames.flatten.length = frames := by
  induction frames with
  | nil => rfl
  | cons frame rest ih =>
    rw [completeFrames, List.flatten_cons, List.length_append, if_pos (Nat.le_add_right _ _),
      Nat.add_sub_cancel_left, ih]

/-- Nothing is complete before the end of the first frame. -/
theorem completeFrames_eq_nil {frames : List (List α)} {count : ℕ}
    (hshort : ∀ frame rest, frames = frame :: rest → count < frame.length) :
    completeFrames frames count = [] := by
  cases frames with
  | nil => rfl
  | cons frame rest => rw [completeFrames, if_neg (Nat.not_le.mpr (hshort frame rest rfl))]

end RocketMQClient.Library
