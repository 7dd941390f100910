import Mathlib.Algebra.Field.Rat
import Mathlib.Algebra.Order.Field.Basic
import Mathlib.Algebra.Order.Ring.Rat
import Mathlib.Data.Nat.Cast.Order.Ring

namespace Shares

/-!
# Shares of a list

How large a part of a list meets a condition, as a rational number:

* `share` — the number of elements that meet it, by the number of all;
* `share_nonneg` / `share_le_one` / `share_mono` — its bounds, and that a weaker condition has the
  larger share;
* `share_eq_one_iff` / `share_pos_iff` — all elements meet it, or some;
* `share_not` — the shares of a condition and its negation make up the whole.
-/

variable {α : Type*} {p q : α → Bool} {l : List α}

/-- The share of the elements that meet `p`. -/
def share (p : α → Bool) (l : List α) : ℚ := (l.filter p).length / l.length

theorem share_nonneg (p : α → Bool) (l : List α) : 0 ≤ share p l :=
  div_nonneg (Nat.cast_nonneg _) (Nat.cast_nonneg _)

theorem share_le_one (p : α → Bool) (l : List α) : share p l ≤ 1 :=
  div_le_one_of_le₀ (Nat.cast_le.mpr (List.length_filter_le p l)) (Nat.cast_nonneg _)

/-- A weaker condition has the larger share. -/
theorem share_mono (h : ∀ x ∈ l, p x = true → q x = true) : share p l ≤ share q l := by
  have hcount : (l.filter p).length ≤ (l.filter q).length := by
    rw [← List.countP_eq_length_filter, ← List.countP_eq_length_filter]
    exact List.countP_mono_left h
  exact div_le_div_of_nonneg_right (Nat.cast_le.mpr hcount) (Nat.cast_nonneg _)

theorem length_cast_pos (hl : l ≠ []) : (0 : ℚ) < l.length :=
  Nat.cast_pos.mpr (List.length_pos_iff.mpr hl)

/-- The whole list meets the condition. -/
theorem share_eq_one_iff (hl : l ≠ []) : share p l = 1 ↔ ∀ x ∈ l, p x = true := by
  unfold share
  rw [div_eq_one_iff_eq (length_cast_pos hl).ne', Nat.cast_inj, ← List.countP_eq_length_filter,
    List.countP_eq_length]

/-- Some element meets the condition. -/
theorem share_pos_iff : 0 < share p l ↔ ∃ x ∈ l, p x = true := by
  rw [← List.countP_pos_iff, List.countP_eq_length_filter]
  unfold share
  by_cases hl : l = []
  · subst hl
    simp
  · rw [div_pos_iff_of_pos_right (length_cast_pos hl), Nat.cast_pos]

/-- A condition and its negation make up the whole. -/
theorem share_not (hl : l ≠ []) : share (fun x => !p x) l = 1 - share p l := by
  have hneg : (fun x => !p x) = fun x => decide ¬p x = true := by
    funext x
    cases p x
    · rfl
    · rfl
  have hsum : (l.filter fun x => !p x).length + (l.filter p).length = l.length := by
    have hcount := List.length_eq_countP_add_countP p (l := l)
    rw [List.countP_eq_length_filter, List.countP_eq_length_filter, ← hneg] at hcount
    rw [hcount, Nat.add_comm]
  unfold share
  rw [eq_sub_iff_add_eq, ← add_div, ← Nat.cast_add, hsum, div_self (length_cast_pos hl).ne']

end Shares
