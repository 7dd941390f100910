import Mathlib.Data.List.Perm.Basic

namespace Draining

/-!
# Draining a collection

As long as a condition on what is left is met, the first element in an order is taken out:

* `leftAt` — what is left where an element is the next one;
* `Drained` — the condition is met at every stage up to the one of an element;
* `drained_iff_of_first` / `not_drained` — one stage: where the condition is met, the first element
  is drained, and the others are if they are of the rest; where it is not, no element is.

Collections are lists up to permutation.
-/

variable {α : Type*} (r : α → α → Prop) [DecidableRel r]

/-- What is left where `x` is the next element: the elements that do not come before it. -/
def leftAt (l : List α) (x : α) : List α := l.filter fun y => ¬ r y x

/-- The condition is met at every stage up to the one of `x`. -/
def Drained (P : List α → Prop) (l : List α) (x : α) : Prop :=
  ∀ y ∈ l, y = x ∨ r y x → P (leftAt r l y)

instance [DecidableEq α] (P : List α → Prop) [DecidablePred P] (l : List α) (x : α) :
    Decidable (Drained r P l x) :=
  inferInstanceAs (Decidable (∀ y ∈ l, _))

variable {r} {P : List α → Prop} {l l' : List α} {m x y : α}

/-- Where nothing comes before it, everything is left. -/
theorem leftAt_of_forall (h : ∀ y ∈ l, ¬ r y x) : leftAt r l x = l := by
  unfold leftAt
  rw [List.filter_eq_self]
  intro y hy
  exact decide_eq_true (h y hy)

/-- At a later stage, the first element is gone. -/
theorem leftAt_perm (hperm : l.Perm (m :: l')) (hm : r m x) :
    (leftAt r l x).Perm (leftAt r l' x) := by
  have hfilter := hperm.filter fun y => ¬ r y x
  rwa [List.filter_cons_of_neg (by simpa using hm)] at hfilter

/-- **One stage.**  Where the condition is met, the first element is drained, and another one is if
    and only if it is drained of the rest. -/
theorem drained_iff_of_first (hP : ∀ l l', l.Perm l' → (P l ↔ P l'))
    (hasymm : ∀ y z, r y z → ¬ r z y) (hperm : l.Perm (m :: l')) (hfirst : ∀ y ∈ l', r m y)
    (hl : P l) (hx : x ∈ l) : Drained r P l x ↔ x = m ∨ Drained r P l' x := by
  have hnone : ∀ y ∈ l, ¬ r y m := by
    intro y hy
    rcases List.mem_cons.mp (hperm.mem_iff.mp hy) with rfl | hy
    · exact fun hyy => hasymm y y hyy hyy
    · exact hasymm m y (hfirst y hy)
  have hm : P (leftAt r l m) := by rwa [leftAt_of_forall hnone]
  constructor
  · -- what is left at a later stage is the same of the rest
    intro hdrained
    rcases List.mem_cons.mp (hperm.mem_iff.mp hx) with rfl | hx
    · exact .inl rfl
    · right
      intro y hy hyx
      rw [← hP _ _ (leftAt_perm hperm (hfirst y hy))]
      exact hdrained y (hperm.mem_iff.mpr (List.mem_cons_of_mem _ hy)) hyx
  · intro hdrained y hy hyx
    rcases List.mem_cons.mp (hperm.mem_iff.mp hy) with rfl | hy
    · exact hm
    · rw [hP _ _ (leftAt_perm hperm (hfirst y hy))]
      rcases hdrained with rfl | hdrained
      · -- nothing comes up to the first element but itself
        rcases hyx with rfl | hyx
        · exact absurd (hfirst y hy) (hasymm y y (hfirst y hy))
        · exact absurd hyx (hnone y (hperm.mem_iff.mpr (List.mem_cons_of_mem _ hy)))
      · exact hdrained y hy hyx

/-- Where the condition is not met at the first stage, no element is drained. -/
theorem not_drained (hasymm : ∀ y z, r y z → ¬ r z y) (hm : m ∈ l)
    (hfirst : ∀ y ∈ l, y = m ∨ r m y) (hl : ¬ P l) (hx : x ∈ l) : ¬ Drained r P l x := by
  intro hdrained
  have hnone : ∀ y ∈ l, ¬ r y m := by
    intro y hy
    rcases hfirst y hy with rfl | hmy
    · exact fun hyy => hasymm y y hyy hyy
    · exact hasymm m y hmy
  -- the first stage is one on the way to every element
  have hall := hdrained m hm ((hfirst x hx).imp_left Eq.symm)
  rw [leftAt_of_forall hnone] at hall
  exact hl hall

end Draining
