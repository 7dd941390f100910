import Mathlib.Logic.Relation

namespace TwoWayChains

/-!
# Chains that can be followed both ways

From a node there may be links forward, and there is at most one link back.  A chain from `a` to `n`
that is linked both ways can be found from `n` by the links back alone:

* `TwoWay` — two nodes that are linked both ways;
* `twoWay_iff` — there is such a chain from the end of all links back to `n` exactly if every link
  back on the way from `n` to there has its link forward.
-/

open Relation

variable {α : Type*} {fwd back : α → α → Prop} {a e n s : α}

/-- A link forward whose link back is there too. -/
def TwoWay (fwd back : α → α → Prop) (s e : α) : Prop := fwd s e ∧ back e s

/-- The links back lead to the beginning. -/
theorem reflTransGen_back (h : ReflTransGen (TwoWay fwd back) a n) : ReflTransGen back n a := by
  induction h with
  | refl => exact .refl
  | tail _ hlink ih => exact ih.head hlink.2

/-- The chain comes by every node that the links back lead to. -/
theorem reflTransGen_of_back (hfun : Relator.RightUnique back) (hend : ∀ s, ¬ back a s)
    (h : ReflTransGen (TwoWay fwd back) a n) (hback : ReflTransGen back n e) :
    ReflTransGen (TwoWay fwd back) a e := by
  induction hback with
  | refl => exact h
  | @tail e s _ hlink ih =>
    -- the last link of the chain to `e` is the one back to `s`
    rcases ih.cases_tail with rfl | ⟨s', hchain, hlast⟩
    · exact absurd hlink (hend s)
    · rwa [hfun hlink hlast.2]

/-- The links back make up the chain if each of them has its link forward. -/
theorem reflTransGen_of_fwd (hback : ReflTransGen back n a)
    (hfwd : ∀ e s, ReflTransGen back n e → back e s → fwd s e) :
    ReflTransGen (TwoWay fwd back) a n := by
  induction hback with
  | refl => exact .refl
  | tail hchain hlink ih => exact ih.head ⟨hfwd _ _ hchain hlink, hlink⟩

/-- **Both ways.**  Where the links back end in `a`, a chain from there to `n` is linked both ways
    exactly if the links back lead from `n` to `a`, and each of them has its link forward. -/
theorem twoWay_iff (hfun : Relator.RightUnique back) (hend : ∀ s, ¬ back a s) :
    ReflTransGen (TwoWay fwd back) a n ↔
      ReflTransGen back n a ∧ ∀ e s, ReflTransGen back n e → back e s → fwd s e := by
  constructor
  · intro h
    refine ⟨reflTransGen_back h, ?_⟩
    intro e s hback hlink
    rcases (reflTransGen_of_back hfun hend h hback).cases_tail with rfl | ⟨s', -, hlast⟩
    · exact absurd hlink (hend s)
    · rw [hfun hlink hlast.2]
      exact hlast.1
  · rintro ⟨hback, hfwd⟩
    exact reflTransGen_of_fwd hback hfwd

end TwoWayChains
