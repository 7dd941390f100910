import Mathlib.Computability.StateTransition

namespace Loops

/-!
# Loops and their ends

The body of a loop takes a state to the next one, or leaves the loop with a result:

* `next` — the rounds of a loop as a transition system;
* `run` — a loop with a bound on its rounds, `none` if it is not through by then;
* `end_unique` — a loop leaves from one state, with one result;
* `Lowers` — every round lowers a measure, from states that meet an invariant;
* `Lowers.ends` — such a loop ends, with any bound above the measure;
* `Lowers.run_eq_some_iff` — its result is the one of the state that it reaches and leaves from.
-/

open StateTransition

variable {σ ρ : Type*}

/-- The state behind a round, if the loop goes on. -/
def next (body : σ → σ ⊕ ρ) (s : σ) : Option σ := (body s).getLeft?

/-- The loop from a state on, with at most `fuel` evaluations of its body. -/
def run (body : σ → σ ⊕ ρ) : ℕ → σ → Option ρ
  | 0, _ => none
  | fuel + 1, s =>
      match body s with
      | .inl t => run body fuel t
      | .inr r => some r

variable {body : σ → σ ⊕ ρ} {s t t' : σ} {r r' : ρ} {fuel : ℕ}

theorem next_eq_some_iff : next body s = some t ↔ body s = .inl t := by
  unfold next
  rw [Sum.getLeft?_eq_some_iff]

theorem next_of_inr (h : body s = .inr r) : next body s = none := by
  unfold next
  rw [h]
  rfl

theorem run_of_inl (h : body s = .inl t) : run body (fuel + 1) s = run body fuel t := by
  rw [run, h]

theorem run_of_inr (h : body s = .inr r) : run body (fuel + 1) s = some r := by
  rw [run, h]

/-- A run that is through has reached the state from which it leaves. -/
theorem reaches_of_run (h : run body fuel s = some r) :
    ∃ t, Reaches (next body) s t ∧ body t = .inr r := by
  induction fuel generalizing s with
  | zero => exact absurd h (Option.some_ne_none r).symm
  | succ fuel ih =>
    cases hbody : body s with
    | inl t =>
      rw [run_of_inl hbody] at h
      obtain ⟨e, hreach, hend⟩ := ih h
      exact ⟨e, hreach.head (next_eq_some_iff.mpr hbody), hend⟩
    | inr r' =>
      rw [run_of_inr hbody] at h
      obtain rfl := Option.some.inj h
      exact ⟨s, .refl, hbody⟩

/-- A loop leaves from one state, with one result. -/
theorem end_unique (ht : Reaches (next body) s t) (hr : body t = .inr r)
    (ht' : Reaches (next body) s t') (hr' : body t' = .inr r') : t = t' ∧ r = r' := by
  have hsame : t = t' := Part.mem_unique (mem_eval.mpr ⟨ht, next_of_inr hr⟩)
    (mem_eval.mpr ⟨ht', next_of_inr hr'⟩)
  subst hsame
  exact ⟨rfl, Sum.inr.inj (hr.symm.trans hr')⟩

/-! ### Measures -/

/-- A round from a state that meets `I` leads to a state that meets it, and lowers the measure `μ`
    by `d` at least. -/
structure Lowers (body : σ → σ ⊕ ρ) (I : σ → Prop) (μ : σ → ℕ) (d : ℕ) : Prop where
  keeps : ∀ ⦃s t⦄, I s → body s = .inl t → I t
  lowers : ∀ ⦃s t⦄, I s → body s = .inl t → μ t + d ≤ μ s

namespace Lowers

variable {I : σ → Prop} {μ : σ → ℕ} {d : ℕ}

/-- The invariant holds in every state that the loop reaches. -/
theorem reaches (h : Lowers body I μ d) (hs : I s) (hreach : Reaches (next body) s t) : I t := by
  induction hreach with
  | refl => exact hs
  | tail _ hstep ih => exact h.keeps ih (next_eq_some_iff.mp hstep)

/-- **Termination.**  A bound above the measure is never met. -/
theorem ends (h : Lowers body I μ d) (hd : 0 < d) (hs : I s) (hfuel : μ s < fuel) :
    ∃ r, run body fuel s = some r := by
  induction fuel generalizing s with
  | zero => exact absurd hfuel (Nat.not_lt_zero _)
  | succ fuel ih =>
    cases hbody : body s with
    | inl t =>
      have hlower := h.lowers hs hbody
      rw [run_of_inl hbody]
      exact ih (h.keeps hs hbody) (by omega)
    | inr r => exact ⟨r, run_of_inr hbody⟩

/-- The result is the one of the state that the loop reaches and leaves from. -/
theorem run_eq_some_iff (h : Lowers body I μ d) (hd : 0 < d) (hs : I s) (hfuel : μ s < fuel) :
    run body fuel s = some r ↔ ∃ t, Reaches (next body) s t ∧ body t = .inr r := by
  refine ⟨reaches_of_run, ?_⟩
  rintro ⟨t, hreach, hend⟩
  obtain ⟨r', hrun⟩ := h.ends hd hs hfuel
  obtain ⟨t', hreach', hend'⟩ := reaches_of_run hrun
  rw [hrun, (end_unique hreach hend hreach' hend').2]

end Lowers

end Loops
