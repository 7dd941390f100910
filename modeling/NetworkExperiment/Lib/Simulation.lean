import NetworkExperiment.Lib.ActionSystem

namespace ActionSystems

/-!
# Simulations with stuttering

A concrete system refines an abstract one along a relation if every step of it is matched by a step
of the abstract system, or by none.  Steps that are matched by none have to raise a rank that stays
below a bound, so that a run makes no more than that many of them in a row.

* `Refines` — a step is matched, or raises the rank;
* `Refines.run` — so every run is matched, by one that is shorter by no more than the bound;
* `Refines.length_le` — where the abstract runs are bounded in length, so are the concrete ones.
-/

universe u v w x

namespace ActionSystem

variable {σ : Type u} {Act : Type v} {τ : Type w} {Lab : Type x}

/-- Every step of `M` is matched by a step of `A`, or raises the rank, which stays below `K`. -/
structure Refines (M : ActionSystem σ Act) (A : ActionSystem τ Lab) (R : σ → τ → Prop)
    (rank : σ → ℕ) (K : ℕ) : Prop where
  rank_lt : ∀ ⦃s t⦄, R s t → rank s < K
  step : ∀ ⦃s a s' t⦄, R s t → M.act s a = some s' →
    (R s' t ∧ rank s < rank s') ∨ ∃ b t', A.act t b = some t' ∧ R s' t'

variable {M : ActionSystem σ Act} {A : ActionSystem τ Lab} {R : σ → τ → Prop} {rank : σ → ℕ}
  {K : ℕ}

/-- **Run lemma.**  A run is matched by a run, and takes no more than `K` steps for each of its. -/
theorem Refines.run (h : Refines M A R rank K) {as : List Act} {s s' : σ} {t : τ} (hst : R s t)
    (hrun : M.run as s = some s') :
    ∃ bs t', A.run bs t = some t' ∧ R s' t' ∧ as.length + rank s ≤ K * bs.length + rank s' := by
  induction as generalizing s t with
  | nil =>
    obtain rfl := Option.some.inj hrun
    exact ⟨[], t, rfl, hst, by simp⟩
  | cons a as ih =>
    rw [run_cons, Option.bind_eq_some_iff] at hrun
    obtain ⟨r, hr, hrs⟩ := hrun
    have hlt := h.rank_lt hst
    rw [List.length_cons]
    rcases h.step hst hr with ⟨hrt, hrank⟩ | ⟨b, u, hb, hru⟩
    · obtain ⟨bs, t', hbs, hR, hlen⟩ := ih hrt hrs
      exact ⟨bs, t', hbs, hR, by omega⟩
    · obtain ⟨bs, t', hbs, hR, hlen⟩ := ih hru hrs
      refine ⟨b :: bs, t', ?_, hR, ?_⟩
      · rw [run_cons, hb]
        exact hbs
      · rw [List.length_cons, Nat.mul_succ]
        omega

/-- Where no abstract run is longer than `N`, no concrete one is longer than this. -/
theorem Refines.length_le (h : Refines M A R rank K) {s : σ} {t : τ} (hst : R s t) {N : ℕ}
    (hN : ∀ bs t', A.run bs t = some t' → bs.length ≤ N) {as : List Act} {s' : σ}
    (hrun : M.run as s = some s') : as.length ≤ K * N + K := by
  obtain ⟨bs, t', hbs, hR, hlen⟩ := h.run hst hrun
  have hlt := h.rank_lt hR
  have hmul := Nat.mul_le_mul_left K (hN bs t' hbs)
  omega

end ActionSystem

end ActionSystems
