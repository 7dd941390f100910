import NetworkExperiment.Lib.ActionSystem

namespace ActionSystems

/-!
# Two runs in lockstep

Two systems that take matching steps, as the same program does with different data.

* `Lockstep` — matching steps keep a relation between the states;
* `Lockstep.run` — so do runs of matching actions;
* `Follows` / `Follows.run` — one system can do whatever the other one does.
-/

universe u v w x

namespace ActionSystem

variable {σ : Type u} {Act : Type v} {τ : Type w} {Lab : Type x}

/-- Steps with matching actions keep `R`. -/
def Lockstep (M : ActionSystem σ Act) (N : ActionSystem τ Lab) (P : Act → Lab → Prop)
    (R : σ → τ → Prop) : Prop :=
  ∀ ⦃s t a b s' t'⦄, R s t → P a b → M.act s a = some s' → N.act t b = some t' → R s' t'

variable {M : ActionSystem σ Act} {N : ActionSystem τ Lab} {P : Act → Lab → Prop}
  {R : σ → τ → Prop}

/-- **Run lemma.**  What matching steps keep, runs of matching actions keep. -/
theorem Lockstep.run (h : Lockstep M N P R) {as : List Act} {bs : List Lab} {s s' : σ} {t t' : τ}
    (hst : R s t) (hacts : List.Forall₂ P as bs) (hs : M.run as s = some s')
    (ht : N.run bs t = some t') : R s' t' := by
  induction hacts generalizing s t with
  | nil =>
    obtain rfl := Option.some.inj hs
    obtain rfl := Option.some.inj ht
    exact hst
  | cons hab _ ih =>
    rw [run_cons, Option.bind_eq_some_iff] at hs ht
    obtain ⟨r, hr, hrs⟩ := hs
    obtain ⟨u, hu, hut⟩ := ht
    exact ih (h hst hab hr hu) hrs hut

/-- `N` can take every step of `M`. -/
def Follows (M : ActionSystem σ Act) (N : ActionSystem τ Act) (R : σ → τ → Prop) : Prop :=
  ∀ ⦃s t a s'⦄, R s t → M.act s a = some s' → ∃ t', N.act t a = some t' ∧ R s' t'

/-- **Run lemma.**  Then it can make every run. -/
theorem Follows.run {N : ActionSystem τ Act} (h : Follows M N R) {as : List Act} {s s' : σ} {t : τ}
    (hst : R s t) (hrun : M.run as s = some s') : ∃ t', N.run as t = some t' ∧ R s' t' := by
  induction as generalizing s t with
  | nil =>
    obtain rfl := Option.some.inj hrun
    exact ⟨t, rfl, hst⟩
  | cons a as ih =>
    rw [run_cons, Option.bind_eq_some_iff] at hrun
    obtain ⟨r, hr, hrs⟩ := hrun
    obtain ⟨u, hu, hru⟩ := h hst hr
    obtain ⟨t', ht', hR⟩ := ih hru hrs
    refine ⟨t', ?_, hR⟩
    rw [run_cons, hu]
    exact ht'

end ActionSystem

end ActionSystems
