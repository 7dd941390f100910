import Mathlib.Computability.StateTransition
import NetworkExperiment.Lib.ActionSystem

namespace ActionSystems

/-!
# Projections — a component of a system that runs as if it were alone

A projection `π` takes the states of a system to those of one component, which has a step function
`f` of its own.  If no step of the system does more to the component than the component's next step,
the runs of the system are, seen through `π`, runs of the component; and as a component moves in one
way only, any two systems that hold it agree on it.

* `ProjectsTo` — a step leaves the component alone, or is the component's next step;
* `ProjectsTo.run` — then so is every run;
* `ProjectsTo.reaches_or_reaches` — of two runs, one has brought the component as far as the other;
* `ProjectsTo.eq_of_final` — if it has come to its end in both, it has come to the same end.
-/

universe u v w

namespace ActionSystem

variable {σ σ' : Type u} {Act Act' : Type v} {τ : Type w} {M : ActionSystem σ Act}
  {M' : ActionSystem σ' Act'} {ok : σ → Act → Prop} {ok' : σ' → Act' → Prop} {π : σ → τ}
  {π' : σ' → τ} {f : τ → Option τ}

variable (M) in
/-- A step that meets `ok` leaves the component alone, or is its next step. -/
def ProjectsTo (ok : σ → Act → Prop) (π : σ → τ) (f : τ → Option τ) : Prop :=
  ∀ ⦃s a t⦄, ok s a → M.act s a = some t → π t = π s ∨ f (π s) = some (π t)

/-- **Run lemma.** A run whose steps meet `ok` is a run of the component. -/
theorem ProjectsTo.run (h : M.ProjectsTo ok π f) {as : List Act} {s t : σ}
    (hok : M.StepsMeet ok as s) (hrun : M.run as s = some t) :
    StateTransition.Reaches f (π s) (π t) := by
  -- from every state the component has run to, it runs on
  have hI : M.InvariantOn ok fun r => StateTransition.Reaches f (π s) (π r) := by
    intro r a r' hr hmeets hact
    rcases h hmeets hact with hsame | hstep
    · rwa [hsame]
    · exact hr.tail hstep
  exact hI.run .refl hok hrun

/-- Two runs from states with the same component: one has brought it as far as the other. -/
theorem ProjectsTo.reaches_or_reaches (h : M.ProjectsTo ok π f) (h' : M'.ProjectsTo ok' π' f)
    {as : List Act} {as' : List Act'} {s t : σ} {s' t' : σ'} (hstart : π s = π' s')
    (hok : M.StepsMeet ok as s) (hok' : M'.StepsMeet ok' as' s')
    (hrun : M.run as s = some t) (hrun' : M'.run as' s' = some t') :
    StateTransition.Reaches f (π t) (π' t') ∨ StateTransition.Reaches f (π' t') (π t) := by
  have hreach := h.run hok hrun
  rw [hstart] at hreach
  exact StateTransition.reaches_total hreach (h'.run hok' hrun')

/-- If the component has come to its end in both runs, it has come to the same end. -/
theorem ProjectsTo.eq_of_final (h : M.ProjectsTo ok π f) (h' : M'.ProjectsTo ok' π' f)
    {as : List Act} {as' : List Act'} {s t : σ} {s' t' : σ'} (hstart : π s = π' s')
    (hok : M.StepsMeet ok as s) (hok' : M'.StepsMeet ok' as' s')
    (hrun : M.run as s = some t) (hrun' : M'.run as' s' = some t')
    (hfinal : f (π t) = none) (hfinal' : f (π' t') = none) : π t = π' t' := by
  have hreach := h.run hok hrun
  rw [hstart] at hreach
  exact Part.mem_unique (StateTransition.mem_eval.mpr ⟨hreach, hfinal⟩)
    (StateTransition.mem_eval.mpr ⟨h'.run hok' hrun', hfinal'⟩)

end ActionSystem

end ActionSystems
