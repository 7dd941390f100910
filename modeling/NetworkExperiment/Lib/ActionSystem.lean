import Mathlib.Data.List.Induction

namespace ActionSystems

/-!
# Action systems — runs, invariants and bounded executions

An action system is a partial function `act` that takes a state and an action to the
next state, or to `none` where the action is disabled.  All interleavings of a
concurrent program are then the runs of one such system, the action naming the party
that moves and what its environment answers.

* `run` — execute a list of actions; `Reaches` — some run leads from one state to another;
* `Invariant` / `Invariant.run` — what one step preserves, every run preserves;
* `Inductive` / `Inductive.run` — the same for a family indexed by the number of steps made;
* `StepsMeet` / `InvariantOn.run` — the same when every step of the run meets a side condition;
* `map_run_of_map_act` — what forgets a record at every step forgets it in every run;
* `recorded` / `run_of_recorded` — the same runs with a record of what each step does;
* `no_infinite_run` / `exists_stuck_of_bounded` — a bound on the length of runs rules out
  infinite ones, and every run then extends to one that ends in a stuck state.
-/

universe u v

/-- A deterministic labelled transition system with disabled actions. -/
structure ActionSystem (σ : Type u) (Act : Type v) where
  act : σ → Act → Option σ

namespace ActionSystem

variable {σ : Type u} {Act : Type v} (M : ActionSystem σ Act)

/-- Execute the listed actions in order; `none` as soon as one is disabled. -/
def run : List Act → σ → Option σ
  | [], s => some s
  | a :: as, s => (M.act s a).bind (run as)

@[simp] theorem run_nil : M.run [] = some := rfl

@[simp] theorem run_cons (a : Act) (as : List Act) (s : σ) :
    M.run (a :: as) s = (M.act s a).bind (M.run as) := rfl

/-- A run splits at any point of its action list, so that what is known of its first part helps
    with the second. -/
theorem run_append (as bs : List Act) (s : σ) :
    M.run (as ++ bs) s = (M.run as s).bind (M.run bs) := by
  induction as generalizing s with
  | nil => rfl
  | cons a as ih =>
    simp only [List.cons_append, run_cons, Option.bind_assoc]
    congr 1
    funext t
    exact ih t

/-- A run that ends with action `a` is a run followed by one step. -/
theorem run_concat_eq_some {as : List Act} {a : Act} {s t : σ} :
    M.run (as ++ [a]) s = some t ↔ ∃ r, M.run as s = some r ∧ M.act r a = some t := by
  rw [run_append, Option.bind_eq_some_iff]
  simp only [run_cons, run_nil, Option.bind_fun_some]

/-- `t` is reached from `s` by some run. -/
def Reaches (s t : σ) : Prop := ∃ as, M.run as s = some t

theorem Reaches.refl (s : σ) : M.Reaches s s := ⟨[], rfl⟩

variable {M} in
theorem Reaches.trans {r s t : σ} (h₁ : M.Reaches r s) (h₂ : M.Reaches s t) : M.Reaches r t := by
  obtain ⟨as, has⟩ := h₁
  obtain ⟨bs, hbs⟩ := h₂
  exact ⟨as ++ bs, by rw [run_append, has]; exact hbs⟩

variable {M} in
theorem Reaches.step {s t : σ} {a : Act} (h : M.act s a = some t) : M.Reaches s t :=
  ⟨[a], by simp [h]⟩

/-- No action is enabled in `s`. -/
def Stuck (s : σ) : Prop := ∀ a, M.act s a = none

/-! ### Invariants -/

/-- `I` is preserved by every step. -/
def Invariant (I : σ → Prop) : Prop :=
  ∀ ⦃s a t⦄, I s → M.act s a = some t → I t

/-- **Run lemma.** What every step preserves, every run preserves. -/
theorem Invariant.run {M : ActionSystem σ Act} {I : σ → Prop} (hI : M.Invariant I) {as : List Act}
    {s t : σ} (hs : I s) (h : M.run as s = some t) : I t := by
  induction as generalizing s with
  | nil => exact Option.some.inj h ▸ hs
  | cons a as ih =>
    rw [run_cons, Option.bind_eq_some_iff] at h
    obtain ⟨r, hr, hrt⟩ := h
    exact ih (hI hs hr) hrt

/-- A family of predicates that a step carries from index `n` to index `n + 1`. -/
def Inductive (I : ℕ → σ → Prop) : Prop :=
  ∀ ⦃n s a t⦄, I n s → M.act s a = some t → I (n + 1) t

/-- **Counted run lemma.** After a run of `k` steps from a state in `I n`, the state is
    in `I (n + k)`. -/
theorem Inductive.run {M : ActionSystem σ Act} {I : ℕ → σ → Prop} (hI : M.Inductive I)
    {as : List Act} {n : ℕ} {s t : σ} (hs : I n s) (h : M.run as s = some t) :
    I (n + as.length) t := by
  induction as generalizing n s with
  | nil => exact Option.some.inj h ▸ hs
  | cons a as ih =>
    rw [run_cons, Option.bind_eq_some_iff] at h
    obtain ⟨r, hr, hrt⟩ := h
    -- one step more, and the index is one greater
    have := ih (hI hs hr) hrt
    rwa [List.length_cons, Nat.add_comm as.length 1, ← Nat.add_assoc]

/-- A predicate of the steps made so far that every step carries on. -/
def History (I : List Act → σ → Prop) : Prop :=
  ∀ ⦃as s a t⦄, I as s → M.act s a = some t → I (as ++ [a]) t

/-- **Run lemma with history.** After a run, the predicate holds of the steps of the run. -/
theorem History.run {M : ActionSystem σ Act} {I : List Act → σ → Prop} (hI : M.History I)
    {as : List Act} {s t : σ} (hs : I [] s) (h : M.run as s = some t) : I as t := by
  induction as using List.reverseRec generalizing t with
  | nil => exact Option.some.inj h ▸ hs
  | append_singleton as a ih =>
    obtain ⟨r, hr, hrt⟩ := M.run_concat_eq_some.mp h
    exact hI (ih hr) hrt

/-! ### Runs whose steps meet a side condition -/

/-- Every step of the run `as` from `s` meets `ok` in the state before it. -/
def StepsMeet (ok : σ → Act → Prop) : List Act → σ → Prop
  | [], _ => True
  | a :: as, s => ok s a ∧ ∀ t, M.act s a = some t → StepsMeet ok as t

instance decidableStepsMeet {ok : σ → Act → Prop} [∀ s a, Decidable (ok s a)] :
    (as : List Act) → (s : σ) → Decidable (M.StepsMeet ok as s)
  | [], _ => .isTrue trivial
  | a :: as, s =>
      match h : M.act s a with
      | none => decidable_of_iff (ok s a) (by simp [StepsMeet, h])
      | some t =>
          have : Decidable (M.StepsMeet ok as t) := decidableStepsMeet as t
          decidable_of_iff (ok s a ∧ M.StepsMeet ok as t) (by simp [StepsMeet, h])

variable {M} in
/-- A run that ends with one more step meets the condition if its first part and that step do. -/
theorem stepsMeet_concat {ok : σ → Act → Prop} {as : List Act} {a : Act} {s t : σ}
    (hrun : M.run as s = some t) :
    M.StepsMeet ok (as ++ [a]) s ↔ M.StepsMeet ok as s ∧ ok t a := by
  induction as generalizing s with
  | nil =>
    obtain rfl := Option.some.inj hrun
    simp [StepsMeet]
  | cons b as ih =>
    rw [run_cons, Option.bind_eq_some_iff] at hrun
    obtain ⟨r, hr, hrt⟩ := hrun
    simp only [List.cons_append, StepsMeet, hr, Option.some.injEq, forall_eq', ih hrt, and_assoc]

variable {M} in
/-- One more step that meets the condition leaves open whether the run does. -/
theorem stepsMeet_concat_of_met {ok : σ → Act → Prop} {as : List Act} {a : Act} {s t : σ}
    (hrun : M.run as s = some t) (hok : ok t a) :
    M.StepsMeet ok (as ++ [a]) s ↔ M.StepsMeet ok as s := by
  rw [stepsMeet_concat hrun]
  exact and_iff_left hok

variable {M} in
/-- The steps of a run meet two conditions if they meet each of them. -/
theorem stepsMeet_and {ok ok' : σ → Act → Prop} {as : List Act} {s : σ} :
    M.StepsMeet (fun s a => ok s a ∧ ok' s a) as s ↔
      M.StepsMeet ok as s ∧ M.StepsMeet ok' as s := by
  induction as generalizing s with
  | nil => exact (and_self_iff).symm
  | cons a as ih => simp only [StepsMeet, ih, forall_and, and_and_and_comm]

/-- A condition on the actions alone is met where it holds of every action of the run. -/
theorem stepsMeet_of_forall {P : Act → Prop} {as : List Act} (h : ∀ a ∈ as, P a) (s : σ) :
    M.StepsMeet (fun _ a => P a) as s := by
  induction as generalizing s with
  | nil => trivial
  | cons a as ih =>
    exact ⟨h a List.mem_cons_self, fun t _ => ih (fun b hb => h b (List.mem_cons_of_mem _ hb)) t⟩

/-- `I` is preserved by every step that meets `ok`. -/
def InvariantOn (ok : σ → Act → Prop) (I : σ → Prop) : Prop :=
  ∀ ⦃s a t⦄, I s → ok s a → M.act s a = some t → I t

/-- **Conditional run lemma.** A predicate preserved by the steps that meet `ok` survives
    every run all of whose steps meet `ok`. -/
theorem InvariantOn.run {M : ActionSystem σ Act} {ok : σ → Act → Prop} {I : σ → Prop}
    (hI : M.InvariantOn ok I) {as : List Act} {s t : σ} (hs : I s) (hok : M.StepsMeet ok as s)
    (h : M.run as s = some t) : I t := by
  induction as generalizing s with
  | nil => exact Option.some.inj h ▸ hs
  | cons a as ih =>
    rw [run_cons, Option.bind_eq_some_iff] at h
    -- the step is allowed, and so are those behind it
    obtain ⟨r, hr, hrt⟩ := h
    exact ih (hI hs hok.1 hr) (hok.2 r hr) hrt

/-! ### Records -/

variable {M} in
/-- **Erasure.**  A system whose steps are those of `M` with a record beside them has the runs of
    `M` with a record beside them: no run is lost, and none is added. -/
theorem map_run_of_map_act {τ : Type*} {N : ActionSystem τ Act} {erase : τ → σ}
    (h : ∀ t a, (N.act t a).map erase = M.act (erase t) a) (as : List Act) (t : τ) :
    (N.run as t).map erase = M.run as (erase t) := by
  induction as generalizing t with
  | nil => rfl
  | cons a as ih =>
    rw [run_cons, run_cons, ← h, Option.map_bind, Option.bind_map]
    congr 1
    funext r
    exact ih r

/-- The system with a record, to which a step from `s` adds `d s`. -/
def recorded {ε : Type*} (d : σ → List ε) : ActionSystem (σ × List ε) Act where
  act s a := (M.act s.1 a).map fun t => (t, s.2 ++ d s.1)

/-- The record does not take part in the runs. -/
theorem run_of_recorded {M : ActionSystem σ Act} {ε : Type*} {d : σ → List ε} {as : List Act}
    {s t : σ × List ε} (h : (M.recorded d).run as s = some t) : M.run as s.1 = some t.1 := by
  -- a step of the system with the record is one without it
  have herase : ∀ r a, ((M.recorded d).act r a).map Prod.fst = M.act r.1 a := by
    intro r a
    unfold recorded
    rw [Option.map_map]
    exact congrFun Option.map_id _
  rw [← map_run_of_map_act herase, h]
  rfl

/-! ### Termination -/

/-- An infinite run: a step is made from every state of the sequence to the next. -/
def InfiniteRun (f : ℕ → σ) : Prop := ∀ n, ∃ a, M.act (f n) a = some (f (n + 1))

/-- The first `n` steps of an infinite run are a run of length `n`. -/
theorem InfiniteRun.take {M : ActionSystem σ Act} {f : ℕ → σ} (hf : M.InfiniteRun f) (n : ℕ) :
    ∃ as : List Act, as.length = n ∧ M.run as (f 0) = some (f n) := by
  induction n with
  | zero => exact ⟨[], rfl, rfl⟩
  | succ n ih =>
    obtain ⟨as, hlen, has⟩ := ih
    obtain ⟨a, ha⟩ := hf n
    exact ⟨as ++ [a], by simp [hlen], (M.run_concat_eq_some).mpr ⟨f n, has, ha⟩⟩

/-- If no run from `s` is longer than `K`, no infinite run starts in `s`. -/
theorem no_infinite_run {M : ActionSystem σ Act} {s : σ} {K : ℕ}
    (hK : ∀ as t, M.run as s = some t → as.length ≤ K) :
    ¬ ∃ f, f 0 = s ∧ M.InfiniteRun f := by
  rintro ⟨f, rfl, hf⟩
  -- its first steps are too many
  obtain ⟨as, hlen, has⟩ := hf.take (K + 1)
  have := hK as _ has
  omega

/-- If no run from `s` is longer than `K`, every run from `s` extends to one that ends in a
    stuck state. -/
theorem exists_stuck_of_bounded {M : ActionSystem σ Act} {s t : σ} {K : ℕ}
    (hK : ∀ as t, M.run as s = some t → as.length ≤ K) (hst : M.Reaches s t) :
    ∃ u, M.Reaches t u ∧ M.Stuck u := by
  obtain ⟨as, has⟩ := hst
  induction hd : K - as.length generalizing as t with
  | zero =>
    -- the run has the greatest length, so it cannot be continued
    refine ⟨t, .refl M t, fun a => ?_⟩
    by_contra hne
    obtain ⟨u, hu⟩ := Option.ne_none_iff_exists'.mp hne
    have := hK _ _ ((M.run_concat_eq_some).mpr ⟨t, has, hu⟩)
    rw [List.length_append, List.length_singleton] at this
    omega
  | succ d ih =>
    by_cases hstuck : M.Stuck t
    · exact ⟨t, .refl M t, hstuck⟩
    · -- one action more, and the bound is closer
      obtain ⟨a, ha⟩ := not_forall.mp hstuck
      obtain ⟨u, hu⟩ := Option.ne_none_iff_exists'.mp ha
      obtain ⟨v, huv, hv⟩ := ih (t := u) (as ++ [a])
        ((M.run_concat_eq_some).mpr ⟨t, has, hu⟩) (by simp; omega)
      exact ⟨v, (Reaches.step hu).trans huv, hv⟩

end ActionSystem

end ActionSystems
