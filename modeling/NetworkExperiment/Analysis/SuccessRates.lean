import Mathlib.Tactic.Linarith
import NetworkExperiment.Lib.Share

namespace NetworkExperiment

open Shares

/-!
# The ROC sweep — `success_rates.py`

* `pyInt`, `pyRange`, `pyMin`, `pyMax`, `ratio` — the expressions of Python that `main` is made of;
* `SuccessRates.main` — the points of the curve, and the rates at the threshold that is asked for;
* `main_eq_some` — each point is the share of the scores above its threshold, with and without
  co-residency;
* `IsRocCurve` — a complete curve: it falls from (1, 1) to (0, 0);
* `sweep_falls` — the points fall in both coordinates;
* `first_point_iff` — the first one is (1, 1) exactly if the least score is positive and not whole;
* `sweep_never_complete` — none is (0, 0): the last threshold is one below the greatest score, cut
  off.

Scores are exact; `none` is an exception.  The plots and the file of the points are left out.
-/

/-! ### The sweep -/

/-- `int(x)`: the fraction is cut off. -/
def pyInt (x : ℚ) : ℤ := x.num.tdiv x.den

/-- `range(start, stop)`. -/
def pyRange (start stop : ℤ) : List ℤ :=
  (List.range (stop - start).toNat).map fun (k : ℕ) => start + k

/-- The first of the elements than which none is better, as `min` and `max` return it. -/
def pySelect (better : ℚ → ℚ → Bool) : List ℚ → Option ℚ
  | [] => none
  | x :: xs => some (xs.foldl (fun m y => if better y m then y else m) x)

/-- `min(l)`. -/
def pyMin : List ℚ → Option ℚ := pySelect fun y m => y < m

/-- `max(l)`. -/
def pyMax : List ℚ → Option ℚ := pySelect fun y m => y > m

/-- `len([x for x in l if p(x)]) / len(l)`. -/
def ratio (p : ℚ → Bool) (l : List ℚ) : Option ℚ :=
  if l.length = 0 then none else some ((l.filter p).length / l.length)

/-- The points of the curve, and the rates at the threshold that is asked for. -/
structure SuccessRates where
  tps : List ℚ
  fps : List ℚ
  tp : ℚ
  tn : ℚ
  deriving DecidableEq

namespace SuccessRates

/-- The loop over the thresholds, with the lists that it appends to.  `tp` counts scores above the
    threshold, `tn` those up to it. -/
def sweepLoop (mseHistWithcr mseHistWithoutcr : List ℚ) :
    List ℤ → List ℚ → List ℚ → Option (List ℚ × List ℚ)
  | [], tps, fps => some (tps, fps)
  | i :: is, tps, fps => do
      let tp ← ratio (fun x => x > i) mseHistWithcr
      let tn ← ratio (fun x => x ≤ i) mseHistWithoutcr
      sweepLoop mseHistWithcr mseHistWithoutcr is (tps ++ [tp]) (fps ++ [1 - tn])

/-- `main`, from the scores of the runs with and without co-residency on. -/
def main (mseHistWithcr mseHistWithoutcr : List ℚ) (threshold : ℤ) : Option SuccessRates := do
  let minimal ← pyMin (mseHistWithcr ++ mseHistWithoutcr)
  let maximal ← pyMax (mseHistWithcr ++ mseHistWithoutcr)
  let (tps, fps) ← sweepLoop mseHistWithcr mseHistWithoutcr
    (pyRange (pyInt minimal) (pyInt maximal)) [] []
  let tp ← ratio (fun x => x > threshold) mseHistWithcr
  let tn ← ratio (fun x => x ≤ threshold) mseHistWithoutcr
  return ⟨tps, fps, tp, tn⟩

/-- The points fall from (1, 1) to (0, 0): a complete curve, with all scores above the first
    threshold and none above the last. -/
structure IsRocCurve (rates : SuccessRates) : Prop where
  tps_falls : rates.tps.Pairwise (· ≥ ·)
  fps_falls : rates.fps.Pairwise (· ≥ ·)
  bounds : ∀ x ∈ rates.tps ++ rates.fps, 0 ≤ x ∧ x ≤ 1
  first : (rates.fps.zip rates.tps).head? = some (1, 1)
  last : (rates.fps.zip rates.tps).getLast? = some (0, 0)

/-- The sweep yields a complete curve. -/
def SweepsRocCurve (mseHistWithcr mseHistWithoutcr : List ℚ) (threshold : ℤ) : Prop :=
  ∃ rates, main mseHistWithcr mseHistWithoutcr threshold = some rates ∧ rates.IsRocCurve

/-! ### The built-ins -/

variable {l withcr withoutcr : List ℚ} {x m : ℚ} {a b i : ℤ}

/-- The numbers from `a` on and below `b`. -/
theorem mem_pyRange : i ∈ pyRange a b ↔ a ≤ i ∧ i < b := by
  unfold pyRange
  rw [List.mem_map]
  constructor
  · rintro ⟨k, hk, rfl⟩
    rw [List.mem_range] at hk
    omega
  · intro h
    refine ⟨(i - a).toNat, ?_, ?_⟩
    · rw [List.mem_range]
      omega
    · omega

/-- The thresholds rise. -/
theorem pairwise_pyRange (a b : ℤ) : (pyRange a b).Pairwise (· < ·) := by
  unfold pyRange
  rw [List.pairwise_map]
  refine List.pairwise_lt_range.imp ?_
  intro j k hjk
  omega

/-- The first of them. -/
theorem head?_pyRange (h : a < b) : (pyRange a b).head? = some a := by
  obtain ⟨n, hn⟩ : ∃ n, (b - a).toNat = n + 1 := ⟨(b - a).toNat - 1, by omega⟩
  unfold pyRange
  rw [hn, List.range_succ_eq_map, List.map_cons, List.head?_cons]
  simp

/-- What is cut off, in parts of the denominator. -/
theorem pyInt_mul_den (x : ℚ) : (pyInt x : ℚ) * x.den + (x.num.tmod x.den : ℤ) = x * x.den := by
  have hsplit := Int.tdiv_mul_add_tmod x.num x.den
  rw [Rat.mul_den_eq_num]
  exact_mod_cast hsplit

/-- It is less than one. -/
theorem pyInt_lt_add_one (x : ℚ) : (pyInt x : ℚ) < x + 1 := by
  have hden : (0 : ℚ) < x.den := Nat.cast_pos.mpr x.den_pos
  have hcut := Int.lt_tmod_of_pos x.num (Int.natCast_pos.mpr x.den_pos)
  have hcut' : ((-(x.den : ℤ) : ℤ) : ℚ) < (x.num.tmod x.den : ℤ) := Int.cast_lt.mpr hcut
  rw [Int.cast_neg, Int.cast_natCast] at hcut'
  have hsum := pyInt_mul_den x
  apply lt_of_mul_lt_mul_right _ hden.le
  rw [add_mul, one_mul]
  linarith

/-- Something is cut off downwards exactly of a positive number that is not whole. -/
theorem pyInt_lt_iff (x : ℚ) : (pyInt x : ℚ) < x ↔ 0 < x ∧ ∀ n : ℤ, x ≠ n := by
  have hden : (0 : ℚ) < x.den := Nat.cast_pos.mpr x.den_pos
  have hsum := pyInt_mul_den x
  -- something is cut off downwards where the remainder is positive
  have hpos : (pyInt x : ℚ) < x ↔ 0 < x.num.tmod x.den := by
    rw [← mul_lt_mul_iff_left₀ hden, ← @Int.cast_pos ℚ]
    constructor
    · intro h
      linarith
    · intro h
      linarith
  rw [hpos]
  constructor
  · intro h
    constructor
    · -- of a number that is not positive it would not be cut off downwards
      by_contra hneg
      have hnum : x.num ≤ 0 := Rat.num_nonpos.mpr (not_lt.mp hneg)
      have hmod := Int.tmod_nonneg (x.den : ℤ) (Int.neg_nonneg.mpr hnum)
      rw [Int.neg_tmod] at hmod
      omega
    · rintro n rfl
      simp at h
  · rintro ⟨hx, hwhole⟩
    have hnum : 0 ≤ x.num.tmod x.den := Int.tmod_nonneg _ (Rat.num_nonneg.mpr hx.le)
    -- without a remainder the number would be whole
    have hne : x.num.tmod x.den ≠ 0 := by
      intro hzero
      rw [hzero, Int.cast_zero, add_zero] at hsum
      exact hwhole _ (mul_right_cancel₀ hden.ne' hsum).symm
    omega

/-- The element that the fold ends with is one of them, and none is better.  By induction on the
    elements that are left; `m` is the best one so far. -/
theorem foldl_select {better : ℚ → ℚ → Bool} {le : ℚ → ℚ → Prop} (hrefl : ∀ x, le x x)
    (htrans : ∀ x y z, le x y → le y z → le x z)
    (hyes : ∀ x y, better y x = true → le y x) (hno : ∀ x y, better y x = false → le x y)
    (m : ℚ) (l : List ℚ) : let e := l.foldl (fun m y => if better y m then y else m) m
      e ∈ m :: l ∧ le e m ∧ ∀ x ∈ l, le e x := by
  induction l generalizing m with
  | nil => exact ⟨List.mem_cons_self, hrefl m, fun x hx => absurd hx List.not_mem_nil⟩
  | cons y ys ih =>
    dsimp only
    rw [List.foldl_cons, List.forall_mem_cons]
    -- the better one of the two goes on
    cases hb : better y m with
    | true =>
      obtain ⟨hmem, hle, hrest⟩ := ih y
      rw [if_pos rfl]
      exact ⟨List.mem_cons_of_mem _ hmem, htrans _ _ _ hle (hyes m y hb), hle, hrest⟩
    | false =>
      obtain ⟨hmem, hle, hrest⟩ := ih m
      rw [if_neg Bool.false_ne_true]
      refine ⟨?_, hle, htrans _ _ _ hle (hno m y hb), hrest⟩
      rcases List.mem_cons.mp hmem with heq | hmem
      · rw [heq]
        exact List.mem_cons_self
      · exact List.mem_cons_of_mem _ (List.mem_cons_of_mem _ hmem)

/-- The least of some numbers. -/
theorem pyMin_spec (h : pyMin l = some m) : m ∈ l ∧ ∀ x ∈ l, m ≤ x := by
  cases l with
  | nil => cases h
  | cons x xs =>
    obtain rfl := Option.some.inj h
    rw [List.forall_mem_cons]
    exact foldl_select le_refl (fun _ _ _ => le_trans) (fun x y hlt => (of_decide_eq_true hlt).le)
      (fun x y hlt => not_lt.mp (of_decide_eq_false hlt)) x xs

/-- The greatest of some numbers. -/
theorem pyMax_spec (h : pyMax l = some m) : m ∈ l ∧ ∀ x ∈ l, x ≤ m := by
  cases l with
  | nil => cases h
  | cons x xs =>
    obtain rfl := Option.some.inj h
    rw [List.forall_mem_cons]
    exact @foldl_select (fun y m => y > m) (fun x y => y ≤ x) le_refl
      (fun _ _ _ hxy hyz => le_trans hyz hxy) (fun x y hlt => (of_decide_eq_true hlt).le)
      (fun x y hlt => not_lt.mp (of_decide_eq_false hlt)) x xs

/-- Of some numbers there is one. -/
theorem pySelect_isSome {better : ℚ → ℚ → Bool} (hl : l ≠ []) :
    ∃ m, pySelect better l = some m := by
  cases l with
  | nil => exact absurd rfl hl
  | cons x xs => exact ⟨_, rfl⟩

/-- Of some numbers the ratio is a share. -/
theorem ratio_eq_share (p : ℚ → Bool) (hl : l ≠ []) : ratio p l = some (share p l) :=
  if_neg (mt List.length_eq_zero_iff.mp hl)

/-! ### The points -/

/-- The share of the scores above a threshold. -/
def above (l : List ℚ) (i : ℤ) : ℚ := share (fun (x : ℚ) => x > i) l

/-- The rate of false positives is such a share too. -/
theorem one_sub_share (hl : l ≠ []) (i : ℤ) : 1 - share (fun (x : ℚ) => x ≤ i) l = above l i := by
  rw [← share_not hl]
  unfold above
  congr 1
  funext x
  rw [← decide_not]
  exact decide_eq_decide.mpr not_le

/-- **The loop.**  Each threshold appends a point, so the lists are those of all thresholds in
    their order. -/
theorem sweepLoop_eq (hwith : withcr ≠ []) (hwithout : withoutcr ≠ []) (is : List ℤ)
    (tps fps : List ℚ) : sweepLoop withcr withoutcr is tps fps
      = some (tps ++ is.map (above withcr), fps ++ is.map (above withoutcr)) := by
  induction is generalizing tps fps with
  | nil => rw [sweepLoop, List.map_nil, List.map_nil, List.append_nil, List.append_nil]
  | cons i is ih =>
    rw [sweepLoop, ratio_eq_share _ hwith, ratio_eq_share _ hwithout]
    simp only [Option.bind_eq_bind, Option.bind_some, one_sub_share hwithout, ih, List.map_cons,
      List.append_assoc, List.singleton_append]
    rfl

/-- The extreme scores and the thresholds between them: from the least score, cut off, up to one
    below the greatest, cut off. -/
structure Thresholds (withcr withoutcr : List ℚ) where
  minimal : ℚ
  maximal : ℚ
  minimal_mem : minimal ∈ withcr ++ withoutcr
  minimal_le : ∀ x ∈ withcr ++ withoutcr, minimal ≤ x
  maximal_mem : maximal ∈ withcr ++ withoutcr
  le_maximal : ∀ x ∈ withcr ++ withoutcr, x ≤ maximal

/-- The thresholds of the loop. -/
def Thresholds.list (t : Thresholds withcr withoutcr) : List ℤ :=
  pyRange (pyInt t.minimal) (pyInt t.maximal)

/-- **The sweep.**  At each threshold the point is the shares of the scores above it. -/
theorem main_eq_some (hwith : withcr ≠ []) (hwithout : withoutcr ≠ []) (threshold : ℤ) :
    ∃ t : Thresholds withcr withoutcr, main withcr withoutcr threshold
      = some ⟨t.list.map (above withcr), t.list.map (above withoutcr), above withcr threshold,
          share (fun (x : ℚ) => x ≤ threshold) withoutcr⟩ := by
  have hscores : withcr ++ withoutcr ≠ [] := List.append_ne_nil_of_left_ne_nil hwith withoutcr
  obtain ⟨minimal, hminimal⟩ : ∃ m, pyMin (withcr ++ withoutcr) = some m := pySelect_isSome hscores
  obtain ⟨maximal, hmaximal⟩ : ∃ m, pyMax (withcr ++ withoutcr) = some m := pySelect_isSome hscores
  refine ⟨⟨minimal, maximal, (pyMin_spec hminimal).1, (pyMin_spec hminimal).2,
    (pyMax_spec hmaximal).1, (pyMax_spec hmaximal).2⟩, ?_⟩
  unfold main
  rw [hminimal, hmaximal, ratio_eq_share _ hwith, ratio_eq_share _ hwithout]
  simp only [Option.bind_eq_bind, Option.bind_some, sweepLoop_eq hwith hwithout, List.nil_append]
  rfl

/-- Without scores there is no point. -/
theorem main_eq_none (h : withcr = [] ∨ withoutcr = []) (threshold : ℤ) :
    main withcr withoutcr threshold = none := by
  have hratio : ∀ p, ratio p [] = none := fun _ => rfl
  unfold main
  rcases h with rfl | rfl
  · simp only [hratio, Option.bind_eq_bind, Option.bind_none, Option.bind_fun_none]
  · simp only [hratio, Option.bind_eq_bind, Option.bind_none, Option.bind_fun_none]

/-! ### The curve -/

/-- A higher threshold has fewer scores above it, or as many. -/
theorem above_antitone (l : List ℚ) {i j : ℤ} (h : i ≤ j) : above l j ≤ above l i := by
  apply share_mono
  intro x _ hx
  have hij : (i : ℚ) ≤ j := Int.cast_le.mpr h
  exact decide_eq_true (lt_of_le_of_lt hij (of_decide_eq_true hx))

/-- Along the thresholds the shares fall. -/
theorem pairwise_above (l : List ℚ) (a b : ℤ) :
    ((pyRange a b).map (above l)).Pairwise (· ≥ ·) := by
  rw [List.pairwise_map]
  exact (pairwise_pyRange a b).imp fun h => above_antitone l h.le

/-- **What holds of the curve.**  Its points fall in both coordinates, between 1 and 0. -/
theorem sweep_falls {rates : SuccessRates} {threshold : ℤ}
    (h : main withcr withoutcr threshold = some rates) :
    rates.tps.Pairwise (· ≥ ·) ∧ rates.fps.Pairwise (· ≥ ·) ∧
      ∀ x ∈ rates.tps ++ rates.fps, 0 ≤ x ∧ x ≤ 1 := by
  by_cases hnone : withcr = [] ∨ withoutcr = []
  · cases h.symm.trans (main_eq_none hnone threshold)
  · rw [not_or] at hnone
    obtain ⟨t, ht⟩ := main_eq_some hnone.1 hnone.2 threshold
    obtain rfl := Option.some.inj (h.symm.trans ht)
    refine ⟨pairwise_above _ _ _, pairwise_above _ _ _, ?_⟩
    intro x hx
    rcases List.mem_append.mp hx with hx | hx
    · obtain ⟨i, -, rfl⟩ := List.mem_map.mp hx
      exact ⟨share_nonneg _ _, share_le_one _ _⟩
    · obtain ⟨i, -, rfl⟩ := List.mem_map.mp hx
      exact ⟨share_nonneg _ _, share_le_one _ _⟩

/-- The points of the thresholds. -/
def Thresholds.points (t : Thresholds withcr withoutcr) : List (ℚ × ℚ) :=
  t.list.map fun i => (above withoutcr i, above withcr i)

/-- The two lists of `main`, side by side. -/
theorem Thresholds.zip_eq (t : Thresholds withcr withoutcr) :
    (t.list.map (above withoutcr)).zip (t.list.map (above withcr)) = t.points :=
  List.zip_map'

/-- All scores are above a threshold, … -/
theorem above_eq_one_iff (hl : l ≠ []) (i : ℤ) : above l i = 1 ↔ ∀ x ∈ l, (i : ℚ) < x := by
  unfold above
  rw [share_eq_one_iff hl]
  simp only [gt_iff_lt, decide_eq_true_eq]

/-- … or some are. -/
theorem above_pos_iff (i : ℤ) : 0 < above l i ↔ ∃ x ∈ l, (i : ℚ) < x := by
  unfold above
  rw [share_pos_iff]
  simp only [gt_iff_lt, decide_eq_true_eq]

/-- **The first point.**  It is (1, 1) exactly if there is a threshold, and the least score is
    positive and not whole: only then the first threshold is below it. -/
theorem first_point_iff (hwith : withcr ≠ []) (hwithout : withoutcr ≠ [])
    (t : Thresholds withcr withoutcr) : t.points.head? = some (1, 1) ↔
      pyInt t.minimal < pyInt t.maximal ∧ 0 < t.minimal ∧ ∀ n : ℤ, t.minimal ≠ n := by
  rw [← pyInt_lt_iff]
  unfold Thresholds.points Thresholds.list
  by_cases hrange : pyInt t.minimal < pyInt t.maximal
  · rw [List.head?_map, head?_pyRange hrange, Option.map_some, Option.some_inj, Prod.mk_inj,
      above_eq_one_iff hwithout, above_eq_one_iff hwith, and_iff_right hrange]
    constructor
    · rintro ⟨hother, hscore⟩
      -- the least score belongs to one of the two lists
      rcases List.mem_append.mp t.minimal_mem with hmem | hmem
      · exact hscore _ hmem
      · exact hother _ hmem
    · intro hlt
      exact ⟨fun x hx => lt_of_lt_of_le hlt (t.minimal_le x (List.mem_append_right _ hx)),
        fun x hx => lt_of_lt_of_le hlt (t.minimal_le x (List.mem_append_left _ hx))⟩
  · -- without a threshold there is no point
    have hnil : pyRange (pyInt t.minimal) (pyInt t.maximal) = [] := by
      apply List.eq_nil_iff_forall_not_mem.mpr
      intro i hi
      rw [mem_pyRange] at hi
      omega
    rw [hnil]
    exact iff_of_false (by simp) fun h => hrange h.1

/-- Every threshold is below the greatest score, so no point is (0, 0). -/
theorem zero_not_mem_points (t : Thresholds withcr withoutcr) : (0, 0) ∉ t.points := by
  intro hmem
  obtain ⟨i, hi, hpoint⟩ := List.mem_map.mp hmem
  obtain ⟨hother, hscore⟩ := Prod.mk_inj.mp hpoint
  have hlt : (i : ℚ) < t.maximal := by
    -- `range` stops in front of its end
    have hstop : (i : ℚ) + 1 ≤ pyInt t.maximal := by
      exact_mod_cast (mem_pyRange.mp hi).2
    have hcut := pyInt_lt_add_one t.maximal
    linarith
  -- so the greatest score is above it, on one of the two sides
  rcases List.mem_append.mp t.maximal_mem with hmem | hmem
  · exact ((above_pos_iff i).mpr ⟨_, hmem, hlt⟩).ne' hscore
  · exact ((above_pos_iff i).mpr ⟨_, hmem, hlt⟩).ne' hother

/-- **The sweep is never complete.**  Whatever the scores, the points do not come down to (0, 0). -/
theorem sweep_never_complete (mseHistWithcr mseHistWithoutcr : List ℚ) (threshold : ℤ) :
    ¬ SweepsRocCurve mseHistWithcr mseHistWithoutcr threshold := by
  rintro ⟨rates, hmain, hcurve⟩
  by_cases hnone : mseHistWithcr = [] ∨ mseHistWithoutcr = []
  · cases hmain.symm.trans (main_eq_none hnone threshold)
  · rw [not_or] at hnone
    obtain ⟨t, ht⟩ := main_eq_some hnone.1 hnone.2 threshold
    obtain rfl := Option.some.inj (hmain.symm.trans ht)
    have hlast := hcurve.last
    rw [t.zip_eq] at hlast
    exact zero_not_mem_points t (List.mem_of_getLast? hlast)

/-- Scores of 1 and 3 with co-residency, 0 and 2 without: the curve goes from (1/2, 1) to
    (0, 1/2). -/
theorem sweep_clipped : ¬ SweepsRocCurve [1, 3] [0, 2] 1 := by
  rintro ⟨rates, hmain, hcurve⟩
  have hrates : main [1, 3] [0, 2] 1
      = some ⟨[1, 1 / 2, 1 / 2], [1 / 2, 1 / 2, 0], 1 / 2, 1 / 2⟩ := by decide +kernel
  obtain rfl := Option.some.inj (hmain.symm.trans hrates)
  have hlast := hcurve.last
  exact absurd hlast (by decide +kernel)

end SuccessRates

end NetworkExperiment
