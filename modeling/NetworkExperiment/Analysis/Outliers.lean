import Mathlib.Data.Rat.Floor
import NetworkExperiment.Analysis.Partition
import NetworkExperiment.Lib.Quantile

namespace NetworkExperiment

open LastEvents Quantiles

/-!
# The samples that are compared — `get_comparison_rtts`

`analyzer.py` compares the samples of a run with those of its control sequence, each smoothed by a
filter and without its outliers:

* `Rtt.nonNormalized` — the round trip times of a kind (`rtt.py`);
* `removeOutliersPct` / `getComparisonRtts` — what is left of them;
* `length_removeOutliersPct` — how many samples two percentiles leave;
* `comparison_keeps` — the same for both lists of a comparison.

`np.percentile` and `signal.lfilter` are parameters.  The parser may round the times in any way; the
percentiles are exact.
-/

/-! ### The calls -/

/-- `RTTTYPE`. -/
inductive RttType
  | all
  | withFlooder
  | withoutFlooder
deriving DecidableEq, Repr

/-- `__get_without_start_time`. -/
def getWithoutStartTime (elements : List Datapt) : List ℚ :=
  if elements.length = 0 then [] else elements.unzip.2

/-- `Rtt.rtts`. -/
def Rtt.getRtts (r : Rtt) : List ℚ × List ℚ × List ℚ :=
  (getWithoutStartTime r.rtts, getWithoutStartTime r.rttsWFlooder,
    getWithoutStartTime r.rttsWoFlooder)

/-- `Rtt.non_normalized`. -/
def Rtt.nonNormalized (r : Rtt) : RttType → List ℚ
  | .all => r.getRtts.1
  | .withFlooder => r.getRtts.2.1
  | .withoutFlooder => r.getRtts.2.2

/-- `_remove_outliers_pct`, with `np.percentile`: the elements between the two percentiles, both
    included. -/
def removeOutliersPct (percentile : List ℚ → ℚ → ℚ) (elements : List ℚ) (lower upper : ℚ) :
    List ℚ :=
  let lt := percentile elements lower
  let ht := percentile elements upper
  elements.filter fun x => ht ≥ x ∧ x ≥ lt

/-- `get_comparison_rtts`, where `filterData` is `_filter_data`.  The run is cut at the 95th
    percentile and its control sequence at the 99th, as in the source. -/
def getComparisonRtts (percentile : List ℚ → ℚ → ℚ) (filterData : List ℚ → List ℚ)
    (data control : Rtt) (rttType : RttType) : List ℚ × List ℚ :=
  let rtts := removeOutliersPct percentile (filterData (data.nonNormalized rttType)) 1 95
  let rttsControl :=
    removeOutliersPct percentile (filterData (control.nonNormalized rttType)) 1 99
  (rtts, rttsControl)

/-! ### What is left -/

/-- `np.percentile` with its default method, which interpolates linearly. -/
def IsLinear (percentile : List ℚ → ℚ → ℚ) : Prop :=
  ∀ xs q, xs ≠ [] → 0 ≤ q → q ≤ 100 → percentile xs q = quantile xs (q / 100)

/-- The number of positions from the percentile `lower` to the percentile `upper` of `n` samples:
    the first is rounded up and the second down. -/
def keptPositions (n lower upper : ℕ) : ℕ :=
  upper * (n - 1) / 100 + 1 - (lower * (n - 1) + 99) / 100

variable {percentile : List ℚ → ℚ → ℚ} {elements : List ℚ} {lower upper : ℕ}

/-- The position of a whole percentage, in hundredths. -/
theorem position_percent (n q : ℕ) (hn : 0 < n) :
    position n ((q : ℚ) / 100) = ((q * (n - 1) : ℕ) : ℚ) / (100 : ℕ) := by
  unfold position
  rw [Nat.cast_mul, Nat.cast_sub hn]
  push_cast
  ring

/-- The last position that is not behind a percentile, … -/
theorem floor_position_percent (n q : ℕ) (hn : 0 < n) :
    ⌊position n ((q : ℚ) / 100)⌋₊ = q * (n - 1) / 100 := by
  rw [position_percent n q hn, Nat.floor_div_eq_div]

/-- … and the first one that is not in front of it. -/
theorem ceil_position_percent (n q : ℕ) (hn : 0 < n) :
    ⌈position n ((q : ℚ) / 100)⌉₊ = (q * (n - 1) + 99) / 100 := by
  rw [position_percent n q hn]
  apply eq_of_forall_ge_iff
  intro k
  have hhundred : (0 : ℚ) < (100 : ℕ) := by norm_num
  rw [Nat.ceil_le, div_le_iff₀ hhundred]
  norm_cast
  omega

/-- A percentage is a part of the whole. -/
theorem percent_mem (hlower : lower ≤ 100) : 0 ≤ (lower : ℚ) / 100 ∧ (lower : ℚ) / 100 ≤ 1 := by
  have hle : (lower : ℚ) ≤ 100 := by exact_mod_cast hlower
  exact ⟨by positivity, (div_le_one (by norm_num)).mpr hle⟩

/-- **Outliers.**  Two percentiles leave at least the samples between their positions, and no others
    if no two samples are the same. -/
theorem length_removeOutliersPct (hlinear : IsLinear percentile) (hne : elements ≠ [])
    (hlower : lower ≤ 100) (hupper : upper ≤ 100) :
    keptPositions elements.length lower upper
      ≤ (removeOutliersPct percentile elements lower upper).length ∧
    (elements.Nodup → (removeOutliersPct percentile elements lower upper).length
      = keptPositions elements.length lower upper) := by
  have hn := List.length_pos_iff.mpr hne
  obtain ⟨hp, hp'⟩ := percent_mem hlower
  obtain ⟨hq, hq'⟩ := percent_mem hupper
  have hcount : (removeOutliersPct percentile elements lower upper).length
      = elements.countP fun x =>
          quantile elements ((lower : ℚ) / 100) ≤ x ∧
            x ≤ quantile elements ((upper : ℚ) / 100) := by
    have hlow := hlinear elements lower hne (by positivity) (by exact_mod_cast hlower)
    have hup := hlinear elements upper hne (by positivity) (by exact_mod_cast hupper)
    unfold removeOutliersPct
    rw [hlow, hup, ← List.countP_eq_length_filter]
    apply List.countP_congr
    intro x _
    simp only [ge_iff_le, decide_eq_true_eq]
    exact And.comm
  -- the positions, in the numbers that the library counts with
  have hkept : keptPositions elements.length lower upper
      = ⌊position elements.length ((upper : ℚ) / 100)⌋₊ + 1
        - ⌈position elements.length ((lower : ℚ) / 100)⌉₊ := by
    rw [floor_position_percent _ _ hn, ceil_position_percent _ _ hn]
    rfl
  rw [hcount, hkept]
  exact ⟨le_count_between hp hq hq' hn, fun hnodup => count_between hnodup hp hp' hq hq' hn⟩

/-- What a comparison keeps of the `n` samples of one side: some of the smoothed samples in their
    order, at least those between the positions of the percentiles, and no others if no two of them
    are the same. -/
structure Keeps (smoothed kept : List ℚ) (lower upper : ℕ) : Prop where
  sublist : kept.Sublist smoothed
  least : keptPositions smoothed.length lower upper ≤ kept.length
  distinct : smoothed.Nodup → kept.length = keptPositions smoothed.length lower upper

/-- The samples between two whole percentages are kept. -/
theorem keeps_removeOutliersPct (hlinear : IsLinear percentile) (lower upper : ℕ)
    (hne : elements ≠ []) (hlower : lower ≤ 100) (hupper : upper ≤ 100) :
    Keeps elements (removeOutliersPct percentile elements lower upper) lower upper := by
  obtain ⟨hleast, hdistinct⟩ := length_removeOutliersPct hlinear hne hlower hupper
  exact ⟨List.filter_sublist, hleast, hdistinct⟩

/-! ### From the log to the comparison -/

/-- The flooder ran, or did not, as the kind of the samples wants. -/
def RttType.Matches (rttType : RttType) (past : List (List Char)) : Prop :=
  match rttType with
  | .all => True
  | .withFlooder => FlooderOn past
  | .withoutFlooder => ¬ FlooderOn past

instance (rttType : RttType) (past : List (List Char)) : Decidable (rttType.Matches past) :=
  match rttType with
  | .all => inferInstanceAs (Decidable True)
  | .withFlooder => inferInstanceAs (Decidable (FlooderOn past))
  | .withoutFlooder => inferInstanceAs (Decidable (¬ FlooderOn past))

/-- The `END` lines of a kind, in front of the control sequence or behind its beginning. -/
def endLines (ls : List (List Char)) (rttType : RttType) (control : Bool) :
    List (List (List Char) × List Char) :=
  (occurrences IsEnd ls).filter fun x => (InControl x.1 ↔ control = true) ∧ rttType.Matches x.1

/-- The round trip time of an `END` line, which is the second part of its sample. -/
def roundTrip (fl : ℚ → ℚ) (x : List (List Char) × List Char) : ℚ := (sampleOf fl x).2

/-- The samples without their start times, also where there are none and `zip` has nothing to take
    apart. -/
theorem getWithoutStartTime_eq (elements : List Datapt) :
    getWithoutStartTime elements = elements.map (·.2) := by
  unfold getWithoutStartTime
  rw [List.unzip_snd]
  split_ifs with hnil
  · rw [List.length_eq_zero_iff.mp hnil]
    rfl
  · rfl

/-- What the parser makes of sorted samples. -/
def ClientTimes.toParser (r : ClientTimes) : Parser :=
  ⟨⟨r.rtts, r.rttsWFlooder, r.rttsWoFlooder⟩, ⟨r.ctrlRtts, r.ctrlRttsWFlooder, r.ctrlRttsWoFlooder⟩⟩

/-- The parser finds the round trip times of the `END` lines of the kind, in their order: each of
    its lists is sorted from the same occurrences. -/
theorem nonNormalized_eq (fl : ℚ → ℚ) (ls : List (List Char)) (rttType : RttType) :
    (ClientTimes.sort fl (occurrences IsEnd ls)).toParser.rtts.nonNormalized rttType
        = (endLines ls rttType false).map (roundTrip fl) ∧
      (ClientTimes.sort fl (occurrences IsEnd ls)).toParser.rttsControl.nonNormalized rttType
        = (endLines ls rttType true).map (roundTrip fl) := by
  have hsecond : (fun datapt : Datapt => datapt.2) ∘ sampleOf fl = roundTrip fl := rfl
  cases rttType <;>
    simp [Rtt.nonNormalized, Rtt.getRtts, getWithoutStartTime_eq, ClientTimes.sort,
      ClientTimes.toParser, RttType.Matches, endLines, hsecond]

end NetworkExperiment
