import Mathlib.Algebra.Order.Floor.Semifield
import Mathlib.Data.List.GetD
import Mathlib.Data.List.Sort
import Mathlib.Data.Nat.Count
import Mathlib.Order.Interval.Finset.Nat
import Mathlib.Tactic.Linarith
import Mathlib.Tactic.Ring

namespace Quantiles

/-!
# Quantiles of a sample

The quantile of a finite sample by linear interpolation between two neighbours in its order:

* `ranked` — the sample in its order;
* `position` / `quantile` — the value at the position `p * (n - 1)` of the `n` ordered values;
* `quantile_le`, `le_quantile` — the values from that position on are not below the quantile, those
  up to it not above;
* `lt_quantile`, `quantile_lt` — if no value occurs twice, the values on either side of the position
  lie on either side of the quantile;
* `le_count_between`, `count_between` — so it is known how many values lie between two quantiles.
-/

/-! ### Positions -/

section Ranks

variable {α : Type*} [LinearOrder α] {xs : List α} {i j : ℕ}

/-- The values in their order. -/
def ranked (xs : List α) : List α := xs.insertionSort (· ≤ ·)

@[simp] theorem length_ranked (xs : List α) : (ranked xs).length = xs.length :=
  List.length_insertionSort ..

/-- The same values in another order. -/
theorem ranked_perm (xs : List α) : (ranked xs).Perm xs := List.perm_insertionSort ..

/-- The value at a position, which is `d` outside the sample. -/
def rank (d : α) (xs : List α) (i : ℕ) : α := (ranked xs).getD i d

theorem rank_eq_getElem (d : α) (hi : i < (ranked xs).length) :
    rank d xs i = (ranked xs)[i] := List.getD_eq_getElem _ d hi

/-- The values rise along the positions. -/
theorem rank_le (d : α) (hij : i ≤ j) (hj : j < xs.length) : rank d xs i ≤ rank d xs j := by
  rw [← length_ranked] at hj
  rw [rank_eq_getElem d (Nat.lt_of_le_of_lt hij hj), rank_eq_getElem d hj]
  rcases Nat.eq_or_lt_of_le hij with rfl | hlt
  · exact le_rfl
  · exact List.pairwise_iff_getElem.mp (List.pairwise_insertionSort (· ≤ ·) xs) i j _ hj hlt

/-- Without repetitions they rise strictly. -/
theorem rank_lt (d : α) (hnodup : xs.Nodup) (hij : i < j) (hj : j < xs.length) :
    rank d xs i < rank d xs j := by
  refine lt_of_le_of_ne (rank_le d (Nat.le_of_lt hij) hj) ?_
  rw [← length_ranked] at hj
  rw [rank_eq_getElem d (Nat.lt_trans hij hj), rank_eq_getElem d hj]
  exact List.pairwise_iff_getElem.mp ((ranked_perm xs).nodup_iff.mpr hnodup) i j _ hj hij

/-- What stands for the outside makes no difference inside the sample. -/
theorem rank_inside (d e : α) (hi : i < xs.length) : rank d xs i = rank e xs i := by
  rw [← length_ranked] at hi
  rw [rank_eq_getElem d hi, rank_eq_getElem e hi]

/-- Outside the sample it is the value that has been chosen. -/
theorem rank_outside (d : α) (hi : xs.length ≤ i) : rank d xs i = d :=
  List.getD_eq_default _ d (by rwa [length_ranked])

/-- The neighbour behind a value is not below it; at the end of the sample, the value is its own
    neighbour. -/
theorem rank_le_next (d : α) (xs : List α) (i : ℕ) :
    rank d xs i ≤ rank (rank d xs i) xs (i + 1) := by
  by_cases hi : i + 1 < xs.length
  · rw [rank_inside (rank d xs i) d hi]
    exact rank_le d (Nat.le_succ i) hi
  · rw [rank_outside (rank d xs i) (Nat.le_of_not_lt hi)]

/-- Counting the values of a kind is counting their positions, since every value has one in the
    order. -/
theorem countP_eq_count (d : α) (P : α → Prop) [DecidablePred P] (xs : List α) :
    xs.countP (fun x => P x) = xs.length.count fun i => P (rank d xs i) := by
  have hmap : ranked xs = (List.range xs.length).map (rank d xs) := by
    apply List.ext_getElem
    · rw [length_ranked, List.length_map, List.length_range]
    · intro i hi _
      rw [List.getElem_map, List.getElem_range, rank_eq_getElem d hi]
  rw [← (ranked_perm xs).countP_eq, hmap, List.countP_map]
  rfl

end Ranks

/-! ### Interpolation -/

section Between

variable {α : Type*} [Field α]

/-- The value at a part of the way from `low` to `high`. -/
def between (low high part : α) : α := low + part * (high - low)

variable [LinearOrder α] [IsStrictOrderedRing α] {low high part : α}

/-- Part of the way is not below the beginning, … -/
theorem le_between (hpart : 0 ≤ part) (h : low ≤ high) : low ≤ between low high part :=
  le_add_of_nonneg_right (mul_nonneg hpart (sub_nonneg.mpr h))

theorem lt_between (hpart : 0 < part) (h : low < high) : low < between low high part :=
  lt_add_of_pos_right low (mul_pos hpart (sub_pos.mpr h))

/-- … nor above the end. -/
theorem between_le (hpart : part ≤ 1) (h : low ≤ high) : between low high part ≤ high := by
  have hmul := mul_le_of_le_one_left (sub_nonneg.mpr h) hpart
  unfold between
  linarith

theorem between_lt (hpart : part < 1) (h : low < high) : between low high part < high := by
  have hmul := mul_lt_of_lt_one_left (sub_pos.mpr h) hpart
  unfold between
  linarith

end Between

/-! ### Quantiles -/

variable {α : Type*} [Field α] [LinearOrder α] [IsStrictOrderedRing α] [FloorSemiring α]

/-- The position of a quantile in a sample of `n` values. -/
def position (n : ℕ) (p : α) : α := p * ((n : α) - 1)

/-- The quantile of a sample: behind a whole position, part of the way to the next value.  Behind
    the last value there is no way to go. -/
def quantile (xs : List α) (p : α) : α :=
  let h := position xs.length p
  let low := rank 0 xs ⌊h⌋₊
  between low (rank low xs (⌊h⌋₊ + 1)) (h - ⌊h⌋₊)

variable {xs : List α} {p q : α} {n j : ℕ}

/-- A part of the whole has its position in the sample. -/
theorem position_nonneg (hp : 0 ≤ p) (hn : 0 < n) : 0 ≤ position n p := by
  have hone : (1 : α) ≤ n := by exact_mod_cast hn
  exact mul_nonneg hp (by linarith)

theorem position_le (hp : p ≤ 1) (hn : 0 < n) : position n p ≤ n - 1 := by
  have hone : (1 : α) ≤ n := by exact_mod_cast hn
  exact mul_le_of_le_one_left (by linarith) hp

/-- The position is behind its floor by less than one, and inside the sample. -/
theorem floor_position (hp : 0 ≤ p) (hp' : p ≤ 1) (hn : 0 < n) :
    ⌊position n p⌋₊ ≤ position n p ∧ position n p < ⌊position n p⌋₊ + 1 ∧ ⌊position n p⌋₊ < n := by
  have hnonneg := position_nonneg hp hn
  have hle := Nat.floor_le hnonneg
  refine ⟨hle, Nat.lt_floor_add_one _, ?_⟩
  -- the position is at most the last one, and so is its floor
  have hlast := position_le hp' hn
  have hlt : ((⌊position n p⌋₊ : ℕ) : α) < n := by linarith
  exact_mod_cast hlt

/-- The quantile lies between the values at the floor of its position and behind it. -/
theorem rank_floor_le (hp : 0 ≤ p) (hn : 0 < xs.length) :
    rank 0 xs ⌊position xs.length p⌋₊ ≤ quantile xs p :=
  le_between (sub_nonneg.mpr (Nat.floor_le (position_nonneg hp hn))) (rank_le_next 0 xs _)

theorem quantile_le_next (hj : ⌊position xs.length p⌋₊ + 1 < xs.length) :
    quantile xs p ≤ rank 0 xs (⌊position xs.length p⌋₊ + 1) := by
  have hpart := Nat.lt_floor_add_one (position xs.length p)
  rw [← rank_inside (rank 0 xs ⌊position xs.length p⌋₊) 0 hj]
  exact between_le (by linarith) (rank_le_next 0 xs _)

omit [IsStrictOrderedRing α] in
/-- At a whole position the quantile is the value there. -/
theorem quantile_whole (h : position xs.length p = ⌊position xs.length p⌋₊) :
    quantile xs p = rank 0 xs ⌊position xs.length p⌋₊ := by
  have hpart : position xs.length p - ⌊position xs.length p⌋₊ = 0 := sub_eq_zero.mpr h
  unfold quantile between
  dsimp only
  rw [hpart, zero_mul, add_zero]

/-- The values from the position of the quantile on are not below it. -/
theorem quantile_le (hp : 0 ≤ p) (hj : j < xs.length) (hpos : position xs.length p ≤ j) :
    quantile xs p ≤ rank 0 xs j := by
  have hfloor := Nat.floor_le (position_nonneg hp (Nat.zero_lt_of_lt hj))
  have hij : ⌊position xs.length p⌋₊ ≤ j := by exact_mod_cast hfloor.trans hpos
  -- `j` is the position itself, or behind it
  rcases Nat.eq_or_lt_of_le hij with heq | hlt
  · have hwhole := le_antisymm (hpos.trans_eq (congrArg Nat.cast heq.symm)) hfloor
    rw [quantile_whole hwhole, heq]
  · exact (quantile_le_next (Nat.lt_of_le_of_lt hlt hj)).trans (rank_le 0 hlt hj)

/-- The values up to the position of the quantile are not above it. -/
theorem le_quantile (hp : 0 ≤ p) (hp' : p ≤ 1) (hn : 0 < xs.length)
    (hpos : j ≤ position xs.length p) : rank 0 xs j ≤ quantile xs p :=
  (rank_le 0 (Nat.le_floor hpos) (floor_position hp hp' hn).2.2).trans (rank_floor_le hp hn)

/-- Without repetitions, the values below the position of the quantile are below it.  Only the
    value at the floor of the position could be the quantile itself. -/
theorem lt_quantile (hnodup : xs.Nodup) (hp : 0 ≤ p) (hp' : p ≤ 1) (hn : 0 < xs.length)
    (hpos : j < position xs.length p) : rank 0 xs j < quantile xs p := by
  obtain ⟨hfloor, -, hin⟩ := floor_position hp hp' hn
  rcases Nat.eq_or_lt_of_le (Nat.le_floor hpos.le) with heq | hlt
  · -- the position is behind `j`, so there is a value behind it too
    have hlast := position_le hp' hn
    have hnext : j + 1 < xs.length := by
      have hlt : ((j + 1 : ℕ) : α) < xs.length := by
        rw [Nat.cast_succ]
        linarith
      exact_mod_cast hlt
    rw [heq] at hpos hnext ⊢
    refine lt_between (sub_pos.mpr hpos) ?_
    rw [rank_inside _ 0 hnext]
    exact rank_lt 0 hnodup (Nat.lt_succ_self _) hnext
  · exact (rank_lt 0 hnodup hlt hin).trans_le (rank_floor_le hp hn)

/-- Without repetitions, the values above the position of the quantile are above it. -/
theorem quantile_lt (hnodup : xs.Nodup) (hp : 0 ≤ p) (hj : j < xs.length)
    (hpos : position xs.length p < j) : quantile xs p < rank 0 xs j := by
  have hfloor := Nat.floor_le (position_nonneg hp (Nat.zero_lt_of_lt hj))
  have hij : ⌊position xs.length p⌋₊ + 1 ≤ j := by exact_mod_cast hfloor.trans_lt hpos
  -- the next value, or one behind it
  rcases Nat.eq_or_lt_of_le hij with rfl | hlt
  · have hpart := Nat.lt_floor_add_one (position xs.length p)
    rw [← rank_inside (rank 0 xs ⌊position xs.length p⌋₊) 0 hj]
    refine between_lt (by linarith) ?_
    rw [rank_inside _ 0 hj]
    exact rank_lt 0 hnodup (Nat.lt_succ_self _) hj
  · exact (quantile_le_next (Nat.lt_trans hlt hj)).trans_lt (rank_lt 0 hnodup hlt hj)

/-! ### Counting -/

/-- The number of positions between two bounds. -/
theorem count_positions {a b n : ℕ} (hb : b < n) :
    n.count (fun j => a ≤ j ∧ j ≤ b) = b + 1 - a := by
  have hicc : (Finset.range n).filter (fun j => a ≤ j ∧ j ≤ b) = Finset.Icc a b := by
    ext j
    rw [Finset.mem_filter, Finset.mem_range, Finset.mem_Icc]
    omega
  rw [Nat.count_eq_card_filter_range, hicc, Nat.card_Icc]

/-- **Between two quantiles.**  There lie at least as many values as there are positions between
    the two of the quantiles.  Each of these positions has such a value. -/
theorem le_count_between (hp : 0 ≤ p) (hq : 0 ≤ q) (hq' : q ≤ 1) (hn : 0 < xs.length) :
    ⌊position xs.length q⌋₊ + 1 - ⌈position xs.length p⌉₊
      ≤ xs.countP fun x => quantile xs p ≤ x ∧ x ≤ quantile xs q := by
  obtain ⟨hfloor, -, hin⟩ := floor_position hq hq' hn
  rw [countP_eq_count 0, ← count_positions hin, Nat.count_eq_card_filter_range,
    Nat.count_eq_card_filter_range]
  apply Finset.card_le_card
  intro j hj
  rw [Finset.mem_filter, Finset.mem_range] at hj ⊢
  obtain ⟨hlt, habove, hbelow⟩ := hj
  refine ⟨hlt, quantile_le hp hlt (Nat.ceil_le.mp habove), le_quantile hq hq' hn ?_⟩
  exact (Nat.cast_le.mpr hbelow).trans hfloor

/-- **Between two quantiles.**  Without repetitions there are no more. -/
theorem count_between (hnodup : xs.Nodup) (hp : 0 ≤ p) (hp' : p ≤ 1) (hq : 0 ≤ q) (hq' : q ≤ 1)
    (hn : 0 < xs.length) : (xs.countP fun x => quantile xs p ≤ x ∧ x ≤ quantile xs q)
      = ⌊position xs.length q⌋₊ + 1 - ⌈position xs.length p⌉₊ := by
  refine le_antisymm ?_ (le_count_between hp hq hq' hn)
  rw [countP_eq_count 0, ← count_positions (floor_position hq hq' hn).2.2,
    Nat.count_eq_card_filter_range, Nat.count_eq_card_filter_range]
  apply Finset.card_le_card
  intro j hj
  rw [Finset.mem_filter, Finset.mem_range] at hj ⊢
  obtain ⟨hlt, habove, hbelow⟩ := hj
  -- a position outside would have a value outside
  refine ⟨hlt, Nat.ceil_le.mpr ?_, Nat.le_floor ?_⟩
  · exact le_of_not_gt fun hpos => not_lt_of_ge habove (lt_quantile hnodup hp hp' hn hpos)
  · exact le_of_not_gt fun hpos => not_lt_of_ge hbelow (quantile_lt hnodup hq hlt hpos)

end Quantiles
