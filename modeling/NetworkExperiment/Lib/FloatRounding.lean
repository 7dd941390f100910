import Mathlib.Data.Int.Log
import Mathlib.Data.Rat.Floor
import Mathlib.Algebra.Order.Floor.Ring
import Mathlib.Tactic.Linarith
import Mathlib.Tactic.Positivity
import Mathlib.Tactic.Ring

namespace FloatRounding

/-!
# Rounding to binary digits

Floating-point numbers with `p` binary digits, told by what rounding does to exact numbers.  The
exponent is not bounded: nothing is too great or too small here.

* `roundEven` — the closest integer, and of two the even one;
* `unitExp` / `roundTo` — the exponent of the last digit of `x`, and `x` rounded to `p` digits;
* `abs_roundTo_sub_le_of_lt` / `abs_roundTo_sub_le_mul` — the error, absolute and relative;
* `roundTo_eq_self` — what has no more than `p` digits stays;
* `roundTo_binade` — what lies between two powers of two is rounded to a multiple of one unit;
* `roundTo_sub_roundTo` / `abs_roundTo_sub_sub_le` — so the difference of two such numbers is exact,
  and its error that of the two.
-/

/-! ### Integers -/

/-- The closest integer; of two that are as close, the even one. -/
def roundEven (x : ℚ) : ℤ :=
  if x - ⌊x⌋ < 1 / 2 then ⌊x⌋
  else if 1 / 2 < x - ⌊x⌋ then ⌊x⌋ + 1
  else if ⌊x⌋ % 2 = 0 then ⌊x⌋ else ⌊x⌋ + 1

variable {x y : ℚ}

/-- It is one of the two integers around `x`. -/
theorem floor_le_roundEven (x : ℚ) : ⌊x⌋ ≤ roundEven x := by
  unfold roundEven
  split_ifs <;> omega

theorem roundEven_le_floor_add_one (x : ℚ) : roundEven x ≤ ⌊x⌋ + 1 := by
  unfold roundEven
  split_ifs <;> omega

@[simp] theorem roundEven_intCast (n : ℤ) : roundEven n = n := by
  unfold roundEven
  rw [Int.floor_intCast, sub_self, if_pos (by norm_num)]

/-- An integer below `x` is below what `x` is rounded to, -/
theorem le_roundEven {n : ℤ} (h : (n : ℚ) ≤ x) : n ≤ roundEven x :=
  (Int.le_floor.mpr h).trans (floor_le_roundEven x)

/-- and one above `x` is above it. -/
theorem roundEven_le {n : ℤ} (h : x ≤ n) : roundEven x ≤ n := by
  rcases h.lt_or_eq with hlt | rfl
  · exact (roundEven_le_floor_add_one x).trans (Int.floor_lt.mpr hlt)
  · rw [roundEven_intCast]

/-- No integer is closer: by the cases of the definition, the distance is the fraction of `x` or
    what is left of it. -/
theorem abs_roundEven_sub_le (x : ℚ) : |(roundEven x : ℚ) - x| ≤ 1 / 2 := by
  have hfloor := Int.floor_le x
  have hnext := Int.lt_floor_add_one x
  rw [abs_le]
  unfold roundEven
  split_ifs with hless hmore
  · constructor <;> linarith
  · push_cast
    constructor <;> linarith
  · constructor <;> linarith
  · push_cast
    constructor <;> linarith

/-! ### Digits -/

variable {p : ℕ} {k : ℤ}

/-- The exponent of the last of `p` binary digits of `x`: the first digit has the exponent of the
    greatest power of two below `|x|`. -/
def unitExp (p : ℕ) (x : ℚ) : ℤ := Int.log 2 |x| - (p - 1)

/-- `x` rounded to `p` binary digits: to an integer, when measured in units of its last digit. -/
def roundTo (p : ℕ) (x : ℚ) : ℚ := roundEven (x / 2 ^ unitExp p x) * 2 ^ unitExp p x

example : roundTo 3 19 = 20 := by decide +kernel

theorem roundTo_zero (p : ℕ) : roundTo p 0 = 0 := by
  have hzero := roundEven_intCast 0
  rw [Int.cast_zero] at hzero
  unfold roundTo
  rw [zero_div, hzero, Int.cast_zero, zero_mul]

theorem two_zpow_pos (k : ℤ) : (0 : ℚ) < 2 ^ k := zpow_pos (by norm_num) k

/-- The error is half a unit at most. -/
theorem abs_roundTo_sub_le (p : ℕ) (x : ℚ) : |roundTo p x - x| ≤ 2 ^ unitExp p x / 2 := by
  have hunit := two_zpow_pos (unitExp p x)
  have hround := abs_roundEven_sub_le (x / 2 ^ unitExp p x)
  have hfactor : roundTo p x - x
      = (roundEven (x / 2 ^ unitExp p x) - x / 2 ^ unitExp p x) * 2 ^ unitExp p x := by
    unfold roundTo
    rw [sub_mul, div_mul_cancel₀ _ hunit.ne']
  rw [hfactor, abs_mul, abs_of_pos hunit]
  linarith [mul_le_mul_of_nonneg_right hround hunit.le]

/-- The unit of a number below `2 ^ k`. -/
theorem unitExp_le_of_lt (hx : x ≠ 0) (h : |x| < 2 ^ k) : unitExp p x ≤ k - p := by
  have hlog : Int.log 2 |x| < k :=
    (Int.lt_zpow_iff_log_lt (by norm_num) (abs_pos.mpr hx)).mp (by exact_mod_cast h)
  unfold unitExp
  omega

/-- The absolute error of a number below `2 ^ k`, which need not be known any better. -/
theorem abs_roundTo_sub_le_of_lt (h : |x| < 2 ^ k) : |roundTo p x - x| ≤ 2 ^ (k - p) / 2 := by
  have hpos := two_zpow_pos (k - p)
  by_cases hx : x = 0
  · rw [hx, roundTo_zero, sub_zero, abs_zero]
    positivity
  · have hle : (2 : ℚ) ^ unitExp p x ≤ 2 ^ (k - p) :=
      zpow_le_zpow_right₀ (by norm_num) (unitExp_le_of_lt hx h)
    linarith [abs_roundTo_sub_le p x]

/-- The relative error.  It is the same for great and small numbers, as the unit grows with
    them. -/
theorem abs_roundTo_sub_le_mul (p : ℕ) (x : ℚ) : |roundTo p x - x| ≤ |x| / 2 ^ p := by
  by_cases hx : x = 0
  · rw [hx, roundTo_zero, sub_zero, abs_zero, zero_div]
  · -- the unit in terms of the number itself
    have hlog : (2 : ℚ) ^ Int.log 2 |x| ≤ |x| :=
      by exact_mod_cast Int.zpow_log_le_self (b := 2) (by norm_num) (abs_pos.mpr hx)
    have hunit : (2 : ℚ) ^ unitExp p x / 2 = 2 ^ Int.log 2 |x| / 2 ^ p := by
      have hexp : unitExp p x = Int.log 2 |x| - p + 1 := by
        unfold unitExp
        ring
      rw [hexp, zpow_add₀ (by norm_num), zpow_sub₀ (by norm_num), zpow_natCast, zpow_one]
      ring
    calc |roundTo p x - x| ≤ 2 ^ unitExp p x / 2 := abs_roundTo_sub_le p x
      _ = 2 ^ Int.log 2 |x| / 2 ^ p := hunit
      _ ≤ |x| / 2 ^ p := by gcongr

/-- What has no more than `p` digits stays as it is. -/
theorem roundTo_eq_self {m j : ℤ} (hm : |m| < 2 ^ p) : roundTo p (m * 2 ^ j) = m * 2 ^ j := by
  by_cases hzero : m = 0
  · rw [hzero, Int.cast_zero, zero_mul, roundTo_zero]
  have hx : (m : ℚ) * 2 ^ j ≠ 0 := mul_ne_zero (Int.cast_ne_zero.mpr hzero) (two_zpow_pos j).ne'
  have hlt : |(m : ℚ) * 2 ^ j| < 2 ^ (p + j : ℤ) := by
    rw [abs_mul, abs_of_pos (two_zpow_pos j), zpow_add₀ (by norm_num), zpow_natCast]
    exact mul_lt_mul_of_pos_right (by exact_mod_cast hm) (two_zpow_pos j)
  -- the unit is no greater than `2 ^ j`, so the number is a multiple of it
  have hle := unitExp_le_of_lt (p := p) hx hlt
  obtain ⟨d, hd⟩ := Int.eq_ofNat_of_zero_le (show 0 ≤ j - unitExp p (m * 2 ^ j) by omega)
  have hquot : (m : ℚ) * 2 ^ j / 2 ^ unitExp p (m * 2 ^ j) = (m * 2 ^ d : ℤ) := by
    rw [mul_div_assoc, ← zpow_sub₀ (by norm_num), hd]
    push_cast
    rw [zpow_natCast]
  -- in units it is an integer, which is not rounded
  unfold roundTo
  rw [hquot, roundEven_intCast, ← hquot, div_mul_cancel₀ _ (two_zpow_pos _).ne']

/-! ### Between two powers of two -/

/-- A number from `2 ^ k` up to `2 ^ (k + 1)` is rounded to a multiple of one unit, and no further
    than to the ends. -/
theorem roundTo_binade (hp : 0 < p) (hle : 2 ^ k ≤ x) (hlt : x < 2 ^ (k + 1)) :
    ∃ m : ℤ, 2 ^ (p - 1) ≤ m ∧ m ≤ 2 ^ p ∧ roundTo p x = m * 2 ^ (k - (p - 1)) := by
  have hpos : 0 < x := (two_zpow_pos k).trans_le hle
  -- all these numbers have one unit
  have hlog : Int.log 2 |x| = k := by
    rw [abs_of_pos hpos]
    apply le_antisymm
    · exact Int.lt_add_one_iff.mp ((Int.lt_zpow_iff_log_lt (by norm_num) hpos).mp
        (by exact_mod_cast hlt))
    · exact (Int.zpow_le_iff_le_log (by norm_num) hpos).mp (by exact_mod_cast hle)
  have hunit : unitExp p x = k - (p - 1) := by
    unfold unitExp
    rw [hlog]
  have hpos' := two_zpow_pos (k - (p - 1))
  refine ⟨roundEven (x / 2 ^ unitExp p x), ?_, ?_, ?_⟩
  · -- the ends are integers in units, so rounding does not cross them
    apply le_roundEven
    rw [hunit, le_div_iff₀ hpos']
    push_cast
    rw [← zpow_natCast, ← zpow_add₀ (by norm_num), Nat.cast_sub hp, Nat.cast_one,
      show ((p : ℤ) - 1) + (k - (p - 1)) = k by ring]
    exact hle
  · apply roundEven_le
    rw [hunit, div_le_iff₀ hpos']
    push_cast
    rw [← zpow_natCast, ← zpow_add₀ (by norm_num), show (p : ℤ) + (k - (p - 1)) = k + 1 by ring]
    exact hlt.le
  · unfold roundTo
    rw [hunit]

/-- A positive number stays positive: it is not less than a power of two, and neither is what it is
    rounded to. -/
theorem roundTo_pos (hp : 0 < p) (hx : 0 < x) : 0 < roundTo p x := by
  have hle : (2 : ℚ) ^ Int.log 2 x ≤ x := by
    exact_mod_cast Int.zpow_log_le_self (b := 2) (by norm_num) hx
  have hlt : x < 2 ^ (Int.log 2 x + 1) := by
    exact_mod_cast Int.lt_zpow_succ_log_self (b := 2) (by norm_num) x
  obtain ⟨m, hm, -, hround⟩ := roundTo_binade hp hle hlt
  have hpos : (0 : ℚ) < m := by
    exact_mod_cast (show (0 : ℤ) < 2 ^ (p - 1) by positivity).trans_le hm
  rw [hround]
  exact mul_pos hpos (two_zpow_pos _)

/-- The difference of two rounded numbers from one such range is exact: both are multiples of one
    unit, and what lies between them has no more digits than they have. -/
theorem roundTo_sub_roundTo (hp : 0 < p) (hlex : 2 ^ k ≤ x) (hltx : x < 2 ^ (k + 1))
    (hley : 2 ^ k ≤ y) (hlty : y < 2 ^ (k + 1)) :
    roundTo p (roundTo p x - roundTo p y) = roundTo p x - roundTo p y := by
  obtain ⟨m, hm, hm', hx⟩ := roundTo_binade hp hlex hltx
  obtain ⟨n, hn, hn', hy⟩ := roundTo_binade hp hley hlty
  have hpow : (2 : ℤ) ^ p = 2 * 2 ^ (p - 1) := by
    rw [← pow_succ', Nat.sub_add_cancel hp]
  have hhalf : (0 : ℤ) < 2 ^ (p - 1) := by positivity
  have hfits : |m - n| < 2 ^ p := by
    rw [abs_lt]
    constructor <;> omega
  rw [hx, hy, ← sub_mul, ← Int.cast_sub]
  exact roundTo_eq_self hfits

/-- It is no greater than the range that the two come from. -/
theorem abs_roundTo_sub_roundTo_le (hp : 0 < p) (hlex : 2 ^ k ≤ x) (hltx : x < 2 ^ (k + 1))
    (hley : 2 ^ k ≤ y) (hlty : y < 2 ^ (k + 1)) : |roundTo p x - roundTo p y| ≤ 2 ^ k := by
  obtain ⟨m, hm, hm', hx⟩ := roundTo_binade hp hlex hltx
  obtain ⟨n, hn, hn', hy⟩ := roundTo_binade hp hley hlty
  have hpow : (2 : ℤ) ^ p = 2 * 2 ^ (p - 1) := by
    rw [← pow_succ', Nat.sub_add_cancel hp]
  have hfits : |m - n| ≤ 2 ^ (p - 1) := by
    rw [abs_le]
    constructor <;> omega
  have hunit := two_zpow_pos (k - (p - 1))
  have hrange : (2 : ℚ) ^ (p - 1) * 2 ^ (k - (p - 1) : ℤ) = 2 ^ k := by
    rw [← zpow_natCast, ← zpow_add₀ (by norm_num), Nat.cast_sub hp, Nat.cast_one,
      show ((p : ℤ) - 1) + (k - (p - 1)) = k by ring]
  rw [hx, hy, ← sub_mul, ← Int.cast_sub, abs_mul, abs_of_pos hunit, ← hrange]
  exact mul_le_mul_of_nonneg_right (by exact_mod_cast hfits) hunit.le

/-- The error of the difference is that of the two numbers, as the subtraction adds none. -/
theorem abs_roundTo_sub_sub_le (hp : 0 < p) (hlex : 2 ^ k ≤ x) (hltx : x < 2 ^ (k + 1))
    (hley : 2 ^ k ≤ y) (hlty : y < 2 ^ (k + 1)) :
    |roundTo p (roundTo p x - roundTo p y) - (x - y)| ≤ 2 ^ (k + 1 - p) := by
  have hposx : 0 < x := (two_zpow_pos k).trans_le hlex
  have hposy : 0 < y := (two_zpow_pos k).trans_le hley
  have hx : |roundTo p x - x| ≤ 2 ^ (k + 1 - p) / 2 :=
    abs_roundTo_sub_le_of_lt (by rwa [abs_of_pos hposx])
  have hy : |roundTo p y - y| ≤ 2 ^ (k + 1 - p) / 2 :=
    abs_roundTo_sub_le_of_lt (by rwa [abs_of_pos hposy])
  rw [roundTo_sub_roundTo hp hlex hltx hley hlty]
  rw [abs_le] at hx hy ⊢
  constructor <;> linarith

/-- A quotient of it is rounded once more, by less than the error so far. -/
theorem abs_roundTo_div_sub_le (hp : 0 < p) (hlex : 2 ^ k ≤ x) (hltx : x < 2 ^ (k + 1))
    (hley : 2 ^ k ≤ y) (hlty : y < 2 ^ (k + 1)) {c : ℚ} (hc : 0 < c) :
    |roundTo p (roundTo p (roundTo p x - roundTo p y) / c) - (x - y) / c|
      ≤ 2 ^ (k + 2 - p) / c := by
  have hdiff := abs_roundTo_sub_sub_le hp hlex hltx hley hlty
  have hrange : |roundTo p (roundTo p x - roundTo p y)| ≤ 2 ^ k := by
    rw [roundTo_sub_roundTo hp hlex hltx hley hlty]
    exact abs_roundTo_sub_roundTo_le hp hlex hltx hley hlty
  -- of the difference only these two bounds matter
  generalize roundTo p (roundTo p x - roundTo p y) = d at hdiff hrange
  have hround := abs_roundTo_sub_le_mul p (d / c)
  have hquot : |d / c| / 2 ^ p ≤ 2 ^ (k - p) / c := by
    rw [abs_div, abs_of_pos hc, div_right_comm, zpow_sub₀ (by norm_num), zpow_natCast]
    gcongr
  have hfour : (2 : ℚ) ^ (k + 2 - p) = 4 * 2 ^ (k - p) := by
    rw [show k + 2 - p = k - p + 2 by ring, zpow_add₀ (by norm_num)]
    norm_num
    ring
  have htwo : (2 : ℚ) ^ (k + 1 - p) = 2 * 2 ^ (k - p) := by
    rw [show k + 1 - p = k - p + 1 by ring, zpow_add₀ (by norm_num)]
    norm_num
    ring
  have hunit := two_zpow_pos (k - p)
  calc |roundTo p (d / c) - (x - y) / c|
      ≤ |roundTo p (d / c) - d / c| + |d / c - (x - y) / c| := abs_sub_le _ _ _
    _ ≤ 2 ^ (k - p) / c + 2 ^ (k + 1 - p) / c := by
        rw [← sub_div, abs_div, abs_of_pos hc]
        gcongr
        exact hround.trans hquot
    _ = (2 ^ (k - p) + 2 ^ (k + 1 - p)) / c := (add_div _ _ _).symm
    _ ≤ 2 ^ (k + 2 - p) / c := by
        rw [hfour, htwo]
        gcongr
        linarith

end FloatRounding
