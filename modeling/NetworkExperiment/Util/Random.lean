import Mathlib.Data.Int.CardIntervalMod
import Mathlib.Data.UInt

namespace NetworkExperiment

/-!
# Random values

* `getRandomValue` — a random number between two bounds;
* `getRandomValue_mem` — it stays between them;
* `getRandomValue_count` — and how many of the random words lead to each number.
-/

/-- `getRandomValue`, where `gcry_randomize` has written `val`. -/
def getRandomValue (val min max : UInt32) : UInt32 :=
  let rangeLength := max - min + 1
  -- it is zero for the whole range of the type
  if rangeLength ≠ 0 then val % rangeLength + min else val

variable {val min max v : UInt32}

theorem toNat_rangeLength (h : max - min + 1 ≠ 0) :
    (max - min + 1).toNat = (max - min).toNat + 1 := by
  have hlt := (max - min).toNat_lt
  have hne : (max - min + 1).toNat ≠ 0 := fun hzero => h (UInt32.toNat_inj.mp hzero)
  rw [UInt32.toNat_add, UInt32.toNat_one] at hne ⊢
  omega

/-- Where the bounds do not span the whole type, the number is the remainder counted from the lower
    bound on. -/
theorem getRandomValue_eq_iff (h : max - min + 1 ≠ 0) :
    getRandomValue val min max = v ↔ val.toNat % ((max - min).toNat + 1) = (v - min).toNat := by
  unfold getRandomValue
  dsimp only
  rw [if_pos h, ← toNat_rangeLength h, ← UInt32.toNat_mod, UInt32.toNat_inj, eq_sub_iff_add_eq]

/-- **Range.**  The number lies between the bounds. -/
theorem getRandomValue_mem (hle : min ≤ max) :
    min ≤ getRandomValue val min max ∧ getRandomValue val min max ≤ max := by
  have hbounds := UInt32.le_iff_toNat_le.mp hle
  have hmin := min.toNat_lt
  have hmax := max.toNat_lt
  have hsub := UInt32.toNat_sub_of_le _ _ hle
  rw [UInt32.le_iff_toNat_le, UInt32.le_iff_toNat_le]
  by_cases h : max - min + 1 = 0
  · -- the bounds are those of the type
    have hzero := congrArg UInt32.toNat h
    rw [UInt32.toNat_add, hsub, UInt32.toNat_one, UInt32.toNat_zero] at hzero
    have hlt := (getRandomValue val min max).toNat_lt
    omega
  · have hval := (getRandomValue_eq_iff h).mp (Eq.refl (getRandomValue val min max))
    have hmod := Nat.mod_lt val.toNat (Nat.succ_pos (max - min).toNat)
    have hlt := (getRandomValue val min max).toNat_lt
    rw [hval, UInt32.toNat_sub, Nat.succ_eq_add_one, hsub] at hmod
    omega

theorem count_congr {p q : ℕ → Prop} [DecidablePred p] [DecidablePred q] {N : ℕ}
    (h : ∀ n < N, p n ↔ q n) : N.count p = N.count q := by
  rw [Nat.count_eq_card_filter_range, Nat.count_eq_card_filter_range,
    Finset.filter_congr fun n hn => h n (Finset.mem_range.mp hn)]

/-- Where every number is in the range, each word leads to its own. -/
theorem count_whole {min max : UInt32} (h : max - min + 1 = 0) (v : UInt32) :
    (2 ^ 32).count (fun n => getRandomValue (UInt32.ofNat n) min max = v) = 1 := by
  have hiff : ∀ n < 2 ^ 32, getRandomValue (UInt32.ofNat n) min max = v ↔
      n ≡ v.toNat [MOD 2 ^ 32] := by
    intro n hn
    unfold getRandomValue Nat.ModEq
    dsimp only
    rw [if_neg (not_not.mpr h), ← UInt32.toNat_inj, UInt32.toNat_ofNat',
      Nat.mod_eq_of_lt v.toNat_lt]
  rw [count_congr hiff, Nat.count_modEq_card _ (by norm_num)]
  norm_num

/-- The words that lead to a number of the range are those with its remainder. -/
theorem count_range {min max : UInt32} (h : max - min + 1 ≠ 0) {v : UInt32}
    (hv : v - min ≤ max - min) :
    (2 ^ 32).count (fun n => getRandomValue (UInt32.ofNat n) min max = v)
      = 2 ^ 32 / ((max - min).toNat + 1) +
        if (v - min).toNat < 2 ^ 32 % ((max - min).toNat + 1) then 1 else 0 := by
  have hlt := Nat.lt_succ_of_le (UInt32.le_iff_toNat_le.mp hv)
  have hiff : ∀ n < 2 ^ 32, getRandomValue (UInt32.ofNat n) min max = v ↔
      n ≡ (v - min).toNat [MOD (max - min).toNat + 1] := by
    intro n hn
    rw [getRandomValue_eq_iff h, UInt32.toNat_ofNat', Nat.mod_eq_of_lt hn, Nat.ModEq,
      Nat.mod_eq_of_lt hlt]
  rw [count_congr hiff, Nat.count_modEq_card _ (Nat.succ_pos _), Nat.mod_eq_of_lt hlt]

/-- No word leads to any other number. -/
theorem count_outside {min max : UInt32} (h : max - min + 1 ≠ 0) {v : UInt32}
    (hv : ¬ v - min ≤ max - min) :
    (2 ^ 32).count (fun n => getRandomValue (UInt32.ofNat n) min max = v) = 0 := by
  have hnone : ∀ n < 2 ^ 32, getRandomValue (UInt32.ofNat n) min max = v ↔ False := by
    intro n hn
    -- a remainder is no greater than the difference of the bounds
    have hmod : n % ((max - min).toNat + 1) < (max - min).toNat + 1 :=
      Nat.mod_lt n (Nat.succ_pos _)
    rw [UInt32.le_iff_toNat_le] at hv
    rw [getRandomValue_eq_iff h, UInt32.toNat_ofNat', Nat.mod_eq_of_lt hn, iff_false]
    omega
  rw [count_congr hnone, Nat.count_false]

/-- **Fairness.**  Of the random words, each number from the lower bound up to the higher one gets
    its share, and the words that are left over go to the lowest numbers, one to each; the other
    numbers get none.  Where the lower bound is the greater one, the numbers wrap. -/
theorem getRandomValue_count (min max v : UInt32) :
    (2 ^ 32).count (fun n => getRandomValue (UInt32.ofNat n) min max = v)
      = if v - min ≤ max - min then
          2 ^ 32 / ((max - min).toNat + 1) +
            if (v - min).toNat < 2 ^ 32 % ((max - min).toNat + 1) then 1 else 0
        else 0 := by
  by_cases h : max - min + 1 = 0
  · have hwhole : (max - min).toNat = 2 ^ 32 - 1 := by
      have hzero := congrArg UInt32.toNat h
      have hlt := (max - min).toNat_lt
      rw [UInt32.toNat_add, UInt32.toNat_one, UInt32.toNat_zero] at hzero
      omega
    have hv : v - min ≤ max - min := by
      have hlt := (v - min).toNat_lt
      rw [UInt32.le_iff_toNat_le]
      omega
    rw [if_pos hv, count_whole h, hwhole]
    norm_num
  · by_cases hv : v - min ≤ max - min
    · rw [if_pos hv, count_range h hv]
    · rw [if_neg hv, count_outside h hv]

end NetworkExperiment
