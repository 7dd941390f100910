import Mathlib.Data.BitVec

namespace FlagMasks

/-!
# Flags in a word

A word of `n` bits that stands for a set of flags, flag `i` being the word `2 ^ i`:

* `union` — the word in which all flags of a list are set;
* `and_twoPow_ne_zero_iff` — testing a flag reads its bit;
* `twoPow_inj` — different flags are different words;
* `getLsbD_union_flags` — which bits a union of flags has.
-/

variable {n : ℕ}

/-- The union of some words, `a | b | …`. -/
def union (masks : List (BitVec n)) : BitVec n := masks.foldr (· ||| ·) 0

/-- A bit is set in the union if it is set in one of the words. -/
theorem getLsbD_union (masks : List (BitVec n)) (i : ℕ) :
    (union masks).getLsbD i = masks.any (·.getLsbD i) := by
  induction masks with
  | nil => exact BitVec.getLsbD_zero
  | cons m masks ih =>
    rw [List.any_cons, ← ih, ← BitVec.getLsbD_or]
    rfl

/-- A flag has one bit. -/
theorem getLsbD_twoPow_iff {i j : ℕ} : (BitVec.twoPow n j).getLsbD i = true ↔ j < n ∧ j = i := by
  rw [BitVec.getLsbD_twoPow, Bool.and_eq_true, decide_eq_true_iff, decide_eq_true_iff]

/-- Testing a flag reads its bit. -/
theorem and_twoPow_ne_zero_iff {x : BitVec n} {i : ℕ} (hi : i < n) :
    x &&& BitVec.twoPow n i ≠ 0 ↔ x.getLsbD i = true := by
  rw [BitVec.and_twoPow]
  by_cases hbit : x.getLsbD i = true
  · rw [if_pos hbit]
    refine iff_of_true ?_ hbit
    intro hzero
    have hset : (BitVec.twoPow n i).getLsbD i = true := getLsbD_twoPow_iff.mpr ⟨hi, rfl⟩
    rw [hzero] at hset
    exact Bool.false_ne_true (BitVec.getLsbD_zero.symm.trans hset)
  · rw [if_neg hbit]
    exact iff_of_false (fun hne => hne rfl) hbit

/-- Different flags are different words. -/
theorem twoPow_inj {i j : ℕ} (hi : i < n) (h : BitVec.twoPow n i = BitVec.twoPow n j) : i = j := by
  have hbit : (BitVec.twoPow n i).getLsbD i = true := getLsbD_twoPow_iff.mpr ⟨hi, rfl⟩
  rw [h] at hbit
  exact (getLsbD_twoPow_iff.mp hbit).2.symm

/-- A union of flags has the bits of the flags. -/
theorem getLsbD_union_flags {masks : List (BitVec n)} {k i : ℕ}
    (h : masks ⊆ (List.range k).map (BitVec.twoPow n)) (hi : i < n) :
    (union masks).getLsbD i = decide (BitVec.twoPow n i ∈ masks) := by
  rw [getLsbD_union, Bool.eq_iff_iff, List.any_eq_true, decide_eq_true_iff]
  constructor
  · rintro ⟨m, hm, hbit⟩
    obtain ⟨j, -, rfl⟩ := List.mem_map.mp (h hm)
    rwa [← (getLsbD_twoPow_iff.mp hbit).2]
  · intro hm
    exact ⟨_, hm, getLsbD_twoPow_iff.mpr ⟨hi, rfl⟩⟩

end FlagMasks
