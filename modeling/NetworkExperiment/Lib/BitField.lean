import Mathlib.Data.BitVec
import Mathlib.Data.Nat.Bitwise
import Mathlib.Tactic.Ring

namespace BitFields

/-!
# Bit fields of a word

A word of `n` bits that holds several small values side by side, each in a field of its own:

* `Field` — a run of `width` bits that begins at bit `start` (bit `0` is the lowest);
* `Field.get` / `Field.set` — the value of a field and the write that masks a value in;
* `shiftRight_and_ones` — a shift and a mask read the field;
* `get_set_self`, `get_set_of_disjoint`, `set_comm` — disjoint fields behave as independent
  variables;
* `getLsbD_set_of_not_covers` — a write changes no bit outside its field;
* `columns` / `columns_add` / `columns_get` — the bits of a word written down with the highest one
  first, in which a field is a run of columns.

Every law is read off the bits: `getLsbD_get` and `getLsbD_set` say which bit of the result comes
from where, and the rest is arithmetic on positions.
-/

variable {n : ℕ}

/-! ### Masks -/

/-- The word whose lowest `w` bits are ones. -/
def ones (n w : ℕ) : BitVec n := BitVec.ofNat n (2 ^ w - 1)

/-- Bit `i` of the mask is set for `i < w`. -/
@[simp] theorem getLsbD_ones (w i : ℕ) :
    (ones n w).getLsbD i = (decide (i < n) && decide (i < w)) := by
  rw [ones, BitVec.getLsbD_ofNat, Nat.testBit_two_pow_sub_one]

/-- The mask is what `(1 << w) - 1` computes. -/
theorem one_shiftLeft_sub_one (w : ℕ) : (1#n <<< w) - 1#n = ones n w := by
  have hpos : 0 < 2 ^ w := Nat.two_pow_pos w
  have hsum : ones n w + 1#n = 1#n <<< w := by
    apply BitVec.eq_of_toNat_eq
    rw [← BitVec.twoPow_eq, ones, BitVec.toNat_add, BitVec.toNat_twoPow, BitVec.toNat_ofNat,
      BitVec.toNat_ofNat, ← Nat.add_mod, Nat.sub_add_cancel hpos]
  rw [← hsum, BitVec.add_sub_cancel]

/-- The mask as a number. -/
theorem toNat_ones {w : ℕ} (hw : w ≤ n) : (ones n w).toNat = 2 ^ w - 1 := by
  have hpos : 0 < 2 ^ w := Nat.two_pow_pos w
  have hle : 2 ^ w ≤ 2 ^ n := Nat.pow_le_pow_right Nat.two_pos hw
  rw [ones, BitVec.toNat_ofNat, Nat.mod_eq_of_lt (by omega)]

/-- A value is below `2 ^ w` exactly if its bits from `w` on are clear. -/
theorem toNat_lt_two_pow_iff (x : BitVec n) (w : ℕ) :
    x.toNat < 2 ^ w ↔ ∀ i, w ≤ i → x.getLsbD i = false := by
  constructor
  · intro hx i hi
    exact Nat.testBit_lt_two_pow (lt_of_lt_of_le hx (Nat.pow_le_pow_right Nat.two_pos hi))
  · intro hclear
    exact Nat.lt_pow_two_of_testBit _ fun i hi => hclear i hi

/-! ### Fields -/

/-- A run of `width` bits that begins at bit `start`. -/
structure Field where
  /-- The lowest bit of the field. -/
  start : ℕ
  /-- The number of bits. -/
  width : ℕ

/-- Bit `i` of the word belongs to the field. -/
def Field.Covers (f : Field) (i : ℕ) : Prop := f.start ≤ i ∧ i < f.start + f.width

instance (f : Field) (i : ℕ) : Decidable (f.Covers i) := inferInstanceAs (Decidable (_ ∧ _))

/-- No bit belongs to both fields. -/
def Field.Disjoint (f g : Field) : Prop := f.start + f.width ≤ g.start ∨ g.start + g.width ≤ f.start

theorem Field.Disjoint.symm {f g : Field} (h : f.Disjoint g) : g.Disjoint f := Or.symm h

/-- The value of the field. -/
def Field.get (f : Field) (x : BitVec n) : BitVec n := (x.extractLsb' f.start f.width).setWidth n

/-- The word with the field overwritten by the low bits of `v`. -/
def Field.set (f : Field) (x v : BitVec n) : BitVec n :=
  (x &&& ~~~(ones n f.width <<< f.start)) ||| ((v <<< f.start) &&& (ones n f.width <<< f.start))

variable {f g : Field} {x v u : BitVec n}

/-- Bit `i` of a field's value is bit `start + i` of the word. -/
theorem getLsbD_get (i : ℕ) :
    (f.get x).getLsbD i = (decide (i < f.width) && x.getLsbD (f.start + i)) := by
  rw [Field.get, BitVec.getLsbD_setWidth, BitVec.getLsbD_extractLsb']
  by_cases hi : i < n
  · simp [hi]
  · simp [hi, BitVec.getLsbD_of_ge x (f.start + i) (by omega)]

/-- Shifting the field down and masking it gives its value. -/
theorem shiftRight_and_ones : (x >>> f.start) &&& ones n f.width = f.get x := by
  apply BitVec.eq_of_getLsbD_eq
  intro i hi
  rw [BitVec.getLsbD_and, BitVec.getLsbD_ushiftRight, getLsbD_ones, getLsbD_get]
  simp [hi, Bool.and_comm]

/-- Inside the field the written word has the bits of the value, outside its own. -/
theorem getLsbD_set (i : ℕ) (hi : i < n) :
    (f.set x v).getLsbD i = if f.Covers i then v.getLsbD (i - f.start) else x.getLsbD i := by
  rw [Field.set, BitVec.getLsbD_or, BitVec.getLsbD_and, BitVec.getLsbD_and, BitVec.getLsbD_not,
    BitVec.getLsbD_shiftLeft, BitVec.getLsbD_shiftLeft, getLsbD_ones]
  by_cases hc : f.Covers i
  · have hlow : ¬ i < f.start := Nat.not_lt.mpr hc.1
    have hin : i - f.start < f.width := by have := hc.2; omega
    simp [hc, hi, hlow, hin, show i - f.start < n by omega]
  · rw [if_neg hc]
    by_cases hlow : i < f.start
    · simp [hi, hlow]
    · have hout : ¬ i - f.start < f.width := by unfold Field.Covers at hc; omega
      simp [hi, hlow, hout]

/-- A write changes no bit outside its field. -/
theorem getLsbD_set_of_not_covers {i : ℕ} (hc : ¬ f.Covers i) :
    (f.set x v).getLsbD i = x.getLsbD i := by
  by_cases hi : i < n
  · rw [getLsbD_set i hi, if_neg hc]
  · rw [BitVec.getLsbD_of_ge _ _ (by omega), BitVec.getLsbD_of_ge _ _ (by omega)]

/-- A field that lies in the word holds the value written to it, if the value fits. -/
theorem get_set_self (hf : f.start + f.width ≤ n) (hv : v.toNat < 2 ^ f.width) :
    f.get (f.set x v) = v := by
  apply BitVec.eq_of_getLsbD_eq
  intro i _
  rw [getLsbD_get]
  by_cases hi : i < f.width
  · have hc : f.Covers (f.start + i) := ⟨by omega, by omega⟩
    rw [getLsbD_set _ (by omega), if_pos hc]
    simp [hi]
  · simp [hi, (toNat_lt_two_pow_iff v f.width).mp hv i (by omega)]

/-- A write leaves the value of a disjoint field alone. -/
theorem get_set_of_disjoint (hd : f.Disjoint g) : g.get (f.set x v) = g.get x := by
  apply BitVec.eq_of_getLsbD_eq
  intro i _
  rw [getLsbD_get, getLsbD_get]
  by_cases hi : i < g.width
  · have hc : ¬ f.Covers (g.start + i) := by
      unfold Field.Covers
      rcases hd with hd | hd <;> omega
    rw [getLsbD_set_of_not_covers hc]
  · simp [hi]

/-- Writes to disjoint fields commute. -/
theorem set_comm (hd : f.Disjoint g) : g.set (f.set x v) u = f.set (g.set x u) v := by
  apply BitVec.eq_of_getLsbD_eq
  intro i hi
  rw [getLsbD_set i hi, getLsbD_set i hi, getLsbD_set i hi, getLsbD_set i hi]
  by_cases hf : f.Covers i
  · -- the bit belongs to `f`, hence not to `g`
    have hg : ¬ g.Covers i := by
      unfold Field.Covers at hf ⊢
      rcases hd with hd | hd <;> omega
    simp [hf, hg]
  · simp [hf]

/-! ### Columns -/

/-- The lowest `w` bits of the word, the highest of them first. -/
def columns (w : ℕ) (x : BitVec n) : List Bool := (List.range w).map fun i => x.getLsbD (w - 1 - i)

@[simp] theorem length_columns (w : ℕ) (x : BitVec n) : (columns w x).length = w := by
  rw [columns, List.length_map, List.length_range]

/-- One column more in front. -/
theorem columns_succ (w : ℕ) (x : BitVec n) : columns (w + 1) x = x.getLsbD w :: columns w x := by
  unfold columns
  rw [List.range_succ_eq_map, List.map_cons, List.map_map]
  congr 1
  apply List.map_congr_left
  intro i hi
  have hlt := List.mem_range.mp hi
  have hpos : w + 1 - 1 - Nat.succ i = w - 1 - i := by omega
  rw [Function.comp_apply, hpos]

/-- The columns of the bits from `v` on stand in front of those of the bits below. -/
theorem columns_add (w v : ℕ) (x : BitVec n) :
    columns (w + v) x = columns w (x >>> v) ++ columns v x := by
  induction w with
  | zero => rw [Nat.zero_add]; rfl
  | succ w ih =>
    rw [Nat.succ_add, columns_succ, columns_succ, ih, BitVec.getLsbD_ushiftRight, Nat.add_comm v w]
    rfl

/-- The columns of a field show its value. -/
theorem columns_get (f : Field) (x : BitVec n) :
    columns f.width (f.get x) = columns f.width (x >>> f.start) := by
  apply List.map_congr_left
  intro i hi
  have hlt : f.width - 1 - i < f.width := by
    have hi := List.mem_range.mp hi
    omega
  rw [getLsbD_get, BitVec.getLsbD_ushiftRight, decide_eq_true hlt, Bool.true_and]

/-- The number that the columns are the binary digits of. -/
theorem foldl_columns (w : ℕ) (x : BitVec n) (a : ℕ) :
    (columns w x).foldl (fun a b => 2 * a + b.toNat) a = a * 2 ^ w + x.toNat % 2 ^ w := by
  induction w generalizing a with
  | zero => simp [columns, Nat.mod_one]
  | succ w ih =>
    have hbit : (x.getLsbD w).toNat = x.toNat / 2 ^ w % 2 := Nat.toNat_testBit x.toNat w
    rw [columns_succ, List.foldl_cons, ih, hbit, Nat.mod_pow_succ, Nat.pow_succ]
    ring

end BitFields
