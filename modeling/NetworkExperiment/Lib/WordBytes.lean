import Mathlib.Tactic.NormNum
import NetworkExperiment.Lib.BitField

namespace WordBytes

open BitFields

/-!
# Words in the memory of a machine

A word of `8 * n` bits lies in memory as `n` bytes, and the machine says in which order:

* `byteAt` — a byte of a word, counted from the lowest one;
* `Endianness` / `store` / `load` — the bytes of a word in memory, and the word of some bytes;
* `load_store` / `store_load` — the word and the bytes determine each other;
* `store_of_reversed` — a word with the bytes of another one in the opposite order lies in memory as
  that one does on a machine of the other kind;
* `byteAt_up` / `byteAt_down` — a single byte that is masked out and shifted to another place.
-/

variable {m n : ℕ}

/-! ### The bytes of a word -/

/-- Byte `k` of a word; byte `0` is the lowest. -/
def byteAt (x : BitVec m) (k : ℕ) : UInt8 := UInt8.ofBitVec (x.extractLsb' (8 * k) 8)

/-- Bit `i` of byte `k`. -/
theorem getLsbD_byteAt (x : BitVec m) (k i : ℕ) :
    (byteAt x k).toBitVec.getLsbD i = (decide (i < 8) && x.getLsbD (8 * k + i)) := by
  rw [byteAt, UInt8.toBitVec_ofBitVec, BitVec.getLsbD_extractLsb']

/-- As a number, a byte is a digit to the base of 256. -/
theorem toNat_byteAt (x : BitVec m) (k : ℕ) :
    (byteAt x k).toNat = x.toNat / 256 ^ k % 256 := by
  have hpow : 2 ^ (8 * k) = 256 ^ k := pow_mul 2 8 k
  rw [byteAt, UInt8.toNat_ofBitVec, BitVec.extractLsb'_toNat, Nat.shiftRight_eq_div_pow, hpow]

/-- Bytes with the same bits are the same. -/
theorem byte_ext {a b : UInt8} (h : ∀ i < 8, a.toBitVec.getLsbD i = b.toBitVec.getLsbD i) :
    a = b := UInt8.toBitVec_inj.mp (BitVec.eq_of_getLsbD_eq h)

/-- Words with the same bytes are the same. -/
theorem word_ext {x y : BitVec (8 * n)} (h : ∀ k < n, byteAt x k = byteAt y k) : x = y := by
  apply BitVec.eq_of_getLsbD_eq
  intro p hp
  -- bit `p` is bit `p % 8` of byte `p / 8`
  have hmod : p % 8 < 8 := Nat.mod_lt p (by decide)
  have hbyte := h (p / 8) (Nat.div_lt_of_lt_mul hp)
  calc x.getLsbD p
      = (byteAt x (p / 8)).toBitVec.getLsbD (p % 8) := by
        rw [getLsbD_byteAt, Nat.div_add_mod, decide_eq_true hmod, Bool.true_and]
    _ = y.getLsbD p := by
        rw [hbyte, getLsbD_byteAt, Nat.div_add_mod, decide_eq_true hmod, Bool.true_and]

/-- The bytes of a disjunction. -/
theorem byteAt_or (x y : BitVec m) (k : ℕ) : byteAt (x ||| y) k = byteAt x k ||| byteAt y k := by
  apply byte_ext
  intro i hi
  rw [UInt8.toBitVec_or, BitVec.getLsbD_or, getLsbD_byteAt, getLsbD_byteAt, getLsbD_byteAt,
    BitVec.getLsbD_or, Bool.and_or_distrib_left]

/-! ### Memory -/

/-- The order in which a machine keeps the bytes of a word. -/
inductive Endianness
  /-- The lowest byte comes first. -/
  | little
  /-- The highest byte comes first. -/
  | big
deriving DecidableEq, Repr

/-- The bytes of a word in the order of the machine. -/
def Endianness.order (e : Endianness) (bs : List UInt8) : List UInt8 :=
  match e with
  | .little => bs
  | .big => bs.reverse

/-- The bytes of a word of `8 * n` bits in memory. -/
def store (e : Endianness) (x : BitVec (8 * n)) : List UInt8 :=
  e.order ((List.range n).map (byteAt x))

/-- The number of some bytes, the lowest of them first: they are its digits to the base of 256. -/
def ofBytes : List UInt8 → ℕ
  | [] => 0
  | b :: bs => b.toNat + 256 * ofBytes bs

/-- The word of `8 * n` bits that some bytes in memory make. -/
def load (e : Endianness) (n : ℕ) (bs : List UInt8) : BitVec (8 * n) :=
  BitVec.ofNat (8 * n) (ofBytes (e.order bs))

variable {e : Endianness} {bs : List UInt8} {x y : BitVec (8 * n)}

@[simp] theorem order_order (e : Endianness) (bs : List UInt8) : e.order (e.order bs) = bs := by
  cases e with
  | little => rfl
  | big => exact List.reverse_reverse bs

@[simp] theorem length_order (e : Endianness) (bs : List UInt8) :
    (e.order bs).length = bs.length := by
  cases e with
  | little => rfl
  | big => exact List.length_reverse

@[simp] theorem length_store (e : Endianness) (x : BitVec (8 * n)) : (store e x).length = n := by
  rw [store, length_order, List.length_map, List.length_range]

/-- A digit of the number of some bytes; behind them all digits are 0. -/
theorem ofBytes_digit (bs : List UInt8) (k : ℕ) :
    ofBytes bs / 256 ^ k % 256 = (bs[k]?.map (·.toNat)).getD 0 := by
  induction bs generalizing k with
  | nil => simp [ofBytes]
  | cons b bs ih =>
    have hb := b.toNat_lt
    cases k with
    | zero =>
      rw [ofBytes, pow_zero, Nat.div_one]
      show _ = b.toNat
      omega
    | succ k =>
      have hhigh : (b.toNat + 256 * ofBytes bs) / 256 = ofBytes bs := by omega
      rw [ofBytes, pow_succ', ← Nat.div_div_eq_div_mul, hhigh, ih]
      rfl

/-- The word of some bytes has these bytes, as far as they fit; where there are none, it is filled
    up with zeros. -/
theorem byteAt_ofBytes {k : ℕ} (hk : k < n) :
    byteAt (BitVec.ofNat (8 * n) (ofBytes bs)) k = bs[k]?.getD 0 := by
  apply UInt8.toNat_inj.mp
  -- what the width cuts off lies above byte `k`
  have hpow : 2 ^ (8 * n) = 256 ^ k * 256 * 256 ^ (n - k - 1) := by
    rw [pow_mul, ← pow_succ, ← pow_add]
    congr 1
    omega
  rw [toNat_byteAt, BitVec.toNat_ofNat, hpow, Nat.mul_assoc, Nat.mod_mul_right_div_self,
    Nat.mod_mul_right_mod, ofBytes_digit]
  cases bs[k]? <;> rfl

/-- **Loading what was stored.**  A word comes back from memory, whatever the order is. -/
@[simp] theorem load_store (e : Endianness) (x : BitVec (8 * n)) : load e n (store e x) = x := by
  apply word_ext
  intro k hk
  rw [load, store, order_order, byteAt_ofBytes hk, List.getElem?_map,
    List.getElem?_range hk]
  rfl

/-- **Storing what was loaded.**  As many bytes as the word has are stored again as they were. -/
theorem store_load (e : Endianness) (h : bs.length = n) : store e (load e n bs) = bs := by
  have hbytes : (List.range n).map (byteAt (load e n bs)) = e.order bs := by
    apply List.ext_getElem?
    intro k
    rw [List.getElem?_map]
    by_cases hk : k < n
    · have hin : k < (e.order bs).length := by rw [length_order, h]; exact hk
      rw [List.getElem?_range hk, Option.map_some, load, byteAt_ofBytes hk,
        List.getElem?_eq_getElem hin]
      rfl
    · have hout : (e.order bs).length ≤ k := by rw [length_order, h]; omega
      rw [List.getElem?_eq_none hout, List.getElem?_eq_none (by rw [List.length_range]; omega)]
      rfl
  rw [store, hbytes, order_order]

/-- The two orders are opposite, for a word in memory -/
theorem store_reverse (x : BitVec (8 * n)) : (store .little x).reverse = store .big x := rfl

/-- and for the bytes of one. -/
theorem load_reverse (n : ℕ) (bs : List UInt8) : load .little n bs.reverse = load .big n bs := rfl

/-- The bytes of `y` are those of `x` in the opposite order. -/
def Reversed (x y : BitVec (8 * n)) : Prop := ∀ k < n, byteAt y k = byteAt x (n - 1 - k)

/-- **Reversed words.**  On a machine with the lowest byte first, the reversed word lies in memory
    as the word does on one with the highest byte first. -/
theorem store_of_reversed (h : Reversed x y) : store .little y = store .big x := by
  apply List.ext_getElem
  · rw [length_store, length_store]
  · intro k hk _
    rw [length_store] at hk
    simp only [store, Endianness.order, List.getElem_map, List.getElem_range, List.getElem_reverse,
      List.length_map, List.length_range]
    exact h k hk

/-! ### Shifted bytes -/

/-- A byte that is masked out, its lowest bit at position `a`: all other bits are 0. -/
theorem getLsbD_masked (x : BitVec m) (a p : ℕ) :
    (x &&& ones m 8 <<< a).getLsbD p = (decide (a ≤ p ∧ p < a + 8) && x.getLsbD p) := by
  rw [BitVec.getLsbD_and, BitVec.getLsbD_shiftLeft, getLsbD_ones, Bool.and_comm]
  by_cases hp : p < m
  · congr 1
    have hpa : p - a < m := by omega
    by_cases hlow : p < a
    · simp [hlow]
    · simp [hp, hpa, hlow, show p - a < 8 ↔ p < a + 8 by omega, Nat.le_of_not_lt hlow]
  · rw [BitVec.getLsbD_of_ge x p (Nat.le_of_not_lt hp), Bool.and_false, Bool.and_false]

/-- A byte that is masked out and shifted up: it is byte `j + s` then, and all other bytes are
    0. -/
theorem byteAt_up (x : BitVec m) {j s k : ℕ} (hk : 8 * k + 8 ≤ m) :
    byteAt ((x &&& ones m 8 <<< (8 * j)) <<< (8 * s)) k = if k = j + s then byteAt x j else 0 := by
  apply byte_ext
  intro i hi
  have hm : 8 * k + i < m := by omega
  rw [getLsbD_byteAt, BitVec.getLsbD_shiftLeft, getLsbD_masked, decide_eq_true hi,
    decide_eq_true hm]
  by_cases hkj : k = j + s
  · -- the byte itself
    have hp : 8 * k + i - 8 * s = 8 * j + i := by omega
    have hlow : ¬ 8 * k + i < 8 * s := by omega
    rw [if_pos hkj, getLsbD_byteAt, hp]
    simp [hi, hlow]
  · -- a bit of another byte was shifted in, or masked out
    have hout : 8 * k + i < 8 * s ∨
        ¬ (8 * j ≤ 8 * k + i - 8 * s ∧ 8 * k + i - 8 * s < 8 * j + 8) := by omega
    rw [if_neg hkj]
    rcases hout with hlow | hmask
    · simp [hlow]
    · rw [decide_eq_false hmask, Bool.false_and, Bool.and_false, Bool.and_false]
      exact BitVec.getLsbD_zero.symm

/-- A byte that is masked out and shifted down: it is byte `j - s` then, if there is such a byte,
    and all other bytes are 0. -/
theorem byteAt_down (x : BitVec m) {j s k : ℕ} :
    byteAt ((x &&& ones m 8 <<< (8 * j)) >>> (8 * s)) k = if k + s = j then byteAt x j else 0 := by
  apply byte_ext
  intro i hi
  rw [getLsbD_byteAt, BitVec.getLsbD_ushiftRight, getLsbD_masked, decide_eq_true hi]
  by_cases hkj : k + s = j
  · have hp : 8 * s + (8 * k + i) = 8 * j + i := by omega
    rw [if_pos hkj, getLsbD_byteAt, hp]
    simp [hi]
  · have hmask : ¬ (8 * j ≤ 8 * s + (8 * k + i) ∧ 8 * s + (8 * k + i) < 8 * j + 8) := by omega
    rw [if_neg hkj, decide_eq_false hmask, Bool.false_and, Bool.and_false]
    exact BitVec.getLsbD_zero.symm

end WordBytes
