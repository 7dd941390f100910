import Mathlib.Tactic.IntervalCases
import NetworkExperiment.Lib.WordBytes
import NetworkExperiment.Util.Random

namespace NetworkExperiment

open BitFields WordBytes

/-!
# 64-bit words in network order

`htonll64`, `ntohll64` and `b64UnitTest` of `cmpsc311_util.c`, on a machine of either kind:

* `bswap64` — the macro that reverses the bytes, mask by mask;
* `htonll64` / `ntohll64` — the byte order of the machine is found out by a word in its memory;
* `reversed_bswap64` — the masks and shifts of the macro do reverse the bytes;
* `htonll64_exchange` — what one machine sends is what another one receives;
* `b64UnitTest_passes` — the unit test passes, whatever it draws.
-/

/-! ### The calls -/

/-- `uint64_t`. -/
abbrev Word64 := BitVec (8 * 8)

/-- `CMPSC_BSWAP64`. -/
def bswap64 (val : Word64) : Word64 :=
  ((val &&& 0x00000000000000ff) <<< 56) |||
  ((val &&& 0x000000000000ff00) <<< 40) |||
  ((val &&& 0x0000000000ff0000) <<< 24) |||
  ((val &&& 0x00000000ff000000) <<< 8) |||
  ((val &&& 0x000000ff00000000) >>> 8) |||
  ((val &&& 0x0000ff0000000000) >>> 24) |||
  ((val &&& 0x00ff000000000000) >>> 40) |||
  ((val &&& 0xff00000000000000) >>> 56)

/-- `*ptr == 0x1`, where `ptr` points to a `uint32_t` of value 1. -/
def firstByteIsOne (e : Endianness) : Bool :=
  (store e (1 : BitVec (8 * 4))).head? = some 1

/-- `htonll64`. -/
def htonll64 (e : Endianness) (val : Word64) : Word64 :=
  if firstByteIsOne e then bswap64 val else val

/-- `ntohll64`. -/
def ntohll64 (e : Endianness) (val : Word64) : Word64 :=
  if firstByteIsOne e then bswap64 val else val

/-- The loop of `b64UnitTest`; round `i` draws the two words `high i` and `low i`. -/
def b64Loop (e : Endianness) (high low : ℕ → UInt32) : (todo i : ℕ) → ℤ
  | 0, _ => 0
  | todo + 1, i =>
      let drawn (word : UInt32) : Word64 := (getRandomValue word 0 (-1)).toBitVec.setWidth 64
      let val : Word64 := (drawn (high i) <<< 32) ||| drawn (low i)
      let oval := ntohll64 e (htonll64 e val)
      if val ≠ oval then -1 else b64Loop e high low todo (i + 1)

/-- `b64UnitTest`. -/
def b64UnitTest (e : Endianness) (high low : ℕ → UInt32) : ℤ := b64Loop e high low 1000 0

/-! ### Reversing the bytes -/

variable {e : Endianness} {val : Word64}

/-- The macro moves single bytes. -/
theorem bswap64_eq (val : Word64) : bswap64 val =
    ((val &&& ones 64 8 <<< (8 * 0)) <<< (8 * 7)) |||
    ((val &&& ones 64 8 <<< (8 * 1)) <<< (8 * 5)) |||
    ((val &&& ones 64 8 <<< (8 * 2)) <<< (8 * 3)) |||
    ((val &&& ones 64 8 <<< (8 * 3)) <<< (8 * 1)) |||
    ((val &&& ones 64 8 <<< (8 * 4)) >>> (8 * 1)) |||
    ((val &&& ones 64 8 <<< (8 * 5)) >>> (8 * 3)) |||
    ((val &&& ones 64 8 <<< (8 * 6)) >>> (8 * 5)) |||
    ((val &&& ones 64 8 <<< (8 * 7)) >>> (8 * 7)) := rfl

/-- **The macro.**  It reverses the bytes. -/
theorem reversed_bswap64 (val : Word64) : Reversed val (bswap64 val) := by
  intro k hk
  have hin : 8 * k + 8 ≤ 64 := by omega
  rw [bswap64_eq]
  simp only [byteAt_or, byteAt_up val hin, byteAt_down]
  -- of the eight bytes, one is moved to place `k`
  interval_cases k <;> simp

/-! ### Machines of either kind -/

/-- The test of the functions: the lowest byte of a word comes first in memory. -/
theorem firstByteIsOne_eq (e : Endianness) : firstByteIsOne e = decide (e = .little) := by
  cases e <;> decide

/-- A machine that has the lowest byte first reverses the bytes, the other one keeps them: in
    memory the highest byte comes first. -/
theorem store_htonll64 (e : Endianness) (val : Word64) :
    store e (htonll64 e val) = store .big val := by
  rw [htonll64, firstByteIsOne_eq]
  cases e with
  | little => exact store_of_reversed (reversed_bswap64 val)
  | big => rfl

/-- The bytes of a word in network order. -/
theorem store_big (val : Word64) :
    store .big val = (List.range 8).map fun k => UInt8.ofNat (val.toNat / 256 ^ (7 - k)) := by
  apply List.ext_getElem
  · rw [length_store, List.length_map, List.length_range]
  · intro k hk _
    rw [length_store] at hk
    simp only [store, Endianness.order, List.getElem_map, List.getElem_range, List.getElem_reverse,
      List.length_map, List.length_range]
    apply UInt8.toNat_inj.mp
    rw [toNat_byteAt, UInt8.toNat_ofNat']

/-- What the receiver makes of bytes in network order. -/
theorem ntohll64_load (e : Endianness) {bs : List UInt8} (h : bs.length = 8) :
    ntohll64 e (load e 8 bs) = load .big 8 bs := by
  rw [ntohll64, firstByteIsOne_eq]
  cases e with
  | little =>
    have hmem : store .little (bswap64 (load .little 8 bs)) = bs.reverse := by
      rw [store_of_reversed (reversed_bswap64 _), ← store_reverse, store_load .little h]
    calc bswap64 (load .little 8 bs)
        = load .little 8 (store .little (bswap64 (load .little 8 bs))) := (load_store _ _).symm
      _ = load .big 8 bs := by rw [hmem, load_reverse]
  | big => rfl

/-! ### The network -/

/-- **Exchange.**  Between any two machines: what is sent in network order are the base-256 digits
    of the number, the highest first; the receiver gets the number that was sent; and bytes that
    are received and sent on leave as they came. -/
theorem htonll64_exchange (sender receiver : Endianness) :
    (∀ val, store sender (htonll64 sender val)
      = (List.range 8).map fun k => UInt8.ofNat (val.toNat / 256 ^ (7 - k))) ∧
    (∀ val, ntohll64 receiver (load receiver 8 (store sender (htonll64 sender val))) = val) ∧
    ∀ bs : List UInt8, bs.length = 8 →
      store receiver (htonll64 receiver (ntohll64 receiver (load receiver 8 bs))) = bs := by
  refine ⟨?_, ?_, ?_⟩
  · intro val
    rw [store_htonll64, store_big]
  · intro val
    rw [store_htonll64, ntohll64_load receiver (length_store _ _), load_store]
  · intro bs hbs
    rw [store_htonll64, ntohll64_load receiver hbs, store_load .big hbs]

/-- One machine undoes what it has done. -/
theorem ntohll64_htonll64 (e : Endianness) (val : Word64) : ntohll64 e (htonll64 e val) = val := by
  have hload := ntohll64_load e (length_store .big val)
  rw [← store_htonll64 e, load_store, store_htonll64, load_store] at hload
  exact hload

/-- **The unit test.**  It passes on either machine, whatever it draws. -/
theorem b64UnitTest_passes (e : Endianness) (high low : ℕ → UInt32) :
    b64UnitTest e high low = 0 := by
  have hloop : ∀ todo i, b64Loop e high low todo i = 0 := by
    intro todo
    induction todo with
    | zero => exact fun i => rfl
    | succ todo ih =>
      intro i
      rw [b64Loop]
      dsimp only
      rw [ntohll64_htonll64, if_neg (not_not.mpr rfl), ih]
  exact hloop 1000 0

end NetworkExperiment
