import Mathlib.Data.List.Basic

namespace ByteBuffers

/-!
# Fixed-size byte buffers

`Bytes n` is an array of exactly `n` bytes; the length travels with the value, so no later
proof has to re-establish it.

* `Bytes.zero` — the buffer `bzero` leaves; `Bytes.write` — `memcpy` of a byte list to an offset;
* `toList_write_zero_of_length` / `write_write` — a write of full length replaces the contents,
  and two adjacent writes from the front are one write of the concatenation;
* `le32` / `ofLe32` — a 32-bit word as four little-endian bytes, and back;
* `prefix_of_flatMap` — a concatenation of blocks of one fixed length can be cut in one
  way only, so a prefix of the bytes that ends between blocks is a prefix of the blocks.
-/

/-- An array of exactly `n` bytes. -/
@[ext] structure Bytes (n : ℕ) where
  toList : List UInt8
  length_toList : toList.length = n
deriving DecidableEq, Repr

namespace Bytes

variable {n : ℕ}

attribute [simp] length_toList

/-- `bzero(buf, n)`. -/
def zero (n : ℕ) : Bytes n := ⟨List.replicate n 0, List.length_replicate ..⟩

@[simp] theorem toList_zero (n : ℕ) : (zero n).toList = List.replicate n 0 := rfl

/-- `memcpy(buf + off, src, |src|)`.  A region that does not lie inside the buffer is not
    copied (in C it would be undefined). -/
def write (buf : Bytes n) (off : ℕ) (src : List UInt8) : Bytes n :=
  if h : off + src.length ≤ n then
    ⟨buf.toList.take off ++ src ++ buf.toList.drop (off + src.length), by simp; omega⟩
  else buf

theorem toList_write (buf : Bytes n) {off : ℕ} {src : List UInt8} (h : off + src.length ≤ n) :
    (buf.write off src).toList
      = buf.toList.take off ++ src ++ buf.toList.drop (off + src.length) := by
  rw [write, dif_pos h]

/-- A write from the front keeps the bytes behind it. -/
theorem toList_write_zero (buf : Bytes n) {src : List UInt8} (h : src.length ≤ n) :
    (buf.write 0 src).toList = src ++ buf.toList.drop src.length := by
  rw [toList_write buf (by omega)]
  simp

/-- A write of full length replaces the contents. -/
theorem toList_write_zero_of_length (buf : Bytes n) {src : List UInt8} (h : src.length = n) :
    (buf.write 0 src).toList = src := by
  rw [toList_write_zero buf (Nat.le_of_eq h), List.drop_of_length_le (by simp [h]), List.append_nil]

@[simp] theorem write_nil (buf : Bytes n) : buf.write 0 [] = buf := by
  ext1
  rw [toList_write_zero buf (by simp)]
  simp

/-- Two adjacent writes from the front are one write of the concatenation. -/
theorem write_write (buf : Bytes n) {a b : List UInt8} (h : a.length + b.length ≤ n) :
    (buf.write 0 a).write a.length b = buf.write 0 (a ++ b) := by
  ext1
  rw [toList_write _ h, toList_write_zero buf (by omega), toList_write_zero buf (by simpa using h)]
  simp [List.drop_append]

end Bytes

/-! ### Words in memory -/

/-- The four bytes of a 32-bit word in memory, least significant first. -/
def le32 (w : UInt32) : List UInt8 :=
  [UInt8.ofNat w.toNat, UInt8.ofNat (w.toNat / 256), UInt8.ofNat (w.toNat / 65536),
    UInt8.ofNat (w.toNat / 16777216)]

/-- The 32-bit word held by four bytes of memory. -/
def ofLe32 : List UInt8 → UInt32
  | [a, b, c, d] =>
    UInt32.ofNat (a.toNat + 256 * b.toNat + 65536 * c.toNat + 16777216 * d.toNat)
  | _ => 0

@[simp] theorem length_le32 (w : UInt32) : (le32 w).length = 4 := rfl

@[simp] theorem ofLe32_le32 (w : UInt32) : ofLe32 (le32 w) = w := by
  apply UInt32.toNat_inj.mp
  have hw := w.toNat_lt
  simp only [le32, ofLe32, UInt8.toNat_ofNat', UInt32.toNat_ofNat']
  omega

@[simp] theorem le32_ofLe32 {bs : List UInt8} (h : bs.length = 4) : le32 (ofLe32 bs) = bs := by
  match bs, h with
  | [a, b, c, d], _ =>
    have ha := a.toNat_lt
    have hb := b.toNat_lt
    have hc := c.toNat_lt
    have hd := d.toNat_lt
    simp only [le32, ofLe32, UInt32.toNat_ofNat', List.cons.injEq, and_true]
    refine ⟨?_, ?_, ?_, ?_⟩ <;> apply UInt8.toNat_inj.mp <;>
      simp only [UInt8.toNat_ofNat'] <;> omega

/-! ### Concatenated blocks -/

section Blocks

variable {α : Type*} {f : α → List UInt8} {n : ℕ}

/-- **Unique cutting.** Blocks of one positive length, different for different values: a prefix
    of the bytes that is itself a concatenation of blocks is a prefix of the block list. -/
theorem prefix_of_flatMap (hlen : ∀ a, (f a).length = n) (hn : 0 < n)
    (hinj : Function.Injective f) {l₁ l₂ : List α} (h : l₁.flatMap f <+: l₂.flatMap f) :
    l₁ <+: l₂ := by
  induction l₁ generalizing l₂ with
  | nil => exact List.nil_prefix
  | cons a l₁ ih =>
    obtain ⟨t, ht⟩ := h
    cases l₂ with
    | nil =>
      have := congrArg List.length ht
      simp only [List.flatMap_cons, List.flatMap_nil, List.length_append, hlen,
        List.length_nil] at this
      omega
    | cons b l₂ =>
      rw [List.flatMap_cons, List.flatMap_cons, List.append_assoc] at ht
      obtain ⟨hab, hrest⟩ := List.append_inj ht (by rw [hlen, hlen])
      obtain rfl := hinj hab
      exact (List.prefix_cons_inj a).mpr (ih ⟨t, hrest⟩)

end Blocks

end ByteBuffers
