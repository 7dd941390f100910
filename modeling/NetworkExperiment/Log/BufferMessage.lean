import Mathlib.Order.Bounds.Basic
import NetworkExperiment.Lib.CharArray
import NetworkExperiment.Lib.Loop
import NetworkExperiment.Log.Message

namespace NetworkExperiment

open CStrings CharArrays Loops StateTransition

/-!
# Buffers in hexadecimal

`bufToString` of `cmpsc311_util.c`, and `logBufferMessage` of `cmpsc311_log.c`, which prints a
buffer into an array of 128 characters:

* `hexStep` / `bufToString` — the body of the loop, and the call;
* `hexString` / `ofHexString` — the groups of some bytes, and the bytes of some groups;
* `Dumped` / `hexStep_dumped` — the invariant of the loop: after `i` rounds the array holds the
  groups of the first `i` bytes;
* `hexStep_lowers` — the loop ends after 128 rounds at the latest;
* `bufToString_spec` — the string is made of as many groups as there is room for;
* `logBufferMessage_eq` — the message shows the first 25 bytes of the buffer.
-/

/-! ### The calls -/

/-- The output of `"0x%02x "`. -/
def hexGroup (b : UInt8) : List Char :=
  let digits := Nat.toDigits 16 b.toNat
  "0x".toList ++ (List.replicate (2 - digits.length) '0' ++ digits) ++ " ".toList

/-- `sprintf` into an array of `size` characters, which must have room for the `NUL` as well. -/
def sprintf (size : ℕ) (formatted : List Char) : Option (List Char) :=
  if formatted.length < size then some formatted else none

/-- The condition of the loop; the string is measured only if the first two parts are met. -/
def hexGuard (blen slen : UInt32) (i : ℕ) (str : List Char) : Option Bool :=
  if (i : ℤ) < blen.toInt32.toInt ∧ i < 128 then
    (strlen str).map fun len => UInt64.ofNat len + 5 < slen.toUInt64
  else some false

/-- The body of the loop: the group of the byte `i` is appended.  The bound of `strncat` is what
    the array has left, as the source has it, and not what it has left less one. -/
def hexAppend (buf : List UInt8) (slen : UInt32) (i : ℕ) (str : List Char) :
    Option (List Char) := do
  let b ← buf[i]?
  let sbuf ← sprintf 25 (hexGroup b)
  let len ← strlen str
  strncat str sbuf (slen.toUInt64 - UInt64.ofNat len).toNat

/-- A round of the loop; `none` is an access outside an array. -/
def hexStep (buf : List UInt8) (blen slen : UInt32) (s : ℕ × List Char) :
    (ℕ × List Char) ⊕ Option (List Char) :=
  match hexGuard blen slen s.1 s.2 with
  | none => .inr none
  | some false => .inr (some s.2)
  | some true =>
      match hexAppend buf slen s.1 s.2 with
      | none => .inr none
      | some str => .inl (s.1 + 1, str)

/-- `bufToString`: the return code and the array; `none` is an access outside an array, or a loop
    that does not end. -/
def bufToString (buf : List UInt8) (blen : UInt32) (str : List Char) (slen : UInt32) :
    Option (ℤ × List Char) := do
  let str ← store str 0 '\x00'
  let str ← (run (hexStep buf blen slen) 129 (0, str)).join
  return (0, str)

/-- `logBufferMessage`, with what its array of 128 characters holds before. -/
def logBufferMessage (env : LogEnvironment) (log : Log) (lvl : ULong) (label : List Char)
    (buf : List UInt8) (len : UInt32) (printbuf : List Char) :
    Option (ℤ × Log × List (ℤ × List Char)) := do
  if !levelEnabled log lvl then
    return (0, log, [])
  let (_, printbuf) ← bufToString buf len printbuf 128
  vlogMessage env log lvl (label ++ " : ".toList ++ terminated printbuf)

/-! ### Groups -/

/-- The groups of some bytes, one behind the other. -/
def hexString (bs : List UInt8) : List Char := bs.flatMap hexGroup

/-- The value of a digit. -/
def hexValue (c : Char) : ℕ := if c.isDigit then c.toNat - 48 else c.toNat - 87

/-- The bytes of some groups. -/
def ofHexString : List Char → List UInt8
  | _ :: _ :: high :: low :: _ :: rest =>
      UInt8.ofNat (16 * hexValue high + hexValue low) :: ofHexString rest
  | _ => []

variable {buf : List UInt8} {blen slen : UInt32} {str mem : List Char} {i : ℕ}

/-- A group has five characters: `0x`, the two digits and a blank. -/
theorem hexGroup_eq (b : UInt8) : hexGroup b
    = ['0', 'x', Nat.digitChar (b.toNat / 16), Nat.digitChar (b.toNat % 16), ' '] := by
  have hlt := b.toNat_lt
  unfold hexGroup
  by_cases hsmall : b.toNat < 16
  · rw [Nat.toDigits_of_lt_base hsmall, Nat.div_eq_of_lt hsmall, Nat.mod_eq_of_lt hsmall]
    rfl
  · rw [Nat.toDigits_of_base_le (by decide) (by omega), Nat.toDigits_of_lt_base (by omega)]
    rfl

/-- A digit is read back, … -/
theorem hexValue_digitChar : ∀ d < 16, hexValue (Nat.digitChar d) = d := by decide

/-- … and is no `NUL`, … -/
theorem digitChar_ne_nul : ∀ d < 16, Nat.digitChar d ≠ '\x00' := by decide

/-- … so that the string goes on behind a group. -/
theorem nul_not_mem_hexGroup (b : UInt8) : '\x00' ∉ hexGroup b := by
  have hlt := b.toNat_lt
  have hhigh := digitChar_ne_nul (b.toNat / 16) (by omega)
  have hlow := digitChar_ne_nul (b.toNat % 16) (by omega)
  rw [hexGroup_eq]
  simp only [List.mem_cons, List.not_mem_nil, or_false, not_or]
  exact ⟨by decide, by decide, hhigh.symm, hlow.symm, by decide⟩

/-- Five characters for each byte. -/
theorem length_hexString (bs : List UInt8) : (hexString bs).length = 5 * bs.length := by
  induction bs with
  | nil => rfl
  | cons b bs ih =>
    show (hexGroup b ++ hexString bs).length = _
    rw [hexGroup_eq, List.length_append, ih, List.length_cons]
    simp only [List.length_cons, List.length_nil]
    omega

/-- The next byte comes behind the others. -/
theorem hexString_concat (bs : List UInt8) (b : UInt8) :
    hexString (bs ++ [b]) = hexString bs ++ hexGroup b := by
  unfold hexString
  rw [List.flatMap_append, List.flatMap_singleton]

/-- **Faithful.**  The bytes are got back from their groups. -/
theorem ofHexString_hexString (bs : List UInt8) : ofHexString (hexString bs) = bs := by
  induction bs with
  | nil => rfl
  | cons b bs ih =>
    have hlt := b.toNat_lt
    show ofHexString (hexGroup b ++ hexString bs) = _
    rw [hexGroup_eq]
    show UInt8.ofNat _ :: ofHexString (hexString bs) = _
    rw [ih, hexValue_digitChar _ (by omega), hexValue_digitChar _ (by omega), Nat.div_add_mod,
      UInt8.ofNat_toNat]

/-! ### The machine words -/

/-- A length below 2^31 is the same as an `int`, with which the loop compares its counter. -/
theorem toInt_toInt32 (h : blen.toNat < 2 ^ 31) : blen.toInt32.toInt = blen.toNat := by
  show blen.toBitVec.toInt = _
  rw [BitVec.toInt_eq_toNat_of_lt]
  · rfl
  · show 2 * blen.toNat < _
    omega

/-- The test for the room of a group does not wrap. -/
theorem room_iff {len : ℕ} (h : len < 2 ^ 32) :
    UInt64.ofNat len + 5 < slen.toUInt64 ↔ len + 5 < slen.toNat := by
  have hfive : (5 : UInt64).toNat = 5 := rfl
  rw [UInt64.lt_iff_toNat_lt, UInt64.toNat_add, UInt64.toNat_ofNat', UInt32.toNat_toUInt64, hfive]
  omega

/-- Nor does the bound of the append, where the string is shorter than the array. -/
theorem toNat_room {len : ℕ} (h : len < slen.toNat) :
    (slen.toUInt64 - UInt64.ofNat len).toNat = slen.toNat - len := by
  have hlt := slen.toNat_lt
  rw [UInt64.toNat_sub, UInt64.toNat_ofNat', UInt32.toNat_toUInt64]
  omega

/-! ### The loop -/

/-- The arguments of a call: `blen` bytes of a buffer, and an array of `slen` characters or more. -/
structure DumpArguments (buf : List UInt8) (blen : UInt32) (str : List Char) (slen : UInt32) :
    Prop where
  blen_lt : blen.toNat < 2 ^ 31
  blen_le : blen.toNat ≤ buf.length
  slen_pos : 1 ≤ slen.toNat
  slen_le : slen.toNat ≤ str.length

/-- There are `k` bytes to show, and there is room for their groups. -/
structure Fits (blen slen : UInt32) (k : ℕ) : Prop where
  le_blen : k ≤ blen.toNat
  le_max : k ≤ 128
  room : k = 0 ∨ 5 * k < slen.toNat

/-- **The invariant.**  After `i` rounds the array holds the groups of `i` bytes, and behind its
    first `slen` characters it is what it was. -/
structure Dumped (buf : List UInt8) (blen : UInt32) (str : List Char) (slen : UInt32)
    (i : ℕ) (mem : List Char) : Prop where
  holds : Holds mem (hexString (buf.take i))
  length_eq : mem.length = str.length
  frame : mem.drop slen.toNat = str.drop slen.toNat
  fits : Fits blen slen i

/-- The first store leaves the empty string. -/
theorem store_dumped (h : DumpArguments buf blen str slen) :
    ∃ mem, store str 0 '\x00' = some mem ∧ Dumped buf blen str slen 0 mem := by
  have hpos := h.slen_pos
  have hle := h.slen_le
  obtain ⟨mem, hstore, hholds, hlen, hdrop⟩ := store_nul (by omega : 0 < str.length)
  exact ⟨mem, hstore, hholds, hlen, drop_eq_of_le hdrop hpos,
    ⟨Nat.zero_le _, Nat.zero_le _, .inl rfl⟩⟩

/-- The string has five characters for each round. -/
theorem length_dumped (h : DumpArguments buf blen str slen) (hd : Dumped buf blen str slen i mem) :
    (hexString (buf.take i)).length = 5 * i := by
  have hle := h.blen_le
  have hi := hd.fits.le_blen
  rw [length_hexString, List.length_take, Nat.min_eq_left (by omega)]

/-- The loop goes on exactly if one byte more fits. -/
theorem hexGuard_eq (h : DumpArguments buf blen str slen) (hd : Dumped buf blen str slen i mem) :
    hexGuard blen slen i mem
      = some (decide (i < blen.toNat ∧ i < 128 ∧ 5 * (i + 1) < slen.toNat)) := by
  have hmax := hd.fits.le_max
  unfold hexGuard
  rw [toInt_toInt32 h.blen_lt, strlen_of_holds hd.holds, length_dumped h hd]
  by_cases hi : (i : ℤ) < blen.toNat ∧ i < 128
  · rw [if_pos hi, Option.map_some]
    congr 1
    rw [decide_eq_decide, room_iff (by omega)]
    omega
  · -- the string is not measured
    rw [if_neg hi]
    congr 1
    rw [eq_comm, decide_eq_false_iff_not]
    omega

/-- **A round.**  It appends a group where there is room for one. -/
theorem hexAppend_dumped (h : DumpArguments buf blen str slen)
    (hd : Dumped buf blen str slen i mem) (hfits : Fits blen slen (i + 1)) :
    ∃ mem', hexAppend buf slen i mem = some mem' ∧ Dumped buf blen str slen (i + 1) mem' := by
  have hblen := h.blen_le
  have hslen := h.slen_le
  have hi := hfits.le_blen
  have hroom := hfits.room.resolve_left (Nat.succ_ne_zero i)
  have hlen := length_dumped h hd
  obtain ⟨b, hb⟩ : ∃ b, buf[i]? = some b := ⟨_, List.getElem?_eq_getElem (by omega)⟩
  have htake : buf.take (i + 1) = buf.take i ++ [b] := by
    rw [List.take_add_one, hb, Option.toList_some]
  have hgroup : (hexGroup b).length = 5 := by
    rw [hexGroup_eq]
    rfl
  have hsrc : terminated (hexGroup b) = hexGroup b := terminated_eq_self (nul_not_mem_hexGroup b)
  -- the bound of the append cuts nothing off
  have hcut : (hexGroup b).take (slen.toNat - 5 * i) = hexGroup b :=
    List.take_of_length_le (by omega)
  have happend : CStrings.strncat mem.length (hexString (buf.take i)) (hexGroup b)
      (slen.toNat - 5 * i) = some (hexString (buf.take (i + 1))) := by
    unfold CStrings.strncat
    rw [hsrc, hcut, htake, hexString_concat]
    apply if_pos
    rw [List.length_append, hlen, hgroup, hd.length_eq]
    omega
  -- `strncat` finds the end of the string and writes no further than its `NUL`
  obtain ⟨mem', hcat, hholds, hlength, hdrop⟩ := strncat_of_holds hd.holds happend
  refine ⟨mem', ?_, hholds, hlength.trans hd.length_eq, ?_, hfits⟩
  · unfold hexAppend sprintf
    rw [hb, strlen_of_holds hd.holds, hlen]
    dsimp only [Option.bind_eq_bind, Option.bind_some]
    rw [if_pos (by omega), Option.bind_some, toNat_room (by omega)]
    exact hcat
  · rw [length_hexString, List.length_take, Nat.min_eq_left (by omega)] at hdrop
    rw [← hd.frame]
    exact drop_eq_of_le hdrop hroom

/-- A round shows one byte more, or leaves the loop where no more fits.  No round goes outside an
    array. -/
theorem hexStep_dumped (h : DumpArguments buf blen str slen)
    (hd : Dumped buf blen str slen i mem) :
    (∃ mem', hexStep buf blen slen (i, mem) = .inl (i + 1, mem') ∧
      Dumped buf blen str slen (i + 1) mem') ∨
    (hexStep buf blen slen (i, mem) = .inr (some mem) ∧ ¬ Fits blen slen (i + 1)) := by
  unfold hexStep
  dsimp only
  rw [hexGuard_eq h hd]
  by_cases hgo : i < blen.toNat ∧ i < 128 ∧ 5 * (i + 1) < slen.toNat
  · left
    obtain ⟨mem', happend, hd'⟩ := hexAppend_dumped h hd ⟨hgo.1, hgo.2.1, .inr hgo.2.2⟩
    rw [decide_eq_true hgo, happend]
    exact ⟨mem', rfl, hd'⟩
  · right
    rw [decide_eq_false hgo]
    refine ⟨rfl, fun hfits => hgo ?_⟩
    exact ⟨hfits.le_blen, hfits.le_max, hfits.room.resolve_left (Nat.succ_ne_zero i)⟩

/-- The loop ends after 128 rounds at the latest. -/
theorem hexStep_lowers (h : DumpArguments buf blen str slen) :
    Lowers (hexStep buf blen slen) (fun s => Dumped buf blen str slen s.1 s.2)
      (fun s => 128 - s.1) 1 := by
  -- a round that goes on has shown one byte more
  have hround : ∀ ⦃s t⦄, Dumped buf blen str slen s.1 s.2 → hexStep buf blen slen s = .inl t →
      t.1 = s.1 + 1 ∧ Dumped buf blen str slen t.1 t.2 := by
    rintro ⟨i, mem⟩ t hd hstep
    rcases hexStep_dumped h hd with ⟨mem', hgo, hd'⟩ | ⟨hend, -⟩
    · obtain rfl := Sum.inl.inj (hstep.symm.trans hgo)
      exact ⟨rfl, hd'⟩
    · cases hstep.symm.trans hend
  constructor
  · intro s t hd hstep
    exact (hround hd hstep).2
  · intro s t hd hstep
    obtain ⟨hnext, hd'⟩ := hround hd hstep
    have hmax := hd'.fits.le_max
    omega

/-- The greatest number of bytes that fit: if one more does not, no greater number does. -/
theorem isGreatest_of_not_fits (hfits : Fits blen slen i) (hmore : ¬ Fits blen slen (i + 1)) :
    IsGreatest {k | k ≤ blen.toNat ∧ k ≤ 128 ∧ (k = 0 ∨ 5 * k < slen.toNat)} i := by
  refine ⟨⟨hfits.le_blen, hfits.le_max, hfits.room⟩, ?_⟩
  rintro k ⟨hblen, hmax, hroom⟩
  by_contra hlt
  exact hmore ⟨by omega, by omega, .inr (by omega)⟩

/-- The call ends, where no more bytes fit: the loop has been left with the invariant, and not by
    an access outside an array. -/
theorem bufToString_dumped (h : DumpArguments buf blen str slen) :
    ∃ k out, bufToString buf blen str slen = some (0, out) ∧ Dumped buf blen str slen k out ∧
      ¬ Fits blen slen (k + 1) := by
  obtain ⟨mem, hstore, hd⟩ := store_dumped h
  have hloop := hexStep_lowers h
  have hstart : Dumped buf blen str slen ((0, mem) : ℕ × List Char).1 (0, mem).2 := hd
  obtain ⟨result, hrun⟩ := hloop.ends (by decide) hstart (by decide : 128 < 129)
  obtain ⟨⟨k, out⟩, hreach, hend⟩ := reaches_of_run hrun
  have hout : Dumped buf blen str slen k out := hloop.reaches hstart hreach
  rcases hexStep_dumped h hout with ⟨mem', hgo, -⟩ | ⟨hleave, hmore⟩
  · cases hend.symm.trans hgo
  · obtain rfl := Sum.inr.inj (hend.symm.trans hleave)
    refine ⟨k, out, ?_, hout, hmore⟩
    unfold bufToString
    rw [hstore]
    dsimp only [Option.bind_eq_bind, Option.bind_some]
    rw [hrun]
    rfl

/-! ### The results -/

/-- **Bounded and faithful.**  The call ends, with a `NUL` inside the first `slen` characters and
    nothing written behind them; the string is made of the groups of the first `k` bytes, as many as
    there are, up to 128, and as there is room for, and the bytes can be read off it. -/
theorem bufToString_spec (buf : List UInt8) (blen : UInt32) (str : List Char) (slen : UInt32)
    (hblen : blen.toNat < 2 ^ 31) (hbuf : blen.toNat ≤ buf.length) (hslen : 1 ≤ slen.toNat)
    (hstr : slen.toNat ≤ str.length) :
    ∃ k out, IsGreatest {k | k ≤ blen.toNat ∧ k ≤ 128 ∧ (k = 0 ∨ 5 * k < slen.toNat)} k ∧
      bufToString buf blen str slen = some (0, out) ∧ out.length = str.length ∧
      out.drop slen.toNat = str.drop slen.toNat ∧ Holds out (hexString (buf.take k)) ∧
      (hexString (buf.take k)).length < slen.toNat ∧ ofHexString (terminated out) = buf.take k := by
  have h : DumpArguments buf blen str slen := ⟨hblen, hbuf, hslen, hstr⟩
  obtain ⟨k, out, hcall, hout, hmore⟩ := bufToString_dumped h
  have hlen := length_dumped h hout
  refine ⟨k, out, isGreatest_of_not_fits hout.fits hmore, hcall, hout.length_eq, hout.frame,
    hout.holds, ?_, ?_⟩
  · rw [hlen]
    rcases hout.fits.room with rfl | hroom
    · exact hslen
    · exact hroom
  · rw [hout.holds.terminated_eq, ofHexString_hexString]

/-- Room for six characters is room for one group, with its `NUL` in the last of them. -/
theorem bufToString_spec_six :
    bufToString [0xab, 0x01] 2 (List.replicate 8 'z') 6
      = some (0, "0xab ".toList ++ ['\x00', 'z', 'z']) := by
  obtain ⟨k, out, hk, hcall, -, hframe, hholds, -⟩ := bufToString_spec [0xab, 0x01] 2
    (List.replicate 8 'z') 6 (by decide) (by decide) (by decide) (by decide)
  have hone : k = 1 := by
    obtain ⟨⟨-, -, hroom⟩, hgreatest⟩ := hk
    have hle : 1 ≤ k := hgreatest ⟨by decide, by decide, .inr (by decide)⟩
    have hsix : (6 : UInt32).toNat = 6 := rfl
    omega
  subst hone
  obtain ⟨-, rest, hout⟩ := hholds
  have hstring : hexString (([0xab, 0x01] : List UInt8).take 1) = "0xab ".toList := by decide
  rw [hstring] at hout
  -- behind the string nothing has changed
  have hrest : rest = ['z', 'z'] := by
    rw [hout] at hframe
    exact hframe
  rw [hcall, hout, hrest]

/-- **The message.**  It shows the first bytes of the buffer, up to 25 of them. -/
theorem logBufferMessage_eq (env : LogEnvironment) (log : Log) (lvl : ULong) (label : List Char)
    (len : UInt32) (printbuf : List Char) (hlen : len.toNat < 2 ^ 31)
    (hbuf : len.toNat ≤ buf.length) (hprintbuf : printbuf.length = 128) :
    logBufferMessage env log lvl label buf len printbuf = vlogMessage env log lvl
      (label ++ " : ".toList ++ hexString (buf.take (min len.toNat 25))) := by
  have hsize : (128 : UInt32).toNat = 128 := rfl
  obtain ⟨k, out, hcall, hout, hmore⟩ := bufToString_dumped
    (⟨hlen, hbuf, by decide, by rw [hsize, hprintbuf]⟩ : DumpArguments buf len printbuf 128)
  -- 128 characters have room for 25 groups and the `NUL`
  have hk : k = min len.toNat 25 := by
    have hle := hout.fits.le_blen
    have hroom := hout.fits.room
    by_contra hne
    exact hmore ⟨by omega, by omega, .inr (by omega)⟩
  unfold logBufferMessage
  cases hlevel : levelEnabled log lvl with
  | false =>
    rw [vlogMessage, hlevel]
    rfl
  | true =>
    rw [hcall]
    dsimp only [Option.bind_eq_bind, Option.bind_some]
    rw [hout.holds.terminated_eq, hk]
    rfl

end NetworkExperiment
