import Mathlib.Data.List.TakeWhile

namespace CStrings

/-!
# Strings in character arrays

A C string is what an array holds in front of its first `NUL`.  Here an array of `size` characters
is given by the string it holds, and a call that writes outside the array has no result:

* `terminated` — the string at the beginning of some characters;
* `strncpy` / `strncat` — copying and appending at most `n` characters;
* `strncat_eq` — a bound `n` that is not below the size of the array bounds nothing;
* `exists_digit_of_mem_toDigits` — what `%lx` and `%u` print are digits;
* `strncatAll` / `strncatAll_eq` — appending some strings, one after the other, writes inside the
  array exactly if it has room for all of them and a `NUL`.
-/

/-- The characters in front of the first `NUL`. -/
def terminated (s : List Char) : List Char := s.takeWhile (· ≠ '\x00')

/-- `strncpy(dest, src, n)`; the array holds no string if there is no room for the `NUL`. -/
def strncpy (size : ℕ) (src : List Char) (n : ℕ) : Option (List Char) :=
  if n ≤ size ∧ (terminated src).length < n then some (terminated src) else none

/-- `strncat(dest, src, n)`: the last index that is written is that of the `NUL`. -/
def strncat (size : ℕ) (dest src : List Char) (n : ℕ) : Option (List Char) :=
  let out := dest ++ (terminated src).take n
  if out.length < size then some out else none

/-- `strncat(dest, src, n)` for each of the strings. -/
def strncatAll (size n : ℕ) (dest : List Char) : List (List Char) → Option (List Char)
  | [] => some dest
  | src :: srcs => (strncat size dest src n).bind fun dest => strncatAll size n dest srcs

variable {size n : ℕ} {dest src : List Char} {srcs srcs' : List (List Char)}

theorem terminated_eq_self (h : '\x00' ∉ src) : terminated src = src := by
  unfold terminated
  rw [List.takeWhile_eq_self_iff]
  intro c hc
  simpa using fun heq : c = '\x00' => h (heq ▸ hc)

theorem nul_not_mem_terminated (s : List Char) : '\x00' ∉ terminated s := by
  intro hmem
  simpa using List.mem_takeWhile_imp hmem

/-- The characters that a number is printed with. -/
theorem exists_digit_of_mem_toDigits {b m : ℕ} (hb : 1 < b) {c : Char}
    (hc : c ∈ Nat.toDigits b m) : ∃ digit : ℕ, c = digit.digitChar := by
  induction m using Nat.strong_induction_on with
  | _ m ih =>
    by_cases hm : m < b
    · rw [Nat.toDigits_of_lt_base hm] at hc
      exact ⟨m, List.mem_singleton.mp hc⟩
    · -- the digits of the quotient, and the last one
      have hdiv : m / b < m := Nat.div_lt_self (by omega) hb
      rw [Nat.toDigits_of_base_le hb (Nat.not_lt.mp hm), List.mem_append] at hc
      rcases hc with hc | hc
      · exact ih (m / b) hdiv hc
      · exact ⟨m % b, List.mem_singleton.mp hc⟩

/-- What stands behind the first `NUL` is not appended. -/
theorem strncat_terminated : strncat size dest (terminated src) n = strncat size dest src n := by
  unfold strncat
  rw [terminated_eq_self (nul_not_mem_terminated src)]

/-- A bound that is not below the size of the array bounds nothing. -/
theorem strncat_eq (h : size ≤ n) : strncat size dest src n =
    if (dest ++ terminated src).length < size then some (dest ++ terminated src) else none := by
  unfold strncat
  by_cases hlen : (terminated src).length ≤ n
  · rw [List.take_of_length_le hlen]
  · -- the characters that are cut off would not have fitted either
    have hcut : ¬ (dest ++ (terminated src).take n).length < size := by
      rw [List.length_append, List.length_take]
      omega
    have hfull : ¬ (dest ++ terminated src).length < size := by
      rw [List.length_append]
      omega
    dsimp only
    rw [if_neg hcut, if_neg hfull]

theorem strncatAll_append : strncatAll size n dest (srcs ++ srcs')
    = (strncatAll size n dest srcs).bind fun dest => strncatAll size n dest srcs' := by
  induction srcs generalizing dest with
  | nil => rfl
  | cons src srcs ih =>
    rw [List.cons_append, strncatAll, strncatAll, Option.bind_assoc]
    congr 1
    funext dest
    exact ih

/-- The strings are appended exactly if the array has room for all of them and a `NUL`. -/
theorem strncatAll_eq (h : size ≤ n) (hdest : dest.length < size) :
    strncatAll size n dest srcs =
      if (dest ++ srcs.flatMap terminated).length < size
      then some (dest ++ srcs.flatMap terminated) else none := by
  induction srcs generalizing dest with
  | nil => rw [List.flatMap_nil, List.append_nil, if_pos hdest, strncatAll]
  | cons src srcs ih =>
    rw [strncatAll, strncat_eq h, List.flatMap_cons, ← List.append_assoc]
    by_cases hfits : (dest ++ terminated src).length < size
    · rw [if_pos hfits, Option.bind_some, ih hfits]
    · -- what does not fit now does not fit with more behind it
      have hnever : ¬ (dest ++ terminated src ++ srcs.flatMap terminated).length < size := by
        rw [List.length_append]
        omega
      rw [if_neg hfits, if_neg hnever, Option.bind_none]

end CStrings
