import Mathlib.Data.Rat.Defs
import Mathlib.Data.List.Induction
import Mathlib.Data.List.TakeWhile
import Mathlib.Data.Rat.Cast.Defs
import Mathlib.Algebra.Order.Ring.Int
import NetworkExperiment.Lib.FloatRounding

namespace NetworkExperiment

open FloatRounding

/-!
# Text files and numbers

What the analysis uses of Python's texts, and of C's `printf`:

* `readline` — the next line of a text file;
* `lines` — what `readline` returns, call after call, until it returns the empty string;
* `startswith` / `split` — the methods of strings;
* `decimal` / `pyFloat` — the number that a string stands for, and `float` of the string, for any
  rounding of numbers; `binary64` is Python's;
* `ld` — `%ld`;
* `lines_flatten` — lines that end with a newline each are read back;
* `decimal_ld` — so is a number.
-/

/-! ### Lines -/

/-- `readline()`: the next line with its newline, and what is behind it; the line is empty at the
    end of the text. -/
def readline : List Char → List Char × List Char
  | [] => ([], [])
  | c :: cs => if c = '\n' then ([c], cs) else (c :: (readline cs).1, (readline cs).2)

/-- The lines of a text, each with its newline; the last one may be without.  This is what a loop
    over `readline` sees, as `lines_eq_readline` says. -/
def lines : List Char → List (List Char)
  | [] => []
  | c :: cs =>
      if c = '\n' then [c] :: lines cs
      else
        match lines cs with
        | [] => [[c]]
        | line :: rest => (c :: line) :: rest

/-- `line.startswith(s)`. -/
def startswith (line : List Char) (s : String) : Prop := s.toList <+: line

instance (line : List Char) (s : String) : Decidable (startswith line s) :=
  inferInstanceAs (Decidable (_ <+: _))

/-- `c.isspace()`: the space characters of Unicode, by which `split` divides. -/
def isspace (c : Char) : Bool :=
  (9 ≤ c.toNat && c.toNat ≤ 13) || (28 ≤ c.toNat && c.toNat ≤ 32) || c.toNat = 0x85 ||
    c.toNat = 0xa0 || c.toNat = 0x1680 || (0x2000 ≤ c.toNat && c.toNat ≤ 0x200a) ||
    c.toNat = 0x2028 || c.toNat = 0x2029 || c.toNat = 0x202f || c.toNat = 0x205f || c.toNat = 0x3000

/-- The words of `s`, of which `word` is the beginning of the first one. -/
def splitFrom (word : List Char) : List Char → List (List Char)
  | [] => if word = [] then [] else [word]
  | c :: cs =>
      if isspace c then (if word = [] then splitFrom [] cs else word :: splitFrom [] cs)
      else splitFrom (word ++ [c]) cs

/-- `s.split()`. -/
def split (s : List Char) : List (List Char) := splitFrom [] s

/-! ### Numbers -/

/-- Digits with single underscores between them, as `float` accepts them; the digits alone are the
    result. -/
def digitpart : List Char → Option (List Char)
  | [] => none
  | [c] => if c.isDigit then some [c] else none
  | c :: '_' :: cs => if c.isDigit then (digitpart cs).map (c :: ·) else none
  | c :: cs => if c.isDigit then (digitpart cs).map (c :: ·) else none

/-- Digits, or nothing. -/
def optionalDigits : List Char → Option (List Char)
  | [] => some []
  | cs => digitpart cs

/-- The sign in front of a number: whether it is negative, and the rest. -/
def sign : List Char → Bool × List Char
  | '-' :: cs => (true, cs)
  | '+' :: cs => (false, cs)
  | cs => (false, cs)

/-- A number with an optional fraction.  One side of the point may be empty, but not both. -/
def pointfloat (cs : List Char) : Option ℚ := do
  let whole ← optionalDigits (cs.takeWhile (· ≠ '.'))
  let fraction ← optionalDigits ((cs.dropWhile (· ≠ '.')).drop 1)
  if whole = [] ∧ fraction = [] then none
  else some (Nat.ofDigitChars 10 (whole ++ fraction) 0 / (10 ^ fraction.length : ℕ))

/-- The power of ten that an exponent stands for. -/
def exponent : List Char → Option ℚ
  | [] => some 1
  | _ :: cs => do
      let (negative, cs) := sign cs
      let power : ℕ := 10 ^ Nat.ofDigitChars 10 (← digitpart cs) 0
      some (if negative then 1 / power else power)

/-- The exact number that a decimal text in ASCII without spaces stands for; for any other text
    `float` raises `ValueError`.  The words for infinity and for no number stand for no exact number
    and count as such texts. -/
def decimal (s : List Char) : Option ℚ := do
  let (negative, cs) := sign s
  let mantissa ← pointfloat (cs.takeWhile fun c => c ≠ 'e' ∧ c ≠ 'E')
  let power ← exponent (cs.dropWhile fun c => c ≠ 'e' ∧ c ≠ 'E')
  some (if negative then -(mantissa * power) else mantissa * power)

/-- How Python rounds a number, and the result of an operation, to a float: to 53 binary digits.
    Numbers so great or so small that the exponent of a float has no room for them are left out. -/
def binary64 : ℚ → ℚ := roundTo 53

/-- `float(s)`, where numbers are rounded by `fl`: `binary64` in Python, and `id` if they are taken
    as exact; `none` is `ValueError`. -/
def pyFloat (fl : ℚ → ℚ) (s : List Char) : Option ℚ := (decimal s).map fl

/-- `%ld`. -/
def ld (n : ℤ) : List Char :=
  (if n < 0 then ['-'] else []) ++ Nat.toDigits 10 n.natAbs

example : decimal "-1_0.50e2".toList = some (-1050) := by decide +kernel

/-- A time in nanoseconds has more digits than a float. -/
example : pyFloat binary64 "1700000000123456789".toList = some 1700000000123456768 := by
  decide +kernel

/-! ### Lines are read back -/

/-- The lines are what `readline` returns until it returns the empty string. -/
theorem lines_eq_readline (cs : List Char) : lines cs =
    if (readline cs).1 = [] then [] else (readline cs).1 :: lines (readline cs).2 := by
  induction cs with
  | nil => rfl
  | cons c cs ih =>
    by_cases hc : c = '\n'
    · rw [lines, readline, if_pos hc, if_pos hc, if_neg (List.cons_ne_nil _ _)]
    · rw [lines, readline, if_neg hc, if_neg hc, if_neg (List.cons_ne_nil _ _), ih]
      by_cases hrest : (readline cs).1 = []
      · -- nothing is left behind `c`
        have hnil : cs = [] := by
          cases cs with
          | nil => rfl
          | cons d cs =>
            unfold readline at hrest
            split at hrest
            · exact absurd hrest (List.cons_ne_nil _ _)
            · exact absurd hrest (List.cons_ne_nil _ _)
        rw [hnil]
        rfl
      · rw [if_neg hrest]

/-- A line that ends with its newline is the first one, whatever follows: `readline` stops at the
    first newline. -/
theorem lines_line_append {body : List Char} (h : '\n' ∉ body) (cs : List Char) :
    lines (body ++ '\n' :: cs) = (body ++ ['\n']) :: lines cs := by
  induction body with
  | nil => rfl
  | cons c body ih =>
    rw [List.mem_cons, not_or] at h
    rw [List.cons_append, lines, if_neg (Ne.symm h.1), ih h.2]
    rfl

/-- **Lines.**  Lines that end with a newline each are read back. -/
theorem lines_flatten {ls : List (List Char)}
    (h : ∀ line ∈ ls, ∃ body, line = body ++ ['\n'] ∧ '\n' ∉ body) : lines ls.flatten = ls := by
  induction ls with
  | nil => rfl
  | cons line ls ih =>
    obtain ⟨body, rfl, hbody⟩ := h line List.mem_cons_self
    rw [List.flatten_cons, List.append_assoc, List.singleton_append, lines_line_append hbody,
      ih (fun l hl => h l (List.mem_cons_of_mem _ hl))]

/-! ### Words are read back -/

/-- A word ends at the first space behind it. -/
theorem splitFrom_word {word w : List Char} {c : Char} {cs : List Char}
    (hw : ∀ a ∈ w, isspace a = false) (hne : word ++ w ≠ []) (hc : isspace c = true) :
    splitFrom word (w ++ c :: cs) = (word ++ w) :: splitFrom [] cs := by
  induction w generalizing word with
  | nil =>
    rw [List.append_nil] at hne
    rw [List.nil_append, splitFrom, if_pos hc, if_neg hne, List.append_nil]
  | cons a w ih =>
    have ha := hw a List.mem_cons_self
    -- `a` belongs to the word
    rw [List.cons_append, splitFrom, if_neg (by rw [ha]; exact Bool.false_ne_true),
      ih (fun b hb => hw b (List.mem_cons_of_mem _ hb)) (by simp), List.append_assoc]
    rfl

/-- Two words are read back: the name of an event and its time, as the client writes them. -/
theorem split_two_words {w₁ w₂ : List Char} (h₁ : ∀ a ∈ w₁, isspace a = false) (hne₁ : w₁ ≠ [])
    (h₂ : ∀ a ∈ w₂, isspace a = false) (hne₂ : w₂ ≠ []) :
    split (w₁ ++ ' ' :: (w₂ ++ ['\n'])) = [w₁, w₂] := by
  unfold split
  rw [splitFrom_word h₁ (by simpa using hne₁) (by decide),
    splitFrom_word h₂ (by simpa using hne₂) (by decide)]
  rfl

/-! ### Numbers are read back -/

section Digits

variable {ds : List Char} {c : Char}

/-- A digit is none of the other characters of a number. -/
theorem ne_of_isDigit {d : Char} (hc : c.isDigit = true) (hd : d.isDigit = false) : c ≠ d := by
  rintro rfl
  rw [hc] at hd
  exact absurd hd (by decide)

/-- Digits without underscores are the result themselves. -/
theorem digitpart_digits (h : ∀ c ∈ ds, c.isDigit = true) (hne : ds ≠ []) :
    digitpart ds = some ds := by
  induction ds with
  | nil => exact absurd rfl hne
  | cons c ds ih =>
    have hc := h c List.mem_cons_self
    have hds : ∀ d ∈ ds, d.isDigit = true := fun d hd => h d (List.mem_cons_of_mem _ hd)
    cases ds with
    | nil => exact if_pos hc
    | cons d ds =>
      -- the case of an underscore does not apply
      have hscore : d ≠ '_' := ne_of_isDigit (hds d List.mem_cons_self) (by decide)
      rw [digitpart, if_pos hc, ih hds (List.cons_ne_nil _ _)]
      · rfl
      · exact List.cons_ne_nil _ _
      · intro cs hcs
        exact hscore (List.cons.inj hcs).1

/-- Digits alone are the whole of a number. -/
theorem pointfloat_digits (h : ∀ c ∈ ds, c.isDigit = true) (hne : ds ≠ []) :
    pointfloat ds = some (Nat.ofDigitChars 10 ds 0 : ℚ) := by
  -- there is no point among them, so there is no fraction
  have htest : ∀ c ∈ ds, decide (c ≠ '.') = true :=
    fun c hc => decide_eq_true (ne_of_isDigit (h c hc) (by decide))
  have hdigits : optionalDigits ds = some ds := by
    cases ds with
    | nil => exact absurd rfl hne
    | cons c ds => exact digitpart_digits h hne
  unfold pointfloat
  rw [List.takeWhile_eq_self_iff.mpr htest, List.dropWhile_eq_nil_iff.mpr htest, hdigits]
  show (if ds = [] ∧ _ then none else _) = _
  rw [if_neg (fun hand => hne hand.1), List.append_nil]
  simp

end Digits

/-- The digits of a number. -/
theorem isDigit_toDigits (n : ℕ) : ∀ c ∈ Nat.toDigits 10 n, c.isDigit = true :=
  fun _ hc => Nat.isDigit_of_mem_toDigits (by decide) (by decide) hc

/-- A printed number splits in its sign and its digits. -/
theorem sign_ld (n : ℤ) : sign (ld n) = (decide (n < 0), Nat.toDigits 10 n.natAbs) := by
  unfold ld
  by_cases hn : n < 0
  · rw [if_pos hn, decide_eq_true hn]
    rfl
  · rw [if_neg hn, decide_eq_false hn, List.nil_append]
    have hdigits := isDigit_toDigits n.natAbs
    cases hds : Nat.toDigits 10 n.natAbs with
    | nil => rfl
    | cons c ds =>
      rw [hds] at hdigits
      -- the first character is a digit and no sign
      have hc := hdigits c List.mem_cons_self
      unfold sign
      split
      · rename_i heq
        exact absurd (List.cons.inj heq).1 (ne_of_isDigit hc (by decide))
      · rename_i heq
        exact absurd (List.cons.inj heq).1 (ne_of_isDigit hc (by decide))
      · rfl

/-- **Numbers.**  A number that has been printed is read back: the sign, and digits without a point
    or an exponent. -/
theorem decimal_ld (n : ℤ) : decimal (ld n) = some (n : ℚ) := by
  have hdigits := isDigit_toDigits n.natAbs
  have htest : ∀ c ∈ Nat.toDigits 10 n.natAbs, decide (c ≠ 'e' ∧ c ≠ 'E') = true := fun c hc =>
    decide_eq_true ⟨ne_of_isDigit (hdigits c hc) (by decide),
      ne_of_isDigit (hdigits c hc) (by decide)⟩
  unfold decimal
  rw [sign_ld]
  dsimp only
  rw [List.takeWhile_eq_self_iff.mpr htest, List.dropWhile_eq_nil_iff.mpr htest,
    pointfloat_digits hdigits Nat.toDigits_ne_nil, Nat.ofDigitChars_ten_toDigits]
  show some (if decide (n < 0) = true then -((n.natAbs : ℚ) * 1) else (n.natAbs : ℚ) * 1) = _
  rw [mul_one, Nat.cast_natAbs]
  by_cases hn : n < 0
  · rw [if_pos (decide_eq_true hn), abs_of_neg hn, Int.cast_neg, neg_neg]
  · rw [if_neg (by simpa using hn), abs_of_nonneg (not_lt.mp hn)]

end NetworkExperiment
