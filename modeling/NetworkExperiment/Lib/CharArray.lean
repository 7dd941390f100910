import NetworkExperiment.Lib.CString

namespace CharArrays

open CStrings

/-!
# Character arrays in memory

An array with all of its characters, those behind the string that it holds too.  A call that reads
or writes outside the array has no result:

* `store`, `strlen`, `strncat` — the accesses;
* `Holds` — the string in an array;
* `store_nul`, `strlen_of_holds`, `strncat_of_holds` — the calls on an array that holds a
  string: an append that has room for the string has it for the array, and leaves alone what lies
  behind.
-/

/-- `str[i] = c`. -/
def store (mem : List Char) (i : ℕ) (c : Char) : Option (List Char) :=
  if i < mem.length then some (mem.set i c) else none

/-- `strlen(str)`; without a `NUL` it reads on behind the array. -/
def strlen (mem : List Char) : Option ℕ :=
  if (terminated mem).length < mem.length then some (terminated mem).length else none

/-- `strncat(dest, src, n)`: at most `n` characters of `src` and a `NUL`, over the one of `dest`. -/
def strncat (mem src : List Char) (n : ℕ) : Option (List Char) := do
  let len ← strlen mem
  let app := (terminated src).take n ++ ['\x00']
  if len + app.length ≤ mem.length then
    some (mem.take len ++ app ++ mem.drop (len + app.length))
  else none

/-- The array holds the string, with its `NUL`. -/
structure Holds (mem s : List Char) : Prop where
  nul_not_mem : '\x00' ∉ s
  split : ∃ rest, mem = s ++ '\x00' :: rest

variable {mem s src s' : List Char} {n : ℕ}

theorem Holds.length_lt (h : Holds mem s) : s.length < mem.length := by
  obtain ⟨-, rest, rfl⟩ := h
  rw [List.length_append, List.length_cons]
  omega

/-- The string of an array. -/
theorem Holds.terminated_eq (h : Holds mem s) : terminated mem = s := by
  obtain ⟨hnul, rest, rfl⟩ := h
  unfold terminated
  rw [List.takeWhile_append_of_pos]
  · simp
  · intro c hc
    simpa using fun heq : c = '\x00' => hnul (heq ▸ hc)

theorem strlen_of_holds (h : Holds mem s) : strlen mem = some s.length := by
  unfold strlen
  rw [h.terminated_eq, if_pos h.length_lt]

/-- What is the same from an index on is the same from any later one on. -/
theorem drop_eq_of_le {mem' : List Char} {k : ℕ} (h : mem'.drop k = mem.drop k) (hkn : k ≤ n) :
    mem'.drop n = mem.drop n := by
  obtain ⟨d, rfl⟩ := Nat.exists_eq_add_of_le hkn
  rw [← List.drop_drop, ← List.drop_drop, h]

/-- A `NUL` at the beginning leaves the empty string. -/
theorem store_nul (h : 0 < mem.length) :
    ∃ mem', store mem 0 '\x00' = some mem' ∧ Holds mem' [] ∧ mem'.length = mem.length ∧
      mem'.drop 1 = mem.drop 1 := by
  cases mem with
  | nil => exact absurd h (Nat.lt_irrefl 0)
  | cons c rest => exact ⟨'\x00' :: rest, if_pos h, ⟨List.not_mem_nil, rest, rfl⟩, rfl, rfl⟩

/-- **Appending.**  An append to the string in an array is one to the array, and what lies behind
    the new `NUL` stays. -/
theorem strncat_of_holds (h : Holds mem s)
    (happend : CStrings.strncat mem.length s src n = some s') :
    ∃ mem', strncat mem src n = some mem' ∧ Holds mem' s' ∧ mem'.length = mem.length ∧
      mem'.drop (s'.length + 1) = mem.drop (s'.length + 1) := by
  unfold CStrings.strncat at happend
  by_cases hroom : (s ++ (terminated src).take n).length < mem.length
  · rw [if_pos hroom] at happend
    obtain rfl := Option.some.inj happend
    have hlen := h.length_lt
    have htake : mem.take s.length = s := by
      obtain ⟨-, rest, rfl⟩ := h
      exact List.take_left
    rw [List.length_append] at hroom
    have hfits : s.length + ((terminated src).take n ++ ['\x00']).length ≤ mem.length := by
      rw [List.length_append, List.length_singleton]
      omega
    refine ⟨s ++ ((terminated src).take n ++ ['\x00']) ++
      mem.drop (s.length + ((terminated src).take n ++ ['\x00']).length), ?_, ⟨?_, ?_⟩, ?_, ?_⟩
    · unfold strncat
      rw [strlen_of_holds h]
      dsimp only [Option.bind_eq_bind, Option.bind_some]
      rw [if_pos hfits, htake]
    · rw [List.mem_append, not_or]
      exact ⟨h.nul_not_mem, fun hmem => nul_not_mem_terminated src (List.mem_of_mem_take hmem)⟩
    · refine ⟨mem.drop (s.length + ((terminated src).take n ++ ['\x00']).length), ?_⟩
      simp only [List.append_assoc, List.singleton_append]
    · rw [List.length_append, List.length_append, List.length_drop]
      omega
    · rw [List.drop_left']
      · simp only [List.length_append, List.length_singleton, Nat.add_assoc]
      · simp only [List.length_append, List.length_singleton, Nat.add_assoc]
  · rw [if_neg hroom] at happend
    cases happend

end CharArrays
