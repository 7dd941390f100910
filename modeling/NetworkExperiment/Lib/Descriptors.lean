import Mathlib.Data.List.ReduceOption
import Mathlib.Data.List.Perm.Basic
import Mathlib.Logic.Function.Basic

namespace DescriptorTables

/-!
# Descriptor tables — the open files of a process

A table gives the open file of each descriptor.  A call that opens a file takes the lowest
descriptor that is not in use.

* `Table.file` — the file of a descriptor; `Table.insert` / `Table.close` — open and close one;
* `file_insert_self` / `file_insert_of_ne`, `file_close_self` / `file_close_of_ne` — what they do
  to each descriptor;
* `file_insert` / `file_close` — the same for the files as a function of the descriptors, which
  decides the lowest free one (`lowest_congr`);
* `Table.openFiles` — the open files, and what the two operations do to them;
* `Table.Full` — a limit on the descriptors has been reached, which takes as many open files
  (`le_length_of_full`, `full_of_le_openFiles`).
-/

universe u

variable {α : Type u}

/-- A file descriptor. -/
abbrev Fd := ℕ

/-- The files of the descriptors, in order; `none` is a descriptor that is not in use, and so is
    every one behind the end of the list. -/
abbrev Table (α : Type u) := List (Option α)

namespace Table

/-- The file of a descriptor. -/
def file (t : Table α) (fd : Fd) : Option α := t[fd]?.join

/-- The lowest descriptor that is not in use. -/
def lowest (t : Table α) : ℕ := t.findIdx Option.isNone

/-- Open a file on the lowest descriptor that is not in use. -/
def insert (t : Table α) (x : α) : Table α := t.take t.lowest ++ some x :: t.drop (t.lowest + 1)

/-- Close a descriptor. -/
def close (t : Table α) (fd : Fd) : Table α := t.set fd none

/-- The files that are open, by descriptor. -/
def openFiles (t : Table α) : List α := t.reduceOption

/-- No descriptor below the limit is left. -/
def Full (t : Table α) (limit : ℕ) : Prop := limit ≤ t.lowest

instance (t : Table α) (limit : ℕ) : Decidable (t.Full limit) :=
  inferInstanceAs (Decidable (_ ≤ _))

end Table

open Table

variable {t : Table α} {x : α} {fd fd' : ℕ}

/-! ### Descriptors -/

/-- The descriptor behind the end of the list is free at the latest. -/
theorem lowest_le_length : t.lowest ≤ t.length := List.findIdx_le_length

/-- Every descriptor below the lowest free one is in use. -/
theorem isSome_of_lt_lowest (h : fd < t.lowest) (hlt : fd < t.length) : (t[fd]).isSome := by
  have hnone := List.not_of_lt_findIdx h
  simpa using hnone

/-- The lowest free descriptor is free. -/
theorem file_lowest : t.file t.lowest = none := by
  unfold file
  by_cases h : t.lowest < t.length
  · have hnone : (t[t.lowest]).isNone := List.findIdx_getElem
    rw [List.getElem?_eq_getElem h, Option.isNone_iff_eq_none.mp hnone]
    rfl
  · rw [List.getElem?_eq_none (by omega)]
    rfl

/-- The file that is opened gets the lowest free descriptor. -/
theorem file_insert_self : (t.insert x).file t.lowest = some x := by
  have hle := @lowest_le_length _ t
  have hlen : (t.take t.lowest).length = t.lowest := by rw [List.length_take]; omega
  unfold file Table.insert
  rw [List.getElem?_append_right (by omega), hlen, Nat.sub_self]
  rfl

/-- Opening a file leaves the other descriptors alone. -/
theorem file_insert_of_ne (h : fd ≠ t.lowest) : (t.insert x).file fd = t.file fd := by
  have hle := @lowest_le_length _ t
  have hlen : (t.take t.lowest).length = t.lowest := by rw [List.length_take]; omega
  unfold file Table.insert
  congr 1
  -- below it and above it, the list is as it was
  by_cases hlt : fd < t.lowest
  · rw [List.getElem?_append_left (by omega), List.getElem?_take_of_lt hlt]
  · rw [List.getElem?_append_right (by omega), hlen,
      show fd - t.lowest = (fd - t.lowest - 1) + 1 by omega, List.getElem?_cons_succ,
      List.getElem?_drop]
    congr 1
    omega

/-- A descriptor that is closed is free. -/
theorem file_close_self : (t.close fd).file fd = none := by
  unfold file close
  rw [List.getElem?_set_self']
  cases t[fd]? <;> rfl

/-- Closing a descriptor leaves the others alone. -/
theorem file_close_of_ne (h : fd' ≠ fd) : (t.close fd).file fd' = t.file fd' := by
  unfold file close
  rw [List.getElem?_set_ne (Ne.symm h)]

/-! ### The files as a function of the descriptors -/

variable {t' : Table α}

/-- Opening a file changes the files at one descriptor, -/
theorem file_insert (t : Table α) (x : α) :
    (t.insert x).file = Function.update t.file t.lowest (some x) := by
  funext fd
  by_cases hfd : fd = t.lowest
  · rw [hfd, file_insert_self, Function.update_self]
  · rw [file_insert_of_ne hfd, Function.update_of_ne hfd]

/-- and so does closing one. -/
theorem file_close (t : Table α) (fd : Fd) :
    (t.close fd).file = Function.update t.file fd none := by
  funext fd'
  by_cases hfd : fd' = fd
  · rw [hfd, file_close_self, Function.update_self]
  · rw [file_close_of_ne hfd, Function.update_of_ne hfd]

/-- No descriptor below the lowest free one is free. -/
theorem file_ne_none_of_lt_lowest (h : fd < t.lowest) : t.file fd ≠ none := by
  have hlt : fd < t.length := Nat.lt_of_lt_of_le h lowest_le_length
  obtain ⟨x, hx⟩ := Option.isSome_iff_exists.mp (isSome_of_lt_lowest h hlt)
  unfold file
  rw [List.getElem?_eq_getElem hlt, hx]
  exact Option.some_ne_none x

/-- The lowest free descriptor is told by the files: of two different ones, the lower would be free
    in one table and in use in the other. -/
theorem lowest_congr (h : t.file = t'.file) : t.lowest = t'.lowest := by
  rcases Nat.lt_trichotomy t.lowest t'.lowest with hlt | heq | hlt
  · exact absurd (h ▸ file_lowest) (file_ne_none_of_lt_lowest hlt)
  · exact heq
  · exact absurd (h ▸ file_lowest) (file_ne_none_of_lt_lowest hlt)

/-! ### Open files -/

/-- A file is open if it has a descriptor. -/
theorem mem_openFiles : x ∈ t.openFiles ↔ ∃ fd, t.file fd = some x := by
  unfold openFiles file
  rw [List.reduceOption_mem_iff, List.mem_iff_getElem?]
  simp only [Option.join_eq_some_iff]

/-- A file that is opened is one more open file. -/
theorem openFiles_insert : (t.insert x).openFiles.Perm (x :: t.openFiles) := by
  -- the free descriptor holds no file, or lies behind the end
  have hsplit : t.openFiles
      = (t.take t.lowest).reduceOption ++ (t.drop (t.lowest + 1)).reduceOption := by
    by_cases h : t.lowest < t.length
    · have hnone : t[t.lowest] = none :=
        Option.isNone_iff_eq_none.mp (List.findIdx_getElem (p := Option.isNone))
      unfold openFiles
      conv_lhs => rw [← List.take_append_drop t.lowest t, List.drop_eq_getElem_cons h, hnone]
      rw [List.reduceOption_append, List.reduceOption_cons_of_none]
    · have heq : t.lowest = t.length := Nat.le_antisymm lowest_le_length (by omega)
      rw [heq, List.take_length, List.drop_of_length_le (by omega)]
      simp [openFiles]
  rw [hsplit]
  unfold Table.insert openFiles
  rw [List.reduceOption_append, List.reduceOption_cons_of_some]
  exact List.perm_middle

/-- A file that is closed is one open file less. -/
theorem openFiles_close (h : t.file fd = some x) :
    t.openFiles.Perm (x :: (t.close fd).openFiles) := by
  unfold file at h
  rw [Option.join_eq_some_iff] at h
  obtain ⟨hlt, hfd⟩ := List.getElem?_eq_some_iff.mp h
  unfold close openFiles
  rw [List.set_eq_take_append_cons_drop, if_pos hlt]
  conv_lhs => rw [← List.take_append_drop fd t, List.drop_eq_getElem_cons hlt, hfd]
  rw [List.reduceOption_append, List.reduceOption_append, List.reduceOption_cons_of_some,
    List.reduceOption_cons_of_none]
  exact List.perm_middle

/-- A limit is reached only by as many open files: all descriptors below it are in use. -/
theorem le_length_of_full {limit : ℕ} (h : t.Full limit) : limit ≤ t.openFiles.length := by
  have hall : ∀ o ∈ t.take t.lowest, o.isSome := by
    intro o ho
    obtain ⟨i, hi, rfl⟩ := List.getElem_of_mem ho
    rw [List.length_take] at hi
    rw [List.getElem_take]
    exact isSome_of_lt_lowest (by omega) (by omega)
  have hlen : (t.take t.lowest).reduceOption.length = t.lowest := by
    rw [List.reduceOption_length_eq_iff.mpr hall, List.length_take]
    exact Nat.min_eq_left lowest_le_length
  unfold Full at h
  unfold openFiles
  conv_rhs => rw [← List.take_append_drop t.lowest t]
  rw [List.reduceOption_append, List.length_append, hlen]
  omega

/-- No descriptor holds two files. -/
theorem length_openFiles_le : t.openFiles.length ≤ t.length := List.reduceOption_length_le t

/-- A table stays within a limit that has not been reached. -/
theorem length_insert_le {limit : ℕ} (hlen : t.length ≤ limit) (h : ¬ t.Full limit) :
    (t.insert x).length ≤ limit := by
  unfold Full at h
  unfold Table.insert
  rw [List.length_append, List.length_cons, List.length_take, List.length_drop]
  omega

/-- As many open files as a limit allows are in the descriptors below it, each in one, so none of
    these is left. -/
theorem full_of_le_openFiles {limit : ℕ} (hlen : t.length ≤ limit)
    (h : limit ≤ t.openFiles.length) : t.Full limit := by
  have hle := @length_openFiles_le _ t
  have hall : ∀ o ∈ t, o.isSome := List.reduceOption_length_eq_iff.mp (by
    show t.openFiles.length = t.length
    omega)
  have hlowest : t.lowest = t.length := by
    apply List.findIdx_eq_length_of_false
    intro o ho
    rw [Option.isNone_eq_false_iff]
    exact hall o ho
  unfold Full
  omega

end DescriptorTables
