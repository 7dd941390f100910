import Mathlib.Data.List.Basic

namespace FileOffsets

/-!
# An open file and its offset

A regular file as an open descriptor sees it: its bytes and the offset of the next call.

* `File.write` / `File.read` / `File.pread` / `File.seekSet` / `File.seekEnd` — the calls, with
  every byte that is there transferred;
* `File.between` — a file split at its offset;
* `write_end` — a write at the end appends;
* `read_at` / `read_end` — a read of what comes next, and a read at the end.
-/

/-- An open file. -/
@[ext] structure File where
  content : List UInt8
  offset : ℕ
  deriving DecidableEq

namespace File

/-- `write`: the bytes replace what lies at the offset. -/
def write (f : File) (bs : List UInt8) : File where
  content := f.content.take f.offset ++ bs ++ f.content.drop (f.offset + bs.length)
  offset := f.offset + bs.length

/-- `read` of up to `n` bytes. -/
def read (f : File) (n : ℕ) : List UInt8 × File :=
  ((f.content.drop f.offset).take n,
    { f with offset := f.offset + ((f.content.drop f.offset).take n).length })

/-- `pread` of up to `n` bytes at an offset of its own. -/
def pread (f : File) (n off : ℕ) : List UInt8 := (f.content.drop off).take n

/-- `lseek(fd, off, SEEK_SET)`. -/
def seekSet (f : File) (off : ℕ) : File := { f with offset := off }

/-- `lseek(fd, 0, SEEK_END)`. -/
def seekEnd (f : File) : File := { f with offset := f.content.length }

/-- A file with its offset between two parts of its content. -/
def between (pre post : List UInt8) : File := ⟨pre ++ post, pre.length⟩

variable {pre bs post : List UInt8} {n : ℕ}

/-- At the end, a write appends. -/
theorem write_end (pre bs : List UInt8) :
    (File.between pre []).write bs = File.between (pre ++ bs) [] := by
  unfold write File.between
  ext1
  · simp
  · simp

/-- The end of a file. -/
theorem seekEnd_eq (f : File) : f.seekEnd = File.between f.content [] := by
  unfold seekEnd File.between
  rw [List.append_nil]

/-- An offset that passes over some bytes. -/
theorem seekSet_between (pre bs post : List UInt8) :
    (File.between pre (bs ++ post)).seekSet (pre.length + bs.length)
      = File.between (pre ++ bs) post := by
  unfold seekSet File.between
  rw [List.append_assoc, List.length_append]

theorem offset_between_le :
    (File.between pre post).offset ≤ (File.between pre post).content.length := by
  unfold File.between
  rw [List.length_append]
  exact Nat.le_add_right _ _

/-- A file with its offset inside it is split there. -/
theorem exists_between {f : File} (hf : f.offset ≤ f.content.length) :
    ∃ pre post, f = File.between pre post := by
  refine ⟨f.content.take f.offset, f.content.drop f.offset, ?_⟩
  unfold File.between
  rw [List.take_append_drop, List.length_take, Nat.min_eq_left hf]

/-- A read takes the bytes behind the offset. -/
theorem read_at (hn : bs.length = n) :
    (File.between pre (bs ++ post)).read n = (bs, File.between (pre ++ bs) post) := by
  have htake : ((pre ++ (bs ++ post)).drop pre.length).take n = bs := by
    rw [List.drop_left, List.take_left' hn]
  unfold read File.between
  rw [htake]
  simp

/-- At the end of the file it takes none. -/
theorem read_end (pre : List UInt8) (n : ℕ) :
    (File.between pre []).read n = ([], File.between pre []) := by
  unfold read File.between
  simp

end File

end FileOffsets
