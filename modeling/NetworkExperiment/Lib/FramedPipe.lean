import NetworkExperiment.Lib.Bytes

namespace ByteBuffers

/-!
# Frames in a pipe

A writer puts frames of one length into a pipe of bytes, a part of a frame at a time, and a reader
takes them out again, cut at other points.  The frames that have been written in full and not been
read in full are then those of a queue.

* `Carries` — the bytes read of a frame and those in the pipe are the queue and the bytes written of
  a frame;
* `Carries.write` / `Carries.written` — what a write adds, and the last write of a frame;
* `Carries.read` / `Carries.taken` — what a read takes, and the last read of a frame.
-/

variable {n : ℕ}

/-- The pipe carries the frames of a queue: `got` has been read of the first one, and `part` are the
    bytes of the frame behind the last one. -/
def Carries (queue : List (Bytes n)) (part pipe got : List UInt8) : Prop :=
  got ++ pipe = queue.flatMap Bytes.toList ++ part

variable {queue : List (Bytes n)} {part pipe got bs : List UInt8}

theorem carries_nil : Carries ([] : List (Bytes n)) [] [] [] := rfl

/-- A write extends what is written. -/
theorem Carries.write (h : Carries queue part pipe got) (bs : List UInt8) :
    Carries queue (part ++ bs) (pipe ++ bs) got := by
  unfold Carries at *
  rw [← List.append_assoc, h, List.append_assoc]

/-- The last write of a frame puts it behind the queue. -/
theorem Carries.written {f : Bytes n} (h : Carries queue part pipe got)
    (hf : part ++ bs = f.toList) : Carries (queue ++ [f]) [] (pipe ++ bs) got := by
  unfold Carries at *
  rw [← List.append_assoc, h, List.append_assoc, hf, List.flatMap_append, List.flatMap_singleton,
    List.append_nil]

/-- A read extends what is read. -/
theorem Carries.read (h : Carries queue part (bs ++ pipe) got) :
    Carries queue part pipe (got ++ bs) := by
  unfold Carries at *
  rw [List.append_assoc, h]

/-- The last read of a frame takes the first one of the queue. -/
theorem Carries.taken {f : Bytes n} (h : Carries queue part (bs ++ pipe) got)
    (hf : got ++ bs = f.toList) (hpart : part.length < n) :
    ∃ rest, queue = f :: rest ∧ Carries rest part pipe [] := by
  unfold Carries at h
  rw [← List.append_assoc, hf] at h
  cases queue with
  | nil =>
    -- what is written of a frame is too short for one
    have hlen := congrArg List.length h
    rw [List.flatMap_nil, List.nil_append, List.length_append, f.length_toList] at hlen
    omega
  | cons g rest =>
    rw [List.flatMap_cons, List.append_assoc] at h
    obtain ⟨hfg, hrest⟩ := List.append_inj h (by rw [f.length_toList, g.length_toList])
    obtain rfl := Bytes.ext hfg
    exact ⟨rest, rfl, hrest⟩

/-- How many bytes there are. -/
theorem Carries.length (h : Carries queue part pipe got) :
    got.length + pipe.length = n * queue.length + part.length := by
  have hlen := congrArg List.length h
  rw [List.length_append, List.length_append, List.length_flatMap] at hlen
  rw [hlen, List.map_congr_left fun f _ => f.length_toList, List.map_const', List.sum_replicate_nat,
    Nat.mul_comm]

end ByteBuffers
