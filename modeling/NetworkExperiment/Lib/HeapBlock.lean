import Mathlib.Data.List.TakeWhile

namespace HeapBlocks

/-!
# Blocks of the heap

A block with its elements, of which those that nobody has written are `none`.  A write outside the
block and a read of an element that is not initialised have no result:

* `resize` — the block after `realloc`;
* `write` — a copy to an offset;
* `readTo` — the elements in front of a terminating one;
* `write_concat`, `write_terminated`, `readTo_concat`, `readTo_blank` — the accesses told by what
  the block is made of.
-/

/-- The elements of a block. -/
abbrev Block (α : Type*) := List (Option α)

variable {α : Type*}

/-- A block of `n` elements with nothing in it. -/
def blank (n : ℕ) : Block α := List.replicate n none

/-- The block of `n` elements that `realloc` returns for one that it may not have been given. -/
def resize (b : Option (Block α)) (n : ℕ) : Block α :=
  let old := b.getD []
  old.take n ++ blank (n - old.length)

/-- The block with some elements written from an offset on. -/
def write (b : Block α) (off : ℕ) (xs : List α) : Option (Block α) :=
  if off + xs.length ≤ b.length then
    some (b.take off ++ xs.map some ++ b.drop (off + xs.length))
  else none

/-- The elements in front of the first `stop`. -/
def readTo [DecidableEq α] (stop : α) : Block α → Option (List α)
  | some a :: b => if a = stop then some [] else (readTo stop b).map (a :: ·)
  | _ => none

variable {front middle behind : Block α} {xs : List α} {n : ℕ}

@[simp] theorem length_blank : (blank n : Block α).length = n := List.length_replicate

theorem blank_add (m n : ℕ) : (blank (m + n) : Block α) = blank m ++ blank n :=
  List.replicate_append_replicate.symm

/-- A block that grows keeps its elements. -/
theorem resize_some (front : Block α) (n : ℕ) :
    resize (some front) (front.length + n) = front ++ blank n := by
  unfold resize
  dsimp only [Option.getD_some]
  rw [List.take_of_length_le (Nat.le_add_right ..), Nat.add_sub_cancel_left]

/-- A block for nothing is blank. -/
theorem resize_none (n : ℕ) : resize none n = (blank n : Block α) := by
  unfold resize
  simp

/-- Writing over the middle of a block. -/
theorem write_concat (h : middle.length = xs.length) :
    write (front ++ middle ++ behind) front.length xs = some (front ++ xs.map some ++ behind) := by
  unfold write
  have hdrop : (front ++ middle ++ behind).drop (front.length + xs.length) = behind := by
    rw [← h, ← List.length_append, List.drop_left]
  rw [if_pos, hdrop, List.append_assoc front, List.take_left]
  rw [List.length_append, List.length_append, h]
  exact Nat.le_add_right ..

/-- Writing some elements and a terminating one behind the front of a block that has just the room
    for them. -/
theorem write_terminated (stop : α) (h : behind.length = xs.length + 1) :
    ((write (front ++ behind) front.length xs).bind fun b =>
      write b (front.length + xs.length) [stop]) = some (front ++ xs.map some ++ [some stop]) := by
  have htake : (behind.take xs.length).length = xs.length := by
    rw [List.length_take, h]
    omega
  have hdrop : (behind.drop xs.length).length = [stop].length := by
    rw [List.length_drop, h, List.length_singleton]
    omega
  have hfirst := @write_concat _ front _ (behind.drop xs.length) _ htake
  have hsecond := @write_concat _ (front ++ xs.map some) _ [] _ hdrop
  rw [List.append_assoc, List.take_append_drop] at hfirst
  rw [List.append_nil, List.append_nil, List.length_append, List.length_map] at hsecond
  rw [hfirst, Option.bind_some, hsecond]
  rfl

variable [DecidableEq α] {stop : α}

/-- A block that holds some elements and the terminating one. -/
theorem readTo_concat (xs : List α) :
    readTo stop (xs.map some ++ some stop :: behind) = some (xs.takeWhile (· ≠ stop)) := by
  induction xs with
  | nil => exact if_pos rfl
  | cons x xs ih =>
    rw [List.map_cons, List.cons_append, readTo, ih]
    by_cases hx : x = stop
    · simp [hx]
    · simp [hx]

/-- A block that begins with a blank. -/
theorem readTo_blank (hn : 0 < n) : readTo stop (blank n ++ behind) = none := by
  obtain ⟨k, rfl⟩ := Nat.exists_eq_succ_of_ne_zero (Nat.ne_of_gt hn)
  rfl

end HeapBlocks
