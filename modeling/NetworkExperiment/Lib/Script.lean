import Mathlib.Data.List.Basic

namespace Scripts

/-!
# Scripts — FIFO channels between parties that follow a fixed sequence of messages

A party that sends `script 0`, `script 1`, … into a FIFO channel has `segment script a b` in
flight once it has sent `b` messages of which the other side has taken `a`.

* `segment_push` / `segment_pop` — what a send and a receive do to the segment;
* `length_segment` — how many messages are in flight;
* `taken_succ` — the messages taken so far, one more.
-/

variable {α : Type*} (script : ℕ → α)

/-- The messages `script a, …, script (b - 1)`. -/
def segment (a b : ℕ) : List α := (List.range' a (b - a)).map script

@[simp] theorem length_segment (a b : ℕ) : (segment script a b).length = b - a := by
  simp [segment]

@[simp] theorem segment_self (a : ℕ) : segment script a a = [] := by
  simp [segment]

/-- Sending message number `b` puts it behind the segment. -/
theorem segment_push {a b : ℕ} (h : a ≤ b) :
    segment script a b ++ [script b] = segment script a (b + 1) := by
  rw [segment, segment, show b + 1 - a = (b - a) + 1 by omega, List.range'_concat]
  simp only [List.map_append, List.map_cons, List.map_nil, Nat.one_mul]
  rw [show a + (b - a) = b by omega]

/-- The message at the head of a segment is the next one not taken. -/
theorem segment_pop {a b : ℕ} {m : α} {rest : List α} (h : segment script a b = m :: rest) :
    a < b ∧ m = script a ∧ rest = segment script (a + 1) b := by
  have hlt : a < b := by
    have := congrArg List.length h
    rw [length_segment, List.length_cons] at this
    omega
  rw [segment, show b - a = (b - (a + 1)) + 1 by omega, List.range'_succ, List.map_cons] at h
  obtain ⟨hm, hrest⟩ := List.cons.inj h
  exact ⟨hlt, hm.symm, hrest.symm⟩

/-- A channel that holds nothing has been emptied: everything sent has been taken. -/
theorem le_of_segment_eq_nil {a b : ℕ} (h : segment script a b = []) : b ≤ a := by
  have := congrArg List.length h
  rw [length_segment, List.length_nil] at this
  omega

/-- The first `k` messages. -/
def taken (k : ℕ) : List α := (List.range k).map script

@[simp] theorem taken_zero : taken script 0 = [] := rfl

theorem taken_succ (k : ℕ) : taken script (k + 1) = taken script k ++ [script k] := by
  simp [taken, List.range_succ]

end Scripts
