import Mathlib.Data.Finmap

namespace Dictionaries

/-!
# Dictionaries that are filled pair by pair

* `fill` — assign the values to their keys, one pair after the other;
* `lookup_fill_of_mem` / `mem_fill` — with distinct keys, every key has the value of its pair;
* `prefix_iff_zip` — a sublist is a beginning of the list if the two agree element by element.
-/

universe u v

variable {α : Type u} {β : Type v} [DecidableEq α] {a : α} {b : β} {pairs : List (α × β)}

/-- Assign the values to their keys, one pair after the other. -/
def fillFrom (d : Finmap fun _ : α => β) (pairs : List (α × β)) : Finmap fun _ : α => β :=
  pairs.foldl (fun d x => d.insert x.1 x.2) d

/-- The dictionary of the pairs. -/
def fill (pairs : List (α × β)) : Finmap fun _ : α => β := fillFrom ∅ pairs

/-- A key of no pair keeps its value. -/
theorem lookup_fillFrom_of_notMem {d : Finmap fun _ : α => β} (h : a ∉ pairs.map Prod.fst) :
    (fillFrom d pairs).lookup a = d.lookup a := by
  induction pairs generalizing d with
  | nil => rfl
  | cons x pairs ih =>
    rw [List.map_cons, List.mem_cons, not_or] at h
    show (fillFrom (d.insert x.1 x.2) pairs).lookup a = _
    rw [ih h.2, Finmap.lookup_insert_of_ne _ h.1]

/-- With distinct keys, every key has the value of its pair. -/
theorem lookup_fillFrom_of_mem {d : Finmap fun _ : α => β} (hnodup : (pairs.map Prod.fst).Nodup)
    (h : (a, b) ∈ pairs) : (fillFrom d pairs).lookup a = some b := by
  induction pairs generalizing d with
  | nil => exact absurd h List.not_mem_nil
  | cons x pairs ih =>
    rw [List.map_cons, List.nodup_cons] at hnodup
    show (fillFrom (d.insert x.1 x.2) pairs).lookup a = _
    rcases List.mem_cons.mp h with rfl | h
    · rw [lookup_fillFrom_of_notMem hnodup.1, Finmap.lookup_insert]
    · exact ih hnodup.2 h

/-- With distinct keys, every key has the value of its pair. -/
theorem lookup_fill_of_mem (hnodup : (pairs.map Prod.fst).Nodup) (h : (a, b) ∈ pairs) :
    (fill pairs).lookup a = some b := lookup_fillFrom_of_mem hnodup h

/-- The keys of the dictionary are those of the pairs. -/
theorem mem_fill (hnodup : (pairs.map Prod.fst).Nodup) :
    a ∈ fill pairs ↔ a ∈ pairs.map Prod.fst := by
  constructor
  · intro ha
    by_contra hnot
    have hnone : (fill pairs).lookup a = none := lookup_fillFrom_of_notMem hnot
    exact Finmap.lookup_eq_none.mp hnone ha
  · intro ha
    obtain ⟨x, hx, rfl⟩ := List.mem_map.mp ha
    exact Finmap.mem_iff.mpr ⟨x.2, lookup_fill_of_mem hnodup hx⟩

omit [DecidableEq α] in
/-- A list that is no longer than another is a beginning of it if the two agree element by
    element. -/
theorem prefix_iff_zip {l₁ l₂ : List α} (hlen : l₁.length ≤ l₂.length) :
    l₁ <+: l₂ ↔ ∀ x ∈ l₁.zip l₂, x.1 = x.2 := by
  induction l₁ generalizing l₂ with
  | nil => simp
  | cons a l₁ ih =>
    cases l₂ with
    | nil => exact absurd hlen (by simp)
    | cons b l₂ =>
      rw [List.cons_prefix_cons, List.zip_cons_cons, List.forall_mem_cons,
        ih (Nat.le_of_succ_le_succ hlen)]

end Dictionaries
