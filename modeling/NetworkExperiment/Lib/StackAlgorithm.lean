import Mathlib.Data.Finset.Card

namespace StackAlgorithms

/-!
# Caches of different sizes

A cache of a fixed number of slots that ejects the element of greatest rank.  Where the ranks of
two such caches agree, the contents of the smaller one stay among those of the larger one.

* `Serves` — what a request does to the contents of a cache;
* `Nested` — the contents of a cache of `n` slots are among those of a cache of `N`, and the two
  differ by no more than their slots do;
* `Nested.serves` / `Nested.erase` — a request to both, and a removal from both, keep it.
-/

variable {α : Type*} [DecidableEq α]

/-- A cache of `n` slots serves a request for `x`: where it is there, nothing changes, and otherwise
    it takes a free slot, or that of the element of greatest rank. -/
inductive Serves (rank : α → ℤ) (n : ℕ) (x : α) (S : Finset α) : Finset α → Prop
  | hit : x ∈ S → Serves rank n x S S
  | load : x ∉ S → S.card < n → Serves rank n x S (insert x S)
  | replace {m : α} : x ∉ S → S.card = n → m ∈ S → (∀ y ∈ S, y ≠ m → rank y < rank m) →
      Serves rank n x S (insert x (S.erase m))

/-- What is there afterwards. -/
theorem Serves.mem {rank : α → ℤ} {n : ℕ} {x : α} {S S' : Finset α} (h : Serves rank n x S S') :
    x ∈ S' := by
  cases h with
  | hit hx => exact hx
  | load => exact Finset.mem_insert_self _ _
  | replace => exact Finset.mem_insert_self _ _

/-- Nothing else is there that was not there before. -/
theorem Serves.mem_of_ne {rank : α → ℤ} {n : ℕ} {x y : α} {S S' : Finset α}
    (h : Serves rank n x S S') (hy : y ∈ S') (hne : y ≠ x) : y ∈ S := by
  cases h with
  | hit => exact hy
  | load => exact (Finset.mem_insert.mp hy).resolve_left hne
  | replace => exact Finset.mem_of_mem_erase ((Finset.mem_insert.mp hy).resolve_left hne)

/-- The slots are enough. -/
theorem Serves.card_le {rank : α → ℤ} {n : ℕ} {x : α} {S S' : Finset α}
    (h : Serves rank n x S S') (hn : S.card ≤ n) : S'.card ≤ n := by
  cases h with
  | hit => exact hn
  | load hx hlt =>
    rw [Finset.card_insert_of_notMem hx]
    exact hlt
  | replace hx hcard hm =>
    have hpos := Finset.card_pos.mpr ⟨_, hm⟩
    rw [Finset.card_insert_of_notMem fun h => hx (Finset.mem_of_mem_erase h),
      Finset.card_erase_of_mem hm]
    omega

/-- The contents `S` of a cache of `n` slots are among the contents `B` of one of `N`. -/
structure Nested (n N : ℕ) (S B : Finset α) : Prop where
  sub : S ⊆ B
  /-- The larger one is full only if the smaller one is. -/
  gap : B.card + n ≤ S.card + N

variable {n N : ℕ} {S S' B B' : Finset α} {rank rank' : α → ℤ} {x : α}

/-- **A request to both.**  The ranks agree on the contents of the smaller one. -/
theorem Nested.serves (h : Nested n N S B)
    (hagree : ∀ y ∈ S, ∀ z ∈ S, rank y < rank z → rank' y < rank' z)
    (hS : Serves rank n x S S') (hB : Serves rank' N x B B') : Nested n N S' B' := by
  have hgap := h.gap
  cases hS with
  | hit hx =>
    -- what is in the smaller one is in the larger one
    cases hB with
    | hit => exact h
    | load hx' => exact absurd (h.sub hx) hx'
    | replace hx' => exact absurd (h.sub hx) hx'
  | load hx hlt =>
    cases hB with
    | hit hx' =>
      refine ⟨Finset.insert_subset hx' h.sub, ?_⟩
      rw [Finset.card_insert_of_notMem hx]
      omega
    | load hx' hlt' =>
      refine ⟨Finset.insert_subset_insert x h.sub, ?_⟩
      rw [Finset.card_insert_of_notMem hx, Finset.card_insert_of_notMem hx']
      omega
    | replace hx' hcard => omega
  | replace hx hcard hm hmax =>
    rename_i m
    have hpos := Finset.card_pos.mpr ⟨m, hm⟩
    have hx_erase : x ∉ S.erase m := fun h => hx (Finset.mem_of_mem_erase h)
    have hcard' : (insert x (S.erase m)).card = n := by
      rw [Finset.card_insert_of_notMem hx_erase, Finset.card_erase_of_mem hm]
      omega
    have herase : S.erase m ⊆ B := (Finset.erase_subset _ _).trans h.sub
    cases hB with
    | hit hx' =>
      refine ⟨Finset.insert_subset hx' herase, ?_⟩
      rw [hcard']
      omega
    | load hx' hlt' =>
      refine ⟨Finset.insert_subset_insert x herase, ?_⟩
      rw [hcard', Finset.card_insert_of_notMem hx']
      omega
    | replace hx' hcardB hm' hmax' =>
      rename_i m'
      have hposB := Finset.card_pos.mpr ⟨m', hm'⟩
      refine ⟨Finset.insert_subset_insert x ?_, ?_⟩
      · -- the element that the larger one ejects is not one that the smaller one keeps
        intro y hy
        obtain ⟨hne, hyS⟩ := Finset.mem_erase.mp hy
        refine Finset.mem_erase.mpr ⟨?_, h.sub hyS⟩
        rintro rfl
        have hlt := hagree y hyS m hm (hmax y hyS hne)
        have hgt := hmax' m (h.sub hm) (Ne.symm hne)
        omega
      · rw [hcard', Finset.card_insert_of_notMem fun h => hx' (Finset.mem_of_mem_erase h),
          Finset.card_erase_of_mem hm']
        omega

/-- **A removal from both.** -/
theorem Nested.erase (h : Nested n N S B) (x : α) : Nested n N (S.erase x) (B.erase x) := by
  have hgap := h.gap
  refine ⟨Finset.erase_subset_erase x h.sub, ?_⟩
  by_cases hx : x ∈ S
  · rw [Finset.card_erase_of_mem hx, Finset.card_erase_of_mem (h.sub hx)]
    have hpos := Finset.card_pos.mpr ⟨x, hx⟩
    have hposB := Finset.card_pos.mpr ⟨x, h.sub hx⟩
    omega
  · rw [Finset.erase_eq_of_notMem hx]
    have hle := Finset.card_erase_le (a := x) (s := B)
    omega

end StackAlgorithms
