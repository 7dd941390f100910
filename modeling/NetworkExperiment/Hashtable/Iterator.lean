import NetworkExperiment.Hashtable.Operations

namespace NetworkExperiment

open LinkedChains

/-!
# The iterator of the hash table

Repeated calls of `iterateHashTable` on a table that is not modified return the stored blocks, chain
after chain:

* `HtIterator.Before` — the entries that an iterator has still to return;
* `iterateHashTable_spec` — a call returns the block of the first of them, or `NULL` if there is
  none.
-/

variable {β : Type} {ht : HTable β} {chains : List (List (Stored β))} {rest : List (Stored β)}
  {it : HtIterator}

/-- The iterator has the entries `rest` still to return. -/
def HtIterator.Before (chains : List (List (Stored β))) (rest : List (Stored β))
    (it : HtIterator) : Prop :=
  match it.ptr with
  | none => it.idx.toNat ≤ chains.length ∧ rest = (chains.drop it.idx.toNat).flatten
  | some a => ∃ (hi : it.idx.toNat < chains.length) (l₁ l₂ : List (Stored β)) (e : Stored β),
      chains[it.idx.toNat] = l₁ ++ e :: l₂ ∧ a = e.addr ∧
        rest = l₂ ++ (chains.drop (it.idx.toNat + 1)).flatten

/-- A fresh iterator has all entries to return. -/
theorem before_init : initHashTableIterator.Before chains chains.flatten :=
  ⟨Nat.zero_le _, by rfl⟩

/-- The number of a chain and its successor fit the iterator. -/
theorem HTable.Holds.toNat_succ (h : ht.Holds chains) {idx : UInt16}
    (hidx : idx.toNat < chains.length) : (idx + 1).toNat = idx.toNat + 1 := by
  have hsize := ht.htTableSize.toNat_lt
  rw [← h.length_chains] at hsize
  rw [UInt16.toNat_add]
  exact Nat.mod_eq_of_lt (by simp; omega)

/-- The first entry of a chain. -/
theorem HTable.Holds.first_entry (h : ht.Holds chains) {i : ℕ} (hi : i < chains.length)
    (hib : i < ht.hasHTable.length) {e : Stored β} {l : List (Stored β)}
    (hl : chains[i] = e :: l) :
    ht.hasHTable[i] = some e.addr ∧ ∃ c, ht.mem e.addr = some c ∧ c.block = some e.block := by
  obtain ⟨t, hseg⟩ := h.linked i hi hib
  rw [hl] at hseg
  obtain ⟨c, hhead, hc, -, -, hblock, -, -⟩ := segment_cons_entry hseg
  exact ⟨hhead, c, hc, hblock⟩

/-- The loop of the iterator finds the first entry of the chains that are left. -/
theorem nextChain_spec (h : ht.Holds chains) (todo : ℕ) (idx : UInt16)
    (htodo : idx.toNat + todo = chains.length) :
    ∃ it, ht.nextChain todo idx
        = .ok ((chains.drop idx.toNat).flatten.head?.map (·.block), it) ∧
      it.Before chains (chains.drop idx.toNat).flatten.tail := by
  induction todo generalizing idx with
  | zero =>
    rw [List.drop_of_length_le (by omega)]
    refine ⟨⟨idx, none⟩, rfl, by show idx.toNat ≤ _; omega, ?_⟩
    rw [List.drop_of_length_le (by show _ ≤ idx.toNat; omega)]
    rfl
  | succ todo ih =>
    have hi : idx.toNat < chains.length := by omega
    have hib : idx.toNat < ht.hasHTable.length := by
      rw [h.length_bins, ← h.length_chains]
      exact hi
    unfold HTable.nextChain
    rw [List.drop_eq_getElem_cons hi, List.flatten_cons, bin_eq hib, ok_bind]
    cases hl : chains[idx.toNat] with
    | nil =>
      -- an empty chain is skipped
      obtain ⟨t, hseg⟩ := h.linked _ hi hib
      rw [hl] at hseg
      have hnext := ih (idx + 1) (by rw [h.toNat_succ hi]; omega)
      rw [h.toNat_succ hi] at hnext
      have hnull : ht.hasHTable[idx.toNat] = none := hseg.1
      rw [hnull]
      exact hnext
    | cons e l =>
      obtain ⟨hhead, c, hc, hblock⟩ := h.first_entry hi hib hl
      rw [hhead]
      dsimp only
      rw [deref_eq hc, ok_bind, hblock]
      exact ⟨⟨idx, some e.addr⟩, rfl, hi, [], l, e, hl, rfl, rfl⟩

/-- **Iteration.**  A call returns the block of the first entry that is left, or `NULL` if there is
    none, and goes on from the others. -/
theorem iterateHashTable_spec (h : ht.Holds chains) (hit : it.Before chains rest) :
    ∃ it', iterateHashTable ht it = .ok (rest.head?.map (·.block), it') ∧
      it'.Before chains rest.tail := by
  obtain ⟨idx, ptr⟩ := it
  unfold HtIterator.Before at hit
  unfold iterateHashTable
  cases ptr with
  | none =>
    obtain ⟨hle, rfl⟩ := hit
    dsimp only at hle
    exact nextChain_spec h _ idx (by rw [← h.length_chains]; dsimp only; omega)
  | some a =>
    obtain ⟨hi, l₁, l₂, e, hl, rfl, rfl⟩ := hit
    dsimp only at hi hl ⊢
    have hib : idx.toNat < ht.hasHTable.length := by
      rw [h.length_bins, ← h.length_chains]
      exact hi
    obtain ⟨t, hseg⟩ := h.linked _ hi hib
    rw [hl, List.map_append] at hseg
    obtain ⟨m, u, -, hrest⟩ := segment_append.mp hseg
    obtain ⟨c, -, hc, -, -, -, -, hback⟩ := segment_cons_entry hrest
    rw [deref_eq hc, ok_bind]
    cases l₂ with
    | nil =>
      -- the chain is done
      have hnext := nextChain_spec h (ht.htTableSize.toNat - (idx + 1).toNat) (idx + 1)
        (by rw [h.toNat_succ hi, ← h.length_chains]; omega)
      have hnull : c.next = none := hback.1
      rw [hnull, List.nil_append]
      rw [h.toNat_succ hi] at hnext ⊢
      exact hnext
    | cons e' l₂ =>
      obtain ⟨c', hnext, hc', -, -, hblock, -, -⟩ := segment_cons_entry hback
      rw [hnext]
      dsimp only [List.cons_append]
      rw [deref_eq hc', ok_bind, hblock]
      refine ⟨⟨idx, some e'.addr⟩, rfl, hi, l₁ ++ [e], l₂, e', ?_, rfl, rfl⟩
      show chains[idx.toNat] = _
      rw [hl, List.append_assoc]
      rfl

end NetworkExperiment
