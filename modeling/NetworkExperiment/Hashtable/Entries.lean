import NetworkExperiment.Hashtable.Operations

namespace NetworkExperiment

open LinkedChains

/-!
# The entries of a hash table

What a walk over all chains of a table meets:

* `entries_eq` — the entries that the heap has along the chains are those that the table holds;
* `cleanupHashTable_nil` — `cleanupHashTable` frees nothing of a table without entries.
-/

variable {β : Type} {ht : HTable β} {chains : List (List (Stored β))}

/-! ### Reading the entries off the heap -/

/-- The index and the block of an entry. -/
def HtEntryData.pair (c : HtEntryData β) : HtIndexValue × Option β := (c.index, c.block)

/-- The index and the block of an entry as a chain holds it. -/
def Stored.pair (e : Stored β) : HtIndexValue × Option β := (e.index, some e.block)

/-- A walk along a chain meets its entries. -/
theorem entriesFrom_eq {p b t : Ptr} {l : List (Stored β)} {fuel : ℕ}
    (h : Segment (htLinks β) ht.mem p b (l.map Stored.cell) none t) (hfuel : l.length ≤ fuel) :
    (ht.entriesFrom fuel p).map HtEntryData.pair = l.map Stored.pair := by
  induction l generalizing p b fuel with
  | nil =>
    obtain ⟨rfl, -⟩ := h
    cases fuel <;> rfl
  | cons e l ih =>
    -- the pointer is that of the entry, whose fields the heap has
    obtain ⟨c, rfl, hc, -, hindex, hblock, -, h⟩ := segment_cons_entry h
    cases fuel with
    | zero => simp at hfuel
    | succ fuel =>
      have hlookup : ht.heap.lookup e.addr = some c := hc
      have hrest := ih h (by simp at hfuel; omega)
      have hpair : c.pair = e.pair := by
        unfold HtEntryData.pair Stored.pair
        rw [hindex, hblock]
      simp only [HTable.entriesFrom, hlookup, List.map_cons]
      rw [hrest, hpair]

/-- The index and the block of each entry, chain by chain. -/
def HTable.chainPairs (ht : HTable β) : List (List (HtIndexValue × Option β)) :=
  ht.hasHTable.map fun p => (ht.entriesFrom ht.fuel p).map HtEntryData.pair

/-- A walk along each chain meets the entries of the chain. -/
theorem chainPairs_eq (h : ht.Holds chains) :
    ht.chainPairs = chains.map (List.map Stored.pair) := by
  unfold HTable.chainPairs
  apply List.ext_getElem
  · rw [List.length_map, List.length_map, h.length_bins, h.length_chains]
  · intro i hi hi'
    rw [List.length_map] at hi hi'
    rw [List.getElem_map, List.getElem_map]
    obtain ⟨t, hseg⟩ := h.linked i hi' hi
    exact entriesFrom_eq hseg (h.length_le_fuel hi')

/-- The entries of a table are those of its chains. -/
theorem entries_eq (h : ht.Holds chains) :
    ht.entries.map HtEntryData.pair = chains.flatten.map Stored.pair := by
  unfold HTable.entries
  rw [List.map_flatMap, List.flatMap_def, ← HTable.chainPairs, chainPairs_eq h, List.map_flatten]

/-! ### Cleaning up -/

/-- Where all chains are empty, nothing is freed. -/
theorem cleanupChains_nil {todo i : ℕ} (hlen : i + todo ≤ ht.hasHTable.length)
    (hnull : ∀ j (hj : j < ht.hasHTable.length), ht.hasHTable[j] = none) :
    ∃ ht', HTable.cleanupChains todo i ht = .ok ([], ht') := by
  induction todo generalizing i ht with
  | zero => exact ⟨ht, rfl⟩
  | succ todo ih =>
    have hi : i < ht.hasHTable.length := by omega
    -- the pointer to the chain is set to what it was
    have hkeep : (ht.setBin i none).hasHTable = ht.hasHTable := by
      show ht.hasHTable.set i none = ht.hasHTable
      rw [← hnull i hi, List.set_getElem_self]
    obtain ⟨ht', hrest⟩ := @ih (ht.setBin i none) (i + 1) (by rw [hkeep]; omega)
      (by simpa only [hkeep] using hnull)
    have hloop : HTable.cleanupLoop ht.fuel none ht = .ok ([], ht) := by
      cases ht.fuel <;> rfl
    refine ⟨ht', ?_⟩
    unfold HTable.cleanupChains
    rw [bin_eq hi, ok_bind, hnull i hi, hloop, ok_bind]
    dsimp only
    rw [hrest]
    rfl

/-- The chains of a table without entries are empty, -/
theorem HTable.Holds.bins_of_nil (h : ht.Holds chains) (hnil : chains.flatten = []) (j : ℕ)
    (hj : j < ht.hasHTable.length) : ht.hasHTable[j] = none := by
  have hj' : j < chains.length := by
    rw [h.length_chains, ← h.length_bins]
    exact hj
  obtain ⟨t, hseg⟩ := h.linked j hj' hj
  rw [List.flatten_eq_nil_iff.mp hnil _ (List.getElem_mem hj')] at hseg
  exact hseg.1

/-- and so is its heap. -/
theorem HTable.Holds.heap_of_nil (h : ht.Holds chains) (hnil : chains.flatten = []) :
    ht.heap = ∅ := by
  have hkeys := h.owned
  rw [hnil, List.map_nil] at hkeys
  apply AList.ext
  exact List.map_eq_nil_iff.mp hkeys.nil_eq.symm

/-- It has no blocks to free. -/
theorem cleanupHashTable_nil (h : ht.Holds chains) (hnil : chains.flatten = []) :
    ∃ ht', cleanupHashTable ht = .ok ([], ht') :=
  cleanupChains_nil (by rw [h.length_bins, Nat.zero_add]) (h.bins_of_nil hnil)

end NetworkExperiment
