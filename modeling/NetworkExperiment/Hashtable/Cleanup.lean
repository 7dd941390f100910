import NetworkExperiment.Hashtable.Iteration

namespace NetworkExperiment

open ActionSystems LinkedChains

/-!
# Cleaning up a hash table

`cleanupHashTable` on a table that still holds entries: it frees what the iterator would have
returned, and nothing else.

* `cleanupLoop_eq` — one chain: its entries are freed from the first to the last, and the next entry
  is read before the entry in front of it is gone;
* `cleanupChains_eq` — the chains, one after the other;
* `cleanup_frees_all` — every table that calls on a fresh table reach.
-/

variable {β : Type} {ht ht' : HTable β} {p b t : Ptr} {l : List (Stored β)}

/-- The heap without an entry that it has held. -/
theorem keys_erase_perm {a : Addr} {c : HtEntryData β} (h : ht.mem a = some c) :
    (a :: (ht.heap.erase a).keys).Perm ht.heap.keys := by
  have ha : a ∈ ht.heap.keys := by
    rw [← AList.mem_keys, ← AList.lookup_isSome]
    exact Option.isSome_of_eq_some h
  rw [AList.keys_erase]
  exact (List.perm_cons_erase ha).symm

/-- The entries of a chain are freed, and the rest of the table is left alone. -/
theorem cleanupLoop_eq {fuel : ℕ} (hseg : Segment (htLinks β) ht.mem p b (l.map Stored.cell) none t)
    (hnodup : (l.map Stored.addr).Nodup) (hfuel : l.length ≤ fuel) :
    ∃ ht', HTable.cleanupLoop fuel p ht = .ok (l.map fun e => some e.block, ht') ∧
      ht'.hasHTable = ht.hasHTable ∧ (∀ a, a ∉ l.map Stored.addr → ht'.mem a = ht.mem a) ∧
      (l.map Stored.addr ++ ht'.heap.keys).Perm ht.heap.keys := by
  induction l generalizing ht p b fuel with
  | nil =>
    obtain ⟨rfl, -⟩ := hseg
    refine ⟨ht, ?_, rfl, fun _ _ => rfl, .refl _⟩
    cases fuel <;> rfl
  | cons e l ih =>
    obtain ⟨c, rfl, hc, hcookie, -, hblock, -, hrest⟩ := segment_cons_entry hseg
    obtain ⟨fuel, rfl⟩ : ∃ k, fuel = k + 1 := ⟨fuel - 1, by rw [List.length_cons] at hfuel; omega⟩
    rw [List.map_cons, List.nodup_cons] at hnodup
    -- the entry is gone, and the others are where they were
    have hmem : ∀ a, a ≠ e.addr →
        HTable.mem { ht with heap := ht.heap.erase e.addr } a = ht.mem a :=
      fun a ha => AList.lookup_erase_ne ha
    have hframe : Segment (htLinks β) (HTable.mem { ht with heap := ht.heap.erase e.addr }) c.next
        (some e.addr) (l.map Stored.cell) none t := by
      refine hrest.frame ?_
      rintro x hx
      obtain ⟨y, hy, rfl⟩ := List.mem_map.mp hx
      exact hmem _ fun heq => hnodup.1 (heq ▸ List.mem_map.mpr ⟨y, hy, rfl⟩)
    obtain ⟨ht', hloop, hbins, hother, hkeys⟩ :=
      @ih _ _ _ fuel hframe hnodup.2 (Nat.le_of_succ_le_succ hfuel)
    refine ⟨ht', ?_, hbins, ?_, ?_⟩
    · rw [HTable.cleanupLoop, deref_eq hc, ok_bind, validateHtEntry_eq hcookie, ok_bind, hloop,
        ok_bind, hblock]
      rfl
    · intro a ha
      rw [List.map_cons, List.mem_cons, not_or] at ha
      rw [hother a ha.2, hmem a ha.1]
    · rw [List.map_cons, List.cons_append]
      exact (hkeys.cons e.addr).trans (keys_erase_perm hc)

/-- Chain after chain, all entries are freed. -/
theorem cleanupChains_eq {rest : List (List (Stored β))} {i : ℕ}
    (hlen : i + rest.length = ht.hasHTable.length)
    (hlinked : ∀ j (hj : j < rest.length),
      Chain (htLinks β) ht.mem ht.hasHTable[i + j] (rest[j].map Stored.cell))
    (hdone : ∀ j < i, ht.hasHTable[j]? = some none)
    (howned : (rest.flatten.map Stored.addr).Perm ht.heap.keys) :
    ∃ ht', HTable.cleanupChains rest.length i ht
        = .ok (rest.flatten.map fun e => some e.block, ht') ∧
      ht'.heap = ∅ ∧ ht'.hasHTable = List.replicate ht.hasHTable.length none := by
  induction rest generalizing ht i with
  | nil =>
    refine ⟨ht, rfl, ?_, ?_⟩
    · exact AList.ext (List.map_eq_nil_iff.mp howned.nil_eq.symm)
    · rw [List.eq_replicate_iff]
      refine ⟨rfl, fun p hp => ?_⟩
      obtain ⟨j, hj, rfl⟩ := List.getElem_of_mem hp
      rw [List.length_nil] at hlen
      have hnull := hdone j (by omega)
      rw [List.getElem?_eq_getElem hj] at hnull
      exact Option.some.inj hnull
  | cons l rest ih =>
    rw [List.length_cons] at hlen
    have hi : i < ht.hasHTable.length := by omega
    have hnodup : (((l :: rest).flatten).map Stored.addr).Nodup :=
      howned.nodup_iff.mpr (AList.keys_nodup _)
    rw [List.flatten_cons, List.map_append] at hnodup howned
    obtain ⟨hl, hrest, hdisjoint⟩ := List.nodup_append.mp hnodup
    obtain ⟨t, hseg⟩ := hlinked 0 (by rw [List.length_cons]; omega)
    have hfuel : l.length ≤ ht.fuel := by
      have hcount := howned.length_eq
      rw [List.length_append, List.length_map] at hcount
      unfold HTable.fuel
      omega
    obtain ⟨ht₁, hloop, hbins, hother, hkeys⟩ := cleanupLoop_eq hseg hl hfuel
    have hbins' : (ht₁.setBin i none).hasHTable = ht.hasHTable.set i none := by
      rw [hasHTable_setBin, hbins]
    have hlength : (ht₁.setBin i none).hasHTable.length = ht.hasHTable.length := by
      rw [hbins', List.length_set]
    -- the chains behind this one share no entry with it
    have hlinked' : ∀ j (hj : j < rest.length), Chain (htLinks β) (ht₁.setBin i none).mem
        (ht₁.setBin i none).hasHTable[i + 1 + j] (rest[j].map Stored.cell) := by
      intro j hj
      obtain ⟨t, hseg⟩ := hlinked (j + 1) (by rw [List.length_cons]; omega)
      have hbin : (ht₁.setBin i none).hasHTable[i + 1 + j] = ht.hasHTable[i + (j + 1)] := by
        simp only [hbins']
        rw [List.getElem_set_ne (by omega)]
        congr 1
        omega
      rw [hbin]
      refine ⟨t, hseg.frame ?_⟩
      rintro x hx
      obtain ⟨e, he, rfl⟩ := List.mem_map.mp hx
      refine hother _ fun hmem => ?_
      have he' : e.addr ∈ rest.flatten.map Stored.addr :=
        List.mem_map.mpr ⟨e, List.mem_flatten.mpr ⟨_, List.getElem_mem hj, he⟩, rfl⟩
      exact hdisjoint _ hmem _ he' rfl
    have hdone' : ∀ j < i + 1, (ht₁.setBin i none).hasHTable[j]? = some none := by
      intro j hj
      rw [hbins']
      by_cases hji : j = i
      · rw [hji, List.getElem?_set_self hi]
      · rw [List.getElem?_set_ne (Ne.symm hji)]
        exact hdone j (by omega)
    have howned' : (rest.flatten.map Stored.addr).Perm (ht₁.setBin i none).heap.keys :=
      (List.perm_append_left_iff _).mp (howned.trans hkeys.symm)
    obtain ⟨ht', hchains, hheap, hnull⟩ := ih (by omega) hlinked' hdone' howned'
    refine ⟨ht', ?_, hheap, by rw [hnull, hlength]⟩
    rw [List.length_cons, HTable.cleanupChains, bin_eq hi, ok_bind]
    have hloop' : HTable.cleanupLoop ht.fuel ht.hasHTable[i] ht = _ := hloop
    rw [hloop', ok_bind]
    dsimp only
    rw [hchains, ok_bind, List.flatten_cons, List.map_append]
    rfl

/-- Of a whole table, too. -/
theorem cleanupHashTable_eq {chains : List (List (Stored β))} (h : ht.Holds chains) :
    ∃ ht', cleanupHashTable ht = .ok (chains.flatten.map fun e => some e.block, ht') ∧
      ht'.heap = ∅ ∧ ht'.hasHTable = List.replicate ht.htTableSize.toNat none := by
  have hlen : 0 + chains.length = ht.hasHTable.length := by
    rw [h.length_chains, h.length_bins, Nat.zero_add]
  have hlinked : ∀ j (hj : j < chains.length),
      Chain (htLinks β) ht.mem ht.hasHTable[0 + j] (chains[j].map Stored.cell) := by
    intro j hj
    simp only [Nat.zero_add]
    exact h.linked j hj _
  obtain ⟨ht', hclean, hheap, hbins⟩ :=
    cleanupChains_eq hlen hlinked (fun j hj => absurd hj (Nat.not_lt_zero j)) h.owned
  rw [h.length_chains] at hclean
  rw [h.length_bins] at hbins
  exact ⟨ht', hclean, hheap, hbins⟩

/-- **Cleanup.**  In every state that calls on a fresh table reach, `cleanupHashTable` does not go
    wrong: it frees the block of each stored entry once, in the order in which the iterator returns
    them, and all entries, and leaves every chain empty.  A block that is stored under two indices
    is freed for each of them. -/
theorem cleanup_frees_all {bits : UInt16} {ht₀ : HTable β}
    (hinit : initHashTable β bits = .ok ht₀) {calls : List (HtCall β)}
    (hrun : (hashTable β).run calls ht₀ = some ht) :
    ∃ l ht', Listing ht.htTableSize.toNat (mapAfter calls) l ∧
      cleanupHashTable ht = .ok (l.map fun entry => some entry.2, ht') ∧
      ht'.heap = ∅ ∧ ht'.hasHTable = List.replicate ht.htTableSize.toNat none := by
  have hstart := follows_initHashTable (bits_of_initHashTable hinit) hinit
  obtain ⟨chains, h, hcontents⟩ := hashTable_history.run hstart hrun
  have hlisting := h.listing
  rw [hcontents] at hlisting
  obtain ⟨ht', hclean, hheap, hbins⟩ := cleanupHashTable_eq h
  refine ⟨_, ht', hlisting, ?_, hheap, hbins⟩
  rw [hclean, List.map_map]
  rfl

/-- Two entries that collide and one in another chain. -/
theorem cleanup_frees_all_collision : ∃ ht : HTable ℕ, ∃ l ht',
    (hashTable ℕ).run [.insert 1 261 20, .insert 2 5 10, .insert 3 6 30] (.empty ℕ 256) = some ht ∧
      cleanupHashTable ht = .ok (l, ht') ∧ ht'.heap = ∅ := by
  have hinit : initHashTable ℕ 8 = .ok (.empty ℕ 256) := rfl
  have hsome : ((hashTable ℕ).run [.insert 1 261 20, .insert 2 5 10, .insert 3 6 30]
      (.empty ℕ 256)).isSome = true := by decide +kernel
  obtain ⟨ht, hrun⟩ := Option.isSome_iff_exists.mp hsome
  obtain ⟨l, ht', -, hclean, hheap, -⟩ := cleanup_frees_all hinit hrun
  exact ⟨ht, _, ht', hrun, hclean, hheap⟩

end NetworkExperiment
