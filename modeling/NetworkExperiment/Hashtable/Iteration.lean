import Mathlib.Data.List.Sort
import NetworkExperiment.Hashtable.Entries
import NetworkExperiment.Hashtable.Iterator
import NetworkExperiment.Hashtable.Refinement

namespace NetworkExperiment

/-!
# Iteration over a hash table

A table that is not modified is listed by its iterator, and the list depends on nothing but the map
that is stored:

* `iterBefore` / `Listing` — a list of what a map holds, by chain and in a chain by index;
* `Listing.unique` — there is one such list;
* `HTable.Holds.listing` / `HTable.Holds.chains_unique` — the chains hold this list, and each chain
  is determined by the map;
* `iterations_eq` — repeated calls of `iterateHashTable` go through it, and return `NULL` behind it;
* `iteration_complete` — both for every table that calls on a fresh table reach.
-/

variable {β : Type}

/-! ### Listing a map -/

/-- The order of iteration: by the chain of the index, and in a chain by the index. -/
def iterBefore (size : ℕ) (a b : HtIndexValue) : Prop :=
  a.toNat % size < b.toNat % size ∨ a.toNat % size = b.toNat % size ∧ a < b

/-- The list holds what the map does, in the order of iteration. -/
structure Listing (size : ℕ) (m : HtIndexValue → Option β) (l : List (HtIndexValue × β)) :
    Prop where
  mem_iff : ∀ idx blk, (idx, blk) ∈ l ↔ m idx = some blk
  ordered : l.Pairwise fun a b => iterBefore size a.1 b.1

variable {size : ℕ} {m : HtIndexValue → Option β} {l l' : List (HtIndexValue × β)}

theorem iterBefore_irrefl (a : HtIndexValue) : ¬ iterBefore size a a := by
  rintro (hlt | ⟨-, hlt⟩)
  · exact Nat.lt_irrefl _ hlt
  · exact UInt64.lt_irrefl a hlt

theorem iterBefore_asymm {a b : HtIndexValue} (h : iterBefore size a b) :
    ¬ iterBefore size b a := by
  rintro (hlt | ⟨heq, hlt⟩)
  · rcases h with hlt' | ⟨heq', -⟩ <;> omega
  · rcases h with hlt' | ⟨-, hlt'⟩
    · omega
    · exact UInt64.lt_asymm hlt hlt'

/-- Two lists in the order of iteration that have the same elements are the same. -/
theorem eq_of_ordered (h : l.Pairwise fun a b => iterBefore size a.1 b.1)
    (h' : l'.Pairwise fun a b => iterBefore size a.1 b.1) (hmem : ∀ a, a ∈ l ↔ a ∈ l') :
    l = l' := by
  have hirrefl : Std.Irrefl fun a b : HtIndexValue × β => iterBefore size a.1 b.1 :=
    ⟨fun a => iterBefore_irrefl a.1⟩
  have hantisymm : Std.Antisymm fun a b : HtIndexValue × β => iterBefore size a.1 b.1 :=
    ⟨fun _ _ hab hba => absurd hba (iterBefore_asymm hab)⟩
  exact h.eq_of_mem_iff h' hmem

/-- A map has one listing. -/
theorem Listing.unique (h : Listing size m l) (h' : Listing size m l') : l = l' := by
  apply eq_of_ordered h.ordered h'.ordered
  rintro ⟨idx, blk⟩
  rw [h.mem_iff, h'.mem_iff]

/-- Nothing is listed twice. -/
theorem Listing.nodup (h : Listing size m l) : (l.map (·.1)).Nodup := by
  rw [List.Nodup, List.pairwise_map]
  refine h.ordered.imp ?_
  intro a b hab heq
  rw [heq] at hab
  exact iterBefore_irrefl _ hab

/-! ### The chains list the map -/

/-- The index and the block of an entry. -/
def Stored.keyed (e : Stored β) : HtIndexValue × β := (e.index, e.block)

variable {ht ht' : HTable β} {chains chains' : List (List (Stored β))} {i : ℕ}
  {idx : HtIndexValue} {blk : β}

/-- What the chain `i` holds. -/
theorem HTable.Holds.mem_keyed (h : ht.Holds chains) (hi : i < chains.length) :
    (idx, blk) ∈ chains[i].map Stored.keyed ↔
      ht.hashValue idx = i ∧ contents chains idx = some blk := by
  rw [List.mem_map, h.contents_eq_some]
  constructor
  · rintro ⟨e, he, hkeyed⟩
    obtain ⟨rfl, rfl⟩ := Prod.mk.inj hkeyed
    exact ⟨h.hashed i hi e he, e, List.mem_flatten.mpr ⟨_, List.getElem_mem hi, he⟩, rfl, rfl⟩
  · rintro ⟨rfl, e, he, hidx, rfl⟩
    exact ⟨e, h.mem_chain he hidx hi, by rw [← hidx]; rfl⟩

/-- It holds them in the order of iteration. -/
theorem HTable.Holds.chain_ordered (h : ht.Holds chains) (hi : i < chains.length) :
    (chains[i].map Stored.keyed).Pairwise
      fun a b => iterBefore ht.htTableSize.toNat a.1 b.1 := by
  rw [List.pairwise_map]
  -- the chain is sorted by its indices, which all have its hash value
  refine (h.sorted _ (List.getElem_mem hi)).imp_of_mem ?_
  intro a b ha hb hlt
  have hhash : ht.hashValue a.index = ht.hashValue b.index := by
    rw [h.hashed i hi a ha, h.hashed i hi b hb]
  exact .inr ⟨hhash, hlt⟩

/-- The chains one after the other list the map. -/
theorem HTable.Holds.listing (h : ht.Holds chains) :
    Listing ht.htTableSize.toNat (contents chains) (chains.flatten.map Stored.keyed) where
  mem_iff idx blk := by
    rw [List.mem_map, h.contents_eq_some]
    constructor
    · rintro ⟨e, he, hkeyed⟩
      obtain ⟨rfl, rfl⟩ := Prod.mk.inj hkeyed
      exact ⟨e, he, rfl, rfl⟩
    · rintro ⟨e, he, rfl, rfl⟩
      exact ⟨e, he, rfl⟩
  ordered := by
    rw [List.map_flatten, List.pairwise_flatten]
    constructor
    · intro l hl
      obtain ⟨chain, hchain, rfl⟩ := List.mem_map.mp hl
      obtain ⟨i, hi, rfl⟩ := List.getElem_of_mem hchain
      exact h.chain_ordered hi
    · -- the entries of an earlier chain have the smaller hash value
      rw [List.pairwise_map, List.pairwise_iff_getElem]
      intro i j hi hj hij a ha b hb
      obtain ⟨e, he, rfl⟩ := List.mem_map.mp ha
      obtain ⟨f, hf, rfl⟩ := List.mem_map.mp hb
      left
      show ht.hashValue e.index < ht.hashValue f.index
      rw [h.hashed i hi e he, h.hashed j hj f hf]
      exact hij

/-- Tables of one size that store the same map have the same chains, the addresses of the entries
    apart. -/
theorem HTable.Holds.chains_unique (h : ht.Holds chains) (h' : ht'.Holds chains')
    (hsize : ht'.htTableSize = ht.htTableSize) (hcontents : contents chains' = contents chains) :
    chains'.map (·.map Stored.keyed) = chains.map (·.map Stored.keyed) := by
  apply List.ext_getElem
  · rw [List.length_map, List.length_map, h.length_chains, h'.length_chains, hsize]
  · intro i hi' hi
    rw [List.length_map] at hi hi'
    rw [List.getElem_map, List.getElem_map]
    have hordered := h'.chain_ordered hi'
    rw [hsize] at hordered
    apply eq_of_ordered hordered (h.chain_ordered hi)
    rintro ⟨idx, blk⟩
    rw [h.mem_keyed hi, h'.mem_keyed hi', hcontents, HTable.hashValue, HTable.hashValue, hsize]

/-! ### Repeated calls -/

/-- The blocks that `k` calls of `iterateHashTable` return, one after the other. -/
def iterations (ht : HTable β) : ℕ → HtIterator → Except Fault (List (Option β))
  | 0, _ => .ok []
  | k + 1, it => do
      let (blk, it) ← iterateHashTable ht it
      let blks ← iterations ht k it
      return blk :: blks

/-- The calls return the blocks that are left, and `NULL` when there are none. -/
theorem iterations_of_before (h : ht.Holds chains) {rest : List (Stored β)} {it : HtIterator}
    (hit : it.Before chains rest) (k : ℕ) :
    iterations ht k it = .ok ((List.range k).map fun i => rest[i]?.map (·.block)) := by
  induction k generalizing rest it with
  | zero => rfl
  | succ k ih =>
    -- one call takes the first block, and leaves the others in front of the `NULL`s
    obtain ⟨it', hcall, hit'⟩ := iterateHashTable_spec h hit
    have hfirst : rest.head?.map (·.block) = rest[0]?.map (·.block) := by
      rw [List.head?_eq_getElem?]
    have hothers : ((List.range k).map fun i => rest.tail[i]?.map (·.block))
        = (List.range k).map fun i => rest[i + 1]?.map (·.block) := by
      apply List.map_congr_left
      intro i _
      rw [List.getElem?_tail]
    rw [iterations, hcall, ok_bind]
    dsimp only
    rw [ih hit', ok_bind, List.range_succ_eq_map, List.map_cons, List.map_map, hfirst, hothers]
    rfl

/-- From a fresh iterator on, the calls go through the listing. -/
theorem iterations_eq (h : ht.Holds chains) (k : ℕ) :
    iterations ht k initHashTableIterator
      = .ok ((List.range k).map fun i => (chains.flatten.map Stored.keyed)[i]?.map (·.2)) := by
  rw [iterations_of_before h before_init]
  congr 1
  apply List.map_congr_left
  intro i _
  rw [List.getElem?_map, Option.map_map]
  rfl

/-- The chains as pairs of an index and a block are told by their keyed entries. -/
theorem chainPairs_eq_keyed (h : ht.Holds chains) :
    ht.chainPairs = (chains.map (·.map Stored.keyed)).map (·.map (Prod.map id some)) := by
  rw [chainPairs_eq h, List.map_map]
  apply List.map_congr_left
  intro l _
  rw [Function.comp_apply, List.map_map]
  rfl

/-- The assertion of `initHashTable` has held for a table. -/
theorem bits_of_initHashTable {bits : UInt16} (hinit : initHashTable β bits = .ok ht) :
    bits < 16 := by
  by_contra hbits
  unfold initHashTable at hinit
  rw [if_neg hbits] at hinit
  cases hinit

/-- **Iteration.**  In every state that calls on a fresh table reach, repeated calls of
    `iterateHashTable` return the stored blocks, each once, in the order of the chain and of the
    index, and `NULL` from then on.  Any two sequences of calls that leave the same map in tables
    of the same size leave the same chains, and the same blocks are returned. -/
theorem iteration_complete {bits : UInt16} {ht₀ : HTable β}
    (hinit : initHashTable β bits = .ok ht₀) {calls : List (HtCall β)}
    (hrun : (hashTable β).run calls ht₀ = some ht) :
    (∃ l, Listing ht.htTableSize.toNat (mapAfter calls) l ∧ (l.map (·.1)).Nodup ∧
      ∀ k, iterations ht k initHashTableIterator
        = .ok ((List.range k).map fun i => l[i]?.map (·.2))) ∧
    ∀ bits' ht₀' calls' ht', initHashTable β bits' = .ok ht₀' →
      (hashTable β).run calls' ht₀' = some ht' → ht'.htTableSize = ht.htTableSize →
      mapAfter calls' = mapAfter calls →
      ht'.chainPairs = ht.chainPairs ∧
        ∀ k, iterations ht' k initHashTableIterator = iterations ht k initHashTableIterator := by
  have hstart := follows_initHashTable (bits_of_initHashTable hinit) hinit
  obtain ⟨chains, h, hcontents⟩ := hashTable_history.run hstart hrun
  constructor
  · have hlisting := h.listing
    rw [hcontents] at hlisting
    exact ⟨_, hlisting, hlisting.nodup, iterations_eq h⟩
  · intro bits' ht₀' calls' ht' hinit' hrun' hsize hmap
    have hstart' := follows_initHashTable (bits_of_initHashTable hinit') hinit'
    obtain ⟨chains', h', hcontents'⟩ := hashTable_history.run hstart' hrun'
    have hsame : contents chains' = contents chains := by rw [hcontents', hmap, hcontents]
    constructor
    · rw [chainPairs_eq_keyed h, chainPairs_eq_keyed h', h.chains_unique h' hsize hsame]
    · intro k
      have hlisting := h'.listing
      rw [hsame, hsize] at hlisting
      rw [iterations_eq h, iterations_eq h', hlisting.unique h.listing]

/-- Two indices that collide, inserted in either order. -/
theorem iteration_complete_either_order :
    ∃ ht ht' : HTable ℕ,
      (hashTable ℕ).run [.insert 1 5 10, .insert 2 261 20] (.empty ℕ 256) = some ht ∧
      (hashTable ℕ).run [.insert 8 261 20, .insert 7 5 10] (.empty ℕ 256) = some ht' ∧
      ht'.chainPairs = ht.chainPairs ∧
      ∀ k, iterations ht' k initHashTableIterator = iterations ht k initHashTableIterator := by
  have hinit : initHashTable ℕ 8 = .ok (.empty ℕ 256) := rfl
  have hsome : ((hashTable ℕ).run [.insert 1 5 10, .insert 2 261 20] (.empty ℕ 256)).any
      (fun ht => decide (ht.htTableSize = 256)) = true := by decide +kernel
  have hsome' : ((hashTable ℕ).run [.insert 8 261 20, .insert 7 5 10] (.empty ℕ 256)).any
      (fun ht => decide (ht.htTableSize = 256)) = true := by decide +kernel
  obtain ⟨ht, hrun, hsize⟩ := (Option.any_eq_true _ _).mp hsome
  obtain ⟨ht', hrun', hsize'⟩ := (Option.any_eq_true _ _).mp hsome'
  have hmap : mapAfter [HtCall.insert 8 261 20, .insert 7 5 10]
      = mapAfter [HtCall.insert 1 5 10, .insert 2 261 20] :=
    @Function.update_comm _ _ (fun _ => Option ℕ) 261 5 (by decide) (some 20) (some 10)
      fun _ => none
  refine ⟨ht, ht', hrun, hrun', ?_⟩
  exact (iteration_complete hinit hrun).2 8 _ _ _ hinit hrun'
    ((of_decide_eq_true hsize').trans (of_decide_eq_true hsize).symm) hmap

end NetworkExperiment
