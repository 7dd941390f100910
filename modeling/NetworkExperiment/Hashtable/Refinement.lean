import NetworkExperiment.Lib.ActionSystem
import NetworkExperiment.Hashtable.Operations

namespace NetworkExperiment

open ActionSystems

/-!
# The hash table refines a finite map

Runs of the hash table against a map from indices to blocks:

* `HtCall` / `hashTable` — the calls, and the runs they make;
* `HtCall.apply` / `mapAfter` — what the calls do to a map;
* `hashTable_history` — a step keeps the chains in order and follows the map;
* `hash_table_refines_map` — the refinement, over every run;
* `elements_wrap` — the counter has 32 bits, and a table may hold more entries than that.
-/

variable {β : Type}

/-! ### Runs -/

/-- A call on the table.  `malloc` has returned `entry` for an insertion; the block is not
    `NULL`. -/
inductive HtCall (β : Type)
  | insert (entry : Addr) (idx : HtIndexValue) (blk : β)
  | find (idx : HtIndexValue)
  | delete (idx : HtIndexValue)

/-- The runs of a table: `malloc` does not return the address of an entry in use, and a call that
    goes wrong ends the run. -/
def hashTable (β : Type) : ActionSystem (HTable β) (HtCall β) where
  act ht
    | .insert entry idx blk =>
        if entry ∈ ht.heap then none
        else (insertValueInHashTable ht entry idx (some blk)).toOption.map Prod.snd
    | .find idx => (findValueInHashTable ht idx).toOption.map fun _ => ht
    | .delete idx => (deleteValueFromHashTable ht idx).toOption.map Prod.snd

/-- What a call does to the map from indices to blocks. -/
def HtCall.apply (m : HtIndexValue → Option β) : HtCall β → HtIndexValue → Option β
  | .insert _ idx blk => Function.update m idx (some blk)
  | .find _ => m
  | .delete idx => Function.update m idx none

/-- The map after the calls. -/
def mapAfter (calls : List (HtCall β)) : HtIndexValue → Option β :=
  calls.foldl HtCall.apply fun _ => none

/-- The number of indices under which something is stored. -/
def entries (chains : List (List (Stored β))) : ℕ := chains.flatten.length

/-- The table holds well-formed chains with what the calls have left stored. -/
def FollowsMap (calls : List (HtCall β)) (ht : HTable β) : Prop :=
  ∃ chains, ht.Holds chains ∧ contents chains = mapAfter calls

/-! ### The simulation -/

variable {ht ht' : HTable β} {calls : List (HtCall β)} {chains : List (List (Stored β))}

/-- The last call is made on the map of those before it. -/
theorem mapAfter_concat (calls : List (HtCall β)) (c : HtCall β) :
    mapAfter (calls ++ [c]) = c.apply (mapAfter calls) := by
  rw [mapAfter, List.foldl_append]
  rfl

/-- The table that `initHashTable` sets up holds empty chains. -/
theorem holds_empty {size : UInt16} (hsize : 0 < size.toNat) :
    (HTable.empty β size).Holds (List.replicate size.toNat []) where
  size_pos := hsize
  length_bins := List.length_replicate
  length_chains := List.length_replicate
  linked i hi hi' := by
    refine ⟨none, ?_⟩
    simp only [HTable.empty, List.getElem_replicate]
    exact ⟨rfl, rfl⟩
  sorted l hl := by
    rw [List.eq_of_mem_replicate hl]
    exact .nil
  hashed i hi e he := by
    rw [List.getElem_replicate] at he
    exact absurd he (by simp)
  owned := by
    simp [HTable.empty]
  count := by
    simp [HTable.empty]

/-- A fresh table has at least one chain, as the shift does not leave the 16 bits. -/
theorem size_pos_of_bits {bits : UInt16} (hbits : bits < 16) :
    0 < (1 <<< bits : UInt16).toNat := by
  have hlt : bits.toNat < 16 := UInt16.lt_iff_toNat_lt.mp hbits
  have hpow : (2 : ℕ) ^ bits.toNat < 2 ^ 16 := Nat.pow_lt_pow_right (by omega) hlt
  rw [UInt16.toNat_shiftLeft, Nat.mod_eq_of_lt hlt, Nat.shiftLeft_eq, UInt16.toNat_one, Nat.one_mul,
    Nat.mod_eq_of_lt hpow]
  exact Nat.two_pow_pos _

/-- The table that `initHashTable` returns. -/
theorem follows_initHashTable {bits : UInt16} (hbits : bits < 16)
    (hinit : initHashTable β bits = .ok ht) : FollowsMap [] ht := by
  unfold initHashTable at hinit
  rw [if_pos hbits] at hinit
  obtain rfl := Except.ok.inj hinit
  refine ⟨_, holds_empty (size_pos_of_bits hbits), ?_⟩
  funext idx
  rw [contents_eq_none.mpr (by simp)]
  rfl

/-- A step of a run follows the map: each call keeps the chains in order and does to what is stored
    what it does to the map. -/
theorem hashTable_history : (hashTable β).History FollowsMap := by
  rintro calls ht c ht' ⟨chains, hholds, hcontents⟩ hact
  cases c with
  | insert entry idx blk =>
    simp only [hashTable] at hact
    split_ifs at hact with hused
    by_cases habsent : contents chains idx = none
    · -- an absent index is inserted
      obtain ⟨ht'', hinsert, hholds'⟩ :=
        @insertValueInHashTable_holds _ _ _ ⟨entry, idx, blk⟩ hholds hused habsent
      have hcontents' := contents_insertChains hholds hholds' habsent
      rw [hinsert] at hact
      obtain rfl : ht'' = ht' := Option.some.inj hact
      refine ⟨_, hholds', ?_⟩
      rw [hcontents', mapAfter_concat, hcontents]
      rfl
    · -- the assertion fails, and there is no such step
      obtain ⟨stored, hstored⟩ := Option.ne_none_iff_exists'.mp habsent
      rw [insertValueInHashTable_duplicate hholds hstored] at hact
      exact absurd hact (by simp [Except.toOption])
  | find idx =>
    simp only [hashTable, findValueInHashTable_eq hholds] at hact
    obtain rfl : ht = ht' := Option.some.inj hact
    exact ⟨chains, hholds, by rw [mapAfter_concat]; exact hcontents⟩
  | delete idx =>
    obtain ⟨ht'', hdelete, hholds', -⟩ := deleteValueFromHashTable_holds hholds idx
    have hcontents' := contents_deleteChains hholds hholds'
    simp only [hashTable, hdelete] at hact
    obtain rfl : ht'' = ht' := Option.some.inj hact
    refine ⟨_, hholds', ?_⟩
    rw [hcontents', mapAfter_concat, hcontents]
    rfl

/-- **Refinement.**  In every state that calls on a fresh table reach, the table holds well-formed
    chains with what the calls have left stored, and the counter is the number of entries modulo
    `2 ^ 32`.  From there a search returns what is stored; a deletion returns it and empties its
    index only; an insertion of an absent index succeeds and changes its index only. -/
theorem hash_table_refines_map {bits : UInt16} (hbits : bits < 16) {ht₀ : HTable β}
    (hinit : initHashTable β bits = .ok ht₀) (calls : List (HtCall β))
    (hrun : (hashTable β).run calls ht₀ = some ht) :
    ∃ chains, ht.Holds chains ∧ contents chains = mapAfter calls ∧
      ht.elements.toNat = entries chains % 2 ^ 32 ∧
      (∀ idx, findValueInHashTable ht idx = .ok (mapAfter calls idx)) ∧
      (∀ idx, ∃ ht' chains', deleteValueFromHashTable ht idx = .ok (mapAfter calls idx, ht') ∧
        ht'.Holds chains' ∧ contents chains' = Function.update (mapAfter calls) idx none) ∧
      ∀ entry idx blk, entry ∉ ht.heap → mapAfter calls idx = none →
        ∃ ht' chains', insertValueInHashTable ht entry idx (some blk) = .ok (0, ht') ∧
          ht'.Holds chains' ∧
          contents chains' = Function.update (mapAfter calls) idx (some blk) := by
  obtain ⟨chains, hholds, hcontents⟩ :=
    hashTable_history.run (follows_initHashTable hbits hinit) hrun
  refine ⟨chains, hholds, hcontents, ?_, ?_, ?_, ?_⟩
  · rw [hholds.count]
    exact UInt32.toNat_ofNat'
  · intro idx
    rw [findValueInHashTable_eq hholds, hcontents]
  · intro idx
    obtain ⟨ht', hdelete, hholds', -⟩ := deleteValueFromHashTable_holds hholds idx
    rw [hcontents] at hdelete
    refine ⟨ht', _, hdelete, hholds', ?_⟩
    rw [contents_deleteChains hholds hholds', hcontents]
  · intro entry idx blk hfresh habsent
    rw [← hcontents] at habsent
    obtain ⟨ht', hinsert, hholds'⟩ :=
      @insertValueInHashTable_holds _ _ _ ⟨entry, idx, blk⟩ hholds hfresh habsent
    refine ⟨ht', _, hinsert, hholds', ?_⟩
    rw [contents_insertChains hholds hholds' habsent, hcontents]

/-- Two entries that collide, of which the first is deleted again. -/
theorem hash_table_refines_map_collision :
    ∃ (ht₀ ht : HTable ℕ) (chains : List (List (Stored ℕ))), initHashTable ℕ 8 = .ok ht₀ ∧
      (hashTable ℕ).run [.insert 1 5 10, .insert 2 261 20, .delete 5] ht₀ = some ht ∧
      ht.Holds chains ∧ contents chains 261 = some 20 ∧ contents chains 5 = none := by
  have hinit : initHashTable ℕ 8 = .ok (.empty ℕ 256) := rfl
  have hsome : ((hashTable ℕ).run [.insert 1 5 10, .insert 2 261 20, .delete 5]
      (.empty ℕ 256)).isSome := by decide
  obtain ⟨ht, hrun⟩ := Option.isSome_iff_exists.mp hsome
  obtain ⟨chains, hholds, hcontents, -⟩ := hash_table_refines_map (by decide) hinit _ hrun
  refine ⟨_, ht, chains, hinit, hrun, hholds, ?_, ?_⟩
  · rw [hcontents]
    decide
  · rw [hcontents]
    decide

/-! ### The counter -/

/-- The insertion of the index `k`. -/
def insertNumber (k : ℕ) : HtCall Unit := .insert k (UInt64.ofNat k) ()

/-- A table can be filled with entries of `n` indices, one after the other.  The addresses and the
    indices so far are all below `n`. -/
theorem exists_filled {ht₀ : HTable Unit} (hinit : initHashTable Unit 8 = .ok ht₀) {n : ℕ}
    (hn : n ≤ 2 ^ 64) :
    ∃ ht chains, (hashTable Unit).run ((List.range n).map insertNumber) ht₀ = some ht ∧
      ht.Holds chains ∧ entries chains = n ∧ (∀ a ∈ ht.heap, a < n) ∧
      ∀ e ∈ chains.flatten, e.index.toNat < n := by
  induction n with
  | zero =>
    obtain rfl : HTable.empty Unit 256 = ht₀ := Except.ok.inj hinit
    have hnil : (List.replicate (256 : UInt16).toNat ([] : List (Stored Unit))).flatten = [] :=
      List.flatten_replicate_nil
    refine ⟨_, _, rfl, holds_empty (by decide), ?_, ?_, ?_⟩
    · rw [entries, hnil, List.length_nil]
    · intro a ha
      exact absurd ha (AList.notMem_empty a)
    · rw [hnil]
      intro e he
      exact absurd he List.not_mem_nil
  | succ n ih =>
    obtain ⟨ht, chains, hrun, hholds, hentries, hheap, hindex⟩ := ih (by omega)
    -- the address and the index `n` have not been used yet
    have hfresh : n ∉ ht.heap := fun hmem => Nat.lt_irrefl _ (hheap n hmem)
    have hidx : (UInt64.ofNat n).toNat = n := UInt64.toNat_ofNat_of_lt' (by exact hn)
    have habsent : contents chains (UInt64.ofNat n) = none := by
      rw [contents_eq_none]
      intro e he heq
      have hlt := hindex e he
      rw [heq, hidx] at hlt
      exact Nat.lt_irrefl _ hlt
    obtain ⟨ht', hinsert, hholds'⟩ :=
      @insertValueInHashTable_holds _ _ _ ⟨n, UInt64.ofNat n, ()⟩ hholds hfresh habsent
    -- there is one entry more, and its address and index are `n`
    have hperm := insertChains_perm hholds ⟨n, UInt64.ofNat n, ()⟩
    refine ⟨ht', _, ?_, hholds', ?_, ?_, ?_⟩
    · rw [List.range_succ, List.map_append]
      refine (hashTable Unit).run_concat_eq_some.mpr ⟨ht, hrun, ?_⟩
      simp only [hashTable, insertNumber, if_neg hfresh, hinsert]
      rfl
    · rw [entries, hperm.length_eq, List.length_cons, ← entries, hentries]
    · intro a ha
      rw [hholds'.mem_heap, (hperm.map Stored.addr).mem_iff, List.map_cons, List.mem_cons] at ha
      rcases ha with rfl | ha
      · exact Nat.lt_succ_self _
      · exact Nat.lt_succ_of_lt (hheap a (hholds.mem_heap.mpr ha))
    · intro e he
      rw [hperm.mem_iff, List.mem_cons] at he
      rcases he with rfl | he
      · show (UInt64.ofNat n).toNat < n + 1
        omega
      · exact Nat.lt_succ_of_lt (hindex e he)

/-- After the insertion of `2 ^ 32` indices the table holds as many entries, and the counter
    says `0`. -/
theorem elements_wrap :
    ∃ (ht₀ ht : HTable Unit) (chains : List (List (Stored Unit))),
      initHashTable Unit 8 = .ok ht₀ ∧
      (hashTable Unit).run ((List.range (2 ^ 32)).map insertNumber) ht₀ = some ht ∧
      ht.Holds chains ∧ entries chains = 2 ^ 32 ∧ ht.elements = 0 := by
  have hinit : initHashTable Unit 8 = .ok (.empty Unit 256) := rfl
  obtain ⟨ht, chains, hrun, hholds, hentries, -⟩ := exists_filled (n := 2 ^ 32) hinit (by decide)
  refine ⟨_, ht, chains, hinit, hrun, hholds, hentries, ?_⟩
  rw [hholds.count]
  show UInt32.ofNat (entries chains) = 0
  rw [hentries]
  rfl

end NetworkExperiment
