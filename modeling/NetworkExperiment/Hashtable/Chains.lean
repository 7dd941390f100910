import NetworkExperiment.Hashtable.Table

namespace NetworkExperiment

open LinkedChains

/-!
# What the chains of a hash table hold

The abstract view of a table is the list of its chains, each with the entries it holds in order:

* `Stored` — an entry as the chain holds it: its address, its index and its block;
* `HTable.Holds` — the table holds these chains: every chain is doubly linked and strictly sorted
  by index, its entries hash to it, the heap holds these entries and no others, and `elements`
  counts them;
* `findLoop_eq` / `deleteLoop_eq` / `insertLoop_eq` — what the walks of the operations find;
* `Holds.replace` — a change of one chain.
-/

/-! ### The heap of a table -/

/-- The fields of an entry besides its links. -/
abbrev HtPayload (β : Type) := UInt16 × HtIndexValue × Option β

/-- How an entry stores its links. -/
def htLinks (β : Type) : Links Addr (HtEntryData β) (HtPayload β) where
  next := HtEntryData.next
  prev := HtEntryData.prev
  payload c := (c.cookie, c.index, c.block)
  setNext c q := { c with next := q }
  setPrev c q := { c with prev := q }
  next_setNext _ _ := rfl
  prev_setNext _ _ := rfl
  payload_setNext _ _ := rfl
  next_setPrev _ _ := rfl
  prev_setPrev _ _ := rfl
  payload_setPrev _ _ := rfl

/-- An entry of a chain: where it lies, and what was inserted. -/
structure Stored (β : Type) where
  addr : Addr
  index : HtIndexValue
  block : β
  deriving DecidableEq

variable {β : Type}

/-- The entry with the payload that its cell has in the heap. -/
def Stored.cell (e : Stored β) : Addr × HtPayload β :=
  (e.addr, htCookieValue, e.index, some e.block)

/-- The memory that the heap of the table is. -/
def HTable.mem (ht : HTable β) : Addr → Option (HtEntryData β) := fun a => ht.heap.lookup a

@[simp] theorem ok_bind {α γ : Type} (a : α) (f : α → Except Fault γ) :
    (Except.ok a >>= f) = f a := rfl

section Heap

variable {ht : HTable β} {a : Addr} {c : HtEntryData β} {p : Ptr} {i : ℕ}

@[simp] theorem mem_put : (ht.put a c).mem = Function.update ht.mem a (some c) := by
  funext x
  unfold HTable.mem HTable.put
  by_cases hx : x = a
  · subst hx
    rw [AList.lookup_insert, Function.update_self]
  · rw [AList.lookup_insert_ne hx, Function.update_of_ne hx]

@[simp] theorem htTableSize_put : (ht.put a c).htTableSize = ht.htTableSize := rfl
@[simp] theorem elements_put : (ht.put a c).elements = ht.elements := rfl
@[simp] theorem hasHTable_put : (ht.put a c).hasHTable = ht.hasHTable := rfl
@[simp] theorem htTableSize_setBin : (ht.setBin i p).htTableSize = ht.htTableSize := rfl
@[simp] theorem elements_setBin : (ht.setBin i p).elements = ht.elements := rfl
@[simp] theorem hasHTable_setBin : (ht.setBin i p).hasHTable = ht.hasHTable.set i p := rfl
@[simp] theorem mem_setBin : (ht.setBin i p).mem = ht.mem := rfl
@[simp] theorem heap_setBin : (ht.setBin i p).heap = ht.heap := rfl

/-- Reading an entry that the heap holds. -/
theorem deref_eq (h : ht.mem a = some c) : ht.deref a = .ok c := by
  unfold HTable.deref
  rw [show ht.heap.lookup a = some c from h]

/-- Assigning to a field of an entry that the heap holds. -/
theorem store_eq (h : ht.mem a = some c) (assign : HtEntryData β → HtEntryData β) :
    ht.store a assign = .ok (ht.put a (assign c)) := by
  unfold HTable.store
  rw [deref_eq h]
  rfl

/-- An assignment to an entry of the heap allocates nothing: the addresses in use are the same. -/
theorem keys_put_perm (h : ht.mem a = some c) (c' : HtEntryData β) :
    (ht.put a c').heap.keys.Perm ht.heap.keys := by
  have ha : a ∈ ht.heap.keys := by
    rw [← AList.mem_keys, ← AList.lookup_isSome]
    exact Option.isSome_of_eq_some h
  unfold HTable.put
  rw [AList.keys_insert]
  exact (List.perm_cons_erase ha).symm

/-- A fresh entry is one more. -/
theorem keys_put_fresh (h : a ∉ ht.heap) : (ht.put a c).heap.keys = a :: ht.heap.keys := by
  unfold HTable.put
  rw [AList.keys_insert, List.erase_of_not_mem (by rwa [← AList.mem_keys])]

/-- It leaves the walks as many steps as before, and one more: their bound is the size of the
    heap. -/
theorem fuel_le_put (h : a ∉ ht.heap) : ht.fuel ≤ (ht.put a c).fuel := by
  unfold HTable.fuel
  rw [keys_put_fresh h, List.length_cons]
  omega

end Heap

/-! ### The chains of a table -/

/-- The table holds the chains. -/
structure HTable.Holds (ht : HTable β) (chains : List (List (Stored β))) : Prop where
  /-- There is a chain for each hash value. -/
  size_pos : 0 < ht.htTableSize.toNat
  length_bins : ht.hasHTable.length = ht.htTableSize.toNat
  length_chains : chains.length = ht.htTableSize.toNat
  /-- The chains are doubly linked, -/
  linked : ∀ i (hi : i < chains.length) (hi' : i < ht.hasHTable.length),
    Chain (htLinks β) ht.mem ht.hasHTable[i] (chains[i].map Stored.cell)
  /-- sorted strictly by index, -/
  sorted : ∀ l ∈ chains, l.Pairwise (·.index < ·.index)
  /-- and hold the entries that hash to them. -/
  hashed : ∀ i (hi : i < chains.length), ∀ e ∈ chains[i], ht.hashValue e.index = i
  /-- The heap holds the entries of the chains. -/
  owned : (chains.flatten.map Stored.addr).Perm ht.heap.keys
  /-- The counter is the number of entries, modulo `2 ^ 32`. -/
  count : ht.elements = UInt32.ofNat chains.flatten.length

/-- The block stored under an index. -/
def contents (chains : List (List (Stored β))) (idx : HtIndexValue) : Option β :=
  (chains.flatten.find? (·.index = idx)).map (·.block)

/-! ### Walks -/

section Walks

variable {ht : HTable β} {idx : HtIndexValue} {p b q t : Ptr}

/-- The first cell of a segment of entries is the one that the pointer into it names. -/
theorem segment_cons_entry {e : Stored β} {l : List (Stored β)}
    (h : Segment (htLinks β) ht.mem p b ((e :: l).map Stored.cell) q t) :
    ∃ c, p = some e.addr ∧ ht.mem e.addr = some c ∧ c.cookie = htCookieValue ∧
      c.index = e.index ∧ c.block = some e.block ∧ c.prev = b ∧
      Segment (htLinks β) ht.mem c.next (some e.addr) (l.map Stored.cell) q t := by
  obtain ⟨hp, c, hc, hv, hb, h⟩ := h
  obtain ⟨hcookie, hv⟩ := Prod.mk.inj hv
  obtain ⟨hindex, hblock⟩ := Prod.mk.inj hv
  exact ⟨c, hp, hc, hcookie, hindex, hblock, hb, h⟩

/-- Each entry of a segment lies in the memory. -/
theorem exists_cell_of_mem {l : List (Stored β)}
    (h : Segment (htLinks β) ht.mem p b (l.map Stored.cell) q t) {e : Stored β} (he : e ∈ l) :
    ∃ c, ht.mem e.addr = some c ∧ c.cookie = htCookieValue ∧ c.index = e.index ∧
      c.block = some e.block := by
  induction l generalizing p b with
  | nil => exact absurd he (by simp)
  | cons x l ih =>
    obtain ⟨c, -, hc, hcookie, hindex, hblock, -, h⟩ := segment_cons_entry h
    rcases List.mem_cons.mp he with rfl | he
    · exact ⟨c, hc, hcookie, hindex, hblock⟩
    · exact ih h he

/-- An entry with the right cookie passes the check. -/
theorem validateHtEntry_eq {c : HtEntryData β} (h : c.cookie = htCookieValue) :
    validateHtEntry c = .ok () := if_pos h

/-- The walk of `findValueInHashTable` may stop at the first larger index, since the chain is
    sorted. -/
theorem findLoop_eq {l : List (Stored β)} {fuel : ℕ}
    (h : Segment (htLinks β) ht.mem p b (l.map Stored.cell) none t)
    (hsorted : l.Pairwise (·.index < ·.index)) (hfuel : l.length ≤ fuel) :
    ht.findLoop idx fuel p = .ok ((l.find? (·.index = idx)).map (·.block)) := by
  induction l generalizing p b fuel with
  | nil =>
    obtain ⟨rfl, -⟩ := h
    cases fuel <;> rfl
  | cons e l ih =>
    obtain ⟨c, rfl, hc, hcookie, hindex, hblock, -, h⟩ := segment_cons_entry h
    obtain ⟨fuel, rfl⟩ : ∃ k, fuel = k + 1 := ⟨fuel - 1, by simp at hfuel; omega⟩
    rw [List.pairwise_cons] at hsorted
    unfold HTable.findLoop
    rw [deref_eq hc, ok_bind, hindex, hblock, validateHtEntry_eq hcookie]
    by_cases heq : e.index = idx
    · simp [heq, List.find?_cons_of_pos]
    · rw [List.find?_cons_of_neg (by simpa using heq)]
      by_cases hle : e.index ≤ idx
      · rw [if_pos hle, ok_bind, if_neg heq]
        exact ih h hsorted.2 (by simp at hfuel; omega)
      · rw [if_neg hle]
        -- the indices further on are larger still
        have hnone : l.find? (·.index = idx) = none := by
          rw [List.find?_eq_none]
          intro e' he' hidx
          have hlt := hsorted.1 e' he'
          rw [of_decide_eq_true hidx] at hlt
          exact hle (UInt64.le_of_lt hlt)
        rw [hnone]
        rfl

/-- The walk of `deleteValueFromHashTable` finds the entry that carries the index, or comes to the
    end of the chain. -/
theorem deleteLoop_eq {l : List (Stored β)} {fuel : ℕ}
    (h : Segment (htLinks β) ht.mem p b (l.map Stored.cell) none t) (hfuel : l.length ≤ fuel) :
    ht.deleteLoop idx fuel p = .ok ((l.find? (·.index = idx)).map (·.addr)) := by
  induction l generalizing p b fuel with
  | nil =>
    obtain ⟨rfl, -⟩ := h
    cases fuel <;> rfl
  | cons e l ih =>
    obtain ⟨c, rfl, hc, hcookie, hindex, hblock, -, h⟩ := segment_cons_entry h
    obtain ⟨fuel, rfl⟩ : ∃ k, fuel = k + 1 := ⟨fuel - 1, by simp at hfuel; omega⟩
    unfold HTable.deleteLoop
    rw [deref_eq hc, ok_bind, hindex, validateHtEntry_eq hcookie, ok_bind]
    by_cases heq : e.index = idx
    · rw [if_pos heq, List.find?_cons_of_pos (by simpa using heq)]
      rfl
    · rw [if_neg heq, List.find?_cons_of_neg (by simpa using heq)]
      exact ih h (by simp at hfuel; omega)

/-- An entry in front of a segment. -/
theorem segment_cons_of_mem {e : Stored β} {l : List (Stored β)} {c : HtEntryData β}
    (hc : ht.mem e.addr = some c) (hcookie : c.cookie = htCookieValue)
    (hindex : c.index = e.index) (hblock : c.block = some e.block) (hb : c.prev = b)
    (h : Segment (htLinks β) ht.mem c.next (some e.addr) (l.map Stored.cell) q t) :
    Segment (htLinks β) ht.mem (some e.addr) b ((e :: l).map Stored.cell) q t := by
  refine ⟨rfl, c, hc, ?_, hb, h⟩
  show (c.cookie, c.index, c.block) = _
  rw [hcookie, hindex, hblock]

/-- The walk of `insertValueInHashTable` stops between the smaller indices and the others. -/
theorem insertLoop_eq {e : Stored β} {l : List (Stored β)} {fuel : ℕ}
    (h : Segment (htLinks β) ht.mem (some e.addr) b ((e :: l).map Stored.cell) none t)
    (hlt : e.index < idx) (hfuel : (e :: l).length ≤ fuel) :
    ∃ u m, ht.insertLoop idx fuel e.addr = .ok (u, m) ∧
      Segment (htLinks β) ht.mem (some e.addr) b
        (((e :: l).takeWhile (·.index < idx)).map Stored.cell) m (some u) ∧
      Segment (htLinks β) ht.mem m (some u)
        (((e :: l).dropWhile (·.index < idx)).map Stored.cell) none t := by
  induction l generalizing e b fuel with
  | nil =>
    -- the end of the chain
    obtain ⟨c, -, hc, hcookie, hindex, hblock, hb, hnext, ht⟩ := segment_cons_entry h
    obtain ⟨fuel, rfl⟩ : ∃ k, fuel = k + 1 := ⟨fuel - 1, by simp at hfuel; omega⟩
    rw [List.takeWhile_cons_of_pos (by simpa using hlt),
      List.dropWhile_cons_of_pos (by simpa using hlt)]
    refine ⟨e.addr, none, ?_, segment_cons_of_mem hc hcookie hindex hblock hb ⟨hnext, rfl⟩, rfl, ht⟩
    unfold HTable.insertLoop
    rw [deref_eq hc, ok_bind, hnext]
    rfl
  | cons e' l ih =>
    obtain ⟨c, -, hc, hcookie, hindex, hblock, hb, h⟩ := segment_cons_entry h
    obtain ⟨c', hnext, hc', -, hindex', -, -, -⟩ := segment_cons_entry h
    obtain ⟨fuel, rfl⟩ : ∃ k, fuel = k + 1 := ⟨fuel - 1, by simp at hfuel; omega⟩
    rw [List.takeWhile_cons_of_pos (by simpa using hlt),
      List.dropWhile_cons_of_pos (by simpa using hlt)]
    -- the walk looks at the entry behind the one it is at
    have hstep : ht.insertLoop idx (fuel + 1) e.addr = if e'.index < idx then
        ht.insertLoop idx fuel e'.addr else .ok (e.addr, some e'.addr) := by
      rw [HTable.insertLoop, deref_eq hc, ok_bind, hnext]
      dsimp only
      rw [deref_eq hc', ok_bind, hindex']
      rfl
    rw [hnext] at h
    by_cases hlt' : e'.index < idx
    · -- the walk goes on from the next entry
      obtain ⟨u, m, hloop, hfront, hback⟩ := ih h hlt' (by simp at hfuel ⊢; omega)
      rw [hstep, if_pos hlt']
      refine ⟨u, m, hloop, segment_cons_of_mem hc hcookie hindex hblock hb ?_, hback⟩
      rw [hnext]
      exact hfront
    · -- it stops here
      rw [hstep, if_neg hlt', List.takeWhile_cons_of_neg (by simpa using hlt'),
        List.dropWhile_cons_of_neg (by simpa using hlt')]
      exact ⟨e.addr, some e'.addr, rfl,
        segment_cons_of_mem hc hcookie hindex hblock hb ⟨hnext, rfl⟩, h⟩

end Walks

/-! ### A change of one chain -/

section Replace

variable {ht ht' : HTable β} {chains : List (List (Stored β))} {i : ℕ}

/-- A list of chains around the chain `i`. -/
theorem exists_chain_split (hi : i < chains.length) : ∃ pre post,
    chains = pre ++ chains[i] :: post ∧ ∀ l, chains.set i l = pre ++ l :: post := by
  refine ⟨chains.take i, chains.drop (i + 1), ?_, fun l => ?_⟩
  · rw [List.getElem_cons_drop, List.take_append_drop]
  · rw [List.set_eq_take_append_cons_drop, if_pos hi]

/-- The addresses of all entries are distinct. -/
theorem HTable.Holds.nodup (h : ht.Holds chains) : (chains.flatten.map Stored.addr).Nodup :=
  h.owned.nodup_iff.mpr (AList.keys_nodup _)

/-- The addresses of the entries of a chain are distinct. -/
theorem HTable.Holds.nodup_chain (h : ht.Holds chains) (hi : i < chains.length) :
    (chains[i].map Stored.addr).Nodup :=
  h.nodup.sublist ((List.sublist_flatten_of_mem (List.getElem_mem hi)).map _)

/-- An address of the heap is the address of an entry. -/
theorem HTable.Holds.mem_heap (h : ht.Holds chains) {a : Addr} :
    a ∈ ht.heap ↔ a ∈ chains.flatten.map Stored.addr := by
  rw [AList.mem_keys, h.owned.mem_iff]

/-- A chain has at most as many entries as a walk may take steps, so no walk of a table that holds
    its chains ends for lack of them. -/
theorem HTable.Holds.length_le_fuel (h : ht.Holds chains) (hi : i < chains.length) :
    chains[i].length ≤ ht.fuel := by
  obtain ⟨pre, post, heq, -⟩ := exists_chain_split hi
  have hlen := h.owned.length_eq
  rw [heq, List.length_map] at hlen
  simp only [List.flatten_append, List.flatten_cons, List.length_append] at hlen
  unfold HTable.fuel
  omega

/-- Where all addresses are distinct, two chains have none in common: what is assigned in the one
    does not show in the other. -/
theorem addr_not_mem_of_ne (hnodup : (chains.flatten.map Stored.addr).Nodup) {j : ℕ}
    (hi : i < chains.length) (hj : j < chains.length) (hne : j ≠ i) {e : Stored β}
    (he : e ∈ chains[j]) : e.addr ∉ chains[i].map Stored.addr := by
  rw [List.map_flatten, List.nodup_flatten] at hnodup
  have hpair := List.pairwise_iff_getElem.mp hnodup.2
  have he' : e.addr ∈ chains[j].map Stored.addr := List.mem_map.mpr ⟨e, he, rfl⟩
  intro hmem
  rcases Nat.lt_or_gt_of_ne hne with hlt | hlt
  · have hdisj := hpair j i (by simpa using hj) (by simpa using hi) hlt
    rw [List.getElem_map, List.getElem_map] at hdisj
    exact hdisj he' hmem
  · have hdisj := hpair i j (by simpa using hi) (by simpa using hj) hlt
    rw [List.getElem_map, List.getElem_map] at hdisj
    exact hdisj hmem he'

/-- **Frame.**  A call that replaces one chain, and touches no entry outside the old and the new
    one, leaves the other chains in order. -/
theorem HTable.Holds.replace (h : ht.Holds chains) (hi : i < chains.length)
    {l : List (Stored β)} {p : Ptr} (hsize : ht'.htTableSize = ht.htTableSize)
    (hbins : ht'.hasHTable = ht.hasHTable.set i p)
    (hlinked : Chain (htLinks β) ht'.mem p (l.map Stored.cell))
    (hframe : ∀ a, a ∉ chains[i].map Stored.addr → a ∉ l.map Stored.addr → ht'.mem a = ht.mem a)
    (hsorted : l.Pairwise (·.index < ·.index)) (hhashed : ∀ e ∈ l, ht.hashValue e.index = i)
    (howned : ((chains.set i l).flatten.map Stored.addr).Perm ht'.heap.keys)
    (hcount : ht'.elements = UInt32.ofNat (chains.set i l).flatten.length) :
    ht'.Holds (chains.set i l) := by
  have hnodup' : ((chains.set i l).flatten.map Stored.addr).Nodup :=
    howned.nodup_iff.mpr (AList.keys_nodup _)
  have hi' : i < (chains.set i l).length := by rwa [List.length_set]
  constructor
  case size_pos => rw [hsize]; exact h.size_pos
  case length_bins => rw [hbins, hsize, List.length_set, h.length_bins]
  case length_chains => rw [hsize, List.length_set, h.length_chains]
  case owned => exact howned
  case count => exact hcount
  case sorted =>
    intro l' hl'
    rcases List.mem_or_eq_of_mem_set hl' with hmem | rfl
    · exact h.sorted l' hmem
    · exact hsorted
  case hashed =>
    intro j hj e he
    have hhash : ht'.hashValue e.index = ht.hashValue e.index := by
      unfold HTable.hashValue
      rw [hsize]
    rw [hhash]
    by_cases hji : j = i
    · subst hji
      rw [List.getElem_set_self] at he
      exact hhashed e he
    · rw [List.getElem_set_ne (Ne.symm hji)] at he
      exact h.hashed j (by simpa using hj) e he
  case linked =>
    intro j hj hjb
    simp only [hbins]
    by_cases hji : j = i
    · subst hji
      rw [List.getElem_set_self, List.getElem_set_self]
      exact hlinked
    · have hj' : j < chains.length := by simpa using hj
      have hget : (chains.set i l)[j] = chains[j] := List.getElem_set_ne (Ne.symm hji) _
      have hself : (chains.set i l)[i] = l := List.getElem_set_self _
      rw [List.getElem_set_ne (Ne.symm hji), hget]
      -- a chain that is not replaced has no address in common with the old one or the new one
      obtain ⟨t, hseg⟩ := h.linked j hj' (by rw [h.length_bins, ← h.length_chains]; exact hj')
      refine ⟨t, hseg.frame ?_⟩
      rintro x hx
      obtain ⟨e, he, rfl⟩ := List.mem_map.mp hx
      apply hframe
      · exact addr_not_mem_of_ne h.nodup hi hj' hji he
      · rw [← hself]
        exact addr_not_mem_of_ne hnodup' hi' hj hji (hget ▸ he)

end Replace

end NetworkExperiment
