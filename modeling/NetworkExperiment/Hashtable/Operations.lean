import NetworkExperiment.Hashtable.Chains

namespace NetworkExperiment

open LinkedChains

/-!
# The operations of the hash table on its chains

What each operation does to the chains that a table holds, whatever case of pointer surgery it
takes:

* `insertSorted` / `insertChains` / `deleteChains` — insertion and deletion on the chains;
* `findValueInHashTable_eq` — a search returns what is stored;
* `insertValueInHashTable_holds` — an insertion of an absent index succeeds and puts the entry
  in its place in its chain;
* `deleteValueFromHashTable_holds` — a deletion returns what is stored and takes it out.
-/

variable {β : Type}

/-! ### The operations on chains -/

/-- The chain with the entry in front of the first one that is not smaller. -/
def insertSorted (e : Stored β) (l : List (Stored β)) : List (Stored β) :=
  l.takeWhile (·.index < e.index) ++ e :: l.dropWhile (·.index < e.index)

/-- The chains with a new entry in its chain. -/
def insertChains (e : Stored β) (chains : List (List (Stored β))) : List (List (Stored β)) :=
  chains.modify (e.index.toNat % chains.length) (insertSorted e)

/-- The chains without the entry that carries the index. -/
def deleteChains (idx : HtIndexValue) (chains : List (List (Stored β))) :
    List (List (Stored β)) :=
  chains.modify (idx.toNat % chains.length) (List.eraseP (·.index = idx))

theorem modify_eq_set_getElem {α : Type} (f : α → α) {l : List α} {i : ℕ} (h : i < l.length) :
    l.modify i f = l.set i (f l[i]) := by
  rw [List.modify_eq_take_cons_drop h, List.set_eq_take_append_cons_drop, if_pos h]

/-- An inserted entry is an additional one: the others are the same, in the same order. -/
theorem insertSorted_perm (e : Stored β) (l : List (Stored β)) :
    (insertSorted e l).Perm (e :: l) := by
  have hperm : (insertSorted e l).Perm
      (e :: (l.takeWhile (·.index < e.index) ++ l.dropWhile (·.index < e.index))) :=
    List.perm_middle
  rwa [List.takeWhile_append_dropWhile] at hperm

theorem mem_insertSorted {e x : Stored β} {l : List (Stored β)} :
    x ∈ insertSorted e l ↔ x = e ∨ x ∈ l := by
  rw [(insertSorted_perm e l).mem_iff, List.mem_cons]

/-- Insertion of a new index keeps a chain strictly sorted. -/
theorem insertSorted_sorted {e : Stored β} {l : List (Stored β)}
    (h : l.Pairwise (·.index < ·.index)) (hne : ∀ x ∈ l, x.index ≠ e.index) :
    (insertSorted e l).Pairwise (·.index < ·.index) := by
  induction l with
  | nil => exact List.pairwise_singleton _ _
  | cons x l ih =>
    rw [List.pairwise_cons] at h
    have hne' : ∀ y ∈ l, y.index ≠ e.index := fun y hy => hne y (List.mem_cons_of_mem _ hy)
    by_cases hlt : x.index < e.index
    · have hcons : insertSorted e (x :: l) = x :: insertSorted e l := by
        unfold insertSorted
        rw [List.takeWhile_cons_of_pos (by simpa using hlt),
          List.dropWhile_cons_of_pos (by simpa using hlt), List.cons_append]
      rw [hcons, List.pairwise_cons]
      refine ⟨fun y hy => ?_, ih h.2 hne'⟩
      rcases mem_insertSorted.mp hy with rfl | hy
      · exact hlt
      · exact h.1 y hy
    · have hcons : insertSorted e (x :: l) = e :: x :: l := by
        unfold insertSorted
        rw [List.takeWhile_cons_of_neg (by simpa using hlt),
          List.dropWhile_cons_of_neg (by simpa using hlt), List.nil_append]
      -- the new index is smaller than the first one, and hence than all
      have hgt : e.index < x.index :=
        UInt64.lt_of_le_of_ne (UInt64.not_lt.mp hlt) (hne x List.mem_cons_self).symm
      rw [hcons, List.pairwise_cons, List.pairwise_cons]
      refine ⟨fun y hy => ?_, h⟩
      rcases List.mem_cons.mp hy with rfl | hy
      · exact hgt
      · exact UInt64.lt_trans hgt (h.1 y hy)

/-- The entries of one chain and those of the others. -/
theorem exists_flatten_rest {chains : List (List (Stored β))} {i : ℕ} (hi : i < chains.length) :
    ∃ rest, chains.flatten.Perm (chains[i] ++ rest) ∧
      ∀ l, (chains.set i l).flatten.Perm (l ++ rest) := by
  obtain ⟨pre, post, heq, hset⟩ := exists_chain_split hi
  have hperm : ∀ l : List (Stored β),
      (pre ++ l :: post).flatten.Perm (l ++ (pre.flatten ++ post.flatten)) := by
    intro l
    rw [List.flatten_append, List.flatten_cons, ← List.append_assoc, ← List.append_assoc]
    exact List.Perm.append_right _ List.perm_append_comm
  refine ⟨pre.flatten ++ post.flatten, ?_, fun l => ?_⟩
  · have h := hperm chains[i]
    rwa [← heq] at h
  · rw [hset]
    exact hperm l

/-! ### Searching -/

section Find

variable {ht : HTable β} {chains : List (List (Stored β))} {idx : HtIndexValue} {i : ℕ}

/-- The chain of an index is one of the chains, as the hash value is a remainder. -/
theorem HTable.Holds.hashValue_lt (h : ht.Holds chains) (idx : HtIndexValue) :
    ht.hashValue idx < chains.length := by
  rw [h.length_chains]
  exact Nat.mod_lt _ h.size_pos

/-- The bin of an index, with its chain. -/
theorem HTable.Holds.bin_linked (h : ht.Holds chains) (idx : HtIndexValue) :
    ∃ (hi : ht.hashValue idx < chains.length) (hib : ht.hashValue idx < ht.hasHTable.length),
      Chain (htLinks β) ht.mem ht.hasHTable[ht.hashValue idx]
        (chains[ht.hashValue idx].map Stored.cell) := by
  have hi := h.hashValue_lt idx
  have hib : ht.hashValue idx < ht.hasHTable.length := by
    rw [h.length_bins, ← h.length_chains]
    exact hi
  exact ⟨hi, hib, h.linked _ hi hib⟩

/-- Reading the first pointer of a chain. -/
theorem bin_eq (hi : i < ht.hasHTable.length) : ht.bin i = .ok ht.hasHTable[i] := by
  unfold HTable.bin
  rw [List.getElem?_eq_getElem hi]

/-- An entry with the index is in the chain of the index: each entry lies in the chain of its hash
    value. -/
theorem HTable.Holds.mem_chain (h : ht.Holds chains) {e : Stored β} (he : e ∈ chains.flatten)
    (hidx : e.index = idx) (hi : ht.hashValue idx < chains.length) :
    e ∈ chains[ht.hashValue idx] := by
  obtain ⟨l, hl, hel⟩ := List.mem_flatten.mp he
  obtain ⟨j, hj, rfl⟩ := List.getElem_of_mem hl
  have hhash := h.hashed j hj e hel
  subst hidx
  simp only [hhash]
  exact hel

/-- No two entries carry the same index: they would be in one chain, which is strictly sorted. -/
theorem HTable.Holds.index_inj (h : ht.Holds chains) {e e' : Stored β} (he : e ∈ chains.flatten)
    (he' : e' ∈ chains.flatten) (hidx : e.index = e'.index) : e = e' := by
  have hi := h.hashValue_lt e'.index
  have hmem := h.mem_chain he hidx hi
  have hmem' := h.mem_chain he' rfl hi
  have hsorted := h.sorted _ (List.getElem_mem hi)
  have hnodup : (chains[ht.hashValue e'.index].map Stored.index).Nodup := by
    rw [List.Nodup, List.pairwise_map]
    exact hsorted.imp fun hlt => UInt64.ne_of_lt hlt
  exact List.inj_on_of_nodup_map hnodup hmem hmem' hidx

/-- In a list whose entries have distinct indices, a search finds the entry with the index. -/
theorem find?_index_eq_some {l : List (Stored β)}
    (hinj : ∀ e ∈ l, ∀ e' ∈ l, e.index = e'.index → e = e') {e : Stored β} :
    l.find? (·.index = idx) = some e ↔ e ∈ l ∧ e.index = idx := by
  constructor
  · intro hfind
    exact ⟨List.mem_of_find?_eq_some hfind, by simpa using List.find?_some hfind⟩
  · rintro ⟨he, rfl⟩
    have hsome : (l.find? (·.index = e.index)).isSome := by
      rw [List.find?_isSome]
      exact ⟨e, he, by simp⟩
    obtain ⟨e', hfind⟩ := Option.isSome_iff_exists.mp hsome
    have hidx : e'.index = e.index := by simpa using List.find?_some hfind
    rw [hfind, hinj e' (List.mem_of_find?_eq_some hfind) e he hidx]

/-- A search of all entries is a search of the chain of the index, where the entry is if there is
    one. -/
theorem HTable.Holds.find?_flatten (h : ht.Holds chains) (idx : HtIndexValue)
    (hi : ht.hashValue idx < chains.length) :
    chains.flatten.find? (·.index = idx) = chains[ht.hashValue idx].find? (·.index = idx) := by
  have hsub : ∀ e ∈ chains[ht.hashValue idx], e ∈ chains.flatten :=
    fun e he => List.mem_flatten.mpr ⟨_, List.getElem_mem _, he⟩
  apply Option.ext
  intro e
  rw [find?_index_eq_some fun e he e' he' => h.index_inj he he',
    find?_index_eq_some fun e he e' he' => h.index_inj (hsub e he) (hsub e' he')]
  constructor
  · rintro ⟨he, hidx⟩
    exact ⟨h.mem_chain he hidx hi, hidx⟩
  · rintro ⟨he, hidx⟩
    exact ⟨hsub e he, hidx⟩

/-- What is stored under an index. -/
theorem HTable.Holds.contents_eq_some (h : ht.Holds chains) {blk : β} :
    contents chains idx = some blk ↔ ∃ e ∈ chains.flatten, e.index = idx ∧ e.block = blk := by
  unfold contents
  rw [Option.map_eq_some_iff]
  constructor
  · rintro ⟨e, hfind, rfl⟩
    obtain ⟨he, hidx⟩ := (find?_index_eq_some fun e he e' he' => h.index_inj he he').mp hfind
    exact ⟨e, he, hidx, rfl⟩
  · rintro ⟨e, he, hidx, rfl⟩
    exact ⟨e, (find?_index_eq_some fun e he e' he' => h.index_inj he he').mpr ⟨he, hidx⟩, rfl⟩

theorem contents_eq_none :
    contents chains idx = none ↔ ∀ e ∈ chains.flatten, e.index ≠ idx := by
  unfold contents
  rw [Option.map_eq_none_iff, List.find?_eq_none]
  simp

/-- **Search.**  `findValueInHashTable` returns what is stored under the index, or `NULL`; it goes
    wrong in no table that holds its chains. -/
theorem findValueInHashTable_eq (h : ht.Holds chains) (idx : HtIndexValue) :
    findValueInHashTable ht idx = .ok (contents chains idx) := by
  obtain ⟨hi, hib, t, hseg⟩ := h.bin_linked idx
  unfold findValueInHashTable contents
  rw [bin_eq hib, ok_bind, h.find?_flatten idx hi]
  exact findLoop_eq hseg (h.sorted _ (List.getElem_mem hi)) (h.length_le_fuel hi)

end Find

/-! ### Assignments through a pointer -/

section Assign

variable {ht : HTable β} {p q : Ptr} {i : ℕ}

/-- The table after an assignment to a field of the entry that `p` points to, if `p` is not
    `NULL`. -/
def HTable.assign (ht : HTable β) (f : HtEntryData β → HtEntryData β) : Ptr → HTable β
  | none => ht
  | some a => ((ht.mem a).map fun c => ht.put a (f c)).getD ht

/-- It changes the one entry, and allocates nothing. -/
theorem assign_spec (ht : HTable β) (f : HtEntryData β → HtEntryData β) (a : Addr) :
    (ht.assign f (some a)).mem = Function.update ht.mem a ((ht.mem a).map f) ∧
      (ht.assign f (some a)).heap.keys.Perm ht.heap.keys := by
  cases hmem : ht.mem a with
  | none =>
    have hassign : ht.assign f (some a) = ht := by rw [HTable.assign, hmem]; rfl
    rw [hassign, Option.map_none, ← hmem, Function.update_eq_self]
    exact ⟨rfl, .refl _⟩
  | some c =>
    have hassign : ht.assign f (some a) = ht.put a (f c) := by rw [HTable.assign, hmem]; rfl
    rw [hassign, mem_put]
    exact ⟨rfl, keys_put_perm hmem _⟩

/-- It leaves the rest of the table alone. -/
theorem assign_table (ht : HTable β) (f : HtEntryData β → HtEntryData β) (p : Ptr) :
    (ht.assign f p).htTableSize = ht.htTableSize ∧ (ht.assign f p).elements = ht.elements ∧
      (ht.assign f p).hasHTable = ht.hasHTable := by
  cases p with
  | none => exact ⟨rfl, rfl, rfl⟩
  | some a =>
    simp only [HTable.assign]
    cases ht.mem a <;> exact ⟨rfl, rfl, rfl⟩

/-- A store of the code is the assignment, where the pointer names an entry of the heap. -/
theorem store_eq_assign {a : Addr} {c : HtEntryData β} (h : ht.mem a = some c)
    (f : HtEntryData β → HtEntryData β) : ht.store a f = .ok (ht.assign f (some a)) := by
  rw [store_eq h, HTable.assign, h]
  rfl

theorem storeIf_eq_assign (f : HtEntryData β → HtEntryData β)
    (h : ∀ a, p = some a → ∃ c, ht.mem a = some c) : ht.storeIf p f = .ok (ht.assign f p) := by
  cases p with
  | none => rfl
  | some a =>
    obtain ⟨c, hc⟩ := h a rfl
    exact store_eq_assign hc f

/-- `p->next = q`. -/
def HTable.putNext (ht : HTable β) (p q : Ptr) : HTable β :=
  ht.assign (fun c => { c with next := q }) p

/-- `p->prev = q`. -/
def HTable.putPrev (ht : HTable β) (p q : Ptr) : HTable β :=
  ht.assign (fun c => { c with prev := q }) p

@[simp] theorem mem_putNext : (ht.putNext p q).mem = linkNext (htLinks β) ht.mem p q := by
  cases p with
  | none => rfl
  | some a => exact (assign_spec ht _ a).1

@[simp] theorem mem_putPrev : (ht.putPrev p q).mem = linkPrev (htLinks β) ht.mem p q := by
  cases p with
  | none => rfl
  | some a => exact (assign_spec ht _ a).1

theorem keys_putNext : (ht.putNext p q).heap.keys.Perm ht.heap.keys := by
  cases p with
  | none => exact .refl _
  | some a => exact (assign_spec ht _ a).2

theorem keys_putPrev : (ht.putPrev p q).heap.keys.Perm ht.heap.keys := by
  cases p with
  | none => exact .refl _
  | some a => exact (assign_spec ht _ a).2

/-- Two assignments to one entry. -/
theorem put_put (a : Addr) (c c' : HtEntryData β) : (ht.put a c).put a c' = ht.put a c' := by
  unfold HTable.put
  rw [AList.insert_insert]

theorem setBin_self (hi : i < ht.hasHTable.length) (h : ht.hasHTable[i] = p) :
    ht.setBin i p = ht := by
  unfold HTable.setBin
  rw [← h, List.set_getElem_self]

end Assign

/-! ### Insertion -/

section Insert

variable {ht : HTable β} {chains : List (List (Stored β))} {e : Stored β} {i : ℕ}

/-- The table with the new entry `c` at `a` between the pointers `u` and `m`. -/
def HTable.linkIn (ht : HTable β) (i : ℕ) (p : Ptr) (a : Addr) (c : HtEntryData β) (u m : Ptr) :
    HTable β :=
  (((ht.put a c).setBin i p).putNext u (some a)).putPrev m (some a)

/-- The entry that `insertValueInHashTable` leaves between `u` and `m`. -/
def Stored.entry (e : Stored β) (u m : Ptr) : HtEntryData β :=
  ⟨htCookieValue, e.index, some e.block, u, m⟩

/-- A fresh entry is in no chain, since the heap holds the entries of the chains and no others. -/
theorem HTable.Holds.fresh_not_mem (h : ht.Holds chains) (hfresh : e.addr ∉ ht.heap)
    (hi : i < chains.length) : e.addr ∉ chains[i].map Stored.addr := by
  intro hmem
  obtain ⟨e', he', heq⟩ := List.mem_map.mp hmem
  refine hfresh (h.mem_heap.mpr (List.mem_map.mpr ⟨e', ?_, heq⟩))
  exact List.mem_flatten.mpr ⟨_, List.getElem_mem hi, he'⟩

/-- Allocating it changes no chain. -/
theorem segment_put_iff {l : List (Stored β)} {p b q t : Ptr} {c : HtEntryData β}
    (hfresh : e.addr ∉ l.map Stored.addr) :
    Segment (htLinks β) (ht.put e.addr c).mem p b (l.map Stored.cell) q t ↔
      Segment (htLinks β) ht.mem p b (l.map Stored.cell) q t := by
  have heq : ∀ x ∈ l.map Stored.cell, (ht.put e.addr c).mem x.1 = ht.mem x.1 := by
    intro x hx
    obtain ⟨e', he', rfl⟩ := List.mem_map.mp hx
    rw [mem_put, Function.update_of_ne]
    intro heq
    exact hfresh (List.mem_map.mpr ⟨e', he', heq⟩)
  constructor
  · intro h
    exact h.frame fun x hx => (heq x hx).symm
  · intro h
    exact h.frame heq

/-- Adding to the head of the list: the three assignments leave the entry between the head and
    nothing. -/
theorem linkAtHead_eq {cur : Addr} {c : HtEntryData β} (hcur : ht.mem cur = some c)
    (hne : cur ≠ e.addr) :
    (ht.put e.addr (e.entry none none)).linkAtHead i e.addr cur
      = .ok (ht.linkIn i (some e.addr) e.addr (e.entry none (some cur)) none (some cur)) := by
  have hentry : ((ht.put e.addr (e.entry none none)).setBin i (some e.addr)).mem e.addr
      = some (e.entry none none) := by
    rw [mem_setBin, mem_put, Function.update_self]
  have hnext : ((ht.put e.addr (e.entry none none)).setBin i (some e.addr)).put e.addr
        (e.entry none (some cur))
      = (ht.put e.addr (e.entry none (some cur))).setBin i (some e.addr) := by
    show ((ht.put e.addr (e.entry none none)).put e.addr _).setBin i (some e.addr) = _
    rw [put_put]
  have hcur' : ((ht.put e.addr (e.entry none (some cur))).setBin i (some e.addr)).mem cur
      = some c := by
    rw [mem_setBin, mem_put, Function.update_of_ne hne, hcur]
  unfold HTable.linkAtHead
  dsimp only
  rw [store_eq hentry, ok_bind]
  show HTable.store (((ht.put e.addr (e.entry none none)).setBin i (some e.addr)).put e.addr
    (e.entry none (some cur))) cur _ = _
  rw [hnext, store_eq_assign hcur']
  rfl

/-- Adding between two entries, or behind the last one: the assignments leave the entry between its
    neighbours. -/
theorem linkAfter_eq {last : Addr} {cur : Ptr} {c : HtEntryData β} (hlast : ht.mem last = some c)
    (hne : last ≠ e.addr)
    (hcur : ∀ n, cur = some n → n ≠ e.addr ∧ n ≠ last ∧
      ∃ c, ht.mem n = some c ∧ c.cookie = htCookieValue)
    (hi : i < ht.hasHTable.length) :
    (ht.put e.addr (e.entry none none)).linkAfter e.addr last cur
      = .ok (ht.linkIn i ht.hasHTable[i] e.addr (e.entry (some last) cur) (some last) cur) := by
  have hentry : ∀ u m, (ht.put e.addr (e.entry u m)).mem e.addr = some (e.entry u m) := by
    intro u m
    rw [mem_put, Function.update_self]
  have hlast' : (ht.put e.addr (e.entry (some last) cur)).mem last = some c := by
    rw [mem_put, Function.update_of_ne hne, hlast]
  -- the links of the new entry
  have hprev : (ht.put e.addr (e.entry none none)).store e.addr
      (fun x => { x with prev := some last }) = .ok (ht.put e.addr (e.entry (some last) none)) := by
    rw [store_eq (hentry _ _), put_put]
    rfl
  have hnext : (ht.put e.addr (e.entry (some last) none)).store e.addr
      (fun x => { x with next := cur }) = .ok (ht.put e.addr (e.entry (some last) cur)) := by
    rw [store_eq (hentry _ _), put_put]
    rfl
  have hbin : (ht.put e.addr (e.entry (some last) cur)).setBin i ht.hasHTable[i]
      = ht.put e.addr (e.entry (some last) cur) := setBin_self hi rfl
  -- the links of its neighbours
  unfold HTable.linkAfter HTable.linkIn
  rw [hprev, ok_bind, hnext, ok_bind, store_eq_assign hlast', ok_bind, hbin]
  cases cur with
  | none => rfl
  | some n =>
    -- the entry behind is not the one in front, whose link has been set already
    obtain ⟨hn, hnlast, c', hc', hcookie⟩ := hcur n rfl
    have hmem : ((ht.put e.addr (e.entry (some last) (some n))).putNext (some last)
        (some e.addr)).mem n = some c' := by
      rw [mem_putNext, linkNext_of_ne (fun heq => hnlast (Option.some.inj heq).symm), mem_put,
        Function.update_of_ne hn, hc']
    show (do
      let c ← HTable.deref ((ht.put e.addr (e.entry (some last) (some n))).putNext (some last)
        (some e.addr)) n
      validateHtEntry c
      HTable.store ((ht.put e.addr (e.entry (some last) (some n))).putNext (some last)
        (some e.addr)) n fun x => { x with prev := some e.addr }) = _
    rw [deref_eq hmem, ok_bind, validateHtEntry_eq hcookie, ok_bind, store_eq_assign hmem]
    rfl

/-- Behind the head of the list, the walk finds the place and the new entry is linked into it. -/
theorem walk_linkAfter_eq {x : Stored β} {l : List (Stored β)} {t : Ptr}
    (hseg : Segment (htLinks β) ht.mem (some x.addr) none ((x :: l).map Stored.cell) none t)
    (hfresh : e.addr ∉ ht.heap) (hchain : e.addr ∉ (x :: l).map Stored.addr)
    (hnodup : ((x :: l).map Stored.addr).Nodup) (hlen : (x :: l).length ≤ ht.fuel)
    (hlt : x.index < e.index) (hi : i < ht.hasHTable.length) :
    ∃ u m,
      Segment (htLinks β) ht.mem (some x.addr) none
        (((x :: l).takeWhile (·.index < e.index)).map Stored.cell) m (some u) ∧
      Segment (htLinks β) ht.mem m (some u)
        (((x :: l).dropWhile (·.index < e.index)).map Stored.cell) none t ∧
      ((ht.put e.addr (e.entry none none)).insertLoop e.index
          (ht.put e.addr (e.entry none none)).fuel x.addr >>= fun r =>
        (ht.put e.addr (e.entry none none)).linkAfter e.addr r.1 r.2) = .ok
          (ht.linkIn i ht.hasHTable[i] e.addr (e.entry (some u) m) (some u) m) := by
  obtain ⟨u, m, hloop, hfront, hback⟩ := insertLoop_eq
    ((segment_put_iff (c := e.entry none none) hchain).mpr hseg) hlt
    (le_trans hlen (fuel_le_put hfresh))
  rw [← List.takeWhile_append_dropWhile (p := (·.index < e.index)) (l := x :: l),
    List.map_append] at hchain hnodup
  rw [List.mem_append, not_or] at hchain
  obtain ⟨-, -, hdisj⟩ := List.nodup_append'.mp hnodup
  have hfront' := (segment_put_iff hchain.1).mp hfront
  have hback' := (segment_put_iff hchain.2).mp hback
  refine ⟨u, m, hfront', hback', ?_⟩
  rw [hloop, ok_bind]
  -- the neighbours are entries of the two parts of the chain
  have hne : ((x :: l).takeWhile (·.index < e.index)).map Stored.cell ≠ [] := by
    rw [List.takeWhile_cons_of_pos (by simpa using hlt)]
    simp
  obtain ⟨_, hmem, hu⟩ := hfront'.exists_last hne
  obtain ⟨y, hy, rfl⟩ := List.mem_map.mp hmem
  obtain rfl : u = y.addr := Option.some.inj hu
  have hy' : y.addr ∈ ((x :: l).takeWhile (·.index < e.index)).map Stored.addr :=
    List.mem_map.mpr ⟨y, hy, rfl⟩
  obtain ⟨c, hc, -⟩ := exists_cell_of_mem hfront' hy
  refine linkAfter_eq hc (fun heq => hchain.1 (heq ▸ hy')) ?_ hi
  rintro n rfl
  have hne' : ((x :: l).dropWhile (·.index < e.index)).map Stored.cell ≠ [] := by
    intro hnil
    rw [hnil] at hback'
    exact absurd hback'.1 (by simp)
  obtain ⟨_, hmem', hn⟩ := hback'.exists_first hne'
  obtain ⟨z, hz, rfl⟩ := List.mem_map.mp hmem'
  obtain rfl : n = z.addr := Option.some.inj hn
  have hz' : z.addr ∈ ((x :: l).dropWhile (·.index < e.index)).map Stored.addr :=
    List.mem_map.mpr ⟨z, hz, rfl⟩
  obtain ⟨c', hc', hcookie, -⟩ := exists_cell_of_mem hback' hz
  exact ⟨fun heq => hchain.2 (heq ▸ hz'), fun heq => hdisj hy' (heq ▸ hz'), c', hc', hcookie⟩

/-- Whatever case `insertValueInHashTable` takes, it links the new entry between the smaller
    entries of its chain and the others. -/
theorem link_eq (h : ht.Holds chains) (hfresh : e.addr ∉ ht.heap) (hi : i < chains.length)
    (hib : i < ht.hasHTable.length) (hhash : ht.hashValue e.index = i) :
    ∃ u m t,
      Segment (htLinks β) ht.mem ht.hasHTable[i] none
        ((chains[i].takeWhile (·.index < e.index)).map Stored.cell) m u ∧
      Segment (htLinks β) ht.mem m u
        ((chains[i].dropWhile (·.index < e.index)).map Stored.cell) none t ∧
      (ht.put e.addr (e.entry none none)).link e.addr e.index = .ok
        (ht.linkIn i (if chains[i].takeWhile (·.index < e.index) = [] then some e.addr
          else ht.hasHTable[i]) e.addr (e.entry u m) u m) := by
  obtain ⟨t, hseg⟩ := h.linked i hi hib
  have hchain := h.fresh_not_mem hfresh hi
  have hlen := h.length_le_fuel hi
  have hnodup := h.nodup_chain hi
  have hhash' : (ht.put e.addr (e.entry none none)).hashValue e.index = i := hhash
  have hbin : (ht.put e.addr (e.entry none none)).bin i = .ok ht.hasHTable[i] := bin_eq hib
  unfold HTable.link
  dsimp only
  rw [hhash', hbin, ok_bind]
  cases hl : chains[i] with
  | nil =>
    -- the first entry of its bin
    rw [hl] at hseg
    obtain ⟨hnull, rfl⟩ := hseg
    refine ⟨none, none, none, ⟨hnull, rfl⟩, ⟨rfl, rfl⟩, ?_⟩
    simp only [hnull, List.takeWhile_nil, if_true]
    rfl
  | cons x l =>
    rw [hl] at hseg hchain hlen hnodup
    obtain ⟨c, hhead, hc, hcookie, hindex, -, -, -⟩ := segment_cons_entry hseg
    have hne : x.addr ≠ e.addr := by
      intro heq
      exact hchain (List.mem_map.mpr ⟨x, List.mem_cons_self, heq⟩)
    have hc' : (ht.put e.addr (e.entry none none)).mem x.addr = some c := by
      rw [mem_put, Function.update_of_ne hne, hc]
    simp only [hhead]
    rw [deref_eq hc', ok_bind, validateHtEntry_eq hcookie, ok_bind, hindex]
    by_cases hge : x.index ≥ e.index
    · -- the new entry becomes the head of the list
      have hlt : ¬ x.index < e.index := UInt64.not_lt.mpr hge
      rw [if_pos hge, List.takeWhile_cons_of_neg (by simpa using hlt),
        List.dropWhile_cons_of_neg (by simpa using hlt)]
      rw [hhead] at hseg
      exact ⟨none, some x.addr, t, ⟨rfl, rfl⟩, hseg, linkAtHead_eq hc hne⟩
    · -- it comes behind smaller entries
      have hlt : x.index < e.index := UInt64.not_le.mp hge
      rw [hhead] at hseg
      obtain ⟨u, m, hfront, hback, hlink⟩ :=
        walk_linkAfter_eq hseg hfresh hchain hnodup hlen hlt hib
      rw [if_neg hge, hlink, List.takeWhile_cons_of_pos (by simpa using hlt), hhead]
      rw [List.takeWhile_cons_of_pos (by simpa using hlt)] at hfront
      exact ⟨some u, m, t, hfront, hback, rfl⟩

/-- Linking an entry in allocates one entry; the assignments to the neighbours allocate none. -/
theorem keys_linkIn {p u m : Ptr} {c : HtEntryData β} (hfresh : e.addr ∉ ht.heap) :
    (ht.linkIn i p e.addr c u m).heap.keys.Perm (e.addr :: ht.heap.keys) := by
  unfold HTable.linkIn
  refine keys_putPrev.trans (keys_putNext.trans ?_)
  rw [heap_setBin, keys_put_fresh hfresh]

/-- The rest of the table besides the chain. -/
theorem linkIn_table {p u m : Ptr} {c : HtEntryData β} :
    (ht.linkIn i p e.addr c u m).htTableSize = ht.htTableSize ∧
      (ht.linkIn i p e.addr c u m).elements = ht.elements ∧
      (ht.linkIn i p e.addr c u m).hasHTable = ht.hasHTable.set i p := by
  unfold HTable.linkIn HTable.putPrev HTable.putNext
  obtain ⟨hsize, helements, hbins⟩ := assign_table
    (((ht.put e.addr c).setBin i p).assign (fun c => { c with next := some e.addr }) u)
    (fun c => { c with prev := some e.addr }) m
  obtain ⟨hsize', helements', hbins'⟩ := assign_table ((ht.put e.addr c).setBin i p)
    (fun c => { c with next := some e.addr }) u
  rw [hsize, helements, hbins, hsize', helements', hbins']
  exact ⟨rfl, rfl, rfl⟩

/-- With the entry linked in and counted, the table holds the chains with the entry in its place. -/
theorem HTable.Holds.linkIn (h : ht.Holds chains) (hfresh : e.addr ∉ ht.heap)
    (hi : i < chains.length) (habsent : ∀ x ∈ chains[i], x.index ≠ e.index)
    (hhash : ht.hashValue e.index = i) {head u m t : Ptr}
    (hfront : Segment (htLinks β) ht.mem head none
      ((chains[i].takeWhile (·.index < e.index)).map Stored.cell) m u)
    (hback : Segment (htLinks β) ht.mem m u
      ((chains[i].dropWhile (·.index < e.index)).map Stored.cell) none t) {ht' : HTable β}
    (hht' : ht' = ht.linkIn i (if chains[i].takeWhile (·.index < e.index) = [] then some e.addr
      else head) e.addr (e.entry u m) u m) :
    { ht' with elements := ht'.elements + 1 }.Holds (chains.set i (insertSorted e chains[i])) := by
  obtain ⟨hsize, helements, hbins⟩ := @linkIn_table β ht e i
    (if chains[i].takeWhile (·.index < e.index) = [] then some e.addr else head) u m (e.entry u m)
  rw [← hht'] at hsize helements hbins
  obtain ⟨rest, hrest, hset⟩ := exists_flatten_rest hi
  have hchain := h.fresh_not_mem hfresh hi
  have hnodup := h.nodup_chain hi
  rw [← List.takeWhile_append_dropWhile (p := (·.index < e.index)) (l := chains[i])]
    at hchain hnodup
  rw [List.map_append, List.mem_append, not_or] at hchain
  -- one entry more than before, wherever it goes
  have hperm : (chains.set i (insertSorted e chains[i])).flatten.Perm (e :: chains.flatten) :=
    (hset _).trans (((insertSorted_perm e _).append_right rest).trans (hrest.symm.cons e))
  -- what the memory holds: the new entry, and the links of its neighbours
  have hmem : ht'.mem = linkPrev (htLinks β)
      (linkNext (htLinks β) (ht.put e.addr (e.entry u m)).mem u (some e.addr)) m
      (some e.addr) := by
    rw [hht', HTable.linkIn, mem_putPrev, mem_putNext, mem_setBin]
  refine h.replace hi hsize hbins ?_ ?_ (insertSorted_sorted (h.sorted _ (List.getElem_mem hi))
    habsent) ?_ ?_ ?_
  · -- the chain
    show Chain _ ht'.mem _ _
    have hinsert := Segment.insert ((segment_put_iff (c := e.entry u m) hchain.1).mpr hfront)
      ((segment_put_iff hchain.2).mpr hback)
      (by rw [← List.map_append, List.map_map]; exact hnodup)
      (by
        rw [← List.map_append, List.map_map]
        intro hmem
        rw [List.map_append, List.mem_append] at hmem
        exact hmem.elim hchain.1 hchain.2)
      (by rw [mem_put, Function.update_self]) rfl rfl
    rw [hmem]
    simp only [List.map_eq_nil_iff] at hinsert
    unfold insertSorted
    rw [List.map_append, List.map_cons]
    exact hinsert
  · -- other entries
    intro a hold hnew
    have hae : a ≠ e.addr := by
      rintro rfl
      exact hnew (List.mem_map.mpr ⟨e, mem_insertSorted.mpr (.inl rfl), rfl⟩)
    rw [← List.takeWhile_append_dropWhile (p := (·.index < e.index)) (l := chains[i]),
      List.map_append, List.mem_append, not_or] at hold
    show ht'.mem a = _
    rw [hmem, linkPrev_of_ne (hback.first_ne (by rw [List.map_map]; exact hold.2)),
      linkNext_of_ne (hfront.last_ne (by rw [List.map_map]; exact hold.1)), mem_put,
      Function.update_of_ne hae]
  · -- the hash value
    intro x hx
    rcases mem_insertSorted.mp hx with rfl | hx
    · exact hhash
    · exact h.hashed i hi x hx
  · -- the heap
    show (List.map Stored.addr _).Perm ht'.heap.keys
    rw [hht']
    calc ((chains.set i (insertSorted e chains[i])).flatten.map Stored.addr).Perm
          ((e :: chains.flatten).map Stored.addr) := hperm.map _
      _ = e.addr :: chains.flatten.map Stored.addr := List.map_cons
      List.Perm _ (e.addr :: ht.heap.keys) := h.owned.cons _
      List.Perm _ _ := (keys_linkIn hfresh).symm
  · -- the counter
    show ht'.elements + 1 = _
    rw [helements, h.count, hperm.length_eq, List.length_cons, UInt32.ofNat_add]
    rfl

/-- **Insertion.**  An insertion of an absent index succeeds, and puts the entry in its place in
    its chain. -/
theorem insertValueInHashTable_holds (h : ht.Holds chains) (hfresh : e.addr ∉ ht.heap)
    (habsent : contents chains e.index = none) :
    ∃ ht', insertValueInHashTable ht e.addr e.index (some e.block) = .ok (0, ht') ∧
      ht'.Holds (insertChains e chains) := by
  obtain ⟨hi, hib, -⟩ := h.bin_linked e.index
  have habsent' : ∀ x ∈ chains[ht.hashValue e.index], x.index ≠ e.index := fun x hx =>
    contents_eq_none.mp habsent x (List.mem_flatten.mpr ⟨_, List.getElem_mem hi, hx⟩)
  obtain ⟨u, m, t, hfront, hback, hlink⟩ := link_eq h hfresh hi hib rfl
  have hholds := h.linkIn hfresh hi habsent' rfl hfront hback rfl
  have hchains : insertChains e chains
      = chains.set (ht.hashValue e.index) (insertSorted e chains[ht.hashValue e.index]) := by
    unfold insertChains
    rw [h.length_chains]
    exact modify_eq_set_getElem _ hi
  rw [hchains]
  refine ⟨_, ?_, hholds⟩
  unfold insertValueInHashTable
  rw [findValueInHashTable_eq h, habsent]
  simp only [ok_bind, Option.isSome_none, Bool.false_eq_true, if_false]
  rw [validateHtEntry_eq rfl, ok_bind]
  have hentry : (⟨htCookieValue, e.index, some e.block, none, none⟩ : HtEntryData β)
      = e.entry none none := rfl
  rw [hentry, hlink, ok_bind]
  rfl

/-- An insertion of an index that is present fails its assertion. -/
theorem insertValueInHashTable_duplicate (h : ht.Holds chains) {idx : HtIndexValue} {stored : β}
    (hpresent : contents chains idx = some stored) (entry : Addr) (blk : Option β) :
    insertValueInHashTable ht entry idx blk = .error .duplicateIndex := by
  unfold insertValueInHashTable
  rw [findValueInHashTable_eq h, hpresent]
  rfl

end Insert

/-! ### Deletion -/

section Delete

variable {ht : HTable β} {chains : List (List (Stored β))} {e : Stored β} {i : ℕ}
  {l₁ l₂ : List (Stored β)} {c : HtEntryData β} {u t : Ptr}

/-- The neighbours of an entry are other entries of its chain, so none of them is the entry
    itself. -/
theorem Segment.neighbours {head : Ptr}
    (hfront : Segment (htLinks β) ht.mem head none (l₁.map Stored.cell) (some e.addr) u)
    (hback : Segment (htLinks β) ht.mem c.next (some e.addr) (l₂.map Stored.cell) none t)
    (hnodup : ((l₁ ++ e :: l₂).map Stored.addr).Nodup) :
    u ≠ some e.addr ∧ c.next ≠ some e.addr ∧ (some e.addr = head ↔ l₁ = []) := by
  rw [List.map_append, List.map_cons, List.nodup_append'] at hnodup
  obtain ⟨-, hnodup₂, hdisj⟩ := hnodup
  rw [List.nodup_cons] at hnodup₂
  have he₁ : e.addr ∉ l₁.map Stored.addr := fun hmem => hdisj hmem List.mem_cons_self
  refine ⟨hfront.last_ne ?_, hback.first_ne ?_, ?_, ?_⟩
  · rw [List.map_map]
    exact he₁
  · rw [List.map_map]
    exact hnodup₂.1
  · rintro hhead
    by_contra hne
    obtain ⟨_, hmem, hx⟩ := hfront.exists_first (by simpa using hne)
    obtain ⟨x, hx₁, rfl⟩ := List.mem_map.mp hmem
    rw [← hhead] at hx
    exact he₁ (List.mem_map.mpr ⟨x, hx₁, (Option.some.inj hx).symm⟩)
  · rintro rfl
    exact hfront.1.symm

/-- A pointer to a neighbour names an entry of the memory. -/
theorem Segment.exists_cell_last {head q : Ptr}
    (hfront : Segment (htLinks β) ht.mem head none (l₁.map Stored.cell) q u) {a : Addr}
    (hu : u = some a) : ∃ c, ht.mem a = some c := by
  have hne : l₁.map Stored.cell ≠ [] := by
    intro hnil
    rw [hnil] at hfront
    exact absurd (hfront.2.trans hu) (by simp)
  obtain ⟨_, hmem, hx⟩ := hfront.exists_last hne
  obtain ⟨x, hx₁, rfl⟩ := List.mem_map.mp hmem
  obtain ⟨c, hc, -⟩ := exists_cell_of_mem hfront hx₁
  obtain rfl : a = x.addr := Option.some.inj (hu.symm.trans hx)
  exact ⟨c, hc⟩

theorem Segment.exists_cell_first {p b : Ptr}
    (hback : Segment (htLinks β) ht.mem p b (l₂.map Stored.cell) none t) {a : Addr}
    (hp : p = some a) : ∃ c, ht.mem a = some c := by
  have hne : l₂.map Stored.cell ≠ [] := by
    intro hnil
    rw [hnil] at hback
    exact absurd (hp.symm.trans hback.1) (by simp)
  obtain ⟨_, hmem, hx⟩ := hback.exists_first hne
  obtain ⟨x, hx₂, rfl⟩ := List.mem_map.mp hmem
  obtain ⟨c, hc, -⟩ := exists_cell_of_mem hback hx₂
  obtain rfl : a = x.addr := Option.some.inj (hp.symm.trans hx)
  exact ⟨c, hc⟩

/-- Whatever combination of cases `deleteValueFromHashTable` takes, it links the neighbours of the
    entry to each other. -/
theorem unlink_eq {head : Ptr}
    (hfront : Segment (htLinks β) ht.mem head none (l₁.map Stored.cell) (some e.addr) u)
    (hc : ht.mem e.addr = some c) (hprev : c.prev = u)
    (hback : Segment (htLinks β) ht.mem c.next (some e.addr) (l₂.map Stored.cell) none t)
    (hnodup : ((l₁ ++ e :: l₂).map Stored.addr).Nodup) (hib : i < ht.hasHTable.length)
    (hhead : ht.hasHTable[i] = head) :
    ht.unlink i head e.addr = .ok
      (((ht.setBin i (if l₁ = [] then c.next else head)).putNext u c.next).putPrev c.next u) := by
  obtain ⟨hu, hnext, hfirst⟩ := Segment.neighbours hfront hback hnodup
  have hbin : (if some e.addr = head then ht.setBin i c.next else ht)
      = ht.setBin i (if l₁ = [] then c.next else head) := by
    by_cases hl₁ : l₁ = []
    · rw [if_pos (hfirst.mpr hl₁), if_pos hl₁]
    · rw [if_neg (fun h => hl₁ (hfirst.mp h)), if_neg hl₁, setBin_self hib hhead]
  unfold HTable.unlink
  rw [deref_eq hc, ok_bind]
  dsimp only
  rw [hbin, hprev]
  -- the assignment to the previous entry
  have hlast : ∀ a, u = some a →
      ∃ c', (ht.setBin i (if l₁ = [] then c.next else head)).mem a = some c' :=
    fun a hua => Segment.exists_cell_last hfront hua
  have hc₁ : ((ht.setBin i (if l₁ = [] then c.next else head)).putNext u c.next).mem e.addr
      = some c := by
    rw [mem_putNext, linkNext_of_ne hu, mem_setBin, hc]
  rw [storeIf_eq_assign _ hlast, ok_bind]
  show (HTable.deref ((ht.setBin i (if l₁ = [] then c.next else head)).putNext u c.next) e.addr
    >>= _) = _
  rw [deref_eq hc₁, ok_bind, hprev]
  -- the assignment to the next one
  have hfirst' : ∀ a, c.next = some a →
      ∃ c', ((ht.setBin i (if l₁ = [] then c.next else head)).putNext u c.next).mem a
        = some c' := by
    intro a hca
    obtain ⟨c', hc'⟩ := Segment.exists_cell_first hback hca
    rw [mem_putNext, mem_setBin]
    by_cases hua : u = some a
    · subst hua
      exact ⟨_, by rw [linkNext, Function.update_self, hc', Option.map_some]⟩
    · exact ⟨c', by rw [linkNext_of_ne hua, hc']⟩
  exact storeIf_eq_assign _ hfirst'

/-- The table with the neighbours `u` and `m` of the entry at `a` linked to each other. -/
def HTable.linkOut (ht : HTable β) (i : ℕ) (p u m : Ptr) : HTable β :=
  ((ht.setBin i p).putNext u m).putPrev m u

/-- The table besides the chain. -/
theorem linkOut_table {p u m : Ptr} :
    (ht.linkOut i p u m).htTableSize = ht.htTableSize ∧
      (ht.linkOut i p u m).elements = ht.elements ∧
      (ht.linkOut i p u m).hasHTable = ht.hasHTable.set i p ∧
      (ht.linkOut i p u m).heap.keys.Perm ht.heap.keys := by
  unfold HTable.linkOut HTable.putPrev HTable.putNext
  obtain ⟨hsize, helements, hbins⟩ := assign_table
    ((ht.setBin i p).assign (fun c => { c with next := m }) u) (fun c => { c with prev := u }) m
  obtain ⟨hsize', helements', hbins'⟩ := assign_table (ht.setBin i p)
    (fun c => { c with next := m }) u
  rw [hsize, helements, hbins, hsize', helements', hbins']
  exact ⟨rfl, rfl, rfl, keys_putPrev.trans keys_putNext⟩

/-- With the entry linked out, freed and counted, the table holds the chains without it. -/
theorem HTable.Holds.linkOut (h : ht.Holds chains) (hi : i < chains.length)
    (hl : chains[i] = l₁ ++ e :: l₂) {head : Ptr}
    (hfront : Segment (htLinks β) ht.mem head none (l₁.map Stored.cell) (some e.addr) u)
    (hback : Segment (htLinks β) ht.mem c.next (some e.addr) (l₂.map Stored.cell) none t)
    {ht' : HTable β} (hht' : ht' = ht.linkOut i (if l₁ = [] then c.next else head) u c.next) :
    { ht' with heap := ht'.heap.erase e.addr, elements := ht'.elements - 1 }.Holds
      (chains.set i (l₁ ++ l₂)) := by
  obtain ⟨hsize, helements, hbins, hkeys⟩ := @linkOut_table β ht i
    (if l₁ = [] then c.next else head) u c.next
  rw [← hht'] at hsize helements hbins hkeys
  obtain ⟨rest, hrest, hset⟩ := exists_flatten_rest hi
  have hsorted := h.sorted _ (List.getElem_mem hi)
  have hhashed := h.hashed i hi
  have hnodup := h.nodup_chain hi
  rw [hl] at hrest hsorted hhashed hnodup
  -- one entry less than before
  have hsub : (l₁ ++ l₂).Sublist (l₁ ++ e :: l₂) := (List.sublist_cons_self e l₂).append_left l₁
  have hperm : chains.flatten.Perm (e :: (chains.set i (l₁ ++ l₂)).flatten) :=
    hrest.trans ((List.perm_middle.append_right rest).trans ((hset _).symm.cons e))
  have howned : (e.addr :: (chains.set i (l₁ ++ l₂)).flatten.map Stored.addr).Perm
      ht.heap.keys := (hperm.map Stored.addr).symm.trans h.owned
  -- its address is the address of no other entry of the chain
  rw [(List.perm_middle.map Stored.addr).nodup_iff, List.map_cons, List.nodup_cons] at hnodup
  obtain ⟨he, hnodup'⟩ := hnodup
  have hmem : ht'.mem = linkPrev (htLinks β) (linkNext (htLinks β) ht.mem u c.next) c.next u := by
    rw [hht', HTable.linkOut, mem_putPrev, mem_putNext, mem_setBin]
  have herase : ∀ a, a ≠ e.addr → (ht'.heap.erase e.addr).lookup a = ht'.mem a :=
    fun a ha => AList.lookup_erase_ne ha
  refine h.replace hi hsize hbins ?_ ?_ (hsorted.sublist hsub)
    (fun x hx => hhashed x (hsub.subset hx)) ?_ ?_
  · -- the chain
    have hremove :=
      Segment.remove hfront hback (by rw [← List.map_append, List.map_map]; exact hnodup')
    rw [← List.map_append] at hremove
    simp only [List.map_eq_nil_iff] at hremove
    obtain ⟨t', hremove⟩ := hremove
    refine ⟨t', hremove.frame ?_⟩
    intro x hx
    obtain ⟨y, hy, rfl⟩ := List.mem_map.mp hx
    have hye : y.addr ≠ e.addr := fun heq => he (List.mem_map.mpr ⟨y, hy, heq⟩)
    exact (herase _ hye).trans (congrFun hmem _)
  · -- other entries
    intro a hold _
    rw [hl, List.map_append, List.map_cons, List.mem_append, List.mem_cons, not_or, not_or] at hold
    obtain ⟨ha₁, hae, ha₂⟩ := hold
    refine (herase a hae).trans ?_
    rw [hmem, linkPrev_of_ne (hback.first_ne (by rw [List.map_map]; exact ha₂)),
      linkNext_of_ne (hfront.last_ne (by rw [List.map_map]; exact ha₁))]
  · -- the heap
    show (List.map Stored.addr _).Perm (ht'.heap.erase e.addr).keys
    rw [AList.keys_erase]
    have hcons := (howned.trans hkeys.symm).erase e.addr
    rwa [List.erase_cons_head] at hcons
  · -- the counter
    show ht'.elements - 1 = _
    rw [helements, h.count, hperm.length_eq, List.length_cons, UInt32.ofNat_add]
    exact UInt32.add_sub_cancel _ _

/-- The chain that loses the entry. -/
theorem HTable.Holds.deleteChains_eq (h : ht.Holds chains) {idx : HtIndexValue}
    (hi : ht.hashValue idx < chains.length) :
    deleteChains idx chains = chains.set (ht.hashValue idx)
      (chains[ht.hashValue idx].eraseP (·.index = idx)) := by
  unfold deleteChains
  rw [h.length_chains]
  exact modify_eq_set_getElem _ hi

/-- The entry that a search finds is the one that is taken out, and the others stay in their
    order. -/
theorem exists_eraseP_eq {l : List (Stored β)} {idx : HtIndexValue}
    (hfind : l.find? (·.index = idx) = some e) :
    e.index = idx ∧ ∃ l₁ l₂, l = l₁ ++ e :: l₂ ∧ l.eraseP (·.index = idx) = l₁ ++ l₂ := by
  obtain ⟨hidx, l₁, l₂, hl, hl₁⟩ := List.find?_eq_some_iff_append.mp hfind
  refine ⟨of_decide_eq_true hidx, l₁, l₂, hl, ?_⟩
  rw [hl, List.eraseP_append_right _ (by simpa using hl₁)]
  exact congrArg (l₁ ++ ·) (List.eraseP_cons_of_pos hidx)

/-- **Deletion.**  It returns what is stored under the index and takes the entry out. -/
theorem deleteValueFromHashTable_holds (h : ht.Holds chains) (idx : HtIndexValue) :
    ∃ ht', deleteValueFromHashTable ht idx = .ok (contents chains idx, ht') ∧
      ht'.Holds (deleteChains idx chains) ∧
      ∀ a, a ∈ ht'.heap → a ∈ ht.heap := by
  obtain ⟨hi, hib, t, hseg⟩ := h.bin_linked idx
  unfold deleteValueFromHashTable contents
  dsimp only
  rw [bin_eq hib, ok_bind, deleteLoop_eq hseg (h.length_le_fuel hi), ok_bind,
    h.find?_flatten idx hi, h.deleteChains_eq hi]
  cases hfind : chains[ht.hashValue idx].find? (·.index = idx) with
  | none =>
    refine ⟨ht, rfl, ?_, fun a ha => ha⟩
    rw [List.eraseP_of_forall_not (by simpa using List.find?_eq_none.mp hfind),
      List.set_getElem_self]
    exact h
  | some e =>
    -- the chain falls into the entries in front of the one that is found and those behind it
    obtain ⟨-, l₁, l₂, hl, herase⟩ := exists_eraseP_eq hfind
    have hnodup := h.nodup_chain hi
    rw [hl] at hnodup
    rw [hl, List.map_append] at hseg
    -- and so does the segment of the cells
    obtain ⟨m, u, hfront, hrest⟩ := segment_append.mp hseg
    obtain ⟨c, rfl, hc, -, -, hblock, hprev, hback⟩ := segment_cons_entry hrest
    have hout := unlink_eq hfront hc hprev hback hnodup hib rfl
    have hholds := h.linkOut hi hl hfront hback rfl
    obtain ⟨hu, hnext, -⟩ := Segment.neighbours hfront hback hnodup
    have hc' : (ht.linkOut (ht.hashValue idx)
        (if l₁ = [] then c.next else ht.hasHTable[ht.hashValue idx]) u c.next).mem e.addr
        = some c := by
      rw [HTable.linkOut, mem_putPrev, linkPrev_of_ne hnext, mem_putNext, linkNext_of_ne hu,
        mem_setBin, hc]
    rw [herase]
    refine ⟨_, ?_, hholds, ?_⟩
    · show (ht.unlink _ _ e.addr >>= _) = _
      rw [hout, ok_bind]
      show (HTable.deref (ht.linkOut _ _ u c.next) e.addr >>= _) = _
      rw [deref_eq hc', ok_bind, hblock]
      rfl
    · intro a ha
      have hkeys := (@linkOut_table β ht (ht.hashValue idx)
        (if l₁ = [] then c.next else ht.hasHTable[ht.hashValue idx]) u c.next).2.2.2
      have ha' := (AList.mem_erase.mp ha).2
      rw [AList.mem_keys] at ha' ⊢
      exact hkeys.mem_iff.mp ha'

/-- A deletion that finds nothing leaves the table as it is. -/
theorem deleteValueFromHashTable_absent (h : ht.Holds chains) {idx : HtIndexValue}
    (habsent : contents chains idx = none) : deleteValueFromHashTable ht idx = .ok (none, ht) := by
  obtain ⟨hi, hib, t, hseg⟩ := h.bin_linked idx
  unfold contents at habsent
  rw [h.find?_flatten idx hi, Option.map_eq_none_iff] at habsent
  unfold deleteValueFromHashTable
  dsimp only
  rw [bin_eq hib, ok_bind, deleteLoop_eq hseg (h.length_le_fuel hi), ok_bind, habsent]
  rfl

end Delete

/-! ### What the operations do to the contents -/

section Contents

variable {ht ht' : HTable β} {chains : List (List (Stored β))} {e : Stored β} {idx : HtIndexValue}

/-- The chains of a table are as many as its hash values. -/
theorem HTable.Holds.mod_lt (h : ht.Holds chains) (idx : HtIndexValue) :
    idx.toNat % chains.length < chains.length :=
  Nat.mod_lt _ (by rw [h.length_chains]; exact h.size_pos)

/-- An insertion adds the one entry. -/
theorem insertChains_perm (h : ht.Holds chains) (e : Stored β) :
    (insertChains e chains).flatten.Perm (e :: chains.flatten) := by
  have hi := h.mod_lt e.index
  obtain ⟨rest, hrest, hset⟩ := exists_flatten_rest hi
  unfold insertChains
  rw [modify_eq_set_getElem _ hi]
  exact (hset _).trans (((insertSorted_perm e _).append_right rest).trans (hrest.symm.cons e))

/-- A deletion takes out the entry with the index, if there is one; otherwise nothing is stored
    under the index. -/
theorem deleteChains_cases (h : ht.Holds chains) (idx : HtIndexValue) :
    (contents chains idx = none ∧ deleteChains idx chains = chains) ∨
      ∃ e ∈ chains.flatten, e.index = idx ∧
        chains.flatten.Perm (e :: (deleteChains idx chains).flatten) := by
  have hi := h.hashValue_lt idx
  rw [h.deleteChains_eq hi]
  unfold contents
  rw [h.find?_flatten idx hi]
  cases hfind : chains[ht.hashValue idx].find? (·.index = idx) with
  | none =>
    left
    rw [List.eraseP_of_forall_not (by simpa using List.find?_eq_none.mp hfind),
      List.set_getElem_self]
    exact ⟨rfl, rfl⟩
  | some e =>
    right
    obtain ⟨rest, hrest, hset⟩ := exists_flatten_rest hi
    obtain ⟨hidx, l₁, l₂, hl, herase⟩ := exists_eraseP_eq hfind
    refine ⟨e, List.mem_flatten.mpr ⟨_, List.getElem_mem hi, List.mem_of_find?_eq_some hfind⟩,
      hidx, ?_⟩
    rw [herase]
    rw [hl] at hrest
    exact hrest.trans ((List.perm_middle.append_right rest).trans ((hset _).symm.cons e))

/-- A deletion leaves the other entries. -/
theorem mem_deleteChains (h : ht.Holds chains) {x : Stored β} :
    x ∈ (deleteChains idx chains).flatten ↔ x ∈ chains.flatten ∧ x.index ≠ idx := by
  rcases deleteChains_cases h idx with ⟨hnone, heq⟩ | ⟨e, he, hidx, hperm⟩
  · rw [heq]
    exact ⟨fun hx => ⟨hx, contents_eq_none.mp hnone x hx⟩, fun hx => hx.1⟩
  · have hnodup : (e :: (deleteChains idx chains).flatten).Nodup :=
      hperm.nodup_iff.mp (List.Nodup.of_map _ h.nodup)
    rw [List.nodup_cons] at hnodup
    rw [hperm.mem_iff, List.mem_cons]
    constructor
    · intro hx
      refine ⟨.inr hx, fun hxidx => hnodup.1 ?_⟩
      have hxe := h.index_inj (hperm.mem_iff.mpr (List.mem_cons_of_mem _ hx)) he
        (hxidx.trans hidx.symm)
      rwa [← hxe]
    · rintro ⟨rfl | hx, hne⟩
      · exact absurd hidx hne
      · exact hx

/-- An insertion changes what is stored under its index, and nothing else. -/
theorem contents_insertChains (h : ht.Holds chains) (h' : ht'.Holds (insertChains e chains))
    (habsent : contents chains e.index = none) :
    contents (insertChains e chains)
      = Function.update (contents chains) e.index (some e.block) := by
  funext idx
  apply Option.ext
  intro blk
  rw [h'.contents_eq_some]
  simp only [(insertChains_perm h e).mem_iff, List.mem_cons]
  by_cases hidx : idx = e.index
  · subst hidx
    rw [Function.update_self, Option.some.injEq]
    constructor
    · rintro ⟨x, rfl | hx, hxidx, rfl⟩
      · rfl
      · exact absurd hxidx (contents_eq_none.mp habsent x hx)
    · rintro rfl
      exact ⟨e, .inl rfl, rfl, rfl⟩
  · rw [Function.update_of_ne hidx, h.contents_eq_some]
    constructor
    · rintro ⟨x, rfl | hx, hxidx, rfl⟩
      · exact absurd hxidx.symm hidx
      · exact ⟨x, hx, hxidx, rfl⟩
    · rintro ⟨x, hx, hxidx, rfl⟩
      exact ⟨x, .inr hx, hxidx, rfl⟩

/-- A deletion empties its index, and changes nothing else. -/
theorem contents_deleteChains (h : ht.Holds chains) (h' : ht'.Holds (deleteChains idx chains)) :
    contents (deleteChains idx chains) = Function.update (contents chains) idx none := by
  funext idx'
  apply Option.ext
  intro blk
  rw [h'.contents_eq_some]
  simp only [mem_deleteChains h]
  by_cases hidx : idx' = idx
  · subst hidx
    rw [Function.update_self]
    constructor
    · rintro ⟨x, ⟨-, hne⟩, hxidx, -⟩
      exact absurd hxidx hne
    · intro hnone
      exact absurd hnone (by simp)
  · rw [Function.update_of_ne hidx, h.contents_eq_some]
    constructor
    · rintro ⟨x, ⟨hx, -⟩, hxidx, rfl⟩
      exact ⟨x, hx, hxidx, rfl⟩
    · rintro ⟨x, hx, hxidx, rfl⟩
      exact ⟨x, ⟨hx, fun heq => hidx (hxidx.symm.trans heq)⟩, hxidx, rfl⟩

end Contents

end NetworkExperiment
