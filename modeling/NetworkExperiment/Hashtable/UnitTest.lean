import Mathlib.Logic.Embedding.Basic
import NetworkExperiment.Util.Random
import NetworkExperiment.Hashtable.Cleanup

namespace NetworkExperiment

/-!
# The unit test of the hash table

`hashTableUnitTest` inserts numbers in a random order, walks over the table, finds them all and
deletes them all.  Its blocks hold the numbers, so the test reads through the pointers that the
table returns.

* `HtUnitTest` — the table under test, and the blocks that the test has allocated;
* `permuteLoop` / `insertLoop` / `walkLoop` / `findLoop` / `deleteLoop` — the loops of the test;
* `HtUnitTest.Stores` — the invariant: the table stores the numbers at some of the places, each with
  its block, and no other block is allocated;
* `hashTableUnitTest_passes` — the test passes, whatever it draws and wherever `malloc` puts the
  entries and the blocks, and walks over the numbers in one order.
-/

/-! ### The test -/

/-- `HT_UNIT_TEST_BITSIZE`. -/
def htUnitTestBitsize : UInt16 := 8

/-- `bitmax`, which is `(1<<HT_UNIT_TEST_BITSIZE)*64`. -/
def htUnitTestBitmax : ℕ := 16384

/-- The random words, and the addresses that `malloc` returns for the entries and the blocks: no
    address twice, as nothing is freed before the last of them is allocated.  An entry and a block
    are never compared. -/
structure HtTestDraws where
  words : ℕ → UInt32
  entries : ℕ ↪ Addr
  blocks : ℕ ↪ Addr

/-- The table, and the blocks that are allocated with the numbers that they hold. -/
structure HtUnitTest where
  ht : HTable Addr
  blocks : AList fun _ : Addr => UInt16

/-- `values[i]`. -/
def readValue (values : List UInt16) (i : ℕ) : Except Fault UInt16 :=
  match values[i]? with
  | some v => .ok v
  | none => .error .invalidAccess

/-- `tmpidx`, where `gcry_randomize` has written `val`: a place of the array, in 16 bits. -/
def tmpidx (val : UInt32) : ℕ :=
  (getRandomValue val 0 (UInt32.ofNat htUnitTestBitmax - 1)).toUInt16.toNat

/-- The loop that permutes the values, `todo` places from the end: the value of each place is
    exchanged with that of a place that is drawn. -/
def permuteLoop (words : ℕ → UInt32) : ℕ → ℕ → List UInt16 → Except Fault (List UInt16)
  | 0, _, values => .ok values
  | todo + 1, i, values => do
      let tmp ← readValue values (tmpidx (words i))
      let v ← readValue values i
      permuteLoop words todo (i + 1) ((values.set (tmpidx (words i)) v).set i tmp)

namespace HtUnitTest

/-- `*blkval`. -/
def deref (s : HtUnitTest) (blkval : Addr) : Except Fault UInt16 :=
  match s.blocks.lookup blkval with
  | some v => .ok v
  | none => .error .invalidAccess

/-- The loop that inserts the values. -/
def insertLoop (d : HtTestDraws) (values : List UInt16) :
    ℕ → ℕ → HtUnitTest → Except Fault HtUnitTest
  | 0, _, s => .ok s
  | todo + 1, i, s => do
      let blkval := d.blocks i
      let v ← readValue values i
      let (_, ht) ← insertValueInHashTable s.ht (d.entries i) v.toUInt64 (some blkval)
      insertLoop d values todo (i + 1) ⟨ht, s.blocks.insert blkval v⟩

/-- The loop of the iterator, with the numbers that it prints.  The fuel stands for its end, which
    `walkLoop_eq` shows to be reached. -/
def walkLoop (s : HtUnitTest) : ℕ → HtIterator → Except Fault (List UInt16)
  | 0, _ => .error .endlessWalk
  | fuel + 1, iter => do
      match ← iterateHashTable s.ht iter with
      | (none, _) => return []
      | (some blkval, iter) =>
          let v ← s.deref blkval
          let vs ← walkLoop s fuel iter
          return v :: vs

/-- The loop that finds the values; a failure returns `-1`. -/
def findLoop (s : HtUnitTest) : ℕ → ℕ → Except Fault ℤ
  | 0, _ => .ok 0
  | todo + 1, i => do
      match ← findValueInHashTable s.ht (UInt64.ofNat i) with
      | none => return -1
      | some blkval =>
          let v ← s.deref blkval
          if v ≠ UInt16.ofNat i then
            return -1
          findLoop s todo (i + 1)

/-- The loop that deletes the values; a failure returns `-1`.  A block is freed when its number has
    been compared. -/
def deleteLoop (values : List UInt16) : ℕ → ℕ → HtUnitTest → Except Fault (ℤ × HtUnitTest)
  | 0, _, s => .ok (0, s)
  | todo + 1, i, s => do
      let v ← readValue values i
      match ← deleteValueFromHashTable s.ht v.toUInt64 with
      | (none, ht) => return (-1, { s with ht := ht })
      | (some blkval, ht) =>
          let w ← s.deref blkval
          if w ≠ v then
            return (-1, { s with ht := ht })
          deleteLoop values todo (i + 1) ⟨ht, s.blocks.erase blkval⟩

end HtUnitTest

/-- How the test ends: what it returns, what it has printed on its walk, which blocks
    `cleanupHashTable` has freed, and what is left. -/
structure HtUnitTestEnd where
  ret : ℤ
  walked : List UInt16
  freed : List (Option Addr)
  left : HtUnitTest

/-- `hashTableUnitTest`. -/
def hashTableUnitTest (d : HtTestDraws) : Except Fault HtUnitTestEnd := do
  let values ← permuteLoop d.words htUnitTestBitmax 0
    ((List.range htUnitTestBitmax).map UInt16.ofNat)
  let ht ← initHashTable Addr htUnitTestBitsize
  let s ← HtUnitTest.insertLoop d values htUnitTestBitmax 0 ⟨ht, ∅⟩
  let walked ← s.walkLoop s.ht.fuel initHashTableIterator
  let found ← s.findLoop htUnitTestBitmax 0
  if found ≠ 0 then
    return ⟨found, walked, [], s⟩
  let (deleted, s) ← HtUnitTest.deleteLoop values htUnitTestBitmax 0 s
  if deleted ≠ 0 then
    return ⟨deleted, walked, [], s⟩
  let (freed, ht) ← cleanupHashTable s.ht
  return ⟨0, walked, freed, { s with ht := ht }⟩

/-! ### The permutation -/

/-- A read inside the array. -/
theorem readValue_eq {values : List UInt16} {i : ℕ} (hi : i < values.length) :
    readValue values i = .ok values[i] := by
  unfold readValue
  rw [List.getElem?_eq_getElem hi]

/-- The index that is drawn lies in the array. -/
theorem tmpidx_lt (val : UInt32) : tmpidx val < htUnitTestBitmax := by
  obtain ⟨-, hmax⟩ := @getRandomValue_mem val 0 (UInt32.ofNat htUnitTestBitmax - 1) (by decide)
  rw [UInt32.le_iff_toNat_le] at hmax
  have hbound : (UInt32.ofNat htUnitTestBitmax - 1).toNat = 16383 := by decide
  unfold tmpidx
  rw [UInt32.toNat_toUInt16]
  unfold htUnitTestBitmax at hmax hbound ⊢
  omega

/-- The values are the same ones in another order.  An exchange permutes them, whichever place is
    drawn, and no read leaves the array. -/
theorem permuteLoop_perm (words : ℕ → UInt32) {todo i : ℕ} {values : List UInt16}
    (hlen : values.length = htUnitTestBitmax) (hi : i + todo ≤ values.length) :
    ∃ values', permuteLoop words todo i values = .ok values' ∧ values'.Perm values := by
  induction todo generalizing i values with
  | zero => exact ⟨values, rfl, .refl _⟩
  | succ todo ih =>
    have htmp : tmpidx (words i) < values.length := by
      rw [hlen]
      exact tmpidx_lt _
    have hi' : i < values.length := by omega
    have hswap := List.set_set_perm htmp hi'
    obtain ⟨values', hloop, hperm⟩ := @ih (i + 1) _ (hswap.length_eq.trans hlen)
      (by rw [hswap.length_eq]; omega)
    refine ⟨values', ?_, hperm.trans hswap⟩
    unfold permuteLoop
    rw [readValue_eq htmp, ok_bind, readValue_eq hi', ok_bind]
    exact hloop


/-! ### The invariant -/

/-- Tables with as many chains have the same size, which insertion and deletion therefore keep. -/
theorem HTable.Holds.size_eq {β : Type} {ht ht' : HTable β}
    {chains chains' : List (List (Stored β))} (h : ht.Holds chains) (h' : ht'.Holds chains')
    (hlen : chains'.length = chains.length) :
    ht'.htTableSize = ht.htTableSize := by
  rw [← UInt16.toNat_inj, ← h.length_chains, ← h'.length_chains, hlen]

namespace HtUnitTest

/-- The table stores the values at the places in `live`, each with its block, and these blocks are
    the allocated ones.  The first loop goes on with the places below `i`, the last one with those
    from `i` on. -/
structure Stores (d : HtTestDraws) (values : List UInt16) (live : ℕ → Prop) (s : HtUnitTest) :
    Prop where
  size : s.ht.htTableSize = 256
  table : ∃ chains, s.ht.Holds chains ∧ ∀ idx blk, contents chains idx = some blk ↔
    ∃ j v, live j ∧ values[j]? = some v ∧ idx = v.toUInt64 ∧ blk = d.blocks j
  blocks : ∀ a v, s.blocks.lookup a = some v ↔ ∃ j, live j ∧ values[j]? = some v ∧ a = d.blocks j

variable {d : HtTestDraws} {values : List UInt16} {live live' : ℕ → Prop} {s : HtUnitTest} {i : ℕ}
  {v w : UInt16}

/-- The places of a value that occurs once. -/
theorem place_unique (hnodup : values.Nodup) {j k : ℕ} (hj : values[j]? = some v)
    (hk : values[k]? = some v) : j = k := by
  obtain ⟨hj', hjv⟩ := List.getElem?_eq_some_iff.mp hj
  obtain ⟨hk', hkv⟩ := List.getElem?_eq_some_iff.mp hk
  exact (hnodup.getElem_inj_iff).mp (hjv.trans hkv.symm)

/-- The index of a value says which value it is. -/
theorem toUInt64_inj (h : v.toUInt64 = w.toUInt64) : v = w := by
  have hnat := congrArg UInt64.toNat h
  rw [UInt16.toNat_toUInt64, UInt16.toNat_toUInt64] at hnat
  exact UInt16.toNat_inj.mp hnat

/-- Only the places of values matter. -/
theorem Stores.congr (h : s.Stores d values live)
    (heq : ∀ j < values.length, live j ↔ live' j) : s.Stores d values live' := by
  obtain ⟨hsize, ⟨chains, hholds, hcontents⟩, hblocks⟩ := h
  have hplace : ∀ j v, values[j]? = some v → (live j ↔ live' j) := fun j v hv =>
    heq j (List.getElem?_eq_some_iff.mp hv).1
  refine ⟨hsize, ⟨chains, hholds, fun idx blk => ?_⟩, fun a v => ?_⟩
  · rw [hcontents]
    constructor
    · rintro ⟨j, v, hj, hv, h⟩
      exact ⟨j, v, (hplace j v hv).mp hj, hv, h⟩
    · rintro ⟨j, v, hj, hv, h⟩
      exact ⟨j, v, (hplace j v hv).mpr hj, hv, h⟩
  · rw [hblocks]
    constructor
    · rintro ⟨j, hj, hv, h⟩
      exact ⟨j, (hplace j v hv).mp hj, hv, h⟩
    · rintro ⟨j, hj, hv, h⟩
      exact ⟨j, (hplace j v hv).mpr hj, hv, h⟩

/-- Dereferencing the block of a live place gives its value. -/
theorem Stores.deref (h : s.Stores d values live) (hi : live i) (hv : values[i]? = some v) :
    s.deref (d.blocks i) = .ok v := by
  unfold HtUnitTest.deref
  rw [(h.blocks _ _).mpr ⟨i, hi, hv, rfl⟩]

/-- A value at a live place is found. -/
theorem Stores.find (h : s.Stores d values live) (hi : live i) (hv : values[i]? = some v) :
    findValueInHashTable s.ht v.toUInt64 = .ok (some (d.blocks i)) := by
  obtain ⟨chains, hholds, hcontents⟩ := h.table
  rw [findValueInHashTable_eq hholds, (hcontents _ _).mpr ⟨i, v, hi, hv, rfl, rfl⟩]

/-- **Insertion.**  A value at a new place goes in with a block of its own, and the only new entry
    is the one that `malloc` has returned. -/
theorem Stores.insert (h : s.Stores d values live) (hnodup : values.Nodup) (hi : ¬ live i)
    (hv : values[i]? = some v) (hfresh : d.entries i ∉ s.ht.heap) :
    ∃ ht', insertValueInHashTable s.ht (d.entries i) v.toUInt64 (some (d.blocks i)) = .ok (0, ht') ∧
      Stores d values (fun j => j = i ∨ live j) ⟨ht', s.blocks.insert (d.blocks i) v⟩ ∧
      ∀ a, a ∈ ht'.heap → a = d.entries i ∨ a ∈ s.ht.heap := by
  obtain ⟨chains, hholds, hcontents⟩ := h.table
  -- the value occurs once, so the table does not have it
  have habsent : contents chains v.toUInt64 = none := by
    by_contra hsome
    obtain ⟨blk, hblk⟩ := Option.ne_none_iff_exists'.mp hsome
    obtain ⟨j, w, hj, hw, heq, -⟩ := (hcontents _ _).mp hblk
    rw [← toUInt64_inj heq] at hw
    exact hi (place_unique hnodup hw hv ▸ hj)
  obtain ⟨ht', hinsert, hholds'⟩ := @insertValueInHashTable_holds _ _ _
    ⟨d.entries i, v.toUInt64, d.blocks i⟩ hholds hfresh habsent
  have hcontents' := contents_insertChains hholds hholds' habsent
  refine ⟨ht', hinsert, ⟨?_, ⟨_, hholds', ?_⟩, ?_⟩, ?_⟩
  · rw [← h.size]
    exact hholds.size_eq hholds' (List.length_modify ..)
  · -- the contents: at the index of the value its block, elsewhere as before
    intro idx blk
    rw [hcontents']
    by_cases hidx : idx = v.toUInt64
    · subst hidx
      rw [Function.update_self, Option.some.injEq]
      constructor
      · rintro rfl
        exact ⟨i, v, .inl rfl, hv, rfl, rfl⟩
      · rintro ⟨j, w, -, hw, heq, rfl⟩
        rw [← toUInt64_inj heq] at hw
        rw [place_unique hnodup hw hv]
    · rw [Function.update_of_ne hidx, hcontents]
      constructor
      · rintro ⟨j, w, hj, hw, heq, rfl⟩
        exact ⟨j, w, .inr hj, hw, heq, rfl⟩
      · rintro ⟨j, w, rfl | hj, hw, heq, rfl⟩
        · rw [hv] at hw
          exact absurd (heq.trans (congrArg _ (Option.some.inj hw).symm)) hidx
        · exact ⟨j, w, hj, hw, heq, rfl⟩
  · -- the blocks: the new one has another address than those of the other places
    intro a w
    by_cases ha : a = d.blocks i
    · subst ha
      rw [AList.lookup_insert, Option.some.injEq]
      constructor
      · rintro rfl
        exact ⟨i, .inl rfl, hv, rfl⟩
      · rintro ⟨j, -, hw, heq⟩
        rw [← d.blocks.injective heq, hv] at hw
        exact Option.some.inj hw
    · rw [AList.lookup_insert_ne ha, h.blocks]
      constructor
      · rintro ⟨j, hj, hw, rfl⟩
        exact ⟨j, .inr hj, hw, rfl⟩
      · rintro ⟨j, rfl | hj, hw, rfl⟩
        · exact absurd rfl ha
        · exact ⟨j, hj, hw, rfl⟩
  · intro a ha
    rw [hholds'.mem_heap, ((insertChains_perm hholds _).map _).mem_iff, List.map_cons,
      List.mem_cons, ← hholds.mem_heap] at ha
    exact ha

/-- **Deletion.**  The call returns the block of the value, which the test then frees. -/
theorem Stores.delete (h : s.Stores d values live) (hnodup : values.Nodup) (hi : live i)
    (hv : values[i]? = some v) :
    ∃ ht', deleteValueFromHashTable s.ht v.toUInt64 = .ok (some (d.blocks i), ht') ∧
      Stores d values (fun j => j ≠ i ∧ live j) ⟨ht', s.blocks.erase (d.blocks i)⟩ := by
  obtain ⟨chains, hholds, hcontents⟩ := h.table
  obtain ⟨ht', hdelete, hholds', -⟩ := deleteValueFromHashTable_holds hholds v.toUInt64
  have hcontents' := contents_deleteChains hholds hholds'
  rw [(hcontents _ _).mpr ⟨i, v, hi, hv, rfl, rfl⟩] at hdelete
  refine ⟨ht', hdelete, ⟨?_, ⟨_, hholds', ?_⟩, ?_⟩⟩
  · rw [← h.size]
    exact hholds.size_eq hholds' (List.length_modify ..)
  · intro idx blk
    rw [hcontents']
    by_cases hidx : idx = v.toUInt64
    · subst hidx
      rw [Function.update_self]
      -- no other place has this value
      refine iff_of_false (by simp) ?_
      rintro ⟨j, w, ⟨hne, -⟩, hw, heq, -⟩
      rw [← toUInt64_inj heq] at hw
      exact hne (place_unique hnodup hw hv)
    · rw [Function.update_of_ne hidx, hcontents]
      constructor
      · rintro ⟨j, w, hj, hw, rfl, rfl⟩
        refine ⟨j, w, ⟨?_, hj⟩, hw, rfl, rfl⟩
        rintro rfl
        rw [hv] at hw
        exact hidx (congrArg _ (Option.some.inj hw).symm)
      · rintro ⟨j, w, ⟨-, hj⟩, hw, rfl, rfl⟩
        exact ⟨j, w, hj, hw, rfl, rfl⟩
  · intro a w
    by_cases ha : a = d.blocks i
    · subst ha
      rw [AList.lookup_erase]
      refine iff_of_false (by simp) ?_
      rintro ⟨j, ⟨hne, -⟩, -, heq⟩
      exact hne (d.blocks.injective heq).symm
    · rw [AList.lookup_erase_ne ha, h.blocks]
      constructor
      · rintro ⟨j, hj, hw, rfl⟩
        exact ⟨j, ⟨fun hji => ha (congrArg _ hji), hj⟩, hw, rfl⟩
      · rintro ⟨j, ⟨-, hj⟩, hw, rfl⟩
        exact ⟨j, hj, hw, rfl⟩


/-! ### The loops -/

/-- All values are inserted.  By induction on the places that are left: below `i` they are stored,
    and the entries of the table are those that the loop has allocated. -/
theorem insertLoop_stores (hnodup : values.Nodup) {todo : ℕ} (hlen : i + todo = values.length)
    (h : s.Stores d values (· < i)) (hheap : ∀ a ∈ s.ht.heap, ∃ j < i, a = d.entries j) :
    ∃ s', insertLoop d values todo i s = .ok s' ∧ s'.Stores d values (· < values.length) := by
  induction todo generalizing i s with
  | zero =>
    rw [Nat.add_zero] at hlen
    exact ⟨s, rfl, hlen ▸ h⟩
  | succ todo ih =>
    have hi : i < values.length := by omega
    -- `malloc` returns no address twice
    have hfresh : d.entries i ∉ s.ht.heap := by
      intro hmem
      obtain ⟨j, hj, heq⟩ := hheap _ hmem
      rw [d.entries.injective heq] at hj
      exact Nat.lt_irrefl j hj
    obtain ⟨ht', hinsert, hstores, hheap'⟩ :=
      h.insert hnodup (Nat.lt_irrefl i) (List.getElem?_eq_getElem hi) hfresh
    obtain ⟨s', hloop, hs'⟩ := @ih _ (i + 1) (by omega)
      (hstores.congr fun j _ => by omega) (by
        intro a ha
        rcases hheap' a ha with rfl | ha
        · exact ⟨i, Nat.lt_succ_self i, rfl⟩
        · obtain ⟨j, hj, rfl⟩ := hheap a ha
          exact ⟨j, Nat.lt_succ_of_lt hj, rfl⟩)
    refine ⟨s', ?_, hs'⟩
    unfold insertLoop
    dsimp only
    rw [readValue_eq hi, ok_bind, hinsert, ok_bind]
    exact hloop

/-- All values are found: every number is at some place, and the block of that place holds it. -/
theorem findLoop_eq_zero (h : s.Stores d values (· < values.length)) {todo : ℕ}
    (hbound : i + todo ≤ htUnitTestBitmax)
    (hall : ∀ n < htUnitTestBitmax, UInt16.ofNat n ∈ values) : s.findLoop todo i = .ok 0 := by
  induction todo generalizing i with
  | zero => rfl
  | succ todo ih =>
    obtain ⟨j, hj, hv⟩ := List.getElem_of_mem (hall i (by omega))
    have hplace : values[j]? = some (UInt16.ofNat i) := List.getElem?_eq_some_iff.mpr ⟨hj, hv⟩
    -- the loop looks for the number `i` itself, which has 16 bits
    have hidx : UInt64.ofNat i = (UInt16.ofNat i).toUInt64 := by
      unfold htUnitTestBitmax at hbound
      rw [← UInt64.toNat_inj, UInt16.toNat_toUInt64, UInt64.toNat_ofNat', UInt16.toNat_ofNat']
      omega
    unfold findLoop
    rw [hidx, h.find hj hplace, ok_bind]
    dsimp only
    rw [h.deref hj hplace, ok_bind, if_neg (not_not.mpr rfl)]
    exact ih (by omega)

/-- All values are deleted.  From `i` on they are still stored, and their blocks are allocated. -/
theorem deleteLoop_stores (hnodup : values.Nodup) {todo : ℕ} (hlen : i + todo = values.length)
    (h : s.Stores d values fun j => i ≤ j) :
    ∃ s', deleteLoop values todo i s = .ok (0, s') ∧
      s'.Stores d values fun j => values.length ≤ j := by
  induction todo generalizing i s with
  | zero =>
    rw [Nat.add_zero] at hlen
    exact ⟨s, rfl, hlen ▸ h⟩
  | succ todo ih =>
    have hi : i < values.length := by omega
    have hplace := List.getElem?_eq_getElem hi
    obtain ⟨ht', hdelete, hstores⟩ := h.delete hnodup (Nat.le_refl i) hplace
    obtain ⟨s', hloop, hs'⟩ := @ih _ (i + 1) (by omega) (hstores.congr fun j _ => by omega)
    refine ⟨s', ?_, hs'⟩
    unfold deleteLoop
    rw [readValue_eq hi, ok_bind, hdelete, ok_bind]
    dsimp only
    rw [h.deref (Nat.le_refl i) hplace, ok_bind, if_neg (not_not.mpr rfl)]
    exact hloop

/-- An entry of the table holds the block of a value, which is its index. -/
theorem Stores.entry {chains : List (List (Stored Addr))} (h : s.Stores d values live)
    (hholds : s.ht.Holds chains) {e : Stored Addr} (he : e ∈ chains.flatten) :
    ∃ j v, live j ∧ values[j]? = some v ∧ e.index = v.toUInt64 ∧ e.block = d.blocks j := by
  obtain ⟨chains', hholds', hcontents⟩ := h.table
  -- what is found does not depend on the chains that describe the table
  have hsame : contents chains = contents chains' := by
    funext idx
    exact Except.ok.inj ((findValueInHashTable_eq hholds idx).symm.trans
      (findValueInHashTable_eq hholds' idx))
  refine (hcontents _ _).mp ?_
  rw [← hsame]
  exact hholds.contents_eq_some.mpr ⟨e, he, rfl, rfl⟩

/-- The walk goes over the entries, and prints their indices.  By induction on the entries that the
    iterator has before it. -/
theorem walkLoop_eq {chains : List (List (Stored Addr))} (h : s.Stores d values live)
    (hholds : s.ht.Holds chains) {rest : List (Stored Addr)} {iter : HtIterator}
    (hit : iter.Before chains rest) (hrest : ∀ e ∈ rest, e ∈ chains.flatten) {fuel : ℕ}
    (hfuel : rest.length < fuel) :
    s.walkLoop fuel iter = .ok (rest.map fun e => e.index.toUInt16) := by
  induction rest generalizing iter fuel with
  | nil =>
    obtain ⟨fuel, rfl⟩ := Nat.exists_eq_succ_of_ne_zero (Nat.ne_of_gt hfuel)
    obtain ⟨iter', hnext, -⟩ := iterateHashTable_spec hholds hit
    unfold walkLoop
    rw [hnext, ok_bind]
    rfl
  | cons e rest ih =>
    obtain ⟨fuel, rfl⟩ := Nat.exists_eq_succ_of_ne_zero (Nat.ne_of_gt (Nat.zero_lt_of_lt hfuel))
    obtain ⟨iter', hnext, hit'⟩ := iterateHashTable_spec hholds hit
    obtain ⟨j, v, hj, hv, hindex, hblock⟩ := h.entry hholds (hrest e List.mem_cons_self)
    have hloop := ih hit' (fun x hx => hrest x (List.mem_cons_of_mem _ hx))
      (Nat.lt_of_succ_lt_succ hfuel)
    unfold walkLoop
    rw [hnext, ok_bind]
    dsimp only [List.head?_cons, Option.map_some]
    rw [hblock, h.deref hj hv, ok_bind, hloop, ok_bind, List.map_cons, hindex,
      UInt16.toUInt16_toUInt64]
    rfl

end HtUnitTest

/-! ### The walk -/

/-- The numbers in the order of the chains, and in each chain in their own order. -/
def htUnitTestWalk : List UInt16 :=
  (List.range 256).flatMap fun c => (List.range 64).map fun k => UInt16.ofNat (c + 256 * k)

/-- The numbers of the test fit into 16 bits. -/
theorem toNat_value {n : ℕ} (hn : n < htUnitTestBitmax) :
    (UInt16.ofNat n).toUInt64.toNat = n := by
  unfold htUnitTestBitmax at hn
  rw [UInt16.toNat_toUInt64, UInt16.toNat_ofNat']
  omega

/-- It has all the numbers. -/
theorem mem_htUnitTestWalk {v : UInt16} :
    v ∈ htUnitTestWalk ↔ v ∈ (List.range htUnitTestBitmax).map UInt16.ofNat := by
  unfold htUnitTestWalk htUnitTestBitmax
  simp only [List.mem_flatMap, List.mem_map, List.mem_range]
  constructor
  · rintro ⟨c, hc, k, hk, rfl⟩
    exact ⟨c + 256 * k, by omega, rfl⟩
  · rintro ⟨n, hn, rfl⟩
    refine ⟨n % 256, by omega, n / 256, by omega, ?_⟩
    rw [Nat.mod_add_div]

/-- It is the order of iteration: by the chain, which is the number modulo 256, and in a chain by
    the number. -/
theorem htUnitTestWalk_ordered :
    (htUnitTestWalk.map fun v => (v.toUInt64, ())).Pairwise fun a b => iterBefore 256 a.1 b.1 := by
  unfold htUnitTestWalk
  rw [List.pairwise_map, List.pairwise_flatMap]
  constructor
  · -- inside a chain
    intro c hc
    rw [List.mem_range] at hc
    rw [List.pairwise_map]
    refine (List.pairwise_lt_range).imp_of_mem ?_
    intro k k' hk hk' hlt
    rw [List.mem_range] at hk hk'
    right
    dsimp only
    rw [UInt64.lt_iff_toNat_lt, toNat_value (by unfold htUnitTestBitmax; omega),
      toNat_value (by unfold htUnitTestBitmax; omega)]
    omega
  · -- from one chain to the next
    refine (List.pairwise_lt_range).imp_of_mem ?_
    intro c c' hc hc' hlt v hv w hw
    obtain ⟨k, hk, rfl⟩ := List.mem_map.mp hv
    obtain ⟨k', hk', rfl⟩ := List.mem_map.mp hw
    rw [List.mem_range] at hc hc' hk hk'
    left
    dsimp only
    rw [toNat_value (by unfold htUnitTestBitmax; omega),
      toNat_value (by unfold htUnitTestBitmax; omega)]
    omega

/-- The walk over the table with all values goes over the numbers in this order, in whatever order
    they were inserted. -/
theorem HtUnitTest.Stores.walk {d : HtTestDraws} {values : List UInt16} {s : HtUnitTest}
    (hperm : values.Perm ((List.range htUnitTestBitmax).map UInt16.ofNat))
    (h : s.Stores d values (· < values.length)) :
    s.walkLoop s.ht.fuel initHashTableIterator = .ok htUnitTestWalk := by
  obtain ⟨chains, hholds, hcontents⟩ := h.table
  have hfuel : chains.flatten.length < s.ht.fuel := by
    have hcount := hholds.owned.length_eq
    rw [List.length_map] at hcount
    unfold HTable.fuel
    omega
  have hordered := hholds.listing.ordered
  rw [h.size, List.pairwise_map] at hordered
  -- the indices of the entries are the numbers, in the order of iteration
  have hindices : (chains.flatten.map fun e => (e.index, ()))
      = htUnitTestWalk.map fun v => (v.toUInt64, ()) := by
    refine @eq_of_ordered Unit 256 _ _ (List.pairwise_map.mpr hordered) htUnitTestWalk_ordered ?_
    rintro ⟨idx, ⟨⟩⟩
    simp only [List.mem_map, Prod.mk.injEq, and_true]
    constructor
    · rintro ⟨e, he, rfl⟩
      obtain ⟨j, v, -, hv, hindex, -⟩ := h.entry hholds he
      refine ⟨v, mem_htUnitTestWalk.mpr (hperm.mem_iff.mp (List.mem_of_getElem? hv)), hindex.symm⟩
    · rintro ⟨v, hv, rfl⟩
      obtain ⟨j, hj, hjv⟩ := List.getElem_of_mem (hperm.mem_iff.mpr (mem_htUnitTestWalk.mp hv))
      obtain ⟨e, he, hindex, -⟩ := hholds.contents_eq_some.mp ((hcontents _ _).mpr
        ⟨j, v, hj, List.getElem?_eq_some_iff.mpr ⟨hj, hjv⟩, rfl, rfl⟩)
      exact ⟨e, he, hindex⟩
  rw [HtUnitTest.walkLoop_eq h hholds before_init (fun e he => he) hfuel]
  have hwalk := congrArg (List.map fun p => p.1.toUInt16) hindices
  rw [List.map_map, List.map_map] at hwalk
  have hid : htUnitTestWalk.map (fun v => v.toUInt64.toUInt16) = htUnitTestWalk := by
    simp only [UInt16.toUInt16_toUInt64, List.map_id']
  exact congrArg Except.ok (hwalk.trans hid)

/-! ### The test passes -/

/-- The fresh table stores nothing. -/
theorem HtUnitTest.stores_empty (d : HtTestDraws) (values : List UInt16) :
    HtUnitTest.Stores d values (· < 0) ⟨.empty Addr 256, ∅⟩ := by
  refine ⟨rfl, ⟨_, holds_empty (by decide), ?_⟩, ?_⟩
  · intro idx blk
    -- 256 empty chains
    have hnil : contents (List.replicate (UInt16.toNat 256) ([] : List (Stored Addr))) idx
        = none := by
      unfold contents
      rw [List.flatten_replicate_nil]
      rfl
    rw [hnil]
    refine iff_of_false (by simp) ?_
    rintro ⟨j, -, hj, -⟩
    exact Nat.not_lt_zero j hj
  · intro a v
    refine iff_of_false (by simp) ?_
    rintro ⟨j, hj, -⟩
    exact Nat.not_lt_zero j hj

/-- Where no number is stored, there are no blocks, and the cleanup finds no entries. -/
theorem HtUnitTest.Stores.none_left {d : HtTestDraws} {values : List UInt16} {s : HtUnitTest}
    (h : s.Stores d values (values.length ≤ ·)) :
    s.blocks = ∅ ∧ ∃ ht', cleanupHashTable s.ht = .ok ([], ht') ∧ ht'.heap = ∅ := by
  have hnone : ∀ {j v}, values.length ≤ j → values[j]? ≠ some v := by
    intro j v hj hv
    exact absurd (List.getElem?_eq_some_iff.mp hv).1 (not_lt.mpr hj)
  constructor
  · -- an allocated block would be that of a place behind the last one
    have hkeys : s.blocks.keys = [] := by
      refine List.eq_nil_iff_forall_not_mem.mpr fun a ha => ?_
      obtain ⟨v, hv⟩ := Option.isSome_iff_exists.mp
        (AList.lookup_isSome.mpr (AList.mem_keys.mpr ha))
      obtain ⟨j, hj, hjv, -⟩ := (h.blocks a v).mp hv
      exact hnone hj hjv
    exact AList.ext (List.map_eq_nil_iff.mp hkeys)
  · obtain ⟨chains, hholds, -⟩ := h.table
    have hnil : chains.flatten = [] := by
      refine List.eq_nil_iff_forall_not_mem.mpr fun e he => ?_
      obtain ⟨j, v, hj, hv, -⟩ := h.entry hholds he
      exact hnone hj hv
    obtain ⟨ht', hclean, hheap, -⟩ := cleanupHashTable_eq hholds
    rw [hnil, List.map_nil] at hclean
    exact ⟨ht', hclean, hheap⟩

/-- What the test draws first are the numbers in some order. -/
theorem exists_values (words : ℕ → UInt32) : ∃ values,
    permuteLoop words htUnitTestBitmax 0 ((List.range htUnitTestBitmax).map UInt16.ofNat)
      = .ok values ∧
    values.Perm ((List.range htUnitTestBitmax).map UInt16.ofNat) ∧ values.Nodup ∧
    values.length = htUnitTestBitmax := by
  have hlength : ((List.range htUnitTestBitmax).map UInt16.ofNat).length = htUnitTestBitmax := by
    rw [List.length_map, List.length_range]
  -- no number twice, since they fit into 16 bits
  have hnumbers : ((List.range htUnitTestBitmax).map UInt16.ofNat).Nodup := by
    refine List.Nodup.map_on ?_ List.nodup_range
    intro m hm n hn heq
    rw [List.mem_range] at hm hn
    rw [← toNat_value hm, ← toNat_value hn, heq]
  obtain ⟨values, hpermute, hperm⟩ := permuteLoop_perm words hlength
    (Nat.le_of_eq ((Nat.zero_add _).trans hlength.symm))
  exact ⟨values, hpermute, hperm, hperm.nodup_iff.mpr hnumbers, hperm.length_eq.trans hlength⟩

/-- **The unit test passes.**  Whatever it draws and wherever `malloc` puts the entries and the
    blocks, no call goes wrong and no block is read that is not allocated; the walk prints the
    numbers in one order, whatever the order of the insertions; the test returns `0`, and leaves no
    entry and no block behind. -/
theorem hashTableUnitTest_passes (d : HtTestDraws) :
    ∃ left, hashTableUnitTest d = .ok ⟨0, htUnitTestWalk, [], left⟩ ∧
      left.ht.heap = ∅ ∧ left.blocks = ∅ := by
  obtain ⟨values, hpermute, hperm, hnodup, hlen⟩ := exists_values d.words
  -- every number is among the values, so the second loop finds it
  have hall : ∀ n < htUnitTestBitmax, UInt16.ofNat n ∈ values := fun n hn =>
    hperm.mem_iff.mpr (List.mem_map.mpr ⟨n, List.mem_range.mpr hn, rfl⟩)
  obtain ⟨s, hinsert, hs⟩ := HtUnitTest.insertLoop_stores hnodup
    ((Nat.zero_add _).trans hlen.symm) (HtUnitTest.stores_empty d values) (by
      intro a ha
      exact absurd ha (AList.notMem_empty a))
  have hfound := HtUnitTest.findLoop_eq_zero hs (Nat.le_of_eq (Nat.zero_add htUnitTestBitmax)) hall
  obtain ⟨s', hdelete, hs'⟩ := HtUnitTest.deleteLoop_stores hnodup
    ((Nat.zero_add _).trans hlen.symm)
    (hs.congr fun j hj => iff_of_true hj (Nat.zero_le j))
  obtain ⟨hblocks, ht', hclean, hheap⟩ := hs'.none_left
  refine ⟨{ s' with ht := ht' }, ?_, hheap, hblocks⟩
  have hinit : initHashTable Addr htUnitTestBitsize = .ok (.empty Addr 256) := rfl
  unfold hashTableUnitTest
  rw [hpermute, ok_bind, hinit, ok_bind, hinsert, ok_bind, hs.walk hperm, ok_bind, hfound,
    ok_bind, if_neg (not_not.mpr rfl), hdelete, ok_bind]
  dsimp only
  rw [if_neg (not_not.mpr rfl), hclean, ok_bind]
  rfl

end NetworkExperiment
