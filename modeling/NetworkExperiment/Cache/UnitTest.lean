import NetworkExperiment.Util.Random
import NetworkExperiment.Cache.Capacity
import NetworkExperiment.Cache.Custody

namespace NetworkExperiment

open ActionSystems

/-!
# The unit test of the cache

`cmpsc311CacheUnitTest` puts buffers into the cache, looks them up and deletes them at random, and
keeps a record of what it has put.

* `CacheUnitTest` / `cacheUnitTest` — the test, one iteration of its loop a step;
* `CacheUnitTest.Agrees` — the invariant: what the cache has for an identifier is what the record
  of it says;
* `cacheUnitTest_passes` — the test goes through, whatever it draws and wherever its buffers lie,
  and every buffer is freed once each time it has been allocated.
-/

/-! ### The test -/

/-- `Cmpsc311CacheUnitTestRecord`: what the test knows of an item that it has put.  A record
    without a buffer is not in use. -/
structure Cmpsc311CacheUnitTestRecord where
  buf : BufPtr
  cid : CacheID
  size : UInt32
  deriving DecidableEq

/-- `memset`, and what a record is set to when its item is gone; the identifier is
    `CMPSC311_NO_CACHE_ID`. -/
def Cmpsc311CacheUnitTestRecord.zero : Cmpsc311CacheUnitTestRecord := ⟨none, 0, 0⟩

/-- `CMPSC311_CACHE_UNIT_TEST_BINS`. -/
abbrev cacheUnitTestBins : ℕ := 128

/-- `CMPSC311_CACHE_UNIT_TEST_ITERATIONS`. -/
def cacheUnitTestIterations : ℕ := 50000

/-- Where the test is. -/
inductive CacheTestPc
  | init
  | loop (i : ℕ)
  | close
  | returned (ret : ℤ)
  deriving DecidableEq

/-- The test, with what `malloc` has returned for its buffers, and what it has freed itself.  The
    cache keeps what it has freed on its own. -/
structure CacheUnitTest where
  pc : CacheTestPc
  cache : Cache
  utestLines : Fin cacheUnitTestBins → Cmpsc311CacheUnitTestRecord
  testOid : CacheID
  taken : List BufPtr
  freed : List BufPtr

/-- What an iteration draws, and what the system calls in it return. -/
structure CacheTestDraw where
  idx : UInt32
  chance : UInt32
  size : UInt32
  now : Timeval
  buf : ℕ
  line : Addr
  entry : Addr

namespace CacheUnitTest

/-- What has been freed, by the test and by the cache. -/
def allFreed (s : CacheUnitTest) : List BufPtr := s.freed ++ s.cache.freed

/-- The buffer is allocated: its address has been returned more often than it has been freed. -/
def Live (s : CacheUnitTest) (b : BufPtr) : Prop := s.allFreed.count b < s.taken.count b

instance (s : CacheUnitTest) (b : BufPtr) : Decidable (s.Live b) :=
  inferInstanceAs (Decidable (_ < _))

/-- The next iteration, or the end of the loop. -/
def next (i : ℕ) (s : CacheUnitTest) : CacheUnitTest :=
  { s with pc := if i + 1 < cacheUnitTestIterations then .loop (i + 1) else .close }

/-- The record of a bin is cleared. -/
def clear (s : CacheUnitTest) (idx : Fin cacheUnitTestBins) : CacheUnitTest :=
  { s with utestLines := Function.update s.utestLines idx .zero }

/-- The item of a record is deleted, if the cache still has it.  Another buffer than that of the
    record is a failure. -/
def delete (s : CacheUnitTest) (i : ℕ) (idx : Fin cacheUnitTestBins) : Option CacheUnitTest :=
  match deleteCmpsc311Cache s.cache (s.utestLines idx).cid with
  | .error _ => none
  | .ok (none, c) => some (next i ({ s with cache := c }.clear idx))
  | .ok (some ptr, c) =>
    if some ptr ≠ (s.utestLines idx).buf then some { s with cache := c, pc := .returned (-1) }
    else
      some (next i ({ s with
        cache := c
        freed := s.freed ++ [(s.utestLines idx).buf] }.clear idx))

/-- The item of a record is looked up, and once in five times deleted.  Where the cache has ejected
    it, the record is cleared. -/
def lookUp (s : CacheUnitTest) (i : ℕ) (idx : Fin cacheUnitTestBins) (d : CacheTestDraw) :
    Option CacheUnitTest :=
  match getCmpsc311Cache s.cache d.now (s.utestLines idx).cid with
  | .error _ => none
  | .ok (none, c) => some (next i ({ s with cache := c }.clear idx))
  | .ok (some ptr, c) =>
    if some ptr ≠ (s.utestLines idx).buf then some { s with cache := c, pc := .returned (-1) }
    else if getRandomValue d.chance 1 5 = 1 then { s with cache := c }.delete i idx
    else some (next i { s with cache := c })

/-- A new item is put, under the next identifier.  `malloc` returns no buffer that is allocated. -/
def create (s : CacheUnitTest) (i : ℕ) (idx : Fin cacheUnitTestBins) (d : CacheTestDraw) :
    Option CacheUnitTest :=
  let size := getRandomValue d.size 1 1024
  if s.Live (some d.buf) ∨ ¬ s.cache.MallocReturns size d.line d.entry then none
  else
    match putCmpsc311Cache s.cache d.line d.entry d.now s.testOid (some d.buf) size with
    | .error _ => none
    | .ok (ret, c) =>
      let s := { s with
        cache := c
        utestLines := Function.update s.utestLines idx ⟨some d.buf, s.testOid, size⟩
        testOid := s.testOid + 1
        taken := s.taken ++ [some d.buf] }
      if ret ≠ 0 then some { s with pc := .returned (-1) } else some (next i s)

/-- An iteration: a record that is not in use is filled, and the item of another one looked up.  An
    index outside the records has no result. -/
def iterate (s : CacheUnitTest) (i : ℕ) (d : CacheTestDraw) : Option CacheUnitTest :=
  let idx := (getRandomValue d.idx 0 127).toNat
  if h : idx < cacheUnitTestBins then
    if (s.utestLines ⟨idx, h⟩).buf ≠ none then s.lookUp i ⟨idx, h⟩ d else s.create i ⟨idx, h⟩ d
  else none

/-- A step of the test. -/
def step (s : CacheUnitTest) (d : CacheTestDraw) : Option CacheUnitTest :=
  match s.pc with
  | .init =>
    match initCmpsc311Cache s.cache 25 20400 with
    | .error _ => none
    | .ok (ret, c) =>
      some { s with cache := c, pc := if ret ≠ 0 then .returned (-1) else .loop 0 }
  | .loop i => s.iterate i d
  | .close =>
    -- the test does not look at what `close` returns
    match closeCmpsc311Cache s.cache with
    | .error _ => none
    | .ok (_, c) => some { s with cache := c, pc := .returned 0 }
  | .returned _ => none

/-- The test at the start of the program. -/
def start : CacheUnitTest where
  pc := .init
  cache := .initial
  utestLines := fun _ => .zero
  testOid := 1024
  taken := []
  freed := []

end CacheUnitTest

/-- The runs of the test, under a clock that stays in range. -/
def cacheUnitTest : ActionSystem CacheUnitTest CacheTestDraw where
  act s d := if d.now.InRange then s.step d else none

/-- What the system calls of an iteration may return: a reading in range, and nothing that is
    allocated. -/
structure CacheUnitTest.Allows (s : CacheUnitTest) (d : CacheTestDraw) : Prop where
  clock : d.now.InRange
  buf : ¬ s.Live (some d.buf)
  malloc : s.cache.MallocReturns (getRandomValue d.size 1 1024) d.line d.entry

/-! ### The records agree with the cache -/

variable {c c' : Cache} {lines : Fin cacheUnitTestBins → Cmpsc311CacheUnitTestRecord}
  {oid : CacheID} {ht ht' : HTable Addr} {chains : List (List (Stored Addr))} {e : Stored Addr}
  {l : Cmpsc311CacheEntry}

/-- What the cache has for an identifier is what the record of it says, and the identifiers in use
    are smaller than the next one. -/
structure Agrees (c : Cache) (lines : Fin cacheUnitTestBins → Cmpsc311CacheUnitTestRecord)
    (oid : CacheID) : Prop where
  books : ∃ ht chains, c.Books ht chains
  times : c.TimesInRange
  maxSize : c.maxSize = 20400
  stored : ∀ cid l, c.entry cid = some l → cid < oid
  used : ∀ j, (lines j).buf ≠ none → (lines j).cid < oid
  agree : ∀ j l, (lines j).buf ≠ none → c.entry (lines j).cid = some l → l.buf = (lines j).buf

/-- A cache that has the same buffers, or fewer, agrees with the records. -/
theorem Agrees.mono (h : Agrees c lines oid) (hbooks : ∃ ht chains, c'.Books ht chains)
    (htimes : c'.TimesInRange) (hsize : c'.maxSize = c.maxSize)
    (hsub : ∀ cid l', c'.entry cid = some l' → ∃ l, c.entry cid = some l ∧ l.buf = l'.buf) :
    Agrees c' lines oid := by
  refine ⟨hbooks, htimes, hsize.trans h.maxSize, ?_, h.used, ?_⟩
  · intro cid l' hl'
    obtain ⟨l, hl, -⟩ := hsub cid l' hl'
    exact h.stored cid l hl
  · intro j l' hj hl'
    obtain ⟨l, hl, hbuf⟩ := hsub _ l' hl'
    rw [← hbuf]
    exact h.agree j l hj hl

/-- A record that is cleared says nothing, and the others are as they were. -/
theorem Agrees.clear (h : Agrees c lines oid) (idx : Fin cacheUnitTestBins) :
    Agrees c (Function.update lines idx .zero) oid := by
  refine ⟨h.books, h.times, h.maxSize, h.stored, ?_, ?_⟩
  · intro j hj
    by_cases hidx : j = idx
    · subst hidx
      rw [Function.update_self] at hj
      exact absurd rfl hj
    · rw [Function.update_of_ne hidx] at hj ⊢
      exact h.used j hj
  · intro j l hj hl
    by_cases hidx : j = idx
    · subst hidx
      rw [Function.update_self] at hj
      exact absurd rfl hj
    · rw [Function.update_of_ne hidx] at hj hl ⊢
      exact h.agree j l hj hl

/-- A `get` finds the buffer of the record, or nothing. -/
theorem Agrees.get (h : Agrees c lines oid) {now : Timeval} (hnow : now.InRange)
    {idx : Fin cacheUnitTestBins} (hidx : (lines idx).buf ≠ none) :
    (∃ c', getCmpsc311Cache c now (lines idx).cid = .ok (none, c') ∧ Agrees c' lines oid) ∨
      ∃ c', getCmpsc311Cache c now (lines idx).cid = .ok ((lines idx).buf, c') ∧
        Agrees c' lines oid := by
  obtain ⟨ht, chains, hbooks⟩ := h.books
  rcases getCmpsc311Cache_books hbooks now (lines idx).cid with
    ⟨-, hget⟩ | ⟨e, he, l, hl, hcid, hget⟩
  · exact .inl ⟨c, hget, h⟩
  · right
    have hentry := hbooks.entry_of_isEntry he hl
    have hrenewed := hbooks.entry_renewed he hl now
    rw [h.agree idx l hidx (by rw [← hcid]; exact hentry)] at hget
    refine ⟨_, hget, h.mono ⟨ht, chains, hbooks.renew he hl now⟩ ?_ rfl ?_⟩
    · -- the times: that of the line is the reading
      intro cid l' hl'
      rw [hrenewed] at hl'
      by_cases hsame : cid = l.cid
      · rw [hsame, Function.update_self] at hl'
        rwa [← Option.some.inj hl']
      · rw [Function.update_of_ne hsame] at hl'
        exact h.times cid l' hl'
    · -- the buffers have not changed
      intro cid l' hl'
      rw [hrenewed] at hl'
      by_cases hsame : cid = l.cid
      · rw [hsame, Function.update_self] at hl'
        rw [← Option.some.inj hl', hsame]
        exact ⟨l, hentry, rfl⟩
      · rw [Function.update_of_ne hsame] at hl'
        exact ⟨l', hl', rfl⟩

/-- A `delete` returns the buffer of the record, or nothing: the line of its identifier has that
    buffer. -/
theorem Agrees.delete (h : Agrees c lines oid) {idx : Fin cacheUnitTestBins}
    (hidx : (lines idx).buf ≠ none) :
    (∃ c', deleteCmpsc311Cache c (lines idx).cid = .ok (none, c') ∧ Agrees c' lines oid) ∨
      ∃ c', deleteCmpsc311Cache c (lines idx).cid = .ok ((lines idx).buf, c') ∧
        Agrees c' lines oid := by
  obtain ⟨ht, chains, hbooks⟩ := h.books
  rcases deleteCmpsc311Cache_books hbooks (lines idx).cid with
    ⟨-, hdelete⟩ | ⟨e, he, l, ht', hl, hcid, hholds, hdelete⟩
  · exact .inl ⟨c, hdelete, h⟩
  · right
    have hentry := hbooks.entry_of_isEntry he hl
    rw [h.agree idx l hidx (by rw [← hcid]; exact hentry)] at hdelete
    refine ⟨_, hdelete, h.mono ⟨ht', _, hbooks.remove he hl hholds _⟩
      (hbooks.timesInRange_without h.times he hl hholds _) rfl ?_⟩
    intro cid l' hl'
    exact ⟨l', hbooks.entry_of_without he hl hholds _ hl', rfl⟩

/-- A `put` of the next identifier stores its buffer.  As identifiers rise, the assertion of the
    hash table does not fail. -/
theorem Agrees.put (h : Agrees c lines oid) {line entry : Addr} {size : UInt32}
    (hmalloc : c.MallocReturns size line entry) {now : Timeval} (hnow : now.InRange)
    (hpos : 0 < size) (hle : size ≤ 1024) (hoid : oid < oid + 1) (idx : Fin cacheUnitTestBins)
    (b : ℕ) :
    ∃ c', putCmpsc311Cache c line entry now oid (some b) size = .ok (0, c') ∧
      Agrees c' (Function.update lines idx ⟨some b, oid, size⟩) (oid + 1) := by
  obtain ⟨ht, chains, hbooks⟩ := h.books
  have haccepts : c.Accepts (some b) size := by
    refine ⟨hbooks.initialized, ?_, ?_⟩
    · simp [UInt32.pos_iff_ne_zero.mp hpos]
    · rw [h.maxSize]
      exact UInt32.le_trans hle (by decide)
  have hnew : ∀ cid l, c.entry cid = some l → cid ≠ oid := by
    rintro cid l hl rfl
    exact UInt32.lt_irrefl _ (h.stored cid l hl)
  rcases putCmpsc311Cache_books hbooks haccepts hmalloc now oid with
    ⟨hover, -⟩ | ⟨c₁, ht₁, chains₁, hmakes, h₁, hline, ⟨hpresent, -⟩ | ⟨habsent, ht', hholds, hput⟩⟩
  · exact absurd hover h.times.not_timesOverflow
  · -- no line has the next identifier
    obtain ⟨l, hl⟩ := Option.ne_none_iff_exists'.mp hpresent
    rw [hmakes.entry] at hl
    dsimp only at hl
    split_ifs at hl
    exact absurd rfl (hnew _ l hl)
  · have hputs : c.PutsLine now oid (some b) size c₁
        (c₁.withLine ht' line ⟨oid, size, some b, now⟩) :=
      ⟨haccepts, hmakes, habsent, line, entry, ht₁, chains₁, ht', h₁, hline, hholds, rfl⟩
    have hentry := hputs.entry
    -- what is stored under another identifier was stored before
    have hbefore : ∀ cid l, cid ≠ oid →
        (c₁.withLine ht' line ⟨oid, size, some b, now⟩).entry cid = some l →
          c.entry cid = some l := by
      intro cid l hne hl
      rw [hentry, Function.update_of_ne hne, hmakes.entry] at hl
      dsimp only at hl
      split_ifs at hl
      exact hl
    refine ⟨_, hput, hputs.books, hputs.timesInRange hnow h.times,
      hputs.counters.2.1.trans h.maxSize, ?_, ?_, ?_⟩
    · intro cid l hl
      by_cases hcid : cid = oid
      · rwa [hcid]
      · exact UInt32.lt_trans (h.stored cid l (hbefore cid l hcid hl)) hoid
    · intro j hj
      by_cases hidx : j = idx
      · rw [hidx, Function.update_self]
        exact hoid
      · rw [Function.update_of_ne hidx] at hj ⊢
        exact UInt32.lt_trans (h.used j hj) hoid
    · intro j l hj hl
      by_cases hidx : j = idx
      · rw [hidx, Function.update_self] at hl ⊢
        rw [hentry, Function.update_self] at hl
        rw [← Option.some.inj hl]
      · rw [Function.update_of_ne hidx] at hj hl ⊢
        have hne : (lines j).cid ≠ oid := by
          intro heq
          have hlt := h.used j hj
          rw [heq] at hlt
          exact UInt32.lt_irrefl _ hlt
        exact h.agree j l hj (hbefore _ l hne hl)

/-! ### The invariant of the test -/

/-- The invariant in the loop, in front of iteration `i`: every buffer that has been taken is freed
    or in the cache, and the records say which. -/
structure CacheUnitTest.InLoop (s : CacheUnitTest) (i : ℕ) : Prop where
  balanced : CacheCustody.Balanced ⟨s.cache, s.taken, s.freed⟩
  agrees : Agrees s.cache s.utestLines s.testOid
  /-- Each iteration takes one identifier at most. -/
  oid : s.testOid.toNat ≤ 1024 + i

/-- The invariant, by the place in the test.  A test that has returned has returned 0. -/
def CacheUnitTest.Inv (s : CacheUnitTest) : Prop :=
  match s.pc with
  | .init => s = .start
  | .loop i => i < cacheUnitTestIterations ∧ s.InLoop i
  | .close => s.InLoop cacheUnitTestIterations
  | .returned ret => ret = 0 ∧ s.cache.initialized = false ∧
      CacheCustody.Balanced ⟨s.cache, s.taken, s.freed⟩

/-- How many steps are left at most; each step takes one away. -/
def CacheUnitTest.stepsLeft (s : CacheUnitTest) : ℕ :=
  match s.pc with
  | .init => cacheUnitTestIterations + 2
  | .loop i => cacheUnitTestIterations - i + 1
  | .close => 1
  | .returned _ => 0

/-- A call of the cache keeps the balance. -/
theorem CacheCustody.Balanced.perform {taken freed : List BufPtr}
    (h : CacheCustody.Balanced ⟨c, taken, freed⟩) {op : CacheOp} {ret : CacheReturn}
    (hperform : c.perform op = some (ret, c')) :
    CacheCustody.Balanced ⟨c', taken ++ op.takes ret, freed ++ op.givesBack ret⟩ := by
  refine CacheCustody.balanced_step (a := op) h ?_
  show (c.perform op).map _ = _
  rw [hperform]
  rfl

/-- The calls of the test are calls of the cache with its user. -/
theorem perform_get {now : Timeval} {cid : CacheID} {buf : BufPtr}
    (hget : getCmpsc311Cache c now cid = .ok (buf, c')) :
    c.perform (.call (.get now cid)) = some (.buffer buf, c') := by
  unfold Cache.perform
  dsimp only
  rw [hget]
  rfl

theorem perform_delete {cid : CacheID} {buf : BufPtr}
    (hdelete : deleteCmpsc311Cache c cid = .ok (buf, c')) :
    c.perform (.call (.delete cid)) = some (.buffer buf, c') := by
  unfold Cache.perform
  dsimp only
  rw [hdelete]
  rfl

theorem perform_put {line entry : Addr} {now : Timeval} {cid : CacheID} {buf : BufPtr}
    {len : UInt32} {ret : ℤ} (hmalloc : c.MallocReturns len line entry)
    (hput : putCmpsc311Cache c line entry now cid buf len = .ok (ret, c')) :
    c.perform (.call (.put line entry now cid buf len)) = some (.code ret, c') := by
  unfold Cache.perform
  dsimp only
  rw [if_pos hmalloc, hput]
  rfl

namespace CacheUnitTest

variable {s : CacheUnitTest} {i : ℕ} {d : CacheTestDraw} {idx : Fin cacheUnitTestBins}

/-- Nothing has been allocated. -/
theorem inv_start : CacheCustody.Balanced ⟨start.cache, start.taken, start.freed⟩ :=
  ⟨.inr ⟨rfl, rfl, rfl, rfl, rfl, rfl⟩, owned_of_empty rfl, .refl _⟩

/-- The loop goes on, or ends. -/
theorem inv_next (hi : i < cacheUnitTestIterations) (h : s.InLoop (i + 1)) :
    (next i s).Inv ∧ (next i s).stepsLeft + 1 = cacheUnitTestIterations - i + 1 := by
  by_cases hmore : i + 1 < cacheUnitTestIterations
  · have hnext : next i s = { s with pc := .loop (i + 1) } := by
      unfold next
      rw [if_pos hmore]
    rw [hnext]
    refine ⟨⟨hmore, h.balanced, h.agrees, h.oid⟩, ?_⟩
    show cacheUnitTestIterations - (i + 1) + 1 + 1 = _
    omega
  · have hnext : next i s = { s with pc := .close } := by
      unfold next
      rw [if_neg hmore]
    have hlast : i + 1 = cacheUnitTestIterations := by omega
    rw [hlast] at h
    rw [hnext]
    refine ⟨⟨h.balanced, h.agrees, h.oid⟩, ?_⟩
    show 1 + 1 = _
    omega

/-- A `delete` leads to the next iteration.  The test frees what the cache has given back, and the
    cache frees nothing. -/
theorem delete_next (h : s.InLoop i) (hi : i < cacheUnitTestIterations)
    (hidx : (s.utestLines idx).buf ≠ none) :
    ∃ s', s.delete i idx = some s' ∧ s'.Inv ∧
      s'.stepsLeft + 1 = cacheUnitTestIterations - i + 1 := by
  unfold CacheUnitTest.delete
  rcases h.agrees.delete hidx with ⟨c', hdelete, hagrees⟩ | ⟨c', hdelete, hagrees⟩
  · have hbalanced := h.balanced.perform (perform_delete hdelete)
    rw [hdelete]
    refine ⟨_, rfl, inv_next hi ⟨?_, hagrees.clear idx, h.oid.trans (Nat.le_succ _)⟩⟩
    show CacheCustody.Balanced ⟨c', s.taken, s.freed⟩
    simpa [CacheOp.takes, CacheOp.givesBack] using hbalanced
  · obtain ⟨b, hb⟩ := Option.ne_none_iff_exists'.mp hidx
    rw [hb] at hdelete
    have hbalanced := h.balanced.perform (perform_delete hdelete)
    rw [hdelete]
    dsimp only
    rw [if_neg (not_not.mpr hb.symm)]
    refine ⟨_, rfl, inv_next hi ⟨?_, hagrees.clear idx, h.oid.trans (Nat.le_succ _)⟩⟩
    show CacheCustody.Balanced ⟨c', s.taken, s.freed ++ [(s.utestLines idx).buf]⟩
    rw [hb]
    simpa [CacheOp.takes, CacheOp.givesBack] using hbalanced

/-- A look-up leads to the next iteration, with or without the `delete` behind it. -/
theorem lookUp_next (h : s.InLoop i) (hi : i < cacheUnitTestIterations)
    (hidx : (s.utestLines idx).buf ≠ none) (hclock : d.now.InRange) :
    ∃ s', s.lookUp i idx d = some s' ∧ s'.Inv ∧
      s'.stepsLeft + 1 = cacheUnitTestIterations - i + 1 := by
  unfold lookUp
  rcases h.agrees.get hclock hidx with ⟨c', hget, hagrees⟩ | ⟨c', hget, hagrees⟩
  · have hbalanced := h.balanced.perform (perform_get hget)
    rw [hget]
    refine ⟨_, rfl, inv_next hi ⟨?_, hagrees.clear idx, h.oid.trans (Nat.le_succ _)⟩⟩
    show CacheCustody.Balanced ⟨c', s.taken, s.freed⟩
    simpa [CacheOp.takes, CacheOp.givesBack] using hbalanced
  · have hbalanced : CacheCustody.Balanced ⟨c', s.taken, s.freed⟩ := by
      simpa [CacheOp.takes, CacheOp.givesBack] using h.balanced.perform (perform_get hget)
    obtain ⟨b, hb⟩ := Option.ne_none_iff_exists'.mp hidx
    rw [hb] at hget
    rw [hget]
    dsimp only
    rw [if_neg (not_not.mpr hb.symm)]
    split_ifs
    · exact delete_next ⟨hbalanced, hagrees, h.oid⟩ hi hidx
    · exact ⟨_, rfl, inv_next hi ⟨hbalanced, hagrees, h.oid.trans (Nat.le_succ _)⟩⟩

/-- A new item leads to the next iteration. -/
theorem create_next (h : s.InLoop i) (hi : i < cacheUnitTestIterations) (hclock : d.now.InRange) :
    (¬ s.Allows d ∧ s.create i idx d = none) ∨ ∃ s', s.create i idx d = some s' ∧ s'.Inv ∧
      s'.stepsLeft + 1 = cacheUnitTestIterations - i + 1 := by
  unfold create
  dsimp only
  split_ifs with hno
  · refine .inl ⟨fun hallows => ?_, rfl⟩
    rcases hno with hlive | hmalloc
    · exact hallows.buf hlive
    · exact hmalloc hallows.malloc
  · right
    rw [not_or, not_not] at hno
    obtain ⟨hlive, hmalloc⟩ := hno
    obtain ⟨hone, hle⟩ := @getRandomValue_mem d.size 1 1024 (by decide)
    have hpos : 0 < getRandomValue d.size 1 1024 := UInt32.lt_of_lt_of_le (by decide) hone
    have hoid := h.oid
    have hbound : cacheUnitTestIterations = 50000 := rfl
    have hsucc : (s.testOid + 1).toNat = s.testOid.toNat + 1 := by
      rw [UInt32.toNat_add, UInt32.toNat_one]
      omega
    -- 50000 identifiers do not wrap
    have hlt : s.testOid < s.testOid + 1 := by
      rw [UInt32.lt_iff_toNat_lt, hsucc]
      exact Nat.lt_succ_self _
    obtain ⟨c', hput, hagrees⟩ := h.agrees.put hmalloc hclock hpos hle hlt idx d.buf
    have hbalanced := h.balanced.perform (perform_put hmalloc hput)
    rw [hput]
    dsimp only
    rw [if_neg (not_not.mpr rfl)]
    refine ⟨_, rfl, inv_next hi ⟨?_, hagrees, ?_⟩⟩
    · show CacheCustody.Balanced ⟨c', s.taken ++ [some d.buf], s.freed⟩
      simpa [CacheOp.takes, CacheOp.givesBack] using hbalanced
    · show (s.testOid + 1).toNat ≤ 1024 + (i + 1)
      omega

/-- **A step.**  It needs no more than the clock and `malloc` allow, and leads one step nearer to
    the end. -/
theorem step_next (h : s.Inv) (hclock : d.now.InRange) :
    (¬ s.Allows d ∧ s.step d = none) ∨ (s.pc = .returned 0 ∧ s.step d = none) ∨
      ∃ s', s.step d = some s' ∧ s'.Inv ∧ s'.stepsLeft + 1 = s.stepsLeft := by
  unfold Inv at h
  unfold step stepsLeft
  cases hpc : s.pc with
  | returned ret =>
    rw [hpc] at h
    rw [h.1]
    exact .inr (.inl ⟨rfl, rfl⟩)
  | init =>
    rw [hpc] at h
    subst h
    right; right
    rcases @initCmpsc311Cache_books .initial rfl 25 20400 with
      ⟨hzero, -⟩ | ⟨c, hinit, -, hsize, hnil, ht, chains, hbooks⟩
    · exact absurd hzero (by decide)
    have hperform : Cache.initial.perform (.init 25 20400) = some (.code 0, c) := by
      unfold Cache.perform
      dsimp only
      rw [hinit]
      rfl
    have hbalanced := inv_start.perform hperform
    show ∃ s', (match initCmpsc311Cache .initial 25 20400 with
      | .error _ => none
      | .ok (ret, c) => some { start with
          cache := c, pc := if ret ≠ 0 then .returned (-1) else .loop 0 }) = some s' ∧ _
    rw [hinit]
    refine ⟨_, rfl, ⟨by decide, hbalanced, ⟨⟨ht, chains, hbooks⟩, timesInRange_of_nil hbooks hnil,
      hsize, ?_, ?_, ?_⟩, le_refl 1024⟩, rfl⟩
    · intro cid l hl
      rw [hbooks.entry_of_nil hnil] at hl
      cases hl
    · intro j hj
      exact absurd rfl hj
    · intro j l hj
      exact absurd rfl hj
  | loop i =>
    rw [hpc] at h
    obtain ⟨hi, h⟩ := h
    -- the index that is drawn is one of a record
    have hidx : (getRandomValue d.idx 0 127).toNat < cacheUnitTestBins := by
      have hle := (@getRandomValue_mem d.idx 0 127 (by decide)).2
      exact Nat.lt_succ_of_le (UInt32.le_iff_toNat_le.mp hle)
    unfold iterate
    dsimp only
    rw [dif_pos hidx]
    split_ifs with hused
    · exact .inr (.inr (lookUp_next h hi hused hclock))
    · rcases create_next h hi hclock with hno | hnext
      · exact .inl hno
      · exact .inr (.inr hnext)
  | close =>
    rw [hpc] at h
    right; right
    obtain ⟨ht, chains, hbooks⟩ := h.agrees.books
    obtain ⟨c', hclose, hinit, -⟩ := closeCmpsc311Cache_books hbooks
    have hperform : s.cache.perform .close = some (.code 0, c') := by
      unfold Cache.perform
      dsimp only
      rw [hclose]
      rfl
    have hbalanced : CacheCustody.Balanced ⟨c', s.taken, s.freed⟩ := by
      simpa [CacheOp.takes, CacheOp.givesBack] using h.balanced.perform hperform
    rw [hclose]
    exact ⟨_, rfl, ⟨rfl, hinit, hbalanced⟩, rfl⟩

/-- **Step lemma.**  The invariant is kept, and the steps made and those left stay the same in
    sum. -/
theorem inv_step : cacheUnitTest.Inductive fun n s =>
    s.Inv ∧ n + s.stepsLeft = cacheUnitTestIterations + 2 := by
  rintro n s d s' ⟨h, hleft⟩ hact
  unfold cacheUnitTest at hact
  dsimp only at hact
  split_ifs at hact with hclock
  rcases step_next h hclock with ⟨-, hnone⟩ | ⟨-, hnone⟩ | ⟨s'', hstep, h', hless⟩
  · rw [hnone] at hact
    cases hact
  · rw [hnone] at hact
    cases hact
  · obtain rfl := Option.some.inj (hstep.symm.trans hact)
    exact ⟨h', by omega⟩

/-- What has not been freed is in the cache. -/
theorem Inv.balance (h : s.Inv) : CacheCustody.Balanced ⟨s.cache, s.taken, s.freed⟩ := by
  unfold Inv at h
  split at h
  · subst h
    exact inv_start
  · exact h.2.balanced
  · exact h.balanced
  · exact h.2.2

/-- The system calls may always return something: there is always a buffer that is not allocated,
    and room for a line. -/
theorem exists_allows (s : CacheUnitTest) : ∃ d, s.Allows d := by
  have hclock : Timeval.InRange ⟨0, 0⟩ := by decide
  have hbuf : ¬ s.Live (some ((s.taken.filterMap id).sum + 1)) := by
    unfold Live
    have hnew : some ((s.taken.filterMap id).sum + 1) ∉ s.taken := by
      intro hmem
      have hsum := List.mem_filterMap.mpr ⟨_, hmem, Eq.refl (id _)⟩
      exact sum_succ_not_mem _ hsum
    rw [List.count_eq_zero.mpr hnew]
    exact Nat.not_lt_zero _
  cases hloop : s.cache.putLoop (getRandomValue 0 1 1024) s.cache.fuel with
  | error fault =>
    refine ⟨⟨0, 0, 0, ⟨0, 0⟩, _, 0, 0⟩, hclock, hbuf, ?_⟩
    unfold Cache.MallocReturns
    rw [hloop]
  | ok out =>
    obtain ⟨room, c⟩ := out
    obtain ⟨line, entry, hfree⟩ := exists_free c
    refine ⟨⟨0, 0, 0, ⟨0, 0⟩, _, line, entry⟩, hclock, hbuf, ?_⟩
    unfold Cache.MallocReturns
    rw [hloop]
    exact decide_eq_true hfree

/-- Until it has returned, the test goes on with whatever the system calls may return. -/
theorem Inv.goes_on (h : s.Inv) {d : CacheTestDraw} (hd : s.Allows d)
    (hret : ∀ ret, s.pc ≠ .returned ret) : (cacheUnitTest.act s d).isSome := by
  unfold cacheUnitTest
  dsimp only
  rw [if_pos hd.clock]
  rcases step_next h hd.clock with ⟨hno, -⟩ | ⟨hpc, -⟩ | ⟨t, hstep, -⟩
  · exact absurd hd hno
  · exact absurd hpc (hret 0)
  · rw [hstep]
    rfl

/-- No buffer has been freed more often than it has been allocated. -/
theorem Inv.allFreed_le (h : s.Inv) (b : BufPtr) : s.allFreed.count b ≤ s.taken.count b := by
  have hcount := h.balance.balance.count_eq b
  unfold Cache.custody at hcount
  rw [← List.append_assoc, List.count_append] at hcount
  exact (Nat.le_add_right _ _).trans hcount.ge

/-- A test that has returned has passed, and has freed all buffers. -/
theorem Inv.of_returned (h : s.Inv) {ret : ℤ} (hpc : s.pc = .returned ret) :
    ret = 0 ∧ s.allFreed.Perm s.taken := by
  have hbalance := h.balance.balance
  have hkept := h.balance.kept
  unfold Inv at h
  rw [hpc] at h
  obtain ⟨hzero, hclosed, -⟩ := h
  -- a closed cache has no buffers
  have hnil : s.cache.buffers = [] := by
    rcases hkept with ⟨ht, chains, hbooks⟩ | hc
    · exact absurd (hclosed.symm.trans hbooks.initialized) (by decide)
    · exact hc.buffers_eq
  unfold Cache.custody at hbalance
  rw [hnil, List.append_nil] at hbalance
  exact ⟨hzero, hbalance.symm⟩

end CacheUnitTest

/-- **The test of the cache passes.**  Whatever it draws, whatever the clock says and wherever the
    buffers lie: at no point has a buffer been freed more often than it has been allocated; the
    test goes on as long as it has not returned, and can always be brought to its end, which comes
    after 50002 steps; it returns 0, and has then freed every buffer. -/
theorem cacheUnitTest_passes {draws : List CacheTestDraw} {s : CacheUnitTest}
    (hrun : cacheUnitTest.run draws .start = some s) :
    (∀ b, s.allFreed.count b ≤ s.taken.count b) ∧
    (∀ ret, s.pc = .returned ret → ret = 0 ∧ draws.length = 50002 ∧ s.allFreed.Perm s.taken) ∧
    (∀ d, s.Allows d → (∀ ret, s.pc ≠ .returned ret) → (cacheUnitTest.act s d).isSome) ∧
    ∃ more s', cacheUnitTest.run more s = some s' ∧ s'.pc = .returned 0 := by
  have hstart : CacheUnitTest.start.Inv ∧
      0 + CacheUnitTest.start.stepsLeft = cacheUnitTestIterations + 2 := ⟨rfl, rfl⟩
  obtain ⟨h, hleft⟩ := CacheUnitTest.inv_step.run hstart hrun
  refine ⟨h.allFreed_le, ?_, fun d hd hret => h.goes_on hd hret, ?_⟩
  · intro ret hpc
    obtain ⟨hzero, hperm⟩ := h.of_returned hpc
    refine ⟨hzero, ?_, hperm⟩
    unfold CacheUnitTest.stepsLeft at hleft
    rw [hpc] at hleft
    have hbound : cacheUnitTestIterations = 50000 := rfl
    dsimp only at hleft
    omega
  · -- no run is longer, and a state in which no step is possible is the end
    have hbounded : ∀ more t, cacheUnitTest.run more s = some t →
        more.length ≤ cacheUnitTestIterations + 2 := by
      intro more t hmore
      have hall := (CacheUnitTest.inv_step.run ⟨h, hleft⟩ hmore).2
      omega
    obtain ⟨t, ⟨more, hmore⟩, hstuck⟩ :=
      ActionSystem.exists_stuck_of_bounded hbounded (ActionSystem.Reaches.refl cacheUnitTest s)
    have ht := (CacheUnitTest.inv_step.run ⟨h, hleft⟩ hmore).1
    refine ⟨more, t, hmore, ?_⟩
    by_contra hnot
    obtain ⟨d, hd⟩ := t.exists_allows
    have hsome := ht.goes_on hd fun ret hret => by
      obtain ⟨rfl, -⟩ := ht.of_returned hret
      exact hnot hret
    rw [hstuck d] at hsome
    cases hsome

/-- An item is put and deleted, and `malloc` returns the address of its buffer again. -/
def firstDraws : List CacheTestDraw :=
  [⟨0, 0, 0, ⟨1, 0⟩, 0, 0, 0⟩, ⟨3, 0, 9, ⟨1, 0⟩, 7, 1, 2⟩, ⟨3, 5, 0, ⟨2, 0⟩, 0, 0, 0⟩,
    ⟨4, 0, 99, ⟨3, 0⟩, 7, 1, 2⟩]

/-- The address has been allocated twice and freed once, and the test will be brought to its end. -/
theorem cacheUnitTest_passes_address_reused : ∃ s : CacheUnitTest,
    cacheUnitTest.run firstDraws .start = some s ∧ s.taken = [some 7, some 7] ∧
      s.allFreed = [some 7] ∧ ∃ more s', cacheUnitTest.run more s = some s' ∧
        s'.pc = .returned 0 := by
  have hsome : ((cacheUnitTest.run firstDraws .start).any fun s =>
      decide (s.taken = [some 7, some 7] ∧ s.allFreed = [some 7])) = true := by
    decide +kernel
  obtain ⟨s, hrun, hs⟩ := (Option.any_eq_true _ _).mp hsome
  obtain ⟨htaken, hfreed⟩ := of_decide_eq_true hs
  exact ⟨s, hrun, htaken, hfreed, (cacheUnitTest_passes hrun).2.2.2⟩

end NetworkExperiment
