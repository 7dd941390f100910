import NetworkExperiment.Cache.Calls

namespace NetworkExperiment

open ActionSystems

/-!
# The life of the cache

All sequences of calls from the start of the program, under any readings of the clock:

* `CacheOp` / `cacheLife` — the calls, and the runs they make;
* `after_cases` — what a `put`, a `get` or a `delete` can do to an initialised cache;
* `Cache.Kept` / `kept_step` — the books agree, or the cache is not initialised and all its data is
  zero;
* `after_fault` — what ends a run early;
* `cache_bookkeeping` — the bookkeeping, in every state that the calls reach.
-/

/-! ### Runs -/

/-- A call on the cache, from its initialisation to its end. -/
inductive CacheOp
  | init (maxItems maxSize : UInt32)
  | call (call : CacheCall)
  | close

/-- The cache after a `put`, a `get` or a `delete`; `malloc` returns no address in use. -/
def Cache.after (c : Cache) : CacheCall → Option Cache
  | .put line entry now cid buf len =>
      if c.MallocReturns len line entry then
        (putCmpsc311Cache c line entry now cid buf len).toOption.map Prod.snd
      else none
  | .get now cid => (getCmpsc311Cache c now cid).toOption.map Prod.snd
  | .delete cid => (deleteCmpsc311Cache c cid).toOption.map Prod.snd

/-- The runs of the cache; a fault ends the run. -/
def cacheLife : ActionSystem Cache CacheOp where
  act c
    | .init maxItems maxSize => (initCmpsc311Cache c maxItems maxSize).toOption.map Prod.snd
    | .call call => c.after call
    | .close => (closeCmpsc311Cache c).toOption.map Prod.snd

variable {c c' : Cache} {ht : HTable Addr} {chains : List (List (Stored Addr))}

/-! ### What a call can do -/

/-- A `put` leads from `c` to `c'`: it makes room, and stores a line. -/
structure Cache.PutsLine (c : Cache) (now : Timeval) (cid : CacheID) (buf : BufPtr) (len : UInt32)
    (c₁ c' : Cache) : Prop where
  accepts : c.Accepts buf len
  makesRoom : c.MakesRoom len c.fuel c₁
  /-- The identifier is not in the cache when the line is stored. -/
  absent : c₁.entry cid = none
  stored : ∃ line entry ht₁ chains₁ ht', c₁.Books ht₁ chains₁ ∧ line ∉ c₁.lines ∧
    ht'.Holds (insertChains ⟨entry, cacheIndex cid, line⟩ chains₁) ∧
    c' = c₁.withLine ht' line ⟨cid, len, buf, now⟩

/-- What a call does to an initialised cache: nothing, or it uses a line, or it takes one out, or it
    stores one. -/
theorem after_cases (h : c.Books ht chains) {call : CacheCall} (hafter : c.after call = some c') :
    c' = c ∨
      (∃ now cid, call = .get now cid ∧ ∃ e ∈ chains.flatten, ∃ l, IsEntry c e l ∧ l.cid = cid ∧
        c' = c.renewed e l now) ∨
      (∃ cid, call = .delete cid ∧ ∃ e ∈ chains.flatten, ∃ l ht', IsEntry c e l ∧ l.cid = cid ∧
        ht'.Holds (deleteChains e.index chains) ∧ c' = c.without ht' e l c.freed) ∨
      ∃ line entry now cid buf len c₁, call = .put line entry now cid buf len ∧
        c.PutsLine now cid buf len c₁ c' := by
  cases call with
  | put line entry now cid buf len =>
    unfold Cache.after at hafter
    dsimp only at hafter
    split_ifs at hafter with hmalloc
    by_cases haccepts : c.Accepts buf len
    · rcases putCmpsc311Cache_books h haccepts hmalloc now cid with
        ⟨-, hput⟩ | ⟨c₁, ht₁, chains₁, hmakes, h₁, hline, ⟨-, hput⟩ | ⟨habsent, ht', hholds, hput⟩⟩
      · rw [hput] at hafter
        exact absurd hafter (by simp [Except.toOption])
      · rw [hput] at hafter
        exact absurd hafter (by simp [Except.toOption])
      · rw [hput] at hafter
        obtain rfl := Option.some.inj hafter
        exact .inr (.inr (.inr ⟨line, entry, now, cid, buf, len, c₁, rfl, haccepts, hmakes, habsent,
          line, entry, ht₁, chains₁, ht', h₁, hline, hholds, rfl⟩))
    · rw [putCmpsc311Cache_refused haccepts] at hafter
      exact .inl (Option.some.inj hafter).symm
  | get now cid =>
    unfold Cache.after at hafter
    dsimp only at hafter
    rcases getCmpsc311Cache_books h now cid with ⟨-, hget⟩ | ⟨e, he, l, hl, hcid, hget⟩
    · rw [hget] at hafter
      exact .inl (Option.some.inj hafter).symm
    · rw [hget] at hafter
      exact .inr (.inl ⟨now, cid, rfl, e, he, l, hl, hcid, (Option.some.inj hafter).symm⟩)
  | delete cid =>
    unfold Cache.after at hafter
    dsimp only at hafter
    rcases deleteCmpsc311Cache_books h cid with
      ⟨-, hdelete⟩ | ⟨e, he, l, ht', hl, hcid, hholds, hdelete⟩
    · rw [hdelete] at hafter
      exact .inl (Option.some.inj hafter).symm
    · rw [hdelete] at hafter
      exact .inr (.inr (.inl ⟨cid, rfl, e, he, l, ht', hl, hcid, hholds,
        (Option.some.inj hafter).symm⟩))

/-- Where there is room for the items, a stored line keeps the books. -/
theorem Cache.PutsLine.books {now : Timeval} {cid : CacheID} {buf : BufPtr} {len : UInt32}
    {c₁ : Cache} (hputs : c.PutsLine now cid buf len c₁ c') : ∃ ht chains, c'.Books ht chains := by
  obtain ⟨line, entry, ht₁, chains₁, ht', h₁, hline, hholds, rfl⟩ := hputs.stored
  obtain ⟨-, hgood, hle⟩ := hputs.accepts
  have hroom : c₁.currentItems < c₁.maxItems := by
    by_contra hfull
    exact hputs.makesRoom.room (.inl (UInt32.not_lt.mp hfull))
  refine ⟨ht', _, @Cache.Books.add c₁ ht₁ ht' chains₁ ⟨cid, len, buf, now⟩ h₁ entry line hline
    (fun hnull => hgood (.inr hnull)) ?_ ?_ hroom hholds⟩
  · exact UInt32.pos_iff_ne_zero.mpr fun hzero => hgood (.inl hzero)
  · rw [hputs.makesRoom.maxSize]
    exact hle

/-- It leaves the limits, and counts the line: one item more, and its bytes. -/
theorem Cache.PutsLine.counters {now : Timeval} {cid : CacheID} {buf : BufPtr} {len : UInt32}
    {c₁ : Cache} (hputs : c.PutsLine now cid buf len c₁ c') :
    c'.maxItems = c.maxItems ∧ c'.maxSize = c.maxSize ∧ c'.currentItems = c₁.currentItems + 1 ∧
      c'.currentSize = c₁.currentSize + len := by
  obtain ⟨line, entry, ht₁, chains₁, ht', -, -, -, rfl⟩ := hputs.stored
  exact ⟨hputs.makesRoom.maxItems, hputs.makesRoom.maxSize, rfl, rfl⟩

/-- It stores the line for its identifier, and leaves the others that have not been ejected. -/
theorem Cache.PutsLine.entry {now : Timeval} {cid : CacheID} {buf : BufPtr} {len : UInt32}
    {c₁ : Cache} (hputs : c.PutsLine now cid buf len c₁ c') :
    c'.entry = Function.update c₁.entry cid (some ⟨cid, len, buf, now⟩) := by
  obtain ⟨line, entry, ht₁, chains₁, ht', h₁, hline, hholds, rfl⟩ := hputs.stored
  exact @Cache.Books.entry_withLine c₁ ht₁ ht' chains₁ ⟨cid, len, buf, now⟩ h₁ entry line hline
    (h₁.entry_eq_none.mp hputs.absent) hholds

/-- The books agree after a call, if they have agreed before it. -/
theorem after_books (h : c.Books ht chains) {call : CacheCall} (hafter : c.after call = some c') :
    ∃ ht' chains', c'.Books ht' chains' := by
  rcases after_cases h hafter with
    rfl | ⟨now, cid, -, e, he, l, hl, -, rfl⟩ |
      ⟨cid, -, e, he, l, ht', hl, -, hholds, rfl⟩ | ⟨-, -, now, cid, buf, len, c₁, -, hputs⟩
  · exact ⟨ht, chains, h⟩
  · exact ⟨ht, chains, h.renew he hl now⟩
  · exact ⟨ht', _, h.remove he hl hholds _⟩
  · exact hputs.books

/-! ### The invariant of a life -/

/-- The cache is not initialised, and its data is zero, as at the start of the program and behind
    `close`. -/
structure Cache.Closed (c : Cache) : Prop where
  initialized : c.initialized = false
  maxItems : c.maxItems = 0
  maxSize : c.maxSize = 0
  currentItems : c.currentItems = 0
  currentSize : c.currentSize = 0
  htable : c.htable = none

/-- The invariant of the cache between two calls. -/
def Cache.Kept (c : Cache) : Prop := (∃ ht chains, c.Books ht chains) ∨ c.Closed

/-- Without initialisation, `put`, `get` and `delete` do nothing. -/
theorem after_closed (h : c.Closed) {call : CacheCall} (hafter : c.after call = some c') :
    c' = c := by
  cases call with
  | put line entry now cid buf len =>
    unfold Cache.after at hafter
    dsimp only at hafter
    split_ifs at hafter with hmalloc
    -- the first of the checks refuses the item
    have hrefused : ¬ c.Accepts buf len := by
      intro haccepts
      exact absurd (h.initialized.symm.trans haccepts.1) (by decide)
    rw [putCmpsc311Cache_refused hrefused] at hafter
    exact (Option.some.inj hafter).symm
  | get now cid =>
    unfold Cache.after getCmpsc311Cache at hafter
    dsimp only at hafter
    rw [h.initialized] at hafter
    exact (Option.some.inj hafter).symm
  | delete cid =>
    unfold Cache.after deleteCmpsc311Cache at hafter
    dsimp only at hafter
    rw [h.initialized] at hafter
    exact (Option.some.inj hafter).symm

/-- What a step of a life does: nothing, or it initialises the cache, or it is a call on an
    initialised cache, or it closes the cache. -/
theorem life_cases {op : CacheOp} (h : c.Kept) (hstep : cacheLife.act c op = some c') :
    c' = c ∨
      (∃ maxItems maxSize, op = .init maxItems maxSize ∧ c'.maxItems = maxItems ∧
        c'.maxSize = maxSize ∧ c'.stored = [] ∧ ∃ ht chains, c'.Books ht chains) ∨
      (∃ call ht chains, op = .call call ∧ c.Books ht chains ∧ c.after call = some c') ∨
      c'.Closed := by
  cases op with
  | init maxItems maxSize =>
    simp only [cacheLife] at hstep
    rcases h with ⟨ht, chains, h⟩ | h
    · -- a cache that is initialised already stays as it is
      unfold initCmpsc311Cache at hstep
      rw [h.initialized] at hstep
      exact .inl (Option.some.inj hstep).symm
    · rcases initCmpsc311Cache_books h.initialized maxItems maxSize with
        ⟨-, hinit⟩ | ⟨c₁, hinit, hnew⟩
      · rw [hinit] at hstep
        exact .inl (Option.some.inj hstep).symm
      · rw [hinit] at hstep
        obtain rfl : c₁ = c' := Option.some.inj hstep
        exact .inr (.inl ⟨maxItems, maxSize, rfl, hnew⟩)
  | call call =>
    rcases h with ⟨ht, chains, h⟩ | h
    · exact .inr (.inr (.inl ⟨call, ht, chains, rfl, h, hstep⟩))
    · exact .inl (after_closed h hstep)
  | close =>
    simp only [cacheLife] at hstep
    rcases h with ⟨ht, chains, h⟩ | h
    · obtain ⟨c₁, hclose, hinit, hitems, hsize, hcount, hbytes, htable⟩ :=
        closeCmpsc311Cache_books h
      rw [hclose] at hstep
      obtain rfl : c₁ = c' := Option.some.inj hstep
      exact .inr (.inr (.inr ⟨hinit, hitems, hsize, hcount, hbytes, htable⟩))
    · unfold closeCmpsc311Cache at hstep
      rw [h.initialized] at hstep
      exact .inl (Option.some.inj hstep).symm

/-- The step of a life keeps the invariant: `init` opens the books, the calls keep them, and
    `close` closes them. -/
theorem Cache.kept_step {op : CacheOp} (h : c.Kept) (hstep : cacheLife.act c op = some c') :
    c'.Kept := by
  rcases life_cases h hstep with
    rfl | ⟨-, -, -, -, -, -, hbooks⟩ | ⟨call, ht, chains, -, hc, hafter⟩ | hclosed
  · exact h
  · exact .inl hbooks
  · exact .inl (after_books hc hafter)
  · exact .inr hclosed

/-- **The invariant of a life.** -/
theorem Cache.kept_of_run {ops : List CacheOp} (hrun : cacheLife.run ops .initial = some c) :
    c.Kept :=
  ActionSystem.Invariant.run (fun _ _ _ h hstep => Cache.kept_step h hstep)
    (.inr ⟨rfl, rfl, rfl, rfl, rfl, rfl⟩) hrun

/-- An initialised cache of a life keeps its books, since a closed one is not initialised. -/
theorem Cache.books_of_run {ops : List CacheOp} (hrun : cacheLife.run ops .initial = some c)
    (hinit : c.initialized = true) : ∃ ht chains, c.Books ht chains := by
  rcases Cache.kept_of_run hrun with h | h
  · exact h
  · exact absurd (h.initialized.symm.trans hinit) (by decide)

/-! ### The bookkeeping -/

/-- The bookkeeping of the cache. -/
structure Cache.Bookkeeping (c : Cache) : Prop where
  /-- An initialised cache counts its lines, adds up their sizes, and stores proper lines. -/
  initialized : c.initialized = true → ∃ ht, c.htable = some ht ∧
    c.currentItems.toNat = ht.entries.length ∧ c.currentItems = ht.elements ∧
    0 ≤ c.currentItems ∧ c.currentItems ≤ c.maxItems ∧
    c.currentSize.toNat = c.storedBytes % 2 ^ 32 ∧
    ∀ p ∈ c.stored, ∃ l, p.2 = some l ∧ l.buf ≠ none ∧ 1 ≤ l.size ∧ l.size ≤ c.maxSize ∧
      cacheIndex l.cid = p.1
  /-- The data of any other cache is zero. -/
  closed : c.initialized = false → c.maxItems = 0 ∧ c.maxSize = 0 ∧ c.currentItems = 0 ∧
    c.currentSize = 0 ∧ c.htable = none

/-- Books that agree are the bookkeeping. -/
theorem Cache.Books.bookkeeping (h : c.Books ht chains) : c.Bookkeeping := by
  constructor
  case closed =>
    intro hclosed
    exact absurd (h.initialized.symm.trans hclosed) (by decide)
  case initialized =>
    intro _
    have hlen := congrArg List.length (entries_eq h.holds)
    rw [List.length_map, List.length_map] at hlen
    refine ⟨ht, h.table, by rw [hlen, h.items], h.elements_eq.symm, UInt32.zero_le, h.within,
      h.bytes, ?_⟩
    intro p hp
    obtain ⟨e, -, l, rfl, hl⟩ := h.stored_line hp
    have hpos : 1 ≤ l.size :=
      UInt32.le_iff_toNat_le.mpr (UInt32.lt_iff_toNat_lt.mp hl.size_pos)
    exact ⟨l, rfl, hl.buf, hpos, hl.size_le, hl.index⟩

/-- A call on an initialised cache goes wrong in a `put` only: by the assertion of the hash table,
    where the identifier is still in the cache once there is room, or where the times of two lines
    are too far apart. -/
theorem after_fault (h : c.Books ht chains) {call : CacheCall} (hafter : c.after call = none) :
    ∃ line entry now cid buf len, call = .put line entry now cid buf len ∧
      (¬ c.MallocReturns len line entry ∨ c.TimesOverflow ∨
        ∃ c₁, c.MakesRoom len c.fuel c₁ ∧ c₁.entry cid ≠ none) := by
  cases call with
  | put line entry now cid buf len =>
    refine ⟨line, entry, now, cid, buf, len, rfl, ?_⟩
    unfold Cache.after at hafter
    dsimp only at hafter
    split_ifs at hafter with hmalloc
    · right
      by_cases haccepts : c.Accepts buf len
      · rcases putCmpsc311Cache_books h haccepts hmalloc now cid with
          ⟨hover, -⟩ | ⟨c₁, ht₁, chains₁, hmakes, -, -, ⟨hpresent, -⟩ | ⟨-, ht', -, hput⟩⟩
        · exact .inl hover
        · -- the assertion of the hash table
          exact .inr ⟨c₁, hmakes, hpresent⟩
        · rw [hput] at hafter
          exact absurd hafter (by simp [Except.toOption])
      · rw [putCmpsc311Cache_refused haccepts] at hafter
        exact absurd hafter (by simp [Except.toOption])
    · exact .inl hmalloc
  | get now cid =>
    unfold Cache.after at hafter
    dsimp only at hafter
    rcases getCmpsc311Cache_books h now cid with ⟨-, hget⟩ | ⟨e, -, l, -, -, hget⟩
    · rw [hget] at hafter
      exact absurd hafter (by simp [Except.toOption])
    · rw [hget] at hafter
      exact absurd hafter (by simp [Except.toOption])
  | delete cid =>
    unfold Cache.after at hafter
    dsimp only at hafter
    rcases deleteCmpsc311Cache_books h cid with ⟨-, hdelete⟩ | ⟨e, -, l, ht', -, -, -, hdelete⟩
    · rw [hdelete] at hafter
      exact absurd hafter (by simp [Except.toOption])
    · rw [hdelete] at hafter
      exact absurd hafter (by simp [Except.toOption])

/-- **Bookkeeping.**  In every state that calls of `init`, `put`, `get`, `delete` and `close` reach
    from the start of the program, the counters of the cache agree with what its table stores.  A
    run ends early in a `put` only: where `malloc` could not return these addresses, where two times
    are too far apart, or by the assertion of the hash table. -/
theorem cache_bookkeeping (ops : List CacheOp) (hrun : cacheLife.run ops .initial = some c) :
    c.Bookkeeping ∧
    (c.initialized = true → ∀ call, c.after call = none →
      ∃ line entry now cid buf len, call = .put line entry now cid buf len ∧
        (¬ c.MallocReturns len line entry ∨ c.TimesOverflow ∨
          ∃ c₁, c.MakesRoom len c.fuel c₁ ∧ c₁.entry cid ≠ none)) := by
  rcases Cache.kept_of_run hrun with ⟨ht, chains, h⟩ | h
  · exact ⟨h.bookkeeping, fun _ _ hafter => after_fault h hafter⟩
  · refine ⟨?_, fun hinit => absurd (h.initialized.symm.trans hinit) (by decide)⟩
    constructor
    case initialized =>
      intro hinit
      exact absurd (h.initialized.symm.trans hinit) (by decide)
    case closed =>
      intro _
      exact ⟨h.maxItems, h.maxSize, h.currentItems, h.currentSize, h.htable⟩

/-- Three items for a cache that holds two, then a `get`, a `delete`, and the end. -/
def cacheLifeCalls : List CacheOp :=
  [.init 2 100, .call (.put 1 2 ⟨1, 0⟩ 1 (some 7) 10), .call (.put 3 4 ⟨2, 0⟩ 257 (some 8) 20),
    .call (.put 5 6 ⟨3, 0⟩ 2 (some 9) 30), .call (.get ⟨4, 0⟩ 1), .call (.delete 2)]

/-- The bookkeeping after an ejection, a `get` and a `delete`. -/
theorem cache_bookkeeping_calls : ∃ c, cacheLife.run cacheLifeCalls .initial = some c ∧
    c.initialized = true ∧ c.Bookkeeping := by
  have hsome : ((cacheLife.run cacheLifeCalls .initial).any fun c => c.initialized) = true := by
    decide +kernel
  obtain ⟨c, hrun, hinit⟩ := (Option.any_eq_true _ _).mp hsome
  exact ⟨c, hrun, hinit, (cache_bookkeeping cacheLifeCalls hrun).1⟩

/-! ### Readings of the clock -/

/-- The reading of the clock during a call is in range. -/
def CacheOp.ReadingInRange : CacheOp → Prop
  | .call (.put _ _ now _ _ _) => now.InRange
  | .call (.get now _) => now.InRange
  | _ => True

/-- What remains of times in range, with one more, is in range. -/
theorem timesInRange_update (cid : CacheID) {l : Cmpsc311CacheEntry} (hl : l.lastUsed.InRange)
    (hsub : ∀ cid' l', cid' ≠ cid → c'.entry cid' = some l' → c.entry cid' = some l')
    (hself : ∀ l', c'.entry cid = some l' → l' = l) (h : c.TimesInRange) : c'.TimesInRange := by
  intro cid' l' hl'
  by_cases hcid : cid' = cid
  · subst hcid
    rw [hself l' hl']
    exact hl
  · exact h cid' l' (hsub cid' l' hcid hl')

/-- A `put` stores the reading of the clock. -/
theorem Cache.PutsLine.timesInRange {now : Timeval} {cid : CacheID} {buf : BufPtr} {len : UInt32}
    {c₁ : Cache} (hputs : c.PutsLine now cid buf len c₁ c') (hnow : now.InRange)
    (h : c.TimesInRange) : c'.TimesInRange := by
  apply @timesInRange_update c c' cid ⟨cid, len, buf, now⟩ hnow ?_ ?_ h
  · -- a line of another identifier was there before the ejections
    intro cid' l' hne hl'
    rw [hputs.entry, Function.update_of_ne hne, hputs.makesRoom.entry] at hl'
    dsimp only at hl'
    split_ifs at hl'
    exact hl'
  · intro l' hl'
    rw [hputs.entry, Function.update_self] at hl'
    exact (Option.some.inj hl').symm

/-- Without a line, the times are still in range. -/
theorem Cache.Books.timesInRange_without (h : c.Books ht chains) (htimes : c.TimesInRange)
    {e : Stored Addr} (he : e ∈ chains.flatten) {l : Cmpsc311CacheEntry} (hl : IsEntry c e l)
    {ht' : HTable Addr} (hholds : ht'.Holds (deleteChains e.index chains)) (freed : List BufPtr) :
    (c.without ht' e l freed).TimesInRange := by
  intro cid' l' hl'
  exact htimes cid' l' (h.entry_of_without he hl hholds freed hl')

/-- A cache without lines has no times, so all of them are in range. -/
theorem timesInRange_of_nil (h : c.Books ht chains) (hnil : c.stored = []) : c.TimesInRange := by
  intro cid l hl
  rw [h.entry_of_nil hnil] at hl
  exact absurd hl (by simp)

/-- Readings in range leave the times in range. -/
theorem timesInRange_step :
    cacheLife.InvariantOn (fun _ op => op.ReadingInRange)
      (fun c => c.Kept ∧ c.TimesInRange) := by
  rintro c op c' ⟨hkept, htimes⟩ hreading hstep
  refine ⟨Cache.kept_step hkept hstep, ?_⟩
  rcases life_cases hkept hstep with
    rfl | ⟨items, size, -, -, -, hnil, ht, chains, hbooks⟩ |
      ⟨call, ht, chains, rfl, h, hafter⟩ | hclosed
  · exact htimes
  · exact timesInRange_of_nil hbooks hnil
  · rcases after_cases h hafter with
      rfl | ⟨now, cid, rfl, e, he, l, hl, -, rfl⟩ |
        ⟨cid, -, e, he, l, ht', hl, -, hholds, rfl⟩ | ⟨_, _, now, cid, buf, len, c₁, rfl, hputs⟩
    · exact htimes
    · apply @timesInRange_update c _ l.cid { l with lastUsed := now } hreading ?_ ?_ htimes
      · intro cid' l' hne hl'
        rwa [h.entry_renewed he hl now, Function.update_of_ne hne] at hl'
      · intro l' hl'
        rw [h.entry_renewed he hl now, Function.update_self] at hl'
        exact (Option.some.inj hl').symm
    · exact h.timesInRange_without htimes he hl hholds c.freed
    · exact hputs.timesInRange hreading htimes
  · -- a closed cache has no table
    intro cid l hl
    unfold Cache.entry at hl
    rw [hclosed.htable] at hl
    exact absurd hl (by simp)

/-- Where all readings of a run are in range, the times of the lines are. -/
theorem timesInRange_of_run {ops : List CacheOp} (hin : ∀ op ∈ ops, op.ReadingInRange)
    (hrun : cacheLife.run ops .initial = some c) : c.TimesInRange := by
  have hstart : Cache.initial.Kept ∧ Cache.initial.TimesInRange := by
    refine ⟨.inr ⟨rfl, rfl, rfl, rfl, rfl, rfl⟩, ?_⟩
    intro cid l hl
    exact absurd hl (by simp [Cache.entry, Cache.initial])
  exact (timesInRange_step.run hstart (cacheLife.stepsMeet_of_forall hin _) hrun).2

end NetworkExperiment
