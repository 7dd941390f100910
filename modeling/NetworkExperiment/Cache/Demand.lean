import NetworkExperiment.Lib.StackAlgorithm
import NetworkExperiment.Cache.Capacity
import NetworkExperiment.Cache.Reput

namespace NetworkExperiment

open ActionSystems StackAlgorithms

/-!
# A cache that is filled on demand

The cache as it is meant to be used, with items of one length: an item is looked up, and put where
the cache does not have it.  It is then a cache of a fixed number of slots.

* `CacheRequest` / `DemandCache` — the requests of a user, and the cache with the last reading of
  the clock and the number of hits;
* `demandCache` — the runs, under a clock that goes on from one request to the next;
* `Cache.held` — the identifiers that the cache holds;
* `DemandCache.Inv` / `refer_serves` — the invariant, and what a request does to what is held: the
  item takes a free slot, or that of the line that was used last.
-/

/-! ### Runs -/

/-- A request of a user: an item is looked up, and put where it is not there; or it is deleted. -/
inductive CacheRequest
  | refer (cid : CacheID)
  | delete (cid : CacheID)
  deriving DecidableEq

/-- What `gettimeofday` returns in `get` and in `put`, what `malloc` returns in `put`, and the
    buffer of the item. -/
structure Demand where
  getAt : Timeval
  putAt : Timeval
  line : Addr
  entry : Addr
  buf : ℕ

/-- A cache in use, with the last reading of the clock and the number of items found.  The source
    keeps neither: they are what is said about a run of requests. -/
structure DemandCache where
  cache : Cache
  clock : ℤ
  hits : ℕ

/-- The clock has gone on since the last request: it shows a later microsecond in `get`, and no
    earlier one in the `put` of the same request. -/
def DemandCache.ClockAllows (s : DemandCache) (d : Demand) : Prop :=
  d.getAt.InRange ∧ d.putAt.InRange ∧ s.clock < d.getAt.micros ∧ d.getAt.micros ≤ d.putAt.micros

instance (s : DemandCache) (d : Demand) : Decidable (s.ClockAllows d) :=
  inferInstanceAs (Decidable (_ ∧ _))

/-- A user looks an item up, and puts it where it is not there.  There is no next state where one
    of the calls goes wrong, or `malloc` cannot have returned these addresses. -/
def DemandCache.refer (len : UInt32) (s : DemandCache) (cid : CacheID) (d : Demand) :
    Option DemandCache :=
  match getCmpsc311Cache s.cache d.getAt cid with
  | .error _ => none
  | .ok (some _, c) => some ⟨c, d.getAt.micros, s.hits + 1⟩
  | .ok (none, c) =>
      if c.MallocReturns len d.line d.entry then
        match putCmpsc311Cache c d.line d.entry d.putAt cid (some d.buf) len with
        | .error _ => none
        | .ok (_, c) => some ⟨c, d.putAt.micros, s.hits⟩
      else none

/-- A user deletes an item. -/
def DemandCache.delete (s : DemandCache) (cid : CacheID) : Option DemandCache :=
  match deleteCmpsc311Cache s.cache cid with
  | .error _ => none
  | .ok (_, c) => some { s with cache := c }

/-- The runs of a cache whose items all have `len` bytes. -/
def demandCache (len : UInt32) : ActionSystem DemandCache (CacheRequest × Demand) where
  act s
    | (.refer cid, d) => if s.ClockAllows d then s.refer len cid d else none
    | (.delete cid, _) => s.delete cid

/-! ### What is held -/

/-- The identifiers of the stored lines: the abstract state, as a user sees it. -/
def Cache.held (c : Cache) : Finset CacheID := (c.storedLines.map (·.cid)).toFinset

/-- When an identifier was used last, in microseconds; 0 where it has no line. -/
def Cache.usedAt (c : Cache) (cid : CacheID) : ℤ :=
  ((c.entry cid).map (·.lastUsed.micros)).getD 0

variable {c c' : Cache} {ht ht' : HTable Addr} {chains : List (List (Stored Addr))}
  {e : Stored Addr} {l : Cmpsc311CacheEntry} {cid : CacheID} {len : UInt32}

/-- What is held is what has a line. -/
theorem Cache.Books.mem_held (h : c.Books ht chains) : cid ∈ c.held ↔ c.entry cid ≠ none := by
  unfold Cache.held
  rw [List.mem_toFinset, List.mem_map]
  constructor
  · rintro ⟨l, hl, rfl⟩
    obtain ⟨e, he, hle⟩ := h.mem_storedLines.mp hl
    rw [h.entry_of_isEntry he hle]
    exact Option.some_ne_none l
  · intro hne
    obtain ⟨l, hl⟩ := Option.ne_none_iff_exists'.mp hne
    exact ⟨l, h.mem_storedLines_of_entry hl⟩

theorem Cache.Books.mem_held_of_entry (h : c.Books ht chains) (hl : c.entry cid = some l) :
    cid ∈ c.held :=
  h.mem_held.mpr (by rw [hl]; exact Option.some_ne_none l)

theorem usedAt_eq (hl : c.entry cid = some l) : c.usedAt cid = l.lastUsed.micros := by
  unfold Cache.usedAt
  rw [hl]
  rfl

/-- The stored lines have different identifiers, and are as many as the items.  Both come from the
    listing of the table, whose indices are made of the identifiers. -/
theorem Cache.Books.nodup_cids (h : c.Books ht chains) :
    (c.storedLines.map (·.cid)).Nodup ∧ c.storedLines.length = c.currentItems.toNat := by
  -- line by line, the index that the table lists is that of the identifier
  have hsome := congrArg
    (List.map fun o : Option Cmpsc311CacheEntry => (o.map (cacheIndex ·.cid)).getD 0)
    h.map_some_storedLines
  rw [stored_eq h.table h.holds, List.map_map, List.map_map, List.map_map] at hsome
  have hindex : (c.storedLines.map (·.cid)).map cacheIndex = chains.flatten.map (·.index) := by
    rw [List.map_map]
    refine hsome.trans (List.map_congr_left fun e he => ?_)
    obtain ⟨l, hl⟩ := h.lines e he
    simp only [Function.comp, hl.lookup, Option.map_some, Option.getD_some, hl.index]
  -- the table lists no index twice
  have hnodup := h.holds.listing.nodup
  rw [List.map_map] at hnodup
  constructor
  · apply List.Nodup.of_map cacheIndex
    rw [hindex]
    exact hnodup
  · have hlength := congrArg List.length hindex
    rw [List.length_map, List.length_map, List.length_map] at hlength
    rw [hlength, h.items]

/-- There are as many identifiers as items. -/
theorem Cache.Books.card_held (h : c.Books ht chains) : c.held.card = c.currentItems.toNat := by
  obtain ⟨hcids, hlength⟩ := h.nodup_cids
  unfold Cache.held
  rw [List.toFinset_card_of_nodup hcids, List.length_map, hlength]

/-! ### The invariant -/

/-- How many items of `len` bytes there is room for: the lesser of the limit on items and of how
    often `len` goes into the limit on bytes. -/
def Cache.slots (len : UInt32) (c : Cache) : ℕ :=
  min c.maxItems.toNat (c.maxSize.toNat / len.toNat)

/-- The lengths that fill the cache evenly: an item fits, and one more than fit does not wrap. -/
def Cache.Suits (len : UInt32) (c : Cache) : Prop :=
  0 < len ∧ len ≤ c.maxSize ∧ c.maxSize.toNat + len.toNat < 2 ^ 32

/-- The invariant of a cache that is filled on demand. -/
structure DemandCache.Inv (len : UInt32) (s : DemandCache) : Prop where
  books : ∃ ht chains, s.cache.Books ht chains
  suits : s.cache.Suits len
  uniform : ∀ cid l, s.cache.entry cid = some l → l.size = len
  times : s.cache.TimesInRange
  /-- No line has been used later than the clock says, -/
  past : ∀ cid ∈ s.cache.held, s.cache.usedAt cid ≤ s.clock
  /-- and no two at the same time. -/
  distinct : ∀ cid ∈ s.cache.held, ∀ cid' ∈ s.cache.held, cid ≠ cid' →
    s.cache.usedAt cid ≠ s.cache.usedAt cid'
  within : s.cache.held.card ≤ s.cache.slots len

/-- Lines of one length add up to a multiple of it. -/
theorem Cache.Books.storedBytes_uniform (h : c.Books ht chains)
    (huniform : ∀ cid l, c.entry cid = some l → l.size = len) :
    c.storedBytes = len.toNat * c.held.card := by
  unfold Cache.storedBytes
  rw [stored_eq h.table h.holds, List.map_map, h.card_held, h.items]
  -- each summand is `len`, since a listed entry has its line
  have hconst : ∀ e ∈ chains.flatten, ((fun p : HtIndexValue × Option Cmpsc311CacheEntry =>
      (p.2.map (·.size.toNat)).getD 0) ∘ fun e => (e.index, c.lines.lookup e.block)) e
        = len.toNat := by
    intro e he
    obtain ⟨l, hl⟩ := h.lines e he
    simp only [Function.comp, hl.lookup, Option.map_some, Option.getD_some,
      huniform _ _ (h.entry_of_isEntry he hl)]
  rw [List.map_congr_left hconst, List.map_const', List.sum_replicate_nat, Nat.mul_comm]

/-- There is room for an item where a slot is free. -/
theorem Cache.Books.noRoom_iff (h : c.Books ht chains) (hsuits : c.Suits len)
    (huniform : ∀ cid l, c.entry cid = some l → l.size = len)
    (hwithin : c.held.card ≤ c.slots len) : c.NoRoom len ↔ ¬ c.held.card < c.slots len := by
  obtain ⟨hpos, hle, hwrap⟩ := hsuits
  have hpos := UInt32.lt_iff_toNat_lt.mp hpos
  rw [UInt32.toNat_zero] at hpos
  have hbytes := h.bytes
  rw [h.storedBytes_uniform huniform] at hbytes
  -- what is held fits into the limit on bytes
  have hdiv : len.toNat * c.held.card ≤ c.maxSize.toNat := by
    rw [Nat.mul_comm]
    exact (Nat.le_div_iff_mul_le hpos).mp (hwithin.trans (min_le_right _ _))
  -- nothing wraps
  have hsum : (c.currentSize + len).toNat = len.toNat * (c.held.card + 1) := by
    rw [UInt32.toNat_add, hbytes, Nat.mul_succ]
    omega
  have hfree : c.held.card < c.maxSize.toNat / len.toNat ↔
      len.toNat * (c.held.card + 1) ≤ c.maxSize.toNat := by
    rw [← Nat.succ_le_iff, Nat.le_div_iff_mul_le hpos, Nat.mul_comm]
  -- so the test of the loop in `put` compares one more than is held with the slots
  unfold Cache.NoRoom Cache.slots
  rw [ge_iff_le, gt_iff_lt, UInt32.le_iff_toNat_le, UInt32.lt_iff_toNat_lt, hsum, ← h.card_held,
    lt_min_iff, hfree]
  omega

/-! ### Making room -/

/-- A line that is removed is no longer held. -/
theorem Cache.Books.held_without (h : c.Books ht chains) (he : e ∈ chains.flatten)
    (hl : IsEntry c e l) (hholds : ht'.Holds (deleteChains e.index chains))
    (freed : List BufPtr) : (c.without ht' e l freed).held = c.held.erase l.cid := by
  ext cid
  rw [(h.remove he hl hholds freed).mem_held, h.entry_without he hl hholds, Finset.mem_erase,
    h.mem_held]
  by_cases hcid : cid = l.cid
  · simp [hcid]
  · simp [hcid]

/-- The loop of `put` with no more lines than slots: it ejects none where a slot is free, and
    otherwise the one that was used last.  It ejects no second one, as an item takes one slot. -/
theorem DemandCache.Inv.makesRoom {s : DemandCache} (hinv : s.Inv len)
    (h : s.cache.Books ht chains) {c₁ : Cache} (hmakes : s.cache.MakesRoom len s.cache.fuel c₁) :
    (s.cache.held.card < s.cache.slots len ∧ c₁.entry = s.cache.entry) ∨
      ∃ m ∈ s.cache.held, s.cache.held.card = s.cache.slots len ∧
        (∀ y ∈ s.cache.held, y ≠ m → s.cache.usedAt y < s.cache.usedAt m) ∧
        c₁.entry = Function.update s.cache.entry m none := by
  have hnoRoom := h.noRoom_iff hinv.suits hinv.uniform hinv.within
  by_cases hroom : s.cache.NoRoom len
  · right
    -- the loop ejects once, so that call is looked at
    have hfull := hnoRoom.mp hroom
    rcases ejectCmpsc311Cache_books h with
      ⟨hnil, -⟩ | ⟨hover, -⟩ | ⟨e, he, l, ht', hl, hvictim, hholds, heject⟩
    · exact absurd hnil (h.nonempty hinv.suits.2.1 hroom)
    · exact absurd hover hinv.times.not_timesOverflow
    have hentry := h.entry_of_isEntry he hl
    have hheld := h.mem_held_of_entry hentry
    have h' := h.remove he hl hholds (s.cache.freed ++ [l.buf])
    have hwithout := h.entry_without he hl hholds (s.cache.freed ++ [l.buf])
    -- one line less is room enough
    have hroom' : ¬ (s.cache.without ht' e l (s.cache.freed ++ [l.buf])).NoRoom len := by
      have hcard := h.held_without he hl hholds (s.cache.freed ++ [l.buf])
      have hslots : (s.cache.without ht' e l (s.cache.freed ++ [l.buf])).slots len
          = s.cache.slots len := rfl
      have hfewer := Finset.card_erase_of_mem hheld
      have hpos := Finset.card_pos.mpr ⟨_, hheld⟩
      have hwithin := hinv.within
      rw [← hcard] at hfewer
      rw [h'.noRoom_iff hinv.suits ?_ (by omega), not_not]
      · omega
      · intro cid' l' hl'
        exact hinv.uniform cid' l' (h.entry_of_without he hl hholds _ hl')
    obtain ⟨fuel, hfuel⟩ := Nat.exists_eq_succ_of_ne_zero
      (Nat.ne_of_gt (Nat.zero_lt_of_lt h.length_lt_fuel))
    -- the loop then ends with the second test
    have hevicted : s.cache.evicted len (fuel + 1) = _ :=
      (evicted_of_noRoom hroom heject).2 hvictim
    rw [(evicted_of_room hroom').2] at hevicted
    refine ⟨l.cid, hheld, ?_, ?_, ?_⟩
    · have hwithin := hinv.within
      omega
    · intro y hy hne
      -- another identifier has another line, which lost against the victim
      obtain ⟨ly, hly⟩ := Option.ne_none_iff_exists'.mp (h.mem_held.mp hy)
      obtain ⟨hmem, hcid⟩ := h.mem_storedLines_of_entry hly
      obtain ⟨x, hx, hlx⟩ := h.mem_storedLines.mp hmem
      have hxe : x ≠ e := by
        rintro rfl
        rw [Option.some.inj (hlx.lookup.symm.trans hl.lookup)] at hcid
        exact hne hcid.symm
      rw [usedAt_eq hly, usedAt_eq hentry]
      rcases victim_first h hinv.times he hl hvictim hx hlx hxe with hlt | ⟨heq, -⟩
      · exact hlt
      · -- no two lines were used at the same time
        have hdistinct := hinv.distinct y hy l.cid hheld hne
        rw [usedAt_eq hly, usedAt_eq hentry] at hdistinct
        exact absurd heq.symm hdistinct
    · funext cid'
      rw [hmakes.entry, hfuel, hevicted]
      by_cases hcid : cid' = l.cid
      · simp [hcid]
      · simp [hcid]
  · left
    refine ⟨?_, ?_⟩
    · by_contra hfull
      exact hroom (hnoRoom.mpr hfull)
    · rw [hmakes.eq_of_room hroom]

/-! ### What a request does -/

/-- A request for `cid` leads from `s` to `s'`. -/
structure DemandCache.Served (len : UInt32) (cid : CacheID) (s s' : DemandCache) : Prop where
  inv : s'.Inv len
  slots : s'.cache.slots len = s.cache.slots len
  serves : Serves s.cache.usedAt (s.cache.slots len) cid s.cache.held s'.cache.held
  /-- The item has been used last, -/
  now : s.clock < s'.cache.usedAt cid
  /-- and the others have not been used. -/
  others : ∀ y ∈ s'.cache.held, y ≠ cid → s'.cache.usedAt y = s.cache.usedAt y
  hits : s'.hits = s.hits + if cid ∈ s.cache.held then 1 else 0

/-- The contents of a cache that differs in one line: it holds one identifier more, or that one
    instead of the one that was ejected. -/
theorem Cache.Books.held_update (h : c.Books ht chains) {ht' : HTable Addr}
    {chains' : List (List (Stored Addr))} (h' : c'.Books ht' chains')
    {f : CacheID → Option Cmpsc311CacheEntry} (hf : c'.entry = Function.update f cid (some l)) :
    (f = c.entry → c'.held = insert cid c.held) ∧
      ∀ m, f = Function.update c.entry m none → m ≠ cid →
        c'.held = insert cid (c.held.erase m) := by
  constructor
  · rintro rfl
    ext y
    rw [h'.mem_held, hf, Finset.mem_insert, h.mem_held]
    by_cases hy : y = cid
    · simp [hy]
    · simp [hy]
  · rintro m rfl hm
    ext y
    rw [h'.mem_held, hf, Finset.mem_insert, Finset.mem_erase, h.mem_held]
    by_cases hy : y = cid
    · simp [hy]
    · by_cases hym : y = m
      · simp [hym, hm]
      · simp [hy, hym]

/-- A cache that has a new line, or a new time on it, serves the request.  Hit and miss differ in
    how the line came there; that the invariant holds behind it is the same argument. -/
theorem DemandCache.Inv.served {s s' : DemandCache} (hinv : s.Inv len)
    (hbooks : ∃ ht chains, s'.cache.Books ht chains)
    (hitems : s'.cache.maxItems = s.cache.maxItems) (hsize : s'.cache.maxSize = s.cache.maxSize)
    (hl : s'.cache.entry cid = some l) (hlen : l.size = len) (hrange : l.lastUsed.InRange)
    (hnow : s.clock < l.lastUsed.micros) (hclock : s'.clock = l.lastUsed.micros)
    (hothers : ∀ y ≠ cid, ∀ ly, s'.cache.entry y = some ly → s.cache.entry y = some ly)
    (hserves : Serves s.cache.usedAt (s.cache.slots len) cid s.cache.held s'.cache.held)
    (hhits : s'.hits = s.hits + if cid ∈ s.cache.held then 1 else 0) : s.Served len cid s' := by
  obtain ⟨ht, chains, h⟩ := hinv.books
  obtain ⟨ht', chains', h'⟩ := hbooks
  have hslots : s'.cache.slots len = s.cache.slots len := by
    unfold Cache.slots
    rw [hitems, hsize]
  -- the other lines are as they were
  have hused : ∀ y ∈ s'.cache.held, y ≠ cid → y ∈ s.cache.held ∧
      s'.cache.usedAt y = s.cache.usedAt y := by
    intro y hy hne
    obtain ⟨ly, hly⟩ := Option.ne_none_iff_exists'.mp (h'.mem_held.mp hy)
    have hbefore := hothers y hne ly hly
    exact ⟨h.mem_held_of_entry hbefore, by rw [usedAt_eq hly, usedAt_eq hbefore]⟩
  have hself : s'.cache.usedAt cid = l.lastUsed.micros := usedAt_eq hl
  -- whatever has been used before the request has been used before the item
  have hlater : ∀ y ∈ s'.cache.held, y ≠ cid → s'.cache.usedAt y < s'.cache.usedAt cid := by
    intro y hy hne
    obtain ⟨hheld, heq⟩ := hused y hy hne
    have hpast := hinv.past y hheld
    omega
  refine ⟨⟨⟨ht', chains', h'⟩, ?_, ?_, ?_, ?_, ?_, ?_⟩, hslots, hserves, ?_, ?_, hhits⟩
  · unfold Cache.Suits
    rw [hsize]
    exact hinv.suits
  · intro y ly hly
    by_cases hy : y = cid
    · rw [hy, hl] at hly
      rw [← Option.some.inj hly, hlen]
    · exact hinv.uniform y ly (hothers y hy ly hly)
  · intro y ly hly
    by_cases hy : y = cid
    · rw [hy, hl] at hly
      rw [← Option.some.inj hly]
      exact hrange
    · exact hinv.times y ly (hothers y hy ly hly)
  · intro y hy
    rw [hclock, ← hself]
    by_cases hne : y = cid
    · rw [hne]
    · exact le_of_lt (hlater y hy hne)
  · -- two times: that of the item is the latest, and the others were different before
    intro y hy z hz hyz
    by_cases hycid : y = cid
    · subst hycid
      exact (hlater z hz (Ne.symm hyz)).ne'
    · by_cases hzcid : z = cid
      · subst hzcid
        exact (hlater y hy hycid).ne
      · obtain ⟨hyheld, hyeq⟩ := hused y hy hycid
        obtain ⟨hzheld, hzeq⟩ := hused z hz hzcid
        rw [hyeq, hzeq]
        exact hinv.distinct y hyheld z hzheld hyz
  · rw [hslots]
    exact hserves.card_le hinv.within
  · rw [hself]
    exact hnow
  · intro y hy hne
    exact (hused y hy hne).2

/-- An item that is there is found: `get` puts a new time on its line, and nothing is ejected. -/
theorem DemandCache.Inv.served_hit {s : DemandCache} (hinv : s.Inv len) {now : Timeval}
    (hnow : now.InRange) (hclock : s.clock < now.micros) (h : s.cache.Books ht chains)
    (he : e ∈ chains.flatten) (hl : IsEntry s.cache e l) :
    s.Served len l.cid ⟨s.cache.renewed e l now, now.micros, s.hits + 1⟩ := by
  have hentry := h.entry_of_isEntry he hl
  have hhit := h.mem_held_of_entry hentry
  have h' := h.renew he hl now
  have hupdate := h.entry_renewed he hl now
  have hself : (s.cache.renewed e l now).entry l.cid = some { l with lastUsed := now } := by
    rw [hupdate, Function.update_self]
  have hlen := hinv.uniform _ _ hentry
  refine hinv.served ⟨ht, chains, h'⟩ rfl rfl hself hlen hnow hclock rfl ?_ ?_ ?_
  · intro y hne ly hly
    rwa [hupdate, Function.update_of_ne hne] at hly
  · show Serves _ _ _ _ (s.cache.renewed e l now).held
    rw [(h.held_update h' hupdate).1 rfl, Finset.insert_eq_of_mem hhit]
    exact .hit hhit
  · rw [if_pos hhit]

/-- An item that is not there takes a free slot, or that of the line that was used last. -/
theorem DemandCache.Inv.served_miss {s : DemandCache} (hinv : s.Inv len) {now : Timeval}
    (hnow : now.InRange) (hclock : s.clock < now.micros) (h : s.cache.Books ht chains)
    (hmiss : cid ∉ s.cache.held) {buf : BufPtr} {c₁ : Cache}
    (hputs : s.cache.PutsLine now cid buf len c₁ c') :
    s.Served len cid ⟨c', now.micros, s.hits⟩ := by
  have hmakes := hputs.makesRoom
  have hentry := hputs.entry
  obtain ⟨ht', chains', h'⟩ := hputs.books
  obtain ⟨hmaxItems, hmaxSize, -⟩ := hputs.counters
  have hself : c'.entry cid = some ⟨cid, len, buf, now⟩ := by
    rw [hentry, Function.update_self]
  have hheld := h.held_update h' hentry
  refine hinv.served (l := ⟨cid, len, buf, now⟩) ⟨ht', chains', h'⟩ hmaxItems hmaxSize hself rfl
    hnow hclock rfl ?_ ?_ ?_
  · intro y hne ly hly
    rw [show c'.entry y = c₁.entry y by rw [hentry, Function.update_of_ne hne],
      hmakes.entry] at hly
    dsimp only at hly
    split_ifs at hly
    exact hly
  · -- a free slot, or the one that the loop has made free
    rcases hinv.makesRoom h hmakes with ⟨hfree, hsame⟩ | ⟨m, hm, hfull, hmax, hejected⟩
    · show Serves _ _ _ _ c'.held
      rw [hheld.1 hsame]
      exact .load hmiss hfree
    · show Serves _ _ _ _ c'.held
      rw [hheld.2 m hejected fun heq => hmiss (heq ▸ hm)]
      exact .replace hmiss hfull hm hmax
  · rw [if_neg hmiss]
    rfl

/-- **A request.**  It is served; only an item that is not there needs a line.  So nothing but
    `malloc` can stop a user, and only on a miss. -/
theorem refer_served {s : DemandCache} (hinv : s.Inv len) {d : Demand} (hclock : s.ClockAllows d)
    (cid : CacheID)
    (hmalloc : cid ∉ s.cache.held → s.cache.MallocReturns len d.line d.entry = true) :
    ∃ s', s.refer len cid d = some s' ∧ s.Served len cid s' := by
  obtain ⟨ht, chains, h⟩ := hinv.books
  obtain ⟨hgetAt, hputAt, hlt, hle⟩ := hclock
  unfold DemandCache.refer
  rcases getCmpsc311Cache_books h d.getAt cid with ⟨hnone, hget⟩ | ⟨e, he, l, hl, rfl, hget⟩
  · -- `get` has found nothing: the item is put
    have hmiss : cid ∉ s.cache.held := fun hheld => h.mem_held.mp hheld hnone
    have hmalloc := hmalloc hmiss
    rw [hget]
    dsimp only
    rw [if_pos hmalloc]
    -- the tests at the head of `put` are passed
    have haccepts : s.cache.Accepts (some d.buf) len := by
      refine ⟨h.initialized, ?_, hinv.suits.2.1⟩
      simp [UInt32.pos_iff_ne_zero.mp hinv.suits.1]
    rcases putCmpsc311Cache_books h haccepts hmalloc d.putAt cid with
      ⟨hover, -⟩ |
        ⟨c₁, ht₁, chains₁, hmakes, h₁, hline, ⟨hpresent, -⟩ | ⟨habsent, ht', hholds, hput⟩⟩
    · -- times in the range of `gettimeofday` are never too far apart to be compared
      exact absurd hover hinv.times.not_timesOverflow
    · -- nothing comes in by the ejections
      rw [hmakes.entry] at hpresent
      simp [hnone] at hpresent
    · rw [hput]
      have hputs : s.cache.PutsLine d.putAt cid (some d.buf) len c₁
          (c₁.withLine ht' d.line ⟨cid, len, some d.buf, d.putAt⟩) :=
        ⟨haccepts, hmakes, habsent, d.line, d.entry, ht₁, chains₁, ht', h₁, hline, hholds,
          rfl⟩
      exact ⟨_, rfl, hinv.served_miss hputAt (lt_of_lt_of_le hlt hle) h hmiss hputs⟩
  · rw [hget]
    obtain ⟨b, hb⟩ := Option.ne_none_iff_exists'.mp hl.buf
    rw [hb]
    exact ⟨_, rfl, hinv.served_hit hgetAt hlt h he hl⟩

/-- A request that has returned has been served. -/
theorem served_of_refer {s s' : DemandCache} (hinv : s.Inv len) {d : Demand}
    (hclock : s.ClockAllows d) (hrefer : s.refer len cid d = some s') : s.Served len cid s' := by
  obtain ⟨ht, chains, h⟩ := hinv.books
  -- a miss has asked `malloc`, or it would not have returned
  have hmalloc : cid ∉ s.cache.held → s.cache.MallocReturns len d.line d.entry = true := by
    intro hmiss
    by_contra hno
    unfold DemandCache.refer at hrefer
    rcases getCmpsc311Cache_books h d.getAt cid with ⟨-, hget⟩ | ⟨e, he, l, hl, rfl, -⟩
    · rw [hget] at hrefer
      dsimp only at hrefer
      rw [if_neg hno] at hrefer
      cases hrefer
    · exact hmiss (h.mem_held_of_entry (h.entry_of_isEntry he hl))
  obtain ⟨s'', hsome, hserved⟩ := refer_served hinv hclock cid hmalloc
  obtain rfl := Option.some.inj (hsome.symm.trans hrefer)
  exact hserved

/-- **A deletion.**  The item is taken out, and nothing else changes.  An item that is not there is
    no reason to fail. -/
theorem delete_served {s : DemandCache} (hinv : s.Inv len) (cid : CacheID) :
    ∃ s', s.delete cid = some s' ∧ s'.Inv len ∧ s'.cache.slots len = s.cache.slots len ∧
      s'.cache.held = s.cache.held.erase cid ∧
      (∀ y ∈ s'.cache.held, s'.cache.usedAt y = s.cache.usedAt y) ∧ s'.clock = s.clock ∧
      s'.hits = s.hits := by
  obtain ⟨ht, chains, h⟩ := hinv.books
  unfold DemandCache.delete
  rcases deleteCmpsc311Cache_books h cid with
    ⟨hnone, hdelete⟩ | ⟨e, he, l, ht', hl, rfl, hholds, hdelete⟩
  · rw [hdelete]
    refine ⟨s, rfl, hinv, rfl, ?_, fun _ _ => rfl, rfl, rfl⟩
    rw [Finset.erase_eq_of_notMem fun hheld => h.mem_held.mp hheld hnone]
  · -- what is left has its lines as before, so that the invariant goes over to it
    rw [hdelete]
    have h' := h.remove he hl hholds s.cache.freed
    have hheld := h.held_without he hl hholds s.cache.freed
    have hsub := @Cache.Books.entry_of_without _ _ _ _ _ _ h he hl hholds s.cache.freed
    have hused : ∀ y ∈ (s.cache.without ht' e l s.cache.freed).held, y ∈ s.cache.held ∧
        (s.cache.without ht' e l s.cache.freed).usedAt y = s.cache.usedAt y := by
      intro y hy
      obtain ⟨ly, hly⟩ := Option.ne_none_iff_exists'.mp (h'.mem_held.mp hy)
      exact ⟨h.mem_held_of_entry (hsub hly), by rw [usedAt_eq hly, usedAt_eq (hsub hly)]⟩
    refine ⟨_, rfl, ⟨⟨ht', _, h'⟩, hinv.suits, ?_, ?_, ?_, ?_, ?_⟩, rfl, hheld, ?_, rfl, rfl⟩
    · intro y ly hly
      exact hinv.uniform y ly (hsub hly)
    · intro y ly hly
      exact hinv.times y ly (hsub hly)
    · intro y hy
      show (s.cache.without ht' e l s.cache.freed).usedAt y ≤ s.clock
      rw [(hused y hy).2]
      exact hinv.past y (hused y hy).1
    · intro y hy z hz hyz
      show (s.cache.without ht' e l s.cache.freed).usedAt y ≠
        (s.cache.without ht' e l s.cache.freed).usedAt z
      rw [(hused y hy).2, (hused z hz).2]
      exact hinv.distinct y (hused y hy).1 z (hused z hz).1 hyz
    · show (s.cache.without ht' e l s.cache.freed).held.card ≤ s.cache.slots len
      rw [hheld]
      exact (Finset.card_erase_le).trans hinv.within
    · exact fun y hy => (hused y hy).2

/-- A cache that has just been initialised, at any point of its life. -/
structure Cache.Fresh (c : Cache) : Prop where
  initialised : ∃ ops c₁ maxItems maxSize, cacheLife.run ops .initial = some c₁ ∧
    initCmpsc311Cache c₁ maxItems maxSize = .ok (0, c)

/-- It holds nothing. -/
theorem Cache.Fresh.books (h : c.Fresh) : c.stored = [] ∧ ∃ ht chains, c.Books ht chains := by
  obtain ⟨ops, c₁, maxItems, maxSize, hlife, hinit⟩ := h.initialised
  rcases Cache.kept_of_run hlife with ⟨ht, chains, h⟩ | h
  · -- a second initialisation is refused
    unfold initCmpsc311Cache at hinit
    rw [h.initialized] at hinit
    exact absurd (Prod.mk.inj (Except.ok.inj hinit)).1 (by decide)
  · rcases initCmpsc311Cache_books h.initialized maxItems maxSize with
      ⟨-, hrefused⟩ | ⟨c', hok, -, -, hnew⟩
    · rw [hrefused] at hinit
      exact absurd (Prod.mk.inj (Except.ok.inj hinit)).1 (by decide)
    · rw [hok] at hinit
      obtain ⟨-, rfl⟩ := Prod.mk.inj (Except.ok.inj hinit)
      exact hnew

/-- A cache of 100 bytes as it is set up at the start of the program. -/
def cacheFor (maxItems : UInt32) : Cache :=
  match initCmpsc311Cache .initial maxItems 100 with
  | .ok (_, c) => c
  | .error _ => .initial

/-- The limits of a fresh cache suit items of `len` bytes. -/
structure Cache.FreshFor (len : UInt32) (c : Cache) : Prop extends c.Fresh where
  suits : c.Suits len

/-- The invariant holds where nothing is held. -/
theorem Cache.FreshFor.inv (h : c.FreshFor len) (clock : ℤ) :
    DemandCache.Inv len ⟨c, clock, 0⟩ ∧ c.held = ∅ := by
  obtain ⟨hnil, ht, chains, hbooks⟩ := h.toFresh.books
  have hheld : c.held = ∅ := by
    unfold Cache.held Cache.storedLines
    rw [hnil]
    rfl
  have hnone : ∀ y, y ∉ c.held := by
    intro y
    rw [hheld]
    exact Finset.notMem_empty y
  refine ⟨⟨⟨ht, chains, hbooks⟩, h.suits, ?_, timesInRange_of_nil hbooks hnil, ?_, ?_, ?_⟩, hheld⟩
  · intro y l hl
    exact absurd (hbooks.mem_held_of_entry hl) (hnone y)
  · exact fun y hy => absurd hy (hnone y)
  · exact fun y hy => absurd hy (hnone y)
  · show c.held.card ≤ _
    rw [hheld]
    exact Nat.zero_le _

end NetworkExperiment
