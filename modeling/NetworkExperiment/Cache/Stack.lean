import NetworkExperiment.Lib.Lockstep
import NetworkExperiment.Lib.RecencyStack
import NetworkExperiment.Cache.Demand
import NetworkExperiment.Cache.Frame

namespace NetworkExperiment

open ActionSystems RecencyStacks

/-!
# The cache is a stack

Without its hash table, its counters and its clock, the cache is a stack of items: what has been
used last lies on top, and a `put` pops the stack until there is room.

* `CacheStack` / `cacheStack` — the stack and its runs;
* `ClockedCache` / `clockedCache` — the runs of the cache under a clock that goes on;
* `Cache.Stacked` — the lines of a cache, those used last in front;
* `cache_refines_stack` — every run of the cache is one of the stack, and returns the same;
* `oldest_line_stays` — so what lies at the bottom is not ejected while there is room beside it.
-/

/-! ### The stack -/

/-- An item of the cache, as its user knows it: no address, no time. -/
structure CacheItem where
  cid : CacheID
  size : ℕ
  buf : BufPtr
  deriving DecidableEq

/-- The items, with the one that was used last on top, the limits, and what has been freed. -/
structure CacheStack where
  maxItems : ℕ
  maxSize : ℕ
  items : List CacheItem
  freed : List BufPtr
  deriving DecidableEq

namespace CacheStack

/-- There is room for `len` bytes beside the items, by both limits of the cache. -/
def Room (s : CacheStack) (len : ℕ) (items : List CacheItem) : Prop :=
  items.length < s.maxItems ∧ (items.map (·.size)).sum + len ≤ s.maxSize

instance (s : CacheStack) (len : ℕ) : DecidablePred (s.Room len) :=
  fun _ => inferInstanceAs (Decidable (_ ∧ _))

/-- The item of an identifier. -/
def find (s : CacheStack) (cid : CacheID) : Option CacheItem := s.items.find? (·.cid = cid)

/-- The other items. -/
def others (s : CacheStack) (cid : CacheID) : List CacheItem := s.items.filter (·.cid ≠ cid)

/-- An item is put on top, where the stack has been popped until there is room.  An identifier that
    is still there is a fault. -/
def put (s : CacheStack) (cid : CacheID) (buf : BufPtr) (len : ℕ) :
    Option (CacheReturn × CacheStack) :=
  if len = 0 ∨ buf = none ∨ s.maxSize < len then some (.code (-1), s)
  else if cid ∈ (popUntil (s.Room len) s.items).map (·.cid) then none
  else
    some (.code 0, { s with
      items := ⟨cid, len, buf⟩ :: popUntil (s.Room len) s.items
      freed := s.freed ++ (popped (s.Room len) s.items).map (·.buf) })

/-- An item is brought to the top, and its buffer returned; `NULL` where there is none. -/
def get (s : CacheStack) (cid : CacheID) : CacheReturn × CacheStack :=
  match s.find cid with
  | none => (.buffer none, s)
  | some i => (.buffer i.buf, { s with items := i :: s.others cid })

/-- An item is taken out, and its buffer returned; the caller frees it. -/
def delete (s : CacheStack) (cid : CacheID) : CacheReturn × CacheStack :=
  match s.find cid with
  | none => (.buffer none, s)
  | some i => (.buffer i.buf, { s with items := s.others cid })

/-- A call. -/
def perform (s : CacheStack) : CacheCall → Option (CacheReturn × CacheStack)
  | .put _ _ _ cid buf len => s.put cid buf len.toNat
  | .get _ cid => some (s.get cid)
  | .delete cid => some (s.delete cid)

end CacheStack

/-- The runs of the stack, with what the calls return. -/
def cacheStack : ActionSystem (CacheStack × List CacheReturn) CacheCall where
  act s call := (s.1.perform call).map fun out => (out.2, s.2 ++ [out.1])

/-! ### The cache under a clock -/

/-- The reading of the clock in a call. -/
def CacheCall.reading : CacheCall → Option Timeval
  | .put _ _ now _ _ _ => some now
  | .get now _ => some now
  | .delete _ => none

/-- The cache, the last reading of the clock in microseconds, and what the calls have returned.
    The last two are kept by the run and not by the cache. -/
structure ClockedCache where
  cache : Cache
  clock : ℤ
  returns : List CacheReturn

/-- The clock has gone on since the last call that has read it; `delete` does not read it. -/
def ClockedCache.ClockAllows (s : ClockedCache) (call : CacheCall) : Prop :=
  ∀ now ∈ call.reading, now.InRange ∧ s.clock < now.micros

instance (s : ClockedCache) (call : CacheCall) : Decidable (s.ClockAllows call) :=
  inferInstanceAs (Decidable (∀ now ∈ call.reading, _))

/-- The runs of the cache under a clock that goes on from call to call. -/
def clockedCache : ActionSystem ClockedCache CacheCall where
  act s call :=
    if s.ClockAllows call then
      (s.cache.perform (.call call)).map fun out =>
        { cache := out.2
          clock := (call.reading.map Timeval.micros).getD s.clock
          returns := s.returns ++ [out.1] }
    else none

/-! ### The lines of a cache as a stack -/

variable {c c' : Cache} {ht ht' : HTable Addr} {chains : List (List (Stored Addr))}
  {e : Stored Addr} {l : Cmpsc311CacheEntry} {ls : List Cmpsc311CacheEntry} {cid : CacheID}
  {buf : BufPtr} {len : UInt32} {clock : ℤ}

/-- What the stack keeps of a line. -/
def Cmpsc311CacheEntry.item (l : Cmpsc311CacheEntry) : CacheItem := ⟨l.cid, l.size.toNat, l.buf⟩

/-- `ls` are the lines of the cache, each one used later than those behind it.  This is what the
    cache keeps of the order: nowhere but in the times. -/
structure Cache.Stacked (c : Cache) (ls : List Cmpsc311CacheEntry) : Prop where
  books : ∃ ht chains, c.Books ht chains
  mem : ∀ l, l ∈ ls ↔ c.entry l.cid = some l
  ordered : ls.Pairwise fun a b => b.lastUsed.micros < a.lastUsed.micros
  times : c.TimesInRange
  within : c.storedBytes ≤ c.maxSize.toNat
  /-- One item more does not wrap the sum of the sizes. -/
  noWrap : 2 * c.maxSize.toNat < 2 ^ 32

/-- A line with a time in range is put in. -/
theorem times_of_entry (h : c.TimesInRange) (hrange : l.lastUsed.InRange)
    (hentry : c'.entry = Function.update c.entry l.cid (some l)) : c'.TimesInRange := by
  apply @timesInRange_update c c' l.cid l hrange ?_ ?_ h
  · intro cid a hne ha
    rwa [hentry, Function.update_of_ne hne] at ha
  · intro a ha
    rw [hentry, Function.update_self] at ha
    exact (Option.some.inj ha).symm

namespace Cache.Stacked

/-- The lines of the cache, in another order: the table lists them by their indices. -/
theorem perm (h : c.Stacked ls) : c.storedLines.Perm ls := by
  obtain ⟨ht, chains, hbooks⟩ := h.books
  -- no line is used later than itself
  have hnodup : ls.Nodup := by
    refine List.Pairwise.imp ?_ h.ordered
    rintro a b hlt rfl
    exact lt_irrefl _ hlt
  rw [List.perm_ext_iff_of_nodup hbooks.nodup_cids.1.of_map hnodup]
  intro l
  rw [h.mem]
  constructor
  · intro hl
    obtain ⟨e, he, hle⟩ := hbooks.mem_storedLines.mp hl
    exact hbooks.entry_of_isEntry he hle
  · intro hl
    exact (hbooks.mem_storedLines_of_entry hl).1

/-- The counters of the cache are the length of the stack … -/
theorem items_eq (h : c.Stacked ls) : c.currentItems.toNat = ls.length := by
  obtain ⟨ht, chains, hbooks⟩ := h.books
  rw [← hbooks.nodup_cids.2, h.perm.length_eq]

/-- … and the sum of the sizes on it. -/
theorem storedBytes_eq (h : c.Stacked ls) : c.storedBytes = (ls.map (·.size.toNat)).sum := by
  obtain ⟨ht, chains, hbooks⟩ := h.books
  have hsome := congrArg
    (List.map fun o : Option Cmpsc311CacheEntry => (o.map (·.size.toNat)).getD 0)
    hbooks.map_some_storedLines
  rw [List.map_map, List.map_map] at hsome
  rw [← (h.perm.map _).sum_eq]
  exact congrArg List.sum hsome.symm

/-- Different lines have different identifiers. -/
theorem eq_of_cid (h : c.Stacked ls) {a b : Cmpsc311CacheEntry} (ha : a ∈ ls) (hb : b ∈ ls)
    (hcid : a.cid = b.cid) : a = b := by
  have hentry := (h.mem a).mp ha
  rw [hcid, (h.mem b).mp hb] at hentry
  exact (Option.some.inj hentry).symm

/-- The line of an identifier, which the stack finds by going down and the cache by its table. -/
theorem find?_eq (h : c.Stacked ls) (cid : CacheID) : ls.find? (·.cid = cid) = c.entry cid := by
  obtain ⟨ht, chains, hbooks⟩ := h.books
  cases hentry : c.entry cid with
  | none =>
    rw [List.find?_eq_none]
    intro a ha hcid
    have hsome := (h.mem a).mp ha
    rw [of_decide_eq_true hcid, hentry] at hsome
    cases hsome
  | some l =>
    obtain rfl := (hbooks.mem_storedLines_of_entry hentry).2
    have hl := (h.mem l).mpr hentry
    have hsome : (ls.find? (·.cid = l.cid)).isSome := List.find?_isSome.mpr ⟨l, hl, by simp⟩
    obtain ⟨a, ha⟩ := Option.isSome_iff_exists.mp hsome
    have hcid : a.cid = l.cid := by simpa using List.find?_some ha
    rw [ha, h.eq_of_cid (List.mem_of_find?_eq_some ha) hl hcid]

/-- The room test of `put` on the stack.  The sum of 32 bits is the sum, as the limit leaves room
    for an item more. -/
theorem noRoom_iff (h : c.Stacked ls) (hlen : len ≤ c.maxSize) : c.NoRoom len ↔
    ¬ (ls.length < c.maxItems.toNat ∧
      (ls.map (·.size.toNat)).sum + len.toNat ≤ c.maxSize.toNat) := by
  obtain ⟨ht, chains, hbooks⟩ := h.books
  have hle := UInt32.le_iff_toNat_le.mp hlen
  have hbytes := hbooks.bytes
  have hwithin := h.within
  have hwrap := h.noWrap
  have hsum : (c.currentSize + len).toNat = c.storedBytes + len.toNat := by
    rw [UInt32.toNat_add, hbytes]
    omega
  unfold Cache.NoRoom
  rw [ge_iff_le, gt_iff_lt, UInt32.le_iff_toNat_le, UInt32.lt_iff_toNat_lt, hsum, h.items_eq,
    ← h.storedBytes_eq]
  omega

/-! ### What the calls do to the stack -/

/-- Without a line of it, the stack holds the others. -/
theorem without (h : c.Stacked ls) (hbooks : c.Books ht chains) (he : e ∈ chains.flatten)
    (hl : IsEntry c e l) (hholds : ht'.Holds (deleteChains e.index chains)) (freed : List BufPtr) :
    (c.without ht' e l freed).Stacked (ls.filter (·.cid ≠ l.cid)) := by
  refine ⟨⟨ht', _, hbooks.remove he hl hholds freed⟩, ?_, h.ordered.filter _,
    hbooks.timesInRange_without h.times he hl hholds freed, ?_, h.noWrap⟩
  · intro a
    rw [hbooks.entry_without he hl hholds, List.mem_filter, h.mem, decide_eq_true_iff]
    by_cases hcid : a.cid = l.cid
    · simp [hcid]
    · simp [hcid]
  · -- the size of the line is subtracted
    have hsum := storedBytes_perm (hbooks.stored_without he hl hholds freed) rfl
    have hwithin := h.within
    show (c.without ht' e l freed).storedBytes ≤ c.maxSize.toNat
    omega

/-- An ejection pops the stack: `eject` looks for the line that comes first by `compareTimes`, and
    that is the one used last. -/
theorem eject {ls : List Cmpsc311CacheEntry} (h : c.Stacked (l :: ls)) :
    ∃ c', ejectCmpsc311Cache c = .ok (0, c') ∧ c'.Stacked ls ∧ c'.freed = c.freed ++ [l.buf] ∧
      c'.maxItems = c.maxItems ∧ c'.maxSize = c.maxSize := by
  obtain ⟨ht, chains, hbooks⟩ := h.books
  have htop := (h.mem l).mp List.mem_cons_self
  obtain ⟨x, hx, hlx⟩ := hbooks.mem_storedLines.mp (hbooks.mem_storedLines_of_entry htop).1
  rcases ejectCmpsc311Cache_books hbooks with
    ⟨hnil, -⟩ | ⟨hover, -⟩ | ⟨e, he, v, ht', hv, hvictim, hholds, heject⟩
  · rw [hnil] at hx
    exact absurd hx List.not_mem_nil
  · exact absurd hover h.times.not_timesOverflow
  -- the line that is ejected is the one on top
  have hvmem := (h.mem v).mpr (hbooks.entry_of_isEntry he hv)
  have hvl : v = l := by
    rcases List.mem_cons.mp hvmem with hvl | hvls
    · exact hvl
    · have hlater := List.rel_of_pairwise_cons h.ordered hvls
      -- another line is on top, so it was used later
      have hxe : x ≠ e := by
        rintro rfl
        rw [Option.some.inj (hlx.lookup.symm.trans hv.lookup)] at hlater
        exact absurd hlater (lt_irrefl _)
      rcases victim_first hbooks h.times he hv hvictim hx hlx hxe with hlt | ⟨heq, -⟩
      · omega
      · omega
  subst hvl
  -- the others keep their order
  have hothers : (v :: ls).filter (·.cid ≠ v.cid) = ls := by
    rw [List.filter_cons_of_neg (by simp), List.filter_eq_self]
    intro a ha
    rw [decide_eq_true_iff]
    intro hcid
    have hlater := List.rel_of_pairwise_cons h.ordered ha
    rw [h.eq_of_cid (List.mem_cons_of_mem _ ha) List.mem_cons_self hcid] at hlater
    exact absurd hlater (lt_irrefl _)
  have hwithout := h.without hbooks he hv hholds (c.freed ++ [v.buf])
  rw [hothers] at hwithout
  exact ⟨_, heject, hwithout, rfl, rfl, rfl⟩

/-- The room test of the stack, on the lines of the cache. -/
abbrev roomFor (c : Cache) (len : UInt32) (ls : List Cmpsc311CacheEntry) : Prop :=
  ls.length < c.maxItems.toNat ∧ (ls.map (·.size.toNat)).sum + len.toNat ≤ c.maxSize.toNat

/-- An item that the checks accept fits into an empty cache, so the loop of `put` ends. -/
theorem room_nil (hbooks : c.Books ht chains) (hlen : len ≤ c.maxSize) : roomFor c len [] := by
  have hpos := UInt32.lt_iff_toNat_lt.mp hbooks.positive
  refine ⟨hpos, ?_⟩
  rw [List.map_nil, List.sum_nil, Nat.zero_add]
  exact UInt32.le_iff_toNat_le.mp hlen

/-- The loop of `put` pops the stack until there is room.  By induction on the stack, which bounds
    the passes of the loop. -/
theorem putLoop (h : c.Stacked ls) (hlen : len ≤ c.maxSize) {fuel : ℕ} (hfuel : ls.length < fuel) :
    ∃ c', c.putLoop len fuel = .ok (true, c') ∧ c'.Stacked (popUntil (roomFor c len) ls) ∧
      c'.freed = c.freed ++ (popped (roomFor c len) ls).map (·.buf) ∧
      c'.maxItems = c.maxItems ∧ c'.maxSize = c.maxSize := by
  induction ls generalizing c fuel with
  | nil =>
    obtain ⟨ht, chains, hbooks⟩ := h.books
    obtain ⟨fuel, rfl⟩ := Nat.exists_eq_succ_of_ne_zero (Nat.ne_of_gt hfuel)
    have hroom : ¬ c.NoRoom len := by
      rw [h.noRoom_iff hlen, not_not]
      exact room_nil hbooks hlen
    refine ⟨c, ?_, h, (List.append_nil _).symm, rfl, rfl⟩
    rw [Cache.putLoop, if_neg hroom]
    rfl
  | cons l ls ih =>
    obtain ⟨fuel, rfl⟩ := Nat.exists_eq_succ_of_ne_zero (Nat.ne_of_gt (Nat.zero_lt_of_lt hfuel))
    rw [List.length_cons] at hfuel
    have hroom := h.noRoom_iff hlen
    by_cases hfits : roomFor c len (l :: ls)
    · refine ⟨c, ?_, ?_, ?_, rfl, rfl⟩
      · rw [Cache.putLoop, if_neg fun hno => hroom.mp hno hfits]
        rfl
      · rwa [popUntil_of_fits hfits]
      · rw [popped_of_fits hfits, List.map_nil, List.append_nil]
    · -- no room: the top is ejected, and the test made again on what is left
      obtain ⟨c₁, heject, h₁, hfreed, hitems, hsize⟩ := h.eject
      obtain ⟨c', hloop, h', hfreed', hitems', hsize'⟩ :=
        ih h₁ (by rwa [hsize]) (show ls.length < fuel by omega)
      have hsame : roomFor c₁ len = roomFor c len := by
        unfold roomFor
        rw [hitems, hsize]
      refine ⟨c', ?_, ?_, ?_, hitems'.trans hitems, hsize'.trans hsize⟩
      · rw [Cache.putLoop, if_pos (hroom.mpr hfits), heject]
        exact hloop
      · rw [popUntil_of_not_fits hfits]
        simpa only [hsame] using h'
      · rw [hfreed', hfreed, popped_of_not_fits hfits, List.map_cons, List.append_assoc]
        simp only [hsame]
        rfl

/-- A new line lies on top: the clock has gone on since all others were used. -/
theorem push (h : c.Stacked ls) (hbooks : c.Books ht chains) {entry line : Addr}
    (hfresh : line ∉ c.lines) (habsent : c.entry l.cid = none) (hroom : roomFor c l.size ls)
    (hbuf : l.buf ≠ none) (hpos : 0 < l.size)
    (hrange : l.lastUsed.InRange) (hlater : ∀ a ∈ ls, a.lastUsed.micros < l.lastUsed.micros)
    (hholds : ht'.Holds (insertChains ⟨entry, cacheIndex l.cid, line⟩ chains)) :
    (c.withLine ht' line l).Stacked (l :: ls) := by
  have hentry := hbooks.entry_withLine hfresh (hbooks.entry_eq_none.mp habsent) hholds
  have hfits : l.size ≤ c.maxSize := by
    rw [UInt32.le_iff_toNat_le]
    exact (Nat.le_add_left _ _).trans hroom.2
  have hitems : c.currentItems < c.maxItems := by
    rw [UInt32.lt_iff_toNat_lt, h.items_eq]
    exact hroom.1
  refine ⟨⟨ht', _, hbooks.add hfresh hbuf hpos hfits hitems hholds⟩, ?_,
    List.pairwise_cons.mpr ⟨hlater, h.ordered⟩, times_of_entry h.times hrange hentry, ?_,
    h.noWrap⟩
  · intro a
    rw [hentry, List.mem_cons, h.mem]
    by_cases hcid : a.cid = l.cid
    · rw [hcid, Function.update_self, habsent]
      simp [eq_comm]
    · rw [Function.update_of_ne hcid]
      have hne : a ≠ l := fun heq => hcid (by rw [heq])
      simp [hne]
  · have hsum := storedBytes_perm (hbooks.stored_withLine hfresh hholds) rfl
    have hwithin := hroom.2
    rw [← h.storedBytes_eq] at hwithin
    show (c.withLine ht' line l).storedBytes ≤ c.maxSize.toNat
    omega

/-- A line that is used is brought to the top, by its new time alone. -/
theorem renew (h : c.Stacked ls) (hbooks : c.Books ht chains) (he : e ∈ chains.flatten)
    (hl : IsEntry c e l) {now : Timeval} (hrange : now.InRange)
    (hlater : ∀ a ∈ ls, a.lastUsed.micros < now.micros) :
    (c.renewed e l now).Stacked ({ l with lastUsed := now } :: ls.filter (·.cid ≠ l.cid)) := by
  have hentry := hbooks.entry_renewed he hl now
  refine ⟨⟨ht, chains, hbooks.renew he hl now⟩, ?_, ?_,
    @times_of_entry _ _ { l with lastUsed := now } h.times hrange hentry, ?_, h.noWrap⟩
  · intro a
    rw [hentry, List.mem_cons, List.mem_filter, h.mem, decide_eq_true_iff]
    by_cases hcid : a.cid = l.cid
    · rw [hcid, Function.update_self]
      simp [eq_comm]
    · rw [Function.update_of_ne hcid]
      have hne : a ≠ { l with lastUsed := now } := fun heq => hcid (by rw [heq])
      simp [hne, hcid]
  · refine List.pairwise_cons.mpr ⟨fun a ha => hlater a (List.mem_of_mem_filter ha), ?_⟩
    exact h.ordered.filter _
  · rw [hbooks.storedBytes_renewed he hl now]
    exact h.within

end Cache.Stacked

/-! ### The refinement -/

/-- A cache, with the clock at `clock`, that shows a stack. -/
structure Cache.Shows (c : Cache) (clock : ℤ) (t : CacheStack) : Prop where
  lines : ∃ ls, c.Stacked ls ∧ (∀ l ∈ ls, l.lastUsed.micros ≤ clock) ∧ t.items = ls.map (·.item)
  maxItems : t.maxItems = c.maxItems.toNat
  maxSize : t.maxSize = c.maxSize.toNat
  freed : c.freed = t.freed

variable {t : CacheStack}

namespace Cache.Shows

/-- The room tests agree. -/
theorem room_iff (h : c.Shows clock t) (len : UInt32) (ls : List Cmpsc311CacheEntry) :
    t.Room len.toNat (ls.map (·.item)) ↔ Stacked.roomFor c len ls := by
  unfold CacheStack.Room
  rw [h.maxItems, h.maxSize, List.length_map, List.map_map]
  rfl

/-- The item of an identifier is that of its line. -/
theorem find_eq (h : c.Shows clock t) (cid : CacheID) :
    t.find cid = (c.entry cid).map (·.item) := by
  obtain ⟨ls, hls, -, hitems⟩ := h.lines
  unfold CacheStack.find
  rw [hitems, List.find?_map, ← hls.find?_eq cid]
  rfl

/-- A `put` does to the cache what it does to the stack, or it is a fault of both: an identifier
    that survives the ejections fails the assertion of the hash table. -/
theorem put (h : c.Shows clock t) {line entry : Addr} (hmalloc : c.MallocReturns len line entry)
    {now : Timeval} (hrange : now.InRange) (hnow : clock < now.micros) (cid : CacheID)
    (buf : BufPtr) :
    (∃ fault, putCmpsc311Cache c line entry now cid buf len = .error fault ∧
        t.put cid buf len.toNat = none) ∨
      ∃ ret c' t', putCmpsc311Cache c line entry now cid buf len = .ok (ret, c') ∧
        t.put cid buf len.toNat = some (.code ret, t') ∧ c'.Shows now.micros t' := by
  obtain ⟨ls, hls, hpast, hitems⟩ := h.lines
  obtain ⟨ht, chains, hbooks⟩ := hls.books
  unfold CacheStack.put
  by_cases haccepts : c.Accepts buf len
  · -- both go on behind their checks
    obtain ⟨-, hgood, hle⟩ := haccepts
    have hgood' : ¬ (len.toNat = 0 ∨ buf = none ∨ t.maxSize < len.toNat) := by
      rw [h.maxSize]
      rintro (hzero | hnull | hlarge)
      · exact hgood (.inl (UInt32.toNat_inj.mp hzero))
      · exact hgood (.inr hnull)
      · exact Nat.not_lt.mpr (UInt32.le_iff_toNat_le.mp hle) hlarge
    rw [if_neg hgood', hitems, popUntil_map (h.room_iff len), popped_map (h.room_iff len),
      List.map_map, List.map_map]
    obtain ⟨c₁, hloop, h₁, hfreed, hitems₁, hsize₁⟩ := hls.putLoop hle
      (show ls.length < c.fuel by
        rw [← hls.items_eq, hbooks.items]
        exact hbooks.length_lt_fuel)
    -- the identifier is still on the stack exactly where the cache still finds it
    have hmem : cid ∈ (popUntil (Stacked.roomFor c len) ls).map
        ((·.cid) ∘ Cmpsc311CacheEntry.item) ↔ c₁.entry cid ≠ none := by
      rw [← h₁.find?_eq, Option.ne_none_iff_isSome, List.find?_isSome, List.mem_map]
      simp [Cmpsc311CacheEntry.item]
    rcases putCmpsc311Cache_books hbooks ⟨hbooks.initialized, hgood, hle⟩ hmalloc now cid with
      ⟨hover, -⟩ | ⟨c₁', ht₁, chains₁, hmakes, hbooks₁, hline, hput⟩
    · exact absurd hover hls.times.not_timesOverflow
    obtain rfl := (Prod.mk.inj (Except.ok.inj (hloop.symm.trans hmakes.loop))).2
    rcases hput with ⟨hpresent, hput⟩ | ⟨habsent, ht', hholds, hput⟩
    · left
      rw [if_pos (hmem.mpr hpresent)]
      exact ⟨_, hput, rfl⟩
    · right
      rw [if_neg fun hin => hmem.mp hin habsent]
      refine ⟨0, _, _, hput, rfl,
        ⟨⟨cid, len, buf, now⟩ :: popUntil (Stacked.roomFor c len) ls, ?_, ?_, rfl⟩, ?_, ?_, ?_⟩
      · have hroom : Stacked.roomFor c₁ len (popUntil (Stacked.roomFor c len) ls) := by
          unfold Stacked.roomFor
          rw [hitems₁, hsize₁]
          exact fits_popUntil (Stacked.room_nil hbooks hle) ls
        refine @Stacked.push _ _ _ _ ⟨cid, len, buf, now⟩ _ h₁ hbooks₁ _ _ hline habsent hroom
          (fun hnull => hgood (.inr hnull))
          (UInt32.pos_iff_ne_zero.mpr fun hzero => hgood (.inl hzero)) hrange ?_ hholds
        intro a ha
        exact lt_of_le_of_lt (hpast a ((popUntil_suffix ls).subset ha)) hnow
      · intro a ha
        rcases List.mem_cons.mp ha with rfl | ha
        · exact le_refl _
        · exact (lt_of_le_of_lt (hpast a ((popUntil_suffix ls).subset ha)) hnow).le
      · rw [h.maxItems, ← hitems₁]
        rfl
      · rw [h.maxSize, ← hsize₁]
        rfl
      · show c₁.freed = _
        rw [hfreed, h.freed]
        rfl
  · -- both refuse it
    right
    have hbad : len.toNat = 0 ∨ buf = none ∨ t.maxSize < len.toNat := by
      by_contra hgood
      rw [not_or, not_or, Nat.not_lt, h.maxSize] at hgood
      obtain ⟨hpos, hbuf, hle⟩ := hgood
      refine haccepts ⟨hbooks.initialized, ?_, UInt32.le_iff_toNat_le.mpr hle⟩
      rintro (rfl | hnull)
      · exact hpos rfl
      · exact hbuf hnull
    rw [if_pos hbad, putCmpsc311Cache_refused haccepts]
    refine ⟨-1, c, t, rfl, rfl, ⟨ls, hls, ?_, hitems⟩, h.maxItems, h.maxSize, h.freed⟩
    exact fun l hl => (hpast l hl).trans hnow.le

/-- A `get` does to the cache what it does to the stack.  It never goes wrong. -/
theorem get (h : c.Shows clock t) {now : Timeval} (hrange : now.InRange)
    (hnow : clock < now.micros) (cid : CacheID) :
    ∃ buf c' t', getCmpsc311Cache c now cid = .ok (buf, c') ∧ t.get cid = (.buffer buf, t') ∧
      c'.Shows now.micros t' := by
  obtain ⟨ls, hls, hpast, hitems⟩ := h.lines
  obtain ⟨ht, chains, hbooks⟩ := hls.books
  have hfind := h.find_eq cid
  have hbefore : ∀ l ∈ ls, l.lastUsed.micros < now.micros :=
    fun l hl => lt_of_le_of_lt (hpast l hl) hnow
  unfold CacheStack.get
  rcases getCmpsc311Cache_books hbooks now cid with ⟨hnone, hget⟩ | ⟨e, he, l, hl, rfl, hget⟩
  · rw [hfind, hnone]
    exact ⟨none, c, t, hget, rfl, ⟨ls, hls, fun l hl => (hbefore l hl).le, hitems⟩, h.maxItems,
      h.maxSize, h.freed⟩
  · rw [hfind, hbooks.entry_of_isEntry he hl]
    refine ⟨_, _, _, hget, rfl, ⟨_, hls.renew hbooks he hl hrange hbefore, ?_, ?_⟩, h.maxItems,
      h.maxSize, h.freed⟩
    · intro a ha
      rcases List.mem_cons.mp ha with rfl | ha
      · exact le_refl _
      · exact (hbefore a (List.mem_of_mem_filter ha)).le
    · unfold CacheStack.others
      rw [hitems, List.filter_map]
      rfl

/-- A `delete` does to the cache what it does to the stack. -/
theorem delete (h : c.Shows clock t) (cid : CacheID) :
    ∃ buf c' t', deleteCmpsc311Cache c cid = .ok (buf, c') ∧ t.delete cid = (.buffer buf, t') ∧
      c'.Shows clock t' := by
  obtain ⟨ls, hls, hpast, hitems⟩ := h.lines
  obtain ⟨ht, chains, hbooks⟩ := hls.books
  have hfind := h.find_eq cid
  unfold CacheStack.delete
  rcases deleteCmpsc311Cache_books hbooks cid with
    ⟨hnone, hdelete⟩ | ⟨e, he, l, ht', hl, rfl, hholds, hdelete⟩
  · rw [hfind, hnone]
    exact ⟨none, c, t, hdelete, rfl, h⟩
  · rw [hfind, hbooks.entry_of_isEntry he hl]
    refine ⟨_, _, _, hdelete, rfl, ⟨_, hls.without hbooks he hl hholds _, ?_, ?_⟩, h.maxItems,
      h.maxSize, h.freed⟩
    · exact fun a ha => hpast a (List.mem_of_mem_filter ha)
    · unfold CacheStack.others
      rw [hitems, List.filter_map]
      rfl

end Cache.Shows

/-- A run of the cache shows a run of the stack: the states correspond, and the calls have returned
    the same. -/
structure ClockedCache.Shows (s : ClockedCache) (t : CacheStack × List CacheReturn) : Prop where
  cache : s.cache.Shows s.clock t.1
  returns : s.returns = t.2

/-- `malloc` returns no address in use, if it is called. -/
def Cache.MallocAllows (c : Cache) : CacheCall → Prop
  | .put line entry _ _ _ len => c.MallocReturns len line entry
  | _ => True

/-- **A call.**  It is a fault of both, or it returns the same and leaves the cache showing the
    stack. -/
theorem ClockedCache.Shows.step {s : ClockedCache} {t : CacheStack × List CacheReturn}
    (h : s.Shows t) {call : CacheCall} (hclock : s.ClockAllows call)
    (hmalloc : s.cache.MallocAllows call) :
    (clockedCache.act s call = none ∧ cacheStack.act t call = none) ∨
      ∃ s' t', clockedCache.act s call = some s' ∧ cacheStack.act t call = some t' ∧
        s'.Shows t' := by
  unfold clockedCache cacheStack
  dsimp only
  rw [if_pos hclock]
  cases call with
  | put line entry now cid buf len =>
    obtain ⟨hrange, hnow⟩ := hclock now rfl
    unfold Cache.perform CacheStack.perform
    dsimp only
    rw [if_pos (show s.cache.MallocReturns len line entry = true from hmalloc)]
    rcases @Cache.Shows.put _ len _ _ h.cache _ _ hmalloc _ hrange hnow cid buf with
      ⟨fault, hput, hstack⟩ | ⟨ret, c', t', hput, hstack, h'⟩
    · rw [hput, hstack]
      exact .inl ⟨rfl, rfl⟩
    · rw [hput, hstack]
      exact .inr ⟨_, _, rfl, rfl, h', congrArg (· ++ [_]) h.returns⟩
  | get now cid =>
    obtain ⟨hrange, hnow⟩ := hclock now rfl
    obtain ⟨buf, c', t', hget, hstack, h'⟩ := h.cache.get hrange hnow cid
    unfold Cache.perform CacheStack.perform
    dsimp only
    rw [hget, hstack]
    exact .inr ⟨_, _, rfl, rfl, h', congrArg (· ++ [_]) h.returns⟩
  | delete cid =>
    obtain ⟨buf, c', t', hdelete, hstack, h'⟩ := h.cache.delete cid
    unfold Cache.perform CacheStack.perform
    dsimp only
    rw [hdelete, hstack]
    exact .inr ⟨_, _, rfl, rfl, h', congrArg (· ++ [_]) h.returns⟩

/-- A call that is performed has been allowed by the clock and by `malloc`. -/
theorem allows_of_act {s s' : ClockedCache} {call : CacheCall}
    (hact : clockedCache.act s call = some s') :
    s.ClockAllows call ∧ s.cache.MallocAllows call := by
  unfold clockedCache at hact
  dsimp only at hact
  split_ifs at hact with hclock
  refine ⟨hclock, ?_⟩
  cases call with
  | put line entry now cid buf len =>
    unfold Cache.perform at hact
    dsimp only at hact
    split_ifs at hact with hmalloc
    · exact hmalloc
    · cases hact
  | get | delete => trivial

/-- The stack follows the cache. -/
theorem cacheStack_follows : ActionSystem.Follows clockedCache cacheStack ClockedCache.Shows := by
  intro s t call s' h hact
  obtain ⟨hclock, hmalloc⟩ := allows_of_act hact
  rcases h.step hclock hmalloc with ⟨hnone, -⟩ | ⟨s'', t', hsome, hstack, h'⟩
  · rw [hnone] at hact
    cases hact
  · rw [hsome] at hact
    obtain rfl := Option.some.inj hact
    exact ⟨t', hstack, h'⟩

/-- A fresh cache shows an empty stack, at any point of its life: what it has freed before is
    kept. -/
theorem Cache.Fresh.shows (h : c.Fresh) (hwrap : 2 * c.maxSize.toNat < 2 ^ 32) (clock : ℤ) :
    ClockedCache.Shows ⟨c, clock, []⟩
      (⟨c.maxItems.toNat, c.maxSize.toNat, [], c.freed⟩, []) := by
  obtain ⟨hnil, ht, chains, hbooks⟩ := h.books
  refine ⟨⟨⟨[], ⟨⟨ht, chains, hbooks⟩, ?_, .nil, timesInRange_of_nil hbooks hnil, ?_, hwrap⟩, ?_,
    rfl⟩, rfl, rfl, rfl⟩, rfl⟩
  · intro l
    rw [hbooks.entry_of_nil hnil]
    simp
  · unfold Cache.storedBytes
    rw [hnil]
    exact Nat.zero_le _
  · intro l hl
    exact absurd hl List.not_mem_nil

/-- **The cache is a stack.**  From its initialisation on, under a clock that goes on from call to
    call, the calls of the cache return what those of the stack return; the cache has the items of
    the stack, and it has freed the same buffers in the same order.  A call that the clock and
    `malloc` allow is a fault of the cache exactly where it is one of the stack. -/
theorem cache_refines_stack (hfresh : c.Fresh) (hwrap : 2 * c.maxSize.toNat < 2 ^ 32) {clock : ℤ}
    {calls : List CacheCall} {s : ClockedCache}
    (hrun : clockedCache.run calls ⟨c, clock, []⟩ = some s) :
    ∃ t, cacheStack.run calls (⟨c.maxItems.toNat, c.maxSize.toNat, [], c.freed⟩, []) = some t ∧
      s.returns = t.2 ∧ s.cache.freed = t.1.freed ∧
      (∀ cid, (s.cache.entry cid).map (·.item) = t.1.find cid) ∧
      ∀ call, s.ClockAllows call → s.cache.MallocAllows call →
        ((clockedCache.act s call).isSome ↔ (cacheStack.act t call).isSome) := by
  obtain ⟨t, ht, h⟩ := cacheStack_follows.run (hfresh.shows hwrap clock) hrun
  refine ⟨t, ht, h.returns, h.cache.freed, fun cid => (h.cache.find_eq cid).symm, ?_⟩
  intro call hclock hmalloc
  rcases h.step hclock hmalloc with ⟨hnone, hnone'⟩ | ⟨s', t', hsome, hsome', -⟩
  · rw [hnone, hnone']
    exact Iff.rfl
  · rw [hsome, hsome']
    exact Iff.rfl

/-- Two items for a cache of two, of which the first one is used again: it makes room for the
    third. -/
def reuseCalls : List CacheCall :=
  [.put 1 2 ⟨1, 0⟩ 1 (some 7) 10, .put 3 4 ⟨2, 0⟩ 2 (some 8) 20, .get ⟨3, 0⟩ 1,
    .put 5 6 ⟨4, 0⟩ 3 (some 9) 30, .get ⟨5, 0⟩ 1, .get ⟨6, 0⟩ 2]

/-- What has been used last has been ejected. -/
theorem cache_refines_stack_reuse : ∃ (s : ClockedCache) (t : CacheStack × List CacheReturn),
    clockedCache.run reuseCalls ⟨cacheFor 2, 0, []⟩ = some s ∧ s.returns = t.2 ∧
      s.cache.freed = t.1.freed ∧ t.1.items = [⟨2, 20, some 8⟩, ⟨3, 30, some 9⟩] ∧
      t.1.freed = [some 7] := by
  have hsome : ((clockedCache.run reuseCalls ⟨cacheFor 2, 0, []⟩).any fun _ => true) = true := by
    decide +kernel
  obtain ⟨s, hrun, -⟩ := (Option.any_eq_true _ _).mp hsome
  have hfresh : (cacheFor 2).Fresh := ⟨[], .initial, 2, 100, rfl, rfl⟩
  obtain ⟨t, ht, hreturns, hfreed, -⟩ := cache_refines_stack hfresh (by decide) hrun
  have hstack : ((cacheStack.run reuseCalls (⟨2, 100, [], []⟩, [])).map Prod.fst)
      = some ⟨2, 100, [⟨2, 20, some 8⟩, ⟨3, 30, some 9⟩], [some 7]⟩ := by
    decide +kernel
  have ht' : cacheStack.run reuseCalls (⟨2, 100, [], []⟩, []) = some t := ht
  rw [ht'] at hstack
  have heq := Option.some.inj hstack
  exact ⟨s, t, hrun, hreturns, hfreed, congrArg CacheStack.items heq,
    congrArg CacheStack.freed heq⟩

/-! ### The bottom of the stack -/

/-- A call that leaves room for the item, and does not name it in a `get` or a `delete`. -/
def CacheCall.Spares (maxSize : ℕ) (i : CacheItem) : CacheCall → Prop
  | .put _ _ _ _ _ len => i.size + len.toNat ≤ maxSize
  | .get _ cid => cid ≠ i.cid
  | .delete cid => cid ≠ i.cid

instance (maxSize : ℕ) (i : CacheItem) : DecidablePred (CacheCall.Spares maxSize i) := fun call =>
  match call with
  | .put _ _ _ _ _ _ => inferInstanceAs (Decidable (_ ≤ _))
  | .get _ _ => inferInstanceAs (Decidable (_ ≠ _))
  | .delete _ => inferInstanceAs (Decidable (_ ≠ _))

/-- A call leaves the items as they are, puts one on top where there is room, brings one to the top
    or takes one out.  The limits stay. -/
theorem cacheStack_cases {t t' : CacheStack × List CacheReturn} {call : CacheCall}
    (hact : cacheStack.act t call = some t') :
    (t'.1.maxItems = t.1.maxItems ∧ t'.1.maxSize = t.1.maxSize) ∧
    (t'.1.items = t.1.items ∨
      (∃ line entry now cid buf len, call = .put line entry now cid buf len ∧
        t'.1.items = ⟨cid, len.toNat, buf⟩ :: popUntil (t.1.Room len.toNat) t.1.items) ∨
      (∃ now cid i, call = .get now cid ∧ t'.1.items = i :: t.1.others cid) ∨
      ∃ cid, call = .delete cid ∧ t'.1.items = t.1.others cid) := by
  obtain ⟨t, returns⟩ := t
  obtain ⟨⟨ret, t₁⟩, hperform, rfl⟩ := Option.map_eq_some_iff.mp hact
  cases call with
  | put line entry now cid buf len =>
    simp only [CacheStack.perform, CacheStack.put] at hperform
    split_ifs at hperform
    · obtain ⟨-, rfl⟩ := Prod.mk.inj (Option.some.inj hperform)
      exact ⟨⟨rfl, rfl⟩, .inl rfl⟩
    · obtain ⟨-, rfl⟩ := Prod.mk.inj (Option.some.inj hperform)
      exact ⟨⟨rfl, rfl⟩, .inr (.inl ⟨line, entry, now, cid, buf, len, rfl, rfl⟩)⟩
  | get now cid =>
    simp only [CacheStack.perform, CacheStack.get] at hperform
    split at hperform
    case h_1 =>
      obtain ⟨-, rfl⟩ := Prod.mk.inj (Option.some.inj hperform)
      exact ⟨⟨rfl, rfl⟩, .inl rfl⟩
    case h_2 i _ =>
      obtain ⟨-, rfl⟩ := Prod.mk.inj (Option.some.inj hperform)
      exact ⟨⟨rfl, rfl⟩, .inr (.inr (.inl ⟨now, cid, i, rfl, rfl⟩))⟩
  | delete cid =>
    simp only [CacheStack.perform, CacheStack.delete] at hperform
    split at hperform
    case h_1 =>
      obtain ⟨-, rfl⟩ := Prod.mk.inj (Option.some.inj hperform)
      exact ⟨⟨rfl, rfl⟩, .inl rfl⟩
    case h_2 =>
      obtain ⟨-, rfl⟩ := Prod.mk.inj (Option.some.inj hperform)
      exact ⟨⟨rfl, rfl⟩, .inr (.inr (.inr ⟨cid, rfl, rfl⟩))⟩

/-- So the limits stay in every run. -/
theorem cacheStack_limits (maxItems maxSize : ℕ) :
    cacheStack.Invariant fun t => t.1.maxItems = maxItems ∧ t.1.maxSize = maxSize := by
  rintro t call t' ⟨hmaxItems, hmaxSize⟩ hact
  obtain ⟨⟨hitems, hsize⟩, -⟩ := cacheStack_cases hact
  exact ⟨hitems.trans hmaxItems, hsize.trans hmaxSize⟩

/-- The item lies at the bottom of the stack. -/
structure CacheStack.Bottom (maxItems maxSize : ℕ) (i : CacheItem) (t : CacheStack) : Prop where
  items : [i] <:+ t.items
  maxItems : t.maxItems = maxItems
  maxSize : t.maxSize = maxSize

/-- The other items are above it. -/
theorem CacheStack.Bottom.others {maxItems maxSize : ℕ} {i : CacheItem}
    (h : t.Bottom maxItems maxSize i) (hcid : cid ≠ i.cid) : [i] <:+ t.others cid := by
  have hsuffix := h.items.filter (fun j : CacheItem => decide (j.cid ≠ cid))
  rwa [List.filter_cons_of_pos (by simpa using hcid.symm), List.filter_nil] at hsuffix

/-- **Step lemma.**  A call that spares the item leaves it at the bottom. -/
theorem cacheStack_bottom {maxItems maxSize : ℕ} (hmax : 2 ≤ maxItems) (i : CacheItem) :
    cacheStack.InvariantOn (fun _ call => call.Spares maxSize i)
      fun t => t.1.Bottom maxItems maxSize i := by
  rintro t call t' h hspares hact
  obtain ⟨⟨hmaxItems, hmaxSize⟩, hcases⟩ := cacheStack_cases hact
  refine ⟨?_, hmaxItems.trans h.maxItems, hmaxSize.trans h.maxSize⟩
  obtain hsame | ⟨line, entry, now, cid, buf, len, rfl, hput⟩ | ⟨now, cid, j, rfl, hget⟩ |
    ⟨cid, rfl, hdelete⟩ := hcases
  · rw [hsame]
    exact h.items
  · rw [hput]
    -- the stack is popped no further than to the item, which leaves room
    have hroom : t.1.Room len.toNat [i] := by
      unfold CacheStack.Room
      rw [h.maxItems, h.maxSize, List.map_singleton, List.sum_singleton]
      exact ⟨hmax, hspares⟩
    exact (suffix_popUntil h.items hroom).trans (List.suffix_cons _ _)
  · rw [hget]
    exact (h.others hspares).trans (List.suffix_cons _ _)
  · rw [hdelete]
    exact h.others hspares

/-- The line that has not been used for longest lies at the bottom. -/
theorem Cache.Stacked.oldest (h : c.Stacked ls) (hl : l ∈ ls)
    (holdest : ∀ a ∈ ls, l.lastUsed.micros ≤ a.lastUsed.micros) : [l] <:+ ls := by
  have hne : ls ≠ [] := List.ne_nil_of_mem hl
  have hsplit := List.dropLast_append_getLast hne
  have hlast : ls.getLast hne = l := by
    by_contra hother
    have hordered := h.ordered
    rw [← hsplit] at hl hordered
    -- otherwise the line at the bottom would be older
    have hfront : l ∈ ls.dropLast := by
      rcases List.mem_append.mp hl with hl | hl
      · exact hl
      · exact absurd (List.mem_singleton.mp hl).symm hother
    have hlater := (List.pairwise_append.mp hordered).2.2 l hfront _ (List.mem_singleton_self _)
    exact absurd (holdest _ (List.getLast_mem hne)) (not_le.mpr hlater)
  exact ⟨ls.dropLast, by rw [← hlast, hsplit]⟩

/-- **What is oldest stays.**  In a cache for two items or more, the line that has not been used for
    longest is there for good: no `put` of an item that leaves room for it ejects it, whatever else
    is put, used and deleted in the meantime. -/
theorem oldest_line_stays (hfresh : c.Fresh) (hwrap : 2 * c.maxSize.toNat < 2 ^ 32)
    (hmax : 2 ≤ c.maxItems.toNat) {clock : ℤ} {before after : List CacheCall}
    {s s' : ClockedCache} (hbefore : clockedCache.run before ⟨c, clock, []⟩ = some s)
    (hafter : clockedCache.run after s = some s') (hl : s.cache.entry cid = some l)
    (holdest : ∀ y ly, s.cache.entry y = some ly → l.lastUsed.micros ≤ ly.lastUsed.micros)
    (hspares : ∀ call ∈ after, call.Spares c.maxSize.toNat l.item) :
    ∃ l', s'.cache.entry cid = some l' ∧ l'.size = l.size ∧ l'.buf = l.buf := by
  obtain ⟨t, ht, h⟩ := cacheStack_follows.run (hfresh.shows hwrap clock) hbefore
  obtain ⟨t', ht', h'⟩ := cacheStack_follows.run h hafter
  obtain ⟨ls, hls, -, hitems⟩ := h.cache.lines
  obtain ⟨htable, chains, hbooks⟩ := hls.books
  obtain rfl := (hbooks.mem_storedLines_of_entry hl).2
  -- the limits are those of the fresh cache
  have hlimits := (cacheStack_limits c.maxItems.toNat c.maxSize.toNat).run ⟨rfl, rfl⟩ ht
  have hbottom : t.1.Bottom c.maxItems.toNat c.maxSize.toNat l.item := by
    refine ⟨?_, hlimits.1, hlimits.2⟩
    rw [hitems]
    exact (hls.oldest ((hls.mem l).mpr hl) fun a ha => holdest _ _ ((hls.mem a).mp ha)).map _
  have hstays := (cacheStack_bottom hmax l.item).run hbottom
    (cacheStack.stepsMeet_of_forall hspares _) ht'
  obtain ⟨ls', hls', -, hitems'⟩ := h'.cache.lines
  -- it is still on the stack, so the cache has a line for it
  have hmem : l.item ∈ t'.1.items := hstays.items.subset List.mem_cons_self
  rw [hitems'] at hmem
  obtain ⟨l', hl', heq⟩ := List.mem_map.mp hmem
  obtain ⟨hcid, hsize, hbuf⟩ := CacheItem.mk.inj heq
  refine ⟨l', ?_, UInt32.toNat_inj.mp hsize, hbuf⟩
  rw [← hcid]
  exact (hls'.mem l').mp hl'

/-- In a cache for two items, the first one is there after two more have come and gone. -/
theorem oldest_line_stays_two_items : ∃ (s s' : ClockedCache) (l l' : Cmpsc311CacheEntry),
    clockedCache.run [.put 1 2 ⟨1, 0⟩ 1 (some 7) 10] ⟨cacheFor 2, 0, []⟩ = some s ∧
      clockedCache.run [.put 3 4 ⟨2, 0⟩ 2 (some 8) 90, .put 5 6 ⟨3, 0⟩ 3 (some 9) 90,
        .delete 3] s = some s' ∧
      s.cache.entry 1 = some l ∧ s'.cache.entry 1 = some l' ∧ l'.buf = l.buf := by
  have hsome : ((clockedCache.run [.put 1 2 ⟨1, 0⟩ 1 (some 7) 10] ⟨cacheFor 2, 0, []⟩).any fun s =>
      decide (s.cache.entry 1 = some ⟨1, 10, some 7, ⟨1, 0⟩⟩ ∧ s.cache.storedLines =
        [⟨1, 10, some 7, ⟨1, 0⟩⟩] ∧
      (clockedCache.run [.put 3 4 ⟨2, 0⟩ 2 (some 8) 90, .put 5 6 ⟨3, 0⟩ 3 (some 9) 90,
        .delete 3] s).isSome = true)) = true := by
    decide +kernel
  obtain ⟨s, hrun, hs⟩ := (Option.any_eq_true _ _).mp hsome
  obtain ⟨hl, hlines, hmore⟩ := of_decide_eq_true hs
  obtain ⟨s', hrun'⟩ := Option.isSome_iff_exists.mp hmore
  have hfresh : (cacheFor 2).Fresh := ⟨[], .initial, 2, 100, rfl, rfl⟩
  have holdest : ∀ y ly, s.cache.entry y = some ly →
      Timeval.micros ⟨1, 0⟩ ≤ ly.lastUsed.micros := by
    intro y ly hly
    obtain ⟨t, -, h⟩ := cacheStack_follows.run (hfresh.shows (by decide) 0) hrun
    obtain ⟨ls, hls, -⟩ := h.cache.lines
    obtain ⟨ht, chains, hbooks⟩ := hls.books
    have hmem := (hbooks.mem_storedLines_of_entry hly).1
    rw [hlines, List.mem_singleton] at hmem
    rw [hmem]
  obtain ⟨l', hl', -, hbuf⟩ := oldest_line_stays hfresh (by decide) (by decide +kernel) hrun hrun'
    hl holdest (by decide +kernel)
  exact ⟨s, s', _, l', hrun, hrun', hl, hl', hbuf⟩

end NetworkExperiment
