import Mathlib.Algebra.BigOperators.Group.List.Basic
import NetworkExperiment.Cache.Runs
import NetworkExperiment.Hashtable.Entries

namespace NetworkExperiment

/-!
# The books of the cache

The counters of an initialised cache against the lines that its table stores, under any readings of
the clock:

* `Cache.Books` — the invariant: the table holds proper lines, `current_items` counts them, and
  `current_size` adds up their sizes modulo `2 ^ 32`;
* `Books.remove` / `Books.add` / `Books.renew` — what ejecting or deleting a line, putting a line
  and using a line do to the books;
* `ejectCmpsc311Cache_books` — an ejection removes one line, if there is one;
* `Cache.TimesOverflow` — the times of two lines are too far apart for `compareTimes`, which is the
  only way in which an ejection goes wrong.
-/

/-! ### The invariant -/

/-- The line of an entry of the table. -/
structure IsEntry (c : Cache) (e : Stored Addr) (l : Cmpsc311CacheEntry) : Prop where
  lookup : c.lines.lookup e.block = some l
  /-- It lies under its identifier, -/
  index : cacheIndex l.cid = e.index
  /-- has a buffer, -/
  buf : l.buf ≠ none
  /-- and a size that fits the cache. -/
  size_pos : 0 < l.size
  size_le : l.size ≤ c.maxSize

/-- The invariant of an initialised cache. -/
structure Cache.Books (c : Cache) (ht : HTable Addr) (chains : List (List (Stored Addr))) :
    Prop where
  initialized : c.initialized = true
  table : c.htable = some ht
  holds : ht.Holds chains
  lines : ∀ e ∈ chains.flatten, ∃ l, IsEntry c e l
  positive : 0 < c.maxItems
  /-- `current_items` is the number of lines, -/
  items : c.currentItems.toNat = chains.flatten.length
  within : c.currentItems ≤ c.maxItems
  /-- and `current_size` the sum of their sizes. -/
  bytes : c.currentSize.toNat = c.storedBytes % 2 ^ 32

variable {c c' : Cache} {ht ht' : HTable Addr} {chains chains' : List (List (Stored Addr))}
  {e : Stored Addr} {l : Cmpsc311CacheEntry} {cid : CacheID} {len : UInt32}

/-! ### What is stored -/

/-- The stored lines are those of the entries. -/
theorem stored_eq (htable : c.htable = some ht) (hholds : ht.Holds chains) :
    c.stored = chains.flatten.map fun e => (e.index, c.lines.lookup e.block) := by
  -- the table lists its entries, and each has the line at its block
  have hpairs := congrArg
    (List.map fun p : HtIndexValue × Option Addr => (p.1, p.2.bind fun a => c.lines.lookup a))
    (entries_eq hholds)
  rw [List.map_map, List.map_map] at hpairs
  unfold Cache.stored
  rw [htable]
  exact hpairs

/-- An identifier has the line that its index has. -/
theorem entry_eq (htable : c.htable = some ht) (hholds : ht.Holds chains) :
    c.entry cid = (contents chains (cacheIndex cid)).bind fun a => c.lines.lookup a := by
  unfold Cache.entry
  rw [htable]
  dsimp only
  rw [findValueInHashTable_eq hholds]
  cases contents chains (cacheIndex cid) <;> rfl

/-- The lines that are stored, without their indices. -/
theorem storedLines_perm {stored : List (HtIndexValue × Option Cmpsc311CacheEntry)}
    {idx : HtIndexValue} (h : c.stored.Perm ((idx, some l) :: stored)) (h' : c'.stored = stored) :
    c.storedLines.Perm (l :: c'.storedLines) := by
  unfold Cache.storedLines
  rw [h']
  exact h.filterMap _

/-- The sum of the sizes does not depend on the order of the lines. -/
theorem storedBytes_perm {stored : List (HtIndexValue × Option Cmpsc311CacheEntry)}
    {idx : HtIndexValue} (h : c.stored.Perm ((idx, some l) :: stored)) (h' : c'.stored = stored) :
    c.storedBytes = l.size.toNat + c'.storedBytes := by
  unfold Cache.storedBytes
  rw [h', (h.map _).sum_eq, List.map_cons, List.sum_cons]
  rfl

namespace Cache.Books

/-- Two entries with the same line are the same entry. -/
theorem block_inj (h : c.Books ht chains) {e' : Stored Addr} (he : e ∈ chains.flatten)
    (he' : e' ∈ chains.flatten) (hblock : e.block = e'.block) : e = e' := by
  obtain ⟨l, hl⟩ := h.lines e he
  obtain ⟨l', hl'⟩ := h.lines e' he'
  have hlookup := hl.lookup
  rw [hblock, hl'.lookup] at hlookup
  apply h.holds.index_inj he he'
  rw [← hl.index, ← hl'.index, Option.some.inj hlookup]

/-- The line of an entry, as the cache finds it when it follows the pointer of the entry. -/
theorem line_eq (hl : IsEntry c e l) : c.line e.block = .ok l := by
  unfold Cache.line
  rw [hl.lookup]

/-- The lines that are stored are proper ones. -/
theorem stored_line (h : c.Books ht chains) {p : HtIndexValue × Option Cmpsc311CacheEntry}
    (hp : p ∈ c.stored) : ∃ e ∈ chains.flatten, ∃ l, p = (e.index, some l) ∧ IsEntry c e l := by
  rw [stored_eq h.table h.holds] at hp
  obtain ⟨e, he, rfl⟩ := List.mem_map.mp hp
  obtain ⟨l, hl⟩ := h.lines e he
  exact ⟨e, he, l, by rw [hl.lookup], hl⟩

/-- Other lines under the same addresses show the same line for an identifier, if the line of its
    entry is the same. -/
theorem entry_eq_of_lookup (h : c.Books ht chains) {cid : CacheID} {c' : Cache}
    (hsame : ∀ x ∈ chains.flatten, x.index = cacheIndex cid →
      c'.lines.lookup x.block = c.lines.lookup x.block) :
    (contents chains (cacheIndex cid)).bind (c'.lines.lookup ·) = c.entry cid := by
  rw [entry_eq h.table h.holds]
  cases hstored : contents chains (cacheIndex cid) with
  | none => rfl
  | some a =>
    obtain ⟨x, hx, hidx, rfl⟩ := h.holds.contents_eq_some.mp hstored
    exact hsame x hx hidx

/-- There is a line under every index that is stored. -/
theorem map_some_storedLines (h : c.Books ht chains) :
    c.storedLines.map some = c.stored.map (·.2) := by
  unfold Cache.storedLines
  rw [List.map_filterMap_some_eq_filter_map_isSome, List.filter_eq_self]
  intro o ho
  obtain ⟨p, hp, rfl⟩ := List.mem_map.mp ho
  obtain ⟨e, -, l, rfl, -⟩ := h.stored_line hp
  rfl

/-- The stored lines are those of the entries. -/
theorem mem_storedLines (h : c.Books ht chains) :
    l ∈ c.storedLines ↔ ∃ e ∈ chains.flatten, IsEntry c e l := by
  unfold Cache.storedLines
  rw [List.mem_filterMap]
  constructor
  · rintro ⟨p, hp, hl⟩
    obtain ⟨e, he, l', rfl, hl'⟩ := h.stored_line hp
    obtain rfl := Option.some.inj hl
    exact ⟨e, he, hl'⟩
  · rintro ⟨e, he, hl⟩
    refine ⟨(e.index, c.lines.lookup e.block), ?_, hl.lookup⟩
    rw [stored_eq h.table h.holds]
    exact List.mem_map_of_mem he

/-- The number of stored lines. -/
theorem length_stored (h : c.Books ht chains) : c.stored.length = chains.flatten.length := by
  rw [stored_eq h.table h.holds, List.length_map]

/-- The counter of the table agrees with that of the cache. -/
theorem elements_eq (h : c.Books ht chains) : ht.elements = c.currentItems := by
  rw [h.holds.count, ← h.items, UInt32.ofNat_toNat]

end Cache.Books

/-! ### Removing a line -/

/-- The cache without the line `l` of the entry `e`; `freed` are the buffers freed so far. -/
def Cache.without (c : Cache) (ht' : HTable Addr) (e : Stored Addr) (l : Cmpsc311CacheEntry)
    (freed : List BufPtr) : Cache :=
  { c with
    htable := some ht'
    currentItems := c.currentItems - 1
    currentSize := c.currentSize - l.size
    lines := c.lines.erase e.block
    freed := freed }

/-- The other entries keep their lines, which lie at other addresses. -/
theorem Cache.Books.isEntry_without (h : c.Books ht chains) (he : e ∈ chains.flatten)
    (freed : List BufPtr) {x : Stored Addr} (hx : x ∈ chains.flatten) (hne : x.index ≠ e.index)
    {lx : Cmpsc311CacheEntry} (hlx : IsEntry c x lx) :
    IsEntry (c.without ht' e l freed) x lx := by
  refine ⟨?_, hlx.index, hlx.buf, hlx.size_pos, hlx.size_le⟩
  show (c.lines.erase e.block).lookup x.block = some lx
  rw [AList.lookup_erase_ne, hlx.lookup]
  intro hblock
  exact hne (by rw [h.block_inj hx he hblock])

/-- The line that is removed is the one that is missing. -/
theorem Cache.Books.stored_without (h : c.Books ht chains) (he : e ∈ chains.flatten)
    (hl : IsEntry c e l) (hholds : ht'.Holds (deleteChains e.index chains))
    (freed : List BufPtr) :
    c.stored.Perm ((e.index, some l) :: (c.without ht' e l freed).stored) := by
  -- of the entries only `e` is missing
  have hperm : chains.flatten.Perm (e :: (deleteChains e.index chains).flatten) := by
    rcases deleteChains_cases h.holds e.index with ⟨hnone, -⟩ | ⟨e', he', hidx, hperm⟩
    · exact absurd rfl (contents_eq_none.mp hnone e he)
    · rwa [h.holds.index_inj he' he hidx] at hperm
  rw [stored_eq h.table h.holds,
    stored_eq (show (c.without ht' e l freed).htable = some ht' from rfl) hholds]
  have hmap := hperm.map fun e => (e.index, c.lines.lookup e.block)
  rw [List.map_cons, hl.lookup] at hmap
  refine hmap.trans (List.Perm.of_eq (congrArg _ (List.map_congr_left ?_)))
  intro x hx
  obtain ⟨hx, hne⟩ := (mem_deleteChains h.holds).mp hx
  obtain ⟨lx, hlx⟩ := h.lines x hx
  rw [hlx.lookup, (h.isEntry_without he freed hx hne hlx).lookup]

/-- Without a line the books agree again: one line less, and its size less. -/
theorem Cache.Books.remove (h : c.Books ht chains) (he : e ∈ chains.flatten) (hl : IsEntry c e l)
    (hholds : ht'.Holds (deleteChains e.index chains)) (freed : List BufPtr) :
    (c.without ht' e l freed).Books ht' (deleteChains e.index chains) := by
  have hperm := h.stored_without he hl hholds freed
  have hlen := hperm.length_eq
  rw [List.length_cons, h.length_stored, ← h.items,
    stored_eq (show (c.without ht' e l freed).htable = some ht' from rfl) hholds,
    List.length_map] at hlen
  -- there is a line, so the counter does not wrap
  have hle : (1 : UInt32) ≤ c.currentItems := by
    rw [UInt32.le_iff_toNat_le]
    show 1 ≤ c.currentItems.toNat
    omega
  have hitems : (c.currentItems - 1).toNat = c.currentItems.toNat - 1 :=
    UInt32.toNat_sub_of_le _ _ hle
  constructor
  case initialized => exact h.initialized
  case table => rfl
  case holds => exact hholds
  case positive => exact h.positive
  case lines =>
    intro x hx
    obtain ⟨hx, hne⟩ := (mem_deleteChains h.holds).mp hx
    obtain ⟨lx, hlx⟩ := h.lines x hx
    exact ⟨lx, h.isEntry_without he freed hx hne hlx⟩
  case items =>
    show (c.currentItems - 1).toNat = _
    omega
  case within =>
    have hwithin := UInt32.le_iff_toNat_le.mp h.within
    rw [UInt32.le_iff_toNat_le]
    show (c.currentItems - 1).toNat ≤ c.maxItems.toNat
    omega
  case bytes =>
    -- `current_size` wraps, and so the books add up modulo `2 ^ 32`
    have hsum := storedBytes_perm hperm rfl
    have hbytes := h.bytes
    have hlt := l.size.toNat_lt
    show (c.currentSize - l.size).toNat = _
    rw [UInt32.toNat_sub]
    omega

/-- Its identifier is no longer in the cache, and the others have the lines they had. -/
theorem Cache.Books.entry_without (h : c.Books ht chains) (he : e ∈ chains.flatten)
    (hl : IsEntry c e l) (hholds : ht'.Holds (deleteChains e.index chains))
    (freed : List BufPtr) :
    (c.without ht' e l freed).entry = Function.update c.entry l.cid none := by
  funext cid
  rw [entry_eq (show (c.without ht' e l freed).htable = some ht' from rfl) hholds,
    contents_deleteChains h.holds hholds]
  by_cases hcid : cid = l.cid
  · rw [hcid, hl.index, Function.update_self, Function.update_self]
    rfl
  · -- an identifier is an index of its own, so another one has another entry
    have hne : cacheIndex cid ≠ e.index := by
      rw [← hl.index]
      exact fun hidx => hcid (cacheIndex_injective hidx)
    rw [Function.update_of_ne hne, Function.update_of_ne hcid]
    apply h.entry_eq_of_lookup
    intro x hx hidx
    obtain ⟨lx, hlx⟩ := h.lines x hx
    rw [hlx.lookup, (h.isEntry_without he freed hx (by rwa [hidx]) hlx).lookup]

/-! ### Adding a line -/

/-- The cache with the line `l`, which lies at the address `line`. -/
def Cache.withLine (c : Cache) (ht' : HTable Addr) (line : Addr) (l : Cmpsc311CacheEntry) : Cache :=
  { c with
    lines := c.lines.insert line l
    currentItems := c.currentItems + 1
    currentSize := c.currentSize + l.size
    htable := some ht' }

/-- The lines of the cache keep their addresses. -/
theorem IsEntry.withLine {line : Addr} (hfresh : line ∉ c.lines) {lx : Cmpsc311CacheEntry}
    (hlx : IsEntry c e lx) : IsEntry (c.withLine ht' line l) e lx := by
  refine ⟨?_, hlx.index, hlx.buf, hlx.size_pos, hlx.size_le⟩
  show (c.lines.insert line l).lookup e.block = some lx
  rw [AList.lookup_insert_ne, hlx.lookup]
  -- the address of the new line is that of no other
  rintro rfl
  exact hfresh (AList.lookup_isSome.mp (Option.isSome_of_eq_some hlx.lookup))

/-- The new line is stored with the others. -/
theorem Cache.Books.stored_withLine (h : c.Books ht chains) {entry line : Addr}
    (hfresh : line ∉ c.lines)
    (hholds : ht'.Holds (insertChains ⟨entry, cacheIndex l.cid, line⟩ chains)) :
    (c.withLine ht' line l).stored.Perm ((cacheIndex l.cid, some l) :: c.stored) := by
  rw [stored_eq h.table h.holds,
    stored_eq (show (c.withLine ht' line l).htable = some ht' from rfl) hholds]
  refine ((insertChains_perm h.holds _).map _).trans (List.Perm.of_eq ?_)
  rw [List.map_cons]
  congr 1
  · rw [show (c.withLine ht' line l).lines.lookup line = some l from AList.lookup_insert _]
  · apply List.map_congr_left
    intro x hx
    obtain ⟨lx, hlx⟩ := h.lines x hx
    rw [hlx.lookup, (hlx.withLine hfresh).lookup]

/-- With a proper line for which there is room among the items, the books agree again. -/
theorem Cache.Books.add (h : c.Books ht chains) {entry line : Addr} (hfresh : line ∉ c.lines)
    (hbuf : l.buf ≠ none) (hpos : 0 < l.size) (hle : l.size ≤ c.maxSize)
    (hroom : c.currentItems < c.maxItems)
    (hholds : ht'.Holds (insertChains ⟨entry, cacheIndex l.cid, line⟩ chains)) :
    (c.withLine ht' line l).Books ht' (insertChains ⟨entry, cacheIndex l.cid, line⟩ chains) := by
  have hperm := h.stored_withLine hfresh hholds
  have hlt := UInt32.lt_iff_toNat_lt.mp hroom
  have hmax := c.maxItems.toNat_lt
  -- below its limit the counter does not wrap
  have hitems : (c.currentItems + 1).toNat = c.currentItems.toNat + 1 := by
    rw [UInt32.toNat_add]
    exact Nat.mod_eq_of_lt (by show c.currentItems.toNat + 1 < 2 ^ 32; omega)
  constructor
  case initialized => exact h.initialized
  case table => rfl
  case holds => exact hholds
  case positive => exact h.positive
  case lines =>
    intro x hx
    rw [(insertChains_perm h.holds _).mem_iff, List.mem_cons] at hx
    rcases hx with rfl | hx
    · exact ⟨l, AList.lookup_insert _, rfl, hbuf, hpos, hle⟩
    · obtain ⟨lx, hlx⟩ := h.lines x hx
      exact ⟨lx, hlx.withLine hfresh⟩
  case items =>
    show (c.currentItems + 1).toNat = _
    rw [hitems, (insertChains_perm h.holds _).length_eq, List.length_cons, h.items]
  case within =>
    rw [UInt32.le_iff_toNat_le]
    show (c.currentItems + 1).toNat ≤ c.maxItems.toNat
    omega
  case bytes =>
    have hsum := storedBytes_perm hperm rfl
    have hbytes := h.bytes
    show (c.currentSize + l.size).toNat = _
    rw [UInt32.toNat_add]
    omega

/-- Its identifier has the new line, and the others have the lines they had. -/
theorem Cache.Books.entry_withLine (h : c.Books ht chains) {entry line : Addr}
    (hfresh : line ∉ c.lines) (habsent : contents chains (cacheIndex l.cid) = none)
    (hholds : ht'.Holds (insertChains ⟨entry, cacheIndex l.cid, line⟩ chains)) :
    (c.withLine ht' line l).entry = Function.update c.entry l.cid (some l) := by
  funext cid
  rw [entry_eq (show (c.withLine ht' line l).htable = some ht' from rfl) hholds,
    contents_insertChains h.holds hholds habsent]
  by_cases hcid : cid = l.cid
  · rw [hcid, Function.update_self, Function.update_self]
    exact AList.lookup_insert _
  · have hne : cacheIndex cid ≠ cacheIndex l.cid := fun hidx => hcid (cacheIndex_injective hidx)
    rw [Function.update_of_ne hne, Function.update_of_ne hcid]
    apply h.entry_eq_of_lookup
    intro x hx _
    obtain ⟨lx, hlx⟩ := h.lines x hx
    rw [hlx.lookup, (hlx.withLine hfresh).lookup]

/-! ### Using a line -/

/-- The cache with the time of the line `l` of the entry `e` set to `now`. -/
def Cache.renewed (c : Cache) (e : Stored Addr) (l : Cmpsc311CacheEntry) (now : Timeval) : Cache :=
  { c with lines := c.lines.insert e.block { l with lastUsed := now } }

/-- The entries that are not used keep their lines. -/
theorem Cache.Books.lookup_renewed (h : c.Books ht chains) (he : e ∈ chains.flatten)
    (l : Cmpsc311CacheEntry) (now : Timeval) {x : Stored Addr} (hx : x ∈ chains.flatten)
    (hne : x.index ≠ e.index) :
    (c.renewed e l now).lines.lookup x.block = c.lines.lookup x.block := by
  show (c.lines.insert e.block _).lookup x.block = _
  rw [AList.lookup_insert_ne]
  intro hblock
  exact hne (by rw [h.block_inj hx he hblock])

/-- The line has the new time. -/
theorem IsEntry.renewed (hl : IsEntry c e l) (now : Timeval) :
    IsEntry (c.renewed e l now) e { l with lastUsed := now } :=
  ⟨AList.lookup_insert _, hl.index, hl.buf, hl.size_pos, hl.size_le⟩

/-- Every line is there after the use of one, with the size it had. -/
theorem Cache.Books.lines_renewed (h : c.Books ht chains) (he : e ∈ chains.flatten)
    (hl : IsEntry c e l) (now : Timeval) {x : Stored Addr} (hx : x ∈ chains.flatten) :
    ∃ lx lx', IsEntry c x lx ∧ IsEntry (c.renewed e l now) x lx' ∧ lx'.size = lx.size := by
  by_cases hidx : x.index = e.index
  · -- the line that is used
    obtain rfl := h.holds.index_inj hx he hidx
    exact ⟨l, _, hl, hl.renewed now, rfl⟩
  · obtain ⟨lx, hlx⟩ := h.lines x hx
    have hsame := h.lookup_renewed he l now hx hidx
    exact ⟨lx, lx, hlx, ⟨hsame.trans hlx.lookup, hlx.index, hlx.buf, hlx.size_pos, hlx.size_le⟩,
      rfl⟩

/-- The sum of the sizes does not depend on the times, -/
theorem Cache.Books.storedBytes_renewed (h : c.Books ht chains) (he : e ∈ chains.flatten)
    (hl : IsEntry c e l) (now : Timeval) : (c.renewed e l now).storedBytes = c.storedBytes := by
  unfold Cache.storedBytes
  rw [stored_eq h.table h.holds,
    stored_eq (show (c.renewed e l now).htable = some ht from h.table) h.holds, List.map_map,
    List.map_map]
  congr 1
  apply List.map_congr_left
  intro x hx
  obtain ⟨lx, lx', hlx, hlx', hsize⟩ := h.lines_renewed he hl now hx
  simp only [Function.comp, hlx.lookup, hlx'.lookup, Option.map_some, hsize]

/-- and neither do the books. -/
theorem Cache.Books.renew (h : c.Books ht chains) (he : e ∈ chains.flatten) (hl : IsEntry c e l)
    (now : Timeval) : (c.renewed e l now).Books ht chains := by
  constructor
  case initialized => exact h.initialized
  case table => exact h.table
  case holds => exact h.holds
  case positive => exact h.positive
  case items => exact h.items
  case within => exact h.within
  case lines =>
    intro x hx
    obtain ⟨-, lx', -, hlx', -⟩ := h.lines_renewed he hl now hx
    exact ⟨lx', hlx'⟩
  case bytes =>
    rw [h.storedBytes_renewed he hl now]
    exact h.bytes

/-- The one identifier has its line with the new time. -/
theorem Cache.Books.entry_renewed (h : c.Books ht chains) (he : e ∈ chains.flatten)
    (hl : IsEntry c e l) (now : Timeval) :
    (c.renewed e l now).entry
      = Function.update c.entry l.cid (some { l with lastUsed := now }) := by
  funext cid
  rw [entry_eq (show (c.renewed e l now).htable = some ht from h.table) h.holds]
  by_cases hcid : cid = l.cid
  · rw [hcid, hl.index, Function.update_self, h.holds.contents_eq_some.mpr ⟨e, he, rfl, rfl⟩]
    exact (hl.renewed now).lookup
  · rw [Function.update_of_ne hcid]
    apply h.entry_eq_of_lookup
    intro x hx hidx
    refine h.lookup_renewed he l now hx ?_
    rw [hidx, ← hl.index]
    exact fun heq => hcid (cacheIndex_injective heq)

/-! ### Ejecting a line -/

/-- The times of two lines are so far apart that `compareTimes` overflows. -/
def Cache.TimesOverflow (c : Cache) : Prop :=
  ∃ cid cid' l l', c.entry cid = some l ∧ c.entry cid' = some l' ∧
    compareTimes l.lastUsed l'.lastUsed = .error .signedOverflow

/-- The computation goes wrong by an overflow only. -/
def OverflowsOnly {α : Type} (x : Except Fault α) : Prop :=
  ∀ fault, x = .error fault → fault = .signedOverflow

/-- A value that no `long` holds is an overflow. -/
theorem overflowsOnly_long (x : ℤ) : OverflowsOnly (long x) := by
  intro fault h
  unfold long at h
  split_ifs at h
  exact (Except.error.inj h).symm

/-- So it is where two such computations follow each other. -/
theorem OverflowsOnly.bind {α γ : Type} {x : Except Fault α} {f : α → Except Fault γ}
    (hx : OverflowsOnly x) (hf : ∀ a, OverflowsOnly (f a)) : OverflowsOnly (x >>= f) := by
  intro fault h
  cases x with
  | error e => exact hx fault (congrArg Except.error (Except.error.inj h))
  | ok a => exact hf a fault h

/-- `compareTimes` goes wrong by an overflow only: it adds, subtracts and multiplies. -/
theorem overflowsOnly_compareTimes (t u : Timeval) : OverflowsOnly (compareTimes t u) := by
  unfold compareTimes
  split
  · refine (overflowsOnly_long _).bind fun _ => ?_
    refine (overflowsOnly_long _).bind fun _ => ?_
    refine (overflowsOnly_long _).bind fun _ => ?_
    refine (overflowsOnly_long _).bind fun _ => ?_
    refine (overflowsOnly_long _).bind fun _ => ?_
    exact overflowsOnly_long _
  · refine (overflowsOnly_long _).bind fun _ => ?_
    refine (overflowsOnly_long _).bind fun _ => ?_
    refine (overflowsOnly_long _).bind fun _ => ?_
    exact overflowsOnly_long _

/-- A clock reading within some 139,000 years of the Epoch. -/
def Timeval.InRange (t : Timeval) : Prop :=
  (0 ≤ t.tvUsec ∧ t.tvUsec < 1000000) ∧ -2 ^ 42 ≤ t.tvSec ∧ t.tvSec ≤ 2 ^ 42

instance (t : Timeval) : Decidable t.InRange := inferInstanceAs (Decidable (_ ∧ _))

/-- A value in range is what a `long` holds. -/
theorem long_eq {x : ℤ} (h : -2 ^ 63 ≤ x ∧ x < 2 ^ 63) : long x = .ok x := if_pos h

/-- Such readings can be compared. -/
theorem compareTimes_inRange {t u : Timeval} (ht : t.InRange) (hu : u.InRange) :
    ∃ r, compareTimes t u = .ok r := by
  obtain ⟨⟨_, _⟩, _, _⟩ := ht
  obtain ⟨⟨_, _⟩, _, _⟩ := hu
  unfold compareTimes
  by_cases hborrow : u.tvUsec < t.tvUsec
  · rw [if_pos hborrow, long_eq (by omega), ok_bind, long_eq (by omega), ok_bind,
      long_eq (by omega), ok_bind, long_eq (by omega), ok_bind, long_eq (by omega), ok_bind,
      long_eq (by omega)]
    exact ⟨_, rfl⟩
  · rw [if_neg hborrow, long_eq (by omega), ok_bind, long_eq (by omega), ok_bind,
      long_eq (by omega), ok_bind, long_eq (by omega)]
    exact ⟨_, rfl⟩

/-- The times of all lines are in range. -/
def Cache.TimesInRange (c : Cache) : Prop := ∀ cid l, c.entry cid = some l → l.lastUsed.InRange

/-- Such times are not too far apart. -/
theorem Cache.TimesInRange.not_timesOverflow (h : c.TimesInRange) : ¬ c.TimesOverflow := by
  rintro ⟨cid, cid', l, l', hl, hl', hover⟩
  obtain ⟨r, hr⟩ := compareTimes_inRange (h cid l hl) (h cid' l' hl')
  rw [hover] at hr
  exact absurd hr (by simp)

/-- The line of an entry is that of its identifier. -/
theorem Cache.Books.entry_of_isEntry (h : c.Books ht chains) (he : e ∈ chains.flatten)
    (hl : IsEntry c e l) : c.entry l.cid = some l := by
  rw [entry_eq h.table h.holds, hl.index, h.holds.contents_eq_some.mpr ⟨e, he, rfl, rfl⟩]
  exact hl.lookup

/-- The loop of `eject_cmpsc311_cache` chooses an entry if there is one.  The induction is on the
    fuel; `rest` are the entries that the iterator has still to return. -/
theorem ejectLoop_books (h : c.Books ht chains) {fuel : ℕ} {it : HtIterator}
    {rest : List (Stored Addr)} {chosen : Option (Stored Addr)} (hit : it.Before chains rest)
    (hrest : ∀ x ∈ rest, x ∈ chains.flatten) (hchosen : ∀ x, chosen = some x → x ∈ chains.flatten)
    (hfuel : rest.length < fuel) :
    (c.TimesOverflow ∧
        c.ejectLoop ht fuel it (chosen.map (·.block)) = .error .signedOverflow) ∨
      ∃ r, c.ejectLoop ht fuel it (chosen.map (·.block)) = .ok (r.map (·.block)) ∧
        (∀ x, r = some x → x ∈ chains.flatten) ∧ (r = none ↔ rest = [] ∧ chosen = none) := by
  induction fuel generalizing it rest chosen with
  | zero => exact absurd hfuel (Nat.not_lt_zero _)
  | succ fuel ih =>
    obtain ⟨it', hiterate, hit'⟩ := iterateHashTable_spec h.holds hit
    unfold Cache.ejectLoop
    rw [hiterate, ok_bind]
    cases rest with
    | nil =>
      -- the iterator has passed all entries
      right
      refine ⟨chosen, ?_, hchosen, by simp⟩
      cases chosen <;> rfl
    | cons x rest =>
      have hx := hrest x List.mem_cons_self
      have hrest' : ∀ y ∈ rest, y ∈ chains.flatten :=
        fun y hy => hrest y (List.mem_cons_of_mem _ hy)
      have hfuel' : rest.length < fuel := by simpa using hfuel
      -- the loop goes on with an entry chosen, and so ends with one
      have hgo : ∀ y ∈ chains.flatten, (c.TimesOverflow ∧
            c.ejectLoop ht fuel it' (some y.block) = .error .signedOverflow) ∨
          ∃ r, c.ejectLoop ht fuel it' (some y.block) = .ok (r.map (·.block)) ∧
            (∀ z, r = some z → z ∈ chains.flatten) ∧
            (r = none ↔ x :: rest = [] ∧ chosen = none) := by
        intro y hy
        have hsome : ∀ z, some y = some z → z ∈ chains.flatten :=
          fun z hz => Option.some.inj hz ▸ hy
        rcases @ih it' rest (some y) hit' hrest' hsome hfuel' with hfault | ⟨r, hr, hmem, hnone⟩
        · exact .inl hfault
        · refine .inr ⟨r, hr, hmem, ?_⟩
          rw [hnone]
          simp
      cases chosen with
      | none => exact hgo x hx
      | some y =>
        have hy := hchosen y rfl
        obtain ⟨lx, hlx⟩ := h.lines x hx
        obtain ⟨ly, hly⟩ := h.lines y hy
        simp only [List.head?_cons, Option.map_some]
        rw [Cache.Books.line_eq hlx, ok_bind, Cache.Books.line_eq hly, ok_bind]
        cases hcmp : compareTimes lx.lastUsed ly.lastUsed with
        | error fault =>
          -- the times of two lines of the cache are too far apart
          obtain rfl := overflowsOnly_compareTimes _ _ _ hcmp
          exact .inl ⟨⟨_, _, lx, ly, h.entry_of_isEntry hx hlx, h.entry_of_isEntry hy hly, hcmp⟩,
            rfl⟩
        | ok cmp =>
          rw [ok_bind]
          by_cases hlt : cmp < 0
          · rw [if_pos hlt]
            exact hgo x hx
          · rw [if_neg hlt]
            exact hgo y hy

/-- As many entries as the heap of the table holds. -/
theorem HTable.Holds.length_lt_fuel (h : ht.Holds chains) : chains.flatten.length < ht.fuel := by
  have hlen := h.owned.length_eq
  rw [List.length_map] at hlen
  unfold HTable.fuel
  omega

/-- **Ejection.**  It refuses where the table is empty, and otherwise removes one line, the one it
    reports, unless the times of the lines are too far apart. -/
theorem ejectCmpsc311Cache_books (h : c.Books ht chains) :
    (chains.flatten = [] ∧ ejectCmpsc311Cache c = .ok (-1, c)) ∨
      (c.TimesOverflow ∧ ejectCmpsc311Cache c = .error .signedOverflow) ∨
      ∃ e ∈ chains.flatten, ∃ l ht', IsEntry c e l ∧ c.victim = some l.cid ∧
        ht'.Holds (deleteChains e.index chains) ∧
        ejectCmpsc311Cache c = .ok (0, c.without ht' e l (c.freed ++ [l.buf])) := by
  unfold ejectCmpsc311Cache Cache.table Cache.victim
  rw [h.initialized, h.table]
  simp only [Bool.not_true, Bool.false_eq_true, if_false, ok_bind]
  rcases @ejectLoop_books c ht chains h ht.fuel _ _ none before_init (fun x hx => hx) (by simp)
    h.holds.length_lt_fuel with ⟨hover, hloop⟩ | ⟨r, hloop, hmem, hnone⟩
  · rw [show Option.map (fun x : Stored Addr => x.block) none = none from rfl] at hloop
    rw [hloop]
    exact .inr (.inl ⟨hover, rfl⟩)
  · rw [show Option.map (fun x : Stored Addr => x.block) none = none from rfl] at hloop
    rw [hloop, ok_bind]
    cases r with
    | none => exact .inl ⟨(hnone.mp rfl).1, rfl⟩
    | some e =>
      have he := hmem e rfl
      obtain ⟨l, hl⟩ := h.lines e he
      obtain ⟨ht', hdelete, hholds', -⟩ :=
        deleteValueFromHashTable_holds h.holds (cacheIndex l.cid)
      right
      right
      refine ⟨e, he, l, ht', hl, ?_, by rwa [hl.index] at hholds', ?_⟩
      · simp only [Option.map_some, hl.lookup]
      · simp only [Option.map_some]
        rw [Cache.Books.line_eq hl, ok_bind, hdelete, ok_bind]
        unfold Cache.without
        rw [h.initialized]
        rfl

end NetworkExperiment
