import NetworkExperiment.Hashtable.Iterator

namespace NetworkExperiment

/-!
# The cache

The cache of `cmpsc311_cache.c` over the hash table, with `compareTimes` of `cmpsc311_util.c`:

* `Timeval` / `compareTimes` — clock readings, and the difference of two of them;
* `Cmpsc311CacheEntry` / `Cache` — a cache line, and the global data of the cache with the heap of
  its lines;
* `initCmpsc311Cache`, `putCmpsc311Cache`, `getCmpsc311Cache`, `deleteCmpsc311Cache`,
  `closeCmpsc311Cache` — the interface;
* `ejectCmpsc311Cache` — the choice of a line to eject;
* `Cache.stored` / `Cache.storedLines` / `Cache.entry` — the lines of the cache, read off its table.

A block of the hash table is the address of a cache line.  What `gettimeofday` and `malloc` return
is an argument of the functions that call them.
-/

/-! ### Time -/

/-- `struct timeval`. -/
@[ext] structure Timeval where
  tvSec : ℤ
  tvUsec : ℤ
  deriving DecidableEq

/-- The result of an operation on `long` values, which C leaves undefined out of range. -/
def long (x : ℤ) : Except Fault ℤ :=
  if -2 ^ 63 ≤ x ∧ x < 2 ^ 63 then .ok x else .error .signedOverflow

/-- `compareTimes`: the time from `tm1` to `tm2` in microseconds, positive when `tm1` is the earlier
    one.  Every operation is one on `long` values. -/
def compareTimes (tm1 tm2 : Timeval) : Except Fault ℤ := do
  if tm2.tvUsec < tm1.tvUsec then
    -- borrow a second
    let sec ← long (tm2.tvSec - tm1.tvSec)
    let sec ← long (sec - 1)
    let retval ← long (sec * 1000000)
    let usec ← long (tm2.tvUsec + 1000000)
    let usec ← long (usec - tm1.tvUsec)
    long (retval + usec)
  else
    let sec ← long (tm2.tvSec - tm1.tvSec)
    let retval ← long (sec * 1000000)
    let usec ← long (tm2.tvUsec - tm1.tvUsec)
    long (retval + usec)

/-! ### The data of the cache -/

/-- `typedef uint32_t CacheID`. -/
abbrev CacheID := UInt32

/-- A pointer to a buffer of the caller; `none` is `NULL`. -/
abbrev BufPtr := Option ℕ

/-- A cache line: the identifier and the length of an item, its buffer, which belongs to the cache
    from `put` on, and when the line was used last. -/
structure Cmpsc311CacheEntry where
  cid : CacheID
  size : UInt32
  buf : BufPtr
  lastUsed : Timeval
  deriving DecidableEq

/-- The global data of the cache, the heap of its lines, and the buffers that have been freed. -/
structure Cache where
  initialized : Bool
  maxItems : UInt32
  maxSize : UInt32
  currentItems : UInt32
  currentSize : UInt32
  htable : Option (HTable Addr)
  lines : AList fun _ : Addr => Cmpsc311CacheEntry
  freed : List BufPtr

/-- `CMPSC311_CACHE_TABLE_BIT_WIDTH`. -/
def cacheTableBitWidth : UInt16 := 8

/-- The global data as the program starts. -/
def Cache.initial : Cache where
  initialized := false
  maxItems := 0
  maxSize := 0
  currentItems := 0
  currentSize := 0
  htable := none
  lines := ∅
  freed := []

/-- `*cmpsc311_htable`.  The pointer is `NULL` where the cache is not initialised; no call follows
    it there. -/
def Cache.table (c : Cache) : Except Fault (HTable Addr) :=
  match c.htable with
  | some ht => .ok ht
  | none => .error .invalidAccess

/-- The cache line at an address, which the table has stored; an address without a line is one that
    has been freed. -/
def Cache.line (c : Cache) (a : Addr) : Except Fault Cmpsc311CacheEntry :=
  match c.lines.lookup a with
  | some l => .ok l
  | none => .error .invalidAccess

/-- The conversion of a cache identifier to an index of the hash table. -/
def cacheIndex (cid : CacheID) : HtIndexValue := cid.toUInt64

/-- `init_cmpsc311_cache`.  A cache that is initialised already, and limits of zero, are refused
    without a change. -/
def initCmpsc311Cache (c : Cache) (maxItems maxSize : UInt32) : Except Fault (ℤ × Cache) := do
  if c.initialized then
    return (-1, c)
  if maxItems = 0 then
    return (-1, c)
  if maxSize = 0 then
    return (-1, c)
  let ht ← initHashTable Addr cacheTableBitWidth
  return (0,
    { c with
      initialized := true
      maxItems := maxItems
      maxSize := maxSize
      currentItems := 0
      currentSize := 0
      htable := some ht })

/-! ### Ejection -/

/-- The loop of `eject_cmpsc311_cache` over the table, as the iterator goes through it; `entry` is
    the line chosen so far, `NULL` in front of the first one. -/
def Cache.ejectLoop (c : Cache) (ht : HTable Addr) :
    ℕ → HtIterator → Option Addr → Except Fault (Option Addr)
  | 0, _, _ => .error .endlessWalk
  | fuel + 1, it, entry => do
      let (ref, it) ← iterateHashTable ht it
      match ref, entry with
      | none, entry => return entry
      | some ref, none => ejectLoop c ht fuel it (some ref)
      | some ref, some entry =>
          let r ← c.line ref
          let e ← c.line entry
          let cmp ← compareTimes r.lastUsed e.lastUsed
          -- negative when `ref` was used after the line chosen so far
          if cmp < 0 then ejectLoop c ht fuel it (some ref)
          else ejectLoop c ht fuel it (some entry)

/-- `eject_cmpsc311_cache`: the line that the loop has chosen leaves the table, its buffer is freed,
    and then the line itself. -/
def ejectCmpsc311Cache (c : Cache) : Except Fault (ℤ × Cache) := do
  if !c.initialized then
    return (-1, c)
  let ht ← c.table
  match ← c.ejectLoop ht ht.fuel initHashTableIterator none with
  | none => return (-1, c)
  | some entry =>
      let e ← c.line entry
      let (_, ht) ← deleteValueFromHashTable ht (cacheIndex e.cid)
      return (0,
        { c with
          htable := some ht
          currentItems := c.currentItems - 1
          currentSize := c.currentSize - e.size
          lines := c.lines.erase entry
          freed := c.freed ++ [e.buf] })

/-- The identifier that `eject_cmpsc311_cache` reports as it ejects a line. -/
def Cache.victim (c : Cache) : Option CacheID :=
  match c.htable with
  | some ht =>
      match c.ejectLoop ht ht.fuel initHashTableIterator none with
      | .ok (some entry) => (c.lines.lookup entry).map (·.cid)
      | _ => none
  | none => none

/-! ### The interface -/

/-- The room test of `put_cmpsc311_cache`: there are as many items as there may be, or too many
    bytes with the new item.  The sum of the sizes is one of 32 bits. -/
def Cache.NoRoom (c : Cache) (len : UInt32) : Prop :=
  c.currentItems ≥ c.maxItems ∨ c.currentSize + len > c.maxSize

instance (c : Cache) (len : UInt32) : Decidable (c.NoRoom len) :=
  inferInstanceAs (Decidable (_ ∨ _))

/-- The loop of `put_cmpsc311_cache` that ejects lines until there is room; `false` says that it was
    unable to. -/
def Cache.putLoop (len : UInt32) : ℕ → Cache → Except Fault (Bool × Cache)
  | 0, _ => .error .endlessWalk
  | fuel + 1, c => do
      if c.NoRoom len then
        let (ret, c) ← ejectCmpsc311Cache c
        if ret = -1 then return (false, c)
        putLoop len fuel c
      else
        return (true, c)

/-- The caches at which that loop calls `eject_cmpsc311_cache`, in order. -/
def Cache.ejectPoints (len : UInt32) : ℕ → Cache → List Cache
  | 0, _ => []
  | fuel + 1, c =>
      if c.NoRoom len then
        match ejectCmpsc311Cache c with
        | .ok (ret, c') => c :: if ret = -1 then [] else ejectPoints len fuel c'
        | .error _ => [c]
      else
        []

/-- More steps than the loop of `put_cmpsc311_cache` takes: each one removes an entry. -/
def Cache.fuel (c : Cache) : ℕ :=
  match c.htable with
  | some ht => ht.fuel
  | none => 1

/-- The checks that `put_cmpsc311_cache` makes before it ejects anything. -/
def Cache.Accepts (c : Cache) (buf : BufPtr) (len : UInt32) : Prop :=
  c.initialized = true ∧ ¬ (len = 0 ∨ buf = none) ∧ len ≤ c.maxSize

instance (c : Cache) (buf : BufPtr) (len : UInt32) : Decidable (c.Accepts buf len) :=
  inferInstanceAs (Decidable (_ ∧ _ ∧ _))

/-- `put_cmpsc311_cache`.  `malloc` returns `line` for the cache line and `entry` for the entry of
    the hash table, and `gettimeofday` returns `now`. -/
def putCmpsc311Cache (c : Cache) (line entry : Addr) (now : Timeval) (cid : CacheID) (buf : BufPtr)
    (len : UInt32) : Except Fault (ℤ × Cache) := do
  if !c.initialized then
    return (-1, c)
  if len = 0 ∨ buf = none then
    return (-1, c)
  if len > c.maxSize then
    return (-1, c)
  let (room, c) ← c.putLoop len c.fuel
  if !room then
    return (-1, c)
  -- the line is counted before the table takes it, which asserts that `cid` is new
  let c :=
    { c with
      lines := c.lines.insert line ⟨cid, len, buf, now⟩
      currentItems := c.currentItems + 1
      currentSize := c.currentSize + len }
  let ht ← c.table
  let (ret, ht) ← insertValueInHashTable ht entry (cacheIndex cid) (some line)
  return (ret, { c with htable := some ht })

/-- `get_cmpsc311_cache`: the buffer, or `NULL`.  A line that is found is used now; the buffer
    still belongs to the cache. -/
def getCmpsc311Cache (c : Cache) (now : Timeval) (cid : CacheID) :
    Except Fault (BufPtr × Cache) := do
  if !c.initialized then
    return (none, c)
  let ht ← c.table
  match ← findValueInHashTable ht (cacheIndex cid) with
  | some ref =>
      let r ← c.line ref
      return (r.buf, { c with lines := c.lines.insert ref { r with lastUsed := now } })
  | none => return (none, c)

/-- `delete_cmpsc311_cache`: the buffer, or `NULL`.  The line leaves the cache, and its buffer is
    not freed. -/
def deleteCmpsc311Cache (c : Cache) (cid : CacheID) : Except Fault (BufPtr × Cache) := do
  if !c.initialized then
    return (none, c)
  let ht ← c.table
  let (ref, ht) ← deleteValueFromHashTable ht (cacheIndex cid)
  -- the buffer goes back to the caller, who frees it
  match ref with
  | none => return (none, { c with htable := some ht })
  | some ref =>
      let r ← c.line ref
      return (r.buf,
        { c with
          htable := some ht
          currentItems := c.currentItems - 1
          currentSize := c.currentSize - r.size
          lines := c.lines.erase ref })

/-- The loop of `close_cmpsc311_cache` over the items; `false` says that it failed. -/
def Cache.closeLoop : ℕ → Cache → Except Fault (Bool × Cache)
  | 0, _ => .error .endlessWalk
  | fuel + 1, c => do
      if c.currentItems > 0 then
        let ht ← c.table
        -- the iterator starts afresh each time, as the table has changed
        let (ref, _) ← iterateHashTable ht initHashTableIterator
        match ref with
        | none => return (false, c)
        | some ref =>
            let r ← c.line ref
            let (chk, ht) ← deleteValueFromHashTable ht (cacheIndex r.cid)
            if some ref ≠ chk then
              return (false, { c with htable := some ht })
            closeLoop fuel
              { c with
                htable := some ht
                currentItems := c.currentItems - 1
                currentSize := c.currentSize - r.size
                lines := c.lines.erase ref
                freed := c.freed ++ [r.buf] }
      else
        return (true, c)

/-- `close_cmpsc311_cache`: all lines and their buffers are freed, and the globals are as at the
    start.  A block that `cleanupHashTable` frees is a cache line. -/
def closeCmpsc311Cache (c : Cache) : Except Fault (ℤ × Cache) := do
  if !c.initialized then
    return (-1, c)
  let (done, c) ← c.closeLoop c.fuel
  if !done then
    return (-1, c)
  let ht ← c.table
  let (blks, _) ← cleanupHashTable ht
  return (0,
    { c with
      htable := none
      maxItems := 0
      maxSize := 0
      currentItems := 0
      currentSize := 0
      initialized := false
      lines := (blks.filterMap id).foldl (fun lines blk => lines.erase blk) c.lines })

/-! ### What is stored -/

/-- What the table of the cache stores: the cache line under each index. -/
def Cache.stored (c : Cache) : List (HtIndexValue × Option Cmpsc311CacheEntry) :=
  match c.htable with
  | some ht => ht.entries.map fun e => (e.index, e.block.bind fun a => c.lines.lookup a)
  | none => []

/-- The stored lines. -/
def Cache.storedLines (c : Cache) : List Cmpsc311CacheEntry := c.stored.filterMap (·.2)

/-- The exact sum of the sizes of the stored lines. -/
def Cache.storedBytes (c : Cache) : ℕ :=
  (c.stored.map fun p => (p.2.map (·.size.toNat)).getD 0).sum

/-- The line that is stored for an identifier. -/
def Cache.entry (c : Cache) (cid : CacheID) : Option Cmpsc311CacheEntry :=
  match c.htable with
  | some ht =>
      match findValueInHashTable ht (cacheIndex cid) with
      | .ok (some ref) => c.lines.lookup ref
      | _ => none
  | none => none

end NetworkExperiment
