import Mathlib.Algebra.Order.Ring.Int
import Mathlib.Data.List.AList
import NetworkExperiment.Lib.LinkedChain

namespace NetworkExperiment

/-!
# The hash table

The chained hash table of `cmpsc311_hashtable.c`, with its entries in a heap:

* `HtEntryData` / `HTable` — an entry of a chain, and the table with the heap of its entries;
* `Fault` — how a call of the library can go wrong: a failed assertion, an access through a pointer
  that names no entry, a walk that does not end, or an overflow that C leaves undefined;
* `insertValueInHashTable` / `findValueInHashTable` / `deleteValueFromHashTable` — the operations;
* `cleanupHashTable` — the end of a table;
* `HTable.entries` — the entries of a table, read off its chains;
* `HtIterator` / `iterateHashTable` — the iterator.

A walk along a chain that visits more entries than the heap holds goes round in a circle; this is
where the walks of the model stop.
-/

/-! ### Entries and the table -/

/-- The address of an entry. -/
abbrev Addr := ℕ

/-- A pointer to an entry; `none` is `NULL`. -/
abbrev Ptr := Option Addr

/-- `typedef unsigned long HtIndexValue`. -/
abbrev HtIndexValue := UInt64

/-- `HT_COOKIE_VALUE`, which every entry carries from its insertion on. -/
def htCookieValue : UInt16 := 0xa3a3

/-- An entry of a chain.  The block is a pointer of the caller; `none` is `NULL`. -/
structure HtEntryData (β : Type) where
  cookie : UInt16
  index : HtIndexValue
  block : Option β
  prev : Ptr
  next : Ptr
  deriving DecidableEq

/-- The table: the first entry of each chain, and the heap in which the entries lie. -/
structure HTable (β : Type) where
  htTableSize : UInt16
  elements : UInt32
  hasHTable : List Ptr
  heap : AList fun _ : Addr => HtEntryData β

/-- How a call of the library goes wrong. -/
inductive Fault
  /-- `assert(bits<16)`. -/
  | tooManyBits
  /-- "Duplicate index value inserted into hash table". -/
  | duplicateIndex
  /-- "Cookie corruption: memory error likely". -/
  | cookieCorruption
  /-- An access to an address that holds no entry, or to a chain that the table does not have. -/
  | invalidAccess
  /-- A walk that goes round in a circle. -/
  | endlessWalk
  /-- Signed arithmetic whose result is out of range. -/
  | signedOverflow
  deriving DecidableEq, Repr

variable {β : Type}

/-- The table that `initHashTable` sets up. -/
def HTable.empty (β : Type) (size : UInt16) : HTable β where
  htTableSize := size
  elements := 0
  hasHTable := List.replicate size.toNat none
  heap := ∅

/-- `initHashTable`: a table of `2 ^ bits` chains, where `bits` leaves the shift within the 16 bits
    of the size. -/
def initHashTable (β : Type) (bits : UInt16) : Except Fault (HTable β) :=
  if bits < 16 then .ok (.empty β (1 <<< bits)) else .error .tooManyBits

/-- `HASH_VALUE(x, h)`: the chain in which the entry of an index is, if there is one. -/
def HTable.hashValue (ht : HTable β) (x : HtIndexValue) : ℕ := x.toNat % ht.htTableSize.toNat

/-- The table with the entry `c` at the address `a`. -/
def HTable.put (ht : HTable β) (a : Addr) (c : HtEntryData β) : HTable β :=
  { ht with heap := ht.heap.insert a c }

/-- The entry at an address, as a pointer to it is followed. -/
def HTable.deref (ht : HTable β) (a : Addr) : Except Fault (HtEntryData β) :=
  match ht.heap.lookup a with
  | some c => .ok c
  | none => .error .invalidAccess

/-- An assignment to a field of the entry at an address. -/
def HTable.store (ht : HTable β) (a : Addr) (assign : HtEntryData β → HtEntryData β) :
    Except Fault (HTable β) := do
  let c ← ht.deref a
  return ht.put a (assign c)

/-- An assignment through a pointer that is checked for `NULL` first. -/
def HTable.storeIf (ht : HTable β) (p : Ptr) (assign : HtEntryData β → HtEntryData β) :
    Except Fault (HTable β) :=
  match p with
  | some a => ht.store a assign
  | none => .ok ht

/-- `ht->hasHTable[i]`. -/
def HTable.bin (ht : HTable β) (i : ℕ) : Except Fault Ptr :=
  match ht.hasHTable[i]? with
  | some p => .ok p
  | none => .error .invalidAccess

/-- `ht->hasHTable[i] = p`. -/
def HTable.setBin (ht : HTable β) (i : ℕ) (p : Ptr) : HTable β :=
  { ht with hasHTable := ht.hasHTable.set i p }

/-- More steps than a walk without a circle takes. -/
def HTable.fuel (ht : HTable β) : ℕ := ht.heap.keys.length + 1

/-- `VALIDATE_HT_ENTRY`: an entry whose cookie has been overwritten fails an assertion. -/
def validateHtEntry (c : HtEntryData β) : Except Fault Unit :=
  if c.cookie = htCookieValue then .ok () else .error .cookieCorruption

/-! ### The operations -/

/-- The loop of `findValueInHashTable`, from `cur` on.  A chain is in the order of its indices, so
    the loop ends at the first one that is larger. -/
def HTable.findLoop (ht : HTable β) (idx : HtIndexValue) :
    ℕ → Ptr → Except Fault (Option β)
  | _, none => .ok none
  | 0, some _ => .error .endlessWalk
  | fuel + 1, some a => do
      let cur ← ht.deref a
      if cur.index ≤ idx then
        validateHtEntry cur
        if cur.index = idx then
          return cur.block
        findLoop ht idx fuel cur.next
      else
        return none

/-- `findValueInHashTable`: the block that is stored under the index, or `NULL`. -/
def findValueInHashTable (ht : HTable β) (idx : HtIndexValue) : Except Fault (Option β) := do
  let cur ← ht.bin (ht.hashValue idx)
  ht.findLoop idx ht.fuel cur

/-- The loop of `insertValueInHashTable` that looks for the insert point, entered with `cur` at the
    entry `a`: it leaves with `last` and `cur`. -/
def HTable.insertLoop (ht : HTable β) (idx : HtIndexValue) :
    ℕ → Addr → Except Fault (Addr × Ptr)
  | 0, _ => .error .endlessWalk
  | fuel + 1, a => do
      let cur ← ht.deref a
      match cur.next with
      | none => return (a, none)
      | some n =>
          let c ← ht.deref n
          if c.index < idx then insertLoop ht idx fuel n else return (a, some n)

/-- Adding to the head of the list, in front of the entry `cur`: the chain begins with the new
    entry. -/
def HTable.linkAtHead (ht : HTable β) (htIdx : ℕ) (entry cur : Addr) :
    Except Fault (HTable β) := do
  let ht := ht.setBin htIdx (some entry)
  let ht ← ht.store entry fun e => { e with next := some cur }
  ht.store cur fun e => { e with prev := some entry }

/-- Adding at the insert point between `last` and `cur`, or behind the last entry of the chain,
    where `cur` is `NULL`. -/
def HTable.linkAfter (ht : HTable β) (entry last : Addr) (cur : Ptr) :
    Except Fault (HTable β) := do
  let ht ← ht.store entry fun e => { e with prev := some last }
  let ht ← ht.store entry fun e => { e with next := cur }
  let ht ← ht.store last fun e => { e with next := some entry }
  match cur with
  | none => return ht
  | some n =>
      let c ← ht.deref n
      validateHtEntry c
      ht.store n fun e => { e with prev := some entry }

/-- The part of `insertValueInHashTable` that links the new entry into its chain: an empty one, one
    whose first index is not smaller, or one with a place further on. -/
def HTable.link (ht : HTable β) (entry : Addr) (idx : HtIndexValue) :
    Except Fault (HTable β) := do
  let htIdx := ht.hashValue idx
  match ← ht.bin htIdx with
  | none => return ht.setBin htIdx (some entry)
  | some cur =>
      let c ← ht.deref cur
      validateHtEntry c
      if c.index ≥ idx then
        ht.linkAtHead htIdx entry cur
      else
        let (last, cur) ← ht.insertLoop idx ht.fuel cur
        ht.linkAfter entry last cur

/-- `insertValueInHashTable`; `malloc` has returned the address `entry` for the new entry.  Each of
    its branches ends with `ht->elements ++` and returns `0`. -/
def insertValueInHashTable (ht : HTable β) (entry : Addr) (idx : HtIndexValue) (blk : Option β) :
    Except Fault (ℤ × HTable β) := do
  let duplicate ← findValueInHashTable ht idx
  if duplicate.isSome then
    throw .duplicateIndex
  let e : HtEntryData β := ⟨htCookieValue, idx, blk, none, none⟩
  validateHtEntry e
  let ht ← (ht.put entry e).link entry idx
  return (0, { ht with elements := ht.elements + 1 })

/-- The loop of `deleteValueFromHashTable` up to the entry that carries the index.  It goes through
    the whole chain, also where the indices have become larger. -/
def HTable.deleteLoop (ht : HTable β) (idx : HtIndexValue) : ℕ → Ptr → Except Fault Ptr
  | _, none => .ok none
  | 0, some _ => .error .endlessWalk
  | fuel + 1, some a => do
      let cur ← ht.deref a
      validateHtEntry cur
      if cur.index = idx then
        return some a
      deleteLoop ht idx fuel cur.next

/-- The part of `deleteValueFromHashTable` that takes the entry `cur` out of its chain. -/
def HTable.unlink (ht : HTable β) (tblidx : ℕ) (head : Ptr) (cur : Addr) :
    Except Fault (HTable β) := do
  let c ← ht.deref cur
  -- if front of list, then reset the front of the list
  let ht := if some cur = head then ht.setBin tblidx c.next else ht
  -- if the previous element exists, reset its `next`
  let ht ← ht.storeIf c.prev fun e => { e with next := c.next }
  -- if the next element exists, reset its `prev`
  let c ← ht.deref cur
  ht.storeIf c.next fun e => { e with prev := c.prev }

/-- `deleteValueFromHashTable`: the block that was stored, or `NULL`, and the table without its
    entry, which is freed; the block is not. -/
def deleteValueFromHashTable (ht : HTable β) (idx : HtIndexValue) :
    Except Fault (Option β × HTable β) := do
  let tblidx := ht.hashValue idx
  let head ← ht.bin tblidx
  match ← ht.deleteLoop idx ht.fuel head with
  | none => return (none, ht)
  | some cur =>
      let ht ← ht.unlink tblidx head cur
      let c ← ht.deref cur
      return (c.block, { ht with heap := ht.heap.erase cur, elements := ht.elements - 1 })

/-- The inner loop of `cleanupHashTable`, from `cur` on: it frees the entries and their blocks. -/
def HTable.cleanupLoop : ℕ → Ptr → HTable β → Except Fault (List (Option β) × HTable β)
  | _, none, ht => .ok ([], ht)
  | 0, some _, _ => .error .endlessWalk
  | fuel + 1, some a, ht => do
      let cur ← ht.deref a
      validateHtEntry cur
      let (blks, ht) ← cleanupLoop fuel cur.next { ht with heap := ht.heap.erase a }
      return (cur.block :: blks, ht)

/-- The outer loop of `cleanupHashTable`, from chain `i` on, `todo` chains from the end. -/
def HTable.cleanupChains : ℕ → ℕ → HTable β → Except Fault (List (Option β) × HTable β)
  | 0, _, ht => .ok ([], ht)
  | todo + 1, i, ht => do
      let cur ← ht.bin i
      let (blks, ht) ← HTable.cleanupLoop ht.fuel cur ht
      let (blks', ht) ← cleanupChains todo (i + 1) (ht.setBin i none)
      return (blks ++ blks', ht)

/-- `cleanupHashTable`: the blocks it frees, and the table without its entries. -/
def cleanupHashTable (ht : HTable β) : Except Fault (List (Option β) × HTable β) :=
  HTable.cleanupChains ht.htTableSize.toNat 0 ht

/-! ### The entries -/

/-- The entries of a chain, from a pointer into it on. -/
def HTable.entriesFrom (ht : HTable β) : ℕ → Ptr → List (HtEntryData β)
  | _, none => []
  | 0, some _ => []
  | fuel + 1, some a =>
      match ht.heap.lookup a with
      | some c => c :: entriesFrom ht fuel c.next
      | none => []

/-- The entries of the table, chain after chain. -/
def HTable.entries (ht : HTable β) : List (HtEntryData β) :=
  ht.hasHTable.flatMap (ht.entriesFrom ht.fuel)

/-! ### The iterator -/

/-- The iterator: the chain it is in and the entry it has returned last. -/
structure HtIterator where
  idx : UInt16
  ptr : Ptr

/-- `initHashTableIterator`. -/
def initHashTableIterator : HtIterator := ⟨0, none⟩

/-- The loop that finds the first chain that is not empty, `todo` chains from the end, and returns
    its first block. -/
def HTable.nextChain (ht : HTable β) : ℕ → UInt16 → Except Fault (Option β × HtIterator)
  | 0, idx => .ok (none, ⟨idx, none⟩)
  | todo + 1, idx => do
      match ← ht.bin idx.toNat with
      | some a =>
          let c ← ht.deref a
          return (c.block, ⟨idx, some a⟩)
      | none => nextChain ht todo (idx + 1)

/-- `iterateHashTable`: the block and the iterator afterwards.  It goes on in the chain of the
    entry it has returned last, and then to the next chain that is not empty. -/
def iterateHashTable (ht : HTable β) (it : HtIterator) : Except Fault (Option β × HtIterator) := do
  match it.ptr with
  | some a =>
      let cur ← ht.deref a
      match cur.next with
      | some n =>
          let c ← ht.deref n
          return (c.block, ⟨it.idx, some n⟩)
      | none => ht.nextChain (ht.htTableSize.toNat - (it.idx + 1).toNat) (it.idx + 1)
  | none => ht.nextChain (ht.htTableSize.toNat - it.idx.toNat) it.idx

end NetworkExperiment
