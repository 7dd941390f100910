import Mathlib.Data.List.MinMax
import NetworkExperiment.Lib.ActionSystem
import NetworkExperiment.Cache.Cache

namespace NetworkExperiment

open ActionSystems

/-!
# Runs of the cache

Calls of `put`, `get` and `delete` on an initialised cache, under a clock that does not go back:

* `Timeval.Normalised` / `Timeval.Le` — proper clock readings and their order;
* `CacheCall` / `cacheRuns` — the calls and the runs they make, with the time at which each
  identifier was last used beside the cache;
* `Cache.Holds` — the invariant: every entry of the table is a cache line under its identifier,
  and the line carries the time of its last use;
* `CacheRun.inv_step` — every call keeps the invariant.
-/

/-! ### Clock readings -/

/-- A reading of `gettimeofday`: the microseconds are less than a second. -/
def Timeval.Normalised (t : Timeval) : Prop := 0 ≤ t.tvUsec ∧ t.tvUsec < 1000000

/-- `t` is no later than `u`. -/
def Timeval.Le (t u : Timeval) : Prop :=
  t.tvSec < u.tvSec ∨ (t.tvSec = u.tvSec ∧ t.tvUsec ≤ u.tvUsec)

/-- The reading in microseconds. -/
def Timeval.micros (t : Timeval) : ℤ := t.tvSec * 1000000 + t.tvUsec

instance (t : Timeval) : Decidable t.Normalised := inferInstanceAs (Decidable (_ ∧ _))
instance (t u : Timeval) : Decidable (t.Le u) := inferInstanceAs (Decidable (_ ∨ _))

variable {t u : Timeval}

/-- Normalised readings are ordered as their microseconds, since less than a second of them stands
    beside the seconds. -/
theorem Timeval.le_iff_micros (ht : t.Normalised) (hu : u.Normalised) :
    t.Le u ↔ t.micros ≤ u.micros := by
  unfold Normalised Le micros at *
  omega

/-- Normalised readings are determined by their microseconds. -/
theorem Timeval.eq_iff_micros (ht : t.Normalised) (hu : u.Normalised) :
    t = u ↔ t.micros = u.micros := by
  unfold Normalised micros at *
  constructor
  · rintro rfl
    rfl
  · intro h
    ext <;> omega

/-- Where no operation overflows, its result is the exact one. -/
theorem long_eq_ok {x r : ℤ} (h : long x = .ok r) : r = x := by
  unfold long at h
  split_ifs at h
  exact (Except.ok.inj h).symm

/-- A computation that returns has passed through its first part. -/
theorem bind_eq_ok {α γ : Type} {x : Except Fault α} {f : α → Except Fault γ} {r : γ}
    (h : x >>= f = .ok r) : ∃ a, x = .ok a ∧ f a = .ok r := by
  cases x with
  | error e => exact absurd h (by simp [bind, Except.bind])
  | ok a => exact ⟨a, rfl, h⟩

/-- `compareTimes` returns how much later the second time is, if no operation overflows. -/
theorem compareTimes_eq {r : ℤ} (h : compareTimes t u = .ok r) : r = u.micros - t.micros := by
  unfold compareTimes at h
  unfold Timeval.micros
  by_cases hborrow : u.tvUsec < t.tvUsec
  · rw [if_pos hborrow] at h
    obtain ⟨sec, hsec, h⟩ := bind_eq_ok h
    obtain ⟨sec', hsec', h⟩ := bind_eq_ok h
    obtain ⟨retval, hretval, h⟩ := bind_eq_ok h
    obtain ⟨usec, husec, h⟩ := bind_eq_ok h
    obtain ⟨usec', husec', h⟩ := bind_eq_ok h
    rw [long_eq_ok h, long_eq_ok husec', long_eq_ok husec, long_eq_ok hretval, long_eq_ok hsec',
      long_eq_ok hsec]
    omega
  · rw [if_neg hborrow] at h
    obtain ⟨sec, hsec, h⟩ := bind_eq_ok h
    obtain ⟨retval, hretval, h⟩ := bind_eq_ok h
    obtain ⟨usec, husec, h⟩ := bind_eq_ok h
    rw [long_eq_ok h, long_eq_ok husec, long_eq_ok hretval, long_eq_ok hsec]
    omega

/-! ### Runs -/

/-- A call on the cache, with what `malloc` and `gettimeofday` return during it. -/
inductive CacheCall
  | put (line entry : Addr) (now : Timeval) (cid : CacheID) (buf : BufPtr) (len : UInt32)
  | get (now : Timeval) (cid : CacheID)
  | delete (cid : CacheID)

/-- A cache in a run, with the last reading of the clock and the reading at the last use of each
    identifier. -/
structure CacheRun where
  cache : Cache
  clock : Timeval
  lastUse : CacheID → Option Timeval

/-- Neither address is in use. -/
def Cache.Free (c : Cache) (line entry : Addr) : Prop :=
  line ∉ c.lines ∧ ∀ ht, c.htable = some ht → entry ∉ ht.heap

instance (c : Cache) (line entry : Addr) : Decidable (c.Free line entry) :=
  match h : c.htable with
  | none => decidable_of_iff (line ∉ c.lines) (by simp [Cache.Free, h])
  | some ht => decidable_of_iff (line ∉ c.lines ∧ entry ∉ ht.heap) (by simp [Cache.Free, h])

/-- `malloc` returns no address in use, at the point of `put_cmpsc311_cache` where it is called. -/
def Cache.MallocReturns (c : Cache) (len : UInt32) (line entry : Addr) : Bool :=
  match c.putLoop len c.fuel with
  | .ok (_, c') => decide (c'.Free line entry)
  | .error _ => true

/-- `gettimeofday` returns a normalised reading that is no earlier than the last one: the clock may
    stand, but it does not go back. -/
def CacheRun.ClockReturns (s : CacheRun) (now : Timeval) : Prop := now.Normalised ∧ s.clock.Le now

instance (s : CacheRun) (now : Timeval) : Decidable (s.ClockReturns now) :=
  inferInstanceAs (Decidable (_ ∧ _))

/-- The runs of the cache; a fault ends the run.  An identifier is used when it is put, and when
    `get` returns its buffer. -/
def cacheRuns : ActionSystem CacheRun CacheCall where
  act s
    | .put line entry now cid buf len =>
        if s.ClockReturns now ∧ s.cache.MallocReturns len line entry then
          match putCmpsc311Cache s.cache line entry now cid buf len with
          | .ok (ret, c) => some
              { cache := c
                clock := now
                lastUse := if ret = 0 then Function.update s.lastUse cid (some now) else s.lastUse }
          | .error _ => none
        else none
    | .get now cid =>
        if s.ClockReturns now then
          match getCmpsc311Cache s.cache now cid with
          | .ok (buf, c) => some
              { cache := c
                clock := now
                lastUse :=
                  if buf ≠ none then Function.update s.lastUse cid (some now) else s.lastUse }
          | .error _ => none
        else none
    | .delete cid =>
        match deleteCmpsc311Cache s.cache cid with
        | .ok (_, c) => some { s with cache := c }
        | .error _ => none

/-- The identifier is in the cache. -/
def Cache.Has (c : Cache) (cid : CacheID) : Prop :=
  ∃ ht ref, c.htable = some ht ∧ findValueInHashTable ht (cacheIndex cid) = .ok (some ref)

instance (c : Cache) (cid : CacheID) : Decidable (c.Has cid) :=
  match hht : c.htable with
  | none => .isFalse (by simp [Cache.Has, hht])
  | some ht =>
      match hfind : findValueInHashTable ht (cacheIndex cid) with
      | .ok (some ref) => .isTrue ⟨ht, ref, hht, hfind⟩
      | .ok none => .isFalse (by simp [Cache.Has, hht, hfind])
      | .error e => .isFalse (by simp [Cache.Has, hht, hfind])

/-! ### The invariant -/

/-- The cache line of an entry. -/
structure IsLine (c : Cache) (lastUse : CacheID → Option Timeval) (e : Stored Addr)
    (l : Cmpsc311CacheEntry) : Prop where
  lookup : c.lines.lookup e.block = some l
  /-- It lies under its identifier, -/
  index : cacheIndex l.cid = e.index
  /-- carries the time of its last use, -/
  used : lastUse l.cid = some l.lastUsed
  normalised : l.lastUsed.Normalised
  /-- and has a buffer. -/
  buf : l.buf ≠ none

/-- The invariant of an initialised cache: its table holds the chains, and each entry is a line. -/
structure Cache.Holds (c : Cache) (lastUse : CacheID → Option Timeval) (ht : HTable Addr)
    (chains : List (List (Stored Addr))) : Prop where
  initialized : c.initialized = true
  table : c.htable = some ht
  holds : ht.Holds chains
  lines : ∀ e ∈ chains.flatten, ∃ l, IsLine c lastUse e l

variable {c : Cache} {lastUse : CacheID → Option Timeval} {ht : HTable Addr}
  {chains : List (List (Stored Addr))} {cid : CacheID}

/-- Identifiers are the indices of their lines. -/
theorem cacheIndex_injective : Function.Injective cacheIndex := by
  intro a b h
  have hnat : (cacheIndex a).toNat = (cacheIndex b).toNat := by rw [h]
  unfold cacheIndex at hnat
  rw [UInt32.toNat_toUInt64, UInt32.toNat_toUInt64] at hnat
  exact UInt32.toNat.inj hnat

/-- Two entries with the same line are the same entry. -/
theorem Cache.Holds.block_inj (h : c.Holds lastUse ht chains) {e e' : Stored Addr}
    (he : e ∈ chains.flatten) (he' : e' ∈ chains.flatten) (hblock : e.block = e'.block) :
    e = e' := by
  obtain ⟨l, hl⟩ := h.lines e he
  obtain ⟨l', hl'⟩ := h.lines e' he'
  have hsame : l = l' := by
    have hlookup := hl.lookup
    rw [hblock, hl'.lookup] at hlookup
    exact (Option.some.inj hlookup).symm
  apply h.holds.index_inj he he'
  rw [← hl.index, ← hl'.index, hsame]

/-- The cached identifiers are those of the entries: each identifier is the index of at most
    one. -/
theorem Cache.Holds.has_iff (h : c.Holds lastUse ht chains) :
    c.Has cid ↔ ∃ e ∈ chains.flatten, e.index = cacheIndex cid := by
  constructor
  · rintro ⟨ht', ref, htable, hfind⟩
    obtain rfl : ht = ht' := Option.some.inj (h.table.symm.trans htable)
    rw [findValueInHashTable_eq h.holds] at hfind
    obtain ⟨e, he, hidx, -⟩ := h.holds.contents_eq_some.mp (Except.ok.inj hfind)
    exact ⟨e, he, hidx⟩
  · rintro ⟨e, he, hidx⟩
    refine ⟨ht, e.block, h.table, ?_⟩
    rw [findValueInHashTable_eq h.holds, h.holds.contents_eq_some.mpr ⟨e, he, hidx, rfl⟩]

/-- Without an entry and its line, the invariant holds of the other entries. -/
theorem Cache.Holds.erase (h : c.Holds lastUse ht chains) {e : Stored Addr}
    (he : e ∈ chains.flatten) {c' : Cache} {ht' : HTable Addr} (hinit : c'.initialized = true)
    (htable : c'.htable = some ht') (hlines : c'.lines = c.lines.erase e.block)
    (hholds : ht'.Holds (deleteChains e.index chains)) :
    c'.Holds lastUse ht' (deleteChains e.index chains) := by
  refine ⟨hinit, htable, hholds, ?_⟩
  intro x hx
  obtain ⟨hx, hne⟩ := (mem_deleteChains h.holds).mp hx
  obtain ⟨l, hl⟩ := h.lines x hx
  refine ⟨l, ⟨?_, hl.index, hl.used, hl.normalised, hl.buf⟩⟩
  rw [hlines, AList.lookup_erase_ne, hl.lookup]
  intro hblock
  exact hne (by rw [h.block_inj hx he hblock])

/-- With one more entry and its line, last used at the time of the `put`. -/
theorem Cache.Holds.insert (h : c.Holds lastUse ht chains) {line entry : Addr} {now : Timeval}
    (hnow : now.Normalised) {buf : BufPtr} (hbuf : buf ≠ none) {len : UInt32}
    (hfresh : line ∉ c.lines) (habsent : contents chains (cacheIndex cid) = none) {c' : Cache}
    {ht' : HTable Addr} (hinit : c'.initialized = true) (htable : c'.htable = some ht')
    (hlines : c'.lines = c.lines.insert line ⟨cid, len, buf, now⟩)
    (hholds : ht'.Holds (insertChains ⟨entry, cacheIndex cid, line⟩ chains)) :
    c'.Holds (Function.update lastUse cid (some now)) ht'
      (insertChains ⟨entry, cacheIndex cid, line⟩ chains) := by
  refine ⟨hinit, htable, hholds, ?_⟩
  intro e he
  rw [(insertChains_perm h.holds _).mem_iff, List.mem_cons] at he
  rcases he with rfl | he
  · -- the new line
    refine ⟨⟨cid, len, buf, now⟩, ?_, rfl, Function.update_self .., hnow, hbuf⟩
    rw [hlines]
    exact AList.lookup_insert _
  · -- the others, which have other addresses and other identifiers
    obtain ⟨l, hl⟩ := h.lines e he
    have hother : e.block ≠ line := by
      rintro rfl
      exact hfresh (AList.lookup_isSome.mp (Option.isSome_of_eq_some hl.lookup))
    have hcid : l.cid ≠ cid := by
      rintro rfl
      exact contents_eq_none.mp habsent e he hl.index.symm
    refine ⟨l, ?_, hl.index, ?_, hl.normalised, hl.buf⟩
    · rw [hlines, AList.lookup_insert_ne hother, hl.lookup]
    · rw [Function.update_of_ne hcid, hl.used]

/-- With a line that has been used again. -/
theorem Cache.Holds.renew (h : c.Holds lastUse ht chains) {e : Stored Addr}
    (he : e ∈ chains.flatten) {l : Cmpsc311CacheEntry} (hl : IsLine c lastUse e l) {now : Timeval}
    (hnow : now.Normalised) {c' : Cache} (hinit : c'.initialized = true)
    (htable : c'.htable = some ht)
    (hlines : c'.lines = c.lines.insert e.block { l with lastUsed := now }) :
    c'.Holds (Function.update lastUse l.cid (some now)) ht chains := by
  refine ⟨hinit, htable, h.holds, ?_⟩
  intro x hx
  by_cases hxe : x.block = e.block
  · -- the line that was used
    obtain rfl := h.block_inj hx he hxe
    refine ⟨{ l with lastUsed := now }, ?_, hl.index, Function.update_self .., hnow, hl.buf⟩
    rw [hlines]
    exact AList.lookup_insert _
  · obtain ⟨lx, hlx⟩ := h.lines x hx
    have hother : lx.cid ≠ l.cid := by
      intro hcid
      have hindex : x.index = e.index := by rw [← hlx.index, ← hl.index, hcid]
      exact hxe (by rw [h.holds.index_inj hx he hindex])
    refine ⟨lx, ?_, hlx.index, ?_, hlx.normalised, hlx.buf⟩
    · rw [hlines, AList.lookup_insert_ne hxe, hlx.lookup]
    · rw [Function.update_of_ne hother, hlx.used]

/-! ### The choice of the line to eject -/

/-- When the line of an entry was last used, in microseconds. -/
def Cache.usedMicros (c : Cache) (e : Stored Addr) : ℤ :=
  match c.lines.lookup e.block with
  | some l => l.lastUsed.micros
  | none => 0

theorem IsLine.usedMicros {e : Stored Addr} {l : Cmpsc311CacheEntry} (h : IsLine c lastUse e l) :
    c.usedMicros e = l.lastUsed.micros := by
  unfold Cache.usedMicros
  rw [h.lookup]

theorem IsLine.line_eq {e : Stored Addr} {l : Cmpsc311CacheEntry} (h : IsLine c lastUse e l) :
    c.line e.block = .ok l := by
  unfold Cache.line
  rw [h.lookup]

/-- The loop keeps the entry that was used last: it goes over to a later one where `compareTimes`
    is negative. -/
theorem ejectLoop_eq (h : c.Holds lastUse ht chains) {fuel : ℕ} {it : HtIterator}
    {rest : List (Stored Addr)} {chosen : Option (Stored Addr)} {r : Option Addr}
    (hit : it.Before chains rest) (hsub : ∀ e ∈ rest, e ∈ chains.flatten)
    (hchosen : ∀ e, chosen = some e → e ∈ chains.flatten)
    (hloop : c.ejectLoop ht fuel it (chosen.map (·.block)) = .ok r) :
    r = (rest.foldl (List.argAux fun b a => c.usedMicros a < c.usedMicros b) chosen).map
      (·.block) := by
  induction fuel generalizing it rest chosen with
  | zero => exact absurd hloop (by simp [Cache.ejectLoop])
  | succ fuel ih =>
    obtain ⟨it', hiterate, hit'⟩ := iterateHashTable_spec h.holds hit
    unfold Cache.ejectLoop at hloop
    rw [hiterate, ok_bind] at hloop
    cases rest with
    | nil => exact (Except.ok.inj hloop).symm
    | cons x rest =>
      have hx := hsub x List.mem_cons_self
      have hsub' : ∀ e ∈ rest, e ∈ chains.flatten :=
        fun e he => hsub e (List.mem_cons_of_mem _ he)
      rw [List.foldl_cons]
      cases chosen with
      | none =>
        -- nothing chosen yet
        exact @ih it' rest (some x) hit' hsub' (fun y hy => Option.some.inj hy ▸ hx) hloop
      | some e =>
        obtain ⟨l, hl⟩ := h.lines x hx
        obtain ⟨l', hl'⟩ := h.lines e (hchosen e rfl)
        simp only [List.head?_cons, Option.map_some] at hloop
        rw [hl.line_eq, ok_bind, hl'.line_eq, ok_bind] at hloop
        obtain ⟨cmp, hcmp, hloop⟩ := bind_eq_ok hloop
        -- what the loop compares is what the maximum is taken of
        have hlater : cmp < 0 ↔ c.usedMicros e < c.usedMicros x := by
          rw [compareTimes_eq hcmp, hl.usedMicros, hl'.usedMicros]
          omega
        unfold List.argAux
        dsimp only
        by_cases hlt : cmp < 0
        · rw [if_pos hlt] at hloop
          rw [if_pos (hlater.mp hlt)]
          exact @ih it' rest (some x) hit' hsub' (fun y hy => Option.some.inj hy ▸ hx) hloop
        · rw [if_neg hlt] at hloop
          rw [if_neg (fun hless => hlt (hlater.mpr hless))]
          exact @ih it' rest (some e) hit' hsub' hchosen hloop

/-- **Ejection.**  It removes an entry that no other one was used after. -/
theorem ejectCmpsc311Cache_spec (h : c.Holds lastUse ht chains) {ret : ℤ} {c' : Cache}
    (heject : ejectCmpsc311Cache c = .ok (ret, c')) :
    (ret = -1 ∧ c' = c) ∨
      ∃ e ∈ chains.flatten, (∀ x ∈ chains.flatten, c.usedMicros x ≤ c.usedMicros e) ∧ ret = 0 ∧
        ∃ ht', c'.Holds lastUse ht' (deleteChains e.index chains) := by
  unfold ejectCmpsc311Cache Cache.table at heject
  rw [h.initialized, h.table] at heject
  simp only [Bool.not_true, Bool.false_eq_true, if_false, ok_bind] at heject
  obtain ⟨chosen, hloop, heject⟩ := bind_eq_ok heject
  have hchosen := @ejectLoop_eq c lastUse ht chains h ht.fuel _ _ none _ before_init
    (fun e he => he) (by simp) hloop
  subst hchosen
  -- the fold of the loop is the one that `argmax` is defined by
  rw [show chains.flatten.foldl (List.argAux fun b a => c.usedMicros a < c.usedMicros b) none
    = chains.flatten.argmax c.usedMicros from rfl] at heject
  cases hmax : chains.flatten.argmax c.usedMicros with
  | none =>
    rw [hmax] at heject
    obtain ⟨rfl, rfl⟩ := Prod.mk.inj (Except.ok.inj heject)
    exact .inl ⟨rfl, rfl⟩
  | some e =>
    rw [hmax] at heject
    have he : e ∈ chains.flatten := List.argmax_mem hmax
    obtain ⟨l, hl⟩ := h.lines e he
    simp only [Option.map_some] at heject
    rw [hl.line_eq, ok_bind] at heject
    obtain ⟨ht', hdelete, hholds', -⟩ := deleteValueFromHashTable_holds h.holds (cacheIndex l.cid)
    rw [hdelete, ok_bind] at heject
    obtain ⟨rfl, rfl⟩ := Prod.mk.inj (Except.ok.inj heject)
    rw [hl.index] at hholds'
    exact .inr ⟨e, he, fun x hx => List.le_of_mem_argmax hx hmax, rfl, ht',
      h.erase he rfl rfl rfl hholds'⟩

/-- The loop of `put` keeps the invariant, as each of its rounds is an ejection. -/
theorem putLoop_holds (h : c.Holds lastUse ht chains) {len : UInt32} {fuel : ℕ} {room : Bool}
    {c' : Cache} (hloop : c.putLoop len fuel = .ok (room, c')) :
    ∃ ht' chains', c'.Holds lastUse ht' chains' := by
  induction fuel generalizing c ht chains with
  | zero => exact absurd hloop (by simp [Cache.putLoop])
  | succ fuel ih =>
    unfold Cache.putLoop at hloop
    by_cases hroom : c.NoRoom len
    · rw [if_pos hroom] at hloop
      obtain ⟨⟨ret, c₁⟩, heject, hrest⟩ := bind_eq_ok hloop
      dsimp only at hrest
      rcases ejectCmpsc311Cache_spec h heject with ⟨rfl, rfl⟩ | ⟨e, -, -, rfl, ht₁, h₁⟩
      · rw [if_pos rfl] at hrest
        obtain ⟨-, rfl⟩ := Prod.mk.inj (Except.ok.inj hrest)
        exact ⟨ht, chains, h⟩
      · rw [if_neg (by decide)] at hrest
        exact ih h₁ hrest
    · rw [if_neg hroom] at hloop
      obtain ⟨-, rfl⟩ := Prod.mk.inj (Except.ok.inj hloop)
      exact ⟨ht, chains, h⟩

/-! ### The steps of a run -/

/-- The invariant of a run. -/
def CacheRun.Inv (s : CacheRun) : Prop := ∃ ht chains, s.cache.Holds s.lastUse ht chains

/-- A refused `put` has at most run its loop; a successful one adds a line. -/
theorem put_holds (h : c.Holds lastUse ht chains) {line entry : Addr} {now : Timeval}
    (hnow : now.Normalised) {buf : BufPtr} {len : UInt32}
    (hmalloc : c.MallocReturns len line entry) {ret : ℤ} {c' : Cache}
    (hput : putCmpsc311Cache c line entry now cid buf len = .ok (ret, c')) :
    ∃ ht' chains', c'.Holds (if ret = 0 then Function.update lastUse cid (some now) else lastUse)
      ht' chains' := by
  -- whatever has been ejected before the refusal, no use is recorded
  have hrefused : ∀ {c'}, (∃ ht' chains', Cache.Holds c' lastUse ht' chains') →
      ∃ ht' chains', c'.Holds (if (-1 : ℤ) = 0 then Function.update lastUse cid (some now)
        else lastUse) ht' chains' := by
    intro c' h'
    rwa [if_neg (by decide)]
  unfold putCmpsc311Cache at hput
  rw [h.initialized] at hput
  simp only [Bool.not_true, Bool.false_eq_true, if_false] at hput
  by_cases hbad : len = 0 ∨ buf = none
  · rw [if_pos hbad] at hput
    obtain ⟨rfl, rfl⟩ := Prod.mk.inj (Except.ok.inj hput)
    exact hrefused ⟨ht, chains, h⟩
  rw [if_neg hbad] at hput
  by_cases hlarge : len > c.maxSize
  · rw [if_pos hlarge] at hput
    obtain ⟨rfl, rfl⟩ := Prod.mk.inj (Except.ok.inj hput)
    exact hrefused ⟨ht, chains, h⟩
  rw [if_neg hlarge] at hput
  obtain ⟨⟨room, c₁⟩, hloop, hput⟩ := bind_eq_ok hput
  obtain ⟨ht₁, chains₁, h₁⟩ := putLoop_holds h hloop
  -- the addresses that `malloc` returns are fresh behind the loop
  unfold Cache.MallocReturns at hmalloc
  rw [hloop] at hmalloc
  obtain ⟨hline, hentry⟩ := of_decide_eq_true hmalloc
  dsimp only at hput
  cases room with
  | false =>
    obtain ⟨rfl, rfl⟩ := Prod.mk.inj (Except.ok.inj hput)
    exact hrefused ⟨ht₁, chains₁, h₁⟩
  | true =>
    unfold Cache.table at hput
    simp only [Bool.not_true, Bool.false_eq_true, if_false, h₁.table, ok_bind] at hput
    obtain ⟨⟨ret', ht₂⟩, hinsert, hput⟩ := bind_eq_ok hput
    obtain ⟨rfl, rfl⟩ := Prod.mk.inj (Except.ok.inj hput)
    by_cases habsent : contents chains₁ (cacheIndex cid) = none
    · obtain ⟨ht₃, hinsert', hholds⟩ := @insertValueInHashTable_holds _ _ _
        ⟨entry, cacheIndex cid, line⟩ h₁.holds (hentry _ h₁.table) habsent
      rw [hinsert'] at hinsert
      obtain ⟨rfl, rfl⟩ := Prod.mk.inj (Except.ok.inj hinsert)
      rw [if_pos rfl]
      exact ⟨ht₃, _, h₁.insert hnow (fun hnull => hbad (.inr hnull)) hline habsent
        h₁.initialized rfl rfl hholds⟩
    · -- the table refuses a second entry, and `put` returns what it does
      obtain ⟨stored, hstored⟩ := Option.ne_none_iff_exists'.mp habsent
      rw [insertValueInHashTable_duplicate h₁.holds hstored] at hinsert
      exact absurd hinsert (by simp)

/-- A `get` that returns a buffer renews the time of its line. -/
theorem get_holds (h : c.Holds lastUse ht chains) {now : Timeval} (hnow : now.Normalised)
    {buf : BufPtr} {c' : Cache} (hget : getCmpsc311Cache c now cid = .ok (buf, c')) :
    ∃ ht' chains', c'.Holds
      (if buf ≠ none then Function.update lastUse cid (some now) else lastUse) ht' chains' := by
  unfold getCmpsc311Cache Cache.table at hget
  rw [h.initialized] at hget
  simp only [Bool.not_true, Bool.false_eq_true, if_false, h.table, ok_bind] at hget
  rw [findValueInHashTable_eq h.holds, ok_bind] at hget
  cases hstored : contents chains (cacheIndex cid) with
  | none =>
    -- `NULL`, and nothing changes
    rw [hstored] at hget
    obtain ⟨rfl, rfl⟩ := Prod.mk.inj (Except.ok.inj hget)
    exact ⟨ht, chains, by rwa [if_neg (by simp)]⟩
  | some ref =>
    obtain ⟨e, he, hidx, rfl⟩ := h.holds.contents_eq_some.mp hstored
    obtain ⟨l, hl⟩ := h.lines e he
    rw [hstored] at hget
    dsimp only at hget
    rw [hl.line_eq, ok_bind] at hget
    obtain ⟨rfl, rfl⟩ := Prod.mk.inj (Except.ok.inj hget)
    have hcid : l.cid = cid := cacheIndex_injective (hl.index.trans hidx)
    rw [if_pos hl.buf, ← hcid]
    exact ⟨ht, chains, h.renew he hl hnow rfl rfl rfl⟩

/-- A `delete` takes one line out, and leaves the times of the others as they are. -/
theorem delete_holds (h : c.Holds lastUse ht chains) {buf : BufPtr} {c' : Cache}
    (hdelete : deleteCmpsc311Cache c cid = .ok (buf, c')) :
    ∃ ht' chains', c'.Holds lastUse ht' chains' := by
  unfold deleteCmpsc311Cache Cache.table at hdelete
  rw [h.initialized] at hdelete
  simp only [Bool.not_true, Bool.false_eq_true, if_false, h.table, ok_bind] at hdelete
  obtain ⟨ht', hout, hholds', -⟩ := deleteValueFromHashTable_holds h.holds (cacheIndex cid)
  rw [hout, ok_bind] at hdelete
  cases hstored : contents chains (cacheIndex cid) with
  | none =>
    rw [hstored] at hdelete
    obtain ⟨-, rfl⟩ := Prod.mk.inj (Except.ok.inj hdelete)
    refine ⟨ht', _, rfl, rfl, hholds', ?_⟩
    intro x hx
    obtain ⟨l, hl⟩ := h.lines x ((mem_deleteChains h.holds).mp hx).1
    exact ⟨l, ⟨hl.lookup, hl.index, hl.used, hl.normalised, hl.buf⟩⟩
  | some ref =>
    obtain ⟨e, he, hidx, rfl⟩ := h.holds.contents_eq_some.mp hstored
    obtain ⟨l, hl⟩ := h.lines e he
    rw [hstored] at hdelete
    dsimp only at hdelete
    rw [hl.line_eq, ok_bind] at hdelete
    obtain ⟨-, rfl⟩ := Prod.mk.inj (Except.ok.inj hdelete)
    rw [← hidx] at hholds'
    exact ⟨ht', _, h.erase he rfl rfl rfl hholds'⟩

/-- The step of a run keeps the invariant, by the lemma of its call. -/
theorem CacheRun.inv_step {s s' : CacheRun} {call : CacheCall} (h : s.Inv)
    (hstep : cacheRuns.act s call = some s') : s'.Inv := by
  obtain ⟨ht, chains, h⟩ := h
  cases call with
  | put line entry now cid buf len =>
    unfold cacheRuns at hstep
    dsimp only at hstep
    split_ifs at hstep with hguard
    cases hput : putCmpsc311Cache s.cache line entry now cid buf len with
    | error e => simp [hput] at hstep
    | ok out =>
      rw [hput] at hstep
      obtain rfl := Option.some.inj hstep
      exact put_holds h hguard.1.1 hguard.2 hput
  | get now cid =>
    unfold cacheRuns at hstep
    dsimp only at hstep
    split_ifs at hstep with hguard
    cases hget : getCmpsc311Cache s.cache now cid with
    | error e => simp [hget] at hstep
    | ok out =>
      rw [hget] at hstep
      obtain rfl := Option.some.inj hstep
      exact get_holds h hguard.1 hget
  | delete cid =>
    unfold cacheRuns at hstep
    dsimp only at hstep
    cases hdelete : deleteCmpsc311Cache s.cache cid with
    | error e => simp [hdelete] at hstep
    | ok out =>
      rw [hdelete] at hstep
      obtain rfl := Option.some.inj hstep
      exact delete_holds h hdelete

end NetworkExperiment
