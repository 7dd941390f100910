import Mathlib.Algebra.Order.BigOperators.Group.List
import Mathlib.Algebra.Order.Group.Nat
import NetworkExperiment.Cache.Bookkeeping

namespace NetworkExperiment

open ActionSystems

/-!
# The capacity of the cache in bytes

The room test of `put_cmpsc311_cache` adds the length to `current_size` in 32 bits, as does the
counter itself:

* `CacheOp.InitsWith` — the limits with which the cache is initialised;
* `Cache.FitsBytes` — the exact sum of the sizes is within the limit;
* `Cache.TestsExactly` — the first sum that a `put` tests does not wrap, or the cache is for one
  item: the step then keeps within the limit (`fitsBytes_step`);
* `exactLimits` — the cache holds one item at most, or two lengths within the limit add up to less
  than `2 ^ 32`, so that no sum wraps;
* `cache_capacity_iff` — the steps that keep within the limits, and the limits for which every run
  keeps within them.
-/

variable {c c' : Cache} {ht : HTable Addr} {chains : List (List (Stored Addr))}

/-- The operation initialises the cache with such limits, or it does not initialise it. -/
def CacheOp.InitsWith (limits : UInt32 → UInt32 → Prop) : CacheOp → Prop
  | .init maxItems maxSize => limits maxItems maxSize
  | .call _ => True
  | .close => True

/-- The stored lines add up to no more than the limit. -/
def Cache.FitsBytes (c : Cache) : Prop := c.storedBytes ≤ c.maxSize.toNat

/-- The limits under which the 32-bit room test is exact: the bytes that are stored and those of
    one more item add up to less than `2 ^ 32`, or there is room for one item only. -/
def exactLimits (maxItems maxSize : UInt32) : Prop := maxItems ≤ 1 ∨ maxSize.toNat < 2 ^ 31

/-! ### Within the limit -/

/-- Limits that are not accepted do not matter. -/
theorem exactLimits_of_accepted {maxItems maxSize : UInt32}
    (h : maxItems ≠ 0 → maxSize ≠ 0 → maxItems = 1 ∨ maxSize.toNat < 2 ^ 31) :
    exactLimits maxItems maxSize := by
  by_cases hitems : maxItems = 0
  · exact .inl (hitems ▸ UInt32.zero_le)
  by_cases hsize : maxSize = 0
  · exact .inr (hsize ▸ by decide)
  exact (h hitems hsize).imp_left UInt32.le_of_eq

/-- A cache without entries stores no bytes. -/
theorem Cache.Books.storedBytes_zero (h : c.Books ht chains) (hitems : c.currentItems.toNat = 0) :
    c.storedBytes = 0 := by
  have hnil : c.stored = [] := by
    apply List.eq_nil_of_length_eq_zero
    rw [h.length_stored, ← h.items, hitems]
  unfold Cache.storedBytes
  rw [hnil]
  rfl

/-- A `put` adds the length of its item to what is left of the lines behind its loop. -/
theorem Cache.PutsLine.storedBytes {now : Timeval} {cid : CacheID} {buf : BufPtr} {len : UInt32}
    {c₁ : Cache} (hputs : c.PutsLine now cid buf len c₁ c') :
    c'.storedBytes = len.toNat + c₁.storedBytes := by
  obtain ⟨line, entry, ht₁, chains₁, ht', h₁, hline, hholds, rfl⟩ := hputs.stored
  exact storedBytes_perm (@Cache.Books.stored_withLine c₁ ht₁ ht' chains₁ ⟨cid, len, buf, now⟩ h₁
    entry line hline hholds) rfl

/-- The sum that is tested first in a `put` does not wrap, or the cache is for one item. -/
def Cache.TestsExactly (c : Cache) : CacheOp → Prop
  | .call (.put _ _ _ _ buf len) =>
      c.Accepts buf len → c.maxItems ≤ 1 ∨ c.currentSize.toNat + len.toNat < 2 ^ 32
  | .call _ => True
  | .init _ _ => True
  | .close => True

/-- A `put` whose test is exact keeps within the limit. -/
theorem Cache.PutsLine.fitsBytes (h : c.Books ht chains) {now : Timeval} {cid : CacheID}
    {buf : BufPtr} {len : UInt32} {c₁ : Cache} (hputs : c.PutsLine now cid buf len c₁ c')
    (htest : c.maxItems ≤ 1 ∨ c.currentSize.toNat + len.toNat < 2 ^ 32) (hfits : c.FitsBytes) :
    c'.FitsBytes := by
  have hsum := hputs.storedBytes
  have hless := hputs.makesRoom.bytes
  have hle := UInt32.le_iff_toNat_le.mp hputs.accepts.2.2
  have hbytes := h.bytes
  have hmax := c.maxSize.toNat_lt
  obtain ⟨line, entry, ht₁, chains₁, ht', h₁, -, -, rfl⟩ := hputs.stored
  have hbytes₁ := h₁.bytes
  have hroom : c₁.currentItems.toNat < c.maxItems.toNat ∧
      (c₁.currentSize.toNat + len.toNat) % 2 ^ 32 ≤ c.maxSize.toNat := by
    have hno := hputs.makesRoom.room
    unfold Cache.NoRoom at hno
    rw [hputs.makesRoom.maxItems, hputs.makesRoom.maxSize, not_or, ge_iff_le, gt_iff_lt,
      UInt32.not_le, UInt32.not_lt, UInt32.lt_iff_toNat_lt, UInt32.le_iff_toNat_le,
      UInt32.toNat_add] at hno
    exact hno
  unfold Cache.FitsBytes at hfits ⊢
  rw [hsum, show (c₁.withLine ht' line ⟨cid, len, buf, now⟩).maxSize = c.maxSize from
    hputs.makesRoom.maxSize]
  rcases htest with hone | hsmall
  · -- the cache is empty when its one item is stored
    have hone : c.maxItems.toNat ≤ 1 := UInt32.le_iff_toNat_le.mp hone
    have hzero := h₁.storedBytes_zero (by omega)
    omega
  · -- the counter is the sum, and what ejections leave is no more than what was tested first
    have hexact : c.currentSize.toNat = c.storedBytes :=
      hbytes.trans (Nat.mod_eq_of_lt (hfits.trans_lt hmax))
    have hexact₁ : c₁.currentSize.toNat = c₁.storedBytes :=
      hbytes₁.trans (Nat.mod_eq_of_lt ((hless.trans hfits).trans_lt hmax))
    omega

/-- A cache that is closed stores nothing. -/
theorem Cache.Closed.fitsBytes (h : c.Closed) : c.FitsBytes := by
  unfold Cache.FitsBytes Cache.storedBytes Cache.stored
  rw [h.htable]
  exact Nat.zero_le _

/-- A call on an initialised cache whose test is exact keeps within the limit. -/
theorem after_fitsBytes (h : c.Books ht chains) {call : CacheCall}
    (htest : c.TestsExactly (.call call)) (hfits : c.FitsBytes) (hafter : c.after call = some c') :
    c'.maxItems = c.maxItems ∧ c'.maxSize = c.maxSize ∧ c'.FitsBytes := by
  rcases after_cases h hafter with
    rfl | ⟨now, cid, -, e, he, l, hl, -, rfl⟩ |
      ⟨cid, -, e, he, l, ht', hl, -, hholds, rfl⟩ |
        ⟨line, entry, now, cid, buf, len, c₁, hcall, hputs⟩
  · exact ⟨rfl, rfl, hfits⟩
  · refine ⟨rfl, rfl, ?_⟩
    unfold Cache.FitsBytes
    rw [h.storedBytes_renewed he hl now]
    exact hfits
  · refine ⟨rfl, rfl, ?_⟩
    have hsum := storedBytes_perm (h.stored_without he hl hholds c.freed) rfl
    unfold Cache.FitsBytes at hfits ⊢
    show (c.without ht' e l c.freed).storedBytes ≤ c.maxSize.toNat
    omega
  · obtain ⟨hitems, hsize, -, -⟩ := hputs.counters
    rw [hcall] at htest
    exact ⟨hitems, hsize, hputs.fitsBytes h (htest hputs.accepts) hfits⟩

/-- The invariant of a life whose tests are exact. -/
structure Cache.KeptWithin (c : Cache) : Prop where
  kept : c.Kept
  fits : c.FitsBytes

theorem Cache.keptWithin_initial : Cache.initial.KeptWithin :=
  ⟨.inr ⟨rfl, rfl, rfl, rfl, rfl, rfl⟩, Nat.zero_le _⟩

/-- **Step lemma.**  A step whose test is exact keeps within the limit. -/
theorem fitsBytes_step : cacheLife.InvariantOn Cache.TestsExactly Cache.KeptWithin := by
  intro c op c' h htest hstep
  refine ⟨Cache.kept_step h.kept hstep, ?_⟩
  rcases life_cases h.kept hstep with
    rfl | ⟨_, _, rfl, rfl, rfl, hstored, -⟩ | ⟨call, ht, chains, rfl, hc, hafter⟩ | hclosed
  · exact h.fits
  · -- a new cache
    unfold Cache.FitsBytes Cache.storedBytes
    rw [hstored]
    exact Nat.zero_le _
  · exact (after_fitsBytes hc htest h.fits hafter).2.2
  · exact hclosed.fitsBytes

/-! ### Exact limits -/

/-- Under exact limits every test is exact. -/
theorem Cache.testsExactly_of_limits (hkept : c.Kept) (hfits : c.FitsBytes)
    (hlimits : c.initialized = true → exactLimits c.maxItems c.maxSize) (op : CacheOp) :
    c.TestsExactly op := by
  cases op with
  | call call =>
    cases call with
    | put line entry now cid buf len =>
      intro haccepts
      rcases hlimits haccepts.1 with hone | hsmall
      · exact .inl hone
      · right
        obtain ⟨ht, chains, h⟩ := hkept.resolve_right fun hclosed =>
          absurd (hclosed.initialized.symm.trans haccepts.1) (by decide)
        have hbytes := h.bytes
        have hle := UInt32.le_iff_toNat_le.mp haccepts.2.2
        unfold Cache.FitsBytes at hfits
        omega
    | get now cid => trivial
    | delete cid => trivial
  | init maxItems maxSize => trivial
  | close => trivial

/-- The invariant of a life with exact limits. -/
structure Cache.ExactlyLimited (c : Cache) : Prop extends c.KeptWithin where
  limits : c.initialized = true → exactLimits c.maxItems c.maxSize

/-- **Step lemma.**  The limits stay exact. -/
theorem Cache.exactlyLimited_step :
    cacheLife.InvariantOn (fun _ op => op.InitsWith exactLimits) Cache.ExactlyLimited := by
  intro c op c' h hwith hstep
  have htest := Cache.testsExactly_of_limits h.kept h.fits h.limits op
  refine ⟨fitsBytes_step h.toKeptWithin htest hstep, ?_⟩
  rcases life_cases h.kept hstep with
    rfl | ⟨_, _, rfl, rfl, rfl, -⟩ | ⟨call, ht, chains, rfl, hc, hafter⟩ | hclosed
  · exact h.limits
  · exact fun _ => hwith
  · obtain ⟨hitems, hsize, -⟩ := after_fitsBytes hc htest h.fits hafter
    rw [hitems, hsize]
    exact fun _ => h.limits hc.initialized
  · intro hinit
    exact absurd (hclosed.initialized.symm.trans hinit) (by decide)

/-! ### Beyond the limit -/

/-- An address beyond all that are in use. -/
theorem sum_succ_not_mem (l : List Addr) : l.sum + 1 ∉ l := by
  intro hmem
  exact absurd (List.le_sum_of_mem hmem) (Nat.not_succ_le_self _)

/-- There is always an address that is not in use, which `malloc` may return. -/
theorem exists_free (c : Cache) : ∃ line entry, c.Free line entry := by
  have hline : c.lines.keys.sum + 1 ∉ c.lines := by
    rw [AList.mem_keys]
    exact sum_succ_not_mem _
  cases htable : c.htable with
  | none => exact ⟨_, 0, hline, fun ht hsome => absurd (htable.symm.trans hsome) (by simp)⟩
  | some ht =>
    refine ⟨_, ht.heap.keys.sum + 1, hline, ?_⟩
    intro ht' hsome
    rw [htable] at hsome
    obtain rfl := Option.some.inj hsome
    rw [AList.mem_keys]
    exact sum_succ_not_mem _

/-- Where there is room, an item that is accepted and not in the cache can be put. -/
theorem exists_put_of_room (h : c.Books ht chains) {buf : BufPtr} {len : UInt32}
    (haccepts : c.Accepts buf len) (hroom : ¬ c.NoRoom len) (htimes : c.TimesInRange)
    {cid : CacheID} (habsent : c.entry cid = none) (now : Timeval) :
    ∃ line entry c', cacheLife.act c (.call (.put line entry now cid buf len)) = some c' ∧
      c.PutsLine now cid buf len c c' := by
  obtain ⟨line, entry, hfree⟩ := exists_free c
  have hmalloc : c.MallocReturns len line entry := by
    rcases putLoop_books h haccepts.2.2 h.length_lt_fuel with
      ⟨hover, -⟩ | ⟨c₁, -, -, hmakes, -⟩
    · exact absurd hover htimes.not_timesOverflow
    · unfold Cache.MallocReturns
      rw [hmakes.loop, hmakes.eq_of_room hroom]
      exact decide_eq_true hfree
  rcases putCmpsc311Cache_books h haccepts hmalloc now cid with
    ⟨hover, -⟩ | ⟨c₁, ht₁, chains₁, hmakes, h₁, hline, hput⟩
  · exact absurd hover htimes.not_timesOverflow
  · obtain rfl : c₁ = c := hmakes.eq_of_room hroom
    rcases hput with ⟨hpresent, -⟩ | ⟨-, ht', hholds, hput⟩
    · exact absurd habsent hpresent
    · refine ⟨line, entry, _, ?_, haccepts, hmakes, habsent, line, entry, ht₁, chains₁, ht', h₁,
        hline, hholds, rfl⟩
      simp only [cacheLife, Cache.after]
      rw [if_pos hmalloc, hput]
      rfl

/-- A cache as it is set up: it is empty, its counters are zero, and its limits are those of the
    call. -/
theorem exists_init {maxItems maxSize : UInt32} (hitems : maxItems ≠ 0) (hsize : maxSize ≠ 0) :
    ∃ c ht chains, cacheLife.act .initial (.init maxItems maxSize) = some c ∧ c.Books ht chains ∧
      c.maxItems = maxItems ∧ c.maxSize = maxSize ∧ c.TimesInRange ∧
      (∀ cid, c.entry cid = none) ∧ c.currentItems = 0 ∧ c.currentSize = 0 := by
  rcases @initCmpsc311Cache_books .initial rfl maxItems maxSize with
    ⟨hzero | hzero, -⟩ | ⟨c, hinit, hmaxItems, hmaxSize, hnil, ht, chains, h⟩
  · exact absurd hzero hitems
  · exact absurd hzero hsize
  have hcount : c.currentItems.toNat = 0 := by
    rw [h.items, ← h.length_stored, hnil]
    rfl
  refine ⟨c, ht, chains, ?_, h, hmaxItems, hmaxSize, timesInRange_of_nil h hnil,
    h.entry_of_nil hnil, UInt32.toNat.inj hcount, ?_⟩
  · simp only [cacheLife, hinit]
    rfl
  · apply UInt32.toNat.inj
    rw [h.bytes, h.storedBytes_zero hcount]
    rfl

/-- Two items of `2 ^ 31` bytes go into any other cache, since the test takes their sum for 0. -/
theorem exists_run_beyond {limits : UInt32 → UInt32 → Prop} {maxItems maxSize : UInt32}
    (hwith : limits maxItems maxSize) (hitems : maxItems ≠ 0) (hsize : maxSize ≠ 0)
    (hone : maxItems ≠ 1) (hlarge : 2 ^ 31 ≤ maxSize.toNat) :
    ∃ ops c, (∀ op ∈ ops, CacheOp.InitsWith limits op) ∧
      cacheLife.run ops .initial = some c ∧ ¬ c.FitsBytes := by
  have hmany : 1 < maxItems.toNat := by
    have hne : maxItems.toNat ≠ 1 := fun h => hone (UInt32.toNat.inj h)
    have hpos : maxItems.toNat ≠ 0 := fun h => hitems (UInt32.toNat.inj h)
    omega
  have hle : (2147483648 : UInt32) ≤ maxSize := UInt32.le_iff_toNat_le.mpr hlarge
  obtain ⟨c₀, ht₀, chains₀, hinit, h₀, hmaxItems₀, hmaxSize₀, htimes₀, hempty, hcount₀, hbytes₀⟩ :=
    exists_init hitems hsize
  -- the first item goes into the empty cache
  have hroom₀ : ¬ c₀.NoRoom 2147483648 := by
    unfold Cache.NoRoom
    rw [hcount₀, hbytes₀, hmaxItems₀, hmaxSize₀]
    rintro (hfull | hover)
    · exact absurd (UInt32.le_iff_toNat_le.mp hfull) (by show ¬ _ ≤ 0; omega)
    · exact absurd hle (UInt32.not_le.mpr hover)
  have haccepts₀ : c₀.Accepts (some 7) 2147483648 :=
    ⟨h₀.initialized, by decide, by rwa [hmaxSize₀]⟩
  obtain ⟨line₀, entry₀, c₁, hput₀, hputs₀⟩ :=
    exists_put_of_room h₀ haccepts₀ hroom₀ htimes₀ (hempty 1) ⟨0, 0⟩
  obtain ⟨ht₁, chains₁, h₁⟩ := hputs₀.books
  obtain ⟨hmaxItems₁, hmaxSize₁, hcount₁, hbytes₁⟩ := hputs₀.counters
  -- and so does the second one, as `2 ^ 31 + 2 ^ 31` is 0
  have hroom₁ : ¬ c₁.NoRoom 2147483648 := by
    unfold Cache.NoRoom
    rw [hcount₁, hbytes₁, hcount₀, hbytes₀, hmaxItems₁, hmaxItems₀]
    rintro (hfull | hover)
    · exact absurd (UInt32.le_iff_toNat_le.mp hfull) (by show ¬ _ ≤ 1; omega)
    · exact absurd hover (UInt32.not_lt.mpr UInt32.zero_le)
  have haccepts₁ : c₁.Accepts (some 8) 2147483648 :=
    ⟨h₁.initialized, by decide, by rwa [hmaxSize₁, hmaxSize₀]⟩
  have habsent₁ : c₁.entry 2 = none := by
    rw [hputs₀.entry, Function.update_of_ne (by decide)]
    exact hempty 2
  obtain ⟨line₁, entry₁, c₂, hput₁, hputs₁⟩ := exists_put_of_room h₁ haccepts₁ hroom₁
    (hputs₀.timesInRange (by decide) htimes₀) habsent₁ ⟨0, 0⟩
  refine ⟨[.init maxItems maxSize, .call (.put line₀ entry₀ ⟨0, 0⟩ 1 (some 7) 2147483648),
    .call (.put line₁ entry₁ ⟨0, 0⟩ 2 (some 8) 2147483648)], c₂, ?_, ?_, ?_⟩
  · intro op hop
    simp only [List.mem_cons, List.not_mem_nil, or_false] at hop
    rcases hop with rfl | rfl | rfl
    · exact hwith
    · trivial
    · trivial
  · rw [ActionSystem.run_cons, hinit, Option.bind_some, ActionSystem.run_cons, hput₀,
      Option.bind_some, ActionSystem.run_cons, hput₁]
    rfl
  · have hsum₀ := hputs₀.storedBytes
    have hsum₁ := hputs₁.storedBytes
    have hlen : (2147483648 : UInt32).toNat = 2 ^ 31 := rfl
    have hmax := maxSize.toNat_lt
    unfold Cache.FitsBytes
    rw [hputs₁.counters.2.1, hmaxSize₁, hmaxSize₀]
    omega

/-! ### The limits -/

/-- **Capacity.**  A run in which no first test of a `put` wraps, or only in a cache for one item,
    keeps the exact sum of the sizes within the limit.  In every run that initialises the cache with
    limits of a kind the sum is within the limit in every state, if and only if all limits of this
    kind that are accepted are for one item only, or for less than `2 ^ 31` bytes. -/
theorem cache_capacity_iff (limits : UInt32 → UInt32 → Prop) :
    (∀ ops c, cacheLife.StepsMeet Cache.TestsExactly ops .initial →
      cacheLife.run ops .initial = some c → c.storedBytes ≤ c.maxSize.toNat) ∧
    ((∀ ops c, (∀ op ∈ ops, CacheOp.InitsWith limits op) →
      cacheLife.run ops .initial = some c → c.storedBytes ≤ c.maxSize.toNat) ↔
      ∀ maxItems maxSize, limits maxItems maxSize → maxItems ≠ 0 → maxSize ≠ 0 →
        maxItems = 1 ∨ maxSize.toNat < 2 ^ 31) := by
  refine ⟨fun ops c hmeets hrun => (fitsBytes_step.run Cache.keptWithin_initial hmeets hrun).fits,
    ?_, ?_⟩
  · intro hall maxItems maxSize hwith hitems hsize
    by_contra hlimits
    rw [not_or, not_lt] at hlimits
    obtain ⟨ops, c, hops, hrun, hbeyond⟩ :=
      exists_run_beyond hwith hitems hsize hlimits.1 hlimits.2
    exact hbeyond (hall ops c hops hrun)
  · intro hlimits ops c hops hrun
    have hstart : Cache.initial.ExactlyLimited :=
      ⟨Cache.keptWithin_initial, fun hinit => absurd hinit (by decide)⟩
    have hexact : ∀ op ∈ ops, CacheOp.InitsWith exactLimits op := by
      intro op hop
      cases op with
      | init maxItems maxSize => exact exactLimits_of_accepted (hlimits _ _ (hops _ hop))
      | call call => trivial
      | close => trivial
    exact (Cache.exactlyLimited_step.run hstart (cacheLife.stepsMeet_of_forall hexact _) hrun).fits

/-- Two items within the limits of the unit test. -/
theorem cache_capacity_unit_test : ∃ c,
    cacheLife.run [.init 25 20400, .call (.put 1 2 ⟨0, 0⟩ 1 (some 7) 2048),
      .call (.put 3 4 ⟨0, 0⟩ 2 (some 8) 2048)] .initial = some c ∧
    c.storedBytes ≤ c.maxSize.toNat := by
  have hsome : (cacheLife.run [.init 25 20400, .call (.put 1 2 ⟨0, 0⟩ 1 (some 7) 2048),
      .call (.put 3 4 ⟨0, 0⟩ 2 (some 8) 2048)] .initial).isSome := by decide +kernel
  obtain ⟨c, hrun⟩ := Option.isSome_iff_exists.mp hsome
  have hlimits : ∀ maxItems maxSize : UInt32, maxItems = 25 ∧ maxSize = 20400 →
      maxItems ≠ 0 → maxSize ≠ 0 → maxItems = 1 ∨ maxSize.toNat < 2 ^ 31 := by
    rintro _ _ ⟨rfl, rfl⟩ - -
    exact .inr (by decide)
  refine ⟨c, hrun, (cache_capacity_iff _).2.mpr hlimits _ c ?_ hrun⟩
  intro op hop
  simp only [List.mem_cons, List.not_mem_nil, or_false] at hop
  rcases hop with rfl | rfl | rfl
  · exact ⟨rfl, rfl⟩
  · trivial
  · trivial

/-- With a limit of `2 ^ 32 - 1` bytes, two items of `2 ^ 31` bytes are stored together: the test
    takes their sum for 0. -/
theorem cache_capacity_exceeded : ∃ c,
    cacheLife.run [.init 2 4294967295, .call (.put 1 2 ⟨0, 0⟩ 1 (some 7) 2147483648),
      .call (.put 3 4 ⟨0, 0⟩ 2 (some 8) 2147483648)] .initial = some c ∧
    c.maxSize = 4294967295 ∧ c.currentSize = 0 ∧ c.storedBytes = 4294967296 := by
  have hsome : ((cacheLife.run [.init 2 4294967295,
      .call (.put 1 2 ⟨0, 0⟩ 1 (some 7) 2147483648),
      .call (.put 3 4 ⟨0, 0⟩ 2 (some 8) 2147483648)] .initial).any fun c =>
        decide (c.maxSize = 4294967295 ∧ c.currentSize = 0 ∧ c.storedBytes = 4294967296)) := by
    decide +kernel
  obtain ⟨c, hrun, hc⟩ := (Option.any_eq_true _ _).mp hsome
  exact ⟨c, hrun, of_decide_eq_true hc⟩

end NetworkExperiment
