import NetworkExperiment.Lib.Lockstep
import NetworkExperiment.Cache.Demand

namespace NetworkExperiment

open ActionSystems StackAlgorithms

/-!
# A larger cache holds what a smaller one holds

Two caches that serve the same requests, each with a clock, a heap and limits of its own:

* `Includes` — the relation between them: what the smaller one holds is held by the larger one,
  in the same order of use;
* `includes_step` — a request to both keeps it;
* `larger_cache_includes` — so the larger cache misses no item that the smaller one has.
-/

/-- The cache of `s` holds what that of `t` holds, or less, used in the same order. -/
structure Includes (len : UInt32) (n N : ℕ) (s t : DemandCache) : Prop where
  small : s.Inv len
  large : t.Inv len
  slotsSmall : s.cache.slots len = n
  slotsLarge : t.cache.slots len = N
  nested : Nested n N s.cache.held t.cache.held
  agree : ∀ y ∈ s.cache.held, ∀ z ∈ s.cache.held, s.cache.usedAt y < s.cache.usedAt z →
    t.cache.usedAt y < t.cache.usedAt z
  hits : s.hits ≤ t.hits

variable {len : UInt32} {n N : ℕ} {s t s' t' : DemandCache} {cid : CacheID}

/-- Both caches serve a request.  The nesting is kept by the policy alone; that the order of use
    stays the same comes from the two clocks. -/
theorem Includes.served (h : Includes len n N s t) (hs : s.Served len cid s')
    (ht : t.Served len cid t') : Includes len n N s' t' := by
  have hserves := hs.serves
  have hserves' := ht.serves
  rw [h.slotsSmall] at hserves
  rw [h.slotsLarge] at hserves'
  have hnested := h.nested.serves h.agree hserves hserves'
  refine ⟨hs.inv, ht.inv, hs.slots.trans h.slotsSmall, ht.slots.trans h.slotsLarge, hnested, ?_, ?_⟩
  · intro y hy z hz hlt
    by_cases hyc : y = cid
    · -- nothing has been used after the item
      subst hyc
      by_cases hzy : z = y
      · rw [hzy] at hlt
        exact absurd hlt (lt_irrefl _)
      · have hpast := h.small.past z (hserves.mem_of_ne hz hzy)
        rw [hs.others z hz hzy] at hlt
        have hnow := hs.now
        omega
    · -- `y` has been used before, in both caches
      have hyB := hnested.sub hy
      have hyS := hserves.mem_of_ne hy hyc
      rw [ht.others y hyB hyc]
      by_cases hzc : z = cid
      · subst hzc
        exact lt_of_le_of_lt (h.large.past y (h.nested.sub hyS)) ht.now
      · have hzS := hserves.mem_of_ne hz hzc
        rw [hs.others y hy hyc, hs.others z hz hzc] at hlt
        rw [ht.others z (hnested.sub hz) hzc]
        exact h.agree y hyS z hzS hlt
  · -- what the smaller one finds is found by the larger one
    have hle := h.hits
    rw [hs.hits, ht.hits]
    split_ifs with hin hin' hin'
    · omega
    · exact absurd (h.nested.sub hin) hin'
    · omega
    · omega

/-- **Step lemma.**  Both caches serve a request, or delete an item. -/
theorem includes_step (len : UInt32) (n N : ℕ) :
    ActionSystem.Lockstep (demandCache len) (demandCache len) (fun a b => a.1 = b.1)
      (Includes len n N) := by
  rintro s t ⟨r, d⟩ ⟨_, d'⟩ s' t' h rfl hs ht
  cases r with
  | refer cid =>
    -- a request that has gone through has been served, under either clock
    have hserved : ∀ {u u' : DemandCache} {b : Demand}, u.Inv len →
        (demandCache len).act u (.refer cid, b) = some u' → u.Served len cid u' := by
      intro u u' b hinv hact
      simp only [demandCache] at hact
      split_ifs at hact with hclock
      exact served_of_refer hinv hclock hact
    exact h.served (hserved h.small hs) (hserved h.large ht)
  | delete cid =>
    obtain ⟨u, hu, hinv, hslots, hheld, hused, -, hhits⟩ := delete_served h.small cid
    obtain ⟨u', hu', hinv', hslots', hheld', hused', -, hhits'⟩ := delete_served h.large cid
    obtain rfl : u = s' := Option.some.inj (hu.symm.trans hs)
    obtain rfl : u' = t' := Option.some.inj (hu'.symm.trans ht)
    have hnested := h.nested.erase cid
    rw [← hheld, ← hheld'] at hnested
    refine ⟨hinv, hinv', hslots.trans h.slotsSmall, hslots'.trans h.slotsLarge, hnested, ?_, ?_⟩
    · intro y hy z hz hlt
      rw [hused y hy, hused z hz] at hlt
      rw [hused' y (hnested.sub hy), hused' z (hnested.sub hz)]
      rw [hheld] at hy hz
      exact h.agree y (Finset.mem_of_mem_erase hy) z (Finset.mem_of_mem_erase hz) hlt
    · rw [hhits, hhits']
      exact h.hits

/-- No request goes wrong, whatever later time the clock shows and whatever `malloc` returns. -/
def DemandCache.NeverFails (len : UInt32) (s : DemandCache) : Prop :=
  (∀ cid d, s.ClockAllows d → s.cache.MallocReturns len d.line d.entry →
    (s.refer len cid d).isSome) ∧ ∀ cid, (s.delete cid).isSome

/-- The invariant is enough for every call. -/
theorem DemandCache.Inv.neverFails (h : s.Inv len) : s.NeverFails len := by
  constructor
  · intro cid d hclock hmalloc
    obtain ⟨s', hs', -⟩ := refer_served h hclock cid fun _ => hmalloc
    exact Option.isSome_of_eq_some hs'
  · intro cid
    obtain ⟨s', hs', -⟩ := delete_served h cid
    exact Option.isSome_of_eq_some hs'

/-- **A larger cache holds what a smaller one holds.**  Two caches are filled on demand with items
    of one length, by the same requests, each under a clock of its own that shows a later time at
    every request than at the one before.  The limit of each on bytes leaves room for an item more
    below `2 ^ 32`.  If the first has no more slots than the second, then after every sequence of
    requests all that it holds is held by the second, which has found as many items or more; and no
    request goes wrong.  With a clock that stands still this fails: a larger cache may then eject
    what the smaller one keeps. -/
theorem larger_cache_includes {len : UInt32} {c d : Cache} (hc : c.FreshFor len)
    (hd : d.FreshFor len) (hslots : c.slots len ≤ d.slots len) {clock clock' : ℤ}
    {as bs : List (CacheRequest × Demand)} (hsame : List.Forall₂ (fun a b => a.1 = b.1) as bs)
    {s t : DemandCache} (hs : (demandCache len).run as ⟨c, clock, 0⟩ = some s)
    (ht : (demandCache len).run bs ⟨d, clock', 0⟩ = some t) :
    (∀ cid, s.cache.entry cid ≠ none → t.cache.entry cid ≠ none) ∧ s.hits ≤ t.hits ∧
      s.NeverFails len ∧ t.NeverFails len := by
  obtain ⟨hinv, hheld⟩ := hc.inv clock
  obtain ⟨hinv', hheld'⟩ := hd.inv clock'
  -- both are empty, and have found nothing
  have hstart : Includes len (c.slots len) (d.slots len) ⟨c, clock, 0⟩ ⟨d, clock', 0⟩ := by
    refine ⟨hinv, hinv', rfl, rfl, ⟨?_, ?_⟩, ?_, le_refl _⟩
    · rw [hheld]
      exact Finset.empty_subset _
    · rw [hheld, hheld']
      simpa using hslots
    · intro y hy
      rw [hheld] at hy
      exact absurd hy (Finset.notMem_empty y)
  have h := (includes_step len _ _).run hstart hsame hs ht
  obtain ⟨ht', chains', hsmall⟩ := h.small.books
  obtain ⟨ht'', chains'', hlarge⟩ := h.large.books
  refine ⟨?_, h.hits, h.small.neverFails, h.large.neverFails⟩
  intro cid hcid
  exact hlarge.mem_held.mp (h.nested.sub (hsmall.mem_held.mpr hcid))

/-- Three requests for two items, with the readings of one clock. -/
def threeRequests (sec : ℤ) : List (CacheRequest × Demand) :=
  [(.refer 1, ⟨⟨sec, 0⟩, ⟨sec, 5⟩, 1, 2, 7⟩), (.refer 2, ⟨⟨sec + 1, 0⟩, ⟨sec + 1, 5⟩, 3, 4, 8⟩),
    (.refer 1, ⟨⟨sec + 2, 0⟩, ⟨sec + 2, 5⟩, 5, 6, 9⟩)]

/-- Two slots find the item that one slot has ejected. -/
theorem larger_cache_includes_two_slots : ∃ s t,
    (demandCache 10).run (threeRequests 1) ⟨cacheFor 1, 0, 0⟩ = some s ∧
    (demandCache 10).run (threeRequests 5) ⟨cacheFor 2, 0, 0⟩ = some t ∧
    s.hits = 0 ∧ t.hits = 1 ∧
    (∀ cid, s.cache.entry cid ≠ none → t.cache.entry cid ≠ none) ∧ s.hits ≤ t.hits := by
  have hs : (((demandCache 10).run (threeRequests 1) ⟨cacheFor 1, 0, 0⟩).any fun s =>
      decide (s.hits = 0)) = true := by decide +kernel
  have ht : (((demandCache 10).run (threeRequests 5) ⟨cacheFor 2, 0, 0⟩).any fun s =>
      decide (s.hits = 1)) = true := by decide +kernel
  obtain ⟨s, hruns, hhits⟩ := (Option.any_eq_true _ _).mp hs
  obtain ⟨t, hrunt, hhitt⟩ := (Option.any_eq_true _ _).mp ht
  have hfresh : ∀ maxItems : UInt32, initCmpsc311Cache .initial maxItems 100
      = .ok (0, cacheFor maxItems) → (cacheFor maxItems).maxSize = 100 →
      (cacheFor maxItems).FreshFor 10 := by
    intro maxItems hinit hsize
    refine ⟨⟨⟨[], .initial, maxItems, 100, rfl, hinit⟩⟩, ?_⟩
    unfold Cache.Suits
    rw [hsize]
    decide
  have hall := larger_cache_includes (hfresh 1 rfl rfl) (hfresh 2 rfl rfl) (by decide +kernel)
    (by simp [threeRequests]) hruns hrunt
  exact ⟨s, t, hruns, hrunt, of_decide_eq_true hhits, of_decide_eq_true hhitt, hall.1, hall.2.1⟩

end NetworkExperiment
