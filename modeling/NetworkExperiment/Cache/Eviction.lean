import Mathlib.Data.List.Chain
import NetworkExperiment.Cache.Runs
import NetworkExperiment.Hashtable.Refinement

namespace NetworkExperiment

open ActionSystems

/-!
# The eviction policy

What `eject_cmpsc311_cache` removes, in every run of the cache:

* `Ejects` — the ejections during a `put`;
* `LeastRecentlyUsed` — what is removed was last used no later than what remains;
* `UsedTogether` — everything in the cache was last used at one reading of the clock;
* `eject_lru_iff_used_together` — the policy is least-recently-used at exactly those ejections
  at which everything in the cache was last used together: `compareTimes` is negative where its
  first time is the later one, so the line that was used last is removed.
-/

/-- During a `put` of `len` bytes into `c`, an ejection takes the cache from `p` to `p'`. -/
def Ejects (c : Cache) (buf : BufPtr) (len : UInt32) (p p' : Cache) : Prop :=
  c.Accepts buf len ∧ p ∈ c.ejectPoints len c.fuel ∧ ejectCmpsc311Cache p = .ok (0, p')

/-- An identifier that the step from `p` to `p'` removes was last used no later than one that
    remains. -/
def LeastRecentlyUsed (lastUse : CacheID → Option Timeval) (p p' : Cache) : Prop :=
  ∀ cid cid', p.Has cid → ¬ p'.Has cid → p'.Has cid' →
    ∀ t t', lastUse cid = some t → lastUse cid' = some t' → t.Le t'

/-- All identifiers in the cache were last used at the same reading of the clock. -/
def UsedTogether (lastUse : CacheID → Option Timeval) (p : Cache) : Prop :=
  ∀ cid cid', p.Has cid → p.Has cid' → lastUse cid = lastUse cid'

variable {c p p' : Cache} {lastUse : CacheID → Option Timeval} {ht : HTable Addr}
  {chains : List (List (Stored Addr))} {cid : CacheID} {len : UInt32}

/-! ### Ejections -/

/-- The loop of `put` goes from one ejection to the next, and ends after the last of them. -/
theorem putLoop_ejectPoints {fuel : ℕ} {room : Bool} {c' : Cache}
    (hloop : c.putLoop len fuel = .ok (room, c')) :
    (c.ejectPoints len fuel ++ [c']).head? = some c ∧
      (c.ejectPoints len fuel ++ [c']).IsChain fun p q =>
        ∃ ret, ejectCmpsc311Cache p = .ok (ret, q) := by
  induction fuel generalizing c with
  | zero => exact absurd hloop (by simp [Cache.putLoop])
  | succ fuel ih =>
    unfold Cache.putLoop at hloop
    unfold Cache.ejectPoints
    by_cases hroom : c.NoRoom len
    · rw [if_pos hroom] at hloop
      obtain ⟨⟨ret, c₁⟩, heject, hrest⟩ := bind_eq_ok hloop
      rw [if_pos hroom, heject]
      dsimp only at hrest ⊢
      by_cases hret : ret = -1
      · -- nothing was ejected, and the loop gives up
        rw [if_pos hret] at hrest
        obtain ⟨-, rfl⟩ := Prod.mk.inj (Except.ok.inj hrest)
        rw [if_pos hret]
        simp [heject]
      · rw [if_neg hret] at hrest
        rw [if_neg hret]
        obtain ⟨hhead, hchain⟩ := ih hrest
        refine ⟨by simp, ?_⟩
        rw [List.cons_append, List.isChain_cons]
        refine ⟨?_, hchain⟩
        intro q hq
        rw [Option.mem_def, hhead, Option.some.injEq] at hq
        exact ⟨ret, hq ▸ heject⟩
    · rw [if_neg hroom] at hloop ⊢
      obtain ⟨-, rfl⟩ := Prod.mk.inj (Except.ok.inj hloop)
      simp

/-- The invariant holds at every ejection. -/
theorem ejectPoints_holds (h : c.Holds lastUse ht chains) {fuel : ℕ}
    (hp : p ∈ c.ejectPoints len fuel) : ∃ ht' chains', p.Holds lastUse ht' chains' := by
  induction fuel generalizing c ht chains with
  | zero => exact absurd hp (by simp [Cache.ejectPoints])
  | succ fuel ih =>
    unfold Cache.ejectPoints at hp
    by_cases hroom : c.NoRoom len
    · rw [if_pos hroom] at hp
      cases heject : ejectCmpsc311Cache c with
      | error fault =>
        rw [heject, List.mem_singleton] at hp
        exact ⟨ht, chains, hp ▸ h⟩
      | ok out =>
        rw [heject, List.mem_cons] at hp
        rcases hp with rfl | hp
        · exact ⟨ht, chains, h⟩
        · by_cases hret : out.1 = -1
          · rw [if_pos hret] at hp
            exact absurd hp List.not_mem_nil
          · rw [if_neg hret] at hp
            rcases ejectCmpsc311Cache_spec h heject with ⟨hfail, -⟩ | ⟨e, -, -, -, ht', h'⟩
            · exact absurd hfail hret
            · exact ih h' hp
    · rw [if_neg hroom] at hp
      exact absurd hp List.not_mem_nil

/-- With too little room, the first ejection is made of the cache as it is. -/
theorem mem_ejectPoints (hroom : c.NoRoom len) : c ∈ c.ejectPoints len c.fuel := by
  have hfuel : c.fuel = (c.fuel - 1) + 1 := by
    unfold Cache.fuel HTable.fuel
    split <;> omega
  rw [hfuel]
  unfold Cache.ejectPoints
  rw [if_pos hroom]
  split <;> simp

/-! ### The policy -/

/-- What is in the cache lies in an entry whose line has the time of its last use. -/
theorem Cache.Holds.has_line (h : c.Holds lastUse ht chains) (hcid : c.Has cid) :
    ∃ e ∈ chains.flatten, ∃ l, IsLine c lastUse e l ∧ l.cid = cid ∧ e.index = cacheIndex cid := by
  obtain ⟨e, he, hidx⟩ := h.has_iff.mp hcid
  obtain ⟨l, hl⟩ := h.lines e he
  exact ⟨e, he, l, hl, cacheIndex_injective (hl.index.trans hidx), hidx⟩

/-- An ejection is least-recently-used if and only if everything in the cache was last used
    together. -/
theorem Cache.Holds.lru_iff (h : p.Holds lastUse ht chains)
    (heject : ejectCmpsc311Cache p = .ok (0, p')) :
    LeastRecentlyUsed lastUse p p' ↔ UsedTogether lastUse p := by
  rcases ejectCmpsc311Cache_spec h heject with ⟨hfail, -⟩ | ⟨e, he, hmax, -, ht', h'⟩
  · exact absurd hfail (by decide)
  obtain ⟨l, hl⟩ := h.lines e he
  have hremains : ∀ x ∈ chains.flatten, x.index ≠ e.index →
      x ∈ (deleteChains e.index chains).flatten := by
    intro x hx hne
    exact (mem_deleteChains h.holds).mpr ⟨hx, hne⟩
  constructor
  · intro hlru
    -- whatever remains was used when the ejected line was: no earlier by the policy, and no later
    -- because the ejected line was used last
    have hall : ∀ cid, p.Has cid → lastUse cid = some l.lastUsed := by
      intro cid hcid
      obtain ⟨x, hx, lx, hlx, rfl, hidx⟩ := h.has_line hcid
      by_cases hxe : x.index = e.index
      · have hsame : lx.cid = l.cid := cacheIndex_injective (by rw [hlx.index, hxe, hl.index])
        rw [hsame, hl.used]
      · have hgone : ¬ p'.Has l.cid := by
          intro hhas
          obtain ⟨y, hy, hyidx⟩ := h'.has_iff.mp hhas
          exact ((mem_deleteChains h.holds).mp hy).2 (hyidx.trans hl.index)
        have hle := hlru l.cid lx.cid (h.has_iff.mpr ⟨e, he, hl.index.symm⟩) hgone
          (h'.has_iff.mpr ⟨x, hremains x hx hxe, hidx⟩) _ _ hl.used hlx.used
        rw [Timeval.le_iff_micros hl.normalised hlx.normalised] at hle
        have hge : p.usedMicros x ≤ p.usedMicros e := hmax x hx
        rw [hl.usedMicros, hlx.usedMicros] at hge
        rw [hlx.used, (Timeval.eq_iff_micros hlx.normalised hl.normalised).mpr (by omega)]
    intro cid cid' hcid hcid'
    rw [hall cid hcid, hall cid' hcid']
  · intro htogether cid cid' hcid _ hcid' t t' ht ht'
    obtain ⟨x, hx, hidx⟩ := h'.has_iff.mp hcid'
    have hx := ((mem_deleteChains h.holds).mp hx).1
    have hsame := htogether cid cid' hcid (h.has_iff.mpr ⟨x, hx, hidx⟩)
    rw [ht, ht'] at hsame
    obtain rfl := Option.some.inj hsame
    exact .inr ⟨rfl, le_refl _⟩

/-! ### Every run -/

/-- A cache that has just been initialised, with the clock at `t`. -/
def CacheRun.start (c : Cache) (t : Timeval) : CacheRun := ⟨c, t, fun _ => none⟩

/-- An initialised cache has an empty table. -/
theorem CacheRun.inv_init {maxItems maxSize : UInt32} {c : Cache}
    (hinit : initCmpsc311Cache .initial maxItems maxSize = .ok (0, c)) (t : Timeval) :
    (CacheRun.start c t).Inv := by
  unfold initCmpsc311Cache at hinit
  simp only [Cache.initial, Bool.false_eq_true, if_false] at hinit
  split_ifs at hinit
  · exact absurd (Prod.mk.inj (Except.ok.inj hinit)).1 (by decide)
  · exact absurd (Prod.mk.inj (Except.ok.inj hinit)).1 (by decide)
  obtain ⟨ht, htable, hinit⟩ := bind_eq_ok hinit
  obtain ⟨-, rfl⟩ := Prod.mk.inj (Except.ok.inj hinit)
  obtain ⟨chains, hholds, hcontents⟩ := follows_initHashTable (by decide) htable
  refine ⟨ht, chains, ⟨rfl, rfl, hholds, ?_⟩⟩
  intro e he
  -- nothing is stored
  have hsome := hholds.contents_eq_some.mpr ⟨e, he, rfl, rfl⟩
  rw [hcontents] at hsome
  exact absurd hsome (by simp [mapAfter])

/-- **The invariant of a run.** -/
theorem CacheRun.inv_of_run {s s' : CacheRun} (h : s.Inv) {calls : List CacheCall}
    (hrun : cacheRuns.run calls s = some s') : s'.Inv :=
  ActionSystem.Invariant.run (fun _ _ _ h hstep => CacheRun.inv_step h hstep) h hrun

/-- A cache of at most `maxItems` items and 100 bytes, as `init_cmpsc311_cache` leaves it. -/
def cacheOf (maxItems : UInt32) : Cache :=
  { Cache.initial with
    initialized := true
    maxItems := maxItems
    maxSize := 100
    htable := some (.empty Addr 256) }

/-- Where a computation gives a value with a property, it returns. -/
theorem exists_ok {α : Type} {x : Except Fault α} {P : α → Prop} [DecidablePred P]
    (h : x.toOption.any (fun a => P a) = true) : ∃ a, x = .ok a ∧ P a := by
  cases x with
  | error e => exact absurd h (by simp [Except.toOption])
  | ok a => exact ⟨a, rfl, of_decide_eq_true h⟩

/-- **Eviction.**  In every run on an initialised cache, the loop of the `put` that follows goes
    through the points of ejection, each ejection leading from one to the next; and at every
    ejection what is removed was last used no later than what remains if and only if everything in
    the cache was last used at the same reading of the clock. -/
theorem eject_lru_iff_used_together {maxItems maxSize : UInt32} {c₀ : Cache}
    (hinit : initCmpsc311Cache .initial maxItems maxSize = .ok (0, c₀)) (t₀ : Timeval)
    (calls : List CacheCall) {s : CacheRun}
    (hrun : cacheRuns.run calls (.start c₀ t₀) = some s) (buf : BufPtr) (len : UInt32) :
    (∀ room c', s.cache.putLoop len s.cache.fuel = .ok (room, c') →
      (s.cache.ejectPoints len s.cache.fuel ++ [c']).head? = some s.cache ∧
      (s.cache.ejectPoints len s.cache.fuel ++ [c']).IsChain fun p q =>
        ∃ ret, ejectCmpsc311Cache p = .ok (ret, q)) ∧
    ∀ p p', Ejects s.cache buf len p p' →
      (LeastRecentlyUsed s.lastUse p p' ↔ UsedTogether s.lastUse p) := by
  refine ⟨fun room c' => putLoop_ejectPoints, ?_⟩
  rintro p p' ⟨-, hpoint, heject⟩
  obtain ⟨ht, chains, hs⟩ := CacheRun.inv_of_run (CacheRun.inv_init hinit t₀) hrun
  obtain ⟨ht', chains', hp⟩ := ejectPoints_holds hs hpoint
  exact hp.lru_iff heject

/-- Two items that are put at one reading of the clock. -/
def putTogether : List CacheCall :=
  [.put 1 2 ⟨1, 0⟩ 1 (some 7) 10, .put 3 4 ⟨1, 0⟩ 2 (some 8) 10]

/-- A cache for two items that were last used together: the ejection is least-recently-used, and one
    of them stays. -/
theorem eject_lru_two_items_together : ∃ c₀ s p', initCmpsc311Cache .initial 2 100 = .ok (0, c₀) ∧
    cacheRuns.run putTogether (.start c₀ ⟨0, 0⟩) = some s ∧
    s.lastUse 1 = some ⟨1, 0⟩ ∧ s.lastUse 2 = some ⟨1, 0⟩ ∧
    Ejects s.cache (some 9) 10 s.cache p' ∧ (p'.Has 1 ↔ ¬ p'.Has 2) ∧
    LeastRecentlyUsed s.lastUse s.cache p' := by
  have hinit : initCmpsc311Cache .initial 2 100 = .ok (0, cacheOf 2) := by rfl
  have hrun : ((cacheRuns.run putTogether (.start (cacheOf 2) ⟨0, 0⟩)).any fun s =>
      decide (s.cache.Accepts (some 9) 10 ∧ s.cache.NoRoom 10 ∧
        (ejectCmpsc311Cache s.cache).toOption.any
          (fun out => out.1 = 0 ∧ (out.2.Has 1 ↔ ¬ out.2.Has 2)) = true)) = true := by
    decide +kernel
  obtain ⟨s, hrun, hs⟩ := (Option.any_eq_true _ _).mp hrun
  obtain ⟨haccepts, hroom, heject⟩ := of_decide_eq_true hs
  obtain ⟨⟨ret, p'⟩, heject, rfl, hone⟩ := exists_ok heject
  have hejects : Ejects s.cache (some 9) 10 s.cache p' :=
    ⟨haccepts, mem_ejectPoints hroom, heject⟩
  have hused : s.lastUse = Function.update (Function.update (fun _ => none) 1 (some ⟨1, 0⟩)) 2
      (some ⟨1, 0⟩) := by
    have hmap : (cacheRuns.run putTogether (.start (cacheOf 2) ⟨0, 0⟩)).map (·.lastUse)
        = some (Function.update (Function.update (fun _ => none) 1 (some ⟨1, 0⟩)) 2
          (some ⟨1, 0⟩)) := by rfl
    rw [hrun] at hmap
    exact Option.some.inj hmap
  refine ⟨cacheOf 2, s, p', hinit, hrun, by rw [hused]; rfl, by rw [hused]; rfl, hejects, hone, ?_⟩
  rw [(eject_lru_iff_used_together hinit ⟨0, 0⟩ _ hrun (some 9) 10).2 _ _ hejects]
  -- what is in the cache has been used, and nothing was used at another time
  have htime : ∀ cid, s.cache.Has cid → s.lastUse cid = some ⟨1, 0⟩ := by
    intro cid hcid
    obtain ⟨ht, chains, hs⟩ := CacheRun.inv_of_run (CacheRun.inv_init hinit ⟨0, 0⟩) hrun
    obtain ⟨e, he, l, hl, rfl, -⟩ := hs.has_line hcid
    have hsome := hl.used
    rw [hused] at hsome ⊢
    by_cases htwo : l.cid = 2
    · rw [htwo, Function.update_self]
    · rw [Function.update_of_ne htwo] at hsome ⊢
      by_cases hone : l.cid = 1
      · rw [hone, Function.update_self]
      · rw [Function.update_of_ne hone] at hsome
        exact absurd hsome (by simp)
  intro cid cid' hcid hcid'
  rw [htime cid hcid, htime cid' hcid']

/-- The third item goes into a cache for two, and the second is ejected: it was used at second 2,
    the first one at second 1. -/
theorem eject_removes_newer : ∃ c₀ s p', initCmpsc311Cache .initial 2 100 = .ok (0, c₀) ∧
    cacheRuns.run [.put 1 2 ⟨1, 0⟩ 1 (some 7) 10, .put 3 4 ⟨2, 0⟩ 2 (some 8) 10]
      (.start c₀ ⟨0, 0⟩) = some s ∧
    Ejects s.cache (some 9) 10 s.cache p' ∧
    s.lastUse 1 = some ⟨1, 0⟩ ∧ s.lastUse 2 = some ⟨2, 0⟩ ∧
    s.cache.Has 2 ∧ ¬ p'.Has 2 ∧ p'.Has 1 ∧ ¬ LeastRecentlyUsed s.lastUse s.cache p' := by
  have hrun : ((cacheRuns.run [.put 1 2 ⟨1, 0⟩ 1 (some 7) 10, .put 3 4 ⟨2, 0⟩ 2 (some 8) 10]
      (.start (cacheOf 2) ⟨0, 0⟩)).any fun s =>
        decide (s.cache.Accepts (some 9) 10 ∧ s.cache.NoRoom 10 ∧ s.lastUse 1 = some ⟨1, 0⟩ ∧
          s.lastUse 2 = some ⟨2, 0⟩ ∧ s.cache.Has 2 ∧
          (ejectCmpsc311Cache s.cache).toOption.any
            (fun out => out.1 = 0 ∧ ¬ out.2.Has 2 ∧ out.2.Has 1) = true)) = true := by
    decide +kernel
  obtain ⟨s, hrun, hs⟩ := (Option.any_eq_true _ _).mp hrun
  obtain ⟨haccepts, hroom, hone, htwo, hhas, heject⟩ := of_decide_eq_true hs
  obtain ⟨⟨ret, p'⟩, heject, rfl, hgone, hkept⟩ := exists_ok heject
  refine ⟨cacheOf 2, s, p', rfl, hrun, ⟨haccepts, mem_ejectPoints hroom, heject⟩, hone, htwo,
    hhas, hgone, hkept, ?_⟩
  intro hlru
  exact absurd (hlru 2 1 hhas hgone hkept _ _ htwo hone) (by decide)

end NetworkExperiment
