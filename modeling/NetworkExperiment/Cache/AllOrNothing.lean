import NetworkExperiment.Cache.Bookkeeping

namespace NetworkExperiment

open ActionSystems

/-!
# A put is all or nothing

What `put_cmpsc311_cache` does to a cache of a life, for an identifier that is not in it:

* `Cache.EjectsInto` — the ejections of its loop, one after the other, and what they leave;
* `put_all_or_nothing` — the call returns; it stores the item exactly where its checks accept it,
  and changes nothing otherwise; its loop meets no empty table, and ejects no more than it has to.

The only thing in the way is a comparison of two times that C leaves undefined, and readings of the
clock within some 139,000 years of the Epoch rule it out.
-/

variable {c c' : Cache} {cid : CacheID} {buf : BufPtr} {len : UInt32}

/-- The ejections of a `put` of `len` bytes lead from `c` to `c₁` through the caches `ps`: there is
    too little room after each proper prefix of them, and enough after all of them. -/
structure Cache.EjectsInto (c : Cache) (len : UInt32) (ps : List Cache) (c₁ : Cache) : Prop where
  first : (ps ++ [c₁]).head? = some c
  steps : (ps ++ [c₁]).IsChain fun p q => ejectCmpsc311Cache p = .ok (0, q)
  noRoom : ∀ p ∈ ps, p.NoRoom len
  room : ¬ c₁.NoRoom len

/-- The checks of `put_cmpsc311_cache` on an initialised cache. -/
theorem accepts_iff (hinit : c.initialized = true) :
    c.Accepts buf len ↔ buf ≠ none ∧ 1 ≤ len ∧ len ≤ c.maxSize := by
  have hpos : 1 ≤ len ↔ len ≠ 0 := by
    rw [UInt32.le_iff_toNat_le, ne_eq, ← UInt32.toNat_inj]
    show 1 ≤ len.toNat ↔ ¬ len.toNat = 0
    omega
  unfold Cache.Accepts
  rw [hpos, not_or]
  constructor
  · rintro ⟨-, ⟨hlen, hbuf⟩, hle⟩
    exact ⟨hbuf, hlen, hle⟩
  · rintro ⟨hbuf, hlen, hle⟩
    exact ⟨hinit, ⟨hlen, hbuf⟩, hle⟩

/-- The loop of `put` ejects lines as long as there is too little room. -/
theorem Cache.MakesRoom.ejectsInto {ht : HTable Addr} {chains : List (List (Stored Addr))}
    (h : c.Books ht chains) (hle : len ≤ c.maxSize) {c₁ : Cache}
    (hmakes : c.MakesRoom len c.fuel c₁) :
    c.EjectsInto len (c.ejectPoints len c.fuel) c₁ where
  first := hmakes.first
  steps := hmakes.steps
  noRoom _ hp := (ejectPoints_books h hle hp).1
  room := hmakes.room

/-- **All or nothing.**  In every initialised cache that calls reach from the start of the program,
    and for every identifier that is not in it, a `put`

    * never gives up for want of lines, and never ejects from an empty table;
    * returns, with `0` exactly where there is a buffer of a length from 1 to `max_size`;
    * leaves everything as it was where it returns `-1`;
    * has stored the line where it returns `0`, after ejections of which each was needed;

    unless the times of two lines are too far apart, which they are not where all readings of the
    clock have been in range. -/
theorem put_all_or_nothing {ops : List CacheOp} (hrun : cacheLife.run ops .initial = some c)
    (hinit : c.initialized = true) (habsent : c.entry cid = none) (buf : BufPtr) (len : UInt32)
    {line entry : Addr} (hmalloc : c.MallocReturns len line entry) (now : Timeval) :
    (c.Accepts buf len → (∀ p ∈ c.ejectPoints len c.fuel, p.stored ≠ []) ∧
      ∀ c₂, c.putLoop len c.fuel ≠ .ok (false, c₂)) ∧
    (c.TimesOverflow ∨ ∃ ret c', putCmpsc311Cache c line entry now cid buf len = .ok (ret, c') ∧
      (ret = 0 ∨ ret = -1) ∧ (ret = 0 ↔ buf ≠ none ∧ 1 ≤ len ∧ len ≤ c.maxSize) ∧
      (ret = -1 → c' = c) ∧
      (ret = 0 → c'.entry cid = some ⟨cid, len, buf, now⟩ ∧
        ∃ c₁, c.EjectsInto len (c.ejectPoints len c.fuel) c₁ ∧
          c'.entry = Function.update c₁.entry cid (some ⟨cid, len, buf, now⟩))) ∧
    ((∀ op ∈ ops, op.ReadingInRange) → ¬ c.TimesOverflow) := by
  obtain ⟨ht, chains, h⟩ := Cache.books_of_run hrun hinit
  refine ⟨?_, ?_, fun hin => (timesInRange_of_run hin hrun).not_timesOverflow⟩
  · -- an empty cache has room for the item, whose length is at most `max_size`
    intro haccepts
    refine ⟨fun p hp => (ejectPoints_books h haccepts.2.2 hp).2, ?_⟩
    intro c₂ hfalse
    rcases putLoop_books h haccepts.2.2 h.length_lt_fuel with
      ⟨-, hloop⟩ | ⟨c₁, -, -, hmakes, -⟩
    · rw [hloop] at hfalse
      exact absurd hfalse (by simp)
    · rw [hmakes.loop] at hfalse
      exact absurd hfalse (by simp)
  · rw [← accepts_iff hinit]
    by_cases haccepts : c.Accepts buf len
    · rcases putCmpsc311Cache_books h haccepts hmalloc now cid with
        ⟨hover, -⟩ | ⟨c₁, ht₁, chains₁, hmakes, h₁, hline, ⟨hpresent, -⟩ |
          ⟨habsent₁, ht', hholds, hput⟩⟩
      · exact .inl hover
      · -- an identifier that is not in the cache is not in what is left of it
        rw [hmakes.entry] at hpresent
        dsimp only at hpresent
        rw [habsent, ite_self] at hpresent
        exact absurd rfl hpresent
      · right
        have hputs : c.PutsLine now cid buf len c₁ (c₁.withLine ht' line ⟨cid, len, buf, now⟩) :=
          ⟨haccepts, hmakes, habsent₁, line, entry, ht₁, chains₁, ht', h₁, hline, hholds, rfl⟩
        refine ⟨0, _, hput, .inl rfl, ⟨fun _ => haccepts, fun _ => rfl⟩, ?_, ?_⟩
        · intro hret
          exact absurd hret (by decide)
        · intro _
          refine ⟨?_, c₁, hmakes.ejectsInto h haccepts.2.2, hputs.entry⟩
          rw [hputs.entry, Function.update_self]
    · right
      refine ⟨-1, c, putCmpsc311Cache_refused haccepts, .inr rfl, ?_, fun _ => rfl, ?_⟩
      · exact ⟨fun hret => absurd hret (by decide), fun hacc => absurd hacc haccepts⟩
      · intro hret
        exact absurd hret (by decide)

/-- A third item for a cache of two. -/
theorem put_all_or_nothing_third : ∃ c c',
    cacheLife.run [.init 2 100, .call (.put 1 2 ⟨1, 0⟩ 1 (some 7) 10),
      .call (.put 3 4 ⟨2, 0⟩ 257 (some 8) 20)] .initial = some c ∧
    putCmpsc311Cache c 5 6 ⟨3, 0⟩ 2 (some 9) 30 = .ok (0, c') ∧
    c'.entry 2 = some ⟨2, 30, some 9, ⟨3, 0⟩⟩ := by
  have hrun : ((cacheLife.run [.init 2 100, .call (.put 1 2 ⟨1, 0⟩ 1 (some 7) 10),
      .call (.put 3 4 ⟨2, 0⟩ 257 (some 8) 20)] .initial).any fun c =>
        decide (c.initialized = true ∧ c.entry 2 = none ∧ c.MallocReturns 30 5 6 ∧
          c.maxSize = 100)) = true := by
    decide +kernel
  obtain ⟨c, hrun, hc⟩ := (Option.any_eq_true _ _).mp hrun
  obtain ⟨hinit, habsent, hmalloc, hsize⟩ := of_decide_eq_true hc
  obtain ⟨-, hput, hin⟩ := put_all_or_nothing hrun hinit habsent (some 9) 30 hmalloc ⟨3, 0⟩
  have htimes : ¬ c.TimesOverflow := by
    apply hin
    intro op hop
    simp only [List.mem_cons, List.not_mem_nil, or_false] at hop
    rcases hop with rfl | rfl | rfl
    · trivial
    · exact (show Timeval.InRange ⟨1, 0⟩ by decide)
    · exact (show Timeval.InRange ⟨2, 0⟩ by decide)
  rcases hput with hover | ⟨ret, c', hput, -, hiff, -, hstored⟩
  · exact absurd hover htimes
  · obtain rfl := hiff.mpr ⟨by decide, by decide, by rw [hsize]; decide⟩
    exact ⟨c, c', hrun, hput, (hstored rfl).1⟩

end NetworkExperiment
