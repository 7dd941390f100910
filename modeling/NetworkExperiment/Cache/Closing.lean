import NetworkExperiment.Cache.Frame

namespace NetworkExperiment

open ActionSystems

/-!
# Closing the cache

What `close_cmpsc311_cache` frees, and what it leaves, from every state of a life:

* `Cache.Owned` / `owned_of_run` — every cache line is that of an entry: none is lost;
* `closeLoop_frees` — the loop frees the buffers of the stored lines, each once;
* `ClosesTo` / `closesTo` — what closing comes to;
* `close_resets` — in every state of a life, the calls that follow return what they return at the
  start of the program.
-/

variable {c c' : Cache} {ht ht' : HTable Addr} {chains : List (List (Stored Addr))}
  {e : Stored Addr} {l : Cmpsc311CacheEntry}

/-! ### No line is lost -/

/-- Every cache line is the block of an entry. -/
def Cache.Owned (c : Cache) : Prop :=
  ∀ a ∈ c.lines, ∃ ht idx, c.htable = some ht ∧ findValueInHashTable ht idx = .ok (some a)

/-- The same of the entries of the chains. -/
theorem owned_iff (htable : c.htable = some ht) (hholds : ht.Holds chains) :
    c.Owned ↔ ∀ a ∈ c.lines, ∃ e ∈ chains.flatten, e.block = a := by
  constructor
  · intro howned a ha
    obtain ⟨ht', idx, htable', hfind⟩ := howned a ha
    obtain rfl : ht = ht' := Option.some.inj (htable.symm.trans htable')
    rw [findValueInHashTable_eq hholds] at hfind
    obtain ⟨e, he, -, hblock⟩ := hholds.contents_eq_some.mp (Except.ok.inj hfind)
    exact ⟨e, he, hblock⟩
  · intro hlines a ha
    obtain ⟨e, he, rfl⟩ := hlines a ha
    refine ⟨ht, e.index, htable, ?_⟩
    rw [findValueInHashTable_eq hholds, hholds.contents_eq_some.mpr ⟨e, he, rfl, rfl⟩]

/-- Where there are no lines, none is lost. -/
theorem owned_of_empty (h : c.lines = ∅) : c.Owned := by
  intro a ha
  rw [h] at ha
  exact absurd ha (AList.notMem_empty a)

/-- A cache that stores nothing has no lines. -/
theorem Cache.Books.lines_eq_empty (h : c.Books ht chains) (howned : c.Owned)
    (hnil : chains.flatten = []) : c.lines = ∅ := by
  have hkeys : c.lines.keys = [] := by
    rw [List.eq_nil_iff_forall_not_mem]
    intro a ha
    obtain ⟨e, he, -⟩ := (owned_iff h.table h.holds).mp howned a ha
    rw [hnil] at he
    exact List.not_mem_nil he
  apply AList.ext
  exact List.map_eq_nil_iff.mp hkeys

/-- Neither has one without a table. -/
theorem Cache.Closed.lines_eq_empty (h : c.Closed) (howned : c.Owned) : c.lines = ∅ := by
  have hkeys : c.lines.keys = [] := by
    rw [List.eq_nil_iff_forall_not_mem]
    intro a ha
    obtain ⟨ht, -, htable, -⟩ := howned a ha
    rw [h.htable] at htable
    cases htable
  apply AList.ext
  exact List.map_eq_nil_iff.mp hkeys

/-- Taking a line out loses none. -/
theorem Cache.Books.owned_without (h : c.Books ht chains) (howned : c.Owned)
    (he : e ∈ chains.flatten) (hholds : ht'.Holds (deleteChains e.index chains))
    (freed : List BufPtr) : (c.without ht' e l freed).Owned := by
  rw [owned_iff (show (c.without ht' e l freed).htable = some ht' from rfl) hholds]
  intro a ha
  obtain ⟨hne, ha⟩ := AList.mem_erase.mp (show a ∈ c.lines.erase e.block from ha)
  obtain ⟨x, hx, rfl⟩ := (owned_iff h.table h.holds).mp howned a ha
  refine ⟨x, (mem_deleteChains h.holds).mpr ⟨hx, ?_⟩, rfl⟩
  -- an entry with the index of `e` is `e`, whose line is gone
  intro hidx
  exact hne (by rw [h.holds.index_inj hx he hidx])

/-- Using a line neither. -/
theorem Cache.Books.owned_renewed (h : c.Books ht chains) (howned : c.Owned)
    (he : e ∈ chains.flatten) (l : Cmpsc311CacheEntry) (now : Timeval) :
    (c.renewed e l now).Owned := by
  rw [owned_iff (show (c.renewed e l now).htable = some ht from h.table) h.holds]
  intro a ha
  rcases (AList.mem_insert c.lines).mp ha with rfl | ha
  · exact ⟨e, he, rfl⟩
  · exact (owned_iff h.table h.holds).mp howned a ha

/-- Storing one neither. -/
theorem Cache.Books.owned_withLine (h : c.Books ht chains) (howned : c.Owned) {entry line : Addr}
    (hholds : ht'.Holds (insertChains ⟨entry, cacheIndex l.cid, line⟩ chains)) :
    (c.withLine ht' line l).Owned := by
  rw [owned_iff (show (c.withLine ht' line l).htable = some ht' from rfl) hholds]
  intro a ha
  have hperm := insertChains_perm h.holds ⟨entry, cacheIndex l.cid, line⟩
  rcases (AList.mem_insert c.lines).mp ha with rfl | ha
  · exact ⟨_, hperm.mem_iff.mpr List.mem_cons_self, rfl⟩
  · obtain ⟨x, hx, rfl⟩ := (owned_iff h.table h.holds).mp howned a ha
    exact ⟨x, hperm.mem_iff.mpr (List.mem_cons_of_mem _ hx), rfl⟩

/-- What an ejection keeps, the loop of a `put` keeps. -/
theorem Cache.MakesRoom.preserves {P : Cache → Prop} {len : UInt32} {fuel : ℕ} {c₁ : Cache}
    (hmakes : c.MakesRoom len fuel c₁)
    (heject : ∀ ⦃p q⦄, ejectCmpsc311Cache p = .ok (0, q) → P p → P q) (hc : P c) : P c₁ := by
  have hhead := hmakes.first
  rw [List.head?_eq_some_head (List.concat_ne_nil _ _), Option.some.injEq] at hhead
  exact List.IsChain.concat_induction_head P _ hmakes.steps hhead heject hc

/-- A `put` loses none. -/
theorem Cache.PutsLine.owned {now : Timeval} {cid : CacheID} {buf : BufPtr} {len : UInt32}
    {c₁ : Cache} (hputs : c.PutsLine now cid buf len c₁ c') (h : c.Books ht chains)
    (howned : c.Owned) : c'.Owned := by
  -- the ejections that make room lose none, and the new line gets an entry
  have hloop : (∃ ht chains, c₁.Books ht chains) ∧ c₁.Owned := by
    refine @Cache.MakesRoom.preserves _ (fun p => (∃ ht chains, p.Books ht chains) ∧ p.Owned) _ _ _
      hputs.makesRoom ?_ ⟨⟨ht, chains, h⟩, howned⟩
    rintro p q heject ⟨⟨htp, chainsp, hp⟩, hownedp⟩
    rcases ejectCmpsc311Cache_books hp with
      ⟨-, hrefused⟩ | ⟨-, hover⟩ | ⟨e, he, l, ht', hl, -, hholds, hout⟩
    · rw [hrefused] at heject
      exact absurd (Prod.mk.inj (Except.ok.inj heject)).1 (by decide)
    · rw [hover] at heject
      cases heject
    · rw [hout] at heject
      obtain rfl := (Prod.mk.inj (Except.ok.inj heject)).2
      exact ⟨⟨ht', _, hp.remove he hl hholds _⟩, hp.owned_without hownedp he hholds _⟩
  obtain ⟨line, entry, ht₁, chains₁, ht', h₁, -, hholds, rfl⟩ := hputs.stored
  exact @Cache.Books.owned_withLine c₁ ht₁ ht' chains₁ ⟨cid, len, buf, now⟩ h₁ hloop.2 entry line
    hholds

/-! ### The loop -/

/-- The buffers of the stored lines. -/
def Cache.buffers (c : Cache) : List BufPtr := c.storedLines.map (·.buf)

/-- The loop of `close_cmpsc311_cache` takes out every line and frees its buffer, each once. -/
theorem closeLoop_frees (h : c.Books ht chains) (howned : c.Owned) {fuel : ℕ}
    (hfuel : chains.flatten.length < fuel) :
    ∃ c₁ ht₁ chains₁ bufs, c.closeLoop fuel = .ok (true, c₁) ∧ c₁.Books ht₁ chains₁ ∧
      chains₁.flatten = [] ∧ c₁.Owned ∧ c₁.freed = c.freed ++ bufs ∧ bufs.Perm c.buffers := by
  induction fuel generalizing c ht chains with
  | zero => exact absurd hfuel (Nat.not_lt_zero _)
  | succ fuel ih =>
    rcases closeLoop_round h with ⟨hnil, hround⟩ | ⟨e, he, l, ht', hl, hholds, hround⟩
    · -- no item is left
      have hbuffers : c.buffers = [] := by
        unfold Cache.buffers Cache.storedLines
        rw [stored_eq h.table h.holds, hnil]
        rfl
      refine ⟨c, ht, chains, [], hround fuel, h, hnil, howned, (List.append_nil _).symm, ?_⟩
      rw [hbuffers]
    · -- the first entry of the table goes, and its buffer is the first of those freed
      have hfewer := h.length_without he hl hholds
      obtain ⟨c₁, ht₁, chains₁, bufs, hloop, h₁, hnil, howned₁, hfreed, hbufs⟩ :=
        ih (h.remove he hl hholds (c.freed ++ [l.buf])) (h.owned_without howned he hholds _)
          (by omega)
      refine ⟨c₁, ht₁, chains₁, l.buf :: bufs, (hround fuel).trans hloop, h₁, hnil, howned₁, ?_, ?_⟩
      · rw [hfreed]
        exact List.append_assoc c.freed [l.buf] bufs
      · have hstored := h.stored_without he hl hholds (c.freed ++ [l.buf])
        have hbuffers := (storedLines_perm hstored rfl).map (·.buf)
        exact (hbufs.cons l.buf).trans hbuffers.symm

/-! ### Closing -/

/-- Closing `c` comes to `c'`, by way of the cache `c₁` with the table `ht₁` behind the loop; `bufs`
    are the buffers it frees. -/
structure ClosesTo (c c₁ c' : Cache) (ht₁ : HTable Addr) (bufs : List BufPtr) : Prop where
  /-- The loop ends, and does not fail. -/
  loop : c.closeLoop c.fuel = .ok (true, c₁)
  /-- No chain of the table has an entry, -/
  table : c₁.htable = some ht₁
  bins : ∀ bin ∈ ht₁.hasHTable, bin = none
  cleanup : ∃ ht₂, cleanupHashTable ht₁ = .ok ([], ht₂)
  /-- the entries and the lines are freed, -/
  heap : ht₁.heap = ∅
  lines : c₁.lines = ∅
  /-- and so is the buffer of every line, once. -/
  freed : c₁.freed = c.freed ++ bufs
  buffers : bufs.Perm c.buffers
  /-- It returns 0, and all data is as the program starts with it. -/
  close : closeCmpsc311Cache c = .ok (0, c')
  reset : c' = Cache.initial.afterFreeing (c.freed ++ bufs)

/-- **Closing.** -/
theorem closesTo (h : c.Books ht chains) (howned : c.Owned) :
    ∃ c₁ c' ht₁ bufs, ClosesTo c c₁ c' ht₁ bufs := by
  obtain ⟨c₁, ht₁, chains₁, bufs, hloop, h₁, hnil, howned₁, hfreed, hbufs⟩ :=
    closeLoop_frees h howned h.length_lt_fuel
  obtain ⟨ht₂, hcleanup⟩ := cleanupHashTable_nil h₁.holds hnil
  have hlines := h₁.lines_eq_empty howned₁ hnil
  refine ⟨c₁, Cache.initial.afterFreeing (c.freed ++ bufs), ht₁, bufs, ?_⟩
  constructor
  case loop => exact hloop
  case table => exact h₁.table
  case bins =>
    intro bin hbin
    obtain ⟨j, hj, rfl⟩ := List.getElem_of_mem hbin
    exact h₁.holds.bins_of_nil hnil j hj
  case cleanup => exact ⟨ht₂, hcleanup⟩
  case heap => exact h₁.holds.heap_of_nil hnil
  case lines => exact hlines
  case freed => exact hfreed
  case buffers => exact hbufs
  case reset => rfl
  case close =>
    -- `cleanupHashTable` frees no block, so the lines stay as the loop leaves them
    unfold closeCmpsc311Cache
    rw [h.initialized, hloop]
    simp only [Bool.not_true, Bool.false_eq_true, if_false, ok_bind]
    unfold Cache.table
    rw [h₁.table, ok_bind, hcleanup, ok_bind]
    show Except.ok _ = Except.ok _
    unfold Cache.afterFreeing Cache.initial
    simp [hlines, hfreed]

/-! ### Every state of a life -/

/-- Initialising the cache leaves its lines. -/
theorem lines_initCmpsc311Cache {maxItems maxSize : UInt32} {ret : ℤ}
    (hinit : initCmpsc311Cache c maxItems maxSize = .ok (ret, c')) : c'.lines = c.lines := by
  unfold initCmpsc311Cache at hinit
  split_ifs at hinit
  · rw [← (Prod.mk.inj (Except.ok.inj hinit)).2]
  · rw [← (Prod.mk.inj (Except.ok.inj hinit)).2]
  · rw [← (Prod.mk.inj (Except.ok.inj hinit)).2]
  · obtain ⟨ht, -, hinit⟩ := bind_eq_ok hinit
    rw [← (Prod.mk.inj (Except.ok.inj hinit)).2]

/-- The invariant of a life: the books are kept, and no line is lost. -/
theorem Cache.owned_step {op : CacheOp} (h : c.Kept ∧ c.Owned)
    (hstep : cacheLife.act c op = some c') : c'.Kept ∧ c'.Owned := by
  refine ⟨Cache.kept_step h.1 hstep, ?_⟩
  obtain ⟨⟨ht, chains, hbooks⟩ | hclosed, howned⟩ := h
  · cases op with
    | init maxItems maxSize =>
      simp only [cacheLife, initCmpsc311Cache] at hstep
      rw [hbooks.initialized] at hstep
      rwa [← Option.some.inj hstep]
    | close =>
      obtain ⟨c₁, c₂, ht₁, bufs, hclose⟩ := closesTo hbooks howned
      simp only [cacheLife] at hstep
      rw [hclose.close] at hstep
      obtain rfl := Option.some.inj hstep
      rw [hclose.reset]
      exact owned_of_empty rfl
    | call call =>
      rcases after_cases hbooks hstep with
        rfl | ⟨now, cid, -, e, he, l, -, -, rfl⟩ |
          ⟨cid, -, e, he, l, ht', -, -, hholds, rfl⟩ | ⟨-, -, now, cid, buf, len, c₁, -, hputs⟩
      · exact howned
      · exact hbooks.owned_renewed howned he l now
      · exact hbooks.owned_without howned he hholds _
      · exact hputs.owned hbooks howned
  · -- without a table there is no line, and only `init` does anything
    have hlines := hclosed.lines_eq_empty howned
    cases op with
    | init maxItems maxSize =>
      simp only [cacheLife] at hstep
      obtain ⟨⟨ret, c₁⟩, hinit, rfl⟩ := Option.map_eq_some_iff.mp hstep
      cases hout : initCmpsc311Cache c maxItems maxSize with
      | error fault =>
        rw [hout] at hinit
        cases hinit
      | ok out =>
        rw [hout] at hinit
        obtain rfl := Option.some.inj hinit
        exact owned_of_empty ((lines_initCmpsc311Cache hout).trans hlines)
    | close =>
      simp only [cacheLife, closeCmpsc311Cache] at hstep
      rw [hclosed.initialized] at hstep
      rwa [← Option.some.inj hstep]
    | call call =>
      rwa [after_closed hclosed hstep]

/-- An initialised cache of a life keeps its books and has lost no line. -/
theorem Cache.owned_of_run {ops : List CacheOp} (hrun : cacheLife.run ops .initial = some c) :
    c.Owned := by
  have hstart : Cache.initial.Kept ∧ Cache.initial.Owned :=
    ⟨.inr ⟨rfl, rfl, rfl, rfl, rfl, rfl⟩, owned_of_empty rfl⟩
  exact (ActionSystem.Invariant.run (fun _ _ _ h hstep => Cache.owned_step h hstep) hstart hrun).2

/-- Without a table, `init_cmpsc311_cache` succeeds with all limits that are not zero. -/
theorem Cache.Closed.init_succeeds (h : c.Closed) {maxItems maxSize : UInt32}
    (hitems : maxItems ≠ 0) (hsize : maxSize ≠ 0) :
    ∃ c', initCmpsc311Cache c maxItems maxSize = .ok (0, c') := by
  rcases initCmpsc311Cache_books h.initialized maxItems maxSize with ⟨hzero, -⟩ | ⟨c', hinit, -⟩
  · exact absurd hzero (not_or.mpr ⟨hitems, hsize⟩)
  · exact ⟨c', hinit⟩

/-- **Closing resets.**  In every state of an initialised cache that calls reach from the start of
    the program, `close_cmpsc311_cache` frees every line and its buffer once, returns 0, and leaves
    the data as the program starts with it: the cache can be initialised again, and all calls return
    what they return at the start of the program, in runs of the cache's life as before. -/
theorem close_resets {ops : List CacheOp} (hrun : cacheLife.run ops .initial = some c)
    (hinit : c.initialized = true) :
    ∃ c₁ c' ht₁ bufs, ClosesTo c c₁ c' ht₁ bufs ∧
      (∀ maxItems maxSize, maxItems ≠ 0 → maxSize ≠ 0 →
        ∃ c₂, initCmpsc311Cache c' maxItems maxSize = .ok (0, c₂)) ∧
      ∀ ops', cacheLife.run ops' c' = (c'.trace ops').map Prod.snd ∧
        c'.trace ops'
          = (Cache.initial.trace ops').map (returnAfterFreeing (c.freed ++ bufs)) := by
  obtain ⟨ht, chains, hbooks⟩ := Cache.books_of_run hrun hinit
  obtain ⟨c₁, c', ht₁, bufs, hcloses⟩ := closesTo hbooks (Cache.owned_of_run hrun)
  refine ⟨c₁, c', ht₁, bufs, hcloses, ?_, ?_⟩
  · intro maxItems maxSize hitems hsize
    have hclosed : c'.Closed := by
      rw [hcloses.reset]
      exact ⟨rfl, rfl, rfl, rfl, rfl, rfl⟩
    exact hclosed.init_succeeds hitems hsize
  · intro ops'
    refine ⟨run_eq_trace ops' c', ?_⟩
    rw [hcloses.reset]
    exact trace_afterFreeing ops' Cache.initial

/-- Closing a cache with two of three items, one of which has been ejected. -/
theorem close_resets_two_items : ∃ c c₁ c' ht₁ bufs,
    cacheLife.run (cacheLifeCalls.take 4) .initial = some c ∧ ClosesTo c c₁ c' ht₁ bufs ∧
      bufs.Perm [some 7, some 9] := by
  have hsome : ((cacheLife.run (cacheLifeCalls.take 4) .initial).any fun c =>
      decide (c.initialized = true ∧ c.buffers = [some 7, some 9])) = true := by
    decide +kernel
  obtain ⟨c, hrun, hc⟩ := (Option.any_eq_true _ _).mp hsome
  obtain ⟨hinit, hbuffers⟩ := of_decide_eq_true hc
  obtain ⟨c₁, c', ht₁, bufs, hcloses, -⟩ := close_resets hrun hinit
  exact ⟨c, c₁, c', ht₁, bufs, hrun, hcloses, hbuffers ▸ hcloses.buffers⟩

end NetworkExperiment
