import NetworkExperiment.Lib.Draining
import NetworkExperiment.Cache.Bookkeeping
import NetworkExperiment.Hashtable.Iteration

namespace NetworkExperiment

open ActionSystems Draining

/-!
# A put of an identifier that is in the cache

Nothing in `put_cmpsc311_cache` looks for the identifier, and `insertValueInHashTable` asserts that
it is not there:

* `EjectedBefore` — the order in which lines are ejected;
* `Cache.MustEject` — there is too little room at every stage of the ejections up to a line;
* `mem_evicted_iff` — these are the lines that the loop of `put` ejects;
* `put_safe_iff` — a `put` returns if and only if its checks refuse it, or its identifier is not in
  the cache, or the line of its identifier must be ejected.
-/

/-! ### The order of ejection -/

/-- `l` is ejected before `l'`: it was used later, or at the same time, and comes first in the
    iteration over a table of `size` chains. -/
def EjectedBefore (size : ℕ) (l l' : Cmpsc311CacheEntry) : Prop :=
  l'.lastUsed.micros < l.lastUsed.micros ∨
    l.lastUsed.micros = l'.lastUsed.micros ∧ iterBefore size (cacheIndex l.cid) (cacheIndex l'.cid)

instance (size : ℕ) : DecidableRel (iterBefore size) :=
  fun _ _ => inferInstanceAs (Decidable (_ ∨ _))

instance (size : ℕ) : DecidableRel (EjectedBefore size) :=
  fun _ _ => inferInstanceAs (Decidable (_ ∨ _))

theorem EjectedBefore.asymm {size : ℕ} (l l' : Cmpsc311CacheEntry) (h : EjectedBefore size l l') :
    ¬ EjectedBefore size l' l := by
  rintro (hlt | ⟨heq, hbefore⟩)
  · rcases h with hlt' | ⟨heq', -⟩ <;> omega
  · rcases h with hlt' | ⟨-, hbefore'⟩
    · omega
    · exact iterBefore_asymm hbefore hbefore'

/-- The number of chains of the table of the cache. -/
def Cache.tableSize (c : Cache) : ℕ :=
  match c.htable with
  | some ht => ht.htTableSize.toNat
  | none => 0

/-- With these lines there would be too little room for an item of `len` bytes. -/
def Cache.TooFull (c : Cache) (len : UInt32) (ls : List Cmpsc311CacheEntry) : Prop :=
  c.maxItems.toNat ≤ ls.length ∨
    c.maxSize.toNat < ((ls.map (·.size.toNat)).sum + len.toNat) % 2 ^ 32

instance (c : Cache) (len : UInt32) : DecidablePred (c.TooFull len) :=
  fun _ => inferInstanceAs (Decidable (_ ∨ _))

/-- There is too little room at every stage of the ejections up to the line `l`. -/
def Cache.MustEject (c : Cache) (len : UInt32) (l : Cmpsc311CacheEntry) : Prop :=
  Drained (EjectedBefore c.tableSize) (c.TooFull len) c.storedLines l

instance (c : Cache) (len : UInt32) (l : Cmpsc311CacheEntry) : Decidable (c.MustEject len l) :=
  inferInstanceAs (Decidable (Drained _ _ _ _))

variable {c c' : Cache} {ht ht' : HTable Addr} {chains : List (List (Stored Addr))}
  {e x : Stored Addr} {l lx : Cmpsc311CacheEntry} {cid : CacheID} {len : UInt32} {buf : BufPtr}

/-- The order of the lines does not matter, since the test adds up and counts them. -/
theorem tooFull_perm {ls ls' : List Cmpsc311CacheEntry} (h : ls.Perm ls') :
    c.TooFull len ls ↔ c.TooFull len ls' := by
  unfold Cache.TooFull
  rw [h.length_eq, (h.map _).sum_eq]

/-- What the lines of a cache whose books agree leave is what the room test says. -/
theorem Cache.Books.tooFull_iff (h : c.Books ht chains) :
    c.TooFull len c.storedLines ↔ c.NoRoom len := by
  have hlength : c.storedLines.length = c.currentItems.toNat := by
    have hlen := congrArg List.length h.map_some_storedLines
    rw [List.length_map, List.length_map, h.length_stored] at hlen
    rw [hlen, h.items]
  have hbytes : (c.storedLines.map (·.size.toNat)).sum = c.storedBytes := by
    have hmap := congrArg
      (List.map fun o : Option Cmpsc311CacheEntry => (o.map (·.size.toNat)).getD 0)
      h.map_some_storedLines
    rw [List.map_map, List.map_map] at hmap
    exact congrArg List.sum hmap
  unfold Cache.TooFull Cache.NoRoom
  rw [ge_iff_le, gt_iff_lt, UInt32.le_iff_toNat_le, UInt32.lt_iff_toNat_lt, UInt32.toNat_add,
    h.bytes, hlength, hbytes, Nat.mod_add_mod]

/-! ### The choice of a line -/

/-- With times in range, the lines carry proper times. -/
theorem Cache.Books.toHolds (h : c.Books ht chains) (htimes : c.TimesInRange) :
    c.Holds (fun cid => (c.entry cid).map (·.lastUsed)) ht chains := by
  refine ⟨h.initialized, h.table, h.holds, ?_⟩
  intro e he
  obtain ⟨l, hl⟩ := h.lines e he
  have hentry := h.entry_of_isEntry he hl
  refine ⟨l, hl.lookup, hl.index, ?_, (htimes _ _ hentry).1, hl.buf⟩
  rw [hentry]
  rfl

/-- `e` is the first of the entries that were used last. -/
structure Cache.FirstUsedLast (c : Cache) (es : List (Stored Addr)) (e : Stored Addr) : Prop where
  mem : e ∈ es
  last : ∀ x ∈ es, c.usedMicros x ≤ c.usedMicros e
  first : ∀ x ∈ es, c.usedMicros e ≤ c.usedMicros x → es.idxOf e ≤ es.idxOf x

/-- An ejection reports the identifier of this entry: of those used last, the first one that the
    iterator returns. -/
theorem victim_firstUsedLast {lastUse : CacheID → Option Timeval} (h : c.Holds lastUse ht chains)
    (hvictim : c.victim = some cid) :
    ∃ e, c.FirstUsedLast chains.flatten e ∧ e.index = cacheIndex cid := by
  unfold Cache.victim at hvictim
  rw [h.table] at hvictim
  dsimp only at hvictim
  split at hvictim
  case h_1 entry hloop =>
    have hchosen := @ejectLoop_eq c lastUse ht chains h ht.fuel _ _ none _ before_init
      (fun e he => he) (by simp) hloop
    obtain ⟨e, hfold, rfl⟩ := Option.map_eq_some_iff.mp hchosen.symm
    -- the fold of the loop is the one that `argmax` is defined by
    have hmax : chains.flatten.argmax c.usedMicros = some e := hfold
    obtain ⟨hmem, hlast, hfirst⟩ := List.mem_argmax_iff.mp hmax
    obtain ⟨l, hl⟩ := h.lines e hmem
    rw [hl.lookup] at hvictim
    refine ⟨e, ⟨hmem, hlast, hfirst⟩, ?_⟩
    rw [← hl.index, ← Option.some.inj hvictim]
  case h_2 => cases hvictim

/-- Its line comes before all others in the order in which lines are ejected. -/
theorem Cache.FirstUsedLast.ejectedBefore {lastUse : CacheID → Option Timeval}
    (he : c.FirstUsedLast chains.flatten e) (h : c.Holds lastUse ht chains)
    (hl : IsLine c lastUse e l) (hx : x ∈ chains.flatten) (hlx : IsLine c lastUse x lx)
    (hne : x ≠ e) : EjectedBefore c.tableSize l lx := by
  have hle := he.last x hx
  rw [hlx.usedMicros, hl.usedMicros] at hle
  rcases lt_or_eq_of_le hle with hlt | heq
  · exact .inl hlt
  · -- both were used at the same time
    refine .inr ⟨heq.symm, ?_⟩
    have hidx := he.first x hx (by rw [hlx.usedMicros, hl.usedMicros, heq])
    have hlt : chains.flatten.idxOf e < chains.flatten.idxOf x :=
      lt_of_le_of_ne hidx fun hsame => hne ((List.idxOf_inj he.mem).mp hsame).symm
    have hordered := h.holds.listing.ordered
    rw [List.pairwise_map, List.pairwise_iff_getElem] at hordered
    have hbefore := hordered _ _ (List.idxOf_lt_length_of_mem he.mem)
      (List.idxOf_lt_length_of_mem hx) hlt
    rw [List.getElem_idxOf, List.getElem_idxOf] at hbefore
    unfold Cache.tableSize
    rw [h.table, hl.index, hlx.index]
    exact hbefore

/-- The line that is ejected is the first one. -/
theorem victim_first (h : c.Books ht chains) (htimes : c.TimesInRange) (he : e ∈ chains.flatten)
    (hl : IsEntry c e l) (hvictim : c.victim = some l.cid) (hx : x ∈ chains.flatten)
    (hlx : IsEntry c x lx) (hne : x ≠ e) : EjectedBefore c.tableSize l lx := by
  have hholds := h.toHolds htimes
  have hline : ∀ {y ly}, y ∈ chains.flatten → IsEntry c y ly →
      IsLine c (fun cid => (c.entry cid).map (·.lastUsed)) y ly := by
    intro y ly hy hly
    obtain ⟨ly', hly'⟩ := hholds.lines y hy
    obtain rfl := Option.some.inj (hly.lookup.symm.trans hly'.lookup)
    exact hly'
  obtain ⟨e', hlast, hidx⟩ := victim_firstUsedLast hholds hvictim
  obtain rfl := h.holds.index_inj hlast.mem he (hidx.trans hl.index)
  exact hlast.ejectedBefore hholds (hline he hl) hx (hline hx hlx) hne

/-- An ejection leaves the chains of the table as many as they are, so the order of the other lines
    stays. -/
theorem tableSize_without (h : c.Books ht chains) (hholds : ht'.Holds (deleteChains e.index chains))
    (freed : List BufPtr) : (c.without ht' e l freed).tableSize = c.tableSize := by
  have hsize : c.tableSize = ht.htTableSize.toNat := by
    unfold Cache.tableSize
    rw [h.table]
  rw [hsize, ← h.holds.length_chains]
  show ht'.htTableSize.toNat = chains.length
  rw [← hholds.length_chains]
  exact List.length_modify ..

/-- A line of the cache is that of its identifier: there is one line for each. -/
theorem Cache.Books.mem_storedLines_of_entry (h : c.Books ht chains)
    (hl : c.entry cid = some l) : l ∈ c.storedLines ∧ l.cid = cid := by
  rw [entry_eq h.table h.holds] at hl
  obtain ⟨a, hstored, hlookup⟩ := Option.bind_eq_some_iff.mp hl
  obtain ⟨x, hx, hidx, rfl⟩ := h.holds.contents_eq_some.mp hstored
  obtain ⟨lx, hlx⟩ := h.lines x hx
  obtain rfl := Option.some.inj (hlookup.symm.trans hlx.lookup)
  exact ⟨h.mem_storedLines.mpr ⟨x, hx, hlx⟩, cacheIndex_injective (hlx.index.trans hidx)⟩

/-! ### The ejections of a put -/

/-- **The ejections of a put.**  The loop ejects the lines for which there is too little room at
    every stage up to them. -/
theorem mem_evicted_iff (h : c.Books ht chains) (htimes : c.TimesInRange)
    (hl : c.entry cid = some l) {fuel : ℕ} (hfuel : chains.flatten.length < fuel) :
    cid ∈ c.evicted len fuel ↔ c.MustEject len l := by
  induction fuel generalizing c ht chains with
  | zero => exact absurd hfuel (Nat.not_lt_zero _)
  | succ fuel ih =>
    have hnonempty : chains.flatten ≠ [] := by
      intro hnil
      obtain ⟨x, hx, -⟩ := h.mem_storedLines.mp (h.mem_storedLines_of_entry hl).1
      rw [hnil] at hx
      exact List.not_mem_nil hx
    rcases ejectCmpsc311Cache_books h with
      ⟨hnil, -⟩ | ⟨hover, -⟩ | ⟨e, he, lm, ht', hlm, hvictim, hholds, heject⟩
    · exact absurd hnil hnonempty
    · exact absurd hover htimes.not_timesOverflow
    obtain ⟨hmem, hcid⟩ := h.mem_storedLines_of_entry hl
    have hmem_m : lm ∈ c.storedLines := h.mem_storedLines.mpr ⟨e, he, hlm⟩
    have hfirst : ∀ y ∈ c.storedLines, y = lm ∨ EjectedBefore c.tableSize lm y := by
      intro y hy
      obtain ⟨x, hx, hlx⟩ := h.mem_storedLines.mp hy
      by_cases hxe : x = e
      · subst hxe
        exact .inl (Option.some.inj (hlx.lookup.symm.trans hlm.lookup))
      · exact .inr (victim_first h htimes he hlm hvictim hx hlx hxe)
    by_cases hroom : c.NoRoom len
    · -- one line less, and the loop goes on
      rw [(evicted_of_noRoom hroom heject).2 hvictim, List.mem_cons]
      have h' := h.remove he hlm hholds (c.freed ++ [lm.buf])
      have hentry := h.entry_without he hlm hholds (c.freed ++ [lm.buf])
      have hperm := storedLines_perm (h.stored_without he hlm hholds (c.freed ++ [lm.buf])) rfl
      have hrest : ∀ y ∈ (c.without ht' e lm (c.freed ++ [lm.buf])).storedLines,
          EjectedBefore c.tableSize lm y := by
        intro y hy
        rcases hfirst y (hperm.mem_iff.mpr (List.mem_cons_of_mem _ hy)) with rfl | hbefore
        · obtain ⟨x, hx, hlx⟩ := h'.mem_storedLines.mp hy
          have hsome := h'.entry_of_isEntry hx hlx
          rw [hentry, Function.update_self] at hsome
          cases hsome
        · exact hbefore
      have hiff := drained_iff_of_first (fun _ _ => tooFull_perm) EjectedBefore.asymm hperm hrest
        (h.tooFull_iff.mpr hroom) hmem
      unfold Cache.MustEject
      rw [hiff]
      by_cases hlast : cid = lm.cid
      · have hsame : l = lm := by
          rw [hlast, h.entry_of_isEntry he hlm] at hl
          exact (Option.some.inj hl).symm
        exact iff_of_true (.inl hlast) (.inl hsame)
      · have hne : l ≠ lm := by
          rintro rfl
          exact hlast hcid.symm
        have hfewer := h.length_without he hlm hholds
        have hl' : (c.without ht' e lm (c.freed ++ [lm.buf])).entry cid = some l := by
          rw [hentry, Function.update_of_ne hlast, hl]
        have hih := ih h' (h.timesInRange_without htimes he hlm hholds _) hl' (by omega)
        unfold Cache.MustEject at hih
        rw [tableSize_without h hholds] at hih
        simp only [hlast, hne, false_or]
        exact hih
    · rw [(evicted_of_room hroom).2]
      constructor
      · intro hin
        exact absurd hin List.not_mem_nil
      · intro hmust
        refine absurd hmust (not_drained EjectedBefore.asymm hmem_m hfirst ?_ hmem)
        rwa [h.tooFull_iff]

/-! ### Every state of a life -/

/-- A `put` returns 0 or -1, and a `get` that follows a 0 returns the buffer. -/
def Cache.PutsSafely (c : Cache) (line entry : Addr) (now : Timeval) (cid : CacheID) (buf : BufPtr)
    (len : UInt32) : Prop :=
  ∃ ret c', putCmpsc311Cache c line entry now cid buf len = .ok (ret, c') ∧ (ret = 0 ∨ ret = -1) ∧
    (ret = 0 → ∀ later, ∃ c₂, getCmpsc311Cache c' later cid = .ok (buf, c₂))

/-- What has been put is what a `get` returns. -/
theorem Cache.PutsLine.get {now : Timeval} {c₁ : Cache} (hputs : c.PutsLine now cid buf len c₁ c')
    (later : Timeval) : ∃ c₂, getCmpsc311Cache c' later cid = .ok (buf, c₂) := by
  obtain ⟨ht', chains', h'⟩ := hputs.books
  have hentry : c'.entry cid = some ⟨cid, len, buf, now⟩ := by
    rw [hputs.entry, Function.update_self]
  rcases getCmpsc311Cache_books h' later cid with ⟨hnone, -⟩ | ⟨e, he, l, hl, hcid, hget⟩
  · rw [hentry] at hnone
    cases hnone
  · have hsame := h'.entry_of_isEntry he hl
    rw [hcid, hentry] at hsame
    obtain rfl := Option.some.inj hsame
    exact ⟨_, hget⟩

/-- A `put` that the checks refuse returns -1, so there is no buffer that a `get` has to return. -/
theorem putsSafely_of_refused {line entry : Addr} {now : Timeval} (h : ¬ c.Accepts buf len) :
    c.PutsSafely line entry now cid buf len := by
  refine ⟨-1, c, putCmpsc311Cache_refused h, .inr rfl, ?_⟩
  intro hret
  exact absurd hret (by decide)

/-- **Put of any identifier.**  In every state that calls reach from the start of the program, under
    readings of the clock in range, a `put` returns 0 or -1, and a `get` after a 0 the buffer, if
    and only if its checks refuse it, or its identifier has no line or one that must be ejected. -/
theorem put_safe_iff {ops : List CacheOp} (hrun : cacheLife.run ops .initial = some c)
    (hin : ∀ op ∈ ops, op.ReadingInRange) (buf : BufPtr) (len : UInt32) {line entry : Addr}
    (hmalloc : c.MallocReturns len line entry) (now : Timeval) (cid : CacheID) :
    c.PutsSafely line entry now cid buf len ↔
      (c.Accepts buf len → ∀ l, c.entry cid = some l → c.MustEject len l) := by
  by_cases haccepts : c.Accepts buf len
  · obtain ⟨ht, chains, h⟩ := Cache.books_of_run hrun haccepts.1
    have htimes := timesInRange_of_run hin hrun
    have hiff : ∀ l, c.entry cid = some l →
        (cid ∈ c.evicted len c.fuel ↔ c.MustEject len l) :=
      fun l hl => mem_evicted_iff h htimes hl h.length_lt_fuel
    rcases putCmpsc311Cache_books h haccepts hmalloc now cid with
      ⟨hover, -⟩ | ⟨c₁, ht₁, chains₁, hmakes, h₁, hline, ⟨hpresent, hput⟩ |
        ⟨habsent, ht', hholds, hput⟩⟩
    · exact absurd hover htimes.not_timesOverflow
    · -- the line has not been ejected
      rw [hmakes.entry] at hpresent
      dsimp only at hpresent
      split_ifs at hpresent with hevicted
      · exact absurd rfl hpresent
      · obtain ⟨l, hl⟩ := Option.ne_none_iff_exists'.mp hpresent
        constructor
        · rintro ⟨ret, c', hreturns, -⟩
          rw [hput] at hreturns
          cases hreturns
        · intro hmust
          exact absurd ((hiff l hl).mpr (hmust haccepts l hl)) hevicted
    · have hputs : c.PutsLine now cid buf len c₁ (c₁.withLine ht' line ⟨cid, len, buf, now⟩) :=
        ⟨haccepts, hmakes, habsent, line, entry, ht₁, chains₁, ht', h₁, hline, hholds, rfl⟩
      refine iff_of_true ⟨0, _, hput, .inl rfl, fun _ later => hputs.get later⟩ ?_
      intro _ l hl
      rw [← hiff l hl]
      rw [hmakes.entry] at habsent
      dsimp only at habsent
      split_ifs at habsent with hevicted
      · exact hevicted
      · rw [hl] at habsent
        cases habsent
  · exact iff_of_true (putsSafely_of_refused haccepts) fun hacc => absurd hacc haccepts

/-- In a cache for one item, the item can be put again: it is ejected first. -/
theorem put_safe_iff_one_item : ∃ c,
    cacheLife.run [.init 1 100, .call (.put 1 2 ⟨1, 0⟩ 1 (some 7) 10)] .initial = some c ∧
      (c.entry 1).isSome ∧ c.PutsSafely 3 4 ⟨2, 0⟩ 1 (some 8) 10 := by
  have hsome : ((cacheLife.run [.init 1 100, .call (.put 1 2 ⟨1, 0⟩ 1 (some 7) 10)]
      .initial).any fun c => decide (c.entry 1 = some ⟨1, 10, some 7, ⟨1, 0⟩⟩ ∧
        c.MallocReturns 10 3 4 ∧ c.MustEject 10 ⟨1, 10, some 7, ⟨1, 0⟩⟩)) = true := by
    decide +kernel
  obtain ⟨c, hrun, hc⟩ := (Option.any_eq_true _ _).mp hsome
  obtain ⟨hentry, hmalloc, hmust⟩ := of_decide_eq_true hc
  refine ⟨c, hrun, by rw [hentry]; rfl, (put_safe_iff hrun ?_ _ _ hmalloc _ _).mpr ?_⟩
  · intro op hop
    simp only [List.mem_cons, List.not_mem_nil, or_false] at hop
    rcases hop with rfl | rfl
    · trivial
    · exact (show Timeval.InRange ⟨1, 0⟩ by decide)
  · intro _ l hl
    rw [hentry] at hl
    obtain rfl := Option.some.inj hl
    exact hmust

/-- The fault by which a computation ends. -/
def fault {α : Type} : Except Fault α → Option Fault
  | .ok _ => none
  | .error fault => some fault

theorem eq_error_of_fault {α : Type} {x : Except Fault α} {f : Fault} (h : fault x = some f) :
    x = .error f := by
  cases x with
  | ok a => cases h
  | error f' => rw [Option.some.inj h]

/-- In a cache for two items, the first item cannot be put again: the table asserts that its
    identifier is not there. -/
theorem put_again_fails : ∃ c,
    cacheLife.run [.init 2 100, .call (.put 1 2 ⟨1, 0⟩ 1 (some 7) 10)] .initial = some c ∧
      c.Accepts (some 8) 10 ∧ c.MallocReturns 10 3 4 ∧
      putCmpsc311Cache c 3 4 ⟨2, 0⟩ 1 (some 8) 10 = .error .duplicateIndex ∧
      ¬ c.PutsSafely 3 4 ⟨2, 0⟩ 1 (some 8) 10 := by
  have hsome : ((cacheLife.run [.init 2 100, .call (.put 1 2 ⟨1, 0⟩ 1 (some 7) 10)]
      .initial).any fun c => decide (c.Accepts (some 8) 10 ∧ c.MallocReturns 10 3 4 ∧
        fault (putCmpsc311Cache c 3 4 ⟨2, 0⟩ 1 (some 8) 10) = some .duplicateIndex)) = true := by
    decide +kernel
  obtain ⟨c, hrun, hc⟩ := (Option.any_eq_true _ _).mp hsome
  obtain ⟨haccepts, hmalloc, hfault⟩ := of_decide_eq_true hc
  have hput := eq_error_of_fault hfault
  refine ⟨c, hrun, haccepts, hmalloc, hput, ?_⟩
  rintro ⟨ret, c', hreturns, -⟩
  rw [hput] at hreturns
  cases hreturns

end NetworkExperiment
