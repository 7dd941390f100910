import Mathlib.Data.List.Chain
import NetworkExperiment.Cache.Books
import NetworkExperiment.Hashtable.Refinement

namespace NetworkExperiment

/-!
# The calls of the cache and its books

What each call does to a cache whose books agree:

* `Cache.evicted` — the identifiers that the loop of `put` ejects;
* `MakesRoom` / `putLoop_books` — the loop ends with room for the new item, since it never meets an
  empty table;
* `putCmpsc311Cache_books`, `getCmpsc311Cache_books`, `deleteCmpsc311Cache_books`,
  `initCmpsc311Cache_books`, `closeCmpsc311Cache_books` — one lemma for each call.
-/

variable {c c' : Cache} {ht ht' : HTable Addr} {chains chains' : List (List (Stored Addr))}
  {e : Stored Addr} {l : Cmpsc311CacheEntry} {cid : CacheID} {len : UInt32} {buf : BufPtr}

/-! ### Making room -/

/-- The identifiers that the loop of `put_cmpsc311_cache` ejects, in order. -/
def Cache.evicted (len : UInt32) (fuel : ℕ) (c : Cache) : List CacheID :=
  (c.ejectPoints len fuel).filterMap Cache.victim

/-- An item that fits the cache fits it where the table is empty, so where there is no room the
    table is not empty. -/
theorem Cache.Books.nonempty (h : c.Books ht chains) (hlen : len ≤ c.maxSize)
    (hroom : c.NoRoom len) : chains.flatten ≠ [] := by
  intro hnil
  have hstored : c.stored = [] := by rw [stored_eq h.table h.holds, hnil, List.map_nil]
  have hitems : c.currentItems.toNat = 0 := by rw [h.items, hnil, List.length_nil]
  have hbytes : c.currentSize.toNat = 0 := by
    rw [h.bytes]
    unfold Cache.storedBytes
    rw [hstored]
    rfl
  have hpos := UInt32.lt_iff_toNat_lt.mp h.positive
  have hle := UInt32.le_iff_toNat_le.mp hlen
  have hlt := len.toNat_lt
  -- no line counts against one of the limits, which are positive
  rcases hroom with hfull | hlarge
  · have hfull := UInt32.le_iff_toNat_le.mp hfull
    omega
  · have hlarge := UInt32.lt_iff_toNat_lt.mp hlarge
    rw [UInt32.toNat_add] at hlarge
    omega

/-- The loop of `put` goes from `c` to `c₁`, in which there is room. -/
structure Cache.MakesRoom (c : Cache) (len : UInt32) (fuel : ℕ) (c₁ : Cache) : Prop where
  loop : c.putLoop len fuel = .ok (true, c₁)
  room : ¬ c₁.NoRoom len
  /-- It begins with `c`, and each ejection leads from one cache to the next. -/
  first : (c.ejectPoints len fuel ++ [c₁]).head? = some c
  steps : (c.ejectPoints len fuel ++ [c₁]).IsChain fun p q => ejectCmpsc311Cache p = .ok (0, q)
  /-- The limits stay, -/
  maxItems : c₁.maxItems = c.maxItems
  maxSize : c₁.maxSize = c.maxSize
  /-- and so do the lines that are not ejected. -/
  entry : c₁.entry = fun cid => if cid ∈ c.evicted len fuel then none else c.entry cid
  bytes : c₁.storedBytes ≤ c.storedBytes

/-- The loop with too little room: it ejects one line, and goes on. -/
theorem evicted_of_noRoom {fuel : ℕ} (hroom : c.NoRoom len)
    (heject : ejectCmpsc311Cache c = .ok (0, c')) :
    c.ejectPoints len (fuel + 1) = c :: c'.ejectPoints len fuel ∧
      (c.victim = some cid → c.evicted len (fuel + 1) = cid :: c'.evicted len fuel) := by
  have hpoints : c.ejectPoints len (fuel + 1) = c :: c'.ejectPoints len fuel := by
    rw [Cache.ejectPoints, if_pos hroom, heject]
    rfl
  refine ⟨hpoints, fun hvictim => ?_⟩
  unfold Cache.evicted
  rw [hpoints, List.filterMap_cons_some hvictim]

/-- The loop with enough room: it ejects nothing. -/
theorem evicted_of_room {fuel : ℕ} (hroom : ¬ c.NoRoom len) :
    c.ejectPoints len fuel = [] ∧ c.evicted len fuel = [] := by
  have hpoints : c.ejectPoints len fuel = [] := by
    cases fuel with
    | zero => rfl
    | succ fuel => rw [Cache.ejectPoints, if_neg hroom]
  refine ⟨hpoints, ?_⟩
  unfold Cache.evicted
  rw [hpoints]
  rfl

/-- What is there without a line has been there with it, as only the identifier of this line has
    lost its entry. -/
theorem Cache.Books.entry_of_without (h : c.Books ht chains) (he : e ∈ chains.flatten)
    (hl : IsEntry c e l) (hholds : ht'.Holds (deleteChains e.index chains)) (freed : List BufPtr)
    {cid : CacheID} {l' : Cmpsc311CacheEntry}
    (hl' : (c.without ht' e l freed).entry cid = some l') : c.entry cid = some l' := by
  rw [h.entry_without he hl hholds] at hl'
  by_cases hcid : cid = l.cid
  · rw [hcid, Function.update_self] at hl'
    cases hl'
  · rwa [Function.update_of_ne hcid] at hl'

/-- Without a line there is one entry less: what makes the loops of `put` and `close` end. -/
theorem Cache.Books.length_without (h : c.Books ht chains) (he : e ∈ chains.flatten)
    (hl : IsEntry c e l) (hholds : ht'.Holds (deleteChains e.index chains)) :
    (deleteChains e.index chains).flatten.length < chains.flatten.length := by
  have hlength := (h.stored_without he hl hholds c.freed).length_eq
  rw [List.length_cons, h.length_stored, (h.remove he hl hholds c.freed).length_stored] at hlength
  omega

/-- Lines that are there after an ejection have been there before it, so times that are too far
    apart then were so before. -/
theorem TimesOverflow.mono (hsub : ∀ cid l, c'.entry cid = some l → c.entry cid = some l)
    (h : c'.TimesOverflow) : c.TimesOverflow := by
  obtain ⟨cid, cid', l, l', hl, hl', hover⟩ := h
  exact ⟨cid, cid', l, l', hsub _ _ hl, hsub _ _ hl', hover⟩

/-- **Making room.**  The loop ends with room for the item, unless the times of two lines are too
    far apart.  The induction is on the fuel, of which there is more than there are entries. -/
theorem putLoop_books (h : c.Books ht chains) (hlen : len ≤ c.maxSize) {fuel : ℕ}
    (hfuel : chains.flatten.length < fuel) :
    (c.TimesOverflow ∧ c.putLoop len fuel = .error .signedOverflow) ∨
      ∃ c₁ ht₁ chains₁, c.MakesRoom len fuel c₁ ∧ c₁.Books ht₁ chains₁ := by
  induction fuel generalizing c ht chains with
  | zero => exact absurd hfuel (Nat.not_lt_zero _)
  | succ fuel ih =>
    by_cases hroom : c.NoRoom len
    · rcases ejectCmpsc311Cache_books h with
        ⟨hnil, -⟩ | ⟨hover, heject⟩ | ⟨e, he, l, ht', hl, hvictim, hholds, heject⟩
      · -- the table is not empty
        exact absurd hnil (h.nonempty hlen hroom)
      · -- the comparison of two times overflows, and the loop stops there
        left
        refine ⟨hover, ?_⟩
        unfold Cache.putLoop
        rw [if_pos hroom, heject]
        rfl
      · -- one line less, and the loop goes on
        have h' := h.remove he hl hholds (c.freed ++ [l.buf])
        have hstored := h.stored_without he hl hholds (c.freed ++ [l.buf])
        have hentry := h.entry_without he hl hholds (c.freed ++ [l.buf])
        have hsub := @Cache.Books.entry_of_without _ _ _ _ _ _ h he hl hholds (c.freed ++ [l.buf])
        have hfewer := h.length_without he hl hholds
        have hmaxItems : (c.without ht' e l (c.freed ++ [l.buf])).maxItems = c.maxItems := rfl
        have hmaxSize : (c.without ht' e l (c.freed ++ [l.buf])).maxSize = c.maxSize := rfl
        generalize c.without ht' e l (c.freed ++ [l.buf]) = c' at *
        have hloop : c.putLoop len (fuel + 1) = c'.putLoop len fuel := by
          rw [Cache.putLoop, if_pos hroom, heject]
          rfl
        obtain ⟨hpoints, hevicted⟩ := @evicted_of_noRoom _ _ l.cid _ fuel hroom heject
        rcases ih h' (by rwa [hmaxSize]) (by omega) with
          ⟨hover, hrest⟩ | ⟨c₁, ht₁, chains₁, hmakes, h₁⟩
        · exact .inl ⟨TimesOverflow.mono (fun _ _ => hsub) hover, hloop.trans hrest⟩
        · right
          refine ⟨c₁, ht₁, chains₁, ?_, h₁⟩
          constructor
          case loop => exact hloop.trans hmakes.loop
          case room => exact hmakes.room
          case first => rw [hpoints]; rfl
          case steps =>
            rw [hpoints, List.cons_append, List.isChain_cons]
            refine ⟨?_, hmakes.steps⟩
            intro q hq
            rw [Option.mem_def, hmakes.first, Option.some.injEq] at hq
            rw [← hq]
            exact heject
          case maxItems => rw [hmakes.maxItems, hmaxItems]
          case maxSize => rw [hmakes.maxSize, hmaxSize]
          case entry =>
            funext cid
            rw [hmakes.entry, hevicted hvictim, hentry]
            by_cases hcid : cid = l.cid
            · simp [hcid]
            · simp only [List.mem_cons, hcid, false_or, Function.update_of_ne hcid]
          case bytes =>
            have hsum := storedBytes_perm hstored rfl
            have hle := hmakes.bytes
            omega
    · -- there is room at once
      right
      refine ⟨c, ht, chains, ?_, h⟩
      obtain ⟨hpoints, hevicted⟩ := @evicted_of_room _ _ (fuel + 1) hroom
      constructor
      case loop =>
        unfold Cache.putLoop
        rw [if_neg hroom]
        rfl
      case room => exact hroom
      case first => rw [hpoints]; rfl
      case steps => rw [hpoints]; exact List.isChain_singleton _
      case maxItems => rfl
      case maxSize => rfl
      case entry =>
        rw [hevicted]
        simp
      case bytes => exact le_refl _

/-- Where there is room, the loop ejects nothing. -/
theorem Cache.MakesRoom.eq_of_room {fuel : ℕ} {c₁ : Cache} (h : c.MakesRoom len fuel c₁)
    (hroom : ¬ c.NoRoom len) : c₁ = c := by
  have hfirst := h.first
  rw [(evicted_of_room hroom).1] at hfirst
  exact Option.some.inj hfirst

/-- Wherever the loop ejects a line, there is one to eject: the table is not empty, and there is
    too little room. -/
theorem ejectPoints_books (h : c.Books ht chains) (hlen : len ≤ c.maxSize) {fuel : ℕ} {p : Cache}
    (hp : p ∈ c.ejectPoints len fuel) : p.NoRoom len ∧ p.stored ≠ [] := by
  induction fuel generalizing c ht chains with
  | zero => exact absurd hp List.not_mem_nil
  | succ fuel ih =>
    by_cases hroom : c.NoRoom len
    · have hne : c.stored ≠ [] := by
        rw [stored_eq h.table h.holds]
        exact fun hnil => h.nonempty hlen hroom (List.map_eq_nil_iff.mp hnil)
      -- the first point is this one, and the others are those of the rest of the loop
      unfold Cache.ejectPoints at hp
      rw [if_pos hroom] at hp
      rcases ejectCmpsc311Cache_books h with
        ⟨hnil, -⟩ | ⟨-, heject⟩ | ⟨e, he, l, ht', hl, -, hholds, heject⟩
      · exact absurd hnil (h.nonempty hlen hroom)
      · rw [heject, List.mem_singleton] at hp
        rw [hp]
        exact ⟨hroom, hne⟩
      · rw [heject, List.mem_cons] at hp
        rcases hp with rfl | hp
        · exact ⟨hroom, hne⟩
        · exact ih (h.remove he hl hholds _) hlen hp
    · unfold Cache.ejectPoints at hp
      rw [if_neg hroom] at hp
      exact absurd hp List.not_mem_nil

/-! ### The calls -/

/-- The loops of the cache take fewer steps than they may. -/
theorem Cache.Books.length_lt_fuel (h : c.Books ht chains) : chains.flatten.length < c.fuel := by
  unfold Cache.fuel
  rw [h.table]
  exact h.holds.length_lt_fuel

/-- Nothing is stored for an identifier without a line, and a line of every identifier that
    something is stored for. -/
theorem Cache.Books.entry_eq_none (h : c.Books ht chains) :
    c.entry cid = none ↔ contents chains (cacheIndex cid) = none := by
  rw [entry_eq h.table h.holds]
  cases hstored : contents chains (cacheIndex cid) with
  | none => simp
  | some a =>
    obtain ⟨x, hx, -, rfl⟩ := h.holds.contents_eq_some.mp hstored
    obtain ⟨lx, hlx⟩ := h.lines x hx
    rw [Option.bind_some, hlx.lookup]
    simp

/-- Where nothing is stored, no identifier has a line. -/
theorem Cache.Books.entry_of_nil (h : c.Books ht chains) (hnil : c.stored = []) (cid : CacheID) :
    c.entry cid = none := by
  rw [h.entry_eq_none, contents_eq_none]
  intro e he
  rw [stored_eq h.table h.holds, List.map_eq_nil_iff] at hnil
  rw [hnil] at he
  exact absurd he List.not_mem_nil

/-- A `put` that the checks refuse changes nothing. -/
theorem putCmpsc311Cache_refused {line entry : Addr} {now : Timeval} (h : ¬ c.Accepts buf len) :
    putCmpsc311Cache c line entry now cid buf len = .ok (-1, c) := by
  unfold putCmpsc311Cache
  by_cases hinit : c.initialized = true
  · rw [hinit]
    simp only [Bool.not_true, Bool.false_eq_true, if_false]
    by_cases hbad : len = 0 ∨ buf = none
    · rw [if_pos hbad]
      rfl
    · -- it is the last check that has failed
      have hlarge : len > c.maxSize := by
        by_contra hle
        exact h ⟨hinit, hbad, UInt32.not_lt.mp hle⟩
      rw [if_neg hbad, if_pos hlarge]
      rfl
  · rw [Bool.not_eq_true] at hinit
    rw [hinit]
    rfl

/-- **Put.**  Behind its checks it makes room and stores the line, unless its identifier is still
    there or the times of two lines are too far apart. -/
theorem putCmpsc311Cache_books (h : c.Books ht chains) (haccepts : c.Accepts buf len)
    {line entry : Addr} (hmalloc : c.MallocReturns len line entry) (now : Timeval)
    (cid : CacheID) :
    (c.TimesOverflow ∧ putCmpsc311Cache c line entry now cid buf len = .error .signedOverflow) ∨
      ∃ c₁ ht₁ chains₁, c.MakesRoom len c.fuel c₁ ∧ c₁.Books ht₁ chains₁ ∧ line ∉ c₁.lines ∧
        ((c₁.entry cid ≠ none ∧
            putCmpsc311Cache c line entry now cid buf len = .error .duplicateIndex) ∨
          c₁.entry cid = none ∧ ∃ ht',
            ht'.Holds (insertChains ⟨entry, cacheIndex cid, line⟩ chains₁) ∧
            putCmpsc311Cache c line entry now cid buf len
              = .ok (0, c₁.withLine ht' line ⟨cid, len, buf, now⟩)) := by
  obtain ⟨-, hgood, hle⟩ := haccepts
  have hlarge : ¬ c.maxSize < len := UInt32.not_lt.mpr hle
  unfold putCmpsc311Cache
  simp only [h.initialized, Bool.not_true, Bool.false_eq_true, hgood, hlarge, if_false]
  rcases putLoop_books h hle h.length_lt_fuel with
    ⟨hover, hloop⟩ | ⟨c₁, ht₁, chains₁, hmakes, h₁⟩
  · left
    rw [hloop]
    exact ⟨hover, rfl⟩
  · right
    -- `malloc` returns its blocks behind the loop, so they are fresh there
    have hfresh := hmalloc
    unfold Cache.MallocReturns at hfresh
    rw [hmakes.loop] at hfresh
    obtain ⟨hline, hentry⟩ := of_decide_eq_true hfresh
    refine ⟨c₁, ht₁, chains₁, hmakes, h₁, hline, ?_⟩
    rw [hmakes.loop, ok_bind]
    unfold Cache.table
    simp only [Bool.not_true, Bool.false_eq_true, if_false, h₁.table, ok_bind]
    by_cases habsent : c₁.entry cid = none
    · obtain ⟨ht₂, hinsert, hholds⟩ := @insertValueInHashTable_holds _ _ _
        ⟨entry, cacheIndex cid, line⟩ h₁.holds (hentry _ h₁.table) (h₁.entry_eq_none.mp habsent)
      rw [hinsert]
      exact .inr ⟨habsent, ht₂, hholds, rfl⟩
    · -- the table refuses a second entry
      obtain ⟨stored, hstored⟩ := Option.ne_none_iff_exists'.mp (mt h₁.entry_eq_none.mpr habsent)
      rw [insertValueInHashTable_duplicate h₁.holds hstored]
      exact .inl ⟨habsent, rfl⟩

/-- **Get.**  It returns the buffer of the line and sets its time to the present one; without a
    line it changes nothing. -/
theorem getCmpsc311Cache_books (h : c.Books ht chains) (now : Timeval) (cid : CacheID) :
    (c.entry cid = none ∧ getCmpsc311Cache c now cid = .ok (none, c)) ∨
      ∃ e ∈ chains.flatten, ∃ l, IsEntry c e l ∧ l.cid = cid ∧
        getCmpsc311Cache c now cid = .ok (l.buf, c.renewed e l now) := by
  unfold getCmpsc311Cache Cache.table
  rw [h.initialized]
  simp only [Bool.not_true, Bool.false_eq_true, if_false, h.table, ok_bind]
  rw [findValueInHashTable_eq h.holds, ok_bind]
  cases hstored : contents chains (cacheIndex cid) with
  | none => exact .inl ⟨h.entry_eq_none.mpr hstored, rfl⟩
  | some ref =>
    right
    obtain ⟨e, he, hidx, rfl⟩ := h.holds.contents_eq_some.mp hstored
    obtain ⟨l, hl⟩ := h.lines e he
    refine ⟨e, he, l, hl, cacheIndex_injective (hl.index.trans hidx), ?_⟩
    dsimp only
    rw [Cache.Books.line_eq hl, ok_bind]
    unfold Cache.renewed
    rw [h.initialized, h.table]
    rfl

/-- **Delete.**  It takes the line out and returns its buffer, which is not freed; without a line
    it changes nothing. -/
theorem deleteCmpsc311Cache_books (h : c.Books ht chains) (cid : CacheID) :
    (c.entry cid = none ∧ deleteCmpsc311Cache c cid = .ok (none, c)) ∨
      ∃ e ∈ chains.flatten, ∃ l ht', IsEntry c e l ∧ l.cid = cid ∧
        ht'.Holds (deleteChains e.index chains) ∧
        deleteCmpsc311Cache c cid = .ok (l.buf, c.without ht' e l c.freed) := by
  unfold deleteCmpsc311Cache Cache.table
  rw [h.initialized]
  simp only [Bool.not_true, Bool.false_eq_true, if_false, h.table, ok_bind]
  cases hstored : contents chains (cacheIndex cid) with
  | none =>
    rw [deleteValueFromHashTable_absent h.holds hstored]
    refine .inl ⟨h.entry_eq_none.mpr hstored, ?_⟩
    rw [ok_bind]
    dsimp only
    rw [← h.initialized, ← h.table]
    rfl
  | some ref =>
    right
    obtain ⟨e, he, hidx, rfl⟩ := h.holds.contents_eq_some.mp hstored
    obtain ⟨l, hl⟩ := h.lines e he
    obtain ⟨ht', hdelete, hholds, -⟩ := deleteValueFromHashTable_holds h.holds (cacheIndex cid)
    refine ⟨e, he, l, ht', hl, cacheIndex_injective (hl.index.trans hidx), by rwa [hidx], ?_⟩
    rw [hdelete, hstored, ok_bind]
    dsimp only
    rw [Cache.Books.line_eq hl, ok_bind]
    unfold Cache.without
    rw [h.initialized]
    rfl

/-- **Init.**  A cache that it sets up stores nothing; with a limit of zero it sets up none. -/
theorem initCmpsc311Cache_books (hinit : c.initialized = false) (maxItems maxSize : UInt32) :
    ((maxItems = 0 ∨ maxSize = 0) ∧ initCmpsc311Cache c maxItems maxSize = .ok (-1, c)) ∨
      ∃ c', initCmpsc311Cache c maxItems maxSize = .ok (0, c') ∧ c'.maxItems = maxItems ∧
        c'.maxSize = maxSize ∧ c'.stored = [] ∧ ∃ ht chains, c'.Books ht chains := by
  unfold initCmpsc311Cache
  rw [hinit]
  simp only [Bool.false_eq_true, if_false]
  by_cases hitems : maxItems = 0
  · rw [if_pos hitems]
    exact .inl ⟨.inl hitems, rfl⟩
  by_cases hsize : maxSize = 0
  · rw [if_neg hitems, if_pos hsize]
    exact .inl ⟨.inr hsize, rfl⟩
  right
  have htable : initHashTable Addr cacheTableBitWidth
      = .ok (.empty Addr (1 <<< cacheTableBitWidth)) :=
    rfl
  have hholds := holds_empty (size_pos_of_bits (show cacheTableBitWidth < 16 by decide)) (β := Addr)
  have hnil : (List.replicate (1 <<< cacheTableBitWidth : UInt16).toNat
      ([] : List (Stored Addr))).flatten = [] := List.flatten_replicate_nil
  rw [if_neg hitems, if_neg hsize, htable, ok_bind]
  refine ⟨_, rfl, rfl, rfl, ?_, _, _, rfl, rfl, hholds, ?_, ?_, ?_, UInt32.zero_le, ?_⟩
  · rw [stored_eq rfl hholds, hnil, List.map_nil]
  · rw [hnil]
    intro e he
    exact absurd he List.not_mem_nil
  · exact UInt32.pos_iff_ne_zero.mpr hitems
  · rw [hnil]
    rfl
  · unfold Cache.storedBytes
    rw [stored_eq rfl hholds, hnil]
    rfl

/-- One round of the loop of `close_cmpsc311_cache`: it ends where the table is empty, and takes the
    first line out otherwise. -/
theorem closeLoop_round (h : c.Books ht chains) :
    (chains.flatten = [] ∧ ∀ fuel, c.closeLoop (fuel + 1) = .ok (true, c)) ∨
      ∃ e ∈ chains.flatten, ∃ l ht', IsEntry c e l ∧ ht'.Holds (deleteChains e.index chains) ∧
        ∀ fuel, c.closeLoop (fuel + 1)
          = (c.without ht' e l (c.freed ++ [l.buf])).closeLoop fuel := by
  obtain ⟨it, hiterate, -⟩ := iterateHashTable_spec h.holds before_init
  cases hchains : chains.flatten with
  | nil =>
    -- the count of the items is that of the entries
    have hzero : ¬ c.currentItems > 0 := by
      intro hpos
      have hpos := UInt32.lt_iff_toNat_lt.mp hpos
      rw [h.items, hchains, List.length_nil] at hpos
      exact absurd hpos (Nat.lt_irrefl _)
    refine .inl ⟨rfl, fun fuel => ?_⟩
    rw [Cache.closeLoop, if_neg hzero]
    rfl
  | cons e rest =>
    have he : e ∈ chains.flatten := by
      rw [hchains]
      exact List.mem_cons_self
    obtain ⟨l, hl⟩ := h.lines e he
    obtain ⟨ht', hdelete, hholds, -⟩ := deleteValueFromHashTable_holds h.holds (cacheIndex l.cid)
    rw [hl.index] at hdelete hholds
    have hpos : c.currentItems > 0 := by
      rw [gt_iff_lt, UInt32.lt_iff_toNat_lt, h.items, hchains]
      exact Nat.succ_pos _
    -- what is deleted is what the iterator has returned
    have hchk : contents chains e.index = some e.block :=
      h.holds.contents_eq_some.mpr ⟨e, he, rfl, rfl⟩
    refine .inr ⟨e, List.mem_cons_self, l, ht', hl, hholds, fun fuel => ?_⟩
    rw [Cache.closeLoop, if_pos hpos]
    unfold Cache.table
    rw [h.table, ok_bind, hiterate, ok_bind, hchains]
    dsimp only [List.head?_cons, Option.map_some]
    rw [Cache.Books.line_eq hl, ok_bind, hl.index, hdelete, ok_bind, hchk]
    dsimp only
    rw [if_neg (not_not.mpr rfl)]
    rfl

/-- The loop of `close_cmpsc311_cache` ends with an empty table, as each round takes out one
    entry. -/
theorem closeLoop_books (h : c.Books ht chains) {fuel : ℕ} (hfuel : chains.flatten.length < fuel) :
    ∃ c₁ ht₁ chains₁, c.closeLoop fuel = .ok (true, c₁) ∧ c₁.Books ht₁ chains₁ ∧
      chains₁.flatten = [] := by
  induction fuel generalizing c ht chains with
  | zero => exact absurd hfuel (Nat.not_lt_zero _)
  | succ fuel ih =>
    rcases closeLoop_round h with ⟨hnil, hround⟩ | ⟨e, he, l, ht', hl, hholds, hround⟩
    · exact ⟨c, ht, chains, hround fuel, h, hnil⟩
    · have hfewer := h.length_without he hl hholds
      rw [hround]
      exact ih (h.remove he hl hholds (c.freed ++ [l.buf])) (by omega)

/-- **Close.**  It succeeds, and puts all data back to zero. -/
theorem closeCmpsc311Cache_books (h : c.Books ht chains) :
    ∃ c', closeCmpsc311Cache c = .ok (0, c') ∧ c'.initialized = false ∧ c'.maxItems = 0 ∧
      c'.maxSize = 0 ∧ c'.currentItems = 0 ∧ c'.currentSize = 0 ∧ c'.htable = none := by
  obtain ⟨c₁, ht₁, chains₁, hloop, h₁, hnil⟩ := closeLoop_books h h.length_lt_fuel
  obtain ⟨ht₂, hcleanup⟩ := cleanupHashTable_nil h₁.holds hnil
  unfold closeCmpsc311Cache
  rw [h.initialized, hloop]
  simp only [Bool.not_true, Bool.false_eq_true, if_false, ok_bind]
  unfold Cache.table
  rw [h₁.table, ok_bind, hcleanup, ok_bind]
  exact ⟨_, rfl, rfl, rfl, rfl, rfl, rfl, rfl⟩

end NetworkExperiment
