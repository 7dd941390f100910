import NetworkExperiment.Cache.Bookkeeping
import NetworkExperiment.Lib.LastEvent

namespace NetworkExperiment

open ActionSystems LastEvents

/-!
# The coherence of the cache

Runs of `put`, `get` and `delete` against a log of what was stored, ejected and deleted:

* `CacheEvent` / `loggedCache` — the events of a run, beside the cache;
* `recalled` — what the log says of an identifier: its last event decides;
* `LoggedCache.Coherent` — the invariant: each identifier has the line that the log says;
* `cache_coherence` — `get` and `delete` return what the log says, and nothing else disappears from
  the cache than what a successful `put` ejects.
-/

/-! ### Runs with a log -/

/-- What happens to an identifier: a `put` of it succeeds, or its line is ejected, or it is
    deleted. -/
inductive CacheEvent
  | stored (cid : CacheID) (buf : BufPtr)
  | ejected (cid : CacheID)
  | deleted (cid : CacheID)
  deriving DecidableEq

/-- The identifier of an event. -/
def CacheEvent.cid : CacheEvent → CacheID
  | .stored cid _ => cid
  | .ejected cid => cid
  | .deleted cid => cid

/-- The buffer that the log says is in the cache for an identifier, or `NULL`: that of the most
    recent successful `put`, if nothing has happened to the identifier since then. -/
def recalled (log : List CacheEvent) (cid : CacheID) : BufPtr :=
  match lastOf (·.cid = cid) log with
  | some (.stored _ buf) => buf
  | _ => none

/-- A cache with the log of its run. -/
structure LoggedCache where
  cache : Cache
  log : List CacheEvent

/-- The identifiers that a `put` ejects; it ejects nothing where its checks refuse the item. -/
def Cache.ejects (c : Cache) (buf : BufPtr) (len : UInt32) : List CacheID :=
  if c.Accepts buf len then c.evicted len c.fuel else []

/-- The runs of the cache with their log. -/
def loggedCache : ActionSystem LoggedCache CacheCall where
  act s
    | .put line entry now cid buf len =>
        if s.cache.MallocReturns len line entry then
          match putCmpsc311Cache s.cache line entry now cid buf len with
          | .ok (ret, c) => some
              { cache := c
                log := s.log ++ (s.cache.ejects buf len).map .ejected ++
                  if ret = 0 then [.stored cid buf] else [] }
          | .error _ => none
        else none
    | .get now cid =>
        match getCmpsc311Cache s.cache now cid with
        | .ok (_, c) => some { s with cache := c }
        | .error _ => none
    | .delete cid =>
        match deleteCmpsc311Cache s.cache cid with
        | .ok (_, c) => some { cache := c, log := s.log ++ [.deleted cid] }
        | .error _ => none

/-! ### What the log says -/

variable {log : List CacheEvent} {cid cid' : CacheID}

/-- An event of another identifier changes nothing. -/
theorem recalled_concat_of_ne (log : List CacheEvent) {e : CacheEvent} (h : e.cid ≠ cid) :
    recalled (log ++ [e]) cid = recalled log cid := by
  unfold recalled
  rw [lastOf_concat_neg log h]

/-- After a successful `put` the log says its buffer, -/
theorem recalled_stored (log : List CacheEvent) (cid : CacheID) (buf : BufPtr) :
    recalled (log ++ [.stored cid buf]) cid = buf := by
  unfold recalled
  rw [lastOf_concat_pos (p := fun e : CacheEvent => e.cid = cid) log rfl]

/-- and after a deletion nothing. -/
theorem recalled_deleted (log : List CacheEvent) (cid : CacheID) :
    recalled (log ++ [.deleted cid]) cid = none := by
  unfold recalled
  rw [lastOf_concat_pos (p := fun e : CacheEvent => e.cid = cid) log rfl]

/-- A buffer is remembered exactly where a successful `put` has stored it, and nothing has happened
    to the identifier since. -/
theorem recalled_eq_some {b : ℕ} : recalled log cid = some b ↔
    ∃ l₁ l₂, log = l₁ ++ .stored cid (some b) :: l₂ ∧ ∀ e ∈ l₂, e.cid ≠ cid := by
  unfold recalled
  constructor
  · intro h
    cases hlast : lastOf (·.cid = cid) log with
    | none => simp [hlast] at h
    | some e =>
      rw [hlast] at h
      cases e with
      | ejected x => exact absurd h (by simp)
      | deleted x => exact absurd h (by simp)
      | stored x buf =>
        obtain ⟨l₁, l₂, hlog, rfl, hnone⟩ := lastOf_eq_some.mp hlast
        obtain rfl : buf = some b := h
        exact ⟨l₁, l₂, hlog, hnone⟩
  · rintro ⟨l₁, l₂, hlog, hnone⟩
    rw [(lastOf_eq_some (p := fun e : CacheEvent => e.cid = cid)).mpr ⟨l₁, l₂, hlog, rfl, hnone⟩]

/-- After ejections it says nothing of what was ejected, and of the others what it said before. -/
theorem recalled_ejected (log : List CacheEvent) (cids : List CacheID) :
    recalled (log ++ cids.map .ejected) cid = if cid ∈ cids then none else recalled log cid := by
  -- from the end, since the last event of an identifier decides
  induction cids using List.reverseRecOn with
  | nil => simp
  | append_singleton cids x ih =>
    rw [List.map_append, ← List.append_assoc]
    by_cases hx : x = cid
    · rw [if_pos (List.mem_append_right _ (List.mem_singleton.mpr hx.symm))]
      unfold recalled
      rw [List.map_singleton, lastOf_concat_pos (p := fun e : CacheEvent => e.cid = cid) _
        (show (CacheEvent.ejected x).cid = cid from hx)]
    · rw [List.map_singleton,
        recalled_concat_of_ne _ (show (CacheEvent.ejected x).cid ≠ cid from hx), ih]
      simp [Ne.symm hx]

/-! ### The invariant -/

variable {c c' : Cache} {ht : HTable Addr} {chains : List (List (Stored Addr))} {buf : BufPtr}

/-- Every identifier has the buffer that the log says. -/
structure LoggedCache.Coherent (s : LoggedCache) : Prop where
  books : ∃ ht chains, s.cache.Books ht chains
  recalls : ∀ cid, ((s.cache.entry cid).map (·.buf)).join = recalled s.log cid

/-- A `put` that goes through stores its line, or it is refused and changes nothing. -/
theorem put_cases (h : c.Books ht chains) {line entry : Addr} {now : Timeval} {len : UInt32}
    (hmalloc : c.MallocReturns len line entry) {ret : ℤ}
    (hput : putCmpsc311Cache c line entry now cid buf len = .ok (ret, c')) :
    (ret = -1 ∧ c' = c ∧ c.ejects buf len = []) ∨
      ret = 0 ∧ c.ejects buf len = c.evicted len c.fuel ∧
        ∃ c₁, c.PutsLine now cid buf len c₁ c' := by
  by_cases haccepts : c.Accepts buf len
  · right
    rcases putCmpsc311Cache_books h haccepts hmalloc now cid with
      ⟨-, hfault⟩ | ⟨c₁, ht₁, chains₁, hmakes, h₁, hline, ⟨-, hfault⟩ | ⟨habsent, ht', hholds, hok⟩⟩
    · rw [hfault] at hput
      exact absurd hput (by simp)
    · rw [hfault] at hput
      exact absurd hput (by simp)
    · rw [hok] at hput
      obtain ⟨rfl, rfl⟩ := Prod.mk.inj (Except.ok.inj hput)
      exact ⟨rfl, if_pos haccepts, c₁, haccepts, hmakes, habsent, line, entry, ht₁, chains₁, ht',
        h₁, hline, hholds, rfl⟩
  · rw [putCmpsc311Cache_refused haccepts] at hput
    obtain ⟨rfl, rfl⟩ := Prod.mk.inj (Except.ok.inj hput)
    exact .inl ⟨rfl, rfl, if_neg haccepts⟩

/-- A `put` stores the line for its identifier, and of the others leaves those it does not eject. -/
theorem Cache.PutsLine.entry_of_ne {now : Timeval} {len : UInt32} {c₁ : Cache}
    (hputs : c.PutsLine now cid buf len c₁ c') (hne : cid' ≠ cid) :
    c'.entry cid' = if cid' ∈ c.evicted len c.fuel then none else c.entry cid' := by
  rw [hputs.entry, Function.update_of_ne hne, hputs.makesRoom.entry]

/-- The step of a run keeps the log true. -/
theorem LoggedCache.coherent_step {s s' : LoggedCache} {call : CacheCall} (h : s.Coherent)
    (hstep : loggedCache.act s call = some s') : s'.Coherent := by
  obtain ⟨⟨ht, chains, hbooks⟩, hrecalls⟩ := h
  cases call with
  | put line entry now cid buf len =>
    simp only [loggedCache] at hstep
    split_ifs at hstep with hmalloc
    cases hput : putCmpsc311Cache s.cache line entry now cid buf len with
    | error fault => simp [hput] at hstep
    | ok out =>
      obtain ⟨ret, c'⟩ := out
      rw [hput] at hstep
      obtain rfl := Option.some.inj hstep
      rcases put_cases hbooks hmalloc hput with
        ⟨rfl, rfl, hejects⟩ | ⟨rfl, hejects, c₁, hputs⟩
      · -- refused: neither the cache nor the log changes
        refine ⟨⟨ht, chains, hbooks⟩, ?_⟩
        intro cid'
        rw [hejects, if_neg (by decide), List.map_nil, List.append_nil, List.append_nil]
        exact hrecalls cid'
      · -- the ejections come before the new line, in the log as in the call
        refine ⟨hputs.books, ?_⟩
        intro cid'
        show ((c'.entry cid').map (·.buf)).join = _
        rw [if_pos rfl]
        by_cases hcid : cid' = cid
        · rw [hcid, hputs.entry, Function.update_self, recalled_stored]
          rfl
        · rw [hputs.entry_of_ne hcid, recalled_concat_of_ne _ (Ne.symm hcid),
            recalled_ejected, hejects]
          split_ifs
          · rfl
          · exact hrecalls cid'
  | get now cid =>
    simp only [loggedCache] at hstep
    rcases getCmpsc311Cache_books hbooks now cid with ⟨-, hget⟩ | ⟨e, he, l, hl, -, hget⟩
    · rw [hget] at hstep
      obtain rfl := Option.some.inj hstep
      exact ⟨⟨ht, chains, hbooks⟩, hrecalls⟩
    · rw [hget] at hstep
      obtain rfl := Option.some.inj hstep
      -- a `get` changes the time of the line, not its buffer
      refine ⟨⟨ht, chains, hbooks.renew he hl now⟩, ?_⟩
      intro cid'
      show (((s.cache.renewed e l now).entry cid').map (·.buf)).join = recalled s.log cid'
      rw [← hrecalls cid', hbooks.entry_renewed he hl now]
      by_cases hcid : cid' = l.cid
      · rw [hcid, Function.update_self, hbooks.entry_of_isEntry he hl]
        rfl
      · rw [Function.update_of_ne hcid]
  | delete cid =>
    simp only [loggedCache] at hstep
    rcases deleteCmpsc311Cache_books hbooks cid with
      ⟨hnone, hdelete⟩ | ⟨e, he, l, ht', hl, rfl, hholds, hdelete⟩
    · -- nothing to delete, but the log says so too
      rw [hdelete] at hstep
      obtain rfl := Option.some.inj hstep
      refine ⟨⟨ht, chains, hbooks⟩, ?_⟩
      intro cid'
      show ((s.cache.entry cid').map (·.buf)).join = _
      by_cases hcid : cid' = cid
      · rw [hcid, hnone, recalled_deleted]
        rfl
      · rw [recalled_concat_of_ne _ (Ne.symm hcid)]
        exact hrecalls cid'
    · rw [hdelete] at hstep
      obtain rfl := Option.some.inj hstep
      refine ⟨⟨ht', _, hbooks.remove he hl hholds _⟩, ?_⟩
      intro cid'
      show (((s.cache.without ht' e l s.cache.freed).entry cid').map (·.buf)).join = _
      rw [hbooks.entry_without he hl hholds]
      by_cases hcid : cid' = l.cid
      · rw [hcid, Function.update_self, recalled_deleted]
        rfl
      · rw [Function.update_of_ne hcid, recalled_concat_of_ne _ (Ne.symm hcid)]
        exact hrecalls cid'

/-- A cache that has just been initialised has an empty log. -/
theorem LoggedCache.coherent_init {ops : List CacheOp} {c₁ c₀ : Cache}
    (hlife : cacheLife.run ops .initial = some c₁) {maxItems maxSize : UInt32}
    (hinit : initCmpsc311Cache c₁ maxItems maxSize = .ok (0, c₀)) :
    LoggedCache.Coherent ⟨c₀, []⟩ := by
  rcases Cache.kept_of_run hlife with ⟨ht, chains, h⟩ | h
  · -- a second initialisation is refused
    unfold initCmpsc311Cache at hinit
    rw [h.initialized] at hinit
    exact absurd (Prod.mk.inj (Except.ok.inj hinit)).1 (by decide)
  · rcases initCmpsc311Cache_books h.initialized maxItems maxSize with
      ⟨-, hrefused⟩ | ⟨c', hok, -, -, hnil, ht, chains, hbooks⟩
    · rw [hrefused] at hinit
      exact absurd (Prod.mk.inj (Except.ok.inj hinit)).1 (by decide)
    · rw [hok] at hinit
      obtain ⟨-, rfl⟩ := Prod.mk.inj (Except.ok.inj hinit)
      refine ⟨⟨ht, chains, hbooks⟩, ?_⟩
      intro cid
      show ((c'.entry cid).map (·.buf)).join = none
      rw [hbooks.entry_of_nil hnil]
      rfl

/-- **The invariant of a run.** -/
theorem LoggedCache.coherent_of_run {s s' : LoggedCache} (h : s.Coherent) {calls : List CacheCall}
    (hrun : loggedCache.run calls s = some s') : s'.Coherent :=
  ActionSystem.Invariant.run (fun _ _ _ h hstep => LoggedCache.coherent_step h hstep) h hrun

/-! ### Coherence -/

/-- **Coherence.**  In every state that calls of `put`, `get` and `delete` on an initialised cache
    reach, `get` and `delete` return the buffer of the most recent successful `put` of the
    identifier, if it has been neither deleted nor ejected since, and `NULL` otherwise; the first
    part is what `recalled` says of the log.  A `get` changes nothing but the time of the line it
    returns, a `delete` removes no other line, and other lines disappear in a successful `put` only,
    which ejects them. -/
theorem cache_coherence {ops : List CacheOp} {c₁ c₀ : Cache}
    (hlife : cacheLife.run ops .initial = some c₁) {maxItems maxSize : UInt32}
    (hinit : initCmpsc311Cache c₁ maxItems maxSize = .ok (0, c₀)) {calls : List CacheCall}
    {s : LoggedCache} (hrun : loggedCache.run calls ⟨c₀, []⟩ = some s) :
    (∀ cid b, recalled s.log cid = some b ↔
      ∃ l₁ l₂, s.log = l₁ ++ .stored cid (some b) :: l₂ ∧ ∀ e ∈ l₂, e.cid ≠ cid) ∧
    (∀ now cid, ∃ c', getCmpsc311Cache s.cache now cid = .ok (recalled s.log cid, c') ∧
      { c' with lines := s.cache.lines } = s.cache ∧
      ∀ cid', c'.entry cid' = if cid' = cid then
        (s.cache.entry cid).map fun l => { l with lastUsed := now } else s.cache.entry cid') ∧
    (∀ cid, ∃ c', deleteCmpsc311Cache s.cache cid = .ok (recalled s.log cid, c') ∧
      c'.entry cid = none ∧ ∀ cid', cid' ≠ cid → c'.entry cid' = s.cache.entry cid') ∧
    ∀ line entry now cid buf len ret c', s.cache.MallocReturns len line entry →
      putCmpsc311Cache s.cache line entry now cid buf len = .ok (ret, c') →
      (ret ≠ 0 → c' = s.cache ∧ s.cache.ejects buf len = []) ∧
      (ret = 0 → c'.entry cid = some ⟨cid, len, buf, now⟩ ∧ ∀ cid', cid' ≠ cid →
        c'.entry cid' = if cid' ∈ s.cache.ejects buf len then none else s.cache.entry cid') := by
  obtain ⟨⟨ht, chains, h⟩, hrecalls⟩ :=
    LoggedCache.coherent_of_run (LoggedCache.coherent_init hlife hinit) hrun
  refine ⟨fun cid b => recalled_eq_some, ?_, ?_, ?_⟩
  · intro now cid
    rw [← hrecalls cid]
    rcases getCmpsc311Cache_books h now cid with ⟨hnone, hget⟩ | ⟨e, he, l, hl, rfl, hget⟩
    · rw [hnone]
      refine ⟨s.cache, hget, rfl, ?_⟩
      intro cid'
      split_ifs with hcid
      · rw [hcid, hnone]
        rfl
      · rfl
    · rw [h.entry_of_isEntry he hl]
      refine ⟨_, hget, rfl, ?_⟩
      intro cid'
      rw [h.entry_renewed he hl now]
      split_ifs with hcid
      · rw [hcid, Function.update_self]
        rfl
      · rw [Function.update_of_ne hcid]
  · intro cid
    rw [← hrecalls cid]
    rcases deleteCmpsc311Cache_books h cid with
      ⟨hnone, hdelete⟩ | ⟨e, he, l, ht', hl, rfl, hholds, hdelete⟩
    · rw [hnone]
      exact ⟨s.cache, hdelete, hnone, fun _ _ => rfl⟩
    · rw [h.entry_of_isEntry he hl]
      refine ⟨_, hdelete, ?_, ?_⟩
      · rw [h.entry_without he hl hholds, Function.update_self]
      · intro cid' hcid
        rw [h.entry_without he hl hholds, Function.update_of_ne hcid]
  · intro line entry now cid buf len ret c' hmalloc hput
    rcases put_cases h hmalloc hput with
      ⟨rfl, rfl, hejects⟩ | ⟨rfl, hejects, c₂, hputs⟩
    · exact ⟨fun _ => ⟨rfl, hejects⟩, fun hret => absurd hret (by decide)⟩
    · refine ⟨fun hret => absurd rfl hret, ?_⟩
      intro _
      rw [hejects]
      refine ⟨?_, fun cid' hcid => hputs.entry_of_ne hcid⟩
      rw [hputs.entry, Function.update_self]

/-- A third item in a cache for two ejects the second, whose identifier is put again. -/
def coherenceCalls : List CacheCall :=
  [.put 1 2 ⟨1, 0⟩ 1 (some 7) 10, .put 3 4 ⟨2, 0⟩ 257 (some 8) 20, .put 5 6 ⟨3, 0⟩ 2 (some 9) 30,
    .put 7 8 ⟨4, 0⟩ 257 (some 10) 40]

/-- It has its new buffer, and the one that was ejected for it is gone. -/
theorem cache_coherence_calls : ∃ c₀ s, initCmpsc311Cache .initial 2 100 = .ok (0, c₀) ∧
    loggedCache.run coherenceCalls ⟨c₀, []⟩ = some s ∧
    (∃ c', getCmpsc311Cache s.cache ⟨5, 0⟩ 257 = .ok (some 10, c')) ∧
    ∃ c', deleteCmpsc311Cache s.cache 2 = .ok (none, c') := by
  obtain ⟨c₀, hinit⟩ : ∃ c₀, initCmpsc311Cache .initial 2 100 = .ok (0, c₀) := ⟨_, rfl⟩
  have hrun : ((loggedCache.run coherenceCalls ⟨c₀, []⟩).any fun s =>
      decide (recalled s.log 257 = some 10 ∧ recalled s.log 2 = none)) = true := by
    obtain ⟨-, rfl⟩ := Prod.mk.inj (Except.ok.inj hinit)
    decide +kernel
  obtain ⟨s, hrun, hs⟩ := (Option.any_eq_true _ _).mp hrun
  obtain ⟨hstored, hejected⟩ := of_decide_eq_true hs
  obtain ⟨-, hget, hdelete, -⟩ :=
    cache_coherence (show cacheLife.run [] .initial = some .initial from rfl) hinit hrun
  obtain ⟨c', hget, -⟩ := hget ⟨5, 0⟩ 257
  obtain ⟨c'', hdelete, -⟩ := hdelete 2
  rw [hstored] at hget
  rw [hejected] at hdelete
  exact ⟨c₀, s, hinit, hrun, ⟨c', hget⟩, c'', hdelete⟩

end NetworkExperiment
