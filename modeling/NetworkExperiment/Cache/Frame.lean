import NetworkExperiment.Cache.Bookkeeping

namespace NetworkExperiment

open ActionSystems

/-!
# What the calls of the cache return

The cache as its callers see it, and what they do not see:

* `CacheReturn` / `Cache.perform` / `Cache.trace` — the calls with what they return;
* `run_eq_trace` — their runs are those of the life of the cache;
* `Cache.afterFreeing` — a cache that differs only in what has been freed before;
* `perform_afterFreeing` / `trace_afterFreeing` — its calls return the same, and lead to a cache
  that differs only in this.
-/

/-! ### Calls and returns -/

/-- What a call on the cache returns. -/
inductive CacheReturn
  | code (ret : ℤ)
  | buffer (buf : BufPtr)
  deriving DecidableEq

/-- A call on the cache, with what it returns; `malloc` returns no address in use. -/
def Cache.perform (c : Cache) : CacheOp → Option (CacheReturn × Cache)
  | .init maxItems maxSize =>
      (initCmpsc311Cache c maxItems maxSize).toOption.map (Prod.map .code id)
  | .call (.put line entry now cid buf len) =>
      if c.MallocReturns len line entry then
        (putCmpsc311Cache c line entry now cid buf len).toOption.map (Prod.map .code id)
      else none
  | .call (.get now cid) => (getCmpsc311Cache c now cid).toOption.map (Prod.map .buffer id)
  | .call (.delete cid) => (deleteCmpsc311Cache c cid).toOption.map (Prod.map .buffer id)
  | .close => (closeCmpsc311Cache c).toOption.map (Prod.map .code id)

/-- What the calls of a run return, and the cache behind them. -/
def Cache.trace : List CacheOp → Cache → Option (List CacheReturn × Cache)
  | [], c => some ([], c)
  | op :: ops, c =>
      (c.perform op).bind fun out => (trace ops out.2).map (Prod.map (out.1 :: ·) id)

variable {c : Cache} {pre : List BufPtr}

/-- The calls are the steps of a life. -/
theorem act_eq_perform (c : Cache) (op : CacheOp) :
    cacheLife.act c op = (c.perform op).map Prod.snd := by
  cases op with
  | init maxItems maxSize =>
    show _ = Option.map _ (Option.map _ _)
    rw [Option.map_map]
    rfl
  | close =>
    show _ = Option.map _ (Option.map _ _)
    rw [Option.map_map]
    rfl
  | call call =>
    cases call with
    | put line entry now cid buf len =>
      unfold Cache.perform cacheLife Cache.after
      dsimp only
      split_ifs
      · rw [Option.map_map]
        rfl
      · rfl
    | get now cid =>
      show _ = Option.map _ (Option.map _ _)
      rw [Option.map_map]
      rfl
    | delete cid =>
      show _ = Option.map _ (Option.map _ _)
      rw [Option.map_map]
      rfl

/-- A run is what its trace leads to. -/
theorem run_eq_trace (ops : List CacheOp) (c : Cache) :
    cacheLife.run ops c = (c.trace ops).map Prod.snd := by
  induction ops generalizing c with
  | nil => rfl
  | cons op ops ih =>
    rw [ActionSystem.run_cons, act_eq_perform]
    unfold Cache.trace
    cases c.perform op with
    | none => rfl
    | some out =>
      show cacheLife.run ops out.2 = Option.map _ (Option.map _ _)
      rw [ih, Option.map_map]
      rfl

/-! ### What has been freed before -/

/-- The same cache where `pre` has been freed before. -/
def Cache.afterFreeing (pre : List BufPtr) (c : Cache) : Cache := { c with freed := pre ++ c.freed }

/-- What a computation returns, with the cache where `pre` has been freed before. -/
abbrev returnAfterFreeing {α : Type} (pre : List BufPtr) : α × Cache → α × Cache :=
  Prod.map id (Cache.afterFreeing pre)

/-- Two computations that correspond, followed by two that correspond. -/
theorem bind_eq_map {α α' γ γ' : Type} {x : Except Fault α'} {y : Except Fault α} {j : α → α'}
    {k : γ → γ'} {f : α' → Except Fault γ'} {g : α → Except Fault γ} (hx : x = j <$> y)
    (hf : ∀ a, f (j a) = k <$> g a) : x >>= f = k <$> (y >>= g) := by
  subst hx
  cases y with
  | error fault => rfl
  | ok a => exact hf a

/-- The same behind one computation. -/
theorem bind_eq_map_same {α γ γ' : Type} {x : Except Fault α} {k : γ → γ'}
    {f : α → Except Fault γ'} {g : α → Except Fault γ} (hf : ∀ a, f a = k <$> g a) :
    x >>= f = k <$> (x >>= g) :=
  bind_eq_map (id_map x).symm hf

/-- The choice of a line does not look at what has been freed, -/
theorem ejectLoop_afterFreeing (ht : HTable Addr) (fuel : ℕ) (it : HtIterator)
    (entry : Option Addr) :
    (c.afterFreeing pre).ejectLoop ht fuel it entry = c.ejectLoop ht fuel it entry := by
  have hline : (c.afterFreeing pre).line = c.line := rfl
  -- only the lines are read
  induction fuel generalizing it entry with
  | zero => rfl
  | succ fuel ih => simp only [Cache.ejectLoop, ih, hline]

/-- and neither does an ejection, -/
theorem ejectCmpsc311Cache_afterFreeing :
    ejectCmpsc311Cache (c.afterFreeing pre) = returnAfterFreeing pre <$> ejectCmpsc311Cache c := by
  unfold ejectCmpsc311Cache
  rw [show (c.afterFreeing pre).initialized = c.initialized from rfl,
    show (c.afterFreeing pre).table = c.table from rfl]
  split
  · rfl
  · refine bind_eq_map_same fun ht => ?_
    rw [ejectLoop_afterFreeing]
    refine bind_eq_map_same fun chosen => ?_
    cases chosen with
    | none => rfl
    | some entry =>
      -- the buffer of the line is appended behind `pre` and what `c` has freed
      refine bind_eq_map_same fun e => ?_
      refine bind_eq_map_same fun out => ?_
      simp [Cache.afterFreeing]

/-- nor the loop of `put_cmpsc311_cache`, -/
theorem putLoop_afterFreeing (len : UInt32) (fuel : ℕ) :
    (c.afterFreeing pre).putLoop len fuel = returnAfterFreeing pre <$> c.putLoop len fuel := by
  induction fuel generalizing c with
  | zero => rfl
  | succ fuel ih =>
    unfold Cache.putLoop
    by_cases hroom : c.NoRoom len
    · rw [if_pos hroom, if_pos (show (c.afterFreeing pre).NoRoom len from hroom)]
      refine bind_eq_map ejectCmpsc311Cache_afterFreeing fun out => ?_
      obtain ⟨ret, c'⟩ := out
      dsimp only [Prod.map, id]
      split
      · rfl
      · exact ih
    · rw [if_neg hroom, if_neg (show ¬ (c.afterFreeing pre).NoRoom len from hroom)]
      rfl

/-- nor `malloc`. -/
theorem mallocReturns_afterFreeing (len : UInt32) (line entry : Addr) :
    (c.afterFreeing pre).MallocReturns len line entry = c.MallocReturns len line entry := by
  unfold Cache.MallocReturns
  rw [show (c.afterFreeing pre).fuel = c.fuel from rfl, putLoop_afterFreeing]
  cases c.putLoop len c.fuel with
  | error fault => rfl
  | ok out =>
    -- `malloc` looks at the addresses of the cache behind the loop, which are the same
    show decide _ = decide _
    congr 1

theorem initCmpsc311Cache_afterFreeing (maxItems maxSize : UInt32) :
    initCmpsc311Cache (c.afterFreeing pre) maxItems maxSize
      = returnAfterFreeing pre <$> initCmpsc311Cache c maxItems maxSize := by
  unfold initCmpsc311Cache
  rw [show (c.afterFreeing pre).initialized = c.initialized from rfl]
  split_ifs
  · rfl
  · rfl
  · rfl
  · exact bind_eq_map_same fun ht => rfl

theorem putCmpsc311Cache_afterFreeing (line entry : Addr) (now : Timeval) (cid : CacheID)
    (buf : BufPtr) (len : UInt32) :
    putCmpsc311Cache (c.afterFreeing pre) line entry now cid buf len
      = returnAfterFreeing pre <$> putCmpsc311Cache c line entry now cid buf len := by
  unfold putCmpsc311Cache
  rw [show (c.afterFreeing pre).initialized = c.initialized from rfl,
    show (c.afterFreeing pre).maxSize = c.maxSize from rfl,
    show (c.afterFreeing pre).fuel = c.fuel from rfl]
  split_ifs
  · rfl
  · rfl
  · rfl
  · refine bind_eq_map (putLoop_afterFreeing len c.fuel) fun out => ?_
    obtain ⟨room, c'⟩ := out
    dsimp only [Prod.map, id]
    split_ifs
    · rfl
    · refine bind_eq_map_same fun ht => ?_
      exact bind_eq_map_same fun out => rfl

theorem getCmpsc311Cache_afterFreeing (now : Timeval) (cid : CacheID) :
    getCmpsc311Cache (c.afterFreeing pre) now cid
      = returnAfterFreeing pre <$> getCmpsc311Cache c now cid := by
  unfold getCmpsc311Cache
  rw [show (c.afterFreeing pre).initialized = c.initialized from rfl,
    show (c.afterFreeing pre).table = c.table from rfl,
    show (c.afterFreeing pre).line = c.line from rfl]
  split_ifs
  · rfl
  · refine bind_eq_map_same fun ht => ?_
    refine bind_eq_map_same fun found => ?_
    cases found with
    | none => rfl
    | some ref => exact bind_eq_map_same fun r => rfl

theorem deleteCmpsc311Cache_afterFreeing (cid : CacheID) :
    deleteCmpsc311Cache (c.afterFreeing pre) cid
      = returnAfterFreeing pre <$> deleteCmpsc311Cache c cid := by
  unfold deleteCmpsc311Cache
  rw [show (c.afterFreeing pre).initialized = c.initialized from rfl,
    show (c.afterFreeing pre).table = c.table from rfl,
    show (c.afterFreeing pre).line = c.line from rfl]
  split_ifs
  · rfl
  · refine bind_eq_map_same fun ht => ?_
    refine bind_eq_map_same fun out => ?_
    obtain ⟨ref, ht'⟩ := out
    cases ref with
    | none => rfl
    | some ref => exact bind_eq_map_same fun r => rfl

theorem closeLoop_afterFreeing (fuel : ℕ) :
    (c.afterFreeing pre).closeLoop fuel = returnAfterFreeing pre <$> c.closeLoop fuel := by
  induction fuel generalizing c with
  | zero => rfl
  | succ fuel ih =>
    unfold Cache.closeLoop
    rw [show (c.afterFreeing pre).currentItems = c.currentItems from rfl,
      show (c.afterFreeing pre).table = c.table from rfl,
      show (c.afterFreeing pre).line = c.line from rfl]
    split_ifs
    · refine bind_eq_map_same fun ht => ?_
      refine bind_eq_map_same fun out => ?_
      obtain ⟨ref, it⟩ := out
      cases ref with
      | none => rfl
      | some ref =>
        refine bind_eq_map_same fun r => ?_
        refine bind_eq_map_same fun out => ?_
        obtain ⟨chk, ht'⟩ := out
        dsimp only
        split_ifs
        · rfl
        · -- the next round starts with one buffer more, on both sides
          rw [← ih]
          simp [Cache.afterFreeing]
    · rfl

theorem closeCmpsc311Cache_afterFreeing :
    closeCmpsc311Cache (c.afterFreeing pre) = returnAfterFreeing pre <$> closeCmpsc311Cache c := by
  unfold closeCmpsc311Cache
  rw [show (c.afterFreeing pre).initialized = c.initialized from rfl,
    show (c.afterFreeing pre).fuel = c.fuel from rfl]
  split_ifs
  · rfl
  · refine bind_eq_map (closeLoop_afterFreeing c.fuel) fun out => ?_
    obtain ⟨done, c'⟩ := out
    dsimp only [Prod.map, id]
    split_ifs
    · rfl
    · refine bind_eq_map_same fun ht => ?_
      exact bind_eq_map_same fun out => rfl

/-! ### What the calls return -/

/-- What a computation leaves of a pair, and what it leaves of the one that corresponds. -/
theorem toOption_returnAfterFreeing {α : Type} {x y : Except Fault (α × Cache)}
    (h : x = returnAfterFreeing pre <$> y) (ret : α → CacheReturn) :
    x.toOption.map (Prod.map ret id)
      = (y.toOption.map (Prod.map ret id)).map (returnAfterFreeing pre) := by
  subst h
  cases y <;> rfl

/-- **Frame.**  A call returns the same whatever has been freed before. -/
theorem perform_afterFreeing (c : Cache) (op : CacheOp) :
    (c.afterFreeing pre).perform op = (c.perform op).map (returnAfterFreeing pre) := by
  cases op with
  | init maxItems maxSize =>
    exact toOption_returnAfterFreeing (initCmpsc311Cache_afterFreeing maxItems maxSize) _
  | close => exact toOption_returnAfterFreeing closeCmpsc311Cache_afterFreeing _
  | call call =>
    cases call with
    | put line entry now cid buf len =>
      unfold Cache.perform
      dsimp only
      rw [mallocReturns_afterFreeing]
      split_ifs
      · exact toOption_returnAfterFreeing (putCmpsc311Cache_afterFreeing _ _ _ _ _ _) _
      · -- `malloc` returns an address in use in neither
        rfl
    | get now cid => exact toOption_returnAfterFreeing (getCmpsc311Cache_afterFreeing now cid) _
    | delete cid => exact toOption_returnAfterFreeing (deleteCmpsc311Cache_afterFreeing cid) _

/-- So do the calls of a run. -/
theorem trace_afterFreeing (ops : List CacheOp) (c : Cache) :
    (c.afterFreeing pre).trace ops = (c.trace ops).map (returnAfterFreeing pre) := by
  induction ops generalizing c with
  | nil => rfl
  | cons op ops ih =>
    unfold Cache.trace
    rw [perform_afterFreeing]
    cases c.perform op with
    | none => rfl
    | some out =>
      show Option.map _ (Cache.trace ops (out.2.afterFreeing pre)) = _
      rw [ih, Option.map_map]
      show _ = Option.map _ (Option.map _ _)
      rw [Option.map_map]
      rfl

end NetworkExperiment
