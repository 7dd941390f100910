import NetworkExperiment.Cache.Closing
import NetworkExperiment.Cache.Coherence

namespace NetworkExperiment

open ActionSystems

/-!
# Who has the buffers

A buffer that a `put` takes belongs to the cache until it is ejected or the cache is closed, which
frees it, or until it is deleted, which gives it back:

* `CacheCustody` / `cacheCustody` — the life of the cache, with the buffers it has taken and those
  it has given back;
* `CacheCustody.Balanced` — the invariant: what has been taken has been freed, given back, or is
  stored;
* `buffers_conserved` — so no buffer is lost, and none is freed twice or while it is in use.
-/

/-! ### Runs -/

/-- The buffers that the cache takes in a call: the one of a `put` that succeeds. -/
def CacheOp.takes : CacheOp → CacheReturn → List BufPtr
  | .call (.put _ _ _ _ buf _), .code ret => if ret = 0 then [buf] else []
  | _, _ => []

/-- The buffers that it gives back: the one that a `delete` returns.  What a `get` returns stays
    with the cache. -/
def CacheOp.givesBack : CacheOp → CacheReturn → List BufPtr
  | .call (.delete _), .buffer (some b) => [some b]
  | _, _ => []

/-- The cache, the buffers it has taken, and those it has given back. -/
structure CacheCustody where
  cache : Cache
  taken : List BufPtr
  givenBack : List BufPtr

/-- The life of the cache, with its buffers. -/
def cacheCustody : ActionSystem CacheCustody CacheOp where
  act s op := (s.cache.perform op).map fun out =>
    { cache := out.2
      taken := s.taken ++ op.takes out.1
      givenBack := s.givenBack ++ op.givesBack out.1 }

/-- The cache at the start of the program, which has taken nothing. -/
def CacheCustody.start : CacheCustody := ⟨.initial, [], []⟩

/-! ### What a call does to the buffers -/

variable {c c' : Cache} {ht ht' : HTable Addr} {chains : List (List (Stored Addr))}
  {e : Stored Addr} {l : Cmpsc311CacheEntry} {cid : CacheID} {len : UInt32} {buf : BufPtr}

/-- What is freed, and what is stored. -/
def Cache.custody (c : Cache) : List BufPtr := c.freed ++ c.buffers

/-- A line that is taken out takes its buffer along. -/
theorem Cache.Books.buffers_without (h : c.Books ht chains) (he : e ∈ chains.flatten)
    (hl : IsEntry c e l) (hholds : ht'.Holds (deleteChains e.index chains)) (freed : List BufPtr) :
    c.buffers.Perm (l.buf :: (c.without ht' e l freed).buffers) :=
  (storedLines_perm (h.stored_without he hl hholds freed) rfl).map Cmpsc311CacheEntry.buf

/-- A line that is used keeps its buffer, as only its time is changed. -/
theorem Cache.Books.buffers_renewed (h : c.Books ht chains) (he : e ∈ chains.flatten)
    (hl : IsEntry c e l) (now : Timeval) : (c.renewed e l now).buffers = c.buffers := by
  have h' := h.renew he hl now
  have hsame : ∀ x ∈ chains.flatten, ((c.renewed e l now).lines.lookup x.block).map (·.buf)
      = (c.lines.lookup x.block).map (·.buf) := by
    intro x hx
    by_cases hidx : x.index = e.index
    · obtain rfl := h.holds.index_inj hx he hidx
      rw [hl.lookup, (hl.renewed now).lookup]
      rfl
    · rw [h.lookup_renewed he l now hx hidx]
  -- the buffers are those of the entries, in the order of the table
  have hbufs : ∀ {d : Cache}, d.Books ht chains → d.buffers.map some
      = chains.flatten.map fun x => (d.lines.lookup x.block).map (·.buf) := by
    intro d hd
    have hsome := congrArg (List.map (Option.map (·.buf))) hd.map_some_storedLines
    rw [stored_eq hd.table hd.holds, List.map_map, List.map_map, List.map_map] at hsome
    unfold Cache.buffers
    rw [List.map_map]
    exact hsome
  apply List.map_injective_iff.mpr (Option.some_injective _)
  rw [hbufs h', hbufs h]
  exact List.map_congr_left hsame

/-- An ejection frees the buffer of the line it takes out, so the buffer goes from the one list to
    the other. -/
theorem custody_eject (h : c.Books ht chains) (heject : ejectCmpsc311Cache c = .ok (0, c')) :
    (∃ ht' chains', c'.Books ht' chains') ∧ c'.custody.Perm c.custody := by
  rcases ejectCmpsc311Cache_books h with
    ⟨-, hrefused⟩ | ⟨-, hover⟩ | ⟨e, he, l, ht', hl, -, hholds, hout⟩
  · rw [hrefused] at heject
    exact absurd (Prod.mk.inj (Except.ok.inj heject)).1 (by decide)
  · rw [hover] at heject
    cases heject
  · rw [hout] at heject
    obtain rfl := (Prod.mk.inj (Except.ok.inj heject)).2
    refine ⟨⟨ht', _, h.remove he hl hholds _⟩, ?_⟩
    have hperm := h.buffers_without he hl hholds (c.freed ++ [l.buf])
    unfold Cache.custody
    show ((c.freed ++ [l.buf]) ++ _).Perm _
    rw [List.append_assoc]
    exact (hperm.symm).append_left c.freed

/-- A `put` frees what it ejects, and stores its buffer. -/
theorem Cache.PutsLine.custody_perm {now : Timeval} {c₁ : Cache} (h : c.Books ht chains)
    (hputs : c.PutsLine now cid buf len c₁ c') : c'.custody.Perm (buf :: c.custody) := by
  -- the loop moves buffers by ejections only
  have hloop : (∃ ht chains, c₁.Books ht chains) ∧ c₁.custody.Perm c.custody := by
    refine @Cache.MakesRoom.preserves _
      (fun p => (∃ ht chains, p.Books ht chains) ∧ p.custody.Perm c.custody) _ _ _
      hputs.makesRoom ?_ ⟨⟨ht, chains, h⟩, .refl _⟩
    rintro p q heject ⟨⟨htp, chainsp, hp⟩, hperm⟩
    obtain ⟨hbooks, hq⟩ := custody_eject hp heject
    exact ⟨hbooks, hq.trans hperm⟩
  -- then the line is stored with its buffer
  obtain ⟨line, entry, ht₁, chains₁, ht', h₁, hline, hholds, rfl⟩ := hputs.stored
  have hstored := @Cache.Books.stored_withLine c₁ ht₁ ht' chains₁ ⟨cid, len, buf, now⟩ h₁ entry line
    hline hholds
  have hbuffers : (c₁.withLine ht' line ⟨cid, len, buf, now⟩).buffers.Perm (buf :: c₁.buffers) :=
    (storedLines_perm hstored rfl).map Cmpsc311CacheEntry.buf
  unfold Cache.custody at hloop ⊢
  exact (hbuffers.append_left c₁.freed).trans (List.perm_middle.trans (hloop.2.cons buf))

/-- Initialising the cache frees nothing. -/
theorem freed_initCmpsc311Cache {maxItems maxSize : UInt32} {ret : ℤ}
    (hinit : initCmpsc311Cache c maxItems maxSize = .ok (ret, c')) : c'.freed = c.freed := by
  unfold initCmpsc311Cache at hinit
  split_ifs at hinit
  · rw [← (Prod.mk.inj (Except.ok.inj hinit)).2]
  · rw [← (Prod.mk.inj (Except.ok.inj hinit)).2]
  · rw [← (Prod.mk.inj (Except.ok.inj hinit)).2]
  · obtain ⟨ht, -, hinit⟩ := bind_eq_ok hinit
    rw [← (Prod.mk.inj (Except.ok.inj hinit)).2]

/-- Where nothing is stored, there are no buffers. -/
theorem buffers_of_nil (h : c.stored = []) : c.buffers = [] := by
  unfold Cache.buffers Cache.storedLines
  rw [h]
  rfl

/-- A closed cache has no table, and so no buffers. -/
theorem Cache.Closed.buffers_eq (h : c.Closed) : c.buffers = [] := by
  apply buffers_of_nil
  unfold Cache.stored
  rw [h.htable]

/-! ### The invariant -/

/-- What has been taken has been freed, given back, or is stored. -/
structure CacheCustody.Balanced (s : CacheCustody) : Prop where
  kept : s.cache.Kept
  owned : s.cache.Owned
  balance : s.taken.Perm (s.givenBack ++ s.cache.custody)

/-- The result of a call that goes well. -/
theorem toOption_eq_some {α : Type} {x : Except Fault α} {a : α} (h : x.toOption = some a) :
    x = .ok a := by
  cases x with
  | error fault => cases h
  | ok b => rw [Option.some.inj h]

/-- What a `put` does to the buffers: it takes its own if it succeeds, and nothing otherwise. -/
theorem put_custody (hkept : c.Kept) {line entry : Addr} {now : Timeval}
    (hmalloc : c.MallocReturns len line entry) {ret : ℤ}
    (hput : putCmpsc311Cache c line entry now cid buf len = .ok (ret, c')) :
    c'.custody.Perm ((if ret = 0 then [buf] else []) ++ c.custody) := by
  rcases hkept with ⟨ht, chains, h⟩ | h
  · rcases put_cases h hmalloc hput with ⟨rfl, rfl, -⟩ | ⟨rfl, -, c₁, hputs⟩
    · exact .refl _
    · exact hputs.custody_perm h
  · have hrefused : ¬ c.Accepts buf len := by
      intro haccepts
      exact absurd (h.initialized.symm.trans haccepts.1) (by decide)
    rw [putCmpsc311Cache_refused hrefused] at hput
    obtain ⟨rfl, rfl⟩ := Prod.mk.inj (Except.ok.inj hput)
    exact .refl _

/-- A `get` does nothing to the buffers. -/
theorem get_custody (hkept : c.Kept) {now : Timeval} {ret : BufPtr}
    (hget : getCmpsc311Cache c now cid = .ok (ret, c')) : c'.custody = c.custody := by
  rcases hkept with ⟨ht, chains, h⟩ | h
  · rcases getCmpsc311Cache_books h now cid with ⟨-, hok⟩ | ⟨e, he, l, hl, -, hok⟩
    · rw [hok] at hget
      rw [(Prod.mk.inj (Except.ok.inj hget)).2]
    · rw [hok] at hget
      rw [← (Prod.mk.inj (Except.ok.inj hget)).2]
      unfold Cache.custody
      rw [h.buffers_renewed he hl now]
      rfl
  · unfold getCmpsc311Cache at hget
    rw [h.initialized] at hget
    rw [(Prod.mk.inj (Except.ok.inj hget)).2]

/-- A `delete` gives the buffer back, if the identifier has a line, and changes nothing if it has
    none. -/
theorem delete_custody (hkept : c.Kept) {ret : BufPtr}
    (hdelete : deleteCmpsc311Cache c cid = .ok (ret, c')) :
    (ret = none ∧ c' = c) ∨ ret ≠ none ∧ (ret :: c'.custody).Perm c.custody := by
  rcases hkept with ⟨ht, chains, h⟩ | h
  · rcases deleteCmpsc311Cache_books h cid with ⟨-, hok⟩ | ⟨e, he, l, ht', hl, -, hholds, hok⟩
    · rw [hok] at hdelete
      obtain ⟨rfl, rfl⟩ := Prod.mk.inj (Except.ok.inj hdelete)
      exact .inl ⟨rfl, rfl⟩
    · rw [hok] at hdelete
      obtain ⟨rfl, rfl⟩ := Prod.mk.inj (Except.ok.inj hdelete)
      refine .inr ⟨hl.buf, ?_⟩
      have hperm := h.buffers_without he hl hholds c.freed
      unfold Cache.custody
      exact List.perm_middle.symm.trans (hperm.symm.append_left c.freed)
  · unfold deleteCmpsc311Cache at hdelete
    rw [h.initialized] at hdelete
    obtain ⟨rfl, rfl⟩ := Prod.mk.inj (Except.ok.inj hdelete)
    exact .inl ⟨rfl, rfl⟩

/-- Initialising the cache does nothing to the buffers. -/
theorem init_custody (hkept : c.Kept) {maxItems maxSize : UInt32} {ret : ℤ}
    (hinit : initCmpsc311Cache c maxItems maxSize = .ok (ret, c')) : c'.custody = c.custody := by
  have hfreed := freed_initCmpsc311Cache hinit
  rcases hkept with ⟨ht, chains, h⟩ | h
  · -- a cache that is initialised already stays as it is
    unfold initCmpsc311Cache at hinit
    rw [h.initialized] at hinit
    rw [(Prod.mk.inj (Except.ok.inj hinit)).2]
  · rcases initCmpsc311Cache_books h.initialized maxItems maxSize with
      ⟨-, hrefused⟩ | ⟨c₁, hok, -, -, hnil, -⟩
    · rw [hrefused] at hinit
      rw [(Prod.mk.inj (Except.ok.inj hinit)).2]
    · rw [hok] at hinit
      obtain ⟨-, rfl⟩ := Prod.mk.inj (Except.ok.inj hinit)
      unfold Cache.custody
      rw [hfreed, buffers_of_nil hnil, h.buffers_eq]

/-- Closing the cache frees the buffers that are stored, each of them once. -/
theorem close_custody (hkept : c.Kept) (howned : c.Owned) {ret : ℤ}
    (hclose : closeCmpsc311Cache c = .ok (ret, c')) : c'.custody.Perm c.custody := by
  rcases hkept with ⟨ht, chains, h⟩ | h
  · obtain ⟨c₁, c₂, ht₁, bufs, hcloses⟩ := closesTo h howned
    rw [hcloses.close] at hclose
    obtain ⟨-, rfl⟩ := Prod.mk.inj (Except.ok.inj hclose)
    rw [hcloses.reset]
    unfold Cache.custody
    show ((c.freed ++ bufs ++ []) ++ []).Perm _
    rw [List.append_nil, List.append_nil]
    exact hcloses.buffers.append_left c.freed
  · unfold closeCmpsc311Cache at hclose
    rw [h.initialized] at hclose
    rw [(Prod.mk.inj (Except.ok.inj hclose)).2]

/-- What a call does to the buffers: what there was and what it takes is what it gives back and
    what there is then. -/
theorem perform_custody {op : CacheOp} {ret : CacheReturn} (hkept : c.Kept) (howned : c.Owned)
    (hperform : c.perform op = some (ret, c')) :
    (op.givesBack ret ++ c'.custody).Perm (op.takes ret ++ c.custody) := by
  cases op with
  | init maxItems maxSize =>
    obtain ⟨out, hout, hret⟩ := Option.map_eq_some_iff.mp hperform
    obtain ⟨rfl, rfl⟩ := Prod.mk.inj hret
    exact .of_eq (init_custody hkept (toOption_eq_some hout))
  | close =>
    obtain ⟨out, hout, hret⟩ := Option.map_eq_some_iff.mp hperform
    obtain ⟨rfl, rfl⟩ := Prod.mk.inj hret
    exact close_custody hkept howned (toOption_eq_some hout)
  | call call =>
    cases call with
    | put line entry now cid buf len =>
      unfold Cache.perform at hperform
      dsimp only at hperform
      split_ifs at hperform with hmalloc
      obtain ⟨⟨code, c₂⟩, hout, hret⟩ := Option.map_eq_some_iff.mp hperform
      obtain ⟨rfl, rfl⟩ := Prod.mk.inj hret
      exact put_custody hkept hmalloc (toOption_eq_some hout)
    | get now cid =>
      obtain ⟨out, hout, hret⟩ := Option.map_eq_some_iff.mp hperform
      obtain ⟨rfl, rfl⟩ := Prod.mk.inj hret
      exact .of_eq (get_custody hkept (toOption_eq_some hout))
    | delete cid =>
      obtain ⟨⟨buf, c₂⟩, hout, hret⟩ := Option.map_eq_some_iff.mp hperform
      obtain ⟨rfl, rfl⟩ := Prod.mk.inj hret
      rcases delete_custody hkept (toOption_eq_some hout) with ⟨rfl, rfl⟩ | ⟨hne, hperm⟩
      · exact .refl _
      · obtain ⟨b, rfl⟩ := Option.ne_none_iff_exists'.mp hne
        exact hperm

/-- **Step lemma.**  The balance of a call is added to the balance so far. -/
theorem CacheCustody.balanced_step : cacheCustody.Invariant CacheCustody.Balanced := by
  intro s op s' h hstep
  obtain ⟨⟨ret, c'⟩, hperform, rfl⟩ := Option.map_eq_some_iff.mp hstep
  have hlife : cacheLife.act s.cache op = some c' := by
    rw [act_eq_perform, hperform]
    rfl
  obtain ⟨hkept, howned⟩ := Cache.owned_step ⟨h.kept, h.owned⟩ hlife
  refine ⟨hkept, howned, ?_⟩
  have hperm := perform_custody h.kept h.owned hperform
  -- what the call takes comes on the one side, and where it goes on the other
  show (s.taken ++ op.takes ret).Perm ((s.givenBack ++ op.givesBack ret) ++ c'.custody)
  rw [List.append_assoc]
  refine (h.balance.append_right _).trans ?_
  rw [List.append_assoc]
  refine List.Perm.append_left _ (List.perm_append_comm.trans hperm.symm)

/-- **The buffers are conserved.**  In every state of every life of the cache, the buffers it has
    taken are those it has freed, those it has given back, and those it stores, each as many times;
    a closed cache stores none, and keeps no line.  If no buffer has been put twice, none has been
    freed twice, and what a `get` returns has been neither freed nor given back. -/
theorem buffers_conserved {ops : List CacheOp} {s : CacheCustody}
    (hrun : cacheCustody.run ops .start = some s) :
    s.taken.Perm (s.givenBack ++ (s.cache.freed ++ s.cache.buffers)) ∧
    (s.cache.initialized = false → s.cache.buffers = [] ∧ s.cache.lines = ∅) ∧
    (s.taken.Nodup → s.cache.freed.Nodup ∧ (∀ b ∈ s.cache.freed, b ∉ s.givenBack) ∧
      ∀ now cid b c', getCmpsc311Cache s.cache now cid = .ok (some b, c') →
        some b ∉ s.cache.freed ∧ some b ∉ s.givenBack) := by
  have hstart : CacheCustody.start.Balanced :=
    ⟨.inr ⟨rfl, rfl, rfl, rfl, rfl, rfl⟩, owned_of_empty rfl, .refl _⟩
  have h := CacheCustody.balanced_step.run hstart hrun
  refine ⟨h.balance, ?_, ?_⟩
  · intro hclosed
    rcases h.kept with ⟨ht, chains, hbooks⟩ | hc
    · exact absurd (hclosed.symm.trans hbooks.initialized) (by decide)
    · exact ⟨hc.buffers_eq, hc.lines_eq_empty h.owned⟩
  · intro hnodup
    have hall := h.balance.nodup_iff.mp hnodup
    obtain ⟨-, hcustody, hback⟩ := List.nodup_append'.mp hall
    -- no buffer is in two of the three lists
    obtain ⟨hfreed, -, hstored⟩ := List.nodup_append'.mp hcustody
    refine ⟨hfreed, fun b hb hgiven => ?_, fun now cid b c' hget => ?_⟩
    · exact hback hgiven (List.mem_append_left _ hb)
    · have hmem : some b ∈ s.cache.buffers := by
        rcases h.kept with ⟨ht, chains, hbooks⟩ | hc
        · rcases getCmpsc311Cache_books hbooks now cid with ⟨-, hok⟩ | ⟨e, he, l, hl, -, hok⟩
          · rw [hok] at hget
            cases (Prod.mk.inj (Except.ok.inj hget)).1
          · rw [hok] at hget
            rw [← (Prod.mk.inj (Except.ok.inj hget)).1]
            exact List.mem_map_of_mem (hbooks.mem_storedLines.mpr ⟨e, he, hl⟩)
        · unfold getCmpsc311Cache at hget
          rw [hc.initialized] at hget
          cases (Prod.mk.inj (Except.ok.inj hget)).1
      exact ⟨fun hb => hstored hb hmem, fun hb => hback hb (List.mem_append_right _ hmem)⟩

/-- After an ejection, a `delete` and the end, each of three buffers has gone one way. -/
theorem buffers_conserved_calls : ∃ s,
    cacheCustody.run (cacheLifeCalls ++ [.close]) .start = some s ∧ s.taken.Nodup ∧
      s.cache.buffers = [] ∧
      s.taken.Perm (s.givenBack ++ (s.cache.freed ++ s.cache.buffers)) := by
  have hsome : ((cacheCustody.run (cacheLifeCalls ++ [.close]) .start).any fun s =>
      decide (s.taken.Nodup ∧ s.cache.initialized = false)) = true := by
    decide +kernel
  obtain ⟨s, hrun, hs⟩ := (Option.any_eq_true _ _).mp hsome
  obtain ⟨hnodup, hclosed⟩ := of_decide_eq_true hs
  have hall := buffers_conserved hrun
  exact ⟨s, hrun, hnodup, (hall.2.1 hclosed).1, hall.1⟩

end NetworkExperiment
