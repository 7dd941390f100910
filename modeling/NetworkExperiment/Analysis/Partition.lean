import NetworkExperiment.Analysis.ClientTimes

namespace NetworkExperiment

open LastEvents

/-!
# The samples are neither lost nor doubled

* `sample` — the sample of an `END` line, by the `START` lines in front of it;
* `WellTimed` — a log whose `START` and `END` lines carry positive numbers;
* `sort_append` — the samples in front of the control sequence and those behind are all samples;
* `parse_partition` — the parser returns, and its lists are such a sorting of the samples.
-/

/-- The time of the first `START` line. -/
def origin (fl : ℚ → ℚ) (past : List (List Char)) : ℚ :=
  ((past.find? (IsStart ·)).map (timeOf fl)).getD 0

/-- The sample of an `END` line: when its request started, counted from the first `START` line, and
    how long it took; exactly so where `fl` is `id`. -/
def sample (fl : ℚ → ℚ) (x : List (List Char) × List Char) : Datapt :=
  (fl (fl (startTime fl x.1 - origin fl x.1) / 10 ^ 9), fl (timeOf fl x.2 - startTime fl x.1))

/-- Every `START` and `END` line carries a positive number, and every `END` line has a `START` line
    in front of it. -/
structure WellTimed (ls : List (List Char)) : Prop where
  number : ∀ line ∈ ls, IsStart line ∨ IsEnd line → ∃ t, number line = some t ∧ 0 < t
  paired : ∀ x ∈ occurrences IsEnd ls, ∃ line ∈ x.1, IsStart line

variable {fl : ℚ → ℚ} {ls past : List (List Char)}

/-- Such a log can be parsed. -/
theorem WellTimed.wellFormed (h : WellTimed ls) : WellFormed ls where
  number := fun line hline hkind => (h.number line hline hkind).imp fun _ ht => ht.1
  paired := h.paired

/-- With positive times none is passed over, so the first `START` line gives the first time. -/
theorem firstTime_eq (h : ∀ line ∈ past, IsStart line → timeOf fl line ≠ 0) :
    firstTime fl past = origin fl past := by
  induction past with
  | nil => rfl
  | cons line past ih =>
    unfold firstTime origin
    by_cases hstart : IsStart line
    · have htime := h line List.mem_cons_self hstart
      rw [List.filter_cons_of_pos (by simpa using hstart), List.map_cons,
        List.find?_cons_of_pos (by simpa using htime),
        List.find?_cons_of_pos (by simpa using hstart)]
      rfl
    · rw [List.filter_cons_of_neg (by simpa using hstart),
        List.find?_cons_of_neg (by simpa using hstart)]
      exact ih fun l hl => h l (List.mem_cons_of_mem _ hl)

/-- The samples of the log, where no positive number is rounded to 0. -/
theorem WellTimed.sampleOf_eq (h : WellTimed ls) (hfl : ∀ t, 0 < t → fl t ≠ 0) :
    ∀ x ∈ occurrences IsEnd ls, sampleOf fl x = sample fl x := by
  intro x hx
  obtain ⟨-, rest, hsplit⟩ := mem_occurrences.mp hx
  unfold sampleOf sample
  rw [firstTime_eq]
  intro line hline hstart
  -- what is in front of the `END` line is in the log
  have hmem : line ∈ ls := hsplit ▸ List.mem_append_left _ hline
  obtain ⟨t, ht, hpos⟩ := h.number line hmem (.inl hstart)
  rw [timeOf_eq ht]
  exact hfl t hpos

/-- Once the control sequence has begun, it goes on. -/
theorem inControl_pairwise (ls : List (List Char)) :
    (occurrences IsEnd ls).Pairwise fun x y => InControl x.1 → InControl y.1 := by
  apply (occurrences_pairwise IsEnd ls).imp
  intro x y hxy hx
  obtain ⟨line, hline, hcontrol⟩ := hx
  exact ⟨line, hxy.subset hline, hcontrol⟩

/-- The samples in front of the control sequence, and then those behind its beginning: together
    they are all samples in their order. -/
theorem sort_append (fl : ℚ → ℚ) (ls : List (List Char)) :
    (ClientTimes.sort fl (occurrences IsEnd ls)).rtts ++
      (ClientTimes.sort fl (occurrences IsEnd ls)).ctrlRtts
        = (occurrences IsEnd ls).map (sampleOf fl) := by
  unfold ClientTimes.sort
  dsimp only
  rw [← List.map_append, filter_append_filter (inControl_pairwise ls)]

/-- **A lossless ordered partition.**  With times as exact numbers, the parser returns; its loop
    reads line after line until the empty one.  Its `rtts` and `ctrl_rtts` are the samples of all
    `END` lines in the order of the log, cut at the first `FLOODER_CONTROL` line, and each of the
    two is put together from its samples with the flooder and without it. -/
theorem parse_partition (times : List Char) (h : WellTimed (lines times)) :
    (∀ s rest, parseLoop id s rest = if (readline rest).1 = [] then .ok s
      else parseLine id s (readline rest).1 >>= fun s => parseLoop id s (readline rest).2) ∧
    ∃ r, parseClientTimes id times = .ok r ∧
      Parser.parse id times = .ok ⟨⟨r.rtts, r.rttsWFlooder, r.rttsWoFlooder⟩,
        ⟨r.ctrlRtts, r.ctrlRttsWFlooder, r.ctrlRttsWoFlooder⟩⟩ ∧
      r.rtts ++ r.ctrlRtts = (occurrences IsEnd (lines times)).map (sample id) ∧
      Interleaving r.rttsWFlooder r.rttsWoFlooder r.rtts ∧
      Interleaving r.ctrlRttsWFlooder r.ctrlRttsWoFlooder r.ctrlRtts ∧
      r.rtts = ((occurrences IsEnd (lines times)).filter fun x =>
        ¬ ∃ line ∈ x.1, IsControl line).map (sample id) ∧
      r.ctrlRtts = ((occurrences IsEnd (lines times)).filter fun x =>
        ∃ line ∈ x.1, IsControl line).map (sample id) := by
  have hparse := parseClientTimes_eq id h.wellFormed
  have hexact := @WellTimed.sampleOf_eq id _ h fun t ht => ht.ne'
  have hsample : ∀ P : List (List Char) × List Char → Bool,
      ((occurrences IsEnd (lines times)).filter P).map (sampleOf id)
        = ((occurrences IsEnd (lines times)).filter P).map (sample id) := fun P =>
    List.map_congr_left fun x hx => hexact x (List.mem_filter.mp hx).1
  refine ⟨parseLoop_eq id, _, hparse, ?_, ?_, ?_, ?_, hsample _, hsample _⟩
  · unfold Parser.parse
    rw [hparse]
    rfl
  · -- the samples are sorted by one condition, which stays met
    rw [sort_append]
    exact List.map_congr_left hexact
  · exact (interleaving_filter_and (fun x => ¬ InControl x.1) (fun x => FlooderOn x.1) _).map
      (sampleOf id)
  · exact (interleaving_filter_and (fun x => InControl x.1) (fun x => FlooderOn x.1) _).map
      (sampleOf id)

/-- A log whose second request ends twice, the second time behind the beginning of control. -/
def shortLog : List Char :=
  ("START: 1000000000\nEND: 1000000500\nFLOODER_START\nSTART: 2000000000\nFLOODER_END\n" ++
    "END: 2000000700\nFLOODER_CONTROL\nEND: 2000000800\n").toList

/-- Three samples, the last one of which belongs to control. -/
theorem parse_partition_short : ∃ r, parseClientTimes id shortLog = .ok r ∧
    r.rtts ++ r.ctrlRtts = [(0, 500), (1, 700), (1, 800)] ∧
    Interleaving r.rttsWFlooder r.rttsWoFlooder r.rtts := by
  have hnumber : ∀ line ∈ lines shortLog, IsStart line ∨ IsEnd line →
      (number line).any (fun t => decide (0 < t)) = true := by decide +kernel
  have hwell : WellTimed (lines shortLog) := by
    refine ⟨?_, by decide +kernel⟩
    intro line hline hkind
    obtain ⟨t, ht, hpos⟩ := (Option.any_eq_true _ _).mp (hnumber line hline hkind)
    exact ⟨t, ht, of_decide_eq_true hpos⟩
  obtain ⟨-, r, hr, -, hall, hrtts, -⟩ := parse_partition shortLog hwell
  refine ⟨r, hr, hall.trans ?_, hrtts⟩
  decide +kernel

end NetworkExperiment
