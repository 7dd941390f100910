import NetworkExperiment.Analysis.ClientLog
import NetworkExperiment.Client.FlooderMarkers

namespace NetworkExperiment

open ActionSystems ByteBuffers DescriptorTables LastEvents

/-!
# The client's log can be parsed

The client writes an `END` line only behind a `START` line:

* `MainThread.Timing` — between `log_request_start` and `log_request_end`;
* `ClientProcess.RequestsPaired` — the invariant;
* `paired_of_run` — the log of every run of the client is `Paired`, as the parser needs it.
-/

/-- The `START` line of a message has been written, and its `END` line has not. -/
def ClientPc.Timing : ClientPc → Prop
  | .readBlock | .sendAck _ | .logEnd _ => True
  | _ => False

/-- The main thread times a message. -/
def MainThread.Timing : MainThread → Prop
  | .request _ thread => thread.pc.Timing
  | _ => False

namespace ClientProcess

variable {p p' : ClientProcess} {sock : Fd} {thread : ClientThread} {r : CallResult}
  {a : ClientAction} {line : LogLine}

/-- What a step of the main thread writes, and whether it times a message before and behind it. -/
inductive Writes (p p' : ClientProcess) : Prop
  /-- It writes nothing, and it does not begin to time a message. -/
  | nothing (hlog : p'.log = p.log) (htiming : p'.main.Timing → p.main.Timing)
  | requestStart (nsec : ℤ) (hlog : p'.log = p.log ++ [.requestStart nsec])
  | requestEnd (nsec : ℤ) (hlog : p'.log = p.log ++ [.requestEnd nsec])
      (htiming : p.main.Timing) (htimed : ¬ p'.main.Timing)

/-- While a request goes on, a line reaches the log. -/
theorem writeLog_log (h : p.FilesAt p.main) (hmain : p.main = .request sock thread) :
    (p.writeLog line).log = p.log ++ [line] := by
  have hopen : p.timingFile = some .timingLog := by
    rw [timingFile_iff h, hmain]
    trivial
  unfold writeLog
  rw [if_pos hopen]

/-- Behind a call of `client_send_request` a message is timed if the thread is in front of a call
    that says so. -/
theorem timing_goOn (h : (p.goOn sock thread).main.Timing) : thread.pc.Timing := by
  unfold goOn at h
  split at h
  · exact h
  · exact h.elim
  · exact h.elim
  · exact h

/-- What a call of `client_send_request` writes. -/
theorem writes_requestStep (h : p.FilesAt p.main) (hmain : p.main = .request sock thread)
    (hstep : p.requestStep sock thread r = some p') : p.Writes p' := by
  -- a call that writes nothing, in front of the call at `pc'`
  have hsilent : ∀ (q : ClientProcess) (thread' : ClientThread), q.log = p.log →
      (thread'.pc.Timing → thread.pc.Timing) → p.Writes (q.goOn sock thread') := by
    intro q thread' hlog htiming
    refine .nothing (by rw [goOn_log, hlog]) fun htimed => ?_
    rw [hmain]
    exact htiming (timing_goOn htimed)
  unfold requestStep at hstep
  split at hstep
  case h_1 hpc =>
    obtain rfl := Option.some.inj hstep
    exact hsilent _ _ rfl False.elim
  case h_2 buffer hpc =>
    obtain rfl := Option.some.inj hstep
    apply hsilent _ _ rfl
    rcases thread.afterReadAck_pc buffer with hnext | hnext <;> simp [hnext, ClientPc.Timing]
  case h_3 nsec hpc =>
    obtain rfl := Option.some.inj hstep
    exact .requestStart nsec (by rw [goOn_log, writeLog_log h hmain])
  case h_4 buffer hpc =>
    obtain rfl := Option.some.inj hstep
    exact hsilent _ _ rfl fun _ => by rw [hpc]; trivial
  case h_5 last hpc =>
    obtain rfl := Option.some.inj hstep
    exact hsilent _ _ rfl fun _ => by rw [hpc]; trivial
  case h_6 last nsec hpc =>
    obtain rfl := Option.some.inj hstep
    refine .requestEnd nsec (by rw [goOn_log, writeLog_log h hmain]) ?_ ?_
    · rw [hmain]
      show thread.pc.Timing
      rw [hpc]
      trivial
    · exact fun htimed => timing_goOn htimed
  case h_7 last hpc =>
    obtain rfl := Option.some.inj hstep
    apply hsilent _ _ (updateRequestCounter_log p)
    rcases thread.afterUpdate_pc last with hnext | hnext <;> simp [hnext, ClientPc.Timing]
  case h_8 hpc =>
    obtain rfl := Option.some.inj hstep
    exact hsilent _ _ rfl False.elim
  case h_9 hpc =>
    obtain rfl := Option.some.inj hstep
    exact hsilent _ _ (closeLog_log p) False.elim
  case h_10 => exact Option.some.inj hstep ▸ .nothing rfl id
  case h_11 => exact Option.some.inj hstep ▸ .nothing rfl id
  case h_12 => exact absurd hstep (by simp)

/-- What a call of the main thread writes. -/
theorem writes_mainStep (h : p.FilesAt p.main) (hstep : p.mainStep r = some p') :
    p.Writes p' := by
  unfold mainStep at hstep
  split at hstep
  case h_1 =>
    obtain rfl := Option.some.inj hstep
    refine .nothing rfl ?_
    dsimp only
    split <;> exact False.elim
  case h_8 sock thread hmain => exact writes_requestStep h hmain hstep
  case h_9 =>
    obtain rfl := Option.some.inj hstep
    exact .nothing rfl id
  case h_10 => exact absurd hstep (by simp)
  all_goals
    obtain rfl := Option.some.inj hstep
    exact .nothing rfl False.elim

/-- The listener writes markers. -/
theorem listenerStep_log (hstep : p.listenerStep a = some p') :
    p'.main = p.main ∧ p'.table = p.table ∧ p'.timingLogfh = p.timingLogfh ∧
      (p'.log = p.log ∨ ∃ marker, p'.log = p.log ++ [.flooder marker]) := by
  unfold listenerStep at hstep
  split at hstep
  case h_1 =>
    obtain rfl := Option.some.inj hstep
    exact ⟨rfl, rfl, rfl, .inl rfl⟩
  case h_2 =>
    split at hstep
    case h_1 =>
      obtain rfl := Option.some.inj hstep
      exact ⟨rfl, rfl, rfl, .inl rfl⟩
    case h_2 =>
      obtain rfl := Option.some.inj hstep
      exact ⟨rfl, rfl, rfl, .inl rfl⟩
  case h_3 marker hwrite =>
    obtain rfl := Option.some.inj hstep
    refine ⟨writeLog_main .., writeLog_table .., writeLog_timingLogfh .., ?_⟩
    show (p.writeLog (.flooder marker)).log = _ ∨ _
    unfold writeLog
    split
    · exact .inr ⟨marker, rfl⟩
    · exact .inl rfl
  case h_4 =>
    obtain rfl := Option.some.inj hstep
    exact ⟨rfl, rfl, rfl, .inl rfl⟩
  case h_5 => exact absurd hstep (by simp)

/-! ### Every run -/

/-- The requests are paired, and the one that is being timed has its `START` line in the log. -/
structure RequestsPaired (p : ClientProcess) : Prop where
  files : p.FilesAt p.main
  started : p.main.Timing → ∃ line ∈ p.log, line.IsRequestStart
  paired : Paired p.log

/-- A line that ends no request keeps them paired. -/
theorem paired_concat {log : List LogLine} (h : Paired log) (hline : ¬ line.IsRequestEnd) :
    Paired (log ++ [line]) :=
  forall_occurrences_concat.mpr ⟨h, fun hend => absurd hend hline⟩

/-- A step keeps the requests paired. -/
theorem requestsPaired_step : clientProcess.Invariant RequestsPaired := by
  intro p a p' h hact
  have hkept : ∀ line, (∃ l ∈ p.log, l.IsRequestStart) →
      ∃ l ∈ p.log ++ [line], l.IsRequestStart := fun line hsome =>
    hsome.imp fun _ hl => ⟨List.mem_append_left _ hl.1, hl.2⟩
  cases a with
  | main r =>
    obtain ⟨-, hstep⟩ := act_main hact
    refine ⟨filesAt_mainStep h.files hstep, ?_, ?_⟩
    · intro htimed
      cases writes_mainStep h.files hstep with
      | nothing hlog htiming =>
        rw [hlog]
        exact h.started (htiming htimed)
      | requestStart nsec hlog =>
        rw [hlog]
        exact ⟨_, List.mem_append_right _ List.mem_cons_self, trivial⟩
      | requestEnd nsec hlog htiming hover => exact absurd htimed hover
    · cases writes_mainStep h.files hstep with
      | nothing hlog htiming =>
        rw [hlog]
        exact h.paired
      | requestStart nsec hlog =>
        rw [hlog]
        exact paired_concat h.paired not_false
      | requestEnd nsec hlog htiming hover =>
        -- the `START` line of this message is in the log
        rw [hlog]
        exact forall_occurrences_concat.mpr ⟨h.paired, fun _ => h.started htiming⟩
  | hear msg | write | setState =>
    obtain ⟨hmain, htable, htiming, hlog⟩ :=
      listenerStep_log (act_listener hact (by simp)).2
    have hfiles : p'.FilesAt p'.main := by
      rw [hmain]
      exact h.files.congr htable htiming
    rcases hlog with hlog | ⟨marker, hlog⟩
    · exact ⟨hfiles, by rw [hmain, hlog]; exact h.started, by rw [hlog]; exact h.paired⟩
    · refine ⟨hfiles, ?_, ?_⟩
      · rw [hmain, hlog]
        exact fun htimed => hkept _ (h.started htimed)
      · rw [hlog]
        exact paired_concat h.paired not_false

end ClientProcess

open ClientProcess

/-- **The requests of the client.**  In every run each `END` line of the log has a `START` line in
    front of it. -/
theorem paired_of_run {withLogFile : Bool} {as : List ClientAction} {p : ClientProcess}
    (hrun : clientProcess.run as (.start withLogFile) = some p) : Paired p.log := by
  have hstart : RequestsPaired (.start withLogFile) :=
    ⟨(tracked_start withLogFile).files, False.elim, fun _ hx => absurd hx List.not_mem_nil⟩
  exact (requestsPaired_step.run hstart hrun).paired

end NetworkExperiment
