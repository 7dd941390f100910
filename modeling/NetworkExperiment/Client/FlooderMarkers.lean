import NetworkExperiment.Client.Process

namespace NetworkExperiment

open ActionSystems ByteBuffers DescriptorTables

/-!
# The flooder's markers in the timing log

The listener writes through a descriptor that the main thread opens and closes once for each
request:

* `ClientProcess.FilesAt` — between `open` and `close` exactly `timing_logfh` refers to the log,
  and at all other times no descriptor does;
* `ClientProcess.NoneLost` — every marker due is in the log, once and in order;
* `WritesWhileOpen` — a step is no write of the listener outside a request;
* `no_marker_lost_iff` — in every run no marker is lost if and only if all its steps are such.
-/

/-- The marker on a line. -/
def LogLine.marker : LogLine → Option FlooderMarker
  | .flooder marker => some marker
  | _ => none

/-- The marker that the listener has read and is about to write. -/
def Listener.pending : Listener → List FlooderMarker
  | .write marker => [marker]
  | _ => []

/-- The main thread is between the `open` of the timing log and its `close`. -/
def MainThread.LogOpen : MainThread → Prop
  | .request _ _ => True
  | _ => False

instance : DecidablePred MainThread.LogOpen
  | .request _ _ => .isTrue trivial
  | .loopTest | .socket | .connect _ | .openLog _ | .returned _ => .isFalse not_false

namespace ClientProcess

variable {p p' : ClientProcess} {sock : Fd} {thread : ClientThread} {r : CallResult}

/-! ### The descriptor of the log -/

/-- No descriptor refers to the timing log: the main thread is outside of a request. -/
def NoLog (p : ClientProcess) : Prop := ∀ fd, p.table.file fd ≠ some .timingLog

/-- `timing_logfh` refers to the timing log, and no other descriptor does. -/
def LogAt (p : ClientProcess) : Prop :=
  ∃ fd, p.timingLogfh = some fd ∧ ∀ fd', p.table.file fd' = some .timingLog ↔ fd' = fd

/-- The descriptors, by where the main thread is.  `close(timing_logfh)` is the last call of a
    request. -/
def FilesAt (p : ClientProcess) : MainThread → Prop
  | .loopTest | .socket | .returned _ => p.NoLog
  | .connect sock | .openLog sock => p.NoLog ∧ p.table.file sock = some .socketfh
  | .request sock thread =>
      p.LogAt ∧ (thread.pc ≠ .closeLog → p.table.file sock = some .socketfh)

/-- The condition on the descriptors concerns the table and `timing_logfh` only. -/
theorem FilesAt.congr {main : MainThread} (h : p.FilesAt main) (htable : p'.table = p.table)
    (htiming : p'.timingLogfh = p.timingLogfh) : p'.FilesAt main := by
  unfold FilesAt LogAt NoLog at *
  rw [htable, htiming]
  exact h

/-- A new descriptor for anything else is not one for the log. -/
theorem NoLog.insert (h : p.NoLog) {x : ClientFile} (hx : x ≠ .timingLog) (fd : ℕ) :
    (p.table.insert x).file fd ≠ some .timingLog := by
  by_cases hfd : fd = p.table.lowest
  · rw [hfd, file_insert_self]
    simpa using hx
  · rw [file_insert_of_ne hfd]
    exact h fd

/-- After `open`, exactly the new descriptor refers to the log: the lowest that was free. -/
theorem NoLog.insert_timingLog (h : p.NoLog) (fd : ℕ) :
    (p.table.insert .timingLog).file fd = some .timingLog ↔ fd = p.table.lowest := by
  by_cases hfd : fd = p.table.lowest
  · rw [hfd, file_insert_self]
    simp
  · rw [file_insert_of_ne hfd]
    simp [hfd, h fd]

/-- After `close(timing_logfh)` no descriptor refers to the log. -/
theorem LogAt.closeLog (h : p.LogAt) : p.closeLog.NoLog := by
  obtain ⟨fd, htiming, honly⟩ := h
  intro fd'
  unfold ClientProcess.closeLog
  rw [htiming]
  show (p.table.close fd).file fd' ≠ some .timingLog
  by_cases hfd : fd' = fd
  · rw [hfd, file_close_self]
    simp
  · rw [file_close_of_ne hfd]
    exact fun hlog => hfd ((honly fd').mp hlog)

/-- Closing the connection does not close the log, as the two have different descriptors. -/
theorem LogAt.close (h : p.LogAt) (hsock : p.table.file sock = some .socketfh) :
    { p with table := p.table.close sock : ClientProcess }.LogAt := by
  obtain ⟨fd, htiming, honly⟩ := h
  refine ⟨fd, htiming, ?_⟩
  intro fd'
  show (p.table.close sock).file fd' = some .timingLog ↔ fd' = fd
  by_cases hfd : fd' = sock
  · have hne : sock ≠ fd := by
      rintro rfl
      rw [(honly sock).mpr rfl] at hsock
      exact absurd hsock (by decide)
    rw [hfd, file_close_self]
    simp [hne]
  · rw [file_close_of_ne hfd]
    exact honly fd'

/-- While a request goes on, its socket and the log stay open, whatever the server sends. -/
theorem filesAt_goOn (hlog : p.LogAt) (hsock : p.table.file sock = some .socketfh)
    (hpc : thread.pc ≠ .returned ∧ thread.pc ≠ .illegalType) :
    (p.goOn sock thread).FilesAt (p.goOn sock thread).main := by
  rw [goOn_main p sock thread hpc.1 hpc.2]
  unfold FilesAt LogAt
  rw [goOn_table, goOn_timingLogfh]
  exact ⟨hlog, fun _ => hsock⟩

/-- A call of `client_send_request` keeps the descriptors. -/
theorem filesAt_requestStep (h : p.FilesAt (.request sock thread))
    (hmain : p.main = .request sock thread) (hstep : p.requestStep sock thread r = some p') :
    p'.FilesAt p'.main := by
  obtain ⟨hlog, hsock⟩ := h
  have hkilled : { p with exited := true : ClientProcess }.FilesAt p.main := by
    rw [hmain]
    exact ⟨hlog, hsock⟩
  unfold requestStep at hstep
  split at hstep
  case h_1 hpc =>
    obtain rfl := Option.some.inj hstep
    exact filesAt_goOn hlog (hsock (by simp [hpc])) (by simp [ClientThread.afterSendRequest])
  case h_2 buffer hpc =>
    obtain rfl := Option.some.inj hstep
    apply filesAt_goOn hlog (hsock (by simp [hpc]))
    rcases thread.afterReadAck_pc buffer with hnext | hnext <;> simp [hnext]
  case h_3 nsec hpc =>
    obtain rfl := Option.some.inj hstep
    apply filesAt_goOn
    · unfold LogAt
      rwa [writeLog_table, writeLog_timingLogfh]
    · rw [writeLog_table]
      exact hsock (by simp [hpc])
    · simp [ClientThread.afterLogStart]
  case h_4 buffer hpc =>
    obtain rfl := Option.some.inj hstep
    apply filesAt_goOn hlog (hsock (by simp [hpc]))
    rcases thread.afterReadBlock_pc buffer with ⟨last, hnext⟩ | hnext <;> simp [hnext]
  case h_5 last hpc =>
    obtain rfl := Option.some.inj hstep
    exact filesAt_goOn hlog (hsock (by simp [hpc])) (by simp [ClientThread.afterSendAck])
  case h_6 last nsec hpc =>
    obtain rfl := Option.some.inj hstep
    apply filesAt_goOn
    · unfold LogAt
      rwa [writeLog_table, writeLog_timingLogfh]
    · rw [writeLog_table]
      exact hsock (by simp [hpc])
    · simp [ClientThread.afterLogEnd]
  case h_7 last hpc =>
    obtain rfl := Option.some.inj hstep
    apply filesAt_goOn
    · unfold LogAt
      rwa [updateRequestCounter_table, updateRequestCounter_timingLogfh]
    · rw [updateRequestCounter_table]
      exact hsock (by simp [hpc])
    · rcases thread.afterUpdate_pc last with hnext | hnext <;> simp [hnext]
  case h_8 hpc =>
    -- the socket is closed, and the log stays open
    obtain rfl := Option.some.inj hstep
    exact ⟨hlog.close (hsock (by simp [hpc])), fun hne => absurd rfl hne⟩
  case h_9 hpc =>
    -- the request is over
    obtain rfl := Option.some.inj hstep
    exact hlog.closeLog
  case h_10 => exact Option.some.inj hstep ▸ hkilled
  case h_11 => exact Option.some.inj hstep ▸ hkilled
  case h_12 => exact absurd hstep (by simp)

/-- A call of the main thread keeps the descriptors. -/
theorem filesAt_mainStep (h : p.FilesAt p.main) (hstep : p.mainStep r = some p') :
    p'.FilesAt p'.main := by
  unfold mainStep at hstep
  split at hstep
  case h_1 hmain =>
    rw [hmain] at h
    obtain rfl := Option.some.inj hstep
    by_cases htest : p.requestCounter ≥ 0
    · simp only [if_pos htest]
      exact h
    · simp only [if_neg htest]
      exact h
  case h_2 hmain =>
    rw [hmain] at h
    obtain rfl := Option.some.inj hstep
    exact ⟨fun fd => NoLog.insert h (by decide) fd, file_insert_self⟩
  case h_3 sock hmain =>
    rw [hmain] at h
    obtain rfl := Option.some.inj hstep
    exact h
  case h_4 sock garbage hmain =>
    rw [hmain] at h
    obtain rfl := Option.some.inj hstep
    refine ⟨⟨p.table.lowest, rfl, fun fd => NoLog.insert_timingLog h.1 fd⟩, fun _ => ?_⟩
    -- the socket is open, so the log gets another descriptor
    have hne : sock ≠ p.table.lowest := by
      intro heq
      have hsock := h.2
      rw [heq, file_lowest] at hsock
      exact absurd hsock (by simp)
    exact (file_insert_of_ne hne).trans h.2
  case h_5 hmain =>
    rw [hmain] at h
    obtain rfl := Option.some.inj hstep
    exact h
  case h_6 sock hmain =>
    rw [hmain] at h
    obtain rfl := Option.some.inj hstep
    exact h.1
  case h_7 sock hmain =>
    rw [hmain] at h
    obtain rfl := Option.some.inj hstep
    exact h.1
  case h_8 sock thread hmain =>
    rw [hmain] at h
    exact filesAt_requestStep h hmain hstep
  case h_9 ret hmain =>
    rw [hmain] at h
    obtain rfl := Option.some.inj hstep
    show ClientProcess.FilesAt _ p.main
    rw [hmain]
    exact h
  case h_10 => exact absurd hstep (by simp)

/-- `timing_logfh` refers to the log exactly while a request goes on. -/
theorem timingFile_iff (h : p.FilesAt p.main) :
    p.timingFile = some .timingLog ↔ p.main.LogOpen := by
  have hnone : p.NoLog → p.timingFile ≠ some .timingLog := by
    intro hno hfile
    obtain ⟨fd, -, hfd⟩ := Option.bind_eq_some_iff.mp hfile
    exact hno fd hfd
  unfold MainThread.LogOpen
  cases hmain : p.main with
  | request sock thread =>
    rw [hmain] at h
    obtain ⟨fd, htiming, honly⟩ := h.1
    unfold timingFile
    rw [htiming]
    exact iff_of_true ((honly fd).mpr rfl) trivial
  | loopTest | socket | returned ret =>
    rw [hmain] at h
    exact iff_of_false (hnone h) not_false
  | connect sock | openLog sock =>
    rw [hmain] at h
    exact iff_of_false (hnone h.1) not_false

/-! ### The markers -/

/-- The markers in the log. -/
def markers (p : ClientProcess) : List FlooderMarker := p.log.filterMap LogLine.marker

/-- Every marker due is in the log, once and in order, but for one that is about to be written.
    None is lost as long as this holds. -/
def NoneLost (p : ClientProcess) : Prop := p.markers ++ p.listener.pending = p.heard

/-- Once `flooder_state` is set, `FLOODER_CONTROL` is in the log. -/
def ControlLogged (p : ClientProcess) : Prop :=
  p.flooderState = true → .flooder .flooderControl ∈ p.log

instance : Decidable p.NoneLost := inferInstanceAs (Decidable (_ = _))
instance : Decidable p.ControlLogged := inferInstanceAs (Decidable (_ → _))

theorem mem_markers {marker : FlooderMarker} :
    marker ∈ p.markers ↔ .flooder marker ∈ p.log := by
  unfold markers
  rw [List.mem_filterMap]
  constructor
  · rintro ⟨line, hline, hmarker⟩
    cases line with
    | flooder m => exact Option.some.inj hmarker ▸ hline
    | requestStart nsec | requestEnd nsec => exact absurd hmarker (by simp [LogLine.marker])
  · intro hline
    exact ⟨_, hline, rfl⟩

/-- The lines of the main thread are no markers, so they may stand anywhere between them. -/
theorem markers_writeLog {line : LogLine} (hline : line.marker = none) :
    (p.writeLog line).markers = p.markers := by
  unfold writeLog markers
  split
  · simp [hline]
  · rfl

/-- The main thread leaves the listener, what it has read and its markers alone. -/
theorem mainStep_listener (hstep : p.mainStep r = some p') :
    p'.listener = p.listener ∧ p'.heard = p.heard ∧ p'.flooderState = p.flooderState ∧
      p'.markers = p.markers := by
  have hgoOn : ∀ q sock thread, (goOn q sock thread).markers = q.markers := by
    intro q sock thread
    unfold markers
    rw [goOn_log]
  unfold mainStep at hstep
  split at hstep
  case h_8 sock thread hmain =>
    unfold requestStep at hstep
    split at hstep
    case h_12 => exact absurd hstep (by simp)
    all_goals obtain rfl := Option.some.inj hstep
    case h_3 | h_6 =>
      exact ⟨by simp, by simp, by simp, (hgoOn ..).trans (markers_writeLog rfl)⟩
    all_goals simp [markers]
  case h_10 => exact absurd hstep (by simp)
  all_goals
    obtain rfl := Option.some.inj hstep
    exact ⟨rfl, rfl, rfl, rfl⟩

/-- A marker that is written reaches the log exactly while a request goes on; at other times its
    descriptor refers to another file or to none. -/
theorem markers_writeLog_flooder (h : p.FilesAt p.main) (marker : FlooderMarker) :
    (p.main.LogOpen → (p.writeLog (.flooder marker)).markers = p.markers ++ [marker]) ∧
      (¬ p.main.LogOpen → (p.writeLog (.flooder marker)).markers = p.markers) := by
  rw [← timingFile_iff h]
  unfold writeLog markers
  constructor
  · intro hopen
    rw [if_pos hopen]
    simp [LogLine.marker]
  · intro hclosed
    rw [if_neg hclosed]

/-! ### Every run -/

/-- If this step is a write of the listener, the main thread has the log open. -/
def WritesWhileOpen (p : ClientProcess) (a : ClientAction) : Prop := a = .write → p.main.LogOpen

instance (a : ClientAction) : Decidable (p.WritesWhileOpen a) :=
  inferInstanceAs (Decidable (_ → _))

/-- In a run from `p₀`, either all writes of the listener have found the log open and nothing is
    lost, or one has not and the log holds too few markers. -/
structure Tracked (p₀ : ClientProcess) (as : List ClientAction) (p : ClientProcess) : Prop where
  run : clientProcess.run as p₀ = some p
  files : p.FilesAt p.main
  kept : clientProcess.StepsMeet WritesWhileOpen as p₀ → p.NoneLost ∧
    (p.flooderState = true ∨ p.listener = .setState → .flooderControl ∈ p.markers)
  lost : ¬ clientProcess.StepsMeet WritesWhileOpen as p₀ →
    p.markers.length + p.listener.pending.length < p.heard.length

variable {p₀ : ClientProcess} {as : List ClientAction} {a : ClientAction}

/-- A step that is no write leaves the condition on the run as it is, as it meets it. -/
theorem stepsMeet_concat_of_ne (hrun : clientProcess.run as p₀ = some p) (ha : a ≠ .write) :
    clientProcess.StepsMeet WritesWhileOpen (as ++ [a]) p₀ ↔
      clientProcess.StepsMeet WritesWhileOpen as p₀ :=
  ActionSystem.stepsMeet_concat_of_met hrun fun hwrite => absurd hwrite ha

/-- A step of the main thread. -/
theorem Tracked.main (h : Tracked p₀ as p) (hact : clientProcess.act p (.main r) = some p')
    (hstep : p.mainStep r = some p') : Tracked p₀ (as ++ [.main r]) p' := by
  obtain ⟨hlistener, hheard, hstate, hmarkers⟩ := mainStep_listener hstep
  have hok := stepsMeet_concat_of_ne h.run (a := .main r) (by simp)
  refine ⟨clientProcess.run_concat_eq_some.mpr ⟨p, h.run, hact⟩,
    filesAt_mainStep h.files hstep, ?_, ?_⟩
  · rw [hok]
    unfold NoneLost
    rw [hlistener, hheard, hstate, hmarkers]
    exact h.kept
  · rw [hok, hlistener, hheard, hmarkers]
    exact h.lost

/-- A message is read that is due in the log. -/
theorem Tracked.hear {marker : FlooderMarker} (h : Tracked p₀ as p)
    (hrun : clientProcess.run (as ++ [a]) p₀ =
      some { p with listener := .write marker, heard := p.heard ++ [marker] })
    (ha : a ≠ .write) (hread : p.listener = .read) :
    Tracked p₀ (as ++ [a]) { p with listener := .write marker, heard := p.heard ++ [marker] } := by
  have hok := stepsMeet_concat_of_ne h.run ha
  refine ⟨hrun, h.files, ?_, ?_⟩
  · intro hmeet
    obtain ⟨hnone, hcontrol⟩ := h.kept (hok.mp hmeet)
    unfold NoneLost at hnone ⊢
    rw [hread] at hnone hcontrol
    simp only [Listener.pending, List.append_nil] at hnone ⊢
    refine ⟨by rw [← hnone]; rfl, ?_⟩
    rintro (hset | hset)
    · exact hcontrol (.inl hset)
    · exact absurd hset (by simp)
  · -- one more message, and one more that is pending
    intro hmeet
    have hlt := h.lost (hok.not.mp hmeet)
    rw [hread] at hlt
    simp only [Listener.pending, List.length_append, List.length_nil, List.length_singleton]
      at hlt ⊢
    exact Nat.add_lt_add_right hlt 1

/-- The pending marker is written; if the main thread has the log open, it is there. -/
theorem Tracked.write {marker : FlooderMarker} {listener : Listener} (h : Tracked p₀ as p)
    (hrun : clientProcess.run (as ++ [.write]) p₀ =
      some { p.writeLog (.flooder marker) with listener := listener })
    (hwrite : p.listener = .write marker) (hpending : listener.pending = [])
    (hset : listener = .setState → marker = .flooderControl) :
    Tracked p₀ (as ++ [.write])
      { p.writeLog (.flooder marker) with listener := listener } := by
  obtain ⟨hopen, hclosed⟩ := markers_writeLog_flooder h.files marker
  refine ⟨hrun, ?_, ?_, ?_⟩
  · show FilesAt _ (p.writeLog (.flooder marker)).main
    rw [writeLog_main]
    exact h.files.congr (writeLog_table ..) (writeLog_timingLogfh ..)
  · intro hmeet
    obtain ⟨hmeet, hok⟩ := (ActionSystem.stepsMeet_concat h.run).mp hmeet
    obtain ⟨hnone, hcontrol⟩ := h.kept hmeet
    have hmarkers := hopen (hok rfl)
    unfold NoneLost at hnone ⊢
    rw [hwrite] at hnone
    refine ⟨?_, ?_⟩
    · show (p.writeLog (.flooder marker)).markers ++ listener.pending
        = (p.writeLog (.flooder marker)).heard
      rw [hmarkers, hpending, List.append_nil, writeLog_heard]
      exact hnone
    · show (p.writeLog (.flooder marker)).flooderState = true ∨ listener = .setState →
        .flooderControl ∈ (p.writeLog (.flooder marker)).markers
      rw [hmarkers, writeLog_flooderState, List.mem_append, List.mem_singleton]
      rintro (hstate | hlistener)
      · exact .inl (hcontrol (.inl hstate))
      · exact .inr (hset hlistener).symm
  · intro hmeet
    show (p.writeLog (.flooder marker)).markers.length + listener.pending.length
      < (p.writeLog (.flooder marker)).heard.length
    rw [hpending, writeLog_heard, List.length_nil, Nat.add_zero]
    by_cases hbefore : clientProcess.StepsMeet WritesWhileOpen as p₀
    · -- this write is the first that does not find the log open
      have hnot : ¬ p.main.LogOpen := by
        intro hlog
        exact hmeet ((ActionSystem.stepsMeet_concat h.run).mpr ⟨hbefore, fun _ => hlog⟩)
      have hnone := (h.kept hbefore).1
      unfold NoneLost at hnone
      rw [hclosed hnot, ← hnone, hwrite]
      simp [Listener.pending]
    · -- one was lost before, and a write makes up for the one that was pending at most
      have hlt := h.lost hbefore
      rw [hwrite] at hlt
      simp only [Listener.pending, List.length_singleton] at hlt
      by_cases hlog : p.main.LogOpen
      · rw [hopen hlog, List.length_append, List.length_singleton]
        exact hlt
      · rw [hclosed hlog]
        omega

/-- A step of the listener. -/
theorem Tracked.listener (h : Tracked p₀ as p) (hact : clientProcess.act p a = some p')
    (hstep : p.listenerStep a = some p') : Tracked p₀ (as ++ [a]) p' := by
  have hrun := clientProcess.run_concat_eq_some.mpr ⟨p, h.run, hact⟩
  -- a message that is not due in the log, or none
  have hignored : a ≠ .write → p' = p → Tracked p₀ (as ++ [a]) p' := by
    rintro ha rfl
    have hok := stepsMeet_concat_of_ne h.run ha
    exact ⟨hrun, h.files, fun hmeet => h.kept (hok.mp hmeet),
      fun hmeet => h.lost (hok.not.mp hmeet)⟩
  unfold listenerStep at hstep
  split at hstep
  case h_1 => exact hignored (by simp) (Option.some.inj hstep).symm
  case h_2 msg hread =>
    split at hstep
    case h_1 marker hmarker =>
      obtain rfl := Option.some.inj hstep
      exact h.hear hrun (by simp) hread
    case h_2 => exact hignored (by simp) (Option.some.inj hstep).symm
  case h_3 marker hwrite =>
    obtain rfl := Option.some.inj hstep
    apply h.write hrun hwrite
    · split <;> rfl
    · intro hset
      by_contra hmarker
      rw [if_neg hmarker] at hset
      exact absurd hset (by simp)
  case h_4 hset =>
    have hok := stepsMeet_concat_of_ne h.run (a := .setState) (by simp)
    obtain rfl := Option.some.inj hstep
    refine ⟨hrun, h.files, ?_, ?_⟩
    · intro hmeet
      obtain ⟨hnone, hcontrol⟩ := h.kept (hok.mp hmeet)
      unfold NoneLost at hnone ⊢
      rw [hset] at hnone
      exact ⟨hnone, fun _ => hcontrol (.inr hset)⟩
    · intro hmeet
      have hlt := h.lost (hok.not.mp hmeet)
      rw [hset] at hlt
      exact hlt
  case h_5 => exact absurd hstep (by simp)

/-- The step of a run. -/
theorem tracked_step (p₀ : ClientProcess) : clientProcess.History (Tracked p₀) := by
  intro as p a p' h hact
  cases a with
  | main r => exact h.main hact (act_main hact).2
  | hear msg | write | setState => exact h.listener hact (act_listener hact (by simp)).2

/-- As `client_run` is called, only other files are open, and no marker has been read. -/
theorem tracked_start (withLogFile : Bool) :
    Tracked (.start withLogFile) [] (.start withLogFile) := by
  refine ⟨rfl, ?_, fun _ => ⟨rfl, by simp [start]⟩, fun hmeet => absurd trivial hmeet⟩
  intro fd hfd
  have hmem : ClientFile.timingLog ∈ (start withLogFile).table.openFiles :=
    mem_openFiles.mpr ⟨fd, hfd⟩
  cases withLogFile <;> exact absurd hmem (by decide)

end ClientProcess

open ClientProcess

/-- **The flooder's markers.**  In every run of the client, the markers due are in the timing log,
    once and in order, with `FLOODER_CONTROL` among them once `flooder_state` is set, if and only if
    every write of the listener fell between the `open` and the `close` of a request. -/
theorem no_marker_lost_iff (withLogFile : Bool) (as : List ClientAction) {p : ClientProcess}
    (hrun : clientProcess.run as (.start withLogFile) = some p) :
    p.NoneLost ∧ p.ControlLogged ↔
      clientProcess.StepsMeet WritesWhileOpen as (.start withLogFile) := by
  have h : Tracked (.start withLogFile) as p :=
    (tracked_step _).run (tracked_start withLogFile) hrun
  constructor
  · rintro ⟨hnone, -⟩
    by_contra hmeet
    have hlt := h.lost hmeet
    unfold NoneLost at hnone
    rw [← hnone, List.length_append] at hlt
    exact Nat.lt_irrefl _ hlt
  · intro hmeet
    obtain ⟨hnone, hcontrol⟩ := h.kept hmeet
    exact ⟨hnone, fun hset => mem_markers.mp (hcontrol (.inl hset))⟩

/-- The calls that take the main thread to its first request. -/
def toFirstRequest : List ClientAction :=
  [.main .done, .main .done, .main .done, .main (.opened (.zero _))]

/-- A message that arrives during the first request. -/
theorem no_marker_lost_in_request : ∃ p, clientProcess.run (toFirstRequest ++
      [.hear (some ⟨[83, 84, 65, 82, 84, 0], rfl⟩), .write]) (.start false) = some p ∧
    p.heard = [.flooderStart] ∧
    clientProcess.StepsMeet WritesWhileOpen (toFirstRequest ++
      [.hear (some ⟨[83, 84, 65, 82, 84, 0], rfl⟩), .write]) (.start false) := by
  refine ⟨_, rfl, rfl, ?_⟩
  apply (no_marker_lost_iff false _ rfl).mp
  decide

/-- A `CONTRO` message that arrives before the first request: `flooder_state` is set, and the log
    is empty. -/
theorem control_marker_lost : ∃ p, clientProcess.run
      [.hear (some ⟨[67, 79, 78, 84, 82, 79], rfl⟩), .write, .setState] (.start false) = some p ∧
    p.heard = [.flooderControl] ∧ p.flooderState = true ∧ p.log = [] ∧
    ¬ p.NoneLost ∧ ¬ p.ControlLogged := by
  refine ⟨_, rfl, rfl, rfl, rfl, ?_, ?_⟩ <;> decide

end NetworkExperiment
