import NetworkExperiment.Client.FlooderMarkers

namespace NetworkExperiment

open ActionSystems ByteBuffers DescriptorTables

/-!
# The descriptors of the client

Each connection of the client opens a socket and the timing log and closes both, while the listener
writes through `timing_logfh` at any time.  Over runs of any length, where log messages go to the
standard error or their file is open before the first connection:

* `ClientProcess.KeepsFiles` — the socket and the log get the same two descriptors each time, and
  everything else is as it was at the start;
* `ClientProcess.TimingAt` — `timing_logfh` is 0, the descriptor of the log, or -1;
* `client_keeps_descriptors` — between two connections no descriptor is left over, and what the
  listener writes never reaches a connection.
-/

namespace ClientProcess

/-! ### The two descriptors -/

/-- The files when `client_run` is called. -/
def filesAtStart (withLogFile : Bool) : Fd → Option ClientFile := (start withLogFile).table.file

/-- The descriptor that a connection gets, -/
def sockfd (withLogFile : Bool) : Fd := (start withLogFile).table.lowest

/-- the files with the connection, -/
def filesConnected (withLogFile : Bool) : Fd → Option ClientFile :=
  ((start withLogFile).table.insert .socketfh).file

/-- and the descriptor that the log then gets. -/
def logfd (withLogFile : Bool) : Fd := ((start withLogFile).table.insert .socketfh).lowest

variable {w : Bool}

/-- The connection has one file more than the start. -/
theorem filesConnected_eq :
    filesConnected w = Function.update (filesAtStart w) (sockfd w) (some .socketfh) :=
  file_insert _ _

theorem filesAtStart_sockfd : filesAtStart w (sockfd w) = none := file_lowest

theorem filesConnected_logfd : filesConnected w (logfd w) = none := file_lowest

/-- The log is opened while the connection has its descriptor. -/
theorem sockfd_ne_logfd : sockfd w ≠ logfd w := by
  intro h
  have hsock : filesConnected w (sockfd w) = some .socketfh := file_insert_self
  rw [h, filesConnected_logfd] at hsock
  exact absurd hsock (by simp)

theorem filesAtStart_logfd : filesAtStart w (logfd w) = none := by
  have h := @filesConnected_logfd w
  rwa [filesConnected_eq, Function.update_of_ne sockfd_ne_logfd.symm] at h

/-! ### The invariant -/

/-- The files, by where the main thread is.  `close(socketfh)` comes first, so in front of
    `close(timing_logfh)` the connection has gone already; a failure leaves the connection at
    most. -/
def KeepsFiles (w : Bool) (p : ClientProcess) : MainThread → Prop
  | .loopTest | .socket => p.table.file = filesAtStart w
  | .connect sock | .openLog sock => sock = sockfd w ∧ p.table.file = filesConnected w
  | .request sock thread =>
      sock = sockfd w ∧ p.timingLogfh = some (logfd w) ∧
        p.table.file = Function.update
          (if thread.pc = .closeLog then filesAtStart w else filesConnected w) (logfd w)
          (some .timingLog)
  | .returned _ => p.table.file = filesAtStart w ∨ p.table.file = filesConnected w

/-- What `timing_logfh` can be: 0 as at the start of the program, the descriptor of the log, or the
    -1 of an `open` that failed.  It is not set back when the log is closed. -/
def TimingAt (w : Bool) (p : ClientProcess) : Prop :=
  p.timingLogfh = some 0 ∨ p.timingLogfh = some (logfd w) ∨ p.timingLogfh = none

/-- The descriptors of the client. -/
structure DescriptorsKept (w : Bool) (p : ClientProcess) : Prop where
  files : p.KeepsFiles w p.main
  timing : p.TimingAt w

variable {p p' : ClientProcess} {sock : Fd} {thread : ClientThread} {r : CallResult}
  {a : ClientAction}

theorem KeepsFiles.congr {main : MainThread} (h : p.KeepsFiles w main)
    (htable : p'.table = p.table) (htiming : p'.timingLogfh = p.timingLogfh) :
    p'.KeepsFiles w main := by
  unfold KeepsFiles at *
  rw [htable, htiming]
  exact h

/-- A call of `client_send_request` that neither closes anything nor returns: the files are as
    before. -/
theorem keepsFiles_goOn (h : p.KeepsFiles w (.request sock thread))
    (hopen : thread.pc ≠ .closeLog) {thread' : ClientThread} (hopen' : thread'.pc ≠ .closeLog)
    (hreturned : thread'.pc ≠ .returned) (hillegal : thread'.pc ≠ .illegalType) :
    (p.goOn sock thread').KeepsFiles w (p.goOn sock thread').main := by
  obtain ⟨hsock, htiming, hfile⟩ := h
  rw [goOn_main _ _ _ hreturned hillegal]
  refine ⟨hsock, by rw [goOn_timingLogfh, htiming], ?_⟩
  rw [goOn_table, hfile, if_neg hopen, if_neg hopen']

/-- A call of `client_send_request`. -/
theorem keepsFiles_requestStep (h : p.KeepsFiles w (.request sock thread))
    (hmain : p.main = .request sock thread) (hstep : p.requestStep sock thread r = some p') :
    p'.KeepsFiles w p'.main := by
  unfold requestStep at hstep
  split at hstep
  case h_1 hpc =>
    obtain rfl := Option.some.inj hstep
    exact keepsFiles_goOn h (by simp [hpc]) (by simp [ClientThread.afterSendRequest])
      (by simp [ClientThread.afterSendRequest]) (by simp [ClientThread.afterSendRequest])
  case h_2 buffer hpc =>
    obtain rfl := Option.some.inj hstep
    apply keepsFiles_goOn h (by simp [hpc]) <;>
      rcases thread.afterReadAck_pc buffer with hnext | hnext <;> simp [hnext]
  case h_3 nsec hpc =>
    obtain rfl := Option.some.inj hstep
    apply keepsFiles_goOn (h.congr (writeLog_table ..) (writeLog_timingLogfh ..)) (by simp [hpc])
      <;> simp [ClientThread.afterLogStart]
  case h_4 buffer hpc =>
    obtain rfl := Option.some.inj hstep
    apply keepsFiles_goOn h (by simp [hpc]) <;>
      rcases thread.afterReadBlock_pc buffer with ⟨last, hnext⟩ | hnext <;> simp [hnext]
  case h_5 last hpc =>
    obtain rfl := Option.some.inj hstep
    apply keepsFiles_goOn h (by simp [hpc]) <;> simp [ClientThread.afterSendAck]
  case h_6 last nsec hpc =>
    obtain rfl := Option.some.inj hstep
    apply keepsFiles_goOn (h.congr (writeLog_table ..) (writeLog_timingLogfh ..)) (by simp [hpc])
      <;> simp [ClientThread.afterLogEnd]
  case h_7 last hpc =>
    obtain rfl := Option.some.inj hstep
    apply keepsFiles_goOn
      (h.congr (updateRequestCounter_table ..) (updateRequestCounter_timingLogfh ..))
      (by simp [hpc]) <;>
      rcases thread.afterUpdate_pc last with hnext | hnext <;> simp [hnext]
  case h_8 hpc =>
    -- `close(socketfh)` gives back the descriptor of the connection
    obtain rfl := Option.some.inj hstep
    obtain ⟨rfl, htiming, hfile⟩ := h
    refine ⟨rfl, by rw [goOn_timingLogfh]; exact htiming, ?_⟩
    have hclosed : thread.afterCloseSock.pc = .closeLog := rfl
    rw [goOn_table, if_pos hclosed]
    show (p.table.close (sockfd w)).file = _
    rw [file_close, hfile, if_neg (by simp [hpc]), Function.update_comm sockfd_ne_logfd.symm,
      filesConnected_eq, Function.update_idem, ← filesAtStart_sockfd, Function.update_eq_self]
  case h_9 hpc =>
    -- `close(timing_logfh)` gives back that of the log
    obtain rfl := Option.some.inj hstep
    obtain ⟨rfl, htiming, hfile⟩ := h
    show (p.closeLog.goOn _ _).table.file = filesAtStart w
    rw [goOn_table]
    unfold closeLog
    rw [htiming]
    show (p.table.close (logfd w)).file = _
    rw [file_close, hfile, if_pos hpc, Function.update_idem, ← filesAtStart_logfd,
      Function.update_eq_self]
  case h_10 | h_11 =>
    obtain rfl := Option.some.inj hstep
    show KeepsFiles w _ p.main
    rw [hmain]
    exact h
  case h_12 => exact absurd hstep (by simp)

/-- A call of the main thread. -/
theorem keepsFiles_mainStep (h : p.KeepsFiles w p.main) (hstep : p.mainStep r = some p') :
    p'.KeepsFiles w p'.main := by
  unfold mainStep at hstep
  split at hstep
  case h_1 hmain =>
    rw [hmain] at h
    obtain rfl := Option.some.inj hstep
    by_cases htest : p.requestCounter ≥ 0
    · simp only [if_pos htest]
      exact h
    · simp only [if_neg htest]
      exact .inl h
  case h_2 hmain =>
    -- the socket gets the descriptor that it would have got at the start
    rw [hmain] at h
    obtain rfl := Option.some.inj hstep
    have hlowest : p.table.lowest = sockfd w := lowest_congr h
    refine ⟨hlowest, ?_⟩
    show (p.table.insert .socketfh).file = _
    rw [file_insert, hlowest, filesConnected_eq, ← h]
  case h_3 sock hmain =>
    rw [hmain] at h
    obtain rfl := Option.some.inj hstep
    exact h
  case h_4 sock garbage hmain =>
    rw [hmain] at h
    -- the log gets the lowest descriptor beside the connection, as each time
    obtain rfl := Option.some.inj hstep
    obtain ⟨hsock, hfile⟩ := h
    have hlowest : p.table.lowest = logfd w := lowest_congr hfile
    refine ⟨hsock, congrArg some hlowest, ?_⟩
    have hrequest : (ClientThread.start garbage).pc ≠ .closeLog := by simp [ClientThread.start]
    show (p.table.insert .timingLog).file = _
    rw [if_neg hrequest, file_insert, hlowest, hfile]
  case h_5 hmain =>
    rw [hmain] at h
    obtain rfl := Option.some.inj hstep
    exact .inl h
  case h_6 sock hmain =>
    rw [hmain] at h
    obtain rfl := Option.some.inj hstep
    exact .inr h.2
  case h_7 sock hmain =>
    rw [hmain] at h
    obtain rfl := Option.some.inj hstep
    -- the log cannot be opened, and the connection is left open
    exact .inr h.2
  case h_8 sock thread hmain =>
    rw [hmain] at h
    exact keepsFiles_requestStep h hmain hstep
  case h_9 ret hmain =>
    obtain rfl := Option.some.inj hstep
    exact h.congr rfl rfl
  case h_10 => exact absurd hstep (by simp)

/-- What a call of the main thread does to `timing_logfh`. -/
theorem timingAt_mainStep (h : p.DescriptorsKept w) (hstep : p.mainStep r = some p') :
    p'.TimingAt w := by
  obtain ⟨hfiles, htiming⟩ := h
  unfold mainStep at hstep
  split at hstep
  case h_4 sock garbage hmain =>
    rw [hmain] at hfiles
    obtain rfl := Option.some.inj hstep
    exact .inr (.inl (congrArg some (lowest_congr hfiles.2)))
  case h_7 sock hmain =>
    obtain rfl := Option.some.inj hstep
    exact .inr (.inr rfl)
  case h_8 sock thread hmain =>
    -- `close` leaves the number as it is
    have hsame : p'.timingLogfh = p.timingLogfh := by
      unfold requestStep at hstep
      split at hstep
      case h_12 => exact absurd hstep (by simp)
      case h_9 =>
        obtain rfl := Option.some.inj hstep
        rw [goOn_timingLogfh]
        unfold closeLog
        split <;> rfl
      all_goals
        obtain rfl := Option.some.inj hstep
        first
          | rfl
          | simp only [goOn_timingLogfh, writeLog_timingLogfh, updateRequestCounter_timingLogfh]
    unfold TimingAt
    rw [hsame]
    exact htiming
  case h_10 => exact absurd hstep (by simp)
  all_goals
    obtain rfl := Option.some.inj hstep
    exact htiming

/-- The listener opens and closes nothing. -/
theorem listenerStep_files (hstep : p.listenerStep a = some p') :
    p'.main = p.main ∧ p'.table = p.table ∧ p'.timingLogfh = p.timingLogfh := by
  unfold listenerStep at hstep
  split at hstep
  case h_2 => split at hstep <;> exact Option.some.inj hstep ▸ ⟨rfl, rfl, rfl⟩
  case h_3 =>
    obtain rfl := Option.some.inj hstep
    exact ⟨writeLog_main .., writeLog_table .., writeLog_timingLogfh ..⟩
  case h_5 => exact absurd hstep (by simp)
  all_goals exact Option.some.inj hstep ▸ ⟨rfl, rfl, rfl⟩

theorem descriptorsKept_start : (start w).DescriptorsKept w := ⟨rfl, .inl rfl⟩

/-- **Step lemma.**  The main thread opens and closes in turn, and the listener does neither. -/
theorem descriptorsKept_step : clientProcess.Invariant (DescriptorsKept w) := by
  intro p a p' h hact
  cases a with
  | main r =>
    obtain ⟨-, hstep⟩ := act_main hact
    exact ⟨keepsFiles_mainStep h.files hstep, timingAt_mainStep h hstep⟩
  | hear msg | write | setState =>
    obtain ⟨hmain, htable, htiming⟩ := listenerStep_files (act_listener hact (by simp)).2
    refine ⟨?_, ?_⟩
    · rw [hmain]
      exact h.files.congr htable htiming
    · unfold TimingAt
      rw [htiming]
      exact h.timing

/-! ### What it comes to -/

/-- Only two descriptors are ever used anew; the others have the files of the start. -/
theorem KeepsFiles.eq_of_ne (h : p.KeepsFiles w p.main) {fd : Fd} (hsock : fd ≠ sockfd w)
    (hlog : fd ≠ logfd w) : p.table.file fd = filesAtStart w fd := by
  have hconnected : filesConnected w fd = filesAtStart w fd := by
    rw [filesConnected_eq, Function.update_of_ne hsock]
  cases hmain : p.main with
  | loopTest | socket =>
    rw [hmain] at h
    exact congrFun h fd
  | connect sock | openLog sock =>
    rw [hmain] at h
    rw [h.2, hconnected]
  | request sock thread =>
    rw [hmain] at h
    rw [h.2.2, Function.update_of_ne hlog]
    split
    · rfl
    · exact hconnected
  | returned ret =>
    rw [hmain] at h
    rcases h with h | h
    · exact congrFun h fd
    · rw [h, hconnected]

/-- The descriptor of the log is one of the log, or of nothing: no connection ever gets it. -/
theorem KeepsFiles.logfd (h : p.KeepsFiles w p.main) {file : ClientFile}
    (hfile : p.table.file (logfd w) = some file) : file = .timingLog := by
  cases hmain : p.main with
  | loopTest | socket =>
    rw [hmain] at h
    rw [h, filesAtStart_logfd] at hfile
    exact absurd hfile (by simp)
  | connect sock | openLog sock =>
    rw [hmain] at h
    rw [h.2, filesConnected_logfd] at hfile
    exact absurd hfile (by simp)
  | request sock thread =>
    rw [hmain] at h
    rw [h.2.2, Function.update_self] at hfile
    exact (Option.some.inj hfile).symm
  | returned ret =>
    rw [hmain] at h
    rcases h with h | h
    · rw [h, filesAtStart_logfd] at hfile
      exact absurd hfile (by simp)
    · rw [h, filesConnected_logfd] at hfile
      exact absurd hfile (by simp)

/-- What the listener writes through `timing_logfh` goes to the log, or to the standard input. -/
theorem DescriptorsKept.timingFile (h : p.DescriptorsKept w) {file : ClientFile}
    (hfile : p.timingFile = some file) : file = .timingLog ∨ file = .stdin := by
  unfold ClientProcess.timingFile at hfile
  rcases h.timing with htiming | htiming | htiming
  · rw [htiming, Option.bind_some] at hfile
    -- the standard input is one of the files that stay
    have hstdin : p.table.file 0 = some .stdin := by
      rw [h.files.eq_of_ne (by cases w <;> decide) (by cases w <;> decide)]
      cases w <;> decide
    rw [hstdin] at hfile
    exact .inr (Option.some.inj hfile).symm
  · rw [htiming, Option.bind_some] at hfile
    exact .inl (h.files.logfd hfile)
  · rw [htiming] at hfile
    exact absurd hfile (by simp)

end ClientProcess

open ClientProcess

/-- **The descriptors of the client.**  In every run, over any number of connections and whatever
    fails: between two connections exactly the files of the start are open; only two descriptors
    ever change, each connection gets the same socket descriptor, and where the connection fails
    nothing but the socket is left open; and `timing_logfh` refers to the log, to the standard input
    or to nothing, so that what the listener writes never reaches the server or the flooder.  This
    is for the starts of `ClientProcess.start`: a log file that the first error opens in the middle
    of a run would shift the descriptors. -/
theorem client_keeps_descriptors {withLogFile : Bool} {as : List ClientAction} {p : ClientProcess}
    (hrun : clientProcess.run as (.start withLogFile) = some p) :
    (p.main = .loopTest → p.table.file = filesAtStart withLogFile) ∧
    (∀ fd, fd ≠ sockfd withLogFile → fd ≠ logfd withLogFile →
      p.table.file fd = filesAtStart withLogFile fd) ∧
    (∀ sock thread, p.main = .request sock thread → sock = sockfd withLogFile) ∧
    (∀ ret, p.main = .returned ret →
      p.table.file = filesAtStart withLogFile ∨ p.table.file = filesConnected withLogFile) ∧
    ∀ file, p.timingFile = some file → file = .timingLog ∨ file = .stdin := by
  have h := descriptorsKept_step.run (@descriptorsKept_start withLogFile) hrun
  have hfiles := h.files
  refine ⟨?_, fun fd => h.files.eq_of_ne, ?_, ?_, fun file => h.timingFile⟩
  · intro hmain
    rwa [hmain] at hfiles
  · intro sock thread hmain
    rw [hmain] at hfiles
    exact hfiles.1
  · intro ret hmain
    rwa [hmain] at hfiles

/-- A whole connection, with no block in the file. -/
def emptyRequest : List ClientAction :=
  toFirstRequest ++ [.main .done, .main (.filled (frame (.blank .reqAck))), .main (.clock 1),
    .main (.filled (frame (.blank .fileComplete))), .main .done, .main (.clock 2), .main .done,
    .main .done, .main .done]

/-- Behind two connections the descriptors are those of the start. -/
theorem client_keeps_descriptors_two_requests : ∃ p,
    clientProcess.run (emptyRequest ++ emptyRequest) (.start true) = some p ∧
    p.requestCounter = 2 ∧ p.table.file = filesAtStart true := by
  have hsome : ((clientProcess.run (emptyRequest ++ emptyRequest) (.start true)).any fun p =>
      decide (p.main = .loopTest ∧ p.requestCounter = 2)) = true := by
    decide +kernel
  obtain ⟨p, hrun, hp⟩ := (Option.any_eq_true _ _).mp hsome
  obtain ⟨hmain, hcounter⟩ := of_decide_eq_true hp
  exact ⟨p, hrun, hcounter, (client_keeps_descriptors hrun).1 hmain⟩

end NetworkExperiment
