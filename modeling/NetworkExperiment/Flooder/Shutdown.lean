import NetworkExperiment.Flooder.Notifications

namespace NetworkExperiment

open ActionSystems ByteBuffers

/-!
# The end of an experiment

When `client_run` has returned, the client writes a byte to the flooder; `flooder_test_connection`,
a thread of the flooder, waits for it, or for the end of the connection, and ends the flooder five
seconds later (`client/main.c`, `flooder.c`).

* `Experiment` / `experiment` — the threads of the two processes and the bytes for the flooder;
* `Experiment.Inv` — the thread has come past its `read` only behind the end of the client's run;
* `experiment_shutdown` — the flooder does not end before the client's run does, and nothing keeps
  it from ending when the client has ended.

What the listener of the client hears is not looked at here, so every message is possible.
-/

/-! ### The system -/

/-- The call that `flooder_test_connection` is in front of: the `read` of one byte, or the pause of
    five seconds behind which it calls `exit`. -/
inductive TestConnection
  | read
  | sleep
deriving DecidableEq, Repr

/-- The two processes; `told` says that `main` of the client has written to the flooder, and
    `pending` counts the bytes that have not been read.  The flooder has two threads, of which one
    runs `flooder_run`. -/
structure Experiment where
  client : ClientProcess
  told : Bool
  pending : ℕ
  flooder : Flooder
  testConnection : TestConnection

/-- A step of one of the threads. -/
inductive ExperimentAct
  /-- A call of `client_run` or of `flooder_checks`, or the end of `main`. -/
  | client (a : ClientAction)
  /-- `write(*fsock, "\n", 1)`, which may raise `SIGPIPE`. -/
  | tell (killed : Bool)
  /-- A call of `flooder_run`. -/
  | flooder (r : FlooderAction)
  /-- `main` of the flooder returns. -/
  | flooderMain
  | testConnection
deriving DecidableEq

namespace Experiment

/-- A step of the client.  Its `main` writes to the flooder before it returns, unless `client_run`
    has failed; the `close` behind the write is given a pointer, and does nothing. -/
def clientStep (s : Experiment) (a : ClientAction) : Option Experiment :=
  match s.client.main, a with
  | .returned ret, .main r =>
      if ret = -1 ∨ s.told then
        (clientProcess.act s.client (.main r)).map fun c => { s with client := c }
      else none
  | _, a => (clientProcess.act s.client a).map fun c => { s with client := c }

/-- The write to the flooder, behind a `client_run` that has not failed.  It raises a signal only
    where the flooder has ended. -/
def tellStep (s : Experiment) (killed : Bool) : Option Experiment :=
  match s.client.main with
  | .returned ret =>
      if s.client.exited ∨ ret = -1 ∨ s.told then none
      else if killed then
        if s.flooder.exited then some { s with client := { s.client with exited := true } }
        else none
      else some { s with told := true, pending := s.pending + 1 }
  | _ => none

/-- A call of `flooder_run`.  A write to the client raises `SIGPIPE` only if this has ended. -/
def flooderStep (s : Experiment) (r : FlooderAction) : Option Experiment :=
  if r = .killed ∧ ¬ (s.flooder.pc.writes.isSome ∧ s.client.exited) then none
  else (flooderRun.act s.flooder r).map fun f => { s with flooder := f }

/-- `main` of the flooder returns behind `flooder_run`, which ends the process with both
    threads. -/
def flooderMainStep (s : Experiment) : Option Experiment :=
  match s.flooder.pc with
  | .returned _ =>
      if s.flooder.exited then none
      else some { s with flooder := { s.flooder with exited := true } }
  | _ => none

/-- A call of `flooder_test_connection`: the `read` returns with a byte, or at the end of the
    connection; behind the pause the process ends. -/
def testConnectionStep (s : Experiment) : Option Experiment :=
  if s.flooder.exited then none
  else
    match s.testConnection with
    | .read =>
        if 0 < s.pending ∨ s.client.exited then
          some { s with testConnection := .sleep, pending := s.pending - 1 }
        else none
    | .sleep => some { s with flooder := { s.flooder with exited := true } }

/-- Both processes at their beginning, connected to each other. -/
def start (withLogFile : Bool) (socks : FlooderSocks) (flooderType : Int32) : Experiment where
  client := .start withLogFile
  told := false
  pending := 0
  flooder := .start socks flooderType
  testConnection := .read

end Experiment

/-- The runs. -/
def experiment : ActionSystem Experiment ExperimentAct where
  act s
    | .client a => s.clientStep a
    | .tell killed => s.tellStep killed
    | .flooder r => s.flooderStep r
    | .flooderMain => s.flooderMainStep
    | .testConnection => s.testConnectionStep

/-! ### What a step is -/

namespace Experiment

section Steps

variable {s t : Experiment}

/-- A step of the client is one of the two threads that its own system has. -/
theorem clientStep_cases {a : ClientAction} (h : s.clientStep a = some t) :
    ∃ c, clientProcess.act s.client a = some c ∧ t = { s with client := c } := by
  unfold clientStep at h
  split at h
  · split_ifs at h
    obtain ⟨c, hc, rfl⟩ := Option.map_eq_some_iff.mp h
    exact ⟨c, hc, rfl⟩
  · obtain ⟨c, hc, rfl⟩ := Option.map_eq_some_iff.mp h
    exact ⟨c, hc, rfl⟩

/-- The write comes behind the end of `client_run`; it leaves a byte, or ends the client. -/
theorem tellStep_cases {killed : Bool} (h : s.tellStep killed = some t) :
    ∃ ret, s.client.main = .returned ret ∧
      (t = { s with client := { s.client with exited := true } } ∨
        t = { s with told := true, pending := s.pending + 1 }) := by
  unfold tellStep at h
  split at h
  case h_1 ret hmain =>
    split_ifs at h
    · exact ⟨ret, hmain, .inl (Option.some.inj h).symm⟩
    · exact ⟨ret, hmain, .inr (Option.some.inj h).symm⟩
  case h_2 => exact absurd h (by simp)

/-- A call of `flooder_run` changes the flooder alone, and a signal means that the client has
    gone. -/
theorem flooderStep_cases {r : FlooderAction} (h : s.flooderStep r = some t) :
    ∃ f, flooderRun.act s.flooder r = some f ∧ (r = .killed → s.client.exited = true) ∧
      t = { s with flooder := f } := by
  unfold flooderStep at h
  split_ifs at h with hkilled
  obtain ⟨f, hf, rfl⟩ := Option.map_eq_some_iff.mp h
  refine ⟨f, hf, fun hr => ?_, rfl⟩
  by_contra hexited
  exact hkilled ⟨hr, fun hwrite => hexited hwrite.2⟩

/-- `main` of the flooder returns only behind `flooder_run`. -/
theorem flooderMainStep_cases (h : s.flooderMainStep = some t) :
    (∃ ret, s.flooder.pc = .returned ret) ∧
      t = { s with flooder := { s.flooder with exited := true } } := by
  unfold flooderMainStep at h
  split at h
  case h_1 ret hpc =>
    split_ifs at h
    exact ⟨⟨ret, hpc⟩, (Option.some.inj h).symm⟩
  case h_2 => exact absurd h (by simp)

/-- The thread goes on with a byte or at the end of the connection, and then ends the process. -/
theorem testConnectionStep_cases (h : s.testConnectionStep = some t) :
    s.flooder.exited = false ∧
      ((s.testConnection = .read ∧ (0 < s.pending ∨ s.client.exited = true) ∧
          t = { s with testConnection := .sleep, pending := s.pending - 1 }) ∨
        (s.testConnection = .sleep ∧
          t = { s with flooder := { s.flooder with exited := true } })) := by
  by_cases hexited : s.flooder.exited = true
  · exact absurd ((if_pos hexited).symm.trans h) (by simp)
  · refine ⟨Bool.of_not_eq_true hexited, ?_⟩
    have h := (if_neg hexited).symm.trans h
    split at h
    case h_1 hread =>
      by_cases hwoken : 0 < s.pending ∨ s.client.exited = true
      · exact .inl ⟨hread, hwoken, (Option.some.inj ((if_pos hwoken).symm.trans h)).symm⟩
      · exact absurd ((if_neg hwoken).symm.trans h) (by simp)
    case h_2 hsleep => exact .inr ⟨hsleep, (Option.some.inj h).symm⟩

end Steps

/-- `client_run` does not go on behind its return. -/
theorem act_main_returned {p p' : ClientProcess} {a : ClientAction} {ret : ℤ}
    (h : clientProcess.act p a = some p') (hmain : p.main = .returned ret) :
    p'.main = .returned ret := by
  cases a with
  | main r =>
    have hstep := (ClientProcess.act_main h).2
    unfold ClientProcess.mainStep at hstep
    rw [hmain] at hstep
    cases r with
    | done =>
      obtain rfl := Option.some.inj hstep
      rfl
    | failed | opened garbage | filled buffer | clock nsec | killed => exact absurd hstep (by simp)
  | hear msg | write | setState =>
    -- the listener shares the log and the state with `client_run`, not its return
    have hstep := (ClientProcess.act_listener h (by simp)).2
    unfold ClientProcess.listenerStep at hstep
    split at hstep
    case h_2 => split at hstep <;> exact Option.some.inj hstep ▸ hmain
    case h_3 =>
      obtain rfl := Option.some.inj hstep
      exact (ClientProcess.writeLog_main ..).trans hmain
    case h_5 => exact absurd hstep (by simp)
    all_goals exact Option.some.inj hstep ▸ hmain

/-- Of the calls of `flooder_run` only one that raises a signal ends the process. -/
theorem flooderRun_exited {f f' : Flooder} {r : FlooderAction} (h : flooderRun.act f r = some f') :
    f.exited = false ∧ (f'.exited = true → r = .killed) := by
  unfold flooderRun at h
  dsimp only at h
  split_ifs at h with hexited
  have hrunning := Bool.of_not_eq_true hexited
  refine ⟨hrunning, fun hends => ?_⟩
  unfold Flooder.callStep at h
  split at h
  case h_17 => rfl
  case h_18 => exact absurd h (by simp)
  all_goals
    obtain rfl := Option.some.inj h
    exact absurd (hrunning.symm.trans hends) (by simp)

/-! ### The invariant -/

/-- The run of the client is over: `client_run` has returned, or the process has ended before. -/
def ClientDone (s : Experiment) : Prop :=
  (∃ ret, s.client.main = .returned ret) ∨ s.client.exited = true

/-- **The invariant.**  A byte has been written only behind the end of the client's run, and the
    thread has come past its `read` only by a byte or by the end of the client; so what it ends has
    been waited for. -/
structure Inv (s : Experiment) : Prop where
  told : s.told = true → ∃ ret, s.client.main = .returned ret
  pending : 0 < s.pending → s.told = true
  sleeping : s.testConnection = .sleep → s.ClientDone
  ended : s.flooder.exited = true → s.ClientDone ∨ ∃ ret, s.flooder.pc = .returned ret

/-- A step of the client leaves it done. -/
theorem ClientDone.client {s : Experiment} (h : s.ClientDone) {c : ClientProcess}
    (hreturned : ∀ ret, s.client.main = .returned ret → c.main = .returned ret)
    (hexited : s.client.exited = true → c.exited = true) :
    { s with client := c : Experiment }.ClientDone :=
  h.imp (fun ⟨ret, hmain⟩ => ⟨ret, hreturned ret hmain⟩) hexited

/-- A step of the client that takes nothing back keeps it. -/
theorem Inv.client {s : Experiment} (h : s.Inv) {c : ClientProcess}
    (hreturned : ∀ ret, s.client.main = .returned ret → c.main = .returned ret)
    (hexited : s.client.exited = true → c.exited = true) :
    { s with client := c : Experiment }.Inv where
  told htold := (h.told htold).imp hreturned
  pending := h.pending
  sleeping hsleep := (h.sleeping hsleep).client hreturned hexited
  ended hends := (h.ended hends).imp_left fun hdone => hdone.client hreturned hexited

/-- **Step lemma.**  The cases are the threads. -/
theorem inv_step : experiment.Invariant Inv := by
  intro s a t h hact
  cases a with
  | client a =>
    obtain ⟨c, hc, rfl⟩ := clientStep_cases hact
    apply h.client
    · exact fun ret hmain => act_main_returned hc hmain
    · intro hexited
      unfold clientProcess at hc
      dsimp only at hc
      rw [if_pos hexited] at hc
      exact absurd hc (by simp)
  | tell killed =>
    -- the client ends, or there is a byte more; its run is over before
    obtain ⟨ret, hmain, rfl | rfl⟩ := tellStep_cases hact
    · exact h.client (fun _ => id) fun _ => rfl
    · exact ⟨fun _ => ⟨ret, hmain⟩, fun _ => rfl, h.sleeping, h.ended⟩
  | flooder r =>
    -- only a signal ends the flooder here, and it says that the client has ended
    obtain ⟨f, hf, hkilled, rfl⟩ := flooderStep_cases hact
    refine ⟨h.told, h.pending, h.sleeping, fun hends => ?_⟩
    exact .inl (.inr (hkilled ((flooderRun_exited hf).2 hends)))
  | flooderMain =>
    obtain ⟨hreturned, rfl⟩ := flooderMainStep_cases hact
    exact ⟨h.told, h.pending, h.sleeping, fun _ => .inr hreturned⟩
  | testConnection =>
    obtain ⟨-, ⟨-, hwoken, rfl⟩ | ⟨hsleep, rfl⟩⟩ := testConnectionStep_cases hact
    · -- the byte has been written behind the end of the run
      refine ⟨h.told, fun hpending => h.pending (by simp only at hpending; omega), fun _ => ?_,
        h.ended⟩
      exact hwoken.imp (fun hpending => h.told (h.pending hpending)) id
    · exact ⟨h.told, h.pending, h.sleeping, fun _ => .inl (h.sleeping hsleep)⟩

theorem inv_start (withLogFile : Bool) (socks : FlooderSocks) (flooderType : Int32) :
    (start withLogFile socks flooderType).Inv where
  told htold := absurd htold (by simp [start])
  pending hpending := absurd hpending (by simp [start])
  sleeping hsleep := absurd hsleep (by simp [start])
  ended hends := absurd hends (by simp [start, Flooder.start])

/-! ### The thread of the flooder -/

/-- The calls that `flooder_test_connection` has still to make: this falls with each of them, and
    never rises. -/
def callsLeft (s : Experiment) : ℕ :=
  if s.flooder.exited then 0
  else
    match s.testConnection with
    | .read => 2
    | .sleep => 1

/-- A step of another thread leaves it no more calls. -/
theorem callsLeft_flooder_le (s : Experiment) {f : Flooder} (c : ClientProcess) (b : Bool) (n : ℕ)
    (hexited : s.flooder.exited = true → f.exited = true) :
    { s with client := c, told := b, pending := n, flooder := f : Experiment }.callsLeft
      ≤ s.callsLeft := by
  by_cases hends : f.exited = true
  · simp [callsLeft, hends]
  · have hrunning : s.flooder.exited = false := Bool.of_not_eq_true (mt hexited hends)
    simp [callsLeft, hends, hrunning]

/-- A step of the thread is one of these calls. -/
theorem callsLeft_step {s t : Experiment} {a : ExperimentAct} (hact : experiment.act s a = some t) :
    t.callsLeft + [a].count .testConnection ≤ s.callsLeft := by
  cases a with
  | client a =>
    obtain ⟨c, -, rfl⟩ := clientStep_cases hact
    exact s.callsLeft_flooder_le c s.told s.pending id
  | tell killed =>
    obtain ⟨ret, -, rfl | rfl⟩ := tellStep_cases hact
    · exact s.callsLeft_flooder_le _ s.told s.pending id
    · exact s.callsLeft_flooder_le s.client true _ id
  | flooder r =>
    obtain ⟨f, hf, -, rfl⟩ := flooderStep_cases hact
    refine s.callsLeft_flooder_le s.client s.told s.pending fun hexited => ?_
    exact absurd ((flooderRun_exited hf).1.symm.trans hexited) (by simp)
  | flooderMain =>
    obtain ⟨-, rfl⟩ := flooderMainStep_cases hact
    simp [callsLeft]
  | testConnection =>
    obtain ⟨hrunning, ⟨hread, -, rfl⟩ | ⟨hsleep, rfl⟩⟩ := testConnectionStep_cases hact
    · simp [callsLeft, hrunning, hread]
    · simp [callsLeft, hrunning, hsleep]

/-- So it has made no more calls in a run than it had left before. -/
theorem callsLeft_run {s t : Experiment} {as : List ExperimentAct}
    (hrun : experiment.run as s = some t) :
    t.callsLeft + as.count .testConnection ≤ s.callsLeft := by
  have hstep : experiment.History fun as t =>
      t.callsLeft + as.count .testConnection ≤ s.callsLeft := by
    intro as r a t hle hact
    have := callsLeft_step hact
    rw [List.count_append]
    omega
  exact hstep.run (le_refl _) hrun

/-- Nothing keeps the thread from its next call when the client has ended. -/
theorem testConnection_enabled {s : Experiment} (hexited : s.client.exited = true)
    (hrunning : s.flooder.exited = false) : ∃ t, experiment.act s .testConnection = some t := by
  show ∃ t, s.testConnectionStep = some t
  unfold testConnectionStep
  rw [if_neg (by simp [hrunning])]
  cases s.testConnection with
  | read => exact ⟨_, if_pos (.inr hexited)⟩
  | sleep => exact ⟨_, rfl⟩

end Experiment

open Experiment

/-- **The end of an experiment.**  In every run: unless `flooder_run` has failed, the flooder ends
    only behind the end of the client's run.  When the client has ended, nothing keeps
    `flooder_test_connection` from its next call, and the flooder has ended when it has made two. -/
theorem experiment_shutdown (withLogFile : Bool) (socks : FlooderSocks) (flooderType : Int32)
    {as : List ExperimentAct} {s : Experiment}
    (hrun : experiment.run as (.start withLogFile socks flooderType) = some s) :
    (s.flooder.exited = true →
      (∃ ret, s.client.main = .returned ret) ∨ s.client.exited = true ∨
        ∃ ret, s.flooder.pc = .returned ret) ∧
    (s.client.exited = true → s.flooder.exited = false →
      ∃ t, experiment.act s .testConnection = some t) ∧
    ∀ bs t, experiment.run bs s = some t → 2 ≤ bs.count .testConnection →
      t.flooder.exited = true := by
  have h : s.Inv := inv_step.run (inv_start withLogFile socks flooderType) hrun
  refine ⟨fun hends => or_assoc.mp (h.ended hends), testConnection_enabled, ?_⟩
  intro bs t hbs htwo
  have hleft := callsLeft_run hbs
  have hall : s.callsLeft ≤ 2 := by
    unfold callsLeft
    split_ifs
    · exact Nat.zero_le 2
    · split <;> decide
  by_contra hrunning
  -- a flooder that has not ended has a call left, and there were two
  have hmore : 0 < t.callsLeft := by
    unfold callsLeft
    rw [if_neg hrunning]
    split <;> decide
  omega

/-- The client, told of the control sequence during its only request, gets the end of the file; its
    `client_run` then returns, and `main` writes to the flooder. -/
def oneRequest : List ExperimentAct :=
  [.main .done, .main .done, .main .done, .main (.opened (.zero sizeofProtoMsg)),
    .hear (some clientControl), .write, .setState, .main .done,
    .main (.filled (frame (.blank .reqAck))), .main (.clock 1),
    .main (.filled (frame (.blank .fileComplete))), .main .done, .main (.clock 2), .main .done,
    .main .done, .main .done, .main .done].map .client ++ [.tell false]

/-- The flooder's thread reads the byte, with `flooder_run` in front of its first message and the
    client still there, and behind the pause it ends the flooder. -/
theorem experiment_shutdown_one_request : ∃ s t,
    experiment.run ([.flooder .done, .flooder .done] ++ oneRequest) (.start false ⟨1024, 0, 5⟩ 1)
      = some s ∧
    s.client.main = .returned 0 ∧ s.told = true ∧ s.pending = 1 ∧ s.client.exited = false ∧
    s.flooder.exited = false ∧
    experiment.run [.testConnection, .client (.main .done), .testConnection] s = some t ∧
    t.pending = 0 ∧ t.flooder.exited = true := by
  have hsome : ((experiment.run ([.flooder .done, .flooder .done] ++ oneRequest)
      (.start false ⟨1024, 0, 5⟩ 1)).any fun s =>
        decide (s.client.main = .returned 0 ∧ s.told = true ∧ s.pending = 1 ∧
          s.client.exited = false ∧ s.flooder.exited = false ∧
          (experiment.run [.testConnection, .client (.main .done), .testConnection] s).any
            fun t => t.pending = 0)) = true := by
    decide +kernel
  obtain ⟨s, hrun, hs⟩ := (Option.any_eq_true _ _).mp hsome
  obtain ⟨hmain, htold, hpending, hclient, hflooder, hends⟩ := of_decide_eq_true hs
  obtain ⟨t, ht, hread⟩ := (Option.any_eq_true _ _).mp hends
  refine ⟨s, t, hrun, hmain, htold, hpending, hclient, hflooder, ht, of_decide_eq_true hread, ?_⟩
  exact (experiment_shutdown false ⟨1024, 0, 5⟩ 1 hrun).2.2 _ t ht (by decide)

end NetworkExperiment
