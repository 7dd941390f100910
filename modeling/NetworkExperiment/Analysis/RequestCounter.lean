import NetworkExperiment.Analysis.RequestPairs
import NetworkExperiment.Flooder.Run

namespace NetworkExperiment

open ActionSystems ByteBuffers DescriptorTables LastEvents

/-!
# The request counter and the log

`log_request_end` writes an `END` line and then counts it, up or down by `flooder_state`.  The
parser tells the samples apart by the `FLOODER_CONTROL` line, which the listener writes before it
sets `flooder_state`:

* `balance` — the `END` lines before `FLOODER_CONTROL`, less those after it;
* `parse_balance` — these are the samples of the parser;
* `CountsAsLogged` — a step that counts a request does it as the log says;
* `ClientProcess.Counted` — the invariant: the counter is the balance of the lines counted so far,
  until a step counts otherwise, and is off to one side from then on;
* `counter_agrees_iff` — the counter agrees with the log if and only if all steps count as it says.
-/

/-! ### The `END` lines of a log -/

/-- The `END` lines of the log, each with the log in front of it. -/
abbrev requestEnds (log : List LogLine) : List (List LogLine × LogLine) :=
  occurrences LogLine.IsRequestEnd log

/-- There is a `FLOODER_CONTROL` line in front of it. -/
def Controlled (x : List LogLine × LogLine) : Prop := .flooder .flooderControl ∈ x.1

instance : DecidablePred Controlled := fun _ => inferInstanceAs (Decidable (_ ∈ _))

/-- The lines before `FLOODER_CONTROL`, less those after it. -/
def balance (ends : List (List LogLine × LogLine)) : ℤ :=
  (ends.filter fun x => ¬ Controlled x).length - (ends.filter fun x => Controlled x).length

/-- One more line counts for the side of `FLOODER_CONTROL` on which it is. -/
theorem balance_concat (ends : List (List LogLine × LogLine)) (x : List LogLine × LogLine) :
    balance (ends ++ [x]) = balance ends + if Controlled x then -1 else 1 := by
  unfold balance
  rw [List.filter_append, List.filter_append, List.length_append, List.length_append]
  by_cases hx : Controlled x
  · simp only [hx, List.filter_cons, List.filter_nil]
    simp
    omega
  · simp only [hx, List.filter_cons, List.filter_nil]
    simp
    omega

/-- A line that ends no request. -/
theorem requestEnds_concat {log : List LogLine} {line : LogLine} (h : ¬ line.IsRequestEnd) :
    requestEnds (log ++ [line]) = requestEnds log := by
  rw [requestEnds, occurrences_concat, if_neg h, List.append_nil]

/-- **The samples.**  The parser takes the `END` lines before `FLOODER_CONTROL` for samples, and
    those after it for samples of the control sequence. -/
theorem parse_balance (fl : ℚ → ℚ) {log : List LogLine} (h : Paired log) :
    ∃ r, parseClientTimes fl (render log) = .ok r ∧
      r.rtts.length = ((requestEnds log).filter fun x => ¬ Controlled x).length ∧
      r.ctrlRtts.length = ((requestEnds log).filter fun x => Controlled x).length := by
  -- the parser sees the control sequence exactly behind its line
  have hcontrol : ∀ past : List LogLine, InControl (past.map LogLine.text) ↔
      .flooder .flooderControl ∈ past := by
    intro past
    unfold InControl
    constructor
    · rintro ⟨l, hl, hword⟩
      obtain ⟨line, hline, rfl⟩ := List.mem_map.mp hl
      rwa [← (startswith_marker line .flooderControl).mp hword]
    · intro hmem
      exact ⟨_, List.mem_map_of_mem hmem, (startswith_marker _ .flooderControl).mpr rfl⟩
  refine ⟨_, parseClientTimes_eq fl (wellFormed_render h), ?_, ?_⟩
  · rw [lines_render, occurrences_map isEnd_text]
    unfold ClientTimes.sort
    rw [List.length_map, List.filter_map, List.length_map]
    congr 2
    funext x
    exact decide_eq_decide.mpr (not_congr (hcontrol x.1))
  · rw [lines_render, occurrences_map isEnd_text]
    unfold ClientTimes.sort
    rw [List.length_map, List.filter_map, List.length_map]
    congr 2
    funext x
    exact decide_eq_decide.mpr (hcontrol x.1)

/-! ### Counting a request -/

/-- The `END` line of a message has been written, and the message has not been counted. -/
def ClientPc.Counting : ClientPc → Prop
  | .update _ => True
  | _ => False

/-- The main thread is about to count a message. -/
def MainThread.Counting : MainThread → Prop
  | .request _ thread => thread.pc.Counting
  | _ => False

/-- The step is one of the main thread. -/
def ClientAction.ByMain : ClientAction → Prop
  | .main _ => True
  | _ => False

instance : DecidablePred ClientPc.Counting
  | .update _ => .isTrue trivial
  | .sendRequest | .readAck | .logStart | .readBlock | .sendAck _ | .logEnd _ | .closeSock
  | .closeLog | .returned | .assertFailed | .illegalType => .isFalse not_false

instance : DecidablePred MainThread.Counting
  | .request _ thread => inferInstanceAs (Decidable thread.pc.Counting)
  | .loopTest | .socket | .connect _ | .openLog _ | .returned _ => .isFalse not_false

instance : DecidablePred ClientAction.ByMain
  | .main _ => .isTrue trivial
  | .hear _ | .write | .setState => .isFalse not_false

namespace ClientProcess

variable {p p' p₀ : ClientProcess} {sock : Fd} {thread : ClientThread} {r : CallResult}
  {a : ClientAction} {as : List ClientAction}

/-- The `END` line that is about to be counted is behind a `FLOODER_CONTROL` line. -/
def LastControlled (p : ClientProcess) : Prop :=
  ∃ x ∈ (requestEnds p.log).getLast?, Controlled x

instance : Decidable p.LastControlled := inferInstanceAs (Decidable (∃ _ ∈ _, _))

/-- If this step counts a message, it counts down exactly if its `END` line is behind a
    `FLOODER_CONTROL` line. -/
def CountsAsLogged (p : ClientProcess) (a : ClientAction) : Prop :=
  p.main.Counting → a.ByMain → (p.flooderState = true ↔ p.LastControlled)

/-- If this step counts a message, the counter does not overflow: it stays within the 32 bits of an
    `int`. -/
def CountsInRange (p : ClientProcess) (a : ClientAction) : Prop :=
  p.main.Counting → a.ByMain →
    if p.flooderState then -2 ^ 31 < p.requestCounter.toInt
    else p.requestCounter.toInt + 1 < 2 ^ 31

instance : Decidable (CountsAsLogged p a) := inferInstanceAs (Decidable (_ → _))
instance : Decidable (CountsInRange p a) := inferInstanceAs (Decidable (_ → _ → _))

/-- The messages that have been counted: all but the one that is about to be. -/
def countedEnds (p : ClientProcess) : List (List LogLine × LogLine) :=
  if p.main.Counting then (requestEnds p.log).dropLast else requestEnds p.log

/-- What a step of the main thread writes and counts. -/
inductive Counts (p p' : ClientProcess) : Prop
  | nothing (hlog : p.log <+: p'.log) (hends : requestEnds p'.log = requestEnds p.log)
      (hbefore : ¬ p.main.Counting) (hafter : ¬ p'.main.Counting)
      (hcounter : p'.requestCounter = p.requestCounter)
  | written (nsec : ℤ) (hlog : p'.log = p.log ++ [.requestEnd nsec])
      (hbefore : ¬ p.main.Counting) (hafter : p'.main.Counting)
      (hcounter : p'.requestCounter = p.requestCounter)
  | counted (hlog : p'.log = p.log) (hbefore : p.main.Counting) (hafter : ¬ p'.main.Counting)
      (hcounter : p'.requestCounter = p.updateRequestCounter.requestCounter)

/-- In front of a call that counts, the thread is in front of `update_request_counter`: a thread
    that has returned counts no more. -/
theorem counting_goOn (h : (p.goOn sock thread).main.Counting) : thread.pc.Counting := by
  unfold goOn at h
  split at h
  · exact h
  · exact h.elim
  · exact h.elim
  · exact h

/-- What a call of `client_send_request` writes and counts.  Only the two calls behind a message do
    either for an `END` line. -/
theorem counts_requestStep (h : p.FilesAt p.main) (hmain : p.main = .request sock thread)
    (hstep : p.requestStep sock thread r = some p') : p.Counts p' := by
  -- a call that neither writes nor counts
  have hsilent : ∀ (q : ClientProcess) (thread' : ClientThread), q.log = p.log →
      q.requestCounter = p.requestCounter → ¬ thread.pc.Counting → ¬ thread'.pc.Counting →
      p.Counts (q.goOn sock thread') := by
    intro q thread' hlog hcounter hbefore hafter
    have hsame : (q.goOn sock thread').log = p.log := (goOn_log ..).trans hlog
    apply Counts.nothing
    · exact hsame ▸ List.prefix_refl _
    · rw [hsame]
    · rwa [hmain]
    · exact fun hcounting => hafter (counting_goOn hcounting)
    · rw [goOn_requestCounter, hcounter]
  unfold requestStep at hstep
  split at hstep
  case h_1 hpc =>
    obtain rfl := Option.some.inj hstep
    exact hsilent _ _ rfl rfl (by rw [hpc]; exact not_false) not_false
  case h_2 buffer hpc =>
    obtain rfl := Option.some.inj hstep
    apply hsilent _ _ rfl rfl (by rw [hpc]; exact not_false)
    rcases thread.afterReadAck_pc buffer with hnext | hnext <;> simp [hnext, ClientPc.Counting]
  case h_3 nsec hpc =>
    -- a `START` line
    obtain rfl := Option.some.inj hstep
    apply Counts.nothing
    · rw [goOn_log, writeLog_log h hmain]
      exact List.prefix_append _ _
    · rw [goOn_log, writeLog_log h hmain]
      exact requestEnds_concat not_false
    · rw [hmain]
      show ¬ thread.pc.Counting
      rw [hpc]
      exact not_false
    · exact fun hcounting => counting_goOn hcounting
    · rw [goOn_requestCounter, writeLog_requestCounter]
  case h_4 buffer hpc =>
    obtain rfl := Option.some.inj hstep
    apply hsilent _ _ rfl rfl (by rw [hpc]; exact not_false)
    rcases thread.afterReadBlock_pc buffer with ⟨last, hnext⟩ | hnext <;>
      simp [hnext, ClientPc.Counting]
  case h_5 last hpc =>
    obtain rfl := Option.some.inj hstep
    exact hsilent _ _ rfl rfl (by rw [hpc]; exact not_false) not_false
  case h_6 last nsec hpc =>
    -- an `END` line
    obtain rfl := Option.some.inj hstep
    apply Counts.written nsec
    · rw [goOn_log, writeLog_log h hmain]
    · rw [hmain]
      show ¬ thread.pc.Counting
      rw [hpc]
      exact not_false
    · rw [goOn_main _ _ _ (by simp [ClientThread.afterLogEnd])
        (by simp [ClientThread.afterLogEnd])]
      trivial
    · rw [goOn_requestCounter, writeLog_requestCounter]
  case h_7 last hpc =>
    -- the count of the message
    obtain rfl := Option.some.inj hstep
    apply Counts.counted
    · rw [goOn_log, updateRequestCounter_log]
    · rw [hmain]
      show thread.pc.Counting
      rw [hpc]
      trivial
    · intro hcounting
      have hnext := counting_goOn hcounting
      rcases thread.afterUpdate_pc last with hpc' | hpc' <;> rw [hpc'] at hnext <;> exact hnext
    · rw [goOn_requestCounter]
  case h_8 hpc =>
    obtain rfl := Option.some.inj hstep
    exact hsilent _ _ rfl rfl (by rw [hpc]; exact not_false) not_false
  case h_9 hpc =>
    obtain rfl := Option.some.inj hstep
    exact hsilent _ _ (closeLog_log p) (closeLog_requestCounter p) (by rw [hpc]; exact not_false)
      not_false
  case h_10 hpc | h_11 last hpc =>
    obtain rfl := Option.some.inj hstep
    have hcounting : ¬ p.main.Counting := by
      rw [hmain]
      show ¬ thread.pc.Counting
      rw [hpc]
      exact not_false
    exact .nothing (List.prefix_refl _) rfl hcounting hcounting rfl
  case h_12 => exact absurd hstep (by simp)

/-- What a call of the main thread writes and counts. -/
theorem counts_mainStep (h : p.FilesAt p.main) (hstep : p.mainStep r = some p') :
    p.Counts p' := by
  -- only inside of `client_send_request` a message can be counted
  have hnot : ∀ {main : MainThread}, (∀ sock thread, main ≠ .request sock thread) →
      ¬ main.Counting := by
    intro main hne
    cases main with
    | request sock thread => exact absurd rfl (hne sock thread)
    | loopTest | socket | connect _ | openLog _ | returned _ => exact not_false
  unfold mainStep at hstep
  split at hstep
  case h_8 sock thread hmain => exact counts_requestStep h hmain hstep
  case h_10 => exact absurd hstep (by simp)
  case h_1 hmain =>
    obtain rfl := Option.some.inj hstep
    refine .nothing (List.prefix_refl _) rfl (hnot (by simp [hmain])) (hnot ?_) rfl
    dsimp only
    split <;> simp
  case h_4 sock garbage hmain =>
    obtain rfl := Option.some.inj hstep
    exact .nothing (List.prefix_refl _) rfl (hnot (by simp [hmain])) not_false rfl
  all_goals
    obtain rfl := Option.some.inj hstep
    exact .nothing (List.prefix_refl _) rfl (hnot (by simp [*])) (hnot (by simp [*])) rfl

/-- The listener does not count, and sets `flooder_state` at most: it never takes it back. -/
theorem listenerStep_counter (hstep : p.listenerStep a = some p') :
    p'.requestCounter = p.requestCounter ∧ (p.flooderState = true → p'.flooderState = true) := by
  unfold listenerStep at hstep
  split at hstep
  case h_1 =>
    obtain rfl := Option.some.inj hstep
    exact ⟨rfl, id⟩
  case h_2 =>
    split at hstep
    all_goals
      obtain rfl := Option.some.inj hstep
      exact ⟨rfl, id⟩
  case h_3 marker hwrite =>
    obtain rfl := Option.some.inj hstep
    refine ⟨writeLog_requestCounter .., fun hset => ?_⟩
    exact (writeLog_flooderState ..).trans hset
  case h_4 =>
    obtain rfl := Option.some.inj hstep
    exact ⟨rfl, fun _ => rfl⟩
  case h_5 => exact absurd hstep (by simp)

/-- `update_request_counter` counts by one, up or down, where the counter does not overflow. -/
theorem toInt_updateRequestCounter (h : if p.flooderState then -2 ^ 31 < p.requestCounter.toInt
      else p.requestCounter.toInt + 1 < 2 ^ 31) :
    p.updateRequestCounter.requestCounter.toInt
      = p.requestCounter.toInt + if p.flooderState then -1 else 1 := by
  have hlow := p.requestCounter.le_toInt
  have hhigh := p.requestCounter.toInt_lt
  unfold updateRequestCounter
  by_cases hset : p.flooderState = true
  · simp only [hset, if_true, Bool.not_true, Bool.false_eq_true, if_false] at h ⊢
    rw [Int32.toInt_sub, show (1 : Int32).toInt = 1 from rfl,
      Int.bmod_eq_of_le (by omega) (by omega)]
    omega
  · simp only [hset, Bool.false_eq_true, if_false, Bool.not_false, if_true] at h ⊢
    rw [Int32.toInt_add, show (1 : Int32).toInt = 1 from rfl]
    exact Int.bmod_eq_of_le (by omega) (by omega)

/-! ### The invariant -/

/-- The counter is too low, and every further message is counted down, so it stays too low. -/
def TooLow (p : ClientProcess) : Prop :=
  p.flooderState = true ∧ p.requestCounter.toInt < balance p.countedEnds

/-- The counter is too high, and every further message has an `END` line behind `FLOODER_CONTROL`,
    so it stays too high. -/
def TooHigh (p : ClientProcess) : Prop :=
  .flooder .flooderControl ∈ p.log ∧ (p.main.Counting → p.LastControlled) ∧
    balance p.countedEnds < p.requestCounter.toInt

/-- **The invariant.**  In a run from `p₀`, either all steps count as the log says and the counter
    is the balance of what has been counted, or one has not and the counter is off for good. -/
structure Counted (p₀ : ClientProcess) (as : List ClientAction) (p : ClientProcess) : Prop where
  run : clientProcess.run as p₀ = some p
  paired : p.RequestsPaired
  last : p.main.Counting → requestEnds p.log ≠ []
  kept : clientProcess.StepsMeet CountsInRange as p₀ →
    clientProcess.StepsMeet CountsAsLogged as p₀ →
      p.requestCounter.toInt = balance p.countedEnds
  off : clientProcess.StepsMeet CountsInRange as p₀ →
    ¬ clientProcess.StepsMeet CountsAsLogged as p₀ → p.TooLow ∨ p.TooHigh

/-- A step that does not count, and writes no `END` line: both conditions are met by it, and
    nothing else changes. -/
theorem Counted.silent (h : Counted p₀ as p) (hact : clientProcess.act p a = some p')
    (hcounts : p.main.Counting → ¬ a.ByMain) (hlog : p.log <+: p'.log)
    (hends : requestEnds p'.log = requestEnds p.log)
    (hmain : p'.main.Counting ↔ p.main.Counting)
    (hcounter : p'.requestCounter = p.requestCounter)
    (hstate : p.flooderState = true → p'.flooderState = true) : Counted p₀ (as ++ [a]) p' := by
  have hcounted : p'.countedEnds = p.countedEnds := by
    unfold countedEnds
    rw [hends]
    exact if_congr hmain rfl rfl
  have hrange : clientProcess.StepsMeet CountsInRange (as ++ [a]) p₀ ↔
      clientProcess.StepsMeet CountsInRange as p₀ :=
    ActionSystem.stepsMeet_concat_of_met h.run fun hcounting hby => absurd hby (hcounts hcounting)
  have hok : clientProcess.StepsMeet CountsAsLogged (as ++ [a]) p₀ ↔
      clientProcess.StepsMeet CountsAsLogged as p₀ :=
    ActionSystem.stepsMeet_concat_of_met h.run fun hcounting hby => absurd hby (hcounts hcounting)
  constructor
  case run => exact clientProcess.run_concat_eq_some.mpr ⟨p, h.run, hact⟩
  case paired => exact requestsPaired_step h.paired hact
  case last => rw [hends, hmain]; exact h.last
  case kept => rw [hrange, hok, hcounter, hcounted]; exact h.kept
  case off =>
    rw [hrange, hok]
    intro hin hmeet
    rcases h.off hin hmeet with ⟨hset, hlow⟩ | ⟨hcontrol, hlast, hhigh⟩
    · left
      refine ⟨hstate hset, ?_⟩
      rwa [hcounter, hcounted]
    · right
      refine ⟨hlog.subset hcontrol, ?_, ?_⟩
      · unfold LastControlled
        rwa [hends, hmain]
      · rwa [hcounter, hcounted]

/-- An `END` line is written.  It is not counted yet, so the balance of what has been counted
    stays. -/
theorem Counted.written (h : Counted p₀ as p) (hact : clientProcess.act p a = some p') {nsec : ℤ}
    (hlog : p'.log = p.log ++ [.requestEnd nsec]) (hbefore : ¬ p.main.Counting)
    (hafter : p'.main.Counting) (hcounter : p'.requestCounter = p.requestCounter)
    (hstate : p'.flooderState = p.flooderState) : Counted p₀ (as ++ [a]) p' := by
  have hends : requestEnds p'.log = requestEnds p.log ++ [(p.log, .requestEnd nsec)] := by
    rw [hlog, requestEnds, occurrences_concat]
    exact congrArg _ (if_pos trivial)
  have hcounted : p'.countedEnds = p.countedEnds := by
    unfold countedEnds
    rw [if_pos hafter, if_neg hbefore, hends, List.dropLast_concat]
  have hrange : clientProcess.StepsMeet CountsInRange (as ++ [a]) p₀ ↔
      clientProcess.StepsMeet CountsInRange as p₀ :=
    ActionSystem.stepsMeet_concat_of_met h.run fun hcounting _ => absurd hcounting hbefore
  have hok : clientProcess.StepsMeet CountsAsLogged (as ++ [a]) p₀ ↔
      clientProcess.StepsMeet CountsAsLogged as p₀ :=
    ActionSystem.stepsMeet_concat_of_met h.run fun hcounting _ => absurd hcounting hbefore
  constructor
  case run => exact clientProcess.run_concat_eq_some.mpr ⟨p, h.run, hact⟩
  case paired => exact requestsPaired_step h.paired hact
  case last => intro _; rw [hends]; exact List.concat_ne_nil _ _
  case kept => rw [hrange, hok, hcounter, hcounted]; exact h.kept
  case off =>
    rw [hrange, hok]
    intro hin hmeet
    rcases h.off hin hmeet with ⟨hset, hlow⟩ | ⟨hcontrol, -, hhigh⟩
    · left
      refine ⟨hstate.trans hset, ?_⟩
      rwa [hcounter, hcounted]
    · -- the line is behind `FLOODER_CONTROL`, as all further ones will be
      right
      refine ⟨?_, fun _ => ⟨(p.log, .requestEnd nsec), ?_, hcontrol⟩, ?_⟩
      · rw [hlog]
        exact List.mem_append_left _ hcontrol
      · rw [hends, List.getLast?_concat]
        rfl
      · rwa [hcounter, hcounted]

/-- A message is counted: up or down by `flooder_state`, where its line counts by what is in front
    of it. -/
theorem Counted.counted (h : Counted p₀ as p) (hact : clientProcess.act p a = some p')
    (hlog : p'.log = p.log) (hbefore : p.main.Counting) (hby : a.ByMain)
    (hafter : ¬ p'.main.Counting)
    (hcounter : p'.requestCounter = p.updateRequestCounter.requestCounter)
    (hstate : p'.flooderState = p.flooderState) : Counted p₀ (as ++ [a]) p' := by
  -- the line that is counted is the last one
  obtain ⟨ends, x, hends⟩ : ∃ ends x, requestEnds p.log = ends ++ [x] :=
    ⟨_, _, (List.dropLast_append_getLast (h.last hbefore)).symm⟩
  have hcounted : balance p'.countedEnds
      = balance p.countedEnds + if Controlled x then -1 else 1 := by
    unfold countedEnds
    rw [if_pos hbefore, if_neg hafter, hlog, hends, List.dropLast_concat, balance_concat]
  have hlast : p.LastControlled ↔ Controlled x := by
    unfold LastControlled
    rw [hends, List.getLast?_concat]
    simp
  have hagrees : CountsAsLogged p a ↔ (p.flooderState = true ↔ Controlled x) := by
    unfold CountsAsLogged
    rw [imp_iff_right hbefore, imp_iff_right hby, hlast]
  constructor
  case run => exact clientProcess.run_concat_eq_some.mpr ⟨p, h.run, hact⟩
  case paired => exact requestsPaired_step h.paired hact
  case last => exact fun hcounting => absurd hcounting hafter
  case kept =>
    rw [ActionSystem.stepsMeet_concat h.run, ActionSystem.stepsMeet_concat h.run]
    rintro ⟨hin, hrange⟩ ⟨hmeet, hok⟩
    rw [hcounter, toInt_updateRequestCounter (hrange hbefore hby), hcounted, h.kept hin hmeet,
      if_congr (hagrees.mp hok) rfl rfl]
  case off =>
    rw [ActionSystem.stepsMeet_concat h.run, ActionSystem.stepsMeet_concat h.run]
    rintro ⟨hin, hrange⟩ hmeet
    have htoInt := toInt_updateRequestCounter (hrange hbefore hby)
    rw [← hcounter] at htoInt
    by_cases hkept : clientProcess.StepsMeet CountsAsLogged as p₀
    · -- this message is the first that is counted the wrong way
      have heq := h.kept hin hkept
      have hwrong : ¬ (p.flooderState = true ↔ Controlled x) :=
        fun hx => hmeet ⟨hkept, hagrees.mpr hx⟩
      by_cases hset : p.flooderState = true
      · -- counted down for a line in front of `FLOODER_CONTROL`
        have hx : ¬ Controlled x := fun hx => hwrong (iff_of_true hset hx)
        rw [if_pos hset] at htoInt
        rw [if_neg hx] at hcounted
        exact .inl ⟨hstate.trans hset, by omega⟩
      · -- counted up for a line behind it
        have hx : Controlled x := by
          by_contra hx
          exact hwrong (iff_of_false hset hx)
        have hmem : x ∈ requestEnds p.log := by
          rw [hends]
          exact List.mem_append_right _ List.mem_cons_self
        obtain ⟨-, l', hsplit⟩ := mem_occurrences.mp hmem
        rw [if_neg hset] at htoInt
        rw [if_pos hx] at hcounted
        refine .inr ⟨?_, fun hcounting => absurd hcounting hafter, by omega⟩
        rw [hlog, hsplit]
        exact List.mem_append_left _ hx
    · -- the counter goes on on its side
      rcases h.off hin hkept with ⟨hset, hlow⟩ | ⟨hcontrol, hbehind, hhigh⟩
      · rw [if_pos hset] at htoInt
        refine .inl ⟨hstate.trans hset, ?_⟩
        split at hcounted <;> omega
      · rw [if_pos (hlast.mp (hbehind hbefore))] at hcounted
        refine .inr ⟨hlog ▸ hcontrol, fun hcounting => absurd hcounting hafter, ?_⟩
        split at htoInt <;> omega

/-- The step of a run: each of the three kinds of steps of the main thread, and those of the
    listener, which do not count. -/
theorem counted_step (p₀ : ClientProcess) : clientProcess.History (Counted p₀) := by
  intro as p a p' h hact
  cases a with
  | main r =>
    obtain ⟨-, hstep⟩ := act_main hact
    obtain ⟨-, -, hstate, -⟩ := mainStep_listener hstep
    cases counts_mainStep h.paired.files hstep with
    | nothing hlog hends hbefore hafter hcounter =>
      exact h.silent hact (fun hcounting => absurd hcounting hbefore) hlog hends
        (iff_of_false hafter hbefore) hcounter fun hset => hstate.trans hset
    | written nsec hlog hbefore hafter hcounter =>
      exact h.written hact hlog hbefore hafter hcounter hstate
    | counted hlog hbefore hafter hcounter =>
      exact h.counted hact hlog hbefore trivial hafter hcounter hstate
  | hear msg | write | setState =>
    have hstep := (act_listener hact (by simp)).2
    obtain ⟨hmain, -, -, hlog⟩ := listenerStep_log hstep
    obtain ⟨hcounter, hstate⟩ := listenerStep_counter hstep
    have hlines : p.log <+: p'.log ∧ requestEnds p'.log = requestEnds p.log := by
      rcases hlog with hlog | ⟨marker, hlog⟩
      · rw [hlog]
        exact ⟨List.prefix_refl _, rfl⟩
      · rw [hlog]
        exact ⟨List.prefix_append _ _, requestEnds_concat not_false⟩
    exact h.silent hact (fun _ => not_false) hlines.1 hlines.2 (by rw [hmain]) hcounter hstate

end ClientProcess

open ClientProcess

/-- **The counter and the log.**  In every run of the client, behind every message, the counter has
    not overflowed and is the number of samples less the number of samples of the control sequence
    that the parser takes from the log, if and only if every step that counted a message did it in
    range, and down exactly if the `END` line is behind a `FLOODER_CONTROL` line.  How the parser
    rounds the times does not matter. -/
theorem counter_agrees_iff (fl : ℚ → ℚ) (withLogFile : Bool) (as : List ClientAction)
    {p : ClientProcess} (hrun : clientProcess.run as (.start withLogFile) = some p)
    (hbetween : ¬ p.main.Counting) :
    ∃ r, parseClientTimes fl (render p.log) = .ok r ∧
      r.rtts.length = ((requestEnds p.log).filter fun x => ¬ Controlled x).length ∧
      r.ctrlRtts.length = ((requestEnds p.log).filter fun x => Controlled x).length ∧
      (clientProcess.StepsMeet CountsInRange as (.start withLogFile) ∧
          p.requestCounter.toInt = r.rtts.length - r.ctrlRtts.length ↔
        clientProcess.StepsMeet (fun p a => CountsInRange p a ∧ CountsAsLogged p a) as
          (.start withLogFile)) := by
  have hstart : Counted (.start withLogFile) [] (.start withLogFile) := by
    refine ⟨rfl, ⟨(tracked_start withLogFile).files, False.elim, ?_⟩, False.elim,
      fun _ _ => rfl, ?_⟩
    · exact fun _ hx => absurd hx List.not_mem_nil
    · exact fun _ hmeet => absurd trivial hmeet
  have h : Counted (.start withLogFile) as p := (counted_step _).run hstart hrun
  obtain ⟨r, hparse, hrtts, hctrl⟩ := parse_balance fl h.paired.paired
  have hcounted : balance p.countedEnds = r.rtts.length - r.ctrlRtts.length := by
    unfold countedEnds
    rw [if_neg hbetween, balance, hrtts, hctrl]
  refine ⟨r, hparse, hrtts, hctrl, ?_⟩
  rw [← hcounted, ActionSystem.stepsMeet_and]
  refine and_congr_right fun hrange => ?_
  constructor
  · -- a counter that is off does not agree
    intro heq
    by_contra hmeet
    rcases h.off hrange hmeet with ⟨-, hlow⟩ | ⟨-, -, hhigh⟩ <;> omega
  · exact h.kept hrange

/-- The calls of a connection up to the write of the `END` line of its first message. -/
def toFirstEnd (t : ProtoType) : List ClientAction :=
  toFirstRequest ++ [.main .done, .main (.filled (frame (.blank .reqAck))), .main (.clock 1),
    .main (.filled (frame (.blank t))), .main .done, .main (.clock 2)]

/-- The message that begins the control sequence. -/
def hearControl : List ClientAction := [.hear (some clientControl), .write, .setState]

/-- A message before the control sequence, which is counted up, and one in it, counted down. -/
theorem counter_agrees_two_messages : ∃ p r,
    clientProcess.run (toFirstEnd .fileBlock ++ [.main .done] ++ hearControl ++
      [.main (.clock 3), .main (.filled (frame (.blank .fileComplete))), .main .done,
        .main (.clock 4), .main .done]) (.start false) = some p ∧
    parseClientTimes binary64 (render p.log) = .ok r ∧ p.requestCounter.toInt
      = r.rtts.length - r.ctrlRtts.length := by
  have hsome : ((clientProcess.run (toFirstEnd .fileBlock ++ [.main .done] ++ hearControl ++
      [.main (.clock 3), .main (.filled (frame (.blank .fileComplete))), .main .done,
        .main (.clock 4), .main .done]) (.start false)).any fun p =>
          decide ¬ p.main.Counting) = true := by
    decide +kernel
  obtain ⟨p, hrun, hp⟩ := (Option.any_eq_true _ _).mp hsome
  obtain ⟨r, hparse, -, -, hiff⟩ := counter_agrees_iff binary64 false _ hrun (of_decide_eq_true hp)
  exact ⟨p, r, hrun, hparse, (hiff.mpr (by decide +kernel)).2⟩

/-- `CONTRO` is handled between the `END` line of the one message and its count: the message is a
    sample of the first phase, and is counted down. -/
theorem counter_disagrees : ∃ p r,
    clientProcess.run (toFirstEnd .fileComplete ++ hearControl ++
      [.main .done, .main .done, .main .done]) (.start false) = some p ∧
    clientProcess.StepsMeet WritesWhileOpen (toFirstEnd .fileComplete ++ hearControl ++
      [.main .done, .main .done, .main .done]) (.start false) ∧
    p.main = .loopTest ∧ p.listener = .read ∧ parseClientTimes binary64 (render p.log) = .ok r ∧
    r.rtts.length = 1 ∧ r.ctrlRtts.length = 0 ∧ p.requestCounter.toInt = -1 ∧
    p.requestCounter.toInt ≠ r.rtts.length - r.ctrlRtts.length := by
  have hsome : ((clientProcess.run (toFirstEnd .fileComplete ++ hearControl ++
      [.main .done, .main .done, .main .done]) (.start false)).any fun p =>
        decide (p.main = .loopTest ∧ p.listener = .read ∧ p.requestCounter.toInt = -1 ∧
          p.log = [.requestStart 1, .requestEnd 2, .flooder .flooderControl])) = true := by
    decide +kernel
  obtain ⟨p, hrun, hp⟩ := (Option.any_eq_true _ _).mp hsome
  obtain ⟨hmain, hlistener, hcounter, hlog⟩ := of_decide_eq_true hp
  obtain ⟨r, hparse, hrtts, hctrl⟩ := parse_balance binary64 (paired_of_run hrun)
  rw [hlog] at hrtts hctrl
  have hone : r.rtts.length = 1 := hrtts.trans (by decide)
  have hzero : r.ctrlRtts.length = 0 := hctrl.trans (by decide)
  refine ⟨p, r, hrun, by decide +kernel, hmain, hlistener, hparse, hone, hzero, hcounter, ?_⟩
  rw [hcounter, hone, hzero]
  decide

end NetworkExperiment
