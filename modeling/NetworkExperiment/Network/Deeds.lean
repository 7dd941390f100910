import NetworkExperiment.Lib.ActionSystem
import NetworkExperiment.Lib.LastEvent

namespace NetworkExperiment

open ActionSystems LastEvents

/-!
# What a function does with its connection

* `Deed` — a call of `cmpsc311_read_bytes`, or something done on account of the messages read;
* `ActsOnFullFrames` — nothing is done on account of a message behind a read that has failed;
* `actsOnFullFrames_iff` — where every message is checked, whether its read has failed or not, the
  deeds of a run are right if and only if no read of the run fails.
-/

/-- A step of a function that receives messages. -/
inductive Deed
  /-- `cmpsc311_read_bytes` returns 0, or it returns `-1`. -/
  | read (full : Bool)
  /-- The type of the message in the buffer is compared with those expected. -/
  | check
  /-- A message is sent. -/
  | send
  /-- `access` or `open` of the file asked for. -/
  | file
  /-- A line is written to the timing log, or `request_counter` is updated. -/
  | log
  /-- The connection or the log is closed. -/
  | close
deriving DecidableEq, Repr

/-- A message is acted on. -/
def Deed.IsAct : Deed → Prop
  | .check | .send | .file | .log => True
  | .read _ | .close => False

instance : DecidablePred Deed.IsAct
  | .check | .send | .file | .log => .isTrue trivial
  | .read _ | .close => .isFalse not_false

/-- Nothing is checked, answered or otherwise acted on once a read has failed. -/
def ActsOnFullFrames (deeds : List Deed) : Prop :=
  ∀ x ∈ occurrences Deed.IsAct deeds, .read false ∉ x.1

instance (deeds : List Deed) : Decidable (ActsOnFullFrames deeds) :=
  inferInstanceAs (Decidable (∀ _ ∈ _, _))

variable {ds es : List Deed}

/-- Without a failed read all is right. -/
theorem actsOnFullFrames_of_notMem (h : .read false ∉ ds) : ActsOnFullFrames ds := by
  intro x hx hread
  obtain ⟨-, rest, hsplit⟩ := mem_occurrences.mp hx
  exact h (hsplit ▸ List.mem_append_left _ hread)

/-- A failed read whose message is checked is not right. -/
theorem not_actsOnFullFrames (ds : List Deed) :
    ¬ ActsOnFullFrames (ds ++ [.read false, .check]) := by
  intro h
  have hcheck : (ds ++ [.read false], Deed.check)
      ∈ occurrences Deed.IsAct (ds ++ [.read false, .check]) :=
    mem_occurrences.mpr ⟨trivial, [], by simp⟩
  exact h _ hcheck (List.mem_append_right _ List.mem_cons_self)

/-- What is right at the end has been right before. -/
theorem ActsOnFullFrames.of_append (h : ActsOnFullFrames (ds ++ es)) : ActsOnFullFrames ds := by
  intro x hx
  obtain ⟨hact, rest, rfl⟩ := mem_occurrences.mp hx
  exact h x (mem_occurrences.mpr ⟨hact, rest ++ es, by simp⟩)

section Run

variable {σ Act : Type*} {M : ActionSystem σ Act} {deeds : σ → List Deed} {full : σ → Prop}

/-- **Reads that fail.**  Where the deeds of a step are free of failed reads, or a failed read and
    the check of its message, a run acts on full frames only if and only if every read of it is
    full. -/
theorem actsOnFullFrames_iff (hfull : ∀ s, full s → .read false ∉ deeds s)
    (hshort : ∀ s, ¬ full s → deeds s = [.read false, .check]) {as : List Act} {s : σ}
    {t : σ × List Deed} (hrun : (M.recorded deeds).run as (s, []) = some t) :
    ActsOnFullFrames t.2 ↔ M.StepsMeet (fun s _ => full s) as s := by
  have hstrong : (M.StepsMeet (fun s _ => full s) as s → .read false ∉ t.2) ∧
      (ActsOnFullFrames t.2 → M.StepsMeet (fun s _ => full s) as s) := by
    induction as using List.reverseRecOn generalizing t with
    | nil =>
      obtain rfl := Option.some.inj hrun
      exact ⟨fun _ => List.not_mem_nil, fun _ => trivial⟩
    | append_singleton as a ih =>
      obtain ⟨r, hr, hstep⟩ := ActionSystem.run_concat_eq_some _ |>.mp hrun
      obtain ⟨u, hu, rfl⟩ := Option.map_eq_some_iff.mp hstep
      obtain ⟨hsound, hcomplete⟩ := ih hr
      rw [ActionSystem.stepsMeet_concat (ActionSystem.run_of_recorded hr)]
      constructor
      · rintro ⟨hmeet, hlast⟩ hmem
        rcases List.mem_append.mp hmem with hmem | hmem
        · exact hsound hmeet hmem
        · exact hfull _ hlast hmem
      · intro hacts
        refine ⟨hcomplete hacts.of_append, ?_⟩
        by_contra hnot
        have hdeeds : deeds r.1 = [.read false, .check] := hshort _ hnot
        rw [hdeeds] at hacts
        exact not_actsOnFullFrames _ hacts
  exact ⟨hstrong.2, fun hmeet => actsOnFullFrames_of_notMem (hstrong.1 hmeet)⟩

end Run

end NetworkExperiment
