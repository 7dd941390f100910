import NetworkExperiment.Capture.Steps

namespace NetworkExperiment

open FileOffsets Loops StateTransition

/-!
# The display ends on every file

* `display_returns` — the display returns 0 or -1, whatever the file holds;
* `displayEnvironmentLog_ends` — so it does, and every step of its loops passes over a record at
  least.
-/

variable {content : List UInt8}

/-- A display ends with 0, or with -1 and a message. -/
theorem ret_of_displayStep {s : File × List Record} {out : Displayed} (hs : Displaying content s)
    (h : displayStep s = .inr out) : out.ret = 0 ∨ out.ret = -1 := by
  obtain ⟨f, shown⟩ := s
  obtain ⟨rfl, hle⟩ := hs
  rcases displayStep_cases hle shown with ⟨w, -, hstep⟩ | ⟨-, hend⟩ | ⟨-, -, err, hend⟩
  · cases h.symm.trans hstep
  · obtain rfl := Sum.inr.inj (h.symm.trans hend)
    exact .inl rfl
  · obtain rfl := Sum.inr.inj (h.symm.trans hend)
    exact .inr rfl

/-- The display returns 0 or -1. -/
theorem display_returns (hsize : content.length < 2 ^ 32 - 27) :
    ∃ out, displayEnvironmentLog content = some out ∧ (out.ret = 0 ∨ out.ret = -1) := by
  have hdisplay := displayStep_lowers content
  have hstart := toNat_ofNat_length hsize
  obtain ⟨first, hfirst⟩ := (backStep_lowers hsize).ends (by decide) (Nat.le_of_eq hstart)
    (Nat.lt_succ_of_le (Nat.le_of_eq hstart))
  rw [displayEnvironmentLog_eq, show locateFirst content = some first from hfirst]
  cases first with
  | none => exact ⟨_, rfl, .inr rfl⟩
  | some first =>
    have hdisplaying := displaying_first hsize hfirst
    obtain ⟨out, hout⟩ := hdisplay.ends (by decide) hdisplaying
      (Nat.lt_succ_of_le (Nat.sub_le content.length _))
    obtain ⟨s, hreach, hend⟩ := reaches_of_run hout
    exact ⟨out, hout, ret_of_displayStep (hdisplay.reaches hdisplaying hreach) hend⟩

/-- **The display ends on every file.**  It returns 0 or -1; a step of the way back that goes on
    lowers the offset by 27 at least, and a round of the display that goes on passes over 27 bytes
    at least, stays inside the file, and has put no more than 255 characters in front of the `NUL`
    of a name. -/
theorem displayEnvironmentLog_ends (content : List UInt8) (hsize : content.length < 2 ^ 32 - 27) :
    (∃ out, displayEnvironmentLog content = some out ∧ (out.ret = 0 ∨ out.ret = -1)) ∧
    (∀ ofs s, Reaches (next (backStep (openedLog content))) (UInt32.ofNat content.length) ofs →
      backStep (openedLog content) ofs = .inl s → s.toNat + 27 ≤ ofs.toNat) ∧
    ∀ first s t, locateFirst content = some (some first) →
      Reaches (next displayStep) ((openedLog content).seekSet first.toNat, []) s →
      displayStep s = .inl t → s.1.offset + 27 ≤ t.1.offset ∧ t.1.offset ≤ content.length ∧
        ∃ r, t.2 = s.2 ++ [r] ∧ r.NamesFit := by
  have hback := backStep_lowers hsize
  have hdisplay := displayStep_lowers content
  have hstart : (UInt32.ofNat content.length).toNat ≤ content.length :=
    Nat.le_of_eq (toNat_ofNat_length hsize)
  refine ⟨display_returns hsize, ?_, ?_⟩
  · intro ofs s hreach hstep
    exact hback.lowers (hback.reaches hstart hreach) hstep
  · intro first s t hfirst hreach hstep
    have hs := hdisplay.reaches (displaying_first hsize hfirst) hreach
    obtain ⟨w, hrecord, rfl⟩ := displayStep_inl hs hstep
    have hmin := w.length_encode_ge
    refine ⟨?_, hrecord.le_length, w.decode, rfl, w.namesFit_decode⟩
    show s.1.offset + 27 ≤ s.1.offset + w.encode.length
    omega

/-- The round over the one record of a log. -/
theorem displayEnvironmentLog_ends_one_record :
    ∃ t, displayStep ((openedLog (List.replicate 30 0 ++ [4])).seekSet 4, []) = .inl t ∧
      4 + 27 ≤ t.1.offset ∧ t.1.offset ≤ 31 ∧ ∃ r, t.2 = [] ++ [r] ∧ r.NamesFit := by
  obtain ⟨-, -, hround⟩ := displayEnvironmentLog_ends (List.replicate 30 0 ++ [4]) (by decide)
  have hfirst : locateFirst (List.replicate 30 0 ++ [4]) = some (some 4) := by decide +kernel
  have hstep : displayStep ((openedLog (List.replicate 30 0 ++ [4])).seekSet 4, [])
      = .inl (⟨List.replicate 30 0 ++ [4], 31⟩, [⟨0, 0, 0, 0, [], [], [], [0, 0, 0, 0], 4⟩]) := by
    decide +kernel
  exact ⟨_, hstep, hround 4 _ _ hfirst .refl hstep⟩

end NetworkExperiment
