import NetworkExperiment.Capture.Termination
import NetworkExperiment.Lib.TwoWayChain

namespace NetworkExperiment

open ByteBuffers FileOffsets Loops Relation StateTransition TwoWayChains

/-!
# Damaged environment logs

The two passes of the display may come by different records: the one back follows the offsets at
their ends, the one forward the lengths of the names.

* `WholeRecords` / `DamageReported` — the display returns 0 only if the bytes that it goes over are
  whole records, each with its own offset;
* `display_fails_iff` — the second pass fails exactly if the records from the first entry on break
  off;
* `wholeRecords_iff` — the bytes are whole records with their offsets if both ways are the same;
* `damageReported_iff` — damage is reported exactly if the records break off in front of four bytes
  or more, or each link that the first pass has followed spans the record of the second pass.
-/

/-! ### Damage -/

/-- Each of the records ends with the position where it starts. -/
def OwnOffsets : ℕ → List WireRecord → Prop
  | _, [] => True
  | p, w :: ws => w.offset.toNat = p ∧ OwnOffsets (p + w.encode.length) ws

/-- The bytes from `p` to the end are whole records, each of which ends with its position. -/
def WholeRecords (content : List UInt8) (p : ℕ) : Prop :=
  ∃ ws : List WireRecord, content.drop p = ws.flatMap WireRecord.encode ∧ OwnOffsets p ws

/-- Where the display returns 0, it has gone over whole records, and where they are not whole, it
    returns -1. -/
def DamageReported (content : List UInt8) : Prop :=
  ∀ out, displayEnvironmentLog content = some out →
    (out.ret = 0 →
      ∃ first, locateFirst content = some (some first) ∧ WholeRecords content first.toNat) ∧
    ((∀ first, locateFirst content = some (some first) → ¬ WholeRecords content first.toNat) →
      out.ret = -1)

/-- A record lies between two positions. -/
def Spans (content : List UInt8) (p q : ℕ) : Prop :=
  ∃ w, RecordAt content p w ∧ q = p + w.encode.length

/-- The records from `p` on break off in front of four bytes or more. -/
def BreaksOff (content : List UInt8) (p : ℕ) : Prop :=
  ∃ q, ReflTransGen (Spans content) p q ∧ q + 4 ≤ content.length ∧ ∀ w, ¬ RecordAt content q w

/-- Every link on the way back from the end spans a record. -/
def LinksSpan (content : List UInt8) : Prop :=
  ∀ e s, ReflTransGen (Link content) content.length e → Link content e s → Spans content s e

/-- From the first entry, if there is one, the records break off, or they are those of the links. -/
def PassesAgree (content : List UInt8) : Prop :=
  ∀ first, ReflTransGen (Link content) content.length first → IsFirst content first →
    BreaksOff content first ∨ LinksSpan content

variable {content : List UInt8} {p e s s' : ℕ} {w : WireRecord} {ofs first : UInt32}

/-- Only in an empty file do the links lead to its beginning. -/
theorem eq_nil_of_links_zero (h : ReflTransGen (Link content) content.length 0) : content = [] := by
  rcases h.cases_tail with hzero | ⟨e, -, hlink⟩
  · exact List.eq_nil_of_length_eq_zero hzero.symm
  · exact absurd rfl hlink.ne_zero

/-! ### The second pass -/

/-- The display goes along the records. -/
theorem spans_of_reaches {s t : File × List Record} (hs : Displaying content s)
    (h : Reaches (next displayStep) s t) :
    ReflTransGen (Spans content) s.1.offset t.1.offset := by
  induction h with
  | refl => exact .refl
  | tail hreach hstep ih =>
    obtain ⟨w, hrecord, rfl⟩ := displayStep_inl ((displayStep_lowers content).reaches hs hreach)
      (next_eq_some_iff.mp hstep)
    exact ih.tail ⟨w, hrecord, rfl⟩

/-- Along the records goes the display. -/
theorem reaches_of_spans {s : File × List Record} (hs : Displaying content s) {q : ℕ}
    (h : ReflTransGen (Spans content) s.1.offset q) :
    ∃ t, Reaches (next displayStep) s t ∧ t.1.offset = q := by
  induction h with
  | refl => exact ⟨s, .refl, rfl⟩
  | tail _ hspan ih =>
    obtain ⟨t, hreach, rfl⟩ := ih
    obtain ⟨w, hrecord, rfl⟩ := hspan
    have hstep := displayStep_of_recordAt ((displayStep_lowers content).reaches hs hreach) hrecord
    exact ⟨_, hreach.tail (next_eq_some_iff.mpr hstep), rfl⟩

/-- The display fails exactly if the records break off. -/
theorem display_fails_iff {s : File × List Record} (hs : Displaying content s) {fuel : ℕ}
    {out : Displayed} (h : run displayStep fuel s = some out) :
    out.ret = -1 ↔ BreaksOff content s.1.offset := by
  obtain ⟨t, hreach, hend⟩ := reaches_of_run h
  constructor
  · intro hret
    refine ⟨t.1.offset, spans_of_reaches hs hreach, ?_⟩
    obtain ⟨rfl, hle⟩ := (displayStep_lowers content).reaches hs hreach
    rcases displayStep_cases hle t.2 with ⟨w, -, hstep⟩ | ⟨-, hzero⟩ | ⟨hlong, hnone, -⟩
    · cases hend.symm.trans hstep
    · obtain rfl := Sum.inr.inj (hend.symm.trans hzero)
      cases hret
    · exact ⟨hlong, hnone⟩
  · rintro ⟨q, hspans, hlong, hnone⟩
    obtain ⟨t', hreach', rfl⟩ := reaches_of_spans hs hspans
    obtain ⟨rfl, hle⟩ := (displayStep_lowers content).reaches hs hreach'
    rcases displayStep_cases hle t'.2 with ⟨w, hrecord, -⟩ | ⟨hshort, -⟩ | ⟨-, -, err, hfail⟩
    · exact absurd hrecord (hnone w)
    · omega
    · -- the display leaves from one state only
      obtain ⟨-, rfl⟩ := end_unique hreach hend hreach' hfail
      rfl

/-! ### Both passes -/

/-- **Whole records.**  The bytes are whole records with their offsets exactly if the records lead
    to the end of the file, and the links the same way back. -/
theorem wholeRecords_iff (hp : p ≤ content.length) (hzero : p = 0 → content = []) :
    WholeRecords content p ↔
      ReflTransGen (TwoWay (Spans content) (Link content)) p content.length := by
  constructor
  · rintro ⟨ws, hbytes, hoffsets⟩
    induction ws generalizing p with
    | nil =>
      have hlen := congrArg List.length hbytes
      rw [List.length_drop, List.flatMap_nil, List.length_nil] at hlen
      obtain rfl : p = content.length := by omega
      exact .refl
    | cons w ws ih =>
      obtain ⟨hoffset, hoffsets⟩ := hoffsets
      rw [List.flatMap_cons] at hbytes
      have hrecord : RecordAt content p w := ⟨_, hbytes.symm⟩
      have hle := hrecord.le_length
      have hmin := w.length_encode_ge
      have hrest : content.drop (p + w.encode.length) = ws.flatMap WireRecord.encode := by
        rw [← List.drop_drop, hbytes, List.drop_left]
      refine (ih hle (by omega) hrest hoffsets).head ⟨⟨w, hrecord, rfl⟩, ?_, ?_, by omega⟩
      · rw [offsetBefore_of_recordAt hrecord, hoffset]
      · intro hnil
        rw [hzero hnil] at hle
        exact absurd hle (by rw [List.length_nil]; omega)
  · intro h
    induction h using ReflTransGen.head_induction_on with
    | refl => exact ⟨[], by rw [List.drop_length, List.flatMap_nil], trivial⟩
    | head hlink _ ih =>
      obtain ⟨⟨w, hrecord, rfl⟩, hback⟩ := hlink
      have hle := hrecord.le_length
      have hmin := w.length_encode_ge
      obtain ⟨ws, hbytes, hoffsets⟩ := ih hle (by omega)
      obtain ⟨post, hpost⟩ := hrecord
      refine ⟨w :: ws, ?_, ?_, hoffsets⟩
      · rw [List.flatMap_cons, ← hbytes, ← hpost, ← List.drop_drop, ← hpost, List.drop_left]
      · rw [← offsetBefore_of_recordAt ⟨post, hpost⟩]
        exact hback.word

/-- From the first entry on there are whole records exactly if every link spans one. -/
theorem wholeRecords_first_iff (hsize : content.length < 2 ^ 32 - 27)
    (h : locateFirst content = some (some first)) :
    WholeRecords content first.toNat ↔ LinksSpan content := by
  obtain ⟨hchain, hfirst⟩ := (locateFirst_eq_some_some_iff hsize).mp h
  have hzero : first.toNat = 0 → content = [] := by
    intro hnil
    rw [hnil] at hchain
    exact eq_nil_of_links_zero hchain
  have hle : first.toNat ≤ content.length := (displaying_first hsize h).offset_le
  rw [wholeRecords_iff hle hzero,
    twoWay_iff (link_rightUnique content) (not_link_of_isFirst hfirst)]
  exact and_iff_right hchain

/-- The display finds no first entry and fails, or fails if the records from there on break off. -/
theorem display_cases (hsize : content.length < 2 ^ 32 - 27) {out : Displayed}
    (hout : displayEnvironmentLog content = some out) :
    (locateFirst content = some none ∧ out.ret = -1) ∨
    ∃ first : UInt32, locateFirst content = some (some first) ∧
      (out.ret = -1 ↔ BreaksOff content first.toNat) := by
  rw [displayEnvironmentLog_eq] at hout
  cases hlocate : locateFirst content with
  | none =>
    rw [hlocate] at hout
    cases hout
  | some first =>
    rw [hlocate] at hout
    cases first with
    | none =>
      obtain rfl := Option.some.inj hout
      exact .inl ⟨rfl, rfl⟩
    | some first =>
      exact .inr ⟨first, rfl, display_fails_iff (displaying_first hsize hlocate) hout⟩

/-- **Damage.**  It is reported exactly if the records from the first entry on break off in front of
    four bytes or more, or every link of the way back spans a record: neither are one to three bytes
    behind the last record an error, nor is the offset of a record compared with its position. -/
theorem damageReported_iff (content : List UInt8) (hsize : content.length < 2 ^ 32 - 27) :
    DamageReported content ↔ PassesAgree content := by
  obtain ⟨out, hout, hret⟩ := display_returns hsize
  have hcases := display_cases hsize hout
  constructor
  · intro h e hchain hfirst
    obtain ⟨first, rfl, -⟩ := reaches_of_links hsize hchain
    have hlocated := (locateFirst_eq_some_some_iff hsize).mpr ⟨hchain, hfirst⟩
    obtain ⟨hwhole, -⟩ := h out hout
    rcases hcases with ⟨hbad, -⟩ | ⟨first', hlocated', hfails⟩
    · cases hlocated.symm.trans hbad
    · obtain rfl := Option.some.inj (Option.some.inj (hlocated.symm.trans hlocated'))
      rcases hret with hzero | hfailed
      · -- the display has gone over whole records
        obtain ⟨first', hlocated', hrecords⟩ := hwhole hzero
        obtain rfl := Option.some.inj (Option.some.inj (hlocated.symm.trans hlocated'))
        exact .inr ((wholeRecords_first_iff hsize hlocated).mp hrecords)
      · exact .inl (hfails.mp hfailed)
  · intro h out' hout'
    obtain rfl := Option.some.inj (hout.symm.trans hout')
    rcases hcases with ⟨-, hfailed⟩ | ⟨first, hlocated, hfails⟩
    · rw [hfailed]
      exact ⟨fun hzero => absurd hzero (by decide), fun _ => rfl⟩
    · obtain ⟨hchain, hfirst⟩ := (locateFirst_eq_some_some_iff hsize).mp hlocated
      rcases h first.toNat hchain hfirst with hbreaks | hspan
      · rw [hfails.mpr hbreaks]
        exact ⟨fun hzero => absurd hzero (by decide), fun _ => rfl⟩
      · have hrecords := (wholeRecords_first_iff hsize hlocated).mpr hspan
        exact ⟨fun _ => ⟨first, hlocated, hrecords⟩,
          fun hnone => absurd hrecords (hnone first hlocated)⟩

/-- A record of zeros that ends with the offset `next`. -/
def zeroRecord (next : UInt8) : WireRecord :=
  ⟨.zero 4, .zero 4, .zero 4, .zero 4, ⟨[], by decide⟩, ⟨[], by decide⟩, ⟨[], by decide⟩, .zero 4,
    ⟨[0, 0, 0, next], rfl⟩⟩

/-- A log of four zero bytes and a record, which the only link spans. -/
theorem damageReported_one_record : DamageReported (List.replicate 30 0 ++ [4]) := by
  refine (damageReported_iff _ (by decide)).mpr fun first _ _ => .inr ?_
  have hend : ∀ s, Link (List.replicate 30 0 ++ [4]) 31 s → s = 4 := by
    intro s hlink
    rw [← hlink.word]
    decide +kernel
  intro e s hchain hlink
  obtain rfl : e = 31 := by
    rcases hchain.cases_head with rfl | ⟨e', hfirst, hrest⟩
    · rfl
    · -- behind the link there is no other
      rw [hend e' hfirst] at hrest
      have hfour : ∀ e, ¬ Link (List.replicate 30 0 ++ [4]) 4 e := fun e h => by
        have hfits := h.fits
        omega
      rcases hrest.cases_head with rfl | ⟨e'', hsecond, -⟩
      · exact absurd hlink (hfour s)
      · exact absurd hsecond (hfour e'')
  rw [hend s hlink]
  exact ⟨zeroRecord 4, ⟨[], by decide +kernel⟩, by decide +kernel⟩

/-- One byte behind the last record: the display goes over a record whose offset is zero, at 4, and
    returns 0. -/
theorem damage_not_reported : ¬ DamageReported (List.replicate 31 0 ++ [4]) := by
  intro h
  have hdisplay : displayEnvironmentLog (List.replicate 31 0 ++ [4])
      = some ⟨0, [(zeroRecord 0).decode], none⟩ := by decide +kernel
  obtain ⟨first, hfirst, ws, hbytes, -⟩ := (h _ hdisplay).1 rfl
  have hfour : locateFirst (List.replicate 31 0 ++ [4]) = some (some 4) := by decide +kernel
  obtain rfl := Option.some.inj (Option.some.inj (hfirst.symm.trans hfour))
  have hsplit : (List.replicate 31 (0 : UInt8) ++ [4]).drop (4 : UInt32).toNat
      = (zeroRecord 0).encode ++ [4] := by decide +kernel
  rw [hsplit] at hbytes
  -- the record is the first one, and the byte behind it is none
  cases ws with
  | nil => cases hbytes
  | cons w ws =>
    rw [List.flatMap_cons] at hbytes
    have hrest := (encode_append_inj hbytes).2.2
    cases ws with
    | nil => cases hrest
    | cons w' ws =>
      have hlen := congrArg List.length hrest
      have hmin := w'.length_encode_ge
      rw [List.flatMap_cons, List.length_append, List.length_singleton] at hlen
      omega

end NetworkExperiment
