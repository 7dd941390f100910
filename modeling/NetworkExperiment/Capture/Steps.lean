import NetworkExperiment.Capture.Layout

namespace NetworkExperiment

open ByteBuffers FileOffsets Loops Relation StateTransition

/-!
# The two passes of the display

The display goes over the file twice: back from its end, by the offsets at the ends of the records,
and forward from there, record by record.

* `openedLog` / `locateFirst` — the file as it is opened, and where the first pass ends;
* `Link` / `IsFirst` — what the four bytes in front of an offset say, and `backStep_cases` what the
  way back does there;
* `backStep_lowers` — a step back passes over 27 bytes at least;
* `locateFirst_eq_some_some_iff` — the first entry is where the links from the end of the file lead;
* `RecordAt` / `displayStep_cases` — what a round of the display does at the bytes that are left;
* `displayStep_lowers` — a round passes over 27 bytes at least.

A file has fewer than `2 ^ 32 - 27` bytes, as many as an offset can tell with a record behind it.
-/

/-! ### The loops -/

/-- The log as the display has opened it, at its end. -/
def openedLog (content : List UInt8) : File := (⟨content, 0⟩ : File).seekEnd

/-- Where the display finds the first entry; the inner `none` is a bad file. -/
def locateFirst (content : List UInt8) : Option (Option UInt32) :=
  firstEntry (openedLog content) (content.length + 1) (UInt32.ofNat content.length)

theorem displayEnvironmentLog_eq (content : List UInt8) : displayEnvironmentLog content =
    match locateFirst content with
    | none => none
    | some none => some ⟨-1, [], some "Bad file\n"⟩
    | some (some ofs) =>
        run displayStep (content.length + 1) ((openedLog content).seekSet ofs.toNat, []) := rfl

/-! ### A step back -/

/-- The word in front of an offset, in network order: where a record ends there, its own offset. -/
def offsetBefore (content : List UInt8) (e : ℕ) : UInt32 :=
  htonl (ofLe32 ((content.drop (e - 4)).take 4))

/-- The word in front of `e` is the offset `s` of an entry that may end there. -/
structure Link (content : List UInt8) (e s : ℕ) : Prop where
  word : (offsetBefore content e).toNat = s
  ne_zero : s ≠ 0
  fits : s + 27 ≤ e

/-- The way back ends at `e`: the word in front of it is zero, or the file is empty. -/
def IsFirst (content : List UInt8) (e : ℕ) : Prop :=
  e = 0 ∨ 4 ≤ e ∧ offsetBefore content e = 0

variable {f : File} {ofs s first : UInt32} {content : List UInt8} {e p : ℕ} {w : WireRecord}

theorem link_rightUnique (content : List UInt8) : Relator.RightUnique (Link content) := by
  intro e s s' hs hs'
  exact hs.word.symm.trans hs'.word

/-- There is no link in front of the first entry: the word there is zero, or there is none. -/
theorem not_link_of_isFirst (h : IsFirst content e) (s : ℕ) : ¬ Link content e s := by
  intro hlink
  have hfits := hlink.fits
  rcases h with rfl | ⟨-, hzero⟩
  · omega
  · have hword := hlink.word
    rw [hzero] at hword
    exact hlink.ne_zero hword.symm

/-- The word that is read in front of an offset, where four bytes are there. -/
theorem pread_word (hofs : 4 ≤ ofs.toNat) (hlen : ofs.toNat ≤ content.length) :
    let bs := (openedLog content).pread 4 (ofs - 4).toNat
    htonl (ofLe32 (bs ++ (le32 ofs).drop bs.length)) = offsetBefore content ofs.toNat := by
  have hfour : (4 : UInt32).toNat = 4 := rfl
  have hsub : (ofs - 4).toNat = ofs.toNat - 4 := by
    rw [UInt32.toNat_sub, hfour]
    have hlt := ofs.toNat_lt
    omega
  have hfull : ((openedLog content).pread 4 (ofs.toNat - 4)).length = 4 := by
    show ((content.drop (ofs.toNat - 4)).take 4).length = 4
    rw [List.length_take, List.length_drop]
    omega
  dsimp only
  rw [hsub, hfull, List.drop_of_length_le (by rw [length_le32]), List.append_nil]
  rfl

/-- In front of the first four bytes nothing is read, and the offset stays what it was. -/
theorem pread_stale (hsize : content.length < 2 ^ 32 - 27) (hofs : ofs.toNat < 4) :
    let bs := (openedLog content).pread 4 (ofs - 4).toNat
    htonl (ofLe32 (bs ++ (le32 ofs).drop bs.length)) = htonl ofs := by
  have hfour : (4 : UInt32).toNat = 4 := rfl
  -- the subtraction wraps
  have hwrap : content.length ≤ (ofs - 4).toNat := by
    rw [UInt32.toNat_sub, hfour]
    omega
  have hnone : (openedLog content).pread 4 (ofs - 4).toNat = [] := by
    show (content.drop (ofs - 4).toNat).take 4 = []
    rw [List.drop_of_length_le hwrap, List.take_nil]
  dsimp only
  rw [hnone, List.nil_append, List.length_nil, List.drop_zero, ofLe32_le32]

/-- The check of an offset, without the wrap of its sum: in a file of this length no sum leaves the
    32 bits. -/
theorem check_iff (hofs : ofs.toNat + 27 < 2 ^ 32) :
    (s > ofs ∨ s + 27 > ofs) ↔ ¬ s.toNat + 27 ≤ ofs.toNat := by
  have hmin : (27 : UInt32).toNat = 27 := rfl
  rw [gt_iff_lt, gt_iff_lt, UInt32.lt_iff_toNat_lt, UInt32.lt_iff_toNat_lt, UInt32.toNat_add, hmin]
  have hs := s.toNat_lt
  omega

/-- A word of one of the first offsets, turned round, is no offset in front of it. -/
theorem htonl_small (hofs : ofs.toNat < 4) (hne : ofs ≠ 0) : htonl ofs ≠ 0 ∧ htonl ofs > ofs := by
  have hcases : ofs = 1 ∨ ofs = 2 ∨ ofs = 3 := by
    rw [← UInt32.toNat_inj, ← UInt32.toNat_inj, ← UInt32.toNat_inj]
    have hzero : ofs.toNat ≠ 0 := fun h => hne (UInt32.toNat_inj.mp h)
    show ofs.toNat = 1 ∨ ofs.toNat = 2 ∨ ofs.toNat = 3
    omega
  rcases hcases with rfl | rfl | rfl
  · decide
  · decide
  · decide

/-- **A step back.**  It follows the link, stops at the first entry, or finds the file bad. -/
theorem backStep_cases (hsize : content.length < 2 ^ 32 - 27) (hofs : ofs.toNat ≤ content.length) :
    (∃ s, backStep (openedLog content) ofs = .inl s ∧ Link content ofs.toNat s.toNat) ∨
    (backStep (openedLog content) ofs = .inr (some ofs) ∧ IsFirst content ofs.toNat) ∨
    (backStep (openedLog content) ofs = .inr none ∧ ¬ IsFirst content ofs.toNat ∧
      ∀ s, ¬ Link content ofs.toNat s) := by
  unfold backStep
  dsimp only
  by_cases hfour : 4 ≤ ofs.toNat
  · rw [pread_word hfour hofs]
    have hcheck := @check_iff ofs (offsetBefore content ofs.toNat) (by omega)
    by_cases hzero : offsetBefore content ofs.toNat = 0
    · right; left
      rw [if_neg (fun h => h.1 hzero), if_neg (not_not.mpr hzero)]
      exact ⟨rfl, .inr ⟨hfour, hzero⟩⟩
    · by_cases hfits : (offsetBefore content ofs.toNat).toNat + 27 ≤ ofs.toNat
      · left
        rw [if_neg (fun h => hcheck.mp h.2 hfits), if_pos hzero]
        refine ⟨_, rfl, rfl, ?_, hfits⟩
        exact fun h => hzero (UInt32.toNat_inj.mp h)
      · right; right
        rw [if_pos ⟨hzero, hcheck.mpr hfits⟩]
        refine ⟨rfl, ?_, fun s hlink => hfits ?_⟩
        · rintro (hnil | ⟨-, hword⟩)
          · omega
          · exact hzero hword
        · rw [hlink.word]
          exact hlink.fits
  · rw [pread_stale hsize (by omega)]
    by_cases hzero : ofs = 0
    · -- an empty file
      right; left
      subst hzero
      exact ⟨rfl, .inl rfl⟩
    · right; right
      obtain ⟨hne, hgt⟩ := htonl_small (by omega) hzero
      rw [if_pos ⟨hne, .inl hgt⟩]
      refine ⟨rfl, ?_, fun s hlink => ?_⟩
      · rintro (hnil | ⟨hle, -⟩)
        · exact hzero (UInt32.toNat_inj.mp hnil)
        · exact hfour hle
      · have hfits := hlink.fits
        omega

/-- A step of the way back follows a link. -/
theorem link_of_backStep (hsize : content.length < 2 ^ 32 - 27) (hofs : ofs.toNat ≤ content.length)
    (h : backStep (openedLog content) ofs = .inl s) : Link content ofs.toNat s.toNat := by
  rcases backStep_cases hsize hofs with ⟨s', hstep, hlink⟩ | ⟨hend, -⟩ | ⟨hend, -⟩
  · rwa [Sum.inl.inj (h.symm.trans hstep)]
  · cases h.symm.trans hend
  · cases h.symm.trans hend

/-- Every link is followed. -/
theorem backStep_of_link (hsize : content.length < 2 ^ 32 - 27) (hofs : ofs.toNat ≤ content.length)
    (h : Link content ofs.toNat p) :
    ∃ s : UInt32, s.toNat = p ∧ backStep (openedLog content) ofs = .inl s := by
  rcases backStep_cases hsize hofs with ⟨s, hstep, hlink⟩ | ⟨-, hfirst⟩ | ⟨-, -, hnone⟩
  · exact ⟨s, link_rightUnique content hlink h, hstep⟩
  · exact absurd h (not_link_of_isFirst hfirst p)
  · exact absurd h (hnone p)

/-- Every step back lowers the offset by the length of a record at least, so the way back ends. -/
theorem backStep_lowers (hsize : content.length < 2 ^ 32 - 27) :
    Lowers (backStep (openedLog content)) (fun ofs => ofs.toNat ≤ content.length) (·.toNat) 27 := by
  constructor
  · intro ofs s hofs hstep
    have hfits := (link_of_backStep hsize hofs hstep).fits
    omega
  · intro ofs s hofs hstep
    exact (link_of_backStep hsize hofs hstep).fits

/-! ### The way back -/

/-- The end of a file is an offset. -/
theorem toNat_ofNat_length (hsize : content.length < 2 ^ 32 - 27) :
    (UInt32.ofNat content.length).toNat = content.length :=
  UInt32.toNat_ofNat_of_lt' (by show _ < 2 ^ 32; omega)

/-- The way back stays inside the file, as it only goes down. -/
theorem le_length_of_reaches (hsize : content.length < 2 ^ 32 - 27)
    (h : Reaches (next (backStep (openedLog content))) (UInt32.ofNat content.length) ofs) :
    ofs.toNat ≤ content.length :=
  (backStep_lowers hsize).reaches (Nat.le_of_eq (toNat_ofNat_length hsize)) h

/-- The way back leads along the links. -/
theorem links_of_reaches (hsize : content.length < 2 ^ 32 - 27)
    (h : Reaches (next (backStep (openedLog content))) (UInt32.ofNat content.length) ofs) :
    ReflTransGen (Link content) content.length ofs.toNat := by
  induction h with
  | refl => rw [toNat_ofNat_length hsize]
  | tail hreach hstep ih =>
    exact ih.tail (link_of_backStep hsize (le_length_of_reaches hsize hreach)
      (next_eq_some_iff.mp hstep))

/-- Along the links leads the way back. -/
theorem reaches_of_links (hsize : content.length < 2 ^ 32 - 27)
    (h : ReflTransGen (Link content) content.length e) :
    ∃ ofs : UInt32, ofs.toNat = e ∧
      Reaches (next (backStep (openedLog content))) (UInt32.ofNat content.length) ofs := by
  induction h with
  | refl => exact ⟨_, toNat_ofNat_length hsize, .refl⟩
  | tail _ hlink ih =>
    obtain ⟨ofs, rfl, hreach⟩ := ih
    obtain ⟨s, rfl, hstep⟩ := backStep_of_link hsize (le_length_of_reaches hsize hreach) hlink
    exact ⟨s, rfl, hreach.tail (next_eq_some_iff.mpr hstep)⟩

/-- The way back ends, in one of the states that it reaches. -/
theorem locateFirst_eq_some_iff (hsize : content.length < 2 ^ 32 - 27) {found : Option UInt32} :
    locateFirst content = some found ↔
      ∃ ofs, Reaches (next (backStep (openedLog content))) (UInt32.ofNat content.length) ofs ∧
        backStep (openedLog content) ofs = .inr found := by
  have hend := Nat.le_of_eq (toNat_ofNat_length hsize)
  exact (backStep_lowers hsize).run_eq_some_iff (by decide) hend (Nat.lt_succ_of_le hend)

/-- **The first entry.**  It is located at the end of the links from the end of the file. -/
theorem locateFirst_eq_some_some_iff (hsize : content.length < 2 ^ 32 - 27) :
    locateFirst content = some (some first) ↔
      ReflTransGen (Link content) content.length first.toNat ∧ IsFirst content first.toNat := by
  rw [locateFirst_eq_some_iff hsize]
  constructor
  · rintro ⟨ofs, hreach, hend⟩
    rcases backStep_cases hsize (le_length_of_reaches hsize hreach) with
      ⟨s, hstep, -⟩ | ⟨hstop, hfirst⟩ | ⟨hbad, -⟩
    · cases hend.symm.trans hstep
    · obtain rfl := Option.some.inj (Sum.inr.inj (hend.symm.trans hstop))
      exact ⟨links_of_reaches hsize hreach, hfirst⟩
    · cases hend.symm.trans hbad
  · rintro ⟨hchain, hfirst⟩
    obtain ⟨ofs, hofs, hreach⟩ := reaches_of_links hsize hchain
    obtain rfl := UInt32.toNat_inj.mp hofs
    rcases backStep_cases hsize (le_length_of_reaches hsize hreach) with
      ⟨s, -, hlink⟩ | ⟨hstop, -⟩ | ⟨-, hnot, -⟩
    · exact absurd hlink (not_link_of_isFirst hfirst s.toNat)
    · exact ⟨ofs, hreach, hstop⟩
    · exact absurd hfirst hnot

/-! ### A round of the display -/

/-- The record `w` lies at `p`. -/
def RecordAt (content : List UInt8) (p : ℕ) (w : WireRecord) : Prop :=
  w.encode <+: content.drop p

/-- A record that lies in a file ends in it. -/
theorem RecordAt.le_length (h : RecordAt content p w) :
    p + w.encode.length ≤ content.length := by
  have hle := h.length_le
  have hmin := w.length_encode_ge
  rw [List.length_drop] at hle
  omega

/-- A record is followed by its offset: the word in front of its end. -/
theorem offsetBefore_of_recordAt (h : RecordAt content p w) :
    offsetBefore content (p + w.encode.length) = w.offset := by
  obtain ⟨post, hpost⟩ := h
  obtain ⟨body, hbody⟩ := w.encode_eq_concat
  have hlen : w.encode.length = body.length + 4 := by
    rw [hbody, List.length_append, Bytes.length_toList]
  have hback : p + w.encode.length - 4 = p + body.length := by omega
  unfold offsetBefore WireRecord.offset
  rw [hback, ← List.drop_drop, ← hpost, hbody, List.append_assoc, List.drop_left,
    List.take_left' w.next.length_toList]
  rfl

/-- **A round of the display.**  It passes over a record and shows it, stops in front of fewer than
    four bytes, or fails in front of more that do not begin with a record. -/
theorem displayStep_cases (hf : f.offset ≤ f.content.length) (shown : List Record) :
    (∃ w, RecordAt f.content f.offset w ∧ displayStep (f, shown)
      = .inl (f.seekSet (f.offset + w.encode.length), shown ++ [w.decode])) ∨
    (f.content.length < f.offset + 4 ∧ displayStep (f, shown) = .inr ⟨0, shown, none⟩) ∨
    (f.offset + 4 ≤ f.content.length ∧ (∀ w, ¬ RecordAt f.content f.offset w) ∧
      ∃ err, displayStep (f, shown) = .inr ⟨-1, shown, some err⟩) := by
  obtain ⟨pre, post, rfl⟩ := File.exists_between hf
  have hdrop : (pre ++ post).drop pre.length = post := List.drop_left
  unfold displayStep RecordAt
  dsimp only
  show (∃ w : WireRecord, w.encode <+: (pre ++ post).drop pre.length ∧ _) ∨
    ((pre ++ post).length < pre.length + 4 ∧ _) ∨ (pre.length + 4 ≤ (pre ++ post).length ∧
      (∀ w : WireRecord, ¬ w.encode <+: (pre ++ post).drop pre.length) ∧ _)
  rw [hdrop, List.length_append]
  by_cases hlen : post.length < 4
  · right; left
    have hshort : ((File.between pre post).read 4).1.length ≠ 4 := by
      show (((pre ++ post).drop pre.length).take 4).length ≠ 4
      rw [hdrop, List.length_take]
      omega
    rw [if_neg hshort]
    exact ⟨by omega, rfl⟩
  · -- the time, and what is behind it
    obtain ⟨tm, rest, rfl, htm⟩ : ∃ tm rest, post = tm ++ rest ∧ tm.length = 4 :=
      ⟨post.take 4, post.drop 4, (List.take_append_drop 4 post).symm, by
        rw [List.length_take]; omega⟩
    rw [File.read_at htm, if_pos htm]
    cases hread : readRecord tm (File.between (pre ++ tm) rest) with
    | ok x =>
      left
      obtain ⟨w, post', rfl, rfl, hr, hfile⟩ := readRecord_sound htm hread
      have hsplit : w.tm.toList ++ (w.encodeRest ++ post') = w.encode ++ post' :=
        (List.append_assoc _ _ _).symm
      have hseek := File.seekSet_between pre w.encode post'
      refine ⟨w, hsplit ▸ List.prefix_append _ _, ?_⟩
      rw [hsplit]
      show Sum.inl (x.2, shown ++ [x.1])
        = .inl ((File.between pre (w.encode ++ post')).seekSet (pre.length + w.encode.length), _)
      rw [hseek, hfile, hr, List.append_assoc]
      rfl
    | error err =>
      right; right
      refine ⟨by omega, ?_, err, rfl⟩
      rintro w ⟨post', hsame⟩
      -- a record would have been read
      unfold WireRecord.encode at hsame
      rw [List.append_assoc] at hsame
      obtain ⟨rfl, rfl⟩ := List.append_inj hsame (by rw [htm, Bytes.length_toList])
      rw [readRecord_complete] at hread
      cases hread

/-- A state of the display: the file is still the same, and its offset inside it. -/
structure Displaying (content : List UInt8) (s : File × List Record) : Prop where
  content_eq : s.1.content = content
  offset_le : s.1.offset ≤ content.length

/-- A round that goes on has passed over a record and shows it; every other round ends the
    display. -/
theorem displayStep_inl {s t : File × List Record} (hs : Displaying content s)
    (h : displayStep s = .inl t) : ∃ w, RecordAt content s.1.offset w ∧
      t = (s.1.seekSet (s.1.offset + w.encode.length), s.2 ++ [w.decode]) := by
  obtain ⟨f, shown⟩ := s
  obtain ⟨rfl, hle⟩ := hs
  rcases displayStep_cases hle shown with ⟨w, hrecord, hstep⟩ | ⟨-, hend⟩ | ⟨-, -, err, hend⟩
  · exact ⟨w, hrecord, Sum.inl.inj (h.symm.trans hstep)⟩
  · cases h.symm.trans hend
  · cases h.symm.trans hend

/-- Where a record lies, it is shown, and the display goes on behind it. -/
theorem displayStep_of_recordAt {s : File × List Record} (hs : Displaying content s)
    (h : RecordAt content s.1.offset w) :
    displayStep s = .inl (s.1.seekSet (s.1.offset + w.encode.length), s.2 ++ [w.decode]) := by
  obtain ⟨f, shown⟩ := s
  obtain ⟨rfl, hle⟩ := hs
  have hlen := h.le_length
  have hmin := w.length_encode_ge
  rcases displayStep_cases hle shown with ⟨w', hrecord, hstep⟩ | ⟨hshort, -⟩ | ⟨-, hnone, -⟩
  · obtain ⟨x, hx⟩ := hrecord
    obtain ⟨y, hy⟩ := h
    obtain ⟨hencode, hdecode, -⟩ := encode_append_inj (hx.trans hy.symm)
    rw [hstep, hencode, hdecode]
  · dsimp only at hlen hshort
    omega
  · exact absurd h (hnone w)

/-- Every round of the display passes over the length of a record. -/
theorem displayStep_lowers (content : List UInt8) :
    Lowers displayStep (Displaying content) (fun s => content.length - s.1.offset) 27 := by
  constructor
  · intro s t hs hstep
    obtain ⟨w, hrecord, rfl⟩ := displayStep_inl hs hstep
    exact ⟨hs.content_eq, hrecord.le_length⟩
  · intro s t hs hstep
    obtain ⟨w, hrecord, rfl⟩ := displayStep_inl hs hstep
    have hle := hrecord.le_length
    have hmin := w.length_encode_ge
    show content.length - (s.1.offset + w.encode.length) + 27 ≤ content.length - s.1.offset
    omega

/-- The display starts inside the file, at the first entry that the way back has found. -/
theorem displaying_first (hsize : content.length < 2 ^ 32 - 27)
    (h : locateFirst content = some (some first)) :
    Displaying content ((openedLog content).seekSet first.toNat, []) := by
  obtain ⟨ofs, hofs, hreach⟩ :=
    reaches_of_links hsize ((locateFirst_eq_some_some_iff hsize).mp h).1
  refine ⟨rfl, ?_⟩
  rw [← hofs]
  exact le_length_of_reaches hsize hreach

end NetworkExperiment
