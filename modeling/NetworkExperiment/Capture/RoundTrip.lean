import NetworkExperiment.Capture.Steps

namespace NetworkExperiment

open ByteBuffers FileOffsets Loops Relation StateTransition

/-!
# The round trip through the environment log

* `Environment.record` / `captureAll` — what captures record, and the file they leave;
* `Environment.encode` — the bytes of a record, which end with the offset where it begins;
* `Environment.wire` / `decode_wire` — a record is read back as it was captured;
* `links_captureAll` — the links lead from the end of the file to the first record;
* `display_captureAll` — from there on the records are displayed;
* `environment_log_round_trip` — the two together.
-/

/-! ### What is captured -/

/-- A name that is missing counts as empty. -/
def nameBytes : Option CString → List UInt8
  | some s => s.bytes
  | none => []

/-- The record of a capture that finds the end of the file at `ofs`. -/
def Environment.record (env : Environment) (ofs : UInt32) : Record where
  tm := env.t.toInt32
  tz := env.gmtoff.toInt32
  uid := env.uid
  gid := env.gid
  user := nameBytes env.user
  group := nameBytes env.group
  host := nameBytes env.host
  ip := le32 env.addy
  next := ofs

/-- No name is longer than its length byte can say. -/
structure Environment.NamesFit (env : Environment) : Prop where
  user : (nameBytes env.user).length ≤ 255
  group : (nameBytes env.group).length ≤ 255
  host : (nameBytes env.host).length ≤ 255

/-- Captures one after the other: the file they leave, and what they have recorded. -/
def captureAll : List Environment → List UInt8 → List UInt8 × List Record
  | [], content => (content, [])
  | env :: envs, content =>
      let (final, records) := captureAll envs (environmentCapture env content).2
      (final, env.record (UInt32.ofNat content.length) :: records)

variable {pre post content tail : List UInt8} {env : Environment} {envs : List Environment}
  {name : Option CString} {ofs : UInt32}

/-! ### The bytes of a record -/

/-- The bytes of a name. -/
def encodeName (name : Option CString) : List UInt8 :=
  UInt8.ofNat (nameBytes name).length :: (nameBytes name).map (· ^^^ 0xca)

/-- The bytes of a record behind its time. -/
def Environment.encodeRest (env : Environment) (ofs : UInt32) : List UInt8 :=
  le32 (htonl env.gmtoff.toInt32.toUInt32) ++ (le32 (htonl env.uid) ++ (le32 (htonl env.gid) ++
    (encodeName env.user ++ (encodeName env.group ++ (encodeName env.host ++
      (le32 env.addy ++ le32 (htonl ofs)))))))

/-- The bytes of a record. -/
def Environment.encode (env : Environment) (ofs : UInt32) : List UInt8 :=
  le32 (htonl env.t.toInt32.toUInt32) ++ env.encodeRest ofs

/-- The network order of the network order is the word. -/
@[simp] theorem ntohl_htonl (w : UInt32) : ntohl (htonl w) = w := by
  unfold ntohl htonl
  rw [le32_ofLe32 (by rw [List.length_reverse, length_le32]), List.reverse_reverse, ofLe32_le32]

/-- The mask covers the characters up to the terminating `NUL`. -/
theorem maskLoop_concat_zero {bs : List UInt8} (h : 0 ∉ bs) :
    maskLoop (bs ++ [0]) = bs.map (· ^^^ 0xca) ++ [0] := by
  induction bs with
  | nil => rfl
  | cons b bs ih =>
    rw [List.mem_cons, not_or] at h
    rw [List.cons_append, maskLoop, if_neg (Ne.symm h.1), ih h.2]
    rfl

/-- Masking twice gives the characters back. -/
theorem unmask_mask (bs : List UInt8) : (bs.map (· ^^^ 0xca)).map (· ^^^ 0xca) = bs := by
  rw [List.map_map]
  conv_rhs => rw [← List.map_id bs]
  apply List.map_congr_left
  intro b _
  show (b ^^^ 0xca) ^^^ 0xca = b
  rw [UInt8.xor_assoc, UInt8.xor_self, UInt8.xor_zero]

/-- The length byte of a name that fits. -/
theorem toNat_length_name (h : (nameBytes name).length ≤ 255) :
    (UInt8.ofNat (nameBytes name).length).toNat = (nameBytes name).length :=
  UInt8.toNat_ofNat_of_lt' (by show _ < 256; omega)

/-- A name is written with its length. -/
theorem writeName_eq (h : (nameBytes name).length ≤ 255) :
    writeName (File.between pre []) name = File.between (pre ++ encodeName name) [] := by
  cases name with
  | none =>
    unfold writeName
    dsimp only
    rw [File.write_end]
    rfl
  | some s =>
    unfold writeName
    dsimp only
    have hlen : (UInt8.ofNat s.bytes.length).toNat = s.bytes.length := toNat_length_name h
    have hencode : encodeName (some s) =
        UInt8.ofNat s.bytes.length :: s.bytes.map (· ^^^ 0xca) := rfl
    rw [File.write_end, hencode]
    by_cases hzero : UInt8.ofNat s.bytes.length = 0
    · -- an empty name is not written
      have hnil : s.bytes = [] := by
        apply List.eq_nil_of_length_eq_zero
        rw [← hlen, hzero]
        rfl
      rw [if_neg (not_not.mpr hzero), hnil]
      rfl
    · rw [if_pos hzero, maskLoop_concat_zero s.no_nul, hlen,
        List.take_left' (by rw [List.length_map]), File.write_end, List.append_assoc]
      rfl

/-- **Capturing.**  A capture appends the bytes of its record. -/
theorem environmentCapture_eq (h : env.NamesFit) (content : List UInt8) :
    environmentCapture env content
      = (0, content ++ env.encode (UInt32.ofNat content.length)) := by
  unfold environmentCapture
  dsimp only
  rw [File.seekEnd_eq, File.write_end, File.write_end, File.write_end, File.write_end,
    writeName_eq h.user, writeName_eq h.group, writeName_eq h.host, File.write_end, File.write_end]
  unfold File.between Environment.encode Environment.encodeRest
  simp only [List.append_assoc, List.append_nil]

/-- The file that a capture leaves. -/
theorem environmentCapture_snd (h : env.NamesFit) (content : List UInt8) :
    (environmentCapture env content).2 = content ++ env.encode (UInt32.ofNat content.length) :=
  congrArg Prod.snd (environmentCapture_eq h content)

/-! ### The records of captures -/

/-- The bytes of a name that fits. -/
def nameWire (name : Option CString) (h : (nameBytes name).length ≤ 255) : WireName where
  bytes := (nameBytes name).map (· ^^^ 0xca)
  length_le := by rwa [List.length_map]

/-- The bytes of the record of a capture, field by field. -/
def Environment.wire (env : Environment) (h : env.NamesFit) (ofs : UInt32) : WireRecord where
  tm := ⟨le32 (htonl env.t.toInt32.toUInt32), length_le32 _⟩
  tz := ⟨le32 (htonl env.gmtoff.toInt32.toUInt32), length_le32 _⟩
  uid := ⟨le32 (htonl env.uid), length_le32 _⟩
  gid := ⟨le32 (htonl env.gid), length_le32 _⟩
  user := nameWire env.user h.user
  group := nameWire env.group h.group
  host := nameWire env.host h.host
  ip := ⟨le32 env.addy, length_le32 _⟩
  next := ⟨le32 (htonl ofs), length_le32 _⟩

theorem encode_nameWire (h : (nameBytes name).length ≤ 255) :
    (nameWire name h).encode = encodeName name := by
  unfold WireName.encode nameWire encodeName
  rw [List.length_map]

theorem decode_nameWire (h : (nameBytes name).length ≤ 255) :
    (nameWire name h).decode = nameBytes name := unmask_mask _

/-- A capture writes the bytes of its record. -/
theorem encode_wire (h : env.NamesFit) : (env.wire h ofs).encode = env.encode ofs := by
  unfold WireRecord.encode WireRecord.encodeRest Environment.encode Environment.encodeRest
  rw [← encode_nameWire h.user, ← encode_nameWire h.group, ← encode_nameWire h.host]
  rfl

theorem offset_wire (h : env.NamesFit) : (env.wire h ofs).offset = ofs := by
  show ntohl (ofLe32 (le32 (htonl ofs))) = ofs
  rw [ofLe32_le32, ntohl_htonl]

/-- **Reading.**  A record is read back as it was captured. -/
theorem decode_wire (h : env.NamesFit) : (env.wire h ofs).decode = env.record ofs := by
  unfold WireRecord.decode Environment.record
  rw [offset_wire, ← decode_nameWire h.user, ← decode_nameWire h.group, ← decode_nameWire h.host]
  simp only [Environment.wire, ofLe32_le32, ntohl_htonl]
  rfl

/-- The record of a capture lies where the capture has found the end of the file. -/
theorem recordAt_capture (h : env.NamesFit) (content tail : List UInt8) :
    RecordAt (content ++ env.encode ofs ++ tail) content.length (env.wire h ofs) := by
  refine ⟨tail, ?_⟩
  rw [encode_wire, List.append_assoc, List.drop_left]

/-! ### The way back -/

/-- The file only grows. -/
theorem captureAll_extends (h : ∀ env ∈ envs, env.NamesFit) (content : List UInt8) :
    ∃ tail, (captureAll envs content).1 = content ++ tail := by
  induction envs generalizing content with
  | nil => exact ⟨[], (List.append_nil content).symm⟩
  | cons env envs ih =>
    obtain ⟨tail, htail⟩ := ih (fun x hx => h x (List.mem_cons_of_mem _ hx))
      (environmentCapture env content).2
    refine ⟨env.encode (UInt32.ofNat content.length) ++ tail, ?_⟩
    show (captureAll envs (environmentCapture env content).2).1 = _
    rw [htail, environmentCapture_snd (h env List.mem_cons_self), List.append_assoc]

/-- **The way back.**  From the end of the captures the links lead to their beginning. -/
theorem links_captureAll (h : ∀ env ∈ envs, env.NamesFit) (hpos : 0 < content.length)
    (hsize : (captureAll envs content).1.length < 2 ^ 32 - 27) :
    ReflTransGen (Link (captureAll envs content).1) (captureAll envs content).1.length
      content.length := by
  induction envs generalizing content with
  | nil => exact .refl
  | cons env envs ih =>
    have henv := h env List.mem_cons_self
    have henvs : ∀ x ∈ envs, x.NamesFit := fun x hx => h x (List.mem_cons_of_mem _ hx)
    have hcapture := environmentCapture_snd henv content
    obtain ⟨tail, htail⟩ := captureAll_extends henvs (environmentCapture env content).2
    have hrecord := @recordAt_capture env (UInt32.ofNat content.length) henv content tail
    have hmin := (env.wire henv (UInt32.ofNat content.length)).length_encode_ge
    have hrest := @ih (environmentCapture env content).2 henvs
      (by rw [hcapture, List.length_append]; omega) hsize
    rw [← hcapture, ← htail] at hrecord
    have hle := hrecord.le_length
    have hword := offsetBefore_of_recordAt hrecord
    rw [encode_wire, ← List.length_append, ← hcapture, offset_wire] at hword
    rw [encode_wire] at hmin hle
    -- the last link leads from the end of the first record to its beginning
    refine hrest.tail ⟨?_, Nat.pos_iff_ne_zero.mp hpos, ?_⟩
    · show (offsetBefore (captureAll envs (environmentCapture env content).2).1 _).toNat = _
      rw [hword]
      apply UInt32.toNat_ofNat_of_lt'
      show _ < 2 ^ 32
      change (captureAll envs (environmentCapture env content).2).1.length < _ at hsize
      omega
    · rw [hcapture, List.length_append]
      omega

/-! ### The display -/

/-- The display goes over the records of all captures, and ends behind them. -/
theorem display_captureAll (h : ∀ env ∈ envs, env.NamesFit)
    (htail : (captureAll envs content).1 = content ++ tail) (shown : List Record) :
    ∃ t, Reaches (next displayStep) (File.between content tail, shown) t ∧
      displayStep t = .inr ⟨0, shown ++ (captureAll envs content).2, none⟩ := by
  induction envs generalizing content tail shown with
  | nil =>
    obtain rfl : tail = [] := List.self_eq_append_right.mp htail
    refine ⟨_, .refl, ?_⟩
    unfold displayStep
    rw [File.read_end]
    dsimp only [captureAll]
    rw [List.append_nil]
    rfl
  | cons env envs ih =>
    have henv := h env List.mem_cons_self
    have henvs : ∀ x ∈ envs, x.NamesFit := fun x hx => h x (List.mem_cons_of_mem _ hx)
    have hcapture := environmentCapture_snd henv content
    obtain ⟨tail', htail'⟩ := captureAll_extends henvs (environmentCapture env content).2
    -- the record of the first capture lies between the content and the rest
    obtain rfl : tail = env.encode (UInt32.ofNat content.length) ++ tail' := by
      have hsame : content ++ tail = (environmentCapture env content).2 ++ tail' :=
        htail.symm.trans htail'
      rw [hcapture, List.append_assoc] at hsame
      exact List.append_cancel_left hsame
    have hrecord := @recordAt_capture env (UInt32.ofNat content.length) henv content tail'
    rw [List.append_assoc] at hrecord
    have hstep := @displayStep_of_recordAt _ _
      (File.between content (env.encode (UInt32.ofNat content.length) ++ tail'), shown)
      ⟨rfl, File.offset_between_le⟩ hrecord
    obtain ⟨t, hreach, hend⟩ := ih henvs htail'
      (shown ++ [env.record (UInt32.ofNat content.length)])
    have hseek := File.seekSet_between content (env.encode (UInt32.ofNat content.length)) tail'
    rw [encode_wire, decode_wire] at hstep
    rw [hcapture] at hreach hend
    refine ⟨t, hreach.head (next_eq_some_iff.mpr ?_), ?_⟩
    · rw [hstep, ← hseek]
      rfl
    · rw [hend, captureAll, hcapture, List.append_assoc]
      rfl

/-! ### The round trip -/

/-- The first record is where the captures have begun, behind the four zero bytes. -/
theorem isFirst_of_zero {start : List UInt8} (tail : List UInt8)
    (hcontent : content = start ++ [0, 0, 0, 0]) : IsFirst (content ++ tail) content.length := by
  have hlen : content.length = start.length + 4 := by
    rw [hcontent, List.length_append]
    rfl
  have hback : content.length - 4 = start.length := by omega
  refine .inr ⟨by omega, ?_⟩
  unfold offsetBefore
  rw [hback, hcontent, List.append_assoc, List.drop_left]
  show htonl (ofLe32 [0, 0, 0, 0]) = 0
  decide

/-- **The round trip.**  What captures have appended to a log that ends with four zero bytes is
    displayed in the order of the captures, every field as it was captured. -/
theorem environment_log_round_trip (content : List UInt8) (hzero : [0, 0, 0, 0] <:+ content)
    (envs : List Environment) (h : ∀ env ∈ envs, env.NamesFit)
    (hsize : (captureAll envs content).1.length < 2 ^ 32 - 27) :
    displayEnvironmentLog (captureAll envs content).1
      = some ⟨0, (captureAll envs content).2, none⟩ := by
  obtain ⟨start, hstart⟩ := hzero
  obtain ⟨tail, htail⟩ := captureAll_extends h content
  have hpos : 0 < content.length := by
    rw [← hstart, List.length_append, List.length_cons]
    omega
  have hle : content.length ≤ (captureAll envs content).1.length := by
    rw [htail, List.length_append]
    omega
  have hfirst : (UInt32.ofNat content.length).toNat = content.length :=
    UInt32.toNat_ofNat_of_lt' (by show _ < 2 ^ 32; omega)
  have hlocated : locateFirst (captureAll envs content).1
      = some (some (UInt32.ofNat content.length)) := by
    rw [locateFirst_eq_some_some_iff hsize, hfirst]
    refine ⟨links_captureAll h hpos hsize, ?_⟩
    rw [htail]
    exact isFirst_of_zero tail hstart.symm
  rw [displayEnvironmentLog_eq, hlocated]
  dsimp only
  rw [(displayStep_lowers _).run_eq_some_iff (by decide) (displaying_first hsize hlocated)
    (Nat.lt_succ_of_le (Nat.sub_le _ _)), hfirst]
  have hdisplay := display_captureAll h htail []
  unfold File.between at hdisplay
  rwa [← htail] at hdisplay

/-- Two captures into a log that holds a comment and the zero offset; on the second one no name of
    the group is known. -/
theorem environment_log_round_trip_two :
    displayEnvironmentLog (captureAll [⟨1700000000, -14400, 1000, 100, some ⟨[114, 111], by decide⟩,
      some ⟨[117], by decide⟩, some ⟨[104, 105], by decide⟩, 16777343⟩, ⟨1700000060, 3600, 0, 0,
      some ⟨[202], by decide⟩, none, some ⟨[], by decide⟩, 0⟩] [35, 10, 0, 0, 0, 0]).1
      = some ⟨0, [⟨1700000000, -14400, 1000, 100, [114, 111], [117], [104, 105], [127, 0, 0, 1], 6⟩,
        ⟨1700000060, 3600, 0, 0, [202], [], [], [0, 0, 0, 0], 38⟩], none⟩ := by
  refine (environment_log_round_trip _ ⟨[35, 10], rfl⟩ _ ?_ ?_).trans ?_
  · intro env henv
    rcases List.mem_pair.mp henv with rfl | rfl
    · exact ⟨by decide, by decide, by decide⟩
    · exact ⟨by decide, by decide, by decide⟩
  · decide +kernel
  · decide +kernel

end NetworkExperiment
