import NetworkExperiment.Capture.Environment

namespace NetworkExperiment

open ByteBuffers FileOffsets

/-!
# The records of the environment log, as they lie in the file

* `WireName` / `WireRecord` — a name and a record in bytes: four fields, three names with their
  lengths in front, the address and the offset;
* `WireRecord.decode` — what is read of it;
* `readField_complete`, `readName_complete`, `readRecord_complete` — what lies behind the offset is
  read;
* `readField_sound`, `readName_sound`, `readRecord_sound` — what is read lies behind the offset;
* `encode_append_inj` — the bytes of a file are those of one record only.
-/

/-- A name: the characters behind its length byte, masked. -/
structure WireName where
  bytes : List UInt8
  length_le : bytes.length ≤ 255

/-- A record, field by field. -/
structure WireRecord where
  tm : Bytes 4
  tz : Bytes 4
  uid : Bytes 4
  gid : Bytes 4
  user : WireName
  group : WireName
  host : WireName
  ip : Bytes 4
  next : Bytes 4

namespace WireName

/-- The bytes of a name: its length, and its characters as they are masked. -/
def encode (w : WireName) : List UInt8 := UInt8.ofNat w.bytes.length :: w.bytes

/-- Its characters: each is masked by the same byte, which takes the mask off again. -/
def decode (w : WireName) : List UInt8 := w.bytes.map (· ^^^ 0xca)

/-- The length fits its byte. -/
theorem toNat_length (w : WireName) : (UInt8.ofNat w.bytes.length).toNat = w.bytes.length := by
  have hle := w.length_le
  exact UInt8.toNat_ofNat_of_lt' (by show _ < 256; omega)

theorem length_decode (w : WireName) : w.decode.length ≤ 255 := by
  unfold decode
  rw [List.length_map]
  exact w.length_le

end WireName

namespace WireRecord

/-- The bytes of a record behind its time.  The reader looks at the time by itself, to find the end
    of the file. -/
def encodeRest (w : WireRecord) : List UInt8 :=
  w.tz.toList ++ (w.uid.toList ++ (w.gid.toList ++ (w.user.encode ++ (w.group.encode ++
    (w.host.encode ++ (w.ip.toList ++ w.next.toList))))))

/-- The bytes of a record. -/
def encode (w : WireRecord) : List UInt8 := w.tm.toList ++ w.encodeRest

/-- The offset that a record ends with. -/
def offset (w : WireRecord) : UInt32 := ntohl (ofLe32 w.next.toList)

/-- The record that is read. -/
def decode (w : WireRecord) : Record where
  tm := (ntohl (ofLe32 w.tm.toList)).toInt32
  tz := (ntohl (ofLe32 w.tz.toList)).toInt32
  uid := ntohl (ofLe32 w.uid.toList)
  gid := ntohl (ofLe32 w.gid.toList)
  user := w.user.decode
  group := w.group.decode
  host := w.host.decode
  ip := w.ip.toList
  next := w.offset

/-- The least length of a record, and what the names add to it. -/
theorem length_encode (w : WireRecord) : w.encode.length
    = 27 + w.user.bytes.length + w.group.bytes.length + w.host.bytes.length := by
  unfold encode encodeRest WireName.encode
  simp only [List.length_append, List.length_cons, Bytes.length_toList]
  omega

theorem length_encode_ge (w : WireRecord) : 27 ≤ w.encode.length := by
  rw [length_encode]
  omega

/-- A record ends with its offset. -/
theorem encode_eq_concat (w : WireRecord) : ∃ body, w.encode = body ++ w.next.toList := by
  refine ⟨w.tm.toList ++ (w.tz.toList ++ (w.uid.toList ++ (w.gid.toList ++ (w.user.encode ++
    (w.group.encode ++ (w.host.encode ++ w.ip.toList)))))), ?_⟩
  unfold encode encodeRest
  simp only [List.append_assoc]

end WireRecord

/-- No name is longer than its array has room for with a `NUL`. -/
structure Record.NamesFit (r : Record) : Prop where
  user : r.user.length ≤ 255
  group : r.group.length ≤ 255
  host : r.host.length ≤ 255

theorem WireRecord.namesFit_decode (w : WireRecord) : w.decode.NamesFit :=
  ⟨w.user.length_decode, w.group.length_decode, w.host.length_decode⟩

variable {pre post bs name tm : List UInt8} {n : ℕ} {err lenErr nameErr : String} {f : File}
  {r : Record}

/-! ### What lies there is read -/

/-- A field is read back, and the reader stands behind it. -/
theorem readField_complete (hn : bs.length = n) (err : String) :
    readField (File.between pre (bs ++ post)) n err = pure (bs, File.between (pre ++ bs) post) := by
  unfold readField
  rw [File.read_at hn]
  exact if_neg (by omega)

/-- A name is read back. -/
theorem readName_complete (w : WireName) (lenErr nameErr : String) :
    readName (File.between pre (w.encode ++ post)) lenErr nameErr
      = pure (w.decode, File.between (pre ++ w.encode) post) := by
  have hsplit : w.encode ++ post = [UInt8.ofNat w.bytes.length] ++ (w.bytes ++ post) := rfl
  have hone : [UInt8.ofNat w.bytes.length].length = 1 := rfl
  unfold readName
  rw [hsplit, readField_complete hone, pure_bind]
  dsimp only [List.headD_cons]
  rw [w.toNat_length, readField_complete rfl, pure_bind, List.append_assoc]
  rfl

/-- **Reading.**  A record is read back, field by field: each read begins where the one before it
    has ended. -/
theorem readRecord_complete (w : WireRecord) :
    readRecord w.tm.toList (File.between pre (w.encodeRest ++ post))
      = pure (w.decode, File.between (pre ++ w.encodeRest) post) := by
  unfold readRecord WireRecord.encodeRest
  simp only [List.append_assoc]
  rw [readField_complete w.tz.length_toList, pure_bind]
  dsimp only
  rw [readField_complete w.uid.length_toList, pure_bind]
  dsimp only
  rw [readField_complete w.gid.length_toList, pure_bind]
  dsimp only
  rw [readName_complete, pure_bind]
  dsimp only
  rw [readName_complete, pure_bind]
  dsimp only
  rw [readName_complete, pure_bind]
  dsimp only
  rw [readField_complete w.ip.length_toList, pure_bind]
  dsimp only
  rw [readField_complete w.next.length_toList, pure_bind]
  simp only [List.append_assoc]
  rfl

/-! ### What is read lies there -/

/-- A computation that goes through has gone through its first part. -/
theorem ok_of_bind {α β : Type} {x : Except String α} {g : α → Except String β} {b : β}
    (h : x >>= g = .ok b) : ∃ a, x = .ok a ∧ g a = .ok b := by
  cases x with
  | error e => cases h
  | ok a => exact ⟨a, rfl, h⟩

/-- A field that is read lies behind the offset: it has its whole length, or the read is an
    error. -/
theorem readField_sound (h : readField (File.between pre post) n err = .ok (bs, f)) :
    bs.length = n ∧ ∃ post', post = bs ++ post' ∧ f = File.between (pre ++ bs) post' := by
  -- `read` returns what is there, up to the length that is asked for
  have hcut : (post.take n).length ≤ n := List.length_take_le n post
  have hread : (File.between pre post).read n
      = (post.take n, File.between (pre ++ post.take n) (post.drop n)) := by
    unfold File.read File.between
    rw [List.drop_left, List.append_assoc, List.take_append_drop, List.length_append]
  unfold readField at h
  rw [hread] at h
  dsimp only at h
  by_cases hshort : (post.take n).length < n
  · rw [if_pos hshort] at h
    cases h
  · rw [if_neg hshort] at h
    cases h
    exact ⟨by omega, post.drop n, (List.take_append_drop n post).symm, rfl⟩

/-- A name that is read lies behind the offset. -/
theorem readName_sound (h : readName (File.between pre post) lenErr nameErr = .ok (name, f)) :
    ∃ (w : WireName) (post' : List UInt8),
      post = w.encode ++ post' ∧ name = w.decode ∧ f = File.between (pre ++ w.encode) post' := by
  unfold readName at h
  obtain ⟨⟨len, f₁⟩, hlen, h⟩ := ok_of_bind h
  obtain ⟨hone, post₁, rfl, rfl⟩ := readField_sound hlen
  obtain ⟨l, rfl⟩ := List.length_eq_one_iff.mp hone
  obtain ⟨⟨bs, f₂⟩, hname, h⟩ := ok_of_bind h
  obtain ⟨hbs, post₂, rfl, rfl⟩ := readField_sound hname
  cases h
  -- the length byte says how many there are
  have hbyte : bs.length = l.toNat := hbs
  have hlt := l.toNat_lt
  have hl : UInt8.ofNat bs.length = l := by rw [hbyte, UInt8.ofNat_toNat]
  have hencode : (⟨bs, by omega⟩ : WireName).encode = [l] ++ bs := congrArg (· :: bs) hl
  refine ⟨⟨bs, by omega⟩, post₂, ?_, rfl, ?_⟩
  · rw [hencode, List.append_assoc]
  · rw [hencode, List.append_assoc]

/-- A record that is read lies behind the offset: its bytes are put together of the fields that
    have been read. -/
theorem readRecord_sound (htm : tm.length = 4)
    (h : readRecord tm (File.between pre post) = .ok (r, f)) :
    ∃ (w : WireRecord) (post' : List UInt8), w.tm.toList = tm ∧ post = w.encodeRest ++ post' ∧
      r = w.decode ∧ f = File.between (pre ++ w.encodeRest) post' := by
  unfold readRecord at h
  obtain ⟨⟨tz, f₁⟩, htz, h⟩ := ok_of_bind h
  obtain ⟨lz, post₁, rfl, rfl⟩ := readField_sound htz
  obtain ⟨⟨uid, f₂⟩, huid, h⟩ := ok_of_bind h
  obtain ⟨lu, post₂, rfl, rfl⟩ := readField_sound huid
  obtain ⟨⟨gid, f₃⟩, hgid, h⟩ := ok_of_bind h
  obtain ⟨lg, post₃, rfl, rfl⟩ := readField_sound hgid
  obtain ⟨⟨user, f₄⟩, huser, h⟩ := ok_of_bind h
  obtain ⟨user, post₄, rfl, rfl, rfl⟩ := readName_sound huser
  obtain ⟨⟨group, f₅⟩, hgroup, h⟩ := ok_of_bind h
  obtain ⟨group, post₅, rfl, rfl, rfl⟩ := readName_sound hgroup
  obtain ⟨⟨host, f₆⟩, hhost, h⟩ := ok_of_bind h
  obtain ⟨host, post₆, rfl, rfl, rfl⟩ := readName_sound hhost
  obtain ⟨⟨ip, f₇⟩, hip, h⟩ := ok_of_bind h
  obtain ⟨li, post₇, rfl, rfl⟩ := readField_sound hip
  obtain ⟨⟨next, f₈⟩, hnext, h⟩ := ok_of_bind h
  obtain ⟨ln, post₈, rfl, rfl⟩ := readField_sound hnext
  cases h
  refine ⟨⟨⟨tm, htm⟩, ⟨tz, lz⟩, ⟨uid, lu⟩, ⟨gid, lg⟩, user, group, host, ⟨ip, li⟩, ⟨next, ln⟩⟩,
    post₈, rfl, ?_, rfl, ?_⟩
  · unfold WireRecord.encodeRest
    simp only [List.append_assoc]
  · unfold WireRecord.encodeRest
    simp only [List.append_assoc]

/-- The bytes of a file begin with those of one record only: the reader would read both, and it
    reads one. -/
theorem encode_append_inj {w w' : WireRecord} {x y : List UInt8}
    (h : w.encode ++ x = w'.encode ++ y) :
    w.encode = w'.encode ∧ w.decode = w'.decode ∧ x = y := by
  unfold WireRecord.encode at h
  rw [List.append_assoc, List.append_assoc] at h
  obtain ⟨htm, hrest⟩ := List.append_inj h (by rw [Bytes.length_toList, Bytes.length_toList])
  -- the reader stops at one offset
  have hread := @readRecord_complete [] x w
  rw [hrest, htm, readRecord_complete] at hread
  have hstop : w'.encodeRest.length = w.encodeRest.length :=
    congrArg (fun p : Record × File => p.2.offset) (Except.ok.inj hread)
  obtain ⟨hsame, hxy⟩ := List.append_inj hrest hstop.symm
  have hdecode : w'.decode = w.decode :=
    congrArg (fun p : Record × File => p.1) (Except.ok.inj hread)
  unfold WireRecord.encode
  exact ⟨by rw [htm, hsame], hdecode.symm, hxy⟩

end NetworkExperiment
