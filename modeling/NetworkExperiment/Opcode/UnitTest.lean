import NetworkExperiment.Lib.ActionSystem
import NetworkExperiment.Util.Random
import NetworkExperiment.Opcode.Release
import NetworkExperiment.Opcode.Requests

namespace NetworkExperiment

open ActionSystems Cmpsc311OpcodeDef

/-!
# The unit test of the opcode functions

The elaborate part of `cmpsc311OpCodeUnitTest`: an iteration makes up a definition whose fields fill
the word, sets and gets fields at random and compares what it gets with what it has set.

* `OpcodeTest` / `opcodeUnitTest` — an iteration, from one random word to the next;
* `OpcodeTest.Ok` — the invariant: the fields found so far and their bits, and from the creation on
  that each field holds its last value;
* `opcodeUnitTest_stops_at_release` — no iteration fails, and none gets behind the release of its
  definition.

A read or a write outside an array has no step.
-/

/-! ### The iteration -/

/-- `OpCodeUintTestVals`: a field as the test knows it, with the value that it should hold; the
    name is made from the other members. -/
structure OpCodeUintTestVals where
  fieldbits : UInt8
  fieldid : UInt8
  value : OpCode

/-- The name that `snprintf` makes for field `j`; it is shorter than its array. -/
def OpCodeUintTestVals.name (j : ℕ) (v : OpCodeUintTestVals) : String :=
  String.ofList ("OPCODE FIELD ".toList ++ (Nat.toDigits 10 j ++ (" ID=".toList ++
    (Nat.toDigits 10 v.fieldid.toNat ++ (" width=".toList ++
      Nat.toDigits 10 v.fieldbits.toNat)))))

/-- The local variables while fields are set and got: the fields, the definition, the word, and the
    variable that the last value was read into. -/
structure OpcodeUse where
  vals : List OpCodeUintTestVals
  d : Cmpsc311OpcodeDef
  op : OpCode
  val : OpCode

/-- Where the iteration is: in front of a random word, of the release, or at an end.  `bits` is
    what the widths drawn so far sum up to. -/
inductive OpcodeTest
  | fieldbits (bits : ℕ) (vals : List OpCodeUintTestVals)
  | fieldid (bits : ℕ) (vals : List OpCodeUintTestVals) (width : UInt8)
  | field (j : ℕ) (u : OpcodeUse)
  | setOrGet (j i : ℕ) (u : OpcodeUse)
  | value (j i : ℕ) (u : OpcodeUse)
  | release (u : OpcodeUse)
  | complete
  | returned (ret : ℤ)

/-- `CMPSC311_OPCODE_UNIT_TEST_FIELD_ITERATIONS`. -/
def opcodeUnitTestFieldIterations : ℕ := 100

/-- The loop that creates the fields, from field `j` on; it stops at the first that is not
    accepted. -/
def createFields (d : Cmpsc311OpcodeDef) :
    ℕ → List OpCodeUintTestVals → Option (ℤ × Cmpsc311OpcodeDef)
  | _, [] => some (0, d)
  | j, v :: vals => do
      let (ret, d) ← addOpcodeField d (v.name j) v.fieldid v.fieldbits
      if ret ≠ 0 then
        return (-1, d)
      createFields d (j + 1) vals

namespace OpcodeTest

/-- The definition is created, and the assignments begin. -/
def create (vals : List OpCodeUintTestVals) (val : OpCode) : Option OpcodeTest := do
  let (ret, d) ← createFields (initOpcodeDefinition "utest" (UInt8.ofNat vals.length)) 0 vals
  if ret ≠ 0 then
    return .returned (-1)
  return .field 0 ⟨vals, d, 0, val⟩

/-- The end of a pass through the assignments. -/
def next (j : ℕ) (u : OpcodeUse) : OpcodeTest :=
  if j + 1 < opcodeUnitTestFieldIterations then .field (j + 1) u else .release u

/-- What the iteration does with the next random word; `val` is the local variable when the
    iteration begins. -/
def step (val : OpCode) (w : UInt32) : OpcodeTest → Option OpcodeTest
  | .fieldbits bits vals =>
    if vals.length < 64 then
      let drawn := (getRandomValue w 1 16).toUInt8
      let width := if bits + drawn.toNat > 64 then UInt8.ofNat (64 - bits) else drawn
      some (.fieldid (bits + width.toNat) vals width)
    else none
  | .fieldid bits vals width =>
    let id := (getRandomValue w 1 0xff).toUInt8
    if vals.any (·.fieldid = id) then some (.fieldid bits vals width)
    else if bits < 64 then some (.fieldbits bits (vals ++ [⟨width, id, 0⟩]))
    else create (vals ++ [⟨width, id, 0⟩]) val
  | .field j u =>
    some (.setOrGet j (getRandomValue w 0 (UInt32.ofNat (u.vals.length - 1))).toNat u)
  | .setOrGet j i u =>
    if getRandomValue w 0 1 ≠ 0 then some (.value j i u)
    else do
      let v ← u.vals[i]?
      let (ret, val) ← getOpcodeField u.d v.fieldid u.op u.val
      if ret ≠ 0 then
        return .returned (-1)
      if v.value ≠ val then
        return .returned (-1)
      return next j { u with val := val }
  | .value j i u => do
    let v ← u.vals[i]?
    let drawn := getRandomValue w 0 (UInt32.ofNat (2 ^ v.fieldbits.toNat - 1))
    let v := { v with value := BitVec.ofNat 64 drawn.toNat }
    let (ret, op) ← setOpcodeField u.d v.fieldid u.op v.value
    if ret ≠ 0 then
      return .returned (-1)
    return next j { u with vals := u.vals.set i v, op := op }
  | .release u => do
    let released ← releaseOpcodeDefinition u.d
    if released.ret ≠ 0 then
      return .returned (-1)
    return .complete
  | .complete | .returned _ => none

end OpcodeTest

/-- An iteration; an action is a random word. -/
def opcodeUnitTest (val : OpCode) : ActionSystem OpcodeTest UInt32 where
  act s w := s.step val w

/-! ### The names of the fields -/

/-- The names of two fields differ in the number of the field. -/
theorem OpCodeUintTestVals.name_inj {i j : ℕ} {v w : OpCodeUintTestVals}
    (h : v.name i = w.name j) : i = j := by
  have hlists := congrArg String.toList h
  unfold OpCodeUintTestVals.name at hlists
  rw [@String.toList_ofList (_ ++ (Nat.toDigits 10 i ++ _)),
    @String.toList_ofList (_ ++ (Nat.toDigits 10 j ++ _))] at hlists
  -- the number ends at the first character that is no digit
  have hdigits := congrArg (List.takeWhile Char.isDigit) (List.append_cancel_left hlists)
  -- the digits of the number, in front of the blank
  have hnumber : ∀ (n : ℕ) (rest : List Char),
      (Nat.toDigits 10 n ++ (" ID=".toList ++ rest)).takeWhile Char.isDigit
        = Nat.toDigits 10 n := by
    intro n rest
    rw [List.takeWhile_append_of_pos fun c hc =>
      Nat.isDigit_of_mem_toDigits (by decide) (by decide) hc]
    exact List.append_nil _
  rw [hnumber, hnumber] at hdigits
  rw [← @Nat.ofDigitChars_ten_toDigits i, hdigits, Nat.ofDigitChars_ten_toDigits]


/-! ### The definition is created -/

/-- The calls of `add_opcode_field` for the fields, from field `j` on. -/
def requests : ℕ → List OpCodeUintTestVals → List FieldRequest
  | _, [] => []
  | j, v :: vals => ⟨v.name j, v.fieldid, v.fieldbits⟩ :: requests (j + 1) vals

/-- They have the identifiers and the widths of the test. -/
theorem requests_fields (j : ℕ) (vals : List OpCodeUintTestVals) :
    (requests j vals).map (fun r => (r.id, r.width))
      = vals.map fun v => (v.fieldid, v.fieldbits) := by
  induction vals generalizing j with
  | nil => rfl
  | cons v vals ih => exact congrArg ((v.fieldid, v.fieldbits) :: ·) (ih (j + 1))

theorem requests_ids (j : ℕ) (vals : List OpCodeUintTestVals) :
    (requests j vals).map (·.id) = vals.map (·.fieldid) := by
  have hfields := congrArg (List.map Prod.fst) (requests_fields j vals)
  rwa [List.map_map, List.map_map] at hfields

theorem length_requests (j : ℕ) (vals : List OpCodeUintTestVals) :
    (requests j vals).length = vals.length := by
  have hlen := congrArg List.length (requests_ids j vals)
  rwa [List.length_map, List.length_map] at hlen

/-- A name is that of a field from `j` on. -/
theorem name_of_mem_requests {j : ℕ} {vals : List OpCodeUintTestVals} {r : FieldRequest}
    (hr : r ∈ requests j vals) : ∃ k v, j ≤ k ∧ r.name = OpCodeUintTestVals.name k v := by
  induction vals generalizing j with
  | nil => cases hr
  | cons v vals ih =>
    rcases List.mem_cons.mp hr with rfl | hr
    · exact ⟨j, v, Nat.le_refl j, rfl⟩
    · obtain ⟨k, w, hk, hname⟩ := ih hr
      exact ⟨k, w, Nat.le_of_succ_le hk, hname⟩

/-- No two fields have the same name. -/
theorem requests_names (j : ℕ) (vals : List OpCodeUintTestVals) :
    ((requests j vals).map (·.name)).Nodup := by
  induction vals generalizing j with
  | nil => exact List.nodup_nil
  | cons v vals ih =>
    refine List.nodup_cons.mpr ⟨?_, ih (j + 1)⟩
    intro hmem
    obtain ⟨r, hr, hname⟩ := List.mem_map.mp hmem
    obtain ⟨k, w, hk, hname'⟩ := name_of_mem_requests hr
    have hkj := OpCodeUintTestVals.name_inj (hname'.symm.trans hname)
    omega

variable {d : Cmpsc311OpcodeDef} {n : UInt8} {taken : List FieldRequest}
  {vals : List OpCodeUintTestVals} {j : ℕ}

/-- Fields with new names and new identifiers that fit into the word are all created. -/
theorem createFields_records (h : Records n taken d)
    (hlen : (taken ++ requests j vals).length ≤ n.toNat)
    (hnames : ((taken ++ requests j vals).map (·.name)).Nodup)
    (hids : ((taken ++ requests j vals).map (·.id)).Nodup)
    (hbits : requestedBits (taken ++ requests j vals) ≤ opcodeBitwidth) :
    ∃ d', createFields d j vals = some (0, d') ∧ Records n (taken ++ requests j vals) d' := by
  induction vals generalizing taken d j with
  | nil => exact ⟨d, rfl, by rwa [requests, List.append_nil]⟩
  | cons v vals ih =>
    have hsplit : taken ++ requests j (v :: vals)
        = taken ++ [⟨v.name j, v.fieldid, v.fieldbits⟩] ++ requests (j + 1) vals := by
      rw [List.append_assoc]
      rfl
    -- a new name, a new identifier, and room in the word
    have haccept : Acceptable taken ⟨v.name j, v.fieldid, v.fieldbits⟩ := by
      rw [hsplit, List.append_assoc] at hnames hids hbits
      rw [List.map_append] at hnames hids
      refine ⟨fun q hq => ⟨?_, ?_⟩, ?_⟩
      · exact (List.nodup_append.mp hnames).2.2 _ (List.mem_map_of_mem hq) _ List.mem_cons_self
      · exact (List.nodup_append.mp hids).2.2 _ (List.mem_map_of_mem hq) _ List.mem_cons_self
      · unfold requestedBits at hbits ⊢
        rw [List.map_append, List.sum_append, List.singleton_append, List.map_cons,
          List.sum_cons] at hbits
        dsimp only at hbits ⊢
        omega
    have hroom : taken.length < n.toNat := by
      rw [hsplit, List.length_append, List.length_append, List.length_singleton] at hlen
      omega
    -- there is a place left in the array
    have hindex : d.assignedFields.toNat < d.fielddefs.length := by
      rw [h.assignedFields_eq, h.length_fielddefs]
      exact hroom
    rw [hsplit] at hlen hnames hids hbits ⊢
    obtain ⟨d', hcreate, hd'⟩ := ih (h.assign haccept hindex) hlen hnames hids hbits
    refine ⟨d', ?_, hd'⟩
    have hadd := addOpcodeField_records h ⟨v.name j, v.fieldid, v.fieldbits⟩
    rw [if_pos haccept, if_pos hroom] at hadd
    dsimp only at hadd
    unfold createFields
    rw [hadd]
    exact hcreate

/-! ### The invariant -/

/-- The fields found so far take these bits. -/
structure Found (bits : ℕ) (vals : List OpCodeUintTestVals) : Prop where
  sum : (vals.map (·.fieldbits.toNat)).sum = bits
  widths : ∀ v ∈ vals, 1 ≤ v.fieldbits.toNat ∧ v.fieldbits.toNat ≤ 16
  ids : (vals.map (·.fieldid)).Nodup
  zero : ∀ v ∈ vals, v.value = 0

/-- The definition has the fields and is full, and each field holds its last value.  A full
    definition is what the release does not survive. -/
structure OpcodeUse.Ok (u : OpcodeUse) : Prop where
  layout : u.d.Layout usableWidth
  used : u.d.usedBits = 64
  full : u.d.assignedFields = u.d.numFields
  nonempty : 0 < u.d.assignedFields.toNat
  length : u.vals.length = u.d.assignedFields.toNat
  fields : ∀ v ∈ u.vals, ∃ f ∈ u.d.assigned, f.fieldId = v.fieldid ∧ f.width = v.fieldbits
  widths : ∀ v ∈ u.vals, 1 ≤ v.fieldbits.toNat ∧ v.fieldbits.toNat ≤ 16
  ids : (u.vals.map (·.fieldid)).Nodup
  holds : ∀ v ∈ u.vals, u.d.vars u.op v.fieldid = some v.value

/-- The invariant of an iteration, by its place.  No end is reached. -/
def OpcodeTest.Ok : OpcodeTest → Prop
  | .fieldbits bits vals => bits < 64 ∧ Found bits vals
  | .fieldid bits vals width =>
    bits ≤ 64 ∧ 1 ≤ width.toNat ∧ width.toNat ≤ 16 ∧ ∃ b, bits = b + width.toNat ∧ Found b vals
  | .field _ u => u.Ok
  | .setOrGet _ i u | .value _ i u => i < u.vals.length ∧ u.Ok
  | .release u => u.Ok
  | .complete | .returned _ => False

/-- Every field has a bit, so there are 64 fields at most. -/
theorem Found.length_le {bits : ℕ} (h : Found bits vals) : vals.length ≤ bits := by
  have hle := List.length_le_sum_of_one_le (vals.map (·.fieldbits.toNat)) (by
    intro w hw
    obtain ⟨v, hv, rfl⟩ := List.mem_map.mp hw
    exact (h.widths v hv).1)
  rwa [List.length_map, h.sum] at hle

/-- One more field. -/
theorem Found.append {bits : ℕ} (h : Found bits vals) {width id : UInt8} (hpos : 1 ≤ width.toNat)
    (hle : width.toNat ≤ 16) (hid : ∀ v ∈ vals, v.fieldid ≠ id) :
    Found (bits + width.toNat) (vals ++ [⟨width, id, 0⟩]) where
  sum := by
    rw [List.map_append, List.sum_append, h.sum]
    rfl
  widths := by
    intro v hv
    rcases List.mem_append.mp hv with hv | hv
    · exact h.widths v hv
    · rw [List.mem_singleton.mp hv]
      exact ⟨hpos, hle⟩
  ids := by
    rw [List.map_append, List.nodup_append']
    refine ⟨h.ids, List.nodup_singleton _, ?_⟩
    intro id' hmem hlast
    obtain ⟨v, hv, rfl⟩ := List.mem_map.mp hmem
    exact hid v hv (List.mem_singleton.mp hlast)
  zero := by
    intro v hv
    rcases List.mem_append.mp hv with hv | hv
    · exact h.zero v hv
    · rw [List.mem_singleton.mp hv]

/-- **Creation.**  Fields that fill the word are created, and hold zero.  The number of fields
    asked for is the number that is assigned, so the definition is full. -/
theorem create_ok (h : Found 64 vals) (val : OpCode) :
    ∃ u, OpcodeTest.create vals val = some (.field 0 u) ∧ u.Ok := by
  have hle := h.length_le
  have hn : (UInt8.ofNat vals.length).toNat = vals.length := by
    rw [UInt8.toNat_ofNat']
    omega
  have hbits : requestedBits (requests 0 vals) = 64 := by
    have hwidths := congrArg (fun fs => (fs.map fun f => f.2.toNat).sum) (requests_fields 0 vals)
    simp only [List.map_map] at hwidths
    exact hwidths.trans h.sum
  obtain ⟨d, hcreate, hd⟩ := @createFields_records _ (UInt8.ofNat vals.length) [] vals 0
    (@records_init "utest" _) (by rw [List.nil_append, length_requests, hn])
    (requests_names 0 vals) (by rw [List.nil_append, requests_ids]; exact h.ids)
    (by rw [List.nil_append, hbits])
  rw [List.nil_append] at hd
  -- the fields of the definition are those of the test
  have hfields : d.assigned.map (fun f => (f.fieldId, f.width))
      = vals.map fun v => (v.fieldid, v.fieldbits) := by
    have hkeys := congrArg (List.map Prod.snd) hd.keys
    rw [List.map_map, List.map_map] at hkeys
    exact hkeys.trans (requests_fields 0 vals)
  have hlayout : d.Layout usableWidth := { hd.layout with
    widths := by
      intro f hf
      have hmem : (f.fieldId, f.width) ∈ vals.map fun v => (v.fieldid, v.fieldbits) :=
        hfields ▸ List.mem_map_of_mem hf
      obtain ⟨v, hv, heq⟩ := List.mem_map.mp hmem
      obtain ⟨-, hwidth⟩ := Prod.mk.inj heq
      have hbound := h.widths v hv
      rw [← hwidth]
      exact ⟨hbound.1, by omega⟩ }
  have hcount : d.assignedFields.toNat = vals.length := by
    rw [hd.assignedFields_eq, length_requests]
  have hmem : ∀ v ∈ vals, ∃ f ∈ d.assigned, f.fieldId = v.fieldid ∧ f.width = v.fieldbits := by
    intro v hv
    have hmem : (v.fieldid, v.fieldbits) ∈ d.assigned.map fun f => (f.fieldId, f.width) :=
      hfields ▸ List.mem_map_of_mem hv
    obtain ⟨f, hf, heq⟩ := List.mem_map.mp hmem
    exact ⟨f, hf, Prod.mk.inj heq⟩
  refine ⟨⟨vals, d, 0, val⟩, ?_, ?_⟩
  · unfold OpcodeTest.create
    rw [hcreate]
    rfl
  constructor
  case layout => exact hlayout
  case used =>
    rw [← UInt8.toNat_inj, hd.usedBits_eq, hbits]
    rfl
  case full => rw [← UInt8.toNat_inj, hcount, hd.numFields_eq, hn]
  case nonempty =>
    rw [hcount]
    refine List.length_pos_iff_ne_nil.mpr ?_
    rintro rfl
    have hsum := h.sum
    rw [List.map_nil, List.sum_nil] at hsum
    omega
  case length => exact hcount.symm
  case fields => exact hmem
  case widths => exact h.widths
  case ids => exact h.ids
  case holds =>
    intro v hv
    obtain ⟨f, hf, hid, -⟩ := hmem v hv
    have hzero : f.field.get (0 : OpCode) = 0 := by simp [BitFields.Field.get]
    rw [← hid, vars_of_mem hlayout hf, hzero, h.zero v hv]

/-! ### The step -/

variable {u : OpcodeUse} {i : ℕ} {v : OpCodeUintTestVals}

/-- A field that is got holds its last value, so the comparison of the test succeeds. -/
theorem OpcodeUse.Ok.get (h : u.Ok) (hv : u.vals[i]? = some v) :
    getOpcodeField u.d v.fieldid u.op u.val = some (0, v.value) := by
  have hmem := List.mem_of_getElem? hv
  obtain ⟨f, hf, hid, -⟩ := h.fields v hmem
  have hholds := h.holds v hmem
  rw [← hid] at hholds ⊢
  exact getOpcodeField_of_mem h.layout hf hholds

/-- A value that fits is set, and the other fields hold what they have held. -/
theorem OpcodeUse.Ok.set (h : u.Ok) (hv : u.vals[i]? = some v) {value : OpCode}
    (hvalue : value.toNat < 2 ^ v.fieldbits.toNat) :
    ∃ op, setOpcodeField u.d v.fieldid u.op value = some (0, op) ∧
      OpcodeUse.Ok { u with vals := u.vals.set i { v with value := value }, op := op } := by
  obtain ⟨hi, hvi⟩ := List.getElem?_eq_some_iff.mp hv
  have hmem := List.mem_of_getElem? hv
  obtain ⟨f, hf, hid, hwidth⟩ := h.fields v hmem
  obtain ⟨f', hfield, hlt, hset⟩ := setOpcodeField_accepted h.layout u.op
    (⟨f, hf, hid, by rw [hwidth]; exact hvalue⟩ : u.d.Admits v.fieldid value)
  have hvars : u.d.vars (f'.field.set u.op value) = _ := vars_set h.layout hfield hlt
  -- the value is new, the identifiers are the same
  have hids : (u.vals.set i { v with value := value }).map (·.fieldid)
      = u.vals.map (·.fieldid) := by
    have hget : (u.vals.map (·.fieldid))[i]? = some v.fieldid := by
      rw [List.getElem?_map, hv]
      rfl
    obtain ⟨hlt', hfield'⟩ := List.getElem?_eq_some_iff.mp hget
    rw [List.map_set]
    dsimp only
    rw [← hfield', List.set_getElem_self]
  refine ⟨_, hset, ?_⟩
  constructor
  case layout => exact h.layout
  case used => exact h.used
  case full => exact h.full
  case nonempty => exact h.nonempty
  case length => exact (List.length_set ..).trans h.length
  case ids => exact hids ▸ h.ids
  case fields =>
    intro w hw
    rcases List.mem_or_eq_of_mem_set hw with hw | rfl
    · exact h.fields w hw
    · exact h.fields v hmem
  case widths =>
    intro w hw
    rcases List.mem_or_eq_of_mem_set hw with hw | rfl
    · exact h.widths w hw
    · exact h.widths v hmem
  case holds =>
    intro w hw
    obtain ⟨k, hk, hkw⟩ := List.getElem_of_mem hw
    rw [List.length_set] at hk
    dsimp only
    rw [hvars]
    by_cases hki : k = i
    · subst hki
      rw [List.getElem_set_self] at hkw
      subst hkw
      exact Function.update_self ..
    · -- another field has another identifier
      rw [List.getElem_set_ne (Ne.symm hki)] at hkw
      have hne : w.fieldid ≠ v.fieldid := by
        intro heq
        have hwv := List.inj_on_of_nodup_map h.ids (hkw ▸ List.getElem_mem hk) hmem heq
        exact hki (h.ids.of_map.getElem_inj_iff.mp (hkw.trans (hwv.trans hvi.symm)))
      rw [Function.update_of_ne hne]
      exact h.holds w (hkw ▸ List.getElem_mem hk)

/-- The definition is full, so its release reads behind the array. -/
theorem OpcodeUse.Ok.release (h : u.Ok) : releaseOpcodeDefinition u.d = none := by
  have hfull : u.d.fielddefs.length ≤ u.d.assignedFields.toNat := by
    rw [u.d.length_fielddefs, h.full]
  unfold releaseOpcodeDefinition
  rw [releaseLoop_outside h.nonempty hfull]
  rfl

/-- A number that is drawn lies in its range. -/
theorem toNat_getRandomValue (w : UInt32) {max : ℕ} (hmax : max < 2 ^ 32) :
    (getRandomValue w 0 (UInt32.ofNat max)).toNat ≤ max := by
  obtain ⟨-, hle⟩ := @getRandomValue_mem w 0 (UInt32.ofNat max) (UInt32.zero_le)
  rw [UInt32.le_iff_toNat_le, UInt32.toNat_ofNat', Nat.mod_eq_of_lt hmax] at hle
  exact hle

/-- The width that is drawn for a field. -/
theorem toNat_fieldbits (w : UInt32) : 1 ≤ (getRandomValue w 1 16).toUInt8.toNat ∧
    (getRandomValue w 1 16).toUInt8.toNat ≤ 16 := by
  obtain ⟨hmin, hmax⟩ := @getRandomValue_mem w 1 16 (by decide)
  rw [UInt32.le_iff_toNat_le] at hmin hmax
  have hone : UInt32.toNat 1 = 1 := rfl
  have hsixteen : UInt32.toNat 16 = 16 := rfl
  rw [UInt32.toNat_toUInt8]
  omega

namespace OpcodeTest

variable {s : OpcodeTest}

/-- Between two assignments nothing is changed. -/
theorem next_ok (h : u.Ok) (j : ℕ) : (next j u).Ok := by
  unfold next
  split_ifs
  · exact h
  · exact h

/-- **Step lemma.**  The iteration goes on, unless it is in front of the release. -/
theorem Ok.step (val : OpCode) (h : s.Ok) (w : UInt32) :
    (∃ u, s = .release u ∧ s.step val w = none) ∨
      (∀ u, s ≠ .release u) ∧ ∃ s', s.step val w = some s' ∧ s'.Ok := by
  cases s with
  | fieldbits bits vals =>
    obtain ⟨hlt, hfound⟩ := h
    have hle := hfound.length_le
    refine .inr ⟨by simp, ?_⟩
    unfold OpcodeTest.step
    dsimp only
    rw [if_pos (by omega)]
    refine ⟨_, rfl, ?_⟩
    have hdrawn := toNat_fieldbits w
    by_cases hover : bits + (getRandomValue w 1 16).toUInt8.toNat > 64
    · -- the last field takes what is left
      have hrest : (UInt8.ofNat (64 - bits)).toNat = 64 - bits := by
        rw [UInt8.toNat_ofNat']
        omega
      rw [if_pos hover]
      refine ⟨?_, ?_, ?_, bits, rfl, hfound⟩
      · omega
      · omega
      · omega
    · rw [if_neg hover]
      refine ⟨?_, hdrawn.1, hdrawn.2, bits, rfl, hfound⟩
      omega
  | fieldid bits vals width =>
    obtain ⟨hle, hpos, hwidth, b, rfl, hfound⟩ := h
    refine .inr ⟨by simp, ?_⟩
    unfold OpcodeTest.step
    dsimp only
    by_cases htaken : vals.any (·.fieldid = (getRandomValue w 1 0xff).toUInt8) = true
    · rw [if_pos htaken]
      exact ⟨_, rfl, hle, hpos, hwidth, b, rfl, hfound⟩
    · -- a new identifier: the field is complete
      have hnew : ∀ v ∈ vals, v.fieldid ≠ (getRandomValue w 1 0xff).toUInt8 := by
        intro v hv heq
        exact htaken (List.any_eq_true.mpr ⟨v, hv, decide_eq_true heq⟩)
      have hfound' := hfound.append hpos hwidth hnew
      rw [if_neg htaken]
      by_cases hmore : b + width.toNat < 64
      · rw [if_pos hmore]
        exact ⟨_, rfl, hmore, hfound'⟩
      · have hall : b + width.toNat = 64 := by omega
        rw [hall] at hfound'
        obtain ⟨u, hcreate, hu⟩ := create_ok hfound' val
        rw [if_neg hmore]
        exact ⟨_, hcreate, hu⟩
  | field j u =>
    -- the number of a field of the list
    refine .inr ⟨by simp, _, rfl, ?_, h⟩
    have hnonempty := h.nonempty
    have hlength := h.length
    have hbound := u.d.assignedFields.toNat_lt
    have hdrawn := @toNat_getRandomValue w (u.vals.length - 1) (by omega)
    omega
  | setOrGet j i u =>
    obtain ⟨hi, hu⟩ := h
    have hv := List.getElem?_eq_getElem hi
    refine .inr ⟨by simp, ?_⟩
    unfold OpcodeTest.step
    dsimp only
    by_cases hset : getRandomValue w 0 1 ≠ 0
    · rw [if_pos hset]
      exact ⟨_, rfl, hi, hu⟩
    · rw [if_neg hset, hv]
      simp only [Option.bind_eq_bind, Option.bind_some]
      rw [hu.get hv]
      have hu' : OpcodeUse.Ok { u with val := u.vals[i].value } :=
        ⟨hu.layout, hu.used, hu.full, hu.nonempty, hu.length, hu.fields, hu.widths, hu.ids,
          hu.holds⟩
      refine ⟨next j { u with val := u.vals[i].value }, ?_, next_ok hu' j⟩
      simp
  | value j i u =>
    obtain ⟨hi, hu⟩ := h
    have hv := List.getElem?_eq_getElem hi
    refine .inr ⟨by simp, ?_⟩
    unfold OpcodeTest.step
    dsimp only
    have hwidth := (hu.widths _ (List.getElem_mem hi)).2
    have hpow : 2 ^ u.vals[i].fieldbits.toNat ≤ 2 ^ 16 := Nat.pow_le_pow_right (by decide) hwidth
    have hpos : 0 < 2 ^ u.vals[i].fieldbits.toNat := Nat.two_pow_pos _
    have hdrawn := @toNat_getRandomValue w (2 ^ u.vals[i].fieldbits.toNat - 1) (by omega)
    -- the value that is drawn fits into its field
    have hvalue : (BitVec.ofNat 64 (getRandomValue w 0
        (UInt32.ofNat (2 ^ u.vals[i].fieldbits.toNat - 1))).toNat).toNat
          < 2 ^ u.vals[i].fieldbits.toNat := by
      rw [BitVec.toNat_ofNat]
      omega
    obtain ⟨op, hset, hok⟩ := hu.set hv hvalue
    rw [hv]
    simp only [Option.bind_eq_bind, Option.bind_some]
    rw [hset]
    exact ⟨_, rfl, next_ok hok j⟩
  | release u =>
    refine .inl ⟨u, rfl, ?_⟩
    unfold OpcodeTest.step
    dsimp only
    rw [OpcodeUse.Ok.release h]
    rfl
  | complete | returned ret => exact h.elim

end OpcodeTest

/-- **The unit test.**  Whatever an iteration draws, it returns no failure, leaves no array and goes
    on until it is in front of the release: there the fields take all bits of the word, and each of
    them holds the value that was set last.  It does not get behind the release, which reads behind
    the array of the fields. -/
theorem opcodeUnitTest_stops_at_release (val : OpCode) (words : List UInt32) (s : OpcodeTest)
    (hrun : (opcodeUnitTest val).run words (.fieldbits 0 []) = some s) :
    (∀ ret, s ≠ .returned ret) ∧ s ≠ .complete ∧
      (∀ w, (opcodeUnitTest val).act s w = none ↔ ∃ u, s = .release u) ∧
      ∀ u, s = .release u → releaseOpcodeDefinition u.d = none ∧ u.d.usedBits = 64 ∧
        ∀ v ∈ u.vals, u.d.vars u.op v.fieldid = some v.value := by
  -- a step that is made leads on with the invariant
  have hinv : (opcodeUnitTest val).Invariant OpcodeTest.Ok := by
    intro s w s' hs hact
    obtain ⟨u, -, hnone⟩ | ⟨-, s'', hstep, hok⟩ := hs.step val w
    · rw [show (opcodeUnitTest val).act s w = none from hnone] at hact
      cases hact
    · obtain rfl := Option.some.inj (hstep.symm.trans hact)
      exact hok
  have hstart : (OpcodeTest.fieldbits 0 []).Ok :=
    ⟨by decide, rfl, by simp, List.nodup_nil, by simp⟩
  have hok := hinv.run hstart hrun
  refine ⟨?_, ?_, ?_, ?_⟩
  · rintro ret rfl
    exact hok
  · rintro rfl
    exact hok
  · intro w
    obtain ⟨u, hrelease, hnone⟩ | ⟨hother, s', hstep, -⟩ := hok.step val w
    · exact iff_of_true hnone ⟨u, hrelease⟩
    · refine iff_of_false ?_ fun ⟨u, hu⟩ => hother u hu
      rw [show (opcodeUnitTest val).act s w = some s' from hstep]
      simp
  · rintro u rfl
    exact ⟨OpcodeUse.Ok.release hok, OpcodeUse.Ok.used hok, OpcodeUse.Ok.holds hok⟩

/-- Four fields of 16 bits, of which the second is set and got in turn, a hundred times in all: the
    iteration is in front of the release. -/
theorem opcodeUnitTest_stops_at_release_four_fields : ∃ u,
    (opcodeUnitTest 0).run ([15, 0, 15, 1, 15, 2, 15, 3] ++
        (List.replicate 50 [1, 1, 500, 1, 0]).flatten) (.fieldbits 0 []) = some (.release u) ∧
      releaseOpcodeDefinition u.d = none := by
  have hsome : ((opcodeUnitTest 0).run ([15, 0, 15, 1, 15, 2, 15, 3] ++
      (List.replicate 50 [1, 1, 500, 1, 0]).flatten) (.fieldbits 0 [])).any (fun s =>
        match s with
        | .release _ => true
        | _ => false) = true := by
    decide +kernel
  obtain ⟨s, hrun, hs⟩ := (Option.any_eq_true _ _).mp hsome
  obtain ⟨-, -, -, hrelease⟩ := opcodeUnitTest_stops_at_release _ _ s hrun
  split at hs
  case h_1 u => exact ⟨u, hrun, (hrelease u rfl).1⟩
  case h_2 => cases hs

end NetworkExperiment
