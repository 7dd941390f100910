import NetworkExperiment.Lib.HeapBlock

namespace NetworkExperiment

open HeapBlocks

/-!
# The external address

`environment_capture` asks a server for the external address; `environment_capture_cb` collects
what arrives, piece by piece (`cmpsc311_capture.c`):

* `Response` / `environmentCaptureCb` — the buffer that grows with each piece, and the callback;
* `externalAddress` — the address that is made of the text at the end of a transfer;
* `Transfers` — what is relied on of `curl_easy_perform`, which is a parameter: it passes the pieces
  to the callback in their order, and one that is not taken whole ends the transfer;
* `Collected` / `environmentCaptureCb_collected` — the text so far, and how much of it is there;
* `takes_held` — the same for the pieces of a transfer, by induction on them;
* `externalAddress_eq` — what the capture makes of a transfer, and when it reads what is not there.

The sizes are those of blocks in memory, so no sum of them overflows.
-/

/-! ### The calls -/

/-- `struct response`: the block that the pieces are collected in, and how long the text in it is;
    `data` is `NULL` or a block. -/
structure Response where
  data : Option (Block UInt8)
  size : ℕ
  deriving DecidableEq

/-- A piece of the text, and whether `realloc` gets its memory. -/
structure Piece where
  bytes : List UInt8
  granted : Bool
  deriving DecidableEq

/-- `environment_capture_cb`: what it returns, and the response; `none` is a write outside the
    block.  The result of `realloc` is put into `data` before it is looked at. -/
def environmentCaptureCb (resp : Response) (p : Piece) : Option (ℕ × Response) :=
  let n := p.bytes.length
  match if p.granted then some (resize resp.data (resp.size + n + 1)) else none with
  -- the block that `realloc` has not freed is forgotten
  | none => some (0, { resp with data := none })
  | some data => do
      let data ← write data resp.size p.bytes
      let size := resp.size + n
      let data ← write data size [0]
      return (n, ⟨some data, size⟩)

/-- `curl_easy_perform`, for a callback and the response that is passed to it: whether it returns
    `CURLE_OK`, and the response afterwards. -/
abbrev EasyPerform :=
  (Response → Piece → Option (ℕ × Response)) → Response → Option (Bool × Response)

/-- `addy` of `environment_capture`, where `curl_easy_init` has returned a handle, `calloc` is
    granted or not, and `inet_addr` reads a string. -/
def externalAddress (inetAddr : List UInt8 → UInt32) (perform : EasyPerform) (calloced : Bool) :
    Option UInt32 := do
  let resp : Response := ⟨if calloced then some [some 0] else none, 0⟩
  let (ok, resp) ← perform environmentCaptureCb resp
  if ok then
    let data ← resp.data
    let text ← readTo 0 data
    return inetAddr text
  return 0

/-! ### The transfer -/

/-- The callback takes all pieces, one after the other, each of them whole: it returns the length
    it has been called with. -/
def Takes (callback : Response → Piece → Option (ℕ × Response)) :
    Response → List Piece → Response → Prop
  | resp, [], resp' => resp = resp'
  | resp, p :: ps, resp' =>
      ∃ next, callback resp p = some (p.bytes.length, next) ∧ Takes callback next ps resp'

/-- What the documentation of `curl_easy_perform` says of a transfer in which the pieces arrive,
    where `res` tells that no other error comes up, such as a timeout.  It holds for any callback,
    and tells nothing of what a callback makes of the pieces. -/
structure Transfers (perform : EasyPerform) (ps : List Piece) (res : Bool) : Prop where
  /-- The callback gets the pieces in their order. -/
  all : ∀ callback resp resp', Takes callback resp ps resp' →
    perform callback resp = some (res, resp')
  /-- A piece that is not taken whole ends the transfer with an error. -/
  refused : ∀ callback resp ps₁ p ps₂ resp₁ n resp₂, ps = ps₁ ++ p :: ps₂ →
    Takes callback resp ps₁ resp₁ → callback resp₁ p = some (n, resp₂) → n ≠ p.bytes.length →
    perform callback resp = some (false, resp₂)

/-! ### The text so far -/

/-- What has arrived. -/
def received (ps : List Piece) : List UInt8 := ps.flatMap (·.bytes)

/-- The callback takes every piece whole: those that get no memory are empty. -/
def Taken (ps : List Piece) : Prop := ∀ p ∈ ps, p.granted = false → p.bytes = []

/-- Nothing has arrived in front of a piece that gets no memory, so that no text is lost with the
    block. -/
def Intact (ps : List Piece) : Prop := ps.Pairwise fun q p => p.granted = false → q.bytes = []

/-- The last piece gets memory. -/
def LastGranted (ps : List Piece) : Prop := ∀ p ∈ ps.getLast?, p.granted = true

instance (ps : List Piece) : Decidable (Taken ps) :=
  inferInstanceAs (Decidable (∀ p ∈ ps, _ → _))

instance (ps : List Piece) : Decidable (Intact ps) :=
  inferInstanceAs (Decidable (ps.Pairwise _))

instance (ps : List Piece) : Decidable (LastGranted ps) :=
  inferInstanceAs (Decidable (∀ p ∈ ps.getLast?, _))

/-- The pieces have all been taken, the last of them into a block: this holds the text, but for the
    first `lost` bytes of it, and ends with a `NUL`. -/
structure Collected (text : List UInt8) (lost : ℕ) (resp : Response) : Prop where
  size_eq : resp.size = text.length
  lost_le : lost ≤ text.length
  data_eq : resp.data = some (blank lost ++ (text.drop lost).map some ++ [some 0])

/-- The pieces have all been taken, and the block is lost with the last one, which was empty. -/
structure Dropped (text : List UInt8) (resp : Response) : Prop where
  size_eq : resp.size = text.length
  data_eq : resp.data = none

variable {text : List UInt8} {lost : ℕ} {resp : Response} {p : Piece} {ps : List Piece}

/-- A piece that gets no memory is taken only if it is empty. -/
theorem environmentCaptureCb_refused (h : p.granted = false) :
    environmentCaptureCb resp p = some (0, { resp with data := none }) := by
  unfold environmentCaptureCb
  rw [h]
  rfl

/-- A piece that gets memory is written behind what the block holds. -/
theorem environmentCaptureCb_granted (hp : p.granted = true) {content behind : Block UInt8}
    (hblock : resize resp.data (resp.size + p.bytes.length + 1) = content ++ behind)
    (hsize : content.length = resp.size) (hroom : behind.length = p.bytes.length + 1) :
    environmentCaptureCb resp p = some (p.bytes.length,
      ⟨some (content ++ p.bytes.map some ++ [some 0]), resp.size + p.bytes.length⟩) := by
  obtain ⟨data, hfirst, hsecond⟩ :=
    Option.bind_eq_some_iff.mp (@write_terminated _ content behind p.bytes 0 hroom)
  rw [hsize] at hfirst hsecond
  unfold environmentCaptureCb
  simp only [hp, if_true, hblock, hfirst, hsecond, Option.bind_eq_bind, Option.bind_some]
  rfl

/-- A piece is written behind the text, where the `NUL` was; the block grows by the length of the
    piece. -/
theorem environmentCaptureCb_collected (h : Collected text lost resp) (hp : p.granted = true) :
    ∃ resp', environmentCaptureCb resp p = some (p.bytes.length, resp') ∧
      Collected (text ++ p.bytes) lost resp' := by
  have hlen : (blank lost ++ (text.drop lost).map some).length = resp.size := by
    have hle := h.lost_le
    rw [List.length_append, length_blank, List.length_map, List.length_drop, h.size_eq]
    omega
  -- the block keeps what it has, and its new part is not written yet
  have hblock : resize resp.data (resp.size + p.bytes.length + 1)
      = blank lost ++ (text.drop lost).map some ++ (some 0 :: blank p.bytes.length) := by
    have hgrow := resize_some (blank lost ++ (text.drop lost).map some ++ [some 0]) p.bytes.length
    rw [List.length_append, hlen, List.length_singleton, Nat.add_right_comm, ← h.data_eq,
      List.append_assoc] at hgrow
    exact hgrow
  refine ⟨_, environmentCaptureCb_granted hp hblock hlen (by simp), ?_, ?_, ?_⟩
  · rw [List.length_append, ← h.size_eq]
  · rw [List.length_append]
    exact Nat.le_add_right_of_le h.lost_le
  · dsimp only
    rw [List.drop_append_of_le_length h.lost_le, List.map_append, List.append_assoc (blank lost)]

/-- A piece that is written into a new block.  It goes behind the size of the text so far, which
    the new block does not hold. -/
theorem environmentCaptureCb_dropped (h : Dropped text resp) (hp : p.granted = true) :
    ∃ resp', environmentCaptureCb resp p = some (p.bytes.length, resp') ∧
      Collected (text ++ p.bytes) text.length resp' := by
  have hblock : resize resp.data (resp.size + p.bytes.length + 1)
      = blank resp.size ++ blank (p.bytes.length + 1) := by
    rw [h.data_eq, resize_none, Nat.add_assoc, blank_add]
  refine ⟨_, environmentCaptureCb_granted hp hblock (by simp) (by simp), ?_, ?_, ?_⟩
  · rw [List.length_append, ← h.size_eq]
  · rw [List.length_append]
    exact Nat.le_add_right ..
  · dsimp only
    rw [List.drop_left, h.size_eq]

/-! ### The pieces of a transfer -/

/-- A piece more is a piece of text more. -/
theorem received_concat (ps : List Piece) (p : Piece) :
    received (ps ++ [p]) = received ps ++ p.bytes := by
  rw [received, received, List.flatMap_append, List.flatMap_singleton]

theorem received_eq_nil_iff : received ps = [] ↔ ∀ p ∈ ps, p.bytes = [] := List.flatMap_eq_nil_iff

/-- A piece that gets no memory may have nothing in front of it. -/
theorem intact_concat :
    Intact (ps ++ [p]) ↔ Intact ps ∧ (p.granted = false → received ps = []) := by
  unfold Intact
  rw [List.pairwise_append, received_eq_nil_iff]
  simp only [List.pairwise_singleton, List.mem_singleton, true_and, forall_eq]
  exact and_congr_right fun _ => ⟨fun h hp q hq => h q hq hp, fun h q hq hp => h hp q hq⟩

/-- Only the new piece counts. -/
theorem lastGranted_concat : LastGranted (ps ++ [p]) ↔ p.granted = true := by
  unfold LastGranted
  rw [List.getLast?_concat]
  exact ⟨fun h => h p rfl, fun h q hq => Option.some.inj hq ▸ h⟩

/-- The response after some pieces that have all been taken: a block with the text, of which the
    part in front of the last lost block is missing, or no block. -/
def Held (ps : List Piece) (resp : Response) : Prop :=
  if LastGranted ps then ∃ lost, Collected (received ps) lost resp ∧ (lost = 0 ↔ Intact ps)
  else Dropped (received ps) resp ∧ (received ps = [] ↔ Intact ps)

/-- **A piece.**  One that is taken leaves the response of all pieces. -/
theorem held_step (h : Held ps resp) (hp : p.granted = false → p.bytes = []) :
    ∃ resp', environmentCaptureCb resp p = some (p.bytes.length, resp') ∧
      Held (ps ++ [p]) resp' := by
  unfold Held at h ⊢
  simp only [lastGranted_concat, received_concat, intact_concat]
  cases hgranted : p.granted with
  | true =>
    simp only [if_true, Bool.true_eq_false, false_implies, and_true]
    split_ifs at h with hlast
    · -- behind a block: as much is lost as before
      obtain ⟨lost, hcoll, hlost⟩ := h
      obtain ⟨resp', hcall, hresp'⟩ := environmentCaptureCb_collected hcoll hgranted
      exact ⟨resp', hcall, lost, hresp', hlost⟩
    · -- a new block: all text so far is lost
      obtain ⟨hdrop, hnone⟩ := h
      obtain ⟨resp', hcall, hresp'⟩ := environmentCaptureCb_dropped hdrop hgranted
      exact ⟨resp', hcall, _, hresp', List.length_eq_zero_iff.trans hnone⟩
  | false =>
    -- an empty piece: 0 is the length it has been called with, and the block is forgotten
    have hempty := hp hgranted
    refine ⟨{ resp with data := none }, ?_, ?_⟩
    · rw [environmentCaptureCb_refused hgranted, hempty]
      rfl
    · simp only [Bool.false_eq_true, if_false, hempty, List.append_nil, true_implies]
      split_ifs at h with hlast
      · obtain ⟨lost, hcoll, hlost⟩ := h
        refine ⟨⟨hcoll.size_eq, rfl⟩, fun hnil => ⟨hlost.mp ?_, hnil⟩, And.right⟩
        have hle := hcoll.lost_le
        rw [hnil] at hle
        exact Nat.le_zero.mp hle
      · exact ⟨⟨h.1.size_eq, rfl⟩, fun hnil => ⟨h.2.mp hnil, hnil⟩, And.right⟩

/-- The pieces are all taken if those that get no memory are empty. -/
theorem takes_held (before : List Piece) (h : Held before resp) (htaken : Taken ps) :
    ∃ resp', Takes environmentCaptureCb resp ps resp' ∧ Held (before ++ ps) resp' := by
  induction ps generalizing before resp with
  | nil =>
    rw [List.append_nil]
    exact ⟨resp, rfl, h⟩
  | cons p ps ih =>
    obtain ⟨hp, hps⟩ := List.forall_mem_cons.mp htaken
    obtain ⟨next, hcall, hnext⟩ := held_step h hp
    obtain ⟨resp', htakes, hresp'⟩ := ih (before ++ [p]) hnext hps
    rw [List.append_assoc, List.singleton_append] at hresp'
    exact ⟨resp', ⟨next, hcall, htakes⟩, hresp'⟩

/-- Otherwise there is a first piece that is not taken: it gets no memory and is not empty. -/
theorem exists_refused (h : ¬ Taken ps) :
    ∃ ps₁ p ps₂, ps = ps₁ ++ p :: ps₂ ∧ Taken ps₁ ∧ p.granted = false ∧ p.bytes ≠ [] := by
  induction ps with
  | nil => exact absurd (List.forall_mem_nil _) h
  | cons p ps ih =>
    by_cases hp : p.granted = false → p.bytes = []
    · have hps : ¬ Taken ps := fun hps => h (List.forall_mem_cons.mpr ⟨hp, hps⟩)
      obtain ⟨ps₁, q, ps₂, rfl, htaken, hq⟩ := ih hps
      exact ⟨p :: ps₁, q, ps₂, rfl, List.forall_mem_cons.mpr ⟨hp, htaken⟩, hq⟩
    · rw [Classical.not_imp] at hp
      exact ⟨[], p, ps, rfl, List.forall_mem_nil _, hp⟩

/-- **The transfer.**  It goes on to its end if every piece is taken, and fails if not. -/
theorem Transfers.perform_eq {perform : EasyPerform} {res : Bool} (hcurl : Transfers perform ps res)
    (before : List Piece) (h : Held before resp) :
    if Taken ps then
      ∃ resp', perform environmentCaptureCb resp = some (res, resp') ∧ Held (before ++ ps) resp'
    else ∃ resp', perform environmentCaptureCb resp = some (false, resp') := by
  by_cases htaken : Taken ps
  · rw [if_pos htaken]
    obtain ⟨resp', htakes, hheld⟩ := takes_held before h htaken
    exact ⟨resp', hcurl.all _ _ _ htakes, hheld⟩
  · -- the callback returns 0 for the first piece that is not taken
    rw [if_neg htaken]
    obtain ⟨ps₁, p, ps₂, hps, hfront, hgranted, hne⟩ := exists_refused htaken
    obtain ⟨resp₁, htakes, -⟩ := takes_held before h hfront
    have hlen : 0 ≠ p.bytes.length := fun hzero => hne (List.length_eq_zero_iff.mp hzero.symm)
    exact ⟨_, hcurl.refused _ _ _ _ _ _ _ _ hps htakes (environmentCaptureCb_refused hgranted) hlen⟩

/-- `calloc` is a request for the memory of no text. -/
theorem held_calloc (calloced : Bool) :
    Held [⟨[], calloced⟩] ⟨if calloced then some [some 0] else none, 0⟩ := by
  have hintact : Intact [⟨[], calloced⟩] := List.pairwise_singleton ..
  cases calloced with
  | true => exact ⟨0, ⟨rfl, Nat.le_refl 0, rfl⟩, iff_of_true rfl hintact⟩
  | false => exact ⟨⟨rfl, rfl⟩, iff_of_true rfl hintact⟩

/-- What `inet_addr` is given at the end: the text up to a `NUL`, if the block holds all of it; a
    read of what was never written, or of no block, has no result. -/
theorem read_held {inetAddr : List UInt8 → UInt32} (h : Held ps resp) :
    (resp.data.bind fun data => (readTo 0 data).bind fun text => some (inetAddr text))
      = if LastGranted ps ∧ Intact ps then some (inetAddr ((received ps).takeWhile (· ≠ 0)))
        else none := by
  unfold Held at h
  split_ifs at h with hlast
  · obtain ⟨lost, hcoll, hlost⟩ := h
    rw [hcoll.data_eq, Option.bind_some]
    by_cases hintact : Intact ps
    · obtain rfl := hlost.mpr hintact
      have hread := @readTo_concat _ [] _ 0 (received ps)
      rw [if_pos ⟨hlast, hintact⟩, List.drop_zero]
      show (readTo 0 ((received ps).map some ++ [some 0])).bind _ = _
      rw [hread, Option.bind_some]
    · have hpos : 0 < lost := Nat.pos_of_ne_zero fun hzero => hintact (hlost.mp hzero)
      rw [if_neg fun hboth => hintact hboth.2, List.append_assoc, readTo_blank hpos,
        Option.bind_none]
  · rw [h.1.data_eq, if_neg fun hboth => hlast hboth.1, Option.bind_none]

/-- **The external address.**  A transfer whose pieces are all taken gives the address of the whole
    text up to its first `NUL`, in whatever pieces it has arrived, if the last of the requests for
    memory is granted and nothing has arrived in front of one that is not; else what the capture
    reads is not there.  Any other transfer gives no address. -/
theorem externalAddress_eq {perform : EasyPerform} {res : Bool} (hcurl : Transfers perform ps res)
    (inetAddr : List UInt8 → UInt32) (calloced : Bool) :
    externalAddress inetAddr perform calloced =
      if res = true ∧ Taken ps then
        if LastGranted (⟨[], calloced⟩ :: ps) ∧ Intact (⟨[], calloced⟩ :: ps) then
          some (inetAddr ((received ps).takeWhile (· ≠ 0)))
        else none
      else some 0 := by
  have hperform := hcurl.perform_eq [⟨[], calloced⟩] (held_calloc calloced)
  rw [List.singleton_append] at hperform
  unfold externalAddress
  dsimp only
  by_cases htaken : Taken ps
  · rw [if_pos htaken] at hperform
    obtain ⟨resp, hperform, hheld⟩ := hperform
    rw [hperform]
    cases res with
    | true =>
      rw [if_pos ⟨rfl, htaken⟩]
      exact read_held hheld
    | false =>
      rw [if_neg fun h => Bool.false_ne_true h.1]
      rfl
  · rw [if_neg htaken] at hperform
    obtain ⟨resp, hperform⟩ := hperform
    rw [hperform, if_neg fun h => htaken h.2]
    rfl

/-- A transfer of some pieces, as a function. -/
def transferOf (res : Bool) : List Piece → EasyPerform
  | [], _, resp => some (res, resp)
  | p :: ps, callback, resp => do
      let (n, resp) ← callback resp p
      if n ≠ p.bytes.length then
        return (false, resp)
      transferOf res ps callback resp

theorem transferOf_cons {res : Bool} {callback : Response → Piece → Option (ℕ × Response)}
    {next : Response} (h : callback resp p = some (p.bytes.length, next)) :
    transferOf res (p :: ps) callback resp = transferOf res ps callback next := by
  rw [transferOf, h]
  simp

/-- It is a transfer as the documentation has it. -/
theorem transfers_transferOf (ps : List Piece) (res : Bool) :
    Transfers (transferOf res ps) ps res where
  all := by
    intro callback resp resp' htakes
    induction ps generalizing resp with
    | nil => exact congrArg (fun r => some (res, r)) htakes
    | cons p ps ih =>
      obtain ⟨next, hcall, htakes⟩ := htakes
      rw [transferOf_cons hcall]
      exact ih next htakes
  refused := by
    rintro callback resp ps₁ p ps₂ resp₁ n resp₂ rfl htakes hcall hne
    induction ps₁ generalizing resp with
    | nil =>
      obtain rfl : resp = resp₁ := htakes
      rw [List.nil_append, transferOf, hcall]
      simp [hne]
    | cons q ps₁ ih =>
      obtain ⟨next, hnext, htakes⟩ := htakes
      rw [List.cons_append, transferOf_cons hnext]
      exact ih next htakes

/-- A page of four bytes and a `NUL` in two pieces: its text has four bytes.  If the memory for the
    second piece were refused, the transfer would have failed. -/
theorem externalAddress_eq_two_pieces :
    externalAddress (fun text => UInt32.ofNat text.length)
        (transferOf true [⟨[49, 46], true⟩, ⟨[50, 51, 0, 52], true⟩]) true = some 4 ∧
      externalAddress (fun text => UInt32.ofNat text.length)
        (transferOf true [⟨[49, 46], true⟩, ⟨[50, 51, 0, 52], false⟩]) true = some 0 := by
  constructor
  · rw [externalAddress_eq (transfers_transferOf _ true)]
    decide
  · rw [externalAddress_eq (transfers_transferOf _ true)]
    decide

end NetworkExperiment
