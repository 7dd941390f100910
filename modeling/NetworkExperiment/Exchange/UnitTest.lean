import NetworkExperiment.Lib.Dialogue
import NetworkExperiment.Lib.Lockstep
import NetworkExperiment.Exchange.Bytewise
import NetworkExperiment.Util.Random

namespace NetworkExperiment

open ActionSystems ByteBuffers
open ActionSystems.Party (send receive send_nil)

/-!
# The unit test of the network functions — `cmpsc311NetworkUnitTest`

One iteration: a client thread sends a random message and receives one, the server receives it and
sends its own.  The length of a message is not fixed but sent before it, so what a thread reads next
depends on what it has read.

* `UnitMessage` / `draw` — what `cmpsc311NetworkUnitSend` and `cmpsc311NetworkUnitRecv` draw;
* `UnitCall` / `UnitThread` — the two functions, cut at their system calls;
* `networkUnitTest` — the two threads and the bytes in flight, with all short counts;
* `UnitThread.party` — what a thread still has to say and to hear;
* `networkUnitTest_passes` — every iteration ends with `0` on both sides, inside the arrays;
* `networkUnitRecv_outside_iff` — on other bytes, the function can write behind its array.
-/

/-! ### The messages -/

/-- `CMPSC311_NETWORK_UNIT_TEST_MAX_MSG_SIZE`. -/
def networkUnitTestMaxMsgSize : ℕ := 4096

/-- The two bytes of a 16-bit word in memory, least significant first. -/
def le16 (w : UInt16) : List UInt8 := [UInt8.ofNat w.toNat, UInt8.ofNat (w.toNat / 256)]

/-- The 16-bit word held by two bytes of memory. -/
def ofLe16 : List UInt8 → UInt16
  | [a, b] => UInt16.ofNat (a.toNat + 256 * b.toNat)
  | _ => 0

/-- `len` and `ch`. -/
structure UnitMessage where
  len : UInt16
  ch : UInt8
deriving DecidableEq, Repr

/-- What `gcry_randomize` gives for `len` and for `ch`: the words that `getRandomValue` reduces to
    its range. -/
structure UnitWords where
  len : UInt32
  ch : UInt32

namespace UnitMessage

/-- `len` and `ch` as both functions draw them.  The one that receives draws them as well, and
    overwrites them by what it reads. -/
def draw (w : UnitWords) : UnitMessage where
  len := (getRandomValue w.len 1 4096).toUInt16
  ch := (getRandomValue w.ch 0 255).toUInt8

/-- A length that is drawn fits into the array, and is not zero. -/
theorem draw_len (w : UnitWords) :
    0 < (draw w).len.toNat ∧ (draw w).len.toNat ≤ networkUnitTestMaxMsgSize := by
  obtain ⟨hmin, hmax⟩ := @getRandomValue_mem w.len 1 4096 (by decide)
  rw [UInt32.le_iff_toNat_le] at hmin hmax
  -- the cast to `uint16_t` loses nothing below 2 ^ 16
  have hlen : (draw w).len.toNat = (getRandomValue w.len 1 4096).toNat % 65536 :=
    UInt32.toNat_toUInt16 _
  rw [hlen]
  unfold networkUnitTestMaxMsgSize
  have hone : UInt32.toNat 1 = 1 := rfl
  have hfour : UInt32.toNat 4096 = 4096 := rfl
  omega

/-- The memory of `len`. -/
def lenBytes (m : UnitMessage) : Bytes 2 := ⟨le16 m.len, rfl⟩

/-- The memory of `ch`. -/
def chBytes (m : UnitMessage) : Bytes 1 := ⟨[m.ch], rfl⟩

/-- The memory at `buf` after `memset(buf, ch, len)`. -/
def memset (m : UnitMessage) (memory : ℕ → UInt8) (i : ℕ) : UInt8 :=
  if i < m.len.toNat then m.ch else memory i

/-- What is sent of `buf`. -/
def bufBytes (m : UnitMessage) : Bytes m.len.toNat :=
  ⟨List.replicate m.len.toNat m.ch, List.length_replicate ..⟩

end UnitMessage

/-- The first `n` bytes of the memory. -/
def memoryBytes (memory : ℕ → UInt8) (n : ℕ) : Bytes n :=
  ⟨(List.range n).map memory, by rw [List.length_map, List.length_range]⟩

/-! ### The two functions -/

/-- A call of one of the functions: in front of a system call, or returned.  The loops of
    `cmpsc311_send_bytes` and `cmpsc311_read_bytes` stop before each of their calls, with what has
    been moved.  `outside` is reached by a `read` that writes behind the end of the array. -/
inductive UnitCall
  | sendLen (m : UnitMessage) (sent : ℕ)
  | sendCh (m : UnitMessage) (sent : ℕ)
  | sendBuf (m : UnitMessage) (sent : ℕ)
  | readLen (memory : ℕ → UInt8) (ch : Bytes 1) (len : Bytes 2) (read : ℕ)
  | readCh (memory : ℕ → UInt8) (len : UInt16) (ch : Bytes 1) (read : ℕ)
  | readBuf (len : UInt16) (ch : UInt8) (buf : Bytes len.toNat) (read : ℕ)
  | outside
  | returned (ret : ℤ)

/-- A call to be made, with what it draws and the memory behind its array. -/
inductive UnitTask
  | send (m : UnitMessage)
  | recv (m : UnitMessage) (memory : ℕ → UInt8)

/-- The first system call of `cmpsc311NetworkUnitSend` or `cmpsc311NetworkUnitRecv`. -/
def UnitTask.call : UnitTask → UnitCall
  | .send m => .sendLen m 0
  | .recv m memory => .readLen (m.memset memory) m.chBytes m.lenBytes 0

/-- One side of the test, in the first or in the second operand of `||`. -/
structure UnitThread where
  call : UnitCall
  rest : Option UnitTask

namespace UnitThread

variable (t : UnitThread)

/-- The call returns, and the other operand of `||` is evaluated if it returns `0`; otherwise the
    thread returns `-1` at once. -/
def returns (ret : ℤ) : UnitThread :=
  if ret ≠ 0 then ⟨.returned (-1), none⟩
  else
    match t.rest with
    | some task => ⟨task.call, none⟩
    | none => ⟨.returned 0, none⟩

/-- The loop of `cmpsc311NetworkUnitRecv` over the bytes that it has read. -/
def compare (ch : UInt8) (buf : List UInt8) : UnitThread :=
  if buf.all (· == ch) then t.returns 0 else t.returns (-1)

/-- The thread in front of `cmpsc311_send_bytes(sock, len, buf)`, whose loop makes no call for a
    length of zero. -/
def enterSendBuf (m : UnitMessage) : UnitThread :=
  if 0 < m.len.toNat then { t with call := .sendBuf m 0 } else t.returns 0

/-- The thread in front of `cmpsc311_read_bytes(sock, len, buf)`. -/
def enterReadBuf (memory : ℕ → UInt8) (len : UInt16) (ch : UInt8) : UnitThread :=
  if 0 < len.toNat then { t with call := .readBuf len ch (memoryBytes memory len.toNat) 0 }
  else t.compare ch []

/-- The two pipes with the thread: the one that it writes to, and the one that it reads from. -/
abbrev Sides := UnitThread × List UInt8 × List UInt8

/-- A pass of `cmpsc311_send_bytes`; the thread while the call runs, and when it has returned. -/
def sendBytes {size : ℕ} (room n : ℕ) (buf : Bytes size) (sentBytes : ℕ) (out inn : List UInt8)
    (running : ℕ → UnitThread) (returned : ℤ → UnitThread) : Option Sides :=
  match writeCall room n buf sentBytes out with
  | none => none
  | some (.running _ sentBytes, out) => some (running sentBytes, out, inn)
  | some (.returned ret _, out) => some (returned ret, out, inn)

/-- A pass of `cmpsc311_read_bytes`. -/
def readBytes {size : ℕ} (n : ℕ) (buf : Bytes size) (readBytes : ℕ) (out inn : List UInt8)
    (running : Bytes size → ℕ → UnitThread) (returned : Bytes size → UnitThread) : Option Sides :=
  match readCall n buf readBytes inn with
  | none => none
  | some (.running buf readBytes, inn) => some (running buf readBytes, out, inn)
  | some (.returned _ buf, inn) => some (returned buf, out, inn)

/-- The next system call, which moves `n` bytes.  The lengths are those of the source: two bytes,
    one, and as many as the first two say. -/
def step (room n : ℕ) (out inn : List UInt8) : Option Sides :=
  match t.call with
  | .sendLen m sent =>
    sendBytes room n m.lenBytes sent out inn (fun sent => { t with call := .sendLen m sent })
      fun _ => { t with call := .sendCh m 0 }
  | .sendCh m sent =>
    sendBytes room n m.chBytes sent out inn (fun sent => { t with call := .sendCh m sent })
      fun _ => t.enterSendBuf m
  | .sendBuf m sent =>
    sendBytes room n m.bufBytes sent out inn (fun sent => { t with call := .sendBuf m sent })
      t.returns
  | .readLen memory ch len read =>
    readBytes n len read out inn (fun len read => { t with call := .readLen memory ch len read })
      fun len => { t with call := .readCh memory (ofLe16 len.toList) ch 0 }
  | .readCh memory len ch read =>
    readBytes n ch read out inn (fun ch read => { t with call := .readCh memory len ch read })
      fun ch => t.enterReadBuf memory len (ch.toList.headD 0)
  | .readBuf len ch buf read =>
    (readBytes n buf read out inn (fun buf read => { t with call := .readBuf len ch buf read })
      fun buf => t.compare ch buf.toList).map fun sides =>
        if networkUnitTestMaxMsgSize < read + n then ({ t with call := .outside }, sides.2)
        else sides
  | .outside | .returned _ => none

end UnitThread


/-! ### What a thread says and hears -/

/-- What the thread does when it has read the message, if the call then returns to `k`: it goes on
    where every byte is `ch`, and returns `-1` where one is not. -/
def expectBuf (k : Party UInt8 (Option ℤ)) (ch : UInt8) (buf : List UInt8) :
    Party UInt8 (Option ℤ) :=
  if buf.all (· == ch) then k else .done (some (-1))

/-- When it has read `ch`. -/
def expectCh (k : Party UInt8 (Option ℤ)) (len : UInt16) (ch : List UInt8) :
    Party UInt8 (Option ℤ) :=
  receive len.toNat (expectBuf k (ch.headD 0))

/-- When it has read `len`; there is no result if the message does not fit into the array. -/
def expectLen (k : Party UInt8 (Option ℤ)) (len : List UInt8) : Party UInt8 (Option ℤ) :=
  if networkUnitTestMaxMsgSize < (ofLe16 len).toNat then .done none
  else receive 1 (expectCh k (ofLe16 len))

/-- A call that has not begun, as it is seen from the other end of the socket. -/
def UnitTask.party (k : Party UInt8 (Option ℤ)) : UnitTask → Party UInt8 (Option ℤ)
  | .send m =>
    Party.send m.lenBytes.toList (Party.send m.chBytes.toList (Party.send m.bufBytes.toList k))
  | .recv _ _ => receive 2 (expectLen k)

/-- A call in progress: what is left of it to be sent, or to be received behind what is in the
    buffer. -/
def UnitCall.party (k : Party UInt8 (Option ℤ)) : UnitCall → Party UInt8 (Option ℤ)
  | .sendLen m sent =>
    send (m.lenBytes.toList.drop sent) (send m.chBytes.toList (send m.bufBytes.toList k))
  | .sendCh m sent => send (m.chBytes.toList.drop sent) (send m.bufBytes.toList k)
  | .sendBuf m sent => send (m.bufBytes.toList.drop sent) k
  | .readLen _ _ len read =>
    receive (2 - read) fun bs => expectLen k (len.toList.take read ++ bs)
  | .readCh _ len ch read =>
    if networkUnitTestMaxMsgSize < len.toNat then .done none
    else receive (1 - read) fun bs => expectCh k len (ch.toList.take read ++ bs)
  | .readBuf len ch buf read =>
    if networkUnitTestMaxMsgSize < len.toNat then .done none
    else
      receive (len.toNat - read) fun bs => expectBuf k ch (buf.toList.take read ++ bs)
  | .outside => .done none
  | .returned ret => .done (some ret)

/-- The call that follows, if there is one. -/
def restParty : Option UnitTask → Party UInt8 (Option ℤ)
  | some task => task.party (.done (some 0))
  | none => .done (some 0)

/-- A side of the test as a party of a dialogue; it ends with what it returns. -/
def UnitThread.party (t : UnitThread) : Party UInt8 (Option ℤ) := t.call.party (restParty t.rest)

/-- The loop has bytes left to move.  So a thread inside a call can always make another system
    call. -/
def UnitCall.InLoop : UnitCall → Prop
  | .sendLen _ sent => sent < 2
  | .sendCh _ sent => sent < 1
  | .sendBuf m sent => sent < m.len.toNat
  | .readLen _ _ _ read => read < 2
  | .readCh _ _ _ read => read < 1
  | .readBuf len _ _ read => read < len.toNat
  | .outside | .returned _ => True

section Calls

variable {size room n moved : ℕ} {buf : Bytes size} {out inn out' inn' : List UInt8}
  {call : CallState size} {other : Party UInt8 (Option ℤ)}

/-- A `write` is a move of a party that sends the buffer.  Behind it the call is still running with
    fewer bytes to send, or has returned `0` and the party is what follows. -/
theorem writeCall_says (hwrite : writeCall room n buf moved out = some (call, out'))
    (k : Party UInt8 (Option ℤ)) :
    ∃ p, Dialogue.move room n ⟨send (buf.toList.drop moved) k, other, out, inn⟩
        = some ⟨p, other, out', inn⟩ ∧
      ((call = .running buf (moved + n) ∧ moved + n < size ∧
          p = send (buf.toList.drop (moved + n)) k) ∨ (call = .returned 0 buf ∧ p = k)) := by
  unfold writeCall at hwrite
  split_ifs at hwrite with hn
  obtain ⟨rfl, rfl⟩ := Prod.mk.inj (Option.some.inj hwrite)
  have hlen : ((buf.toList.drop moved).take n).length = n := by
    rw [List.length_take, List.length_drop, buf.length_toList]
    omega
  -- what is taken by the `write`, and what is left for the next one
  have hsplit : buf.toList.drop moved
      = (buf.toList.drop moved).take n ++ buf.toList.drop (moved + n) := by
    rw [← List.drop_drop, List.take_append_drop]
  have hmove := @Dialogue.move_send UInt8 (Option ℤ) (Option ℤ)
    ⟨send (buf.toList.drop moved) k, other, out, inn⟩ room _ _ k (congrArg (send · k) hsplit)
    (by omega) (by rw [hlen]; exact hn.2.2)
  rw [hlen] at hmove
  refine ⟨_, hmove, ?_⟩
  rw [sendBytesPass, transferPass_of_pos _ _ (by omega), Int.toNat_natCast, loopTest]
  -- the test of the loop decides whether the call goes on
  by_cases hmore : moved + n < size
  · exact .inl ⟨if_pos hmore, hmore, rfl⟩
  · refine .inr ⟨if_neg hmore, ?_⟩
    rw [List.drop_of_length_le (by rw [buf.length_toList]; omega), send_nil]

/-- Where no byte can be written, the party cannot move: as `moved` is less than the size, only the
    room can be missing. -/
theorem writeCall_stuck (hlt : moved < size) (hwrite : writeCall room 1 buf moved out = none)
    (k : Party UInt8 (Option ℤ)) :
    Dialogue.move room 1 ⟨send (buf.toList.drop moved) k, other, out, inn⟩ = none := by
  unfold writeCall at hwrite
  split_ifs at hwrite with hn
  refine Dialogue.move_send_full rfl ?_ (by dsimp only; omega)
  rw [← List.length_pos_iff_ne_nil, List.length_drop, buf.length_toList]
  omega

/-- Where no byte can be read, neither: nothing is in flight. -/
theorem readCall_stuck (hlt : moved < size) (hread : readCall 1 buf moved inn = none)
    (k : List UInt8 → Party UInt8 (Option ℤ)) :
    Dialogue.move room 1 ⟨receive (size - moved) k, other, out, inn⟩ = none := by
  unfold readCall at hread
  split_ifs at hread with hn
  refine Dialogue.move_receive_nil rfl (by omega) ?_
  rw [← List.length_eq_zero_iff]
  dsimp only
  omega

end Calls

namespace UnitThread

variable {t t' : UnitThread} {room n : ℕ} {out inn out' inn' : List UInt8}
  {other : Party UInt8 (Option ℤ)}

/-! ### The step of a thread -/

/-- A call that returns `0` leaves the other call to be made. -/
theorem party_returns_zero (t : UnitThread) : (t.returns 0).party = restParty t.rest := by
  unfold returns
  rw [if_neg (by decide)]
  cases t.rest with
  | none => rfl
  | some task =>
    cases task with
    | send m | recv m memory => rfl

/-- A thread that has left a call is in front of a system call of the next one, or has returned. -/
theorem inLoop_returns (t : UnitThread) (ret : ℤ) : (t.returns ret).call.InLoop := by
  unfold returns
  split_ifs
  · trivial
  · cases t.rest with
    | none => trivial
    | some task =>
      cases task with
      | send m | recv m memory => exact Nat.two_pos

theorem party_compare (t : UnitThread) (ch : UInt8) (buf : List UInt8) :
    (t.compare ch buf).party = expectBuf (restParty t.rest) ch buf := by
  unfold compare expectBuf
  split_ifs
  · exact t.party_returns_zero
  · rfl

theorem inLoop_compare (t : UnitThread) (ch : UInt8) (buf : List UInt8) :
    (t.compare ch buf).call.InLoop := by
  unfold compare
  split_ifs
  · exact t.inLoop_returns 0
  · exact t.inLoop_returns (-1)

/-- An empty message is sent by no system call, and by no move of a party. -/
theorem party_enterSendBuf (t : UnitThread) (m : UnitMessage) :
    (t.enterSendBuf m).party = send m.bufBytes.toList (restParty t.rest) := by
  unfold enterSendBuf
  by_cases hlen : 0 < m.len.toNat
  · rw [if_pos hlen]
    rfl
  · have hnil : m.bufBytes.toList = [] := by
      rw [← List.length_eq_zero_iff, m.bufBytes.length_toList]
      omega
    rw [if_neg hlen, hnil, t.party_returns_zero, send_nil]

theorem inLoop_enterSendBuf (t : UnitThread) (m : UnitMessage) :
    (t.enterSendBuf m).call.InLoop := by
  unfold enterSendBuf
  split_ifs with hlen
  · exact hlen
  · exact t.inLoop_returns 0

/-- Where the length fits into the array, the thread waits for that many bytes. -/
theorem party_enterReadBuf (t : UnitThread) (memory : ℕ → UInt8) {len : UInt16}
    (hle : ¬ networkUnitTestMaxMsgSize < len.toNat) (ch : UInt8) :
    (t.enterReadBuf memory len ch).party
      = receive len.toNat (expectBuf (restParty t.rest) ch) := by
  unfold enterReadBuf
  by_cases hlen : 0 < len.toNat
  · rw [if_pos hlen]
    exact if_neg hle
  · have hzero : len.toNat = 0 := by omega
    rw [if_neg hlen, hzero, party_compare]
    rfl

theorem inLoop_enterReadBuf (t : UnitThread) (memory : ℕ → UInt8) (len : UInt16) (ch : UInt8) :
    (t.enterReadBuf memory len ch).call.InLoop := by
  unfold enterReadBuf
  split_ifs with hlen
  · exact hlen
  · exact t.inLoop_compare ch []

/-- A pass of `cmpsc311_send_bytes` leaves bytes to be sent, or is the last one.  In both cases the
    party has moved by the same bytes. -/
theorem sendBytes_says {size moved : ℕ} {buf : Bytes size} {running : ℕ → UnitThread}
    {returned : ℤ → UnitThread} (k : Party UInt8 (Option ℤ))
    (h : sendBytes room n buf moved out inn running returned = some (t', out', inn')) :
    ∃ p, Dialogue.move room n ⟨send (buf.toList.drop moved) k, other, out, inn⟩
        = some ⟨p, other, out', inn'⟩ ∧
      ((∃ m < size, t' = running m ∧ p = send (buf.toList.drop m) k) ∨
        (t' = returned 0 ∧ p = k)) := by
  unfold sendBytes at h
  split at h
  case h_1 => cases h
  case h_2 c m pipe hwrite =>
    -- the loop goes on
    obtain ⟨rfl, rfl, rfl⟩ := h
    obtain ⟨p, hmove, ⟨hcall, hmore, rfl⟩ | ⟨hcall, -⟩⟩ := writeCall_says hwrite k
    · obtain ⟨-, rfl⟩ := CallState.running.inj hcall
      exact ⟨_, hmove, .inl ⟨_, hmore, rfl, rfl⟩⟩
    · cases hcall
  case h_3 ret c pipe hwrite =>
    obtain ⟨rfl, rfl, rfl⟩ := h
    obtain ⟨p, hmove, ⟨hcall, -, -⟩ | ⟨hcall, rfl⟩⟩ := writeCall_says hwrite k
    · cases hcall
    · obtain ⟨rfl, -⟩ := CallState.returned.inj hcall
      exact ⟨_, hmove, .inr ⟨rfl, rfl⟩⟩

/-- A pass of `cmpsc311_read_bytes` puts the first bytes in flight behind those in the buffer. -/
theorem readBytes_cases {size moved : ℕ} {buf : Bytes size}
    {running : Bytes size → ℕ → UnitThread} {returned : Bytes size → UnitThread}
    (h : readBytes n buf moved out inn running returned = some (t', out', inn')) :
    0 < n ∧ n ≤ size - moved ∧ n ≤ inn.length ∧ out' = out ∧ inn' = inn.drop n ∧
      ∃ buf' : Bytes size, buf'.toList.take (moved + n) = buf.toList.take moved ++ inn.take n ∧
        ((moved + n < size ∧ t' = running buf' (moved + n)) ∨
          (moved + n = size ∧ t' = returned buf')) := by
  unfold readBytes readCall at h
  by_cases hn : 0 < n ∧ n ≤ size - moved ∧ n ≤ inn.length
  · have hlen : (inn.take n).length = n := by
      rw [List.length_take]
      omega
    have hfront : (buf.toList.take moved ++ inn.take n).length = moved + n := by
      rw [List.length_append, hlen, List.length_take, buf.length_toList]
      omega
    -- the bytes that are read come directly behind those read before
    have htake : (buf.write moved (inn.take n)).toList.take (moved + n)
        = buf.toList.take moved ++ inn.take n := by
      rw [Bytes.toList_write buf (by omega), List.take_left' hfront]
    rw [if_pos hn, readBytesPass, transferPass_of_pos _ _ (by omega), Int.toNat_natCast,
      loopTest] at h
    by_cases hmore : moved + n < size
    · rw [if_pos hmore] at h
      obtain ⟨rfl, rfl, rfl⟩ := h
      exact ⟨hn.1, hn.2.1, hn.2.2, rfl, rfl, _, htake, .inl ⟨hmore, rfl⟩⟩
    · rw [if_neg hmore] at h
      obtain ⟨rfl, rfl, rfl⟩ := h
      exact ⟨hn.1, hn.2.1, hn.2.2, rfl, rfl, _, htake, .inr ⟨by omega, rfl⟩⟩
  · rw [if_neg hn] at h
    cases h

/-- It is a move of a party that receives into the buffer.  What the party knows of the message is
    the part of the buffer that has been filled, so the rest of it may be anything. -/
theorem readBytes_hears {size moved : ℕ} {buf : Bytes size}
    {running : Bytes size → ℕ → UnitThread} {returned : Bytes size → UnitThread}
    (k : List UInt8 → Party UInt8 (Option ℤ))
    (h : readBytes n buf moved out inn running returned = some (t', out', inn')) :
    ∃ p, Dialogue.move room n
        ⟨receive (size - moved) fun bs => k (buf.toList.take moved ++ bs), other, out, inn⟩
        = some ⟨p, other, out', inn'⟩ ∧ n ≤ size - moved ∧
      ((∃ buf', ∃ m < size, t' = running buf' m ∧
          p = receive (size - m) fun bs => k (buf'.toList.take m ++ bs)) ∨
        ∃ buf', t' = returned buf' ∧ p = k buf'.toList) := by
  obtain ⟨hpos, hle, hinn, rfl, rfl, buf', htake, hcases⟩ := readBytes_cases h
  have hmove := @Dialogue.move_receive UInt8 (Option ℤ) (Option ℤ)
    ⟨receive (size - moved) fun bs => k (buf.toList.take moved ++ bs), other, out', inn⟩ room n
    (size - moved) _ rfl hpos hle hinn
  refine ⟨_, hmove, hle, ?_⟩
  rcases hcases with ⟨hmore, rfl⟩ | ⟨hall, rfl⟩
  · refine .inl ⟨buf', _, hmore, rfl, ?_⟩
    rw [htake, Nat.sub_sub]
    simp only [List.append_assoc]
  · -- the buffer is full, and is what has been received
    have hzero : size - moved - n = 0 := by omega
    rw [List.take_of_length_le (by rw [buf'.length_toList, hall])] at htake
    refine .inr ⟨buf', rfl, ?_⟩
    rw [hzero, receive, htake, List.append_nil]

/-- A call that cannot go on waits in its `write`, … -/
theorem sendBytes_eq_none {size moved : ℕ} {buf : Bytes size} {running : ℕ → UnitThread}
    {returned : ℤ → UnitThread} (h : sendBytes room n buf moved out inn running returned = none) :
    writeCall room n buf moved out = none := by
  unfold sendBytes at h
  split at h
  case h_1 hnone => exact hnone
  case h_2 | h_3 => cases h

/-- … or in its `read`. -/
theorem readBytes_eq_none {size moved : ℕ} {buf : Bytes size}
    {running : Bytes size → ℕ → UnitThread} {returned : Bytes size → UnitThread}
    (h : readBytes n buf moved out inn running returned = none) :
    readCall n buf moved inn = none := by
  unfold readBytes at h
  split at h
  case h_1 hnone => exact hnone
  case h_2 | h_3 => cases h

/-- The length fits into the array, unless the thread has nothing more to say. -/
theorem not_lt_of_party {len : UInt16} {p : Party UInt8 (Option ℤ)}
    (h : (if networkUnitTestMaxMsgSize < len.toNat then .done none else p) ≠ .done none) :
    ¬ networkUnitTestMaxMsgSize < len.toNat :=
  fun hlt => h (if_pos hlt)

theorem party_readCh (memory : ℕ → UInt8) {len : UInt16} (ch : Bytes 1) (read : ℕ)
    (rest : Option UnitTask) (hfits : ¬ networkUnitTestMaxMsgSize < len.toNat) :
    UnitThread.party ⟨.readCh memory len ch read, rest⟩
      = receive (1 - read) fun bs => expectCh (restParty rest) len (ch.toList.take read ++ bs) :=
  if_neg hfits

theorem party_readBuf {len : UInt16} (ch : UInt8) (buf : Bytes len.toNat) (read : ℕ)
    (rest : Option UnitTask) (hfits : ¬ networkUnitTestMaxMsgSize < len.toNat) :
    UnitThread.party ⟨.readBuf len ch buf read, rest⟩
      = receive (len.toNat - read) fun bs =>
          expectBuf (restParty rest) ch (buf.toList.take read ++ bs) :=
  if_neg hfits

/-- **The step of a thread** is a move of its party, and leaves it inside a loop.  The cases are
    the calls; in each the pass is the last one of its loop or not. -/
theorem step_says (hloop : t.call.InLoop) (hinside : t.party ≠ .done none)
    (hstep : t.step room n out inn = some (t', out', inn')) :
    t'.call.InLoop ∧ Dialogue.move room n ⟨t.party, other, out, inn⟩
      = some ⟨t'.party, other, out', inn'⟩ := by
  unfold step at hstep
  obtain ⟨call, rest⟩ := t
  cases call with
  | sendLen m sent =>
    obtain ⟨p, hmove, ⟨m', hlt, rfl, rfl⟩ | ⟨rfl, rfl⟩⟩ := sendBytes_says _ hstep
    · exact ⟨hlt, hmove⟩
    · exact ⟨Nat.one_pos, hmove⟩
  | sendCh m sent =>
    obtain ⟨p, hmove, ⟨m', hlt, rfl, rfl⟩ | ⟨rfl, rfl⟩⟩ := sendBytes_says _ hstep
    · exact ⟨hlt, hmove⟩
    · refine ⟨inLoop_enterSendBuf _ m, ?_⟩
      rw [party_enterSendBuf]
      exact hmove
  | sendBuf m sent =>
    obtain ⟨p, hmove, ⟨m', hlt, rfl, rfl⟩ | ⟨rfl, rfl⟩⟩ := sendBytes_says _ hstep
    · exact ⟨hlt, hmove⟩
    · refine ⟨inLoop_returns _ 0, ?_⟩
      rw [party_returns_zero]
      exact hmove
  | readLen memory ch len read =>
    obtain ⟨p, hmove, -, ⟨buf, m', hlt, rfl, rfl⟩ | ⟨buf, rfl, rfl⟩⟩ :=
      readBytes_hears (expectLen (restParty rest)) hstep
    · exact ⟨hlt, hmove⟩
    · exact ⟨Nat.one_pos, hmove⟩
  | readCh memory len ch read =>
    have hfits := not_lt_of_party hinside
    dsimp only at hstep
    obtain ⟨p, hmove, -, ⟨buf, m', hlt, rfl, rfl⟩ | ⟨buf, rfl, rfl⟩⟩ :=
      readBytes_hears (expectCh (restParty rest) len) hstep
    · refine ⟨hlt, ?_⟩
      rw [party_readCh _ _ _ _ hfits, party_readCh _ _ _ _ hfits, hmove]
    · refine ⟨inLoop_enterReadBuf _ memory len _, ?_⟩
      rw [party_readCh _ _ _ _ hfits, hmove, party_enterReadBuf _ memory hfits]
      rfl
  | readBuf len ch buf read =>
    have hfits := not_lt_of_party hinside
    dsimp only at hstep
    obtain ⟨⟨t'', out'', inn''⟩, hread, heq⟩ := Option.map_eq_some_iff.mp hstep
    obtain ⟨p, hmove, hle, hcases⟩ := readBytes_hears (expectBuf (restParty rest) ch) hread
    -- a `read` never takes more than the loop asks for, so it stays in the array
    have hinArray : ¬ networkUnitTestMaxMsgSize < read + n := by
      have hlt : read < len.toNat := hloop
      omega
    rw [if_neg hinArray] at heq
    obtain ⟨rfl, rfl, rfl⟩ := heq
    obtain ⟨buf', m', hlt, rfl, rfl⟩ | ⟨buf', rfl, rfl⟩ := hcases
    · refine ⟨hlt, ?_⟩
      rw [party_readBuf _ _ _ _ hfits, party_readBuf _ _ _ _ hfits, hmove]
    · refine ⟨inLoop_compare _ ch _, ?_⟩
      rw [party_readBuf _ _ _ _ hfits, hmove, party_compare]
  | outside | returned ret => cases hstep

/-- Where no byte can be moved, the party cannot move.  So a test that is stuck shows a dialogue
    that is stuck. -/
theorem step_stuck (other : Party UInt8 (Option ℤ)) (hloop : t.call.InLoop)
    (hinside : t.party ≠ .done none) (hstep : t.step room 1 out inn = none) :
    Dialogue.move room 1 ⟨t.party, other, out, inn⟩ = none := by
  unfold step at hstep
  obtain ⟨call, rest⟩ := t
  cases call with
  | sendLen m sent => exact writeCall_stuck hloop (sendBytes_eq_none hstep) _
  | sendCh m sent => exact writeCall_stuck hloop (sendBytes_eq_none hstep) _
  | sendBuf m sent => exact writeCall_stuck hloop (sendBytes_eq_none hstep) _
  | readLen memory ch len read => exact readCall_stuck hloop (readBytes_eq_none hstep) _
  | readCh memory len ch read =>
    rw [party_readCh _ _ _ _ (not_lt_of_party hinside)]
    exact readCall_stuck hloop (readBytes_eq_none hstep) _
  | readBuf len ch buf read =>
    rw [party_readBuf _ _ _ _ (not_lt_of_party hinside)]
    exact readCall_stuck hloop (readBytes_eq_none (Option.map_eq_none_iff.mp hstep)) _
  | outside => exact absurd rfl hinside
  | returned ret => exact Dialogue.move_done rfl

end UnitThread

/-! ### The two threads -/

/-- The two sides of the test and the bytes in flight. -/
structure NetworkUnitTest where
  client : UnitThread
  server : UnitThread
  toServer : List UInt8
  toClient : List UInt8

/-- One iteration of `cmpsc311NetworkUnitTest` with `cmpsc311NetworkUnitTestClient`, on sockets that
    hold a limited number of bytes each way.  The client is at the left end; an action names an end
    and a number of bytes. -/
def networkUnitTest (room : PipeRoom) : ActionSystem NetworkUnitTest (End × ℕ) where
  act u
    | (.left, n) => (u.client.step room.toRight n u.toServer u.toClient).map fun sides =>
        ⟨sides.1, u.server, sides.2.1, sides.2.2⟩
    | (.right, n) => (u.server.step room.toLeft n u.toClient u.toServer).map fun sides =>
        ⟨u.client, sides.1, sides.2.2, sides.2.1⟩

/-- The words for the four calls, and the memory behind the arrays of the two that receive. -/
structure UnitDraws where
  clientSend : UnitWords
  clientRecv : UnitWords
  clientMemory : ℕ → UInt8
  serverRecv : UnitWords
  serverMemory : ℕ → UInt8
  serverSend : UnitWords

namespace NetworkUnitTest

/-- The connection is set up: the client sends and then receives, the server receives and then
    sends. -/
def start (d : UnitDraws) : NetworkUnitTest where
  client.call := UnitTask.call (.send (.draw d.clientSend))
  client.rest := some (.recv (.draw d.clientRecv) d.clientMemory)
  server.call := UnitTask.call (.recv (.draw d.serverRecv) d.serverMemory)
  server.rest := some (.send (.draw d.serverSend))
  toServer := []
  toClient := []

/-- The dialogue of the two sides. -/
def dialogue (u : NetworkUnitTest) : Dialogue UInt8 (Option ℤ) (Option ℤ) :=
  ⟨u.client.party, u.server.party, u.toServer, u.toClient⟩

variable {u u' : NetworkUnitTest} {room : PipeRoom}

/-- The test shows a dialogue of dual parties that will both end with `0`.  This is its invariant:
    what one side will say is what the other waits for, in front of what is in flight. -/
structure Shows (u : NetworkUnitTest) (d : Dialogue UInt8 (Option ℤ) (Option ℤ)) : Prop where
  client : u.client.call.InLoop
  server : u.server.call.InLoop
  eq : d = u.dialogue
  dual : ∃ n, d.Inv n (some 0) (some 0)

/-- No side of it writes behind its array: the party of such a side has no result. -/
theorem Shows.client_inside {d : Dialogue UInt8 (Option ℤ) (Option ℤ)} (h : u.Shows d) :
    u.client.party ≠ .done none := by
  obtain ⟨n, hinv⟩ := h.dual
  intro hdone
  have hresult : none = some (0 : ℤ) := hinv.left_result (by rw [h.eq]; exact hdone)
  cases hresult

theorem Shows.server_inside {d : Dialogue UInt8 (Option ℤ) (Option ℤ)} (h : u.Shows d) :
    u.server.party ≠ .done none := by
  obtain ⟨n, hinv⟩ := h.dual
  intro hdone
  have hresult : none = some (0 : ℤ) := hinv.right_result (by rw [h.eq]; exact hdone)
  cases hresult

/-- Every system call is a move of the dialogue. -/
theorem follows : (networkUnitTest room).Follows (ActionSystems.dialogue UInt8 _ _ room) Shows := by
  rintro u d ⟨side, n⟩ u' h hact
  -- the thread that makes the call, and the other one as it was
  have hmoves : (ActionSystems.dialogue UInt8 _ _ room).act d (side, n) = some u'.dialogue ∧
      u'.client.call.InLoop ∧ u'.server.call.InLoop := by
    rw [h.eq]
    cases side with
    | left =>
      obtain ⟨⟨t', out', inn'⟩, hstep, rfl⟩ := Option.map_eq_some_iff.mp hact
      obtain ⟨hloop, hmove⟩ := UnitThread.step_says h.client h.client_inside hstep
      exact ⟨hmove, hloop, h.server⟩
    | right =>
      obtain ⟨⟨t', out', inn'⟩, hstep, rfl⟩ := Option.map_eq_some_iff.mp hact
      obtain ⟨hloop, hmove⟩ := UnitThread.step_says h.server h.server_inside hstep
      exact ⟨Option.map_eq_some_iff.mpr ⟨_, hmove, rfl⟩, h.client, hloop⟩
  obtain ⟨hmove, hclient, hserver⟩ := hmoves
  -- duality is kept by every move of a dialogue
  obtain ⟨n, hinv⟩ := h.dual
  obtain ⟨n', hinv', -⟩ := hinv.step hmove
  exact ⟨_, hmove, hclient, hserver, rfl, n', hinv'⟩

end NetworkUnitTest

/-! ### The test passes -/

/-- A length survives its way through memory. -/
theorem ofLe16_le16 (w : UInt16) : ofLe16 (le16 w) = w := by
  apply UInt16.toNat_inj.mp
  have hw := w.toNat_lt
  simp only [le16, ofLe16, UInt8.toNat_ofNat', UInt16.toNat_ofNat']
  omega

/-- `cmpsc311NetworkUnitRecv` waits for what `cmpsc311NetworkUnitSend` sends.  From the last
    message to the first: each is heard as it was said, so that the receiver then waits for as many
    bytes as there are. -/
theorem dual_send_recv {n : ℕ} {p q : Party UInt8 (Option ℤ)} {r s : Option ℤ} (m m' : UnitMessage)
    (memory : ℕ → UInt8) (hlen : m.len.toNat ≤ networkUnitTestMaxMsgSize)
    (h : Party.Dual n p q r s) :
    Party.Dual (2 + (1 + (m.len.toNat + n))) (UnitTask.party p (.send m))
      (UnitTask.party q (.recv m' memory)) r s := by
  -- all bytes of the message are `ch`, so the comparison goes on
  have hall : expectBuf q m.ch m.bufBytes.toList = q := by
    refine if_pos (List.all_eq_true.mpr fun b hb => ?_)
    rw [List.eq_of_mem_replicate hb]
    exact beq_self_eq_true m.ch
  have hbuf := Party.Dual.sendReceive m.bufBytes.toList (k := expectBuf q m.ch) (by rwa [hall])
  rw [m.bufBytes.length_toList] at hbuf
  have hch := Party.Dual.sendReceive m.chBytes.toList (k := expectCh q m.len) hbuf
  -- the length that is read is the one that was sent, and fits
  have hlenBytes : expectLen q m.lenBytes.toList = receive 1 (expectCh q m.len) := by
    unfold expectLen UnitMessage.lenBytes
    rw [ofLe16_le16, if_neg (not_lt.mpr hlen)]
  exact Party.Dual.sendReceive m.lenBytes.toList (k := expectLen q) (by rw [hlenBytes]; exact hch)

/-- How many bytes an iteration sends. -/
def UnitDraws.bytes (d : UnitDraws) : ℕ :=
  6 + (UnitMessage.draw d.clientSend).len.toNat + (UnitMessage.draw d.serverSend).len.toNat

/-- The parties are dual: the client sends and the server receives, and then the other way round. -/
theorem NetworkUnitTest.dual_start (d : UnitDraws) :
    Party.Dual d.bytes (NetworkUnitTest.start d).client.party (NetworkUnitTest.start d).server.party
      (some 0) (some 0) := by
  have hsecond := (dual_send_recv (.draw d.serverSend) (.draw d.clientRecv) d.clientMemory
    (UnitMessage.draw_len _).2 (.done (some 0) (some 0))).symm
  have hfirst := dual_send_recv (.draw d.clientSend) (.draw d.serverRecv) d.serverMemory
    (UnitMessage.draw_len _).2 hsecond
  have hcount : 2 + (1 + ((UnitMessage.draw d.clientSend).len.toNat +
      (2 + (1 + ((UnitMessage.draw d.serverSend).len.toNat + 0))))) = d.bytes := by
    unfold UnitDraws.bytes
    omega
  rw [← hcount]
  exact hfirst

/-- A thread whose party has ended has returned.  In a loop a party still has something to say or
    to hear. -/
theorem UnitThread.returned_of_party {t : UnitThread} (hloop : t.call.InLoop) {ret : ℤ}
    (hdone : t.party = .done (some ret)) : t.call = .returned ret := by
  have hsend : ∀ {size moved : ℕ} (buf : Bytes size) (k : Party UInt8 (Option ℤ)), moved < size →
      send (buf.toList.drop moved) k ≠ .done (some ret) := by
    intro size moved buf k hlt
    refine Party.send_ne_done ?_
    rw [← List.length_pos_iff_ne_nil, List.length_drop, buf.length_toList]
    omega
  have hreceive : ∀ {size moved : ℕ} (k : List UInt8 → Party UInt8 (Option ℤ)), moved < size →
      receive (size - moved) k ≠ .done (some ret) :=
    fun k hlt => Party.receive_ne_done (by omega)
  -- and it has not left its array
  have hinside : t.party ≠ .done none := by
    rw [hdone]
    intro h
    cases h
  obtain ⟨call, rest⟩ := t
  cases call with
  | sendLen m sent => exact absurd hdone (hsend _ _ hloop)
  | sendCh m sent => exact absurd hdone (hsend _ _ hloop)
  | sendBuf m sent => exact absurd hdone (hsend _ _ hloop)
  | readLen memory ch len read => exact absurd hdone (hreceive _ hloop)
  | readCh memory len ch read =>
    rw [party_readCh _ _ _ _ (not_lt_of_party hinside)] at hdone
    exact absurd hdone (hreceive _ hloop)
  | readBuf len ch buf read =>
    rw [party_readBuf _ _ _ _ (not_lt_of_party hinside)] at hdone
    exact absurd hdone (hreceive _ hloop)
  | outside => cases hdone
  | returned ret' =>
    obtain rfl := Option.some.inj (Party.done.inj hdone)
    rfl

/-- **The unit test passes.**  Whatever the sides draw, whatever the sockets hold and however the
    calls cut the messages: no `read` writes behind the end of an array, a side that returns returns
    `0`, and an iteration makes no more than two system calls for each byte.  If the sockets hold a
    byte each way, it only stops when both sides have returned and nothing is in flight. -/
theorem networkUnitTest_passes (d : UnitDraws) (room : PipeRoom) (acts : List (End × ℕ))
    (u : NetworkUnitTest) (hrun : (networkUnitTest room).run acts (.start d) = some u) :
    acts.length ≤ 2 * d.bytes ∧ u.client.call ≠ .outside ∧ u.server.call ≠ .outside ∧
      (∀ ret, u.client.call = .returned ret → ret = 0) ∧
      (∀ ret, u.server.call = .returned ret → ret = 0) ∧
      (0 < room.toRight → 0 < room.toLeft → (networkUnitTest room).Stuck u →
        u.client.call = .returned 0 ∧ u.server.call = .returned 0 ∧
          u.toServer = [] ∧ u.toClient = []) := by
  have hdual := NetworkUnitTest.dual_start d
  have hstart : (NetworkUnitTest.start d).Shows (Dialogue.start _ _) :=
    ⟨Nat.two_pos, Nat.two_pos, rfl, _, Dialogue.inv_start hdual⟩
  -- the run is one of a dialogue, of which everything is known
  obtain ⟨dia, hdia, h⟩ := NetworkUnitTest.follows.run hstart hrun
  obtain ⟨hlen, ⟨n, hinv⟩, hends⟩ := hdual.completes hdia
  obtain rfl := h.eq
  refine ⟨hlen, ?_, ?_, ?_, ?_, ?_⟩
  · intro hcall
    exact h.client_inside (congrArg (UnitCall.party _) hcall)
  · intro hcall
    exact h.server_inside (congrArg (UnitCall.party _) hcall)
  · intro ret hcall
    exact Option.some.inj (hinv.left_result (congrArg (UnitCall.party _) hcall))
  · intro ret hcall
    exact Option.some.inj (hinv.right_result (congrArg (UnitCall.party _) hcall))
  · intro hright hleft hstuck
    -- no thread can move a byte, so no party can move
    have hclient := UnitThread.step_stuck u.server.party h.client h.client_inside
      (Option.map_eq_none_iff.mp (hstuck (.left, 1)))
    have hserver := UnitThread.step_stuck u.client.party h.server h.server_inside
      (Option.map_eq_none_iff.mp (hstuck (.right, 1)))
    obtain ⟨hdone, hdone', htoServer, htoClient⟩ := hends hright hleft hclient hserver
    exact ⟨UnitThread.returned_of_party h.client hdone,
      UnitThread.returned_of_party h.server hdone', htoServer, htoClient⟩

/-- Both sides send a message of one byte; what the receiving calls draw is overwritten. -/
def shortestDraws : UnitDraws :=
  ⟨⟨0, 7⟩, ⟨5, 5⟩, fun _ => 0, ⟨6, 6⟩, fun _ => 0, ⟨4096, 8⟩⟩

/-- The calls over sockets that hold one byte each way: the message of the client goes over byte by
    byte, and then that of the server. -/
def oneByteCalls : List (End × ℕ) :=
  [(.left, 1), (.right, 1), (.left, 1), (.right, 1), (.left, 1), (.right, 1), (.left, 1),
    (.right, 1), (.right, 1), (.left, 1), (.right, 1), (.left, 1), (.right, 1), (.left, 1),
    (.right, 1), (.left, 1)]

/-- They take the two sides to their ends, where both return `0`. -/
theorem networkUnitTest_passes_one_byte : ∃ u : NetworkUnitTest,
    (networkUnitTest ⟨1, 1⟩).run oneByteCalls (.start shortestDraws) = some u ∧
    oneByteCalls.length ≤ 2 * shortestDraws.bytes ∧
    u.client.call = .returned 0 ∧ u.server.call = .returned 0 := by
  have hsome : (((networkUnitTest ⟨1, 1⟩).run oneByteCalls (.start shortestDraws)).any fun u =>
      decide (u.client.call matches .returned _ ∧ u.server.call matches .returned _)) = true := by
    decide +kernel
  obtain ⟨u, hrun, hu⟩ := (Option.any_eq_true _ _).mp hsome
  obtain ⟨hclient, hserver⟩ := of_decide_eq_true hu
  obtain ⟨hlen, -, -, hzero, hzero', -⟩ := networkUnitTest_passes shortestDraws _ _ u hrun
  refine ⟨u, hrun, hlen, ?_, ?_⟩
  · split at hclient
    case h_1 ret hret => exact hzero ret hret ▸ hret
    case h_2 => exact absurd hclient (by decide)
  · split at hserver
    case h_1 ret hret => exact hzero' ret hret ▸ hret
    case h_2 => exact absurd hserver (by decide)

/-! ### A length that does not fit -/

/-- `cmpsc311NetworkUnitRecv` alone, on a socket on which bytes arrive. -/
def networkUnitRecv : ActionSystem (UnitThread × List UInt8) ℕ where
  act s n := (s.1.step 0 n [] s.2).map fun sides => (sides.1, sides.2.2)

/-- What the function has made of the bytes that have arrived, where `inn` is left of them: the
    buffer it is in holds those it has read, and behind the first two it knows the length. -/
def UnitCall.After (stream inn : List UInt8) : UnitCall → Prop
  | .readLen _ _ len read => read < 2 ∧ stream = len.toList.take read ++ inn
  | .readCh _ len _ read =>
    read = 0 ∧ ∃ got : List UInt8, got.length = 2 ∧ stream = got ++ inn ∧ len = ofLe16 got
  | .readBuf len _ _ read =>
    read < len.toNat ∧ read ≤ networkUnitTestMaxMsgSize ∧
      ∃ got : List UInt8, got.length = 3 + read ∧ stream = got ++ inn ∧ len = ofLe16 (got.take 2)
  | .outside =>
    networkUnitTestMaxMsgSize < (ofLe16 (stream.take 2)).toNat ∧
      3 + networkUnitTestMaxMsgSize < stream.length
  | .returned _ => (ofLe16 (stream.take 2)).toNat ≤ networkUnitTestMaxMsgSize
  | .sendLen _ _ | .sendCh _ _ | .sendBuf _ _ => False

/-- The last call returns when it has compared the bytes. -/
theorem UnitThread.compare_last (call : UnitCall) (ch : UInt8) (buf : List UInt8) :
    ∃ ret, UnitThread.compare ⟨call, none⟩ ch buf = ⟨.returned ret, none⟩ := by
  unfold UnitThread.compare
  split_ifs
  · exact ⟨0, rfl⟩
  · exact ⟨-1, rfl⟩

/-- The thread in front of `cmpsc311NetworkUnitRecv`. -/
def UnitThread.start (w : UnitWords) (memory : ℕ → UInt8) : UnitThread :=
  ⟨UnitTask.call (.recv (.draw w) memory), none⟩

/-- **Step lemma.**  A `read` takes bytes from the front of what has arrived, and a call whose loop
    is over goes on to the next one. -/
theorem UnitCall.After.step {stream inn inn' out' : List UInt8} {t t' : UnitThread} {n : ℕ}
    (h : t.call.After stream inn) (hrest : t.rest = none)
    (hstep : t.step 0 n [] inn = some (t', out', inn')) :
    t'.call.After stream inn' ∧ t'.rest = none := by
  obtain ⟨call, rest⟩ := t
  obtain rfl := hrest
  unfold UnitThread.step at hstep
  have hsplit : ∀ got, stream = got ++ inn → stream = (got ++ inn.take n) ++ inn.drop n := by
    intro got hgot
    rw [List.append_assoc, List.take_append_drop, hgot]
  cases call with
  | sendLen m sent | sendCh m sent | sendBuf m sent => exact h.elim
  | outside | returned ret => cases hstep
  | readLen memory ch len read =>
    obtain ⟨-, hstream⟩ := h
    obtain ⟨hpos, hle, hinn, -, rfl, buf, htake, ⟨hmore, rfl⟩ | ⟨hall, rfl⟩⟩ :=
      UnitThread.readBytes_cases hstep
    · refine ⟨⟨hmore, ?_⟩, rfl⟩
      rw [htake]
      exact hsplit _ hstream
    · rw [List.take_of_length_le (by rw [buf.length_toList, hall])] at htake
      refine ⟨⟨rfl, buf.toList, buf.length_toList, ?_, rfl⟩, rfl⟩
      rw [htake]
      exact hsplit _ hstream
  | readCh memory len ch read =>
    obtain ⟨rfl, got, hgot, hstream, hlen⟩ := h
    obtain ⟨hpos, hle, hinn, -, rfl, buf, htake, ⟨hmore, -⟩ | ⟨hall, rfl⟩⟩ :=
      UnitThread.readBytes_cases hstep
    · omega
    · -- the first two bytes are the length
      have htwo : stream.take 2 = got := by
        rw [hstream, List.take_left' hgot]
      unfold UnitThread.enterReadBuf
      by_cases hsome : 0 < len.toNat
      · rw [if_pos hsome]
        refine ⟨⟨hsome, Nat.zero_le _, got ++ inn.take n, ?_, hsplit _ hstream, ?_⟩, rfl⟩
        · rw [List.length_append, List.length_take, hgot]
          omega
        · rw [List.take_left' hgot, hlen]
      · rw [if_neg hsome]
        obtain ⟨ret, hret⟩ :=
          UnitThread.compare_last (.readCh memory len ch 0) (buf.toList.headD 0) []
        rw [hret]
        refine ⟨?_, rfl⟩
        show (ofLe16 (stream.take 2)).toNat ≤ networkUnitTestMaxMsgSize
        rw [htwo, ← hlen]
        omega
  | readBuf len ch buf read =>
    obtain ⟨-, hin, got, hgot, hstream, hlen⟩ := h
    have htwo : ofLe16 (stream.take 2) = len := by
      rw [hstream, List.take_append_of_le_length (by omega), hlen]
    obtain ⟨⟨t'', out'', inn''⟩, hread, heq⟩ := Option.map_eq_some_iff.mp hstep
    obtain ⟨hpos, hle, hinn, -, rfl, buf', htake, hcases⟩ := UnitThread.readBytes_cases hread
    by_cases houtside : networkUnitTestMaxMsgSize < read + n
    · -- the length is greater than the array, and the bytes behind its end have arrived
      rw [if_pos houtside] at heq
      obtain ⟨rfl, rfl, rfl⟩ := heq
      refine ⟨⟨?_, ?_⟩, rfl⟩
      · rw [htwo]
        omega
      · rw [hstream, List.length_append]
        omega
    · rw [if_neg houtside] at heq
      obtain ⟨rfl, rfl, rfl⟩ := heq
      obtain ⟨hmore, rfl⟩ | ⟨hall, rfl⟩ := hcases
      · refine ⟨⟨hmore, not_lt.mp houtside, got ++ inn.take n, ?_, hsplit _ hstream, ?_⟩, rfl⟩
        · rw [List.length_append, List.length_take, hgot]
          omega
        · rw [List.take_append_of_le_length (by omega), hlen]
      · obtain ⟨ret, hret⟩ := UnitThread.compare_last (.readBuf len ch buf read) ch buf'.toList
        rw [hret]
        refine ⟨?_, rfl⟩
        show (ofLe16 (stream.take 2)).toNat ≤ networkUnitTestMaxMsgSize
        rw [htwo]
        omega

/-- **A length that does not fit.**  Whatever bytes arrive and however they are cut: the function
    writes behind the end of its array if and only if the length that it reads is greater than the
    array and more bytes arrive than the array holds. -/
theorem networkUnitRecv_outside_iff (w : UnitWords) (memory : ℕ → UInt8) (stream : List UInt8)
    (acts : List ℕ) (s : UnitThread × List UInt8)
    (hrun : networkUnitRecv.run acts (.start w memory, stream) = some s)
    (hstuck : networkUnitRecv.Stuck s) :
    s.1.call = .outside ↔
      networkUnitTestMaxMsgSize < (ofLe16 (stream.take 2)).toNat ∧
        3 + networkUnitTestMaxMsgSize < stream.length := by
  have hstep : networkUnitRecv.Invariant fun s => s.1.call.After stream s.2 ∧ s.1.rest = none := by
    intro s n s' h hact
    obtain ⟨⟨t', out', inn'⟩, hstep, rfl⟩ := Option.map_eq_some_iff.mp hact
    exact h.1.step h.2 hstep
  obtain ⟨⟨call, rest⟩, inn⟩ := s
  have hstart : (UnitTask.call (.recv (.draw w) memory)).After stream stream := ⟨Nat.two_pos, rfl⟩
  obtain ⟨hafter, -⟩ : call.After stream inn ∧ rest = none := hstep.run ⟨hstart, rfl⟩ hrun
  have hnone := Option.map_eq_none_iff.mp (hstuck 1)
  -- a call that waits has no bytes left
  have hwaits : ∀ {size moved : ℕ} {buf : Bytes size}, moved < size →
      readCall 1 buf moved inn = none → inn.length = 0 := by
    intro size moved buf hlt hread
    unfold readCall at hread
    split_ifs at hread with hn
    omega
  unfold UnitThread.step at hnone
  cases call with
  | sendLen m sent | sendCh m sent | sendBuf m sent => exact hafter.elim
  | outside => exact iff_of_true rfl hafter
  | returned ret =>
    refine iff_of_false (fun h => by cases h) fun h => ?_
    have hle : (ofLe16 (stream.take 2)).toNat ≤ networkUnitTestMaxMsgSize := hafter
    omega
  | readLen memory ch len read =>
    obtain ⟨hlt, hstream⟩ := hafter
    have hinn := hwaits hlt (UnitThread.readBytes_eq_none hnone)
    refine iff_of_false (fun h => by cases h) fun h => ?_
    rw [hstream, List.length_append, List.length_take, len.length_toList] at h
    omega
  | readCh memory len ch read =>
    obtain ⟨rfl, got, hgot, hstream, -⟩ := hafter
    have hinn := hwaits Nat.one_pos (UnitThread.readBytes_eq_none hnone)
    refine iff_of_false (fun h => by cases h) fun h => ?_
    rw [hstream, List.length_append] at h
    omega
  | readBuf len ch buf read =>
    -- inside the array, and nothing more arrives
    obtain ⟨hlt, hin, got, hgot, hstream, -⟩ := hafter
    have hinn := hwaits hlt (UnitThread.readBytes_eq_none (Option.map_eq_none_iff.mp hnone))
    refine iff_of_false (fun h => by cases h) fun h => ?_
    rw [hstream, List.length_append] at h
    omega

/-- A message of 4097 bytes, one more than the array holds, in one `read`. -/
theorem networkUnitRecv_outside_iff_long : ∃ s : UnitThread × List UInt8,
    networkUnitRecv.run [2, 1, 4097]
        (.start ⟨0, 0⟩ fun _ => 0, [1, 16, 7] ++ List.replicate 4097 7) = some s ∧
      s.1.call = .outside := by
  have hsome : ((networkUnitRecv.run [2, 1, 4097]
      (.start ⟨0, 0⟩ fun _ => 0, [1, 16, 7] ++ List.replicate 4097 7)).any fun s =>
        match s.1.call with
        | .outside => true
        | _ => false) = true := by
    decide +kernel
  obtain ⟨s, hrun, hs⟩ := (Option.any_eq_true _ _).mp hsome
  have hstuck : networkUnitRecv.Stuck s := by
    intro n
    refine Option.map_eq_none_iff.mpr ?_
    unfold UnitThread.step
    split at hs
    case h_1 hcall => rw [hcall]
    case h_2 => cases hs
  refine ⟨s, hrun, (networkUnitRecv_outside_iff _ _ _ _ s hrun hstuck).mpr ⟨?_, ?_⟩⟩
  · decide
  · rw [List.length_append, List.length_replicate]
    decide

end NetworkExperiment
