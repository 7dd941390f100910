import Mathlib.Algebra.Order.Ring.Int
import NetworkExperiment.Lib.Bytes
import NetworkExperiment.Lib.FileOffset
import NetworkExperiment.Lib.Loop

namespace NetworkExperiment

open ByteBuffers FileOffsets Loops

/-!
# The environment log

`environment_capture` and `display_environment_log` of `cmpsc311_capture.c`:

* `CString` / `Environment` — what the system says of the environment during a capture;
* `environmentCapture` — a capture appends a record to the log file;
* `Record` / `readRecord` — a record as it is read back;
* `backStep` / `firstEntry` — the way back from the end of the file to the first record;
* `displayStep` / `displayEnvironmentLog` — the display of all records from there on.

The log file can be opened, every write is complete, and every read returns what is there.  What
`logMessage` makes of a record (the date of `tm + tz`, the time zone in hours) is left out: nothing
depends on it.
-/

/-! ### The environment -/

/-- A string of C: its characters, none of which is `NUL`. -/
structure CString where
  bytes : List UInt8
  no_nul : 0 ∉ bytes

/-- What the system says during a capture; a name that is missing is `none`. -/
structure Environment where
  /-- `time(NULL)`. -/
  t : Int64
  /-- `tm_gmtoff` of the local time. -/
  gmtoff : Int64
  /-- `geteuid()` and `getegid()`. -/
  uid : UInt32
  gid : UInt32
  /-- The names of `getpwuid`, `getgrgid` and `gethostname`. -/
  user : Option CString
  group : Option CString
  host : Option CString
  /-- The external address, or 0. -/
  addy : UInt32

/-- `htonl` on a little-endian machine. -/
def htonl (w : UInt32) : UInt32 := ofLe32 (le32 w).reverse

/-- `ntohl` on a little-endian machine. -/
def ntohl (w : UInt32) : UInt32 := ofLe32 (le32 w).reverse

/-! ### Capturing -/

/-- The loop that masks a name, from a character of it on, up to its `NUL`. -/
def maskLoop : List UInt8 → List UInt8
  | [] => []
  | c :: cs => if c = 0 then c :: cs else (c ^^^ 0xca) :: maskLoop cs

/-- The length of a name and the name, masked.  A name that is missing, or whose length wraps to 0,
    is written as its length only. -/
def writeName (f : File) (name : Option CString) : File :=
  -- a length of 256 or more wraps
  let len : UInt8 :=
    match name with
    | some s => UInt8.ofNat s.bytes.length
    | none => 0
  let f := f.write [len]
  match name with
  | some s => if len ≠ 0 then f.write ((maskLoop (s.bytes ++ [0])).take len.toNat) else f
  | none => f

/-- `environment_capture`: the return code and the log file, to which one record is appended.  It
    ends with the offset at which it begins, by which it is found again. -/
def environmentCapture (env : Environment) (content : List UInt8) : ℤ × List UInt8 :=
  let tm : Int32 := env.t.toInt32
  let tz : Int32 := env.gmtoff.toInt32
  let f : File := ⟨content, 0⟩
  let f := f.seekEnd
  let ofs : UInt32 := UInt32.ofNat f.offset
  let f := f.write (le32 (htonl tm.toUInt32))
  let f := f.write (le32 (htonl tz.toUInt32))
  let f := f.write (le32 (htonl env.uid))
  let f := f.write (le32 (htonl env.gid))
  let f := writeName f env.user
  let f := writeName f env.group
  let f := writeName f env.host
  -- the address is in network order already
  let f := f.write (le32 env.addy)
  let f := f.write (le32 (htonl ofs))
  (0, f.content)

/-! ### Displaying -/

/-- `struct record`; the names are without their terminating `NUL`. -/
structure Record where
  tm : Int32
  tz : Int32
  uid : UInt32
  gid : UInt32
  user : List UInt8
  group : List UInt8
  host : List UInt8
  ip : List UInt8
  next : UInt32
  deriving DecidableEq

/-- A read of `n` bytes; a shorter one is an error with the message `err`. -/
def readField (f : File) (n : ℕ) (err : String) : Except String (List UInt8 × File) :=
  let (bs, f) := f.read n
  if bs.length < n then .error err else .ok (bs, f)

/-- The length of a name and the name, unmasked. -/
def readName (f : File) (lenErr nameErr : String) : Except String (List UInt8 × File) := do
  let (len, f) ← readField f 1 lenErr
  let (name, f) ← readField f (len.headD 0).toNat nameErr
  return (name.map (· ^^^ 0xca), f)

/-- The rest of a record behind its time, field by field.  The first read that comes up short is
    the error that is reported. -/
def readRecord (tm : List UInt8) (f : File) : Except String (Record × File) := do
  let (tz, f) ← readField f 4 "read tz"
  let (uid, f) ← readField f 4 "read uid"
  let (gid, f) ← readField f 4 "read gid"
  let (user, f) ← readName f "read user len" "read user"
  let (group, f) ← readName f "read group len" "read group"
  let (host, f) ← readName f "read host len" "read host"
  let (ip, f) ← readField f 4 "read ip"
  let (next, f) ← readField f 4 "read next offset"
  return (
    { tm := (ntohl (ofLe32 tm)).toInt32
      tz := (ntohl (ofLe32 tz)).toInt32
      uid := ntohl (ofLe32 uid)
      gid := ntohl (ofLe32 gid)
      user := user
      group := group
      host := host
      ip := ip
      next := ntohl (ofLe32 next) }, f)

/-- The outcome of `display_environment_log`: its return code, the records it has displayed, and
    the message of an error. -/
structure Displayed where
  ret : ℤ
  shown : List Record
  err : Option String
  deriving DecidableEq

/-- The body of the loop that finds the first entry: the next offset, or the offset of the first
    entry, or `none` for a bad file.  A `pread` that gets fewer than 4 bytes leaves the others of
    `next` as they are. -/
def backStep (f : File) (next : UInt32) : UInt32 ⊕ Option UInt32 :=
  let ofs := next
  let bs := f.pread 4 (ofs - 4).toNat
  let next := htonl (ofLe32 (bs ++ (le32 next).drop bs.length))
  -- an entry has at least 27 bytes, and ends where the next one begins
  if next ≠ 0 ∧ (next > ofs ∨ next + 27 > ofs) then .inr none
  else if next ≠ 0 then .inl next
  else .inr (some ofs)

/-- The loop that finds the first entry. -/
def firstEntry (f : File) (fuel : ℕ) (next : UInt32) : Option (Option UInt32) :=
  run (backStep f) fuel next

/-- The body of the loop that displays the records; the loop ends with the first time that is not
    there. -/
def displayStep (s : File × List Record) : (File × List Record) ⊕ Displayed :=
  let (tm, f) := s.1.read 4
  if tm.length = 4 then
    match readRecord tm f with
    | .error err => .inr ⟨-1, s.2, some err⟩
    | .ok (r, f) => .inl (f, s.2 ++ [r])
  else
    .inr ⟨0, s.2, none⟩

/-- The loop that displays the records. -/
def displayLoop (fuel : ℕ) (f : File) (shown : List Record) : Option Displayed :=
  run displayStep fuel (f, shown)

/-- `display_environment_log`; `none` says that it does not end.  Each step of its loops passes
    over at least one byte of the file. -/
def displayEnvironmentLog (content : List UInt8) : Option Displayed :=
  let f : File := ⟨content, 0⟩
  let f := f.seekEnd
  match firstEntry f (content.length + 1) (UInt32.ofNat f.offset) with
  | none => none
  | some none => some ⟨-1, [], some "Bad file\n"⟩
  | some (some ofs) => displayLoop (content.length + 1) (f.seekSet ofs.toNat) []

end NetworkExperiment
