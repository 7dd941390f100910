import Mathlib.Algebra.Order.Ring.Int
import NetworkExperiment.Lib.Bytes

namespace NetworkExperiment

open ByteBuffers

/-!
# The message format — `proto/proto.h`, `proto/proto.c`

A `ProtoMsg` is a 4-byte type followed by `MAX_BLOCK_SIZE` bytes of data; a frame on the wire
is the same bytes, the type in host byte order (little endian).

* `ProtoType.code` — the value the C enumeration gives each message type.  The type field of a
  received message is the raw word, since nothing stops a peer from sending another value;
* `marshall` / `unmarshall` — the two `memcpy`s each way;
* `frame` / `unmarshall_frame` — the wire form of a message, and the round trip through it.
-/

/-- `MAX_BLOCK_SIZE`. -/
def maxBlockSize : ℕ := 8096

/-- `PROTO_TYPE`. -/
inductive ProtoType
  | reqFile
  | reqAck
  | fileBlock
  | fileBlockAck
  | fileComplete
  | fileCompleteAck
deriving DecidableEq, Repr

/-- The word that stands for a message type. -/
def ProtoType.code : ProtoType → UInt32
  | .reqFile => 0
  | .reqAck => 1
  | .fileBlock => 2
  | .fileBlockAck => 3
  | .fileComplete => 4
  | .fileCompleteAck => 5

theorem ProtoType.code_injective {s t : ProtoType} (h : s.code = t.code) : s = t := by
  cases s <;> cases t <;> first | rfl | exact absurd h (by decide)

@[simp] theorem ProtoType.code_inj {s t : ProtoType} : s.code = t.code ↔ s = t :=
  ⟨code_injective, congrArg code⟩

/-- `ProtoMsg`. -/
@[ext] structure ProtoMsg where
  msgType : UInt32
  data : Bytes maxBlockSize
deriving DecidableEq

/-- `sizeof(PROTO_TYPE)`. -/
def sizeofProtoType : ℕ := 4

/-- `sizeof(ProtoMsg)`: the two fields, without padding. -/
def sizeofProtoMsg : ℕ := sizeofProtoType + maxBlockSize

/-- A marshalling buffer, `malloc(sizeof(ProtoMsg))`. -/
abbrev Buffer := Bytes sizeofProtoMsg

/-- `bzero(&msg, sizeof(ProtoMsg)); msg.msgType = t`. -/
def ProtoMsg.blank (t : ProtoType) : ProtoMsg := ⟨t.code, .zero maxBlockSize⟩

@[simp] theorem ProtoMsg.blank_msgType (t : ProtoType) : (blank t).msgType = t.code := rfl
@[simp] theorem ProtoMsg.blank_data (t : ProtoType) : (blank t).data = .zero maxBlockSize := rfl

/-- `marshall` on a buffer that is not `NULL`: the type, then the data. -/
def marshall (msg : ProtoMsg) (buffer : Buffer) : Buffer :=
  (buffer.write 0 (le32 msg.msgType)).write sizeofProtoType msg.data.toList

/-- `unmarshall`. -/
def unmarshall (buffer : Buffer) : ProtoMsg where
  msgType := ofLe32 (buffer.toList.take sizeofProtoType)
  data := ⟨buffer.toList.drop sizeofProtoType, by simp [sizeofProtoMsg]⟩

/-- What was in the buffer before does not matter: the two writes cover it. -/
theorem toList_marshall (msg : ProtoMsg) (buffer : Buffer) :
    (marshall msg buffer).toList = le32 msg.msgType ++ msg.data.toList := by
  have hlen : (le32 msg.msgType).length + msg.data.toList.length = sizeofProtoMsg := by
    simp [sizeofProtoMsg, sizeofProtoType]
  rw [marshall, show sizeofProtoType = (le32 msg.msgType).length from rfl,
    Bytes.write_write buffer (Nat.le_of_eq hlen)]
  exact Bytes.toList_write_zero_of_length buffer (by rw [List.length_append, hlen])

/-- The frame of a message: its marshalled bytes. -/
def frame (msg : ProtoMsg) : Buffer := marshall msg (.zero sizeofProtoMsg)

@[simp] theorem marshall_eq_frame (msg : ProtoMsg) (buffer : Buffer) :
    marshall msg buffer = frame msg := by
  ext1
  rw [frame, toList_marshall, toList_marshall]

theorem toList_frame (msg : ProtoMsg) : (frame msg).toList = le32 msg.msgType ++ msg.data.toList :=
  toList_marshall _ _

/-- **Round trip.** Unmarshalling a marshalled message gives it back, field by field. -/
@[simp] theorem unmarshall_frame (msg : ProtoMsg) : unmarshall (frame msg) = msg := by
  have htake : (frame msg).toList.take sizeofProtoType = le32 msg.msgType := by
    rw [toList_frame, show sizeofProtoType = (le32 msg.msgType).length from rfl,
      List.take_left']
    rfl
  have hdrop : (frame msg).toList.drop sizeofProtoType = msg.data.toList := by
    rw [toList_frame, show sizeofProtoType = (le32 msg.msgType).length from rfl,
      List.drop_left']
    rfl
  ext1
  · rw [unmarshall, htake, ofLe32_le32]
  · ext1
    exact hdrop

/-- Every buffer is the frame of the message it unmarshalls to. -/
@[simp] theorem frame_unmarshall (buffer : Buffer) : frame (unmarshall buffer) = buffer := by
  ext1
  rw [toList_frame, unmarshall, le32_ofLe32 (by simp [sizeofProtoMsg, sizeofProtoType])]
  exact List.take_append_drop sizeofProtoType buffer.toList

theorem frame_injective : Function.Injective frame := fun m₁ m₂ h => by
  rw [← unmarshall_frame m₁, h, unmarshall_frame]

/-- The bytes of a sequence of messages on the wire. -/
def frames (msgs : List ProtoMsg) : List UInt8 := msgs.flatMap fun m => (frame m).toList

@[simp] theorem frames_nil : frames [] = [] := rfl

@[simp] theorem frames_append (l₁ l₂ : List ProtoMsg) :
    frames (l₁ ++ l₂) = frames l₁ ++ frames l₂ := List.flatMap_append

@[simp] theorem frames_singleton (m : ProtoMsg) : frames [m] = (frame m).toList := by
  simp [frames]

/-- Whole frames at the front of a stream of frames are its first messages. -/
theorem prefix_of_frames {l₁ l₂ : List ProtoMsg} (h : frames l₁ <+: frames l₂) :
    l₁ <+: l₂ :=
  prefix_of_flatMap (fun m => (frame m).length_toList) (by decide)
    (fun _ _ h => frame_injective (Bytes.ext h)) h

end NetworkExperiment
