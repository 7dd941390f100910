import NetworkExperiment.Exchange.Safety
import Mathlib.Data.List.Forall2

namespace NetworkExperiment

open ActionSystems ByteBuffers DescriptorTables Scripts

/-!
# One exchange — what reaches the client of the file's contents

`server_func` reads a chunk into `msg.data` and then clears all of `msg` before it marshalls the
block, so every `FILE_BLOCK` carries zero bytes.

* `freadChunks` — the chunks `fread` puts into `msg.data`, one for each block;
* `Exchange.blockData` — the data fields of the blocks the client has unmarshalled;
* `Exchange.Delivers` — the blocks carry the chunks and spell out the file;
* `file_delivered_iff` — a complete exchange delivers exactly the files of zero bytes.
-/

/-- The chunks `fread` returns, in order: the full ones and the one that comes up short. -/
def freadChunks (content : List UInt8) : List (List UInt8) :=
  (List.range (FileOutcome.readable content).blocks).map fun j =>
    (content.drop (maxBlockSize * j)).take maxBlockSize

/-- The data fields of the `FILE_BLOCK` messages the client has unmarshalled, in order. -/
def Exchange.blockData (e : Exchange) : List (List UInt8) :=
  (e.received.filter (·.msgType = ProtoType.fileBlock.code)).map (·.data.toList)

/-- The data fields of the blocks, concatenated, begin with the file, and each block begins with
    the chunk `fread` returned for it. -/
def Exchange.Delivers (content : List UInt8) (e : Exchange) : Prop :=
  content <+: e.blockData.flatten ∧ List.Forall₂ (· <+: ·) (freadChunks content) e.blockData

variable {out : FileOutcome} {n : ℕ} {e : Exchange}

/-- Behind a complete exchange every block the client has seen holds zero bytes only. -/
theorem Exchange.Inv.blockData_eq (h : e.Inv out n) (hret : e.client.pc = .returned) :
    e.blockData = List.replicate out.blocks (List.replicate maxBlockSize 0) := by
  have hne : ProtoType.reqAck.code ≠ ProtoType.fileBlock.code := by decide
  have hne' : ProtoType.fileComplete.code ≠ ProtoType.fileBlock.code := by decide
  rw [Exchange.blockData, h.received_of_returned hret]
  rw [List.filter_cons_of_neg (by simp [hne]), List.filter_append,
    List.filter_cons_of_neg (by simp [hne']), List.filter_nil, List.append_nil,
    List.filter_replicate_of_pos (by simp), List.map_replicate]
  rfl

/-- A list of zero bytes is a prefix of any longer one. -/
theorem prefix_replicate_zero {l : List UInt8} (hzero : ∀ b ∈ l, b = 0) {k : ℕ}
    (hk : l.length ≤ k) : l <+: List.replicate k 0 := by
  refine ⟨List.replicate (k - l.length) 0, ?_⟩
  rw [List.eq_replicate_iff.mpr ⟨rfl, hzero⟩, List.length_replicate,
    List.replicate_append_replicate,
    Nat.add_sub_cancel' hk]

/-- The blocks have room for the file. -/
theorem length_le_blocks (content : List UInt8) :
    content.length ≤ (FileOutcome.readable content).blocks * maxBlockSize := by
  simp only [FileOutcome.blocks, maxBlockSize]
  omega

/-- Blocks of zero bytes deliver a file exactly if it is made of zero bytes. -/
theorem Exchange.delivers_iff_of_blockData {content : List UInt8}
    (h : e.blockData = List.replicate (FileOutcome.readable content).blocks
      (List.replicate maxBlockSize 0)) :
    e.Delivers content ↔ ∀ b ∈ content, b = 0 := by
  constructor
  · rintro ⟨hinitial, -⟩ b hb
    rw [h, List.flatten_replicate_replicate] at hinitial
    exact List.eq_of_mem_replicate (hinitial.subset hb)
  · intro hzero
    refine ⟨?_, ?_⟩
    · rw [h, List.flatten_replicate_replicate]
      exact prefix_replicate_zero hzero (length_le_blocks content)
    · have hconst : List.replicate (FileOutcome.readable content).blocks
          (List.replicate maxBlockSize (0 : UInt8))
            = (List.range (FileOutcome.readable content).blocks).map
              fun _ => List.replicate maxBlockSize 0 := by
        rw [List.map_const', List.length_range]
      rw [h, hconst, freadChunks, List.forall₂_map_left_iff, List.forall₂_map_right_iff,
        List.forall₂_same]
      intro j _
      refine prefix_replicate_zero (fun b hb => hzero b ?_) (List.length_take_le _ _)
      exact List.mem_of_mem_drop (List.mem_of_mem_take hb)

/-- **Delivery.**  Whatever the interleaving, a complete exchange delivers the file to the client
    if and only if every byte of the file is zero. -/
theorem file_delivered_iff (fs : FileSystem) (sockfd : Fd) (clientGarbage serverGarbage : Buffer)
    (content : List UInt8) (hfile : fs requestedName = .readable content) (e : Exchange)
    (hreach : (exchange fs).Reaches (.start sockfd clientGarbage serverGarbage) e)
    (hret : e.client.pc = .returned ∧ e.server.pc = .returned) :
    e.Delivers content ↔ ∀ b ∈ content, b = 0 := by
  obtain ⟨n, hinv⟩ := Exchange.inv_reaches fs sockfd clientGarbage serverGarbage hreach
  rw [hfile] at hinv
  exact Exchange.delivers_iff_of_blockData (hinv.blockData_eq hret.1)

theorem file_delivered_iff_zero_byte :
    ∃ e, (exchange fun _ => .readable [0]).Reaches
        (.start 4 (.zero sizeofProtoMsg) (.zero sizeofProtoMsg)) e ∧ e.Delivers [0] := by
  obtain ⟨e, hreach, hret⟩ := Exchange.exists_complete (fun _ => .readable [0]) 4
    (.zero sizeofProtoMsg) (.zero sizeofProtoMsg)
  exact ⟨e, hreach, (file_delivered_iff _ 4 _ _ [0] rfl e hreach hret).mpr (by simp)⟩

/-- A file that holds the one byte `'A'` is lost: the exchange completes, and the block that
    reaches the client does not carry it. -/
theorem file_content_lost :
    ∃ e, (exchange fun _ => .readable [0x41]).Reaches
        (.start 4 (.zero sizeofProtoMsg) (.zero sizeofProtoMsg)) e ∧
      e.client.pc = .returned ∧ e.server.pc = .returned ∧ ¬ e.Delivers [0x41] := by
  obtain ⟨e, hreach, hret⟩ := Exchange.exists_complete (fun _ => .readable [0x41]) 4
    (.zero sizeofProtoMsg) (.zero sizeofProtoMsg)
  obtain ⟨n, hinv⟩ := Exchange.inv_reaches _ _ _ _ hreach
  refine ⟨e, hreach, hret.1, hret.2, fun hdeliv => ?_⟩
  have hzero := (Exchange.delivers_iff_of_blockData (hinv.blockData_eq hret.1)).mp hdeliv
  exact absurd (hzero 0x41 (by simp)) (by decide)

end NetworkExperiment
