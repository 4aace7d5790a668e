import UsgTftp.Lib.Reactive
import UsgTftp.Options

set_option autoImplicit false

/-! # Write requests

`handle_write_request` of `src/bin/server.rs` up to the call of `write_file_safely`: the
OACK or ACK `0` that opens the transfer, the receive loop and the NETASCII conversion. The
size announced with `tsize` only sets the capacity of a buffer and the text of a warning, so
it is left out, as are audit records. Sends succeed.

`write_commit_exact` is the main result: whatever copies of the blocks of a file are
delivered, in whatever order, the data handed to `write_file_safely` is that file.
-/

namespace UsgTftp

open Reactive Segment SeqNum

/-! ## The receive loop -/

/-- What a write transfer is started with. -/
structure WriteRequest where
  mode : TransferMode
  options : TftpOptions
  negotiatedOptions : OptionMap
  maxFileSizeBytes : Nat

structure ReceiveState where
  receivedData : Bytes := []
  expectedBlock : UInt16 := 1
  deriving DecidableEq, Repr

inductive WriteExit where
  /-- `Err`: the client sent an ERROR packet. -/
  | clientError (e : TftpError)
  /-- `Ok`, after the ERROR `Out of order block`. -/
  | outOfOrder
  /-- `Ok`, after the ERROR `File too large`. -/
  | tooLarge
  | recvError (e : TftpError)
  | timeout (e : TftpError)
  /-- The remainder by `windowsize as u16`, when that is zero. -/
  | panicked
  deriving DecidableEq, Repr

inductive WriteStatus where
  | receiving (s : ReceiveState)
  /-- `write_file_safely` is called with `finalData`. -/
  | commit (s : ReceiveState) (finalData : Bytes)
  | ended (e : WriteExit) (s : ReceiveState)
  deriving DecidableEq, Repr

def WriteStatus.state : WriteStatus → ReceiveState
  | .receiving s => s
  | .commit s _ => s
  | .ended _ s => s

def WriteStatus.running : WriteStatus → Bool
  | .receiving _ => true
  | _ => false

/-- The data that is written to the file. -/
def WriteRequest.finalData (q : WriteRequest) (receivedData : Bytes) : Bytes :=
  if q.mode = .netascii then convertFromNetascii receivedData else receivedData

/-- The check on the size of the file so far. -/
def WriteRequest.exceeds (q : WriteRequest) (s : ReceiveState) (data : Bytes) : Prop :=
  q.maxFileSizeBytes > 0 ∧ s.receivedData.length + data.length > q.maxFileSizeBytes

instance (q : WriteRequest) (s : ReceiveState) (data : Bytes) : Decidable (q.exceeds s data) :=
  inferInstanceAs (Decidable (_ ∧ _))

/-- The file is within the size limit. -/
def WriteRequest.Fits (q : WriteRequest) (file : Bytes) : Prop :=
  q.maxFileSizeBytes ≠ 0 → file.length ≤ q.maxFileSizeBytes

/-- A DATA packet with another number than the expected one: it is acknowledged again if its
number is behind in the sixteen-bit circle, and else it ends the transfer. -/
def mismatchedBlock (s : ReceiveState) (blockNum : UInt16) : WriteStatus × List Bytes :=
  let behind := s.expectedBlock - blockNum
  if 0 < behind ∧ behind < 32768 then (.receiving s, [ackPacket blockNum])
  else (.ended .outOfOrder s, [errorPacket .illegalOperation "Out of order block"])

/-- The block is appended; it is acknowledged at the end of a window and of the file. -/
def WriteRequest.appendBlock (q : WriteRequest) (s : ReceiveState) (blockNum : UInt16)
    (data : Bytes) : WriteStatus × List Bytes :=
  let receivedData := s.receivedData ++ data
  let windowsize := UInt16.ofNat q.options.windowsize
  if windowsize = 0 then (.ended .panicked { s with receivedData := receivedData }, [])
  else
    let isFinalBlock := data.length < q.options.blockSize
    let blocksInCurrentWindow := (blockNum - 1) % windowsize + 1
    let shouldAck := blocksInCurrentWindow = windowsize ∨ isFinalBlock
    let acks := if shouldAck then [ackPacket blockNum] else []
    if isFinalBlock then
      (.commit { s with receivedData := receivedData } (q.finalData receivedData), acks)
    else
      (.receiving { receivedData := receivedData, expectedBlock := s.expectedBlock + 1 }, acks)

/-- The branch for a DATA packet. -/
def WriteRequest.receiveData (q : WriteRequest) (s : ReceiveState) (blockNum : UInt16)
    (data : Bytes) : WriteStatus × List Bytes :=
  if blockNum ≠ s.expectedBlock then mismatchedBlock s blockNum
  else if q.exceeds s data then
    (.ended .tooLarge s, [errorPacket .diskFull "File too large"])
  else q.appendBlock s blockNum data

def WriteRequest.step (q : WriteRequest) : WriteStatus → Recv → WriteStatus × List Bytes
  | .receiving s, .datagram d =>
      match header (recvInto maxPacketSize d) with
      | none => (.receiving s, [])
      | some (opcode, field, rest) =>
          if opcode = Opcode.error.toU16 then
            (.ended (.clientError (.tftp s!"Client sent error {field}: {parseStringOrDefault rest}"))
              s, [])
          else if opcode ≠ Opcode.data.toU16 then (.receiving s, [])
          else q.receiveData s field rest
  | .receiving s, .error message => (.ended (.recvError (.io message)) s, [])
  | .receiving s, .timeout =>
      (.ended (.timeout (.tftp s!"Timeout waiting for DATA block {s.expectedBlock}")) s,
        [errorPacket .notDefined s!"Timeout waiting for block {s.expectedBlock}"])
  | st, _ => (st, [])

def handleWriteRequest (q : WriteRequest) (order : IterOrder) :
    Machine WriteStatus Recv Bytes where
  start := (.receiving {},
    if q.negotiatedOptions.entries = [] then [ackPacket 0]
    else [buildOackPacket (order.iter q.negotiatedOptions)])
  step := q.step
  running := WriteStatus.running

/-! ## Deliveries -/

/-- A datagram that the loop skips: too short, or neither DATA nor ERROR. -/
def Junk (d : Bytes) : Prop :=
  ∀ opcode field rest, header d = some (opcode, field, rest) →
    opcode ≠ Opcode.data.toU16 ∧ opcode ≠ Opcode.error.toU16

/-- The loop would append the block: it has the expected number and fits the size limit. -/
def WriteRequest.accepts (q : WriteRequest) (b : Nat) (file : Bytes) (i : Nat) :
    WriteStatus → Prop
  | .receiving s => wire (i + 1) = s.expectedBlock ∧ ¬ q.exceeds s (block b file i)
  | _ => False

instance (q : WriteRequest) (b : Nat) (file : Bytes) (i : Nat) :
    ∀ st, Decidable (q.accepts b file i st)
  | .receiving _ => inferInstanceAs (Decidable (_ ∧ _))
  | .commit _ _ => inferInstanceAs (Decidable False)
  | .ended _ _ => inferInstanceAs (Decidable False)

section Blocks

variable {q : WriteRequest} {b : Nat} {file : Bytes} {k : Nat}

theorem step_junk {s : ReceiveState} {d : Bytes} (hd : Junk d) :
    q.step (.receiving s) (.datagram d) = (.receiving s, []) := by
  rw [WriteRequest.step, header_recvInto (by decide)]
  cases hh : header d with
  | none => rfl
  | some v =>
      obtain ⟨opcode, field, rest⟩ := v
      obtain ⟨hdata, herror⟩ := hd opcode field rest hh
      simp [hdata, herror]

theorem step_segPacket {s : ReceiveState} (hb : b ≤ maxBlockSize) (i : Nat) :
    q.step (.receiving s) (.datagram (segPacket b file i))
      = q.receiveData s (wire (i + 1)) (block b file i) := by
  have hlen : (segPacket b file i).length ≤ maxPacketSize := by
    have := length_block_le b file i
    rw [segPacket, length_dataPacket]
    unfold maxPacketSize
    unfold maxBlockSize at hb
    omega
  rw [WriteRequest.step, recvInto_of_le hlen, segPacket, header_dataPacket]
  simp [Opcode.toU16]

/-- **The invariant of the receive loop**: the first `k` blocks have been appended. -/
inductive WriteAt (q : WriteRequest) (b : Nat) (file : Bytes) (k : Nat) : WriteStatus → Prop where
  | receiving (s : ReceiveState) (hk : k < blockCount b file)
      (hdata : s.receivedData = file.take (k * b)) (hexp : s.expectedBlock = wire (k + 1)) :
      WriteAt q b file k (.receiving s)
  | commit (s : ReceiveState) (hk : k = blockCount b file) (hdata : s.receivedData = file)
      (hmax : q.maxFileSizeBytes ≠ 0 → file.length ≤ q.maxFileSizeBytes) :
      WriteAt q b file k (.commit s (q.finalData file))
  | ended (e : WriteExit) (s : ReceiveState) (hk : k ≤ blockCount b file)
      (hdata : s.receivedData = file.take (k * b)) : WriteAt q b file k (.ended e s)

theorem WriteAt.le {st : WriteStatus} (h : WriteAt q b file k st) : k ≤ blockCount b file := by
  cases h with
  | receiving s hk hdata hexp => exact Nat.le_of_lt hk
  | commit s hk hdata hmax => exact Nat.le_of_eq hk
  | ended e s hk hdata => exact hk

/-- The received data are the first `k` blocks. -/
theorem WriteAt.receivedData {st : WriteStatus} (hb : 0 < b) (h : WriteAt q b file k st) :
    st.state.receivedData = ((segment b file).take k).flatten := by
  rw [flatten_take_segment file h.le]
  cases h with
  | receiving s hk hdata hexp => exact hdata
  | commit s hk hdata hmax => rw [hk, take_blockCount_mul hb]; exact hdata
  | ended e s hk hdata => exact hdata

theorem WriteAt.length_le {st : WriteStatus} (h : WriteAt q b file k st) :
    st.state.receivedData.length ≤ file.length := by
  cases h with
  | receiving s hk hdata hexp =>
      show s.receivedData.length ≤ _
      rw [hdata]
      exact List.length_take_le' _ _
  | commit s hk hdata hmax => exact Nat.le_of_eq (congrArg List.length hdata)
  | ended e s hk hdata =>
      show s.receivedData.length ≤ _
      rw [hdata]
      exact List.length_take_le' _ _

/-- A block of the file is too much only if the file is. -/
theorem WriteAt.not_fits {s : ReceiveState} (h : WriteAt q b file k (.receiving s))
    (hlarge : q.exceeds s (block b file k)) : ¬ q.Fits file := by
  intro hfits
  cases h with
  | receiving _ hk hdata hexp =>
      have hlen : (s.receivedData ++ block b file k).length ≤ file.length := by
        rw [hdata, take_append_block]
        exact List.length_take_le' _ _
      have hmax := hfits (Nat.pos_iff_ne_zero.mp hlarge.1)
      have hmore := hlarge.2
      rw [List.length_append] at hlen
      omega

/-- A block with another number than the expected one changes nothing that was received. -/
theorem mismatchedBlock_state (s : ReceiveState) (n : UInt16) :
    (mismatchedBlock s n).1 = .receiving s ∨ (mismatchedBlock s n).1 = .ended .outOfOrder s := by
  unfold mismatchedBlock
  simp only
  split_ifs
  · exact Or.inl rfl
  · exact Or.inr rfl

/-- The block after the last accepted one is appended. -/
theorem writeAt_appendBlock {s : ReceiveState} (hb : 0 < b) (hq : q.options.blockSize = b)
    (h : WriteAt q b file k (.receiving s)) (hfit : ¬ q.exceeds s (block b file k)) :
    WriteAt q b file (k + 1) (q.appendBlock s (wire (k + 1)) (block b file k)).1 := by
  cases h with
  | receiving _ hk hdata hexp =>
      have happ : s.receivedData ++ block b file k = file.take ((k + 1) * b) := by
        rw [hdata, take_append_block]
      rw [WriteRequest.appendBlock, happ, hq]
      by_cases hpanic : UInt16.ofNat q.options.windowsize = 0
      · rw [if_pos hpanic]
        exact .ended _ _ hk rfl
      rw [if_neg hpanic]
      -- a short block is the last one, and what has been received is the file
      by_cases hfinal : (block b file k).length < b
      · have hlast := (length_block_lt_iff hb file hk).mp hfinal
        have hall : file.take ((k + 1) * b) = file := by rw [hlast, take_blockCount_mul hb]
        rw [if_pos hfinal, hall]
        refine .commit _ hlast rfl fun hmax => ?_
        have hlen := congrArg List.length happ
        rw [List.length_append, hall] at hlen
        unfold WriteRequest.exceeds at hfit
        omega
      · have hmore : k + 1 < blockCount b file := by
          have := (length_block_lt_iff hb file hk).not.mp hfinal
          omega
        rw [if_neg hfinal, hexp, wire_add_one]
        exact .receiving _ hmore rfl rfl

/-- **Step lemma.** A copy of block `i + 1` that is less than `65536` blocks away from the
expected one keeps the invariant; the count goes up exactly when the block is accepted. -/
theorem WriteAt.step_copy {st : WriteStatus} (hb : 8 ≤ b ∧ b ≤ 65464)
    (hq : q.options.blockSize = b) (h : WriteAt q b file k st) {i : Nat}
    (hnear : i < k + 65536 ∧ k < i + 65536) :
    WriteAt q b file (k + if q.accepts b file i st then 1 else 0)
      (q.step st (.datagram (segPacket b file i))).1 := by
  cases hst : st with
  | commit s final =>
      subst hst
      simpa [WriteRequest.accepts, WriteRequest.step] using h
  | ended e s =>
      subst hst
      simpa [WriteRequest.accepts, WriteRequest.step] using h
  | receiving s =>
      subst hst
      rw [step_segPacket hb.2, WriteRequest.receiveData]
      have hstate := h
      cases hstate with
      | receiving _ hk hdata hexp =>
          by_cases hne : wire (i + 1) = s.expectedBlock
          -- within a cycle the number tells which block it is
          · have hik : i = k := by
              rw [hexp, wire_inj (by omega) (by omega)] at hne
              omega
            subst hik
            by_cases hfit : q.exceeds s (block b file i)
            · have hacc : ¬ q.accepts b file i (.receiving s) := fun hacc => hacc.2 hfit
              rw [if_neg hacc, if_neg (by simpa using hne), if_pos hfit]
              exact .ended _ _ (by omega) hdata
            · have hacc : q.accepts b file i (.receiving s) := ⟨hne, hfit⟩
              rw [if_pos hacc, if_neg (by simpa using hne), if_neg hfit]
              exact writeAt_appendBlock (by omega) hq h hfit
          · have hacc : ¬ q.accepts b file i (.receiving s) := fun hacc => hne hacc.1
            rw [if_neg hacc, if_pos hne, Nat.add_zero]
            rcases mismatchedBlock_state s (wire (i + 1)) with hm | hm
            · rw [hm]; exact h
            · rw [hm]; exact .ended _ _ (by omega) hdata

theorem writeAt_start (order : IterOrder) :
    WriteAt q b file 0 (handleWriteRequest q order).start.1 :=
  .receiving _ (blockCount_pos b file) (by simp) rfl

end Blocks

/-- The runs of the loop in which copies of blocks of `file` and junk are delivered, each
with the number of blocks accepted so far. A copy of absolute block `j` must arrive when
fewer than `65536` blocks lie between it and the expected one. -/
inductive Delivered (q : WriteRequest) (order : IterOrder) (b : Nat) (file : Bytes) :
    Nat → WriteStatus → Prop where
  | start : Delivered q order b file 0 (handleWriteRequest q order).start.1
  | copy (k : Nat) (st : WriteStatus) (j : Nat) (h : Delivered q order b file k st)
      (hj : 1 ≤ j ∧ j ≤ blockCount b file) (hnear : j < k + 1 + 65536 ∧ k + 1 < j + 65536) :
      Delivered q order b file (k + if q.accepts b file (j - 1) st then 1 else 0)
        ((handleWriteRequest q order).step st (.datagram (segPacket b file (j - 1)))).1
  | junk (k : Nat) (st : WriteStatus) (d : Bytes) (h : Delivered q order b file k st)
      (hd : Junk d) :
      Delivered q order b file k ((handleWriteRequest q order).step st (.datagram d)).1

theorem Delivered.writeAt {q : WriteRequest} {order : IterOrder} {b : Nat} {file : Bytes}
    {k : Nat} {st : WriteStatus} (hb : 8 ≤ b ∧ b ≤ 65464) (hq : q.options.blockSize = b)
    (h : Delivered q order b file k st) : WriteAt q b file k st := by
  induction h with
  | start => exact writeAt_start order
  | copy k st j _ hj hnear ih => exact ih.step_copy hb hq (by omega)
  | junk k st d _ hd ih =>
      cases st with
      | receiving s => simpa only [handleWriteRequest, step_junk hd] using ih
      | commit s final => exact ih
      | ended e s => exact ih

/-- **Write commit exactness.** In every run of deliveries a duplicate leaves the received
data and the expected number as they are, and when the loop reaches the write step the
received data are the file, which is within the size limit, and what is written is the file
or its NETASCII decoding, which is not longer. -/
theorem write_commit_exact (q : WriteRequest) (order : IterOrder) (b : Nat) (file : Bytes)
    (hb : 8 ≤ b ∧ b ≤ 65464) (hq : q.options.blockSize = b) (k : Nat) (st : WriteStatus)
    (h : Delivered q order b file k st) :
    (∀ j, 1 ≤ j → j ≤ k → k + 1 < j + 65536 →
      ((handleWriteRequest q order).step st (.datagram (segPacket b file (j - 1)))).1.state
        = st.state) ∧
    ∀ s final, st = .commit s final →
      s.receivedData = file ∧
      (q.maxFileSizeBytes ≠ 0 → file.length ≤ q.maxFileSizeBytes) ∧
      final = (if q.mode = .netascii then convertFromNetascii file else file) ∧
      final.length ≤ file.length := by
  have hat := h.writeAt hb hq
  constructor
  · intro j hj hjk hnear
    cases hat with
    | commit s hk hdata hmax => rfl
    | ended e s hk hdata => rfl
    | receiving s hk hdata hexp =>
        -- a block that was accepted is not the expected one again
        have hne : wire (j - 1 + 1) ≠ s.expectedBlock := by
          rw [hexp, ne_eq, wire_inj (by omega) (by omega)]
          omega
        show (q.step (.receiving s) (.datagram (segPacket b file (j - 1)))).1.state = s
        rw [step_segPacket hb.2, WriteRequest.receiveData, if_pos hne]
        rcases mismatchedBlock_state s (wire (j - 1 + 1)) with hm | hm
        · rw [hm]; rfl
        · rw [hm]; rfl
  · intro s final hst
    subst hst
    cases hat with
    | commit _ hk hdata hmax =>
        refine ⟨hdata, hmax, rfl, ?_⟩
        rw [WriteRequest.finalData]
        split_ifs
        · exact length_convertFromNetascii_le file
        · exact Nat.le_refl _

/-- Eight bytes in blocks of eight: the first block, its duplicate, an ACK packet that is
skipped, and the empty final block. -/
theorem write_commit_exact_eight :
    let q : WriteRequest := ⟨.octet, { blockSize := 8 }, ∅, 8⟩
    let file : Bytes := List.replicate 8 65
    ∃ s final, Delivered q .entries 8 file 2 (.commit s final) ∧ s.receivedData = file ∧
      final = file := by
  intro q file
  have h1 : Delivered q .entries 8 file 1 (.receiving ⟨file, 2⟩) :=
    Delivered.copy 0 (.receiving {}) 1 .start (by decide) (by decide)
  have hdup : ((handleWriteRequest q .entries).step (.receiving ⟨file, 2⟩)
      (.datagram (segPacket 8 file (1 - 1)))).1 = .receiving ⟨file, 2⟩ := by decide +kernel
  have h2 := Delivered.copy 1 (.receiving ⟨file, 2⟩) 1 h1 (by decide) (by decide)
  rw [if_neg (by decide), hdup] at h2
  have h3 : Delivered q .entries 8 file 1 (.receiving ⟨file, 2⟩) :=
    Delivered.junk 1 (.receiving ⟨file, 2⟩) (ackPacket 7) h2 (by
      intro o f r h
      rw [header_ackPacket] at h
      cases h
      decide)
  have h4 : Delivered q .entries 8 file 2 (.commit ⟨file, 2⟩ file) :=
    Delivered.copy 1 (.receiving ⟨file, 2⟩) 2 h3 (by decide) (by decide)
  obtain ⟨hdata, -, hfinal, -⟩ :=
    (write_commit_exact q .entries 8 file (by decide) rfl 2 _ h4).2 _ _ rfl
  exact ⟨_, _, h4, hdata, hfinal⟩

end UsgTftp
