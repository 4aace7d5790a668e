import UsgTftp.Main.Netascii
import UsgTftp.Server.Success

set_option autoImplicit false

/-! # The senders of `src/main.rs`

`send_file_data_buffered` and `send_file_data_streaming` of the second server program, as
reactive machines like those of `Server/Send.lean`. The waits, the branch for an empty file and
the loops over an acknowledged window have the same text in both programs, and so their models
are shared. The rest differs: here a window has no empty block. The empty block that ends a file
of whole blocks is sent after the loop, once, and in NETASCII mode the streaming sender converts
each read by itself and cuts its blocks out of a spillover buffer.
-/

namespace UsgTftp.Main

open Reactive

/-! ## States -/

/-- What a sender waits for on the socket. -/
inductive Waiting (σ : Type) where
  /-- The last block of a window. -/
  | window (s : σ)
  /-- The empty block after the last window. -/
  | emptyBlock (blockNum : UInt16)
  deriving DecidableEq, Repr

/-- `send empty final DATA`. -/
def sendEmptyBlock {σ : Type} (blockNum : UInt16) : SendStatus (Waiting σ) × List Bytes :=
  (.awaiting (.emptyBlock blockNum), [dataPacket blockNum []])

/-- The block is not sent again: an acknowledgement that is behind it ends the function too, and
an error is returned. -/
def awaitEmptyBlock {σ : Type} (blockNum : UInt16) (r : Recv) : SendStatus (Waiting σ) :=
  match waitForAckWithDuplicateHandling blockNum r with
  | .ok _ => .done .loopEnded
  | .error e => .done (.failed e)

/-! ## `send_file_data_buffered` -/

structure BufferedState where
  offset : Nat
  blockNum : UInt16
  windowPackets : List WindowPacket
  retries : Nat
  deriving DecidableEq, Repr

/-- The loop that builds a window, with `room` packets still to come. -/
def buildWindowBuffered (fileData : Bytes) (blockSize : Nat) :
    Nat → Nat → UInt16 → List WindowPacket
  | 0, _, _ => []
  | room + 1, tempOffset, tempBlockNum =>
      if tempOffset < fileData.length then
        let bytesToSend := min blockSize (fileData.length - tempOffset)
        let blockData := (fileData.drop tempOffset).take bytesToSend
        let entry := ⟨tempBlockNum, dataPacket tempBlockNum blockData, bytesToSend⟩
        if bytesToSend < blockSize then [entry]
        else
          entry :: buildWindowBuffered fileData blockSize room (tempOffset + bytesToSend)
            (tempBlockNum + 1)
      else []

def sendWindowBuffered (s : BufferedState) : SendStatus (Waiting BufferedState) × List Bytes :=
  if s.retries ≥ maxRetries then (.done (.maxRetriesExceeded s.blockNum), [])
  else (.awaiting (.window s), s.windowPackets.map (·.packet))

/-- The head of the outer loop, and what stands behind the loop. -/
def nextWindowBuffered (fileData : Bytes) (blockSize windowsize offset : Nat)
    (blockNum : UInt16) : SendStatus (Waiting BufferedState) × List Bytes :=
  if offset < fileData.length then
    let entries := buildWindowBuffered fileData blockSize windowsize offset blockNum
    if entries = [] then (.done .panicked, [])
    else sendWindowBuffered ⟨offset, blockNum, entries, 0⟩
  else sendEmptyBlock blockNum

def sendFileDataBufferedStep (fileData : Bytes) (blockSize windowsize : Nat) :
    SendStatus (Waiting BufferedState) → Recv →
      SendStatus (Waiting BufferedState) × List Bytes
  | .awaitingEmpty retry, r => (awaitEmpty retry r, [])
  | .awaiting (.emptyBlock blockNum), r => (awaitEmptyBlock blockNum r, [])
  | .awaiting (.window s), r =>
      match s.windowPackets.getLast? with
      | none => (.done .panicked, [])
      | some last =>
          match waitForAckWithDuplicateHandling last.blockNum r with
          | .ok true =>
              match advanceBuffered fileData blockSize s.windowPackets s.offset s.blockNum with
              | .inl exit => (.done exit, [])
              | .inr (offset, blockNum) =>
                  nextWindowBuffered fileData blockSize windowsize offset blockNum
          | _ => sendWindowBuffered { s with retries := s.retries + 1 }
  | .done exit, _ => (.done exit, [])

def sendFileDataBuffered (fileData : Bytes) (blockSize windowsize : Nat) :
    Machine (SendStatus (Waiting BufferedState)) Recv Bytes where
  start :=
    if fileData = [] then (.awaitingEmpty 0, [emptyFilePacket])
    else nextWindowBuffered fileData blockSize windowsize 0 1
  step := sendFileDataBufferedStep fileData blockSize windowsize
  running := SendStatus.running

/-! ## `send_file_data_streaming` -/

/-- The variables of the loop that builds a window; `cursor` is the position of the file
handle. -/
structure StreamWindow where
  windowPackets : List StreamPacket
  cursor : Nat
  spillover : Bytes
  blockNum : UInt16
  eofReached : Bool
  deriving DecidableEq, Repr

/-- The packet goes in front of those that the rest of the loop makes. -/
def StreamWindow.push (entry : StreamPacket) (w : StreamWindow) : StreamWindow :=
  { w with windowPackets := entry :: w.windowPackets }

/-- A packet of `window_packets`. -/
def streamPacketOf (blockNum : UInt16) (blockData : Bytes) (isFinal : Bool) : StreamPacket :=
  ⟨blockNum, dataPacket blockNum blockData, blockData.length, isFinal⟩

/-- The loop at the end of the file over what is left in the buffer. -/
def drainSpillover (blockSize cursor : Nat) : Nat → Bytes → UInt16 → StreamWindow
  | 0, spillover, blockNum => ⟨[], cursor, spillover, blockNum, true⟩
  | room + 1, spillover, blockNum =>
      if spillover = [] then ⟨[], cursor, spillover, blockNum, true⟩
      else
        let (blockData, rest) :=
          if spillover.length > blockSize then
            (spillover.take blockSize, spillover.drop blockSize)
          else (spillover, [])
        let isFinal := decide (blockData.length < blockSize)
        let entry := streamPacketOf blockNum blockData isFinal
        if isFinal then ⟨[entry], cursor, rest, blockNum + 1, true⟩
        else (drainSpillover blockSize cursor room rest (blockNum + 1)).push entry

/-- A read moves the file handle on, but not beyond the end. -/
theorem length_read_pos {file : Bytes} {cursor n : Nat} (h : (file.drop cursor).take n ≠ []) :
    0 < ((file.drop cursor).take n).length ∧
      cursor + ((file.drop cursor).take n).length ≤ file.length := by
  have hpos := List.length_pos_of_ne_nil h
  refine ⟨hpos, ?_⟩
  rw [List.length_take, List.length_drop] at hpos ⊢
  omega

/-- The loop that builds a window, with `room` packets still to come. A read that leaves less
than a block in the buffer makes no packet. -/
def buildWindowStreaming (file : Bytes) (mode : TransferMode) (blockSize : Nat) (room cursor : Nat)
    (spillover : Bytes) (blockNum : UInt16) : StreamWindow :=
  if hroom : room = 0 then ⟨[], cursor, spillover, blockNum, false⟩
  else if mode = .netascii ∧ blockSize ≤ spillover.length then
    (buildWindowStreaming file mode blockSize (room - 1) cursor (spillover.drop blockSize)
      (blockNum + 1)).push (streamPacketOf blockNum (spillover.take blockSize) false)
  else
    let read := (file.drop cursor).take blockSize
    if hread : read = [] then drainSpillover blockSize cursor room spillover blockNum
    else if mode = .netascii then
      let spillover := spillover ++ convertToNetascii read
      if blockSize ≤ spillover.length then
        (buildWindowStreaming file mode blockSize (room - 1) (cursor + read.length)
          (spillover.drop blockSize) (blockNum + 1)).push
          (streamPacketOf blockNum (spillover.take blockSize) false)
      else
        buildWindowStreaming file mode blockSize room (cursor + read.length) spillover blockNum
    else
      let isFinal := decide (read.length < blockSize)
      let entry := streamPacketOf blockNum read isFinal
      if isFinal then ⟨[entry], cursor + read.length, spillover, blockNum + 1, true⟩
      else
        (buildWindowStreaming file mode blockSize (room - 1) (cursor + read.length) spillover
          (blockNum + 1)).push entry
termination_by room + (file.length - cursor)
decreasing_by
  · omega
  all_goals
    have := length_read_pos hread
    omega

structure StreamState where
  window : StreamWindow
  windowStartBlock : UInt16
  bytesTransferred : Nat
  retries : Nat
  deriving DecidableEq, Repr

def sendWindowStreaming (s : StreamState) : SendStatus (Waiting StreamState) × List Bytes :=
  if s.retries ≥ maxRetries then (.done (.maxRetriesExceeded s.windowStartBlock), [])
  else (.awaiting (.window s), s.window.windowPackets.map (·.packet))

/-- The head of the outer loop. -/
def nextWindowStreaming (file : Bytes) (mode : TransferMode) (blockSize windowsize cursor : Nat)
    (spillover : Bytes) (blockNum : UInt16) (bytesTransferred : Nat) :
    SendStatus (Waiting StreamState) × List Bytes :=
  let window := buildWindowStreaming file mode blockSize windowsize cursor spillover blockNum
  if window.windowPackets = [] then sendEmptyBlock window.blockNum
  else sendWindowStreaming ⟨window, blockNum, bytesTransferred, 0⟩

def sendFileDataStreamingStep (file : Bytes) (mode : TransferMode) (blockSize windowsize : Nat) :
    SendStatus (Waiting StreamState) → Recv → SendStatus (Waiting StreamState) × List Bytes
  | .awaitingEmpty retry, r => (awaitEmpty retry r, [])
  | .awaiting (.emptyBlock blockNum), r => (awaitEmptyBlock blockNum r, [])
  | .awaiting (.window s), r =>
      match s.window.windowPackets.getLast? with
      | none => (.done .panicked, [])
      | some last =>
          match waitForAckWithDuplicateHandling last.blockNum r with
          | .ok true =>
              match advanceStreaming s.window.windowPackets s.bytesTransferred with
              | .inl exit => (.done exit, [])
              | .inr bytesTransferred =>
                  if s.window.eofReached then sendEmptyBlock s.window.blockNum
                  else nextWindowStreaming file mode blockSize windowsize s.window.cursor
                    s.window.spillover s.window.blockNum bytesTransferred
          | _ => sendWindowStreaming { s with retries := s.retries + 1 }
  | .done exit, _ => (.done exit, [])

def sendFileDataStreaming (file : Bytes) (fileSize : Nat) (mode : TransferMode)
    (blockSize windowsize : Nat) : Machine (SendStatus (Waiting StreamState)) Recv Bytes where
  start :=
    if fileSize = 0 then (.awaitingEmpty 0, [emptyFilePacket])
    else nextWindowStreaming file mode blockSize windowsize 0 [] 1 0
  step := sendFileDataStreamingStep file mode blockSize windowsize
  running := SendStatus.running

end UsgTftp.Main
