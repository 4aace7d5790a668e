import UsgTftp.Lib.Reactive
import UsgTftp.Netascii

set_option autoImplicit false

/-! # The server's senders

`send_file_data_buffered` and `send_file_data_streaming` of `src/bin/server.rs` with the two
functions they wait for acknowledgements in. Each sender is a reactive machine: its states
are the points at which the function waits on the socket, its inputs the results of those
waits and its outputs the datagrams it sends. Sends succeed.

Each way out of a sender is a constructor of `SendExit`; `completed` is the exit at which
`transfer_completed` is logged.
-/

namespace UsgTftp

open Reactive

/-! ## Waiting for acknowledgements -/

/-- `wait_for_ack_with_duplicate_handling`: `ok true` on the expected number, `ok false` on
one that is behind it in the sixteen-bit circle. -/
def waitForAckWithDuplicateHandling (expectedBlock : UInt16) : Recv → Except TftpError Bool
  | .datagram d =>
      match header (recvInto 16 d) with
      | none => .error (.tftp "Invalid ACK packet")
      | some (opcode, field, rest) =>
          if opcode = Opcode.error.toU16 then
            .error (.tftp s!"Client sent error {field}: {parseStringOrDefault rest}")
          else if opcode ≠ Opcode.ack.toU16 then .error (.tftp "Unexpected opcode")
          else if field = expectedBlock then .ok true
          else if 0 < expectedBlock - field ∧ expectedBlock - field < 32768 then .ok false
          else .error (.tftp "ACK out of sequence")
  | .error message => .error (.io message)
  | .timeout => .error (.tftp s!"Timeout waiting for ACK of block {expectedBlock}")

/-- One turn of the loop of `wait_for_ack`. -/
inductive AckTurn where
  | accepted
  | failed (e : TftpError)
  | again
  deriving DecidableEq, Repr

/-- The body of the loop of `wait_for_ack`: only the expected number and an ERROR packet end
it. -/
def waitForAckTurn (expectedBlock : UInt16) : Recv → AckTurn
  | .datagram d =>
      match header (recvInto 16 d) with
      | none => .again
      | some (opcode, field, rest) =>
          if opcode = Opcode.error.toU16 then
            .failed (.tftp s!"Client sent error {field}: {parseStringOrDefault rest}")
          else if opcode ≠ Opcode.ack.toU16 then .again
          else if field = expectedBlock then .accepted
          else .again
  | .error _ => .again
  | .timeout => .again

/-- `wait_for_ack` in turn `retry` of its `maxRetries` turns. -/
def waitForAck (expectedBlock : UInt16) (retry : Nat) (r : Recv) : AckTurn :=
  match waitForAckTurn expectedBlock r with
  | .again =>
      if retry + 1 < maxRetries then .again
      else .failed (.tftp s!"Timeout waiting for ACK of block {expectedBlock}")
  | turn => turn

/-! ## States and exits of a sender -/

inductive SendExit where
  /-- The final block was acknowledged: `transfer_completed` with the bytes and the number of
  the final block. -/
  | completed (bytes : Nat) (blocks : UInt16)
  /-- `Max retries exceeded for window starting at block ..`; the function returns `Ok`. -/
  | maxRetriesExceeded (windowStartBlock : UInt16)
  /-- The outer loop ended without a final block. -/
  | loopEnded
  | failed (e : TftpError)
  /-- `window_packets.last().unwrap()` on an empty window. -/
  | panicked
  deriving DecidableEq, Repr

inductive SendStatus (σ : Type) where
  /-- Waiting in `wait_for_ack` for the single block of an empty file. -/
  | awaitingEmpty (retry : Nat)
  /-- Waiting for the last block of a window. -/
  | awaiting (s : σ)
  | done (e : SendExit)
  deriving DecidableEq, Repr

def SendStatus.running {σ : Type} : SendStatus σ → Bool
  | .done _ => false
  | _ => true

/-- The branch for an empty file: one packet, which is not sent again. -/
def awaitEmpty {σ : Type} (retry : Nat) (r : Recv) : SendStatus σ :=
  match waitForAck 1 retry r with
  | .accepted => .done (.completed 0 1)
  | .failed e => .done (.failed e)
  | .again => .awaitingEmpty (retry + 1)

/-- The empty DATA packet an empty file is sent as. -/
def emptyFilePacket : Bytes := dataPacket 1 []

/-! ## `send_file_data_buffered` -/

/-- An entry of `window_packets`. -/
structure WindowPacket where
  blockNum : UInt16
  packet : Bytes
  bytesToSend : Nat
  deriving DecidableEq, Repr

structure BufferedState where
  offset : Nat
  blockNum : UInt16
  eofSent : Bool
  windowPackets : List WindowPacket
  retries : Nat
  deriving DecidableEq, Repr

/-- The loop that builds a window, with `room` packets still to come; the flag is
`eof_sent`. -/
def buildWindowBuffered (fileData : Bytes) (blockSize : Nat) :
    Nat → Nat → UInt16 → List WindowPacket × Bool
  | 0, _, _ => ([], false)
  | room + 1, tempOffset, tempBlockNum =>
      if tempOffset ≤ fileData.length then
        let bytesToSend := min blockSize (fileData.length - tempOffset)
        let blockData :=
          if tempOffset < fileData.length then (fileData.drop tempOffset).take bytesToSend else []
        let entry := ⟨tempBlockNum, dataPacket tempBlockNum blockData, bytesToSend⟩
        if bytesToSend < blockSize then ([entry], true)
        else
          let (entries, eofSent) :=
            buildWindowBuffered fileData blockSize room (tempOffset + bytesToSend)
              (tempBlockNum + 1)
          (entry :: entries, eofSent)
      else ([], false)

/-- The head of the retry loop: give up, or send the window and wait. -/
def sendWindowBuffered (s : BufferedState) : SendStatus BufferedState × List Bytes :=
  if s.retries ≥ maxRetries then (.done (.maxRetriesExceeded s.blockNum), [])
  else (.awaiting s, s.windowPackets.map (·.packet))

/-- The head of the outer loop: build the next window and enter the retry loop. -/
def nextWindowBuffered (fileData : Bytes) (blockSize windowsize offset : Nat) (blockNum : UInt16)
    (eofSent : Bool) : SendStatus BufferedState × List Bytes :=
  if offset ≤ fileData.length ∧ eofSent = false then
    let (entries, eofSent) := buildWindowBuffered fileData blockSize windowsize offset blockNum
    if entries = [] then (.done .panicked, [])
    else sendWindowBuffered ⟨offset, blockNum, eofSent, entries, 0⟩
  else (.done .loopEnded, [])

/-- The loop over an acknowledged window: return at the final block, else move on. -/
def advanceBuffered (fileData : Bytes) (blockSize : Nat) :
    List WindowPacket → Nat → UInt16 → SendExit ⊕ (Nat × UInt16)
  | [], offset, blockNum => .inr (offset, blockNum)
  | entry :: entries, offset, _ =>
      if entry.bytesToSend < blockSize then .inl (.completed fileData.length entry.blockNum)
      else advanceBuffered fileData blockSize entries (offset + entry.bytesToSend)
        (entry.blockNum + 1)

def sendFileDataBufferedStep (fileData : Bytes) (blockSize windowsize : Nat) :
    SendStatus BufferedState → Recv → SendStatus BufferedState × List Bytes
  | .awaitingEmpty retry, r => (awaitEmpty retry r, [])
  | .awaiting s, r =>
      match s.windowPackets.getLast? with
      | none => (.done .panicked, [])
      | some last =>
          match waitForAckWithDuplicateHandling last.blockNum r with
          | .ok true =>
              match advanceBuffered fileData blockSize s.windowPackets s.offset s.blockNum with
              | .inl exit => (.done exit, [])
              | .inr (offset, blockNum) =>
                  nextWindowBuffered fileData blockSize windowsize offset blockNum s.eofSent
          | _ => sendWindowBuffered { s with retries := s.retries + 1 }
  | .done exit, _ => (.done exit, [])

def sendFileDataBuffered (fileData : Bytes) (blockSize windowsize : Nat) :
    Machine (SendStatus BufferedState) Recv Bytes where
  start :=
    if fileData = [] then (.awaitingEmpty 0, [emptyFilePacket])
    else nextWindowBuffered fileData blockSize windowsize 0 1 false
  step := sendFileDataBufferedStep fileData blockSize windowsize
  running := SendStatus.running

/-! ## `send_file_data_streaming` -/

/-- An entry of `window_packets`. -/
structure StreamPacket where
  blockNum : UInt16
  packet : Bytes
  bytesSent : Nat
  isFinal : Bool
  deriving DecidableEq, Repr

/-- `cursor` is the position of the file handle; `windowStartBlock` and `blockNum` are the
numbers of the first block of the window and of the first block after it. -/
structure StreamState where
  cursor : Nat
  blockNum : UInt16
  windowStartBlock : UInt16
  bytesTransferred : Nat
  eofReached : Bool
  windowPackets : List StreamPacket
  retries : Nat
  deriving DecidableEq, Repr

/-- The data of one block: what was read, converted in NETASCII mode. -/
def blockDataStreaming (mode : TransferMode) (read : Bytes) : Bytes :=
  if mode = .netascii then convertToNetascii read else read

/-- The loop that builds a window, with `room` packets still to come. `File::read` fills the
buffer except at the end of the file. -/
def buildWindowStreaming (file : Bytes) (mode : TransferMode) (blockSize : Nat) :
    Nat → Nat → UInt16 → List StreamPacket × Nat × UInt16 × Bool
  | 0, cursor, blockNum => ([], cursor, blockNum, false)
  | room + 1, cursor, blockNum =>
      let read := (file.drop cursor).take blockSize
      let isFinal := decide (read.length < blockSize)
      let blockData := blockDataStreaming mode read
      let entry := ⟨blockNum, dataPacket blockNum blockData, blockData.length, isFinal⟩
      if isFinal then ([entry], cursor + read.length, blockNum + 1, true)
      else
        let (entries, cursor, blockNum, eofReached) :=
          buildWindowStreaming file mode blockSize room (cursor + read.length) (blockNum + 1)
        (entry :: entries, cursor, blockNum, eofReached)

def sendWindowStreaming (s : StreamState) : SendStatus StreamState × List Bytes :=
  if s.retries ≥ maxRetries then (.done (.maxRetriesExceeded s.windowStartBlock), [])
  else (.awaiting s, s.windowPackets.map (·.packet))

/-- The head of the outer loop. After the end of the file the window is empty and the loop
ends. -/
def nextWindowStreaming (file : Bytes) (mode : TransferMode) (blockSize windowsize cursor : Nat)
    (blockNum : UInt16) (bytesTransferred : Nat) (eofReached : Bool) :
    SendStatus StreamState × List Bytes :=
  let (entries, cursor, nextBlockNum, eofReached) :=
    if eofReached then ([], cursor, blockNum, true)
    else buildWindowStreaming file mode blockSize windowsize cursor blockNum
  if entries = [] then (.done .loopEnded, [])
  else
    sendWindowStreaming ⟨cursor, nextBlockNum, blockNum, bytesTransferred, eofReached, entries, 0⟩

/-- The loop over an acknowledged window. -/
def advanceStreaming : List StreamPacket → Nat → SendExit ⊕ Nat
  | [], bytesTransferred => .inr bytesTransferred
  | entry :: entries, bytesTransferred =>
      if entry.isFinal then .inl (.completed (bytesTransferred + entry.bytesSent) entry.blockNum)
      else advanceStreaming entries (bytesTransferred + entry.bytesSent)

def sendFileDataStreamingStep (file : Bytes) (mode : TransferMode) (blockSize windowsize : Nat) :
    SendStatus StreamState → Recv → SendStatus StreamState × List Bytes
  | .awaitingEmpty retry, r => (awaitEmpty retry r, [])
  | .awaiting s, r =>
      match s.windowPackets.getLast? with
      | none => (.done .panicked, [])
      | some last =>
          match waitForAckWithDuplicateHandling last.blockNum r with
          | .ok true =>
              match advanceStreaming s.windowPackets s.bytesTransferred with
              | .inl exit => (.done exit, [])
              | .inr bytesTransferred =>
                  if s.eofReached then (.done .loopEnded, [])
                  else nextWindowStreaming file mode blockSize windowsize s.cursor s.blockNum
                    bytesTransferred s.eofReached
          | _ => sendWindowStreaming { s with retries := s.retries + 1 }
  | .done exit, _ => (.done exit, [])

/-- `file_size` is the size the metadata gave. -/
def sendFileDataStreaming (file : Bytes) (fileSize : Nat) (mode : TransferMode)
    (blockSize windowsize : Nat) : Machine (SendStatus StreamState) Recv Bytes where
  start :=
    if fileSize = 0 then (.awaitingEmpty 0, [emptyFilePacket])
    else nextWindowStreaming file mode blockSize windowsize 0 1 0 false
  step := sendFileDataStreamingStep file mode blockSize windowsize
  running := SendStatus.running

/-! ## The acknowledgement waits, by what was received -/

/-- `r` is an ACK packet that carries the number `n`. -/
def IsAck (n : UInt16) (r : Recv) : Prop :=
  ∃ d rest, r = .datagram d ∧ header d = some (Opcode.ack.toU16, n, rest)

/-- **The wait succeeds exactly on the expected acknowledgement.** -/
theorem waitForAckWithDuplicateHandling_eq_ok_true_iff (n : UInt16) (r : Recv) :
    waitForAckWithDuplicateHandling n r = .ok true ↔ IsAck n r := by
  cases r with
  | error m => simp [waitForAckWithDuplicateHandling, IsAck]
  | timeout => simp [waitForAckWithDuplicateHandling, IsAck]
  | datagram d =>
      simp only [waitForAckWithDuplicateHandling, header_recvInto (by omega : 4 ≤ 16), IsAck]
      cases hh : header d with
      | none => simp [hh]
      | some v =>
          obtain ⟨opcode, field, rest⟩ := v
          simp only [Option.map_some]
          by_cases he : opcode = Opcode.error.toU16
          · subst he; simp [hh, Opcode.toU16]
          · by_cases ha : opcode = Opcode.ack.toU16
            · subst ha
              by_cases hf : field = n
              · subst hf; simp [hh, he]
              · simp only [he, hf, ne_eq, not_true_eq_false, if_false]
                split <;> simp [hh, hf]
            · simp [hh, he, ha]

theorem waitForAckTurn_eq_accepted_iff (n : UInt16) (r : Recv) :
    waitForAckTurn n r = .accepted ↔ IsAck n r := by
  cases r with
  | error m => simp [waitForAckTurn, IsAck]
  | timeout => simp [waitForAckTurn, IsAck]
  | datagram d =>
      simp only [waitForAckTurn, header_recvInto (by omega : 4 ≤ 16), IsAck]
      cases hh : header d with
      | none => simp [hh]
      | some v =>
          obtain ⟨opcode, field, rest⟩ := v
          simp only [Option.map_some]
          by_cases he : opcode = Opcode.error.toU16
          · subst he; simp [hh, Opcode.toU16]
          · by_cases ha : opcode = Opcode.ack.toU16
            · subst ha
              by_cases hf : field = n
              · subst hf; simp [hh, he]
              · simp [hh, he, hf]
            · simp [hh, he, ha]

theorem isAck_ackPacket {m n : UInt16} : IsAck m (.datagram (ackPacket n)) ↔ m = n := by
  constructor
  · rintro ⟨d, rest, hd, hh⟩
    cases hd
    rw [header_ackPacket] at hh
    cases hh
    rfl
  · rintro rfl
    exact ⟨_, _, rfl, header_ackPacket _⟩

theorem not_isAck_timeout (n : UInt16) : ¬IsAck n .timeout := by
  rintro ⟨d, rest, h, -⟩
  cases h

theorem waitForAck_ack (n : UInt16) (retry : Nat) :
    waitForAck n retry (.datagram (ackPacket n)) = .accepted := by
  have h := (waitForAckTurn_eq_accepted_iff n _).mpr (isAck_ackPacket.mpr rfl)
  rw [waitForAck, h]

end UsgTftp
