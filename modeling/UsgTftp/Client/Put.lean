import UsgTftp.Client.Get

set_option autoImplicit false

/-! # The client's upload

`TftpClient::put` of `src/bin/client.rs`: the WRQ of `send_wrq`, the wait for ACK `0` or an
OACK, and the loop that sends one block and waits for its ACK. The socket is connected to
`server_addr`, so that every packet goes there and only packets from there arrive. Reads of the
local file succeed and fill the buffer except at the end of the file, and sends succeed.

`get_u16` panics on fewer than two remaining bytes, and here no check of the length comes
before it.
-/

namespace UsgTftp

open Reactive Segment SeqNum

/-! ## The request -/

/-- `send_wrq`: the options of the read request, and always the size of the file. -/
def TftpClient.wrqPacket (c : TftpClient) (remoteFile : String) (fileSize : Nat) : Bytes :=
  putU16 Opcode.wrq.toU16 ++ (cstring remoteFile ++ (cstring c.mode.modeStr ++
    (c.optionBytes ++ (cstring "tsize" ++ cstring fileSize.repr))))

/-! ## The two waits -/

inductive PutStatus where
  /-- Waiting for ACK `0` or an OACK. -/
  | awaitingStart
  /-- Waiting for the ACK of the block `data`; `rest` is what follows it in the file. -/
  | awaitingAck (blockNum : UInt16) (data rest : Bytes) (retries : Nat)
  | returned (result : Except ClientError Unit)
  /-- `get_u16` past the end of a packet. -/
  | panicked

def PutStatus.running : PutStatus → Bool
  | .awaitingStart => true
  | .awaitingAck _ _ _ _ => true
  | _ => false

/-- The length of the receive buffer. -/
def putBufferSize : Nat := 1024

/-- The head of the data loop: read the next block and send it. At the end of the file the
loop is left. -/
def TftpClient.putNext (c : TftpClient) (blockNum : UInt16) (rest : Bytes) :
    PutStatus × List Bytes :=
  let data := rest.take c.blockSize
  if data = [] then (.returned (.ok ()), [])
  else (.awaitingAck blockNum data (rest.drop c.blockSize) 0, [dataPacket blockNum data])

/-- The first packet of the server. -/
def TftpClient.putStart (c : TftpClient) (file : Bytes) (buf : Bytes) : PutStatus × List Bytes :=
  match getU16 buf with
  | none => (.panicked, [])
  | some (opcode, bytes) =>
      match Opcode.fromU16 opcode with
      | some .ack =>
          match getU16 bytes with
          | none => (.panicked, [])
          | some (blockNum, _) =>
              if blockNum ≠ 0 then
                (.returned (.error (.tftp s!"Expected ACK 0, got {blockNum}")), [])
              else c.putNext 1 file
      | some .oack => c.putNext 1 file
      | some .error =>
          match getU16 bytes with
          | none => (.panicked, [])
          | some (errorCode, text) => (.returned (.error (.server errorCode text)), [])
      | _ => (.returned (.error (.tftp s!"Unexpected opcode: {opcode}")), [])

/-- What a packet is to the client while it waits for the ACK of a block. -/
inductive PutReply where
  | acked
  | failed (e : ClientError)
  /-- Another packet: the block is sent again, and this is not counted. -/
  | other
  | panicked
  deriving DecidableEq, Repr

def putReply (blockNum : UInt16) (buf : Bytes) : PutReply :=
  match getU16 buf with
  | none => .panicked
  | some (opcode, bytes) =>
      match Opcode.fromU16 opcode with
      | some .ack =>
          match getU16 bytes with
          | none => .panicked
          | some (ackBlock, _) => if ackBlock = blockNum then .acked else .other
      | some .error =>
          match getU16 bytes with
          | none => .panicked
          | some (errorCode, text) => .failed (.server errorCode text)
      | _ => .other

def TftpClient.putStep (c : TftpClient) (file : Bytes) :
    PutStatus → Recv → PutStatus × List Bytes
  | .awaitingStart, .datagram d => c.putStart file (recvInto putBufferSize d)
  | .awaitingStart, .error message => (.returned (.error (.io message)), [])
  | .awaitingStart, .timeout => (.returned (.error (.tftp "Timeout waiting for ACK")), [])
  | .awaitingAck blockNum data rest retries, .datagram d =>
      match putReply blockNum (recvInto putBufferSize d) with
      | .acked =>
          if data.length < c.blockSize then (.returned (.ok ()), [])
          else c.putNext (blockNum + 1) rest
      | .failed e => (.returned (.error e), [])
      | .other => (.awaitingAck blockNum data rest retries, [dataPacket blockNum data])
      | .panicked => (.panicked, [])
  | .awaitingAck _ _ _ _, .error message => (.returned (.error (.io message)), [])
  | .awaitingAck blockNum data rest retries, .timeout =>
      if retries + 1 ≥ maxRetries then (.returned (.error (.tftp "Max retries exceeded")), [])
      else (.awaitingAck blockNum data rest (retries + 1), [dataPacket blockNum data])
  | .returned result, _ => (.returned result, [])
  | .panicked, _ => (.panicked, [])

def TftpClient.put (c : TftpClient) (remoteFile : String) (file : Bytes) :
    Machine PutStatus Recv Bytes where
  start := (.awaitingStart, [c.wrqPacket remoteFile file.length])
  step := c.putStep file
  running := PutStatus.running

/-! ## Blocks -/

section

variable {c : TftpClient} {file : Bytes}

/-- The client sends the blocks of the canonical segmentation, but for the empty block that
ends a file of full blocks. -/
theorem putNext_drop {k : Nat} (hk : k * c.blockSize < file.length) (hb : 0 < c.blockSize) :
    c.putNext (wire (k + 1)) (file.drop (k * c.blockSize))
      = (.awaitingAck (wire (k + 1)) (block c.blockSize file k)
          (file.drop ((k + 1) * c.blockSize)) 0, [segPacket c.blockSize file k]) := by
  have hne : (file.drop (k * c.blockSize)).take c.blockSize ≠ [] := by
    intro h
    have hlen := congrArg List.length h
    rw [List.length_take, List.length_drop, List.length_nil] at hlen
    omega
  unfold TftpClient.putNext
  simp only
  rw [if_neg hne, List.drop_drop, segPacket, block, Nat.succ_mul]

theorem putNext_end {n : UInt16} {rest : Bytes} (h : rest = []) :
    c.putNext n rest = (.returned (.ok ()), []) := by
  unfold TftpClient.putNext
  simp only
  rw [h, List.take_nil, if_pos rfl]

theorem putReply_ackPacket (m n : UInt16) :
    putReply m (ackPacket n) = if n = m then .acked else .other := by
  rw [putReply, getU16_ackPacket]
  simp only [Opcode.fromU16_toU16, getU16_putU16_nil]

end

end UsgTftp
