import UsgTftp.Client.Put
import UsgTftp.Lib.Panic
import UsgTftp.Server.Request
import UsgTftp.Server.Send

set_option autoImplicit false

/-! # Decoding with its bounds

The functions of `src/bin/server.rs`, `src/worker_pool.rs` and `src/bin/client.rs` that decode
what they receive, once more, with the bounds of every access to a buffer and of the arithmetic
on what was read. They are in the namespace `Checked`, under the names of the model, and `none`
is a panic. Each one, but for `putStep`, is shown to give what the model gives: the bounds hold.
-/

namespace UsgTftp

open Posix Path Reactive

namespace Checked

open Panicking

/-! ## Strings -/

/-- The first check of `parse_string`: a long buffer has no NUL in its front. -/
def lacksNul (bytes : Bytes) : Option Bool :=
  if bytes.length > maxStringLength then
    (sliceTo bytes maxStringLength).map fun searchSlice => decide (0 ∉ searchSlice)
  else some false

/-- `parse_string`. -/
def parseString (bytes : Bytes) : Option (Except TftpError (String × Bytes)) := do
  let tooLong ← lacksNul bytes
  if tooLong then some (.error (.tftp "String too long (exceeds 255 bytes)"))
  else
    match bytes.findIdx? (· = 0) with
    | none => some (.error (.tftp "No null terminator found"))
    | some nullPos =>
        if nullPos > maxStringLength then
          some (.error (.tftp "String too long (exceeds 255 bytes)"))
        else do
          let (stringBytes, bytes) ← splitTo bytes nullPos
          let bytes ← advance bytes 1
          match fromUtf8 stringBytes with
          | none => some (.error (.tftp "Invalid UTF-8"))
          | some s => some (.ok (s, bytes))

/-- `parse_string(..).unwrap_or_default()`. -/
def parseStringOrDefault (bytes : Bytes) : Option String := do
  match ← parseString bytes with
  | .ok (s, _) => some s
  | .error _ => some ""

/-- The loop of `parse_null_terminated_string`, which reads byte after byte. The number of
bytes is enough fuel. -/
def parseNullTerminatedStringLoop :
    Nat → Bytes → Bytes → Option (Except TftpError (String × Bytes))
  | 0, _, _ => some (.error (.tftp "Missing null terminator"))
  | fuel + 1, bytes, result =>
      if bytes.length > 0 then do
        let (byte, bytes) ← getFirst bytes
        if byte = 0 then
          match fromUtf8 result with
          | none => some (.error (.tftp "Invalid UTF-8 in string"))
          | some s => some (.ok (s, bytes))
        else parseNullTerminatedStringLoop fuel bytes (result ++ [byte])
      else some (.error (.tftp "Missing null terminator"))

def parseNullTerminatedString (bytes : Bytes) : Option (Except TftpError (String × Bytes)) :=
  parseNullTerminatedStringLoop bytes.length bytes []

/-- The position of a NUL is within the string, and so is the byte behind it. -/
theorem lt_of_findIdx?_zero {bytes : Bytes} {nullPos : Nat}
    (h : bytes.findIdx? (· = 0) = some nullPos) : nullPos < bytes.length :=
  (List.findIdx?_eq_some_iff_getElem.mp h).1

theorem lacksNul_eq (bytes : Bytes) : lacksNul bytes
    = some (decide (bytes.length > maxStringLength ∧ 0 ∉ bytes.take maxStringLength)) := by
  unfold lacksNul
  by_cases hlen : bytes.length > maxStringLength
  · rw [if_pos hlen, sliceTo_eq (Nat.le_of_lt hlen)]
    simp [hlen]
  · rw [if_neg hlen]
    simp [hlen]

theorem parseString_eq (bytes : Bytes) : parseString bytes = some (UsgTftp.parseString bytes) := by
  unfold parseString UsgTftp.parseString
  rw [lacksNul_eq]
  simp only [Option.bind_eq_bind, Option.bind_some, decide_eq_true_eq]
  by_cases hlong : bytes.length > maxStringLength ∧ 0 ∉ bytes.take maxStringLength
  · rw [if_pos hlong, if_pos hlong]
  rw [if_neg hlong, if_neg hlong]
  cases hnul : bytes.findIdx? (· = 0) with
  | none => rfl
  | some nullPos =>
      have hlt := lt_of_findIdx?_zero hnul
      dsimp only
      by_cases hpos : nullPos > maxStringLength
      · rw [if_pos hpos, if_pos hpos]
      · rw [if_neg hpos, if_neg hpos, splitTo_eq (Nat.le_of_lt hlt), Option.bind_some,
          advance_eq (by rw [List.length_drop]; omega), Option.bind_some, List.drop_drop]
        cases fromUtf8 (bytes.take nullPos) with
        | none => rfl
        | some s => rfl

theorem parseStringOrDefault_eq (bytes : Bytes) :
    parseStringOrDefault bytes = some (UsgTftp.parseStringOrDefault bytes) := by
  unfold parseStringOrDefault UsgTftp.parseStringOrDefault
  rw [parseString_eq]
  simp only [Option.bind_eq_bind, Option.bind_some]
  cases UsgTftp.parseString bytes with
  | error e => rfl
  | ok v => rfl

/-- The loop has read `result` so far. -/
theorem parseNullTerminatedStringLoop_eq : ∀ (fuel : Nat) (bytes result : Bytes),
    bytes.length ≤ fuel →
    parseNullTerminatedStringLoop fuel bytes result = some
      (match bytes.findIdx? (· = 0) with
      | none => .error (.tftp "Missing null terminator")
      | some nullPos =>
          match fromUtf8 (result ++ bytes.take nullPos) with
          | none => .error (.tftp "Invalid UTF-8 in string")
          | some s => .ok (s, bytes.drop (nullPos + 1))) := by
  intro fuel
  induction fuel with
  | zero =>
      intro bytes result hfuel
      rw [List.eq_nil_of_length_eq_zero (Nat.le_zero.mp hfuel)]
      rfl
  | succ fuel ih =>
      intro bytes result hfuel
      cases bytes with
      | nil => rfl
      | cons byte bytes =>
          rw [List.length_cons] at hfuel
          rw [parseNullTerminatedStringLoop, if_pos (by rw [List.length_cons]; omega), getFirst]
          simp only [Option.bind_eq_bind, Option.bind_some]
          by_cases hbyte : byte = 0
          · have hfind : (byte :: bytes).findIdx? (· = 0) = some 0 := by
              simp [List.findIdx?_cons, hbyte]
            rw [if_pos hbyte, hfind]
            dsimp only
            rw [List.take_zero, List.append_nil]
            cases fromUtf8 result with
            | none => rfl
            | some s => rfl
          · have hfind : (byte :: bytes).findIdx? (· = 0)
                = (bytes.findIdx? (· = 0)).map (· + 1) := by
              simp [List.findIdx?_cons, hbyte]
            rw [if_neg hbyte, ih bytes _ (by omega), hfind]
            cases bytes.findIdx? (· = 0) with
            | none => rfl
            | some nullPos =>
                simp only [Option.map_some, List.take_succ_cons, List.append_assoc,
                  List.singleton_append, List.drop_succ_cons]

theorem parseNullTerminatedString_eq (bytes : Bytes) :
    parseNullTerminatedString bytes = some (UsgTftp.parseNullTerminatedString bytes) :=
  parseNullTerminatedStringLoop_eq _ bytes [] (le_refl _)

/-! ## Requests -/

/-- A function that reads a string from the front of a buffer and may panic. -/
abbrev StringParser := Bytes → Option (Except TftpError (String × Bytes))

/-- The loop over the option pairs. -/
def parseOptionsLoop (parse : StringParser) : Nat → Bytes → OptionMap → Option OptionMap
  | 0, _, options => some options
  | fuel + 1, bytes, options =>
      if bytes = [] then some options
      else do
        match ← parse bytes with
        | .error _ => some options
        | .ok (optionName, bytes) =>
            match ← parse bytes with
            | .error _ => some options
            | .ok (optionValue, bytes) =>
                parseOptionsLoop parse fuel bytes
                  (options.insert (toLowercase optionName) optionValue)

/-- `parse_request_packet`. -/
def parseRequestPacket (parse : StringParser) (bytes : Bytes) :
    Option (Except TftpError Request) := do
  match ← parse bytes with
  | .error e => some (.error e)
  | .ok (filename, bytes) =>
      match ← parse bytes with
      | .error e => some (.error e)
      | .ok (modeStr, bytes) =>
          (parseOptionsLoop parse bytes.length bytes ∅).map fun options =>
            .ok ⟨filename, modeStr, options⟩

section

variable {parse : StringParser} {total : UsgTftp.StringParser}

theorem parseOptionsLoop_eq (h : ∀ bytes, parse bytes = some (total bytes)) :
    ∀ (fuel : Nat) (bytes : Bytes) (options : OptionMap),
      parseOptionsLoop parse fuel bytes options
        = some (UsgTftp.parseOptionsLoop total fuel bytes options) := by
  intro fuel
  induction fuel with
  | zero => intro bytes options; rfl
  | succ fuel ih =>
      intro bytes options
      rw [parseOptionsLoop, UsgTftp.parseOptionsLoop]
      by_cases hnil : bytes = []
      · rw [if_pos hnil, if_pos hnil]
      rw [if_neg hnil, if_neg hnil, h]
      simp only [Option.bind_eq_bind, Option.bind_some]
      cases total bytes with
      | error e => rfl
      | ok v =>
          obtain ⟨optionName, bytes⟩ := v
          dsimp only
          rw [h, Option.bind_some]
          cases total bytes with
          | error e => rfl
          | ok v => exact ih _ _

theorem parseRequestPacket_eq (h : ∀ bytes, parse bytes = some (total bytes)) (bytes : Bytes) :
    parseRequestPacket parse bytes = some (UsgTftp.parseRequestPacket total bytes) := by
  unfold parseRequestPacket UsgTftp.parseRequestPacket
  rw [h]
  simp only [Option.bind_eq_bind, Option.bind_some]
  cases total bytes with
  | error e => rfl
  | ok v =>
      obtain ⟨filename, bytes⟩ := v
      dsimp only
      rw [h, Option.bind_some, ok_bind]
      dsimp only
      cases total bytes with
      | error e => rfl
      | ok v =>
          dsimp only
          rw [parseOptionsLoop_eq h]
          rfl

end

/-! ## Dispatch -/

section Dispatch

variable (env : Env) (t : Tree) (glob : Glob) (config : ServerConfig) (order : IterOrder)

/-- What a handler gives: of the datagram it reads what the parse of the request reads. -/
def afterParse {α : Type} (parse : StringParser) (bytes : Bytes) (result : α) : Option α :=
  (parseRequestPacket parse bytes).map fun _ => result

def handleClient (data : Bytes) : Option (Except TftpError Dispatch) :=
  if data.length < 2 then some (.error (.tftp "Packet too small"))
  else do
    let (value, bytes) ← getU16 data
    match Opcode.fromU16 value with
    | none => some (.error (.tftp s!"Invalid opcode: {value}"))
    | some .rrq => afterParse parseString bytes (handleClientRrq env t config order bytes)
    | some .wrq => afterParse parseString bytes (handleClientWrq env t glob config order bytes)
    | some _ => some (.ok (.replied .illegalOperation "Unexpected opcode"))

def processTftpPacket (data : Bytes) : Option Dispatch :=
  if data.length < 2 then some (.replied .illegalOperation "Packet too small")
  else do
    let (value, bytes) ← getU16 data
    match Opcode.fromU16 value with
    | none => some (.replied .illegalOperation "Illegal TFTP operation")
    | some .rrq =>
        afterParse parseNullTerminatedString bytes
          (replyError (handleReadRequestWorker env t config order bytes))
    | some .wrq =>
        afterParse parseNullTerminatedString bytes
          (replyError (handleWriteRequestWorker env t config order bytes))
    | some _ => some .ignored

end Dispatch

/-- A fixed-width read fails on fewer than two bytes. -/
theorem getU16_eq_none_iff (d : Bytes) : getU16 d = none ↔ d.length < 2 := by
  match d with
  | [] => simp [getU16]
  | [_] => simp [getU16]
  | _ :: _ :: _ => simp [getU16]

/-- **Two bytes are enough** for the opcode. -/
theorem getU16_guarded {α : Type} (data : Bytes) (short : Option α)
    (f : UInt16 × Bytes → Option α) : (if data.length < 2 then short else (getU16 data).bind f)
      = match getU16 data with
        | none => short
        | some v => f v := by
  cases hread : getU16 data with
  | none => exact if_pos ((getU16_eq_none_iff data).mp hread)
  | some v =>
      have hlen : ¬data.length < 2 := by
        rw [← getU16_eq_none_iff, hread]
        simp
      exact if_neg hlen

section Dispatch

variable {env : Env} {t : Tree} {glob : Glob} {config : ServerConfig} {order : IterOrder}

theorem afterParse_eq {α : Type} {parse : StringParser} {total : UsgTftp.StringParser}
    (h : ∀ bytes, parse bytes = some (total bytes)) (bytes : Bytes) (result : α) :
    afterParse parse bytes result = some result := by
  rw [afterParse, parseRequestPacket_eq h]
  rfl

theorem handleClient_eq (data : Bytes) : handleClient env t glob config order data
    = some (UsgTftp.handleClient env t glob config order data) := by
  unfold handleClient UsgTftp.handleClient
  rw [Option.bind_eq_bind, getU16_guarded]
  cases getU16 data with
  | none => rfl
  | some v =>
      obtain ⟨value, bytes⟩ := v
      dsimp only
      cases Opcode.fromU16 value with
      | none => rfl
      | some opcode =>
          cases opcode with
          | rrq => exact afterParse_eq parseString_eq _ _
          | wrq => exact afterParse_eq parseString_eq _ _
          | data => rfl
          | ack => rfl
          | error => rfl
          | oack => rfl

theorem processTftpPacket_eq (data : Bytes) : processTftpPacket env t config order data
    = some (UsgTftp.processTftpPacket env t config order data) := by
  unfold processTftpPacket UsgTftp.processTftpPacket
  rw [Option.bind_eq_bind, getU16_guarded]
  cases getU16 data with
  | none => rfl
  | some v =>
      obtain ⟨value, bytes⟩ := v
      dsimp only
      cases Opcode.fromU16 value with
      | none => rfl
      | some opcode =>
          cases opcode with
          | rrq => exact afterParse_eq parseNullTerminatedString_eq _ _
          | wrq => exact afterParse_eq parseNullTerminatedString_eq _ _
          | data => rfl
          | ack => rfl
          | error => rfl
          | oack => rfl

end Dispatch

/-! ## Packets with a check of four bytes -/

/-- One receive into a buffer of zeros. What an earlier datagram has left in the buffer is not
read either (`sliceTo_receiveInto`). -/
def recv (bufferSize : Nat) (d : Bytes) : Bytes × Nat := receiveInto (List.replicate bufferSize 0) d

/-- `wait_for_ack_with_duplicate_handling`. -/
def waitForAckWithDuplicateHandling (expectedBlock : UInt16) :
    Recv → Option (Except TftpError Bool)
  | .datagram d =>
      let (ackBuf, size) := recv 16 d
      if size < 4 then some (.error (.tftp "Invalid ACK packet"))
      else do
        let ackBytes ← sliceTo ackBuf size
        let (opcode, ackBytes) ← getU16 ackBytes
        if opcode = Opcode.error.toU16 then do
          let (errorCode, ackBytes) ← getU16 ackBytes
          let errorMsg ← parseStringOrDefault ackBytes
          some (.error (.tftp s!"Client sent error {errorCode}: {errorMsg}"))
        else if opcode ≠ Opcode.ack.toU16 then some (.error (.tftp "Unexpected opcode"))
        else do
          let (ackBlock, _) ← getU16 ackBytes
          if ackBlock = expectedBlock then some (.ok true)
          else if 0 < expectedBlock - ackBlock ∧ expectedBlock - ackBlock < 32768 then
            some (.ok false)
          else some (.error (.tftp "ACK out of sequence"))
  | .error message => some (.error (.io message))
  | .timeout => some (.error (.tftp s!"Timeout waiting for ACK of block {expectedBlock}"))

/-- The body of the loop of `wait_for_ack`. -/
def waitForAckTurn (expectedBlock : UInt16) : Recv → Option AckTurn
  | .datagram d =>
      let (ackBuf, size) := recv 16 d
      if size < 4 then some .again
      else do
        let ackBytes ← sliceTo ackBuf size
        let (opcode, ackBytes) ← getU16 ackBytes
        if opcode = Opcode.error.toU16 then do
          let (errorCode, ackBytes) ← getU16 ackBytes
          let errorMsg ← parseStringOrDefault ackBytes
          some (.failed (.tftp s!"Client sent error {errorCode}: {errorMsg}"))
        else if opcode ≠ Opcode.ack.toU16 then some .again
        else do
          let (ackBlock, _) ← getU16 ackBytes
          if ackBlock = expectedBlock then some .accepted else some .again
  | .error _ => some .again
  | .timeout => do
      -- the retry is compared with this number
      let _ ← sub maxRetries 1
      some .again

/-- `wait_for_ack` in turn `retry`. -/
def waitForAck (expectedBlock : UInt16) (retry : Nat) (r : Recv) : Option AckTurn := do
  match ← waitForAckTurn expectedBlock r with
  | .again =>
      if retry + 1 < maxRetries then some .again
      else some (.failed (.tftp s!"Timeout waiting for ACK of block {expectedBlock}"))
  | turn => some turn

/-- The place of the block in its window, and what the model does with the block. -/
def appendBlock (q : WriteRequest) (s : ReceiveState) (blockNum : UInt16) (data : Bytes) :
    Option (WriteStatus × List Bytes) := do
  let blocksBefore ← rem16 (blockNum - 1) (UInt16.ofNat q.options.windowsize)
  let _ ← add16 blocksBefore 1
  some (q.appendBlock s blockNum data)

def receiveData (q : WriteRequest) (s : ReceiveState) (blockNum : UInt16) (data : Bytes) :
    Option (WriteStatus × List Bytes) :=
  if blockNum ≠ s.expectedBlock then some (mismatchedBlock s blockNum)
  else if q.exceeds s data then
    some (.ended .tooLarge s, [errorPacket .diskFull "File too large"])
  else appendBlock q s blockNum data

/-- The receive loop of `handle_write_request`. -/
def writeStep (q : WriteRequest) : WriteStatus → Recv → Option (WriteStatus × List Bytes)
  | .receiving s, .datagram d =>
      let (buf, size) := recv maxPacketSize d
      if size < 4 then some (.receiving s, [])
      else do
        let dataBytes ← sliceTo buf size
        let (opcode, dataBytes) ← getU16 dataBytes
        if opcode = Opcode.error.toU16 then do
          let (errorCode, dataBytes) ← getU16 dataBytes
          let errorMsg ← parseStringOrDefault dataBytes
          some (.ended (.clientError (.tftp s!"Client sent error {errorCode}: {errorMsg}")) s, [])
        else if opcode ≠ Opcode.data.toU16 then some (.receiving s, [])
        else do
          let (blockNum, blockData) ← getU16 dataBytes
          receiveData q s blockNum blockData
  | st, r => some (q.step st r)

/-- The branch of `get` for a DATA packet. The source takes the address out of `server_tid`
where it sends an acknowledgement; here it is taken out for every block. -/
def getData (c : TftpClient) (s : GetState) (blockNum : UInt16) (data : Bytes) :
    Option (GetStatus × List (SocketAddr × Bytes)) := do
  let tid ← s.serverTid
  some (c.getData s tid blockNum data)

def getPacket (c : TftpClient) (s : GetState) (buf : Bytes) (len : Nat) :
    Option (GetStatus × List (SocketAddr × Bytes)) :=
  if len < 4 then some (.returned (.error (.tftp "Packet too small")) s, [])
  else do
    let bytes ← sliceTo buf len
    let (opcode, bytes) ← getU16 bytes
    match Opcode.fromU16 opcode with
    | some .data => do
        let (blockNum, data) ← getU16 bytes
        getData c s blockNum data
    | some .error => do
        let (errorCode, bytes) ← getU16 bytes
        some (.returned (.error (.server errorCode bytes)) s, [])
    | some .oack => do
        let tid ← s.serverTid
        some (.receiving { s with lastAckSent := 0 }, [(tid, ackPacket 0)])
    | _ => some (.returned (.error (.tftp s!"Unexpected opcode: {opcode}")) s, [])

/-- One turn of the receive loop of `get`. -/
def getStep (c : TftpClient) :
    GetStatus → RecvFrom → Option (GetStatus × List (SocketAddr × Bytes))
  | .receiving s, .datagram d src =>
      let (buf, len) := recv (c.blockSize + 4) d
      match s.serverTid with
      | none => getPacket c { s with serverTid := some src } buf len
      | some tid => if src ≠ tid then some (.receiving s, []) else getPacket c s buf len
  | st, r => some (c.getStep st r)

/-- The panics that the model of `put` has already. -/
def ofPut : PutStatus × List Bytes → Option (PutStatus × List Bytes)
  | (.panicked, _) => none
  | next => some next

/-- One receive of `put`. -/
def putStep (c : TftpClient) (file : Bytes) :
    PutStatus → Recv → Option (PutStatus × List Bytes)
  | st, .datagram d => do
      let (buf, len) := recv putBufferSize d
      let _ ← sliceTo buf len
      ofPut (c.putStep file st (.datagram d))
  | st, r => ofPut (c.putStep file st r)

/-! ## The checks suffice -/

theorem recv_size (n : Nat) (d : Bytes) : (recv n d).2 = (recvInto n d).length := by
  rw [recv, receiveInto_size, List.length_replicate]
  rfl

theorem sliceTo_recv (n : Nat) (d : Bytes) :
    sliceTo (recv n d).1 (recvInto n d).length = some (recvInto n d) := by
  rw [← recv_size, recv, sliceTo_receiveInto, List.length_replicate]
  rfl

/-- **Four bytes are enough** for the two fields that each branch reads. -/
theorem header_cases (d : Bytes) :
    d.length < 4 ∧ header d = none ∨
    ∃ opcode bytes field rest, ¬d.length < 4 ∧ getU16 d = some (opcode, bytes) ∧
      getU16 bytes = some (field, rest) ∧ header d = some (opcode, field, rest) := by
  by_cases hlen : d.length < 4
  · exact Or.inl ⟨hlen, (header_eq_none_iff d).mpr hlen⟩
  · right
    cases hread : getU16 d with
    | none =>
        have := (getU16_eq_none_iff d).mp hread
        omega
    | some v =>
        obtain ⟨opcode, bytes⟩ := v
        cases hfield : getU16 bytes with
        | none =>
            refine absurd ((header_eq_none_iff d).mp ?_) hlen
            simp [header, hread, hfield]
        | some w =>
            obtain ⟨field, rest⟩ := w
            refine ⟨opcode, bytes, field, rest, hlen, rfl, hfield, ?_⟩
            simp [header, hread, hfield]

theorem waitForAckWithDuplicateHandling_eq (expectedBlock : UInt16) (r : Recv) :
    waitForAckWithDuplicateHandling expectedBlock r
      = some (UsgTftp.waitForAckWithDuplicateHandling expectedBlock r) := by
  cases r with
  | error message => rfl
  | timeout => rfl
  | datagram d =>
      unfold waitForAckWithDuplicateHandling UsgTftp.waitForAckWithDuplicateHandling
      simp only [recv_size, sliceTo_recv]
      rcases header_cases (recvInto 16 d) with
        ⟨hlen, hheader⟩ | ⟨opcode, bytes, field, rest, hlen, hread, hfield, hheader⟩
      · rw [if_pos hlen, hheader]
      · rw [if_neg hlen, hheader]
        simp only [Option.bind_eq_bind, Option.bind_some, hread, hfield, parseStringOrDefault_eq]
        split_ifs <;> rfl

theorem waitForAckTurn_eq (expectedBlock : UInt16) (r : Recv) :
    waitForAckTurn expectedBlock r = some (UsgTftp.waitForAckTurn expectedBlock r) := by
  cases r with
  | error message => rfl
  | timeout => rfl
  | datagram d =>
      unfold waitForAckTurn UsgTftp.waitForAckTurn
      simp only [recv_size, sliceTo_recv]
      rcases header_cases (recvInto 16 d) with
        ⟨hlen, hheader⟩ | ⟨opcode, bytes, field, rest, hlen, hread, hfield, hheader⟩
      · rw [if_pos hlen, hheader]
      · rw [if_neg hlen, hheader]
        simp only [Option.bind_eq_bind, Option.bind_some, hread, hfield, parseStringOrDefault_eq]
        split_ifs <;> rfl

theorem waitForAck_eq (expectedBlock : UInt16) (retry : Nat) (r : Recv) :
    waitForAck expectedBlock retry r = some (UsgTftp.waitForAck expectedBlock retry r) := by
  unfold waitForAck UsgTftp.waitForAck
  rw [waitForAckTurn_eq]
  simp only [Option.bind_eq_bind, Option.bind_some]
  cases UsgTftp.waitForAckTurn expectedBlock r with
  | accepted => rfl
  | failed e => rfl
  | again =>
      dsimp only
      split_ifs <;> rfl

/-- A window size that a request can have is not zero as a `u16`. -/
theorem appendBlock_eq {q : WriteRequest}
    (hW : 1 ≤ q.options.windowsize ∧ q.options.windowsize ≤ 65535) (s : ReceiveState)
    (blockNum : UInt16) (data : Bytes) :
    appendBlock q s blockNum data = some (q.appendBlock s blockNum data) := by
  have hzero := ofNat_windowsize_ne_zero hW
  rw [appendBlock, rem16, if_neg hzero]
  simp only [Option.bind_eq_bind, Option.bind_some, add16_rem_one hzero]

theorem writeStep_eq {q : WriteRequest}
    (hW : 1 ≤ q.options.windowsize ∧ q.options.windowsize ≤ 65535) (st : WriteStatus)
    (r : Recv) : writeStep q st r = some (q.step st r) := by
  cases st with
  | commit s finalData => cases r <;> rfl
  | ended e s => cases r <;> rfl
  | receiving s =>
      cases r with
      | error message => rfl
      | timeout => rfl
      | datagram d =>
          unfold writeStep WriteRequest.step
          simp only [recv_size, sliceTo_recv]
          rcases header_cases (recvInto maxPacketSize d) with
            ⟨hlen, hheader⟩ | ⟨opcode, bytes, field, rest, hlen, hread, hfield, hheader⟩
          · rw [if_pos hlen, hheader]
          · rw [if_neg hlen, hheader]
            simp only [Option.bind_eq_bind, Option.bind_some, hread, hfield,
              parseStringOrDefault_eq, receiveData, WriteRequest.receiveData, appendBlock_eq hW]
            split_ifs <;> rfl

theorem getPacket_eq (c : TftpClient) {s : GetState} {tid : SocketAddr}
    (htid : s.serverTid = some tid) (n : Nat) (d : Bytes) :
    getPacket c s (recv n d).1 (recv n d).2 = some (c.getPacket s tid (recvInto n d)) := by
  unfold getPacket TftpClient.getPacket
  rw [recv_size, sliceTo_recv]
  rcases header_cases (recvInto n d) with
    ⟨hlen, hheader⟩ | ⟨opcode, bytes, field, rest, hlen, hread, hfield, hheader⟩
  · rw [if_pos hlen, hheader]
  · rw [if_neg hlen, hheader]
    simp only [Option.bind_eq_bind, Option.bind_some, hread, hfield, htid, getData]
    cases Opcode.fromU16 opcode with
    | none => rfl
    | some o => cases o <;> rfl

/-- The address is known when it is needed: the first packet fixes it. -/
theorem getStep_eq (c : TftpClient) (st : GetStatus) (r : RecvFrom) :
    getStep c st r = some (c.getStep st r) := by
  cases st with
  | returned result s => cases r <;> rfl
  | receiving s =>
      cases r with
      | error message => rfl
      | timeout => rfl
      | datagram d src =>
          unfold getStep TftpClient.getStep
          dsimp only
          cases htid : s.serverTid with
          | none => exact getPacket_eq c rfl _ _
          | some tid =>
              dsimp only
              by_cases hsrc : src ≠ tid
              · rw [if_pos hsrc, if_pos hsrc]
              · rw [if_neg hsrc, if_neg hsrc]
                exact getPacket_eq c htid _ _

end Checked

end UsgTftp
