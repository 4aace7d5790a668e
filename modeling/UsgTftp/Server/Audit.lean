import UsgTftp.Server.Retransmission
import UsgTftp.Server.Write

set_option autoImplicit false

/-! # The audit records of a transfer

`handle_read_request` and `handle_write_request` of `src/bin/server.rs` with the records they
hand to `AuditLogger`, audit enabled, and with every result that the sockets and the file
system can give them: a send may fail, a read may fail, and `write_file_safely` may fail.
The machines of `Server/Read.lean` and `Server/Write.lean` say what a turn does when its
sends succeed; here each turn also gets the results of its calls, and a call that fails
where the source has `?` ends the handler.

`audit_complete` gives the runs in which a started transfer is closed by exactly one record.
`TransferFailed` is never written, and a write is closed twice if the size announced with
`tsize` is not the size of the file.
-/

namespace UsgTftp

open Reactive Segment SeqNum

/-! ## Records -/

/-- The records of one handler. All of them also carry the address of the client and the
path of the file, and the last one the duration. -/
inductive AuditEvent where
  | readDenied (reason : String)
  | fileSizeLimitExceeded (actualSize maxSize : Nat)
  | transferStarted (fileSize : Nat) (mode : String) (blockSize : Nat)
  | transferCompleted (bytesTransferred : Nat) (blocksSent : UInt16)
  | transferFailed (error : String) (blocksSent : UInt16)
  | writeStarted (mode : String) (blockSize : Nat)
  | writeCompleted (bytesReceived : Nat) (blocksReceived : UInt16) (fileCreated : Bool)
  | writeFailed (error : String) (blocksReceived : UInt16)
  deriving DecidableEq, Repr

/-- The record closes a transfer. -/
def AuditEvent.terminal : AuditEvent → Bool
  | .fileSizeLimitExceeded _ _ => true
  | .transferCompleted _ _ => true
  | .transferFailed _ _ => true
  | .writeCompleted _ _ _ => true
  | .writeFailed _ _ => true
  | _ => false

/-- The transfer has been started. -/
def AuditEvent.started : AuditEvent → Bool
  | .transferStarted _ _ _ => true
  | .writeStarted _ _ => true
  | _ => false

/-- The transfer has been completed. -/
def AuditEvent.completed : AuditEvent → Bool
  | .transferCompleted _ _ => true
  | .writeCompleted _ _ _ => true
  | _ => false

/-- The text inside an error. -/
def TftpError.message : TftpError → String
  | .tftp message => message
  | .io message => message

/-! ## Handlers -/

inductive HandlerPhase (σ : Type) where
  /-- Waiting on the socket. -/
  | active (s : σ)
  | returned (result : Except TftpError Unit)
  | panicked

/-- A handler with the records it has written. -/
structure Audited (σ : Type) where
  phase : HandlerPhase σ
  log : List AuditEvent

def Audited.running {σ : Type} (a : Audited σ) : Bool :=
  match a.phase with
  | .active _ => true
  | _ => false

/-- What a turn leaves: where the handler is, what it has recorded and what it has sent. -/
structure Turn (σ : Type) where
  phase : HandlerPhase σ
  records : List AuditEvent := []
  sent : List Bytes := []

/-- A handler from what it does in one turn. -/
def auditedStep {σ ι : Type} (turn : σ → ι → Turn σ) (a : Audited σ) (io : ι) :
    Audited σ × List Bytes :=
  match a.phase with
  | .active s =>
      let t := turn s io
      (⟨t.phase, a.log ++ t.records⟩, t.sent)
  | _ => (a, [])

/-! ## Sends -/

/-- `socket.send(packet).await?` for each packet; `send k` is the error of the `k`-th call. -/
def sendPackets (send : Nat → Option String) : Nat → List Bytes → List Bytes × Option TftpError
  | _, [] => ([], none)
  | k, packet :: packets =>
      match send k with
      | some e => ([], some (.io e))
      | none =>
          let (sent, failure) := sendPackets send (k + 1) packets
          (packet :: sent, failure)

/-- `send_with_retry` with `left` attempts to go; `attempt k` is the error of the `k`-th. -/
def sendWithRetry (attempt : Nat → Option String) (packet : Bytes) :
    Nat → List Bytes × Option TftpError
  | 0 => ([], some (.tftp "Max retries exceeded"))
  | left + 1 =>
      match attempt (maxRetries - (left + 1)) with
      | none => ([packet], none)
      | some e =>
          if left = 0 then ([], some (.io e)) else sendWithRetry attempt packet left

/-- The results of the calls of one turn of a read. -/
structure ReadCalls where
  /-- The error of the first read of the file that fails. -/
  read : Option String
  send : Nat → Option String
  attempt : Nat → Option String

/-- The calls succeed; for `send_with_retry` one attempt is enough. -/
structure ReadCalls.Succeed (calls : ReadCalls) : Prop where
  read : calls.read = none
  send : ∀ k, calls.send k = none
  attempt : ∃ k, k < maxRetries ∧ calls.attempt k = none

/-! ## `handle_read_request` -/

/-- The handler goes on to the next wait, unless a send has failed. -/
def afterSends {σ : Type} (s : σ) (result : List Bytes × Option TftpError) : Turn σ :=
  match result.2 with
  | none => { phase := .active s, sent := result.1 }
  | some e => { phase := .returned (.error e), sent := result.1 }

/-- A way out of a sender: only the completed transfer is recorded. -/
def SendExit.turn {σ : Type} : SendExit → Turn σ
  | .completed bytes blocks =>
      { phase := .returned (.ok ()), records := [.transferCompleted bytes blocks] }
  | .maxRetriesExceeded _ => { phase := .returned (.ok ()) }
  | .loopEnded => { phase := .returned (.ok ()) }
  | .failed e => { phase := .returned (.error e) }
  | .panicked => { phase := .panicked }

/-- The OACK and the DATA of an empty file are sent with `send_with_retry`. -/
def sendOnce (calls : ReadCalls) (s : ReadStatus) : List Bytes → Turn ReadStatus
  | [packet] => afterSends s (sendWithRetry calls.attempt packet maxRetries)
  | _ => { phase := .active s }

/-- The calls of a turn that leaves the handler in the status `s` and sends `packets`. -/
def concludeRead (calls : ReadCalls) (s : ReadStatus) (packets : List Bytes) : Turn ReadStatus :=
  match s with
  | .oackWait _ _ => sendOnce calls s packets
  | .buffered _ (.awaitingEmpty _) => sendOnce calls s packets
  | .streaming _ (.awaitingEmpty _) => sendOnce calls s packets
  | .buffered _ (.awaiting _) => afterSends s (sendPackets calls.send 0 packets)
  | .streaming _ (.awaiting st) =>
      -- a window that has not been repeated yet has just been read
      match st.retries, calls.read with
      | 0, some e => { phase := .returned (.error (.io e)) }
      | _, _ => afterSends s (sendPackets calls.send 0 packets)
  | .buffered _ (.done exit) => exit.turn
  | .streaming _ (.done exit) => exit.turn
  | .ended result => { phase := .returned result }

/-- The ERROR packet of a refused request. -/
def refuse (calls : ReadCalls) (record : AuditEvent) (packet : Bytes) : Turn ReadStatus :=
  match calls.send 0 with
  | none => { phase := .returned (.ok ()), records := [record], sent := [packet] }
  | some e => { phase := .returned (.error (.io e)), records := [record] }

/-- Everything up to the first wait. -/
def startReadAudited (opened : Option OpenFile) (mode : TransferMode) (options : TftpOptions)
    (negotiatedOptions : OptionMap) (maxFileSizeBytes : Nat) (order : IterOrder)
    (calls : ReadCalls) : Turn ReadStatus :=
  match opened with
  | none =>
      refuse calls (.readDenied "File not found") (errorPacket .fileNotFound "File not found")
  | some file =>
      if maxFileSizeBytes > 0 ∧ file.len > maxFileSizeBytes then
        refuse calls (.fileSizeLimitExceeded file.len maxFileSizeBytes)
          (errorPacket .diskFull "File too large")
      else
        let started := .transferStarted file.len mode.modeStr options.blockSize
        let base :=
          startReadRequest opened mode options negotiatedOptions maxFileSizeBytes order
        let t : Turn ReadStatus :=
          match calls.read, decide (mode = .netascii ∧ file.len ≤ netasciiBufferLimit) with
          -- `read_to_end`
          | some e, true => { phase := .returned (.error (.io e)) }
          | _, _ => concludeRead calls base.1 base.2
        { t with records := started :: t.records }

/-- One turn: what was received and the results of the calls that follow. -/
def readTurn (mode : TransferMode) (options : TftpOptions) (s : ReadStatus)
    (io : Recv × ReadCalls) : Turn ReadStatus :=
  concludeRead io.2 (readRequestStep mode options s io.1).1
    (readRequestStep mode options s io.1).2

def handleReadRequestAudited (opened : Option OpenFile) (mode : TransferMode)
    (options : TftpOptions) (negotiatedOptions : OptionMap) (maxFileSizeBytes : Nat)
    (order : IterOrder) (calls : ReadCalls) :
    Machine (Audited ReadStatus) (Recv × ReadCalls) Bytes where
  start :=
    let t := startReadAudited opened mode options negotiatedOptions maxFileSizeBytes order calls
    (⟨t.phase, t.records⟩, t.sent)
  step := auditedStep (readTurn mode options)
  running := Audited.running

/-! ## `handle_write_request` -/

/-- What was received in one turn of a write and the results of the calls that follow. -/
structure WriteIo where
  recv : Recv
  /-- The error of the send of an ACK. -/
  ack : Option String
  /-- The error of the send of an ERROR packet. -/
  error : Option String
  /-- What `write_file_safely` returns. -/
  stored : Except TftpError Unit

/-- The payload of a DATA packet. -/
def payload : Recv → Bytes
  | .datagram d => ((header (recvInto maxPacketSize d)).map (·.2.2)).getD []
  | _ => []

/-- `send_error_on_socket(..).await?` before a return. -/
def returnAfterError (error : Option String) (packets : List Bytes)
    (result : Except TftpError Unit) (records : List AuditEvent) : Turn ReceiveState :=
  match error with
  | none => { phase := .returned result, records := records, sent := packets }
  | some e => { phase := .returned (.error (.io e)), records := records }

/-- The record of a size that is not the announced one. -/
def sizeMismatch (options : TftpOptions) (s : ReceiveState) (finalData : Bytes) :
    List AuditEvent :=
  match options.transferSize with
  | some expectedSize =>
      if expectedSize > 0 ∧ finalData.length ≠ expectedSize then
        [.writeFailed s!"Transfer size mismatch: expected {expectedSize}, got {finalData.length}"
          s.expectedBlock]
      else []
  | none => []

/-- The call of `write_file_safely` and what follows it. -/
def storeAudited (options : TftpOptions) (fileCreated : Bool) (s : ReceiveState)
    (finalData : Bytes) (io : WriteIo) : Turn ReceiveState :=
  let mismatch := sizeMismatch options s finalData
  match io.stored with
  | .ok () =>
      { phase := .returned (.ok ())
        records := mismatch ++ [.writeCompleted finalData.length s.expectedBlock fileCreated] }
  | .error e =>
      returnAfterError io.error [errorPacket .diskFull "Write failed"] (.error e)
        (mismatch ++ [.writeFailed e.display s.expectedBlock])

/-- A way out of the receive loop. -/
def WriteExit.turn (maxFileSizeBytes : Nat) (s : ReceiveState) (io : WriteIo)
    (packets : List Bytes) : WriteExit → Turn ReceiveState
  | .clientError e =>
      { phase := .returned (.error e)
        records := [.writeFailed e.message (s.expectedBlock - 1)] }
  | .outOfOrder => returnAfterError io.error packets (.ok ()) []
  | .tooLarge =>
      returnAfterError io.error packets (.ok ())
        [.fileSizeLimitExceeded (s.receivedData.length + (payload io.recv).length)
          maxFileSizeBytes]
  | .recvError e =>
      { phase := .returned (.error e)
        records := [.writeFailed e.message (s.expectedBlock - 1)] }
  | .timeout e =>
      { phase := .returned (.error e)
        records := [.writeFailed "timeout waiting for data" (s.expectedBlock - 1)]
        -- the error of this send is ignored
        sent := if io.error = none then packets else [] }
  | .panicked => { phase := .panicked }

/-- One turn of the receive loop. -/
def WriteRequest.turn (q : WriteRequest) (fileCreated : Bool) (s : ReceiveState)
    (io : WriteIo) : Turn ReceiveState :=
  match q.step (.receiving s) io.recv with
  | (.receiving s', []) => { phase := .active s' }
  | (.receiving s', packets) =>
      match io.ack with
      | none => { phase := .active s', sent := packets }
      | some e => { phase := .returned (.error (.io e)) }
  | (.commit s' finalData, packets) =>
      match io.ack with
      | none =>
          let t := storeAudited q.options fileCreated s' finalData io
          { t with sent := packets ++ t.sent }
      | some e => { phase := .returned (.error (.io e)) }
  | (.ended exit s', packets) => exit.turn q.maxFileSizeBytes s' io packets

def handleWriteRequestAudited (q : WriteRequest) (fileCreated : Bool) (order : IterOrder)
    (attempt : Nat → Option String) : Machine (Audited ReceiveState) WriteIo Bytes where
  start :=
    let packet :=
      if q.negotiatedOptions.entries = [] then ackPacket 0
      else buildOackPacket (order.iter q.negotiatedOptions)
    let t := afterSends {} (sendWithRetry attempt packet maxRetries)
    (⟨t.phase, [.writeStarted q.mode.modeStr q.options.blockSize]⟩, t.sent)
  step := auditedStep (q.turn fileCreated)
  running := Audited.running

/-! ## The property and the condition of a run -/

/-- The log closes the transfer exactly once, as completed exactly if `done`. -/
structure Closed (log : List AuditEvent) (done : Prop) : Prop where
  once : log.countP AuditEvent.terminal = 1
  completed : (∃ e ∈ log, e.completed = true) ↔ done

/-- The window has the reply that acknowledges its last block. -/
def LastAcked {α : Type} (blockNum : α → UInt16) (window : List α) (r : Recv) : Prop :=
  ∃ last, window.getLast? = some last ∧ IsAck (blockNum last) r

/-- The packet of this turn acknowledges the final block of the file. -/
def FinalAcked (blockSize : Nat) (a : Audited ReadStatus) (io : Recv × ReadCalls) : Prop :=
  match a.phase with
  | .active (.buffered _ (.awaitingEmpty _)) => IsAck 1 io.1
  | .active (.streaming _ (.awaitingEmpty _)) => IsAck 1 io.1
  | .active (.buffered _ (.awaiting st)) =>
      (∃ e ∈ st.windowPackets, e.bytesToSend < blockSize) ∧
        LastAcked (·.blockNum) st.windowPackets io.1
  | .active (.streaming _ (.awaiting st)) =>
      (∃ e ∈ st.windowPackets, e.isFinal = true) ∧ LastAcked (·.blockNum) st.windowPackets io.1
  | _ => False

/-- The wait does not give up: it is answered by the expected ACK, or there is another try. -/
def KeepsTrying : ReadStatus → Recv → Prop
  | .oackWait _ retry, r => ∀ e, waitForAck 0 retry r ≠ .failed e
  | .buffered _ (.awaitingEmpty retry), r => ∀ e, waitForAck 1 retry r ≠ .failed e
  | .streaming _ (.awaitingEmpty retry), r => ∀ e, waitForAck 1 retry r ≠ .failed e
  | .buffered _ (.awaiting st), r =>
      st.retries + 1 < maxRetries ∨ LastAcked (·.blockNum) st.windowPackets r
  | .streaming _ (.awaiting st), r =>
      st.retries + 1 < maxRetries ∨ LastAcked (·.blockNum) st.windowPackets r
  | _, _ => True

/-- The condition of one turn of a read. -/
def ReadMeets (a : Audited ReadStatus) (io : Recv × ReadCalls) : Prop :=
  match a.phase with
  | .active s => KeepsTrying s io.1 ∧ io.2.Succeed
  | _ => True

/-- The condition of the start of a read: what was opened can be read, and a file with data
is sent in windows that are not empty. -/
structure ReadStarts (mode : TransferMode) (options : TftpOptions) (file : OpenFile)
    (calls : ReadCalls) : Prop where
  calls : calls.Succeed
  readable : ∀ len, file = .directory len → mode ≠ .netascii ∧ len = 0
  window : 0 < options.windowsize ∨ file.len = 0

/-- `write_file_safely` is called in this turn and returns `Ok`. -/
def Stored (q : WriteRequest) (a : Audited ReceiveState) (io : WriteIo) : Prop :=
  match a.phase with
  | .active s =>
      (∃ s' finalData, (q.step (.receiving s) io.recv).1 = .commit s' finalData) ∧
        io.ack = none ∧ io.stored = .ok ()
  | _ => False

/-- A DATA packet has the expected number or one behind it. -/
def InOrder (s : ReceiveState) (r : Recv) : Prop :=
  ∀ d n rest, r = .datagram d →
    header (recvInto maxPacketSize d) = some (Opcode.data.toU16, n, rest) →
    n ≠ s.expectedBlock → 0 < s.expectedBlock - n ∧ s.expectedBlock - n < 32768

/-- The final block makes the file as long as `tsize` announced, if it did. -/
def AsAnnounced (q : WriteRequest) (s : ReceiveState) (r : Recv) : Prop :=
  ∀ size d rest, q.options.transferSize = some size → size > 0 → r = .datagram d →
    header (recvInto maxPacketSize d) = some (Opcode.data.toU16, s.expectedBlock, rest) →
    ¬q.exceeds s rest → rest.length < q.options.blockSize →
    (q.finalData (s.receivedData ++ rest)).length = size

/-- The condition of one turn of a write. -/
def WriteMeets (q : WriteRequest) (a : Audited ReceiveState) (io : WriteIo) : Prop :=
  match a.phase with
  | .active s => InOrder s io.recv ∧ AsAnnounced q s io.recv ∧ io.ack = none
  | _ => True

/-! ## Sends that succeed -/

theorem sendPackets_succeed {send : Nat → Option String} (h : ∀ k, send k = none) :
    ∀ (packets : List Bytes) (k : Nat), sendPackets send k packets = (packets, none) := by
  intro packets
  induction packets with
  | nil => intro k; rfl
  | cons packet packets ih => intro k; simp [sendPackets, h k, ih (k + 1)]

/-- One of the attempts that are left is enough. -/
theorem sendWithRetry_succeed {attempt : Nat → Option String} (packet : Bytes) :
    ∀ left, left ≤ maxRetries →
      (∃ k, maxRetries - left ≤ k ∧ k < maxRetries ∧ attempt k = none) →
      sendWithRetry attempt packet left = ([packet], none) := by
  intro left
  induction left with
  | zero => rintro _ ⟨k, hle, hlt, -⟩; omega
  | succ left ih =>
      rintro hleft ⟨k, hle, hlt, hk⟩
      rw [sendWithRetry]
      cases hnow : attempt (maxRetries - (left + 1)) with
      | none => rfl
      | some e =>
          have hne : k ≠ maxRetries - (left + 1) := by
            rintro rfl
            rw [hk] at hnow
            cases hnow
          have hlast : left ≠ 0 := by omega
          simp only [hlast, if_false]
          exact ih (by omega) ⟨k, by omega, hlt, hk⟩

/-- With calls that succeed the handler reaches the next wait, and records nothing. -/
theorem concludeRead_running {calls : ReadCalls} (hcalls : calls.Succeed) {s : ReadStatus}
    (hs : s.running = true) (packets : List Bytes) :
    (concludeRead calls s packets).phase = .active s ∧
      (concludeRead calls s packets).records = [] := by
  -- an OACK and the packet of an empty file go through `send_with_retry`
  have honce : (sendOnce calls s packets).phase = .active s ∧
      (sendOnce calls s packets).records = [] := by
    match packets with
    | [] => exact ⟨rfl, rfl⟩
    | [packet] =>
        obtain ⟨k, hk, hnone⟩ := hcalls.attempt
        have hsend := sendWithRetry_succeed packet maxRetries (Nat.le_refl _)
          ⟨k, by omega, hk, hnone⟩
        simp [sendOnce, hsend, afterSends]
    | _ :: _ :: _ => exact ⟨rfl, rfl⟩
  have hsend := sendPackets_succeed hcalls.send packets 0
  cases s with
  | oackWait source retry => exact honce
  | ended result => cases hs
  | buffered fileData st =>
      cases st with
      | awaitingEmpty retry => exact honce
      | awaiting st => simp [concludeRead, hsend, afterSends]
      | done exit => cases hs
  | streaming file st =>
      cases st with
      | awaitingEmpty retry => exact honce
      | awaiting st => simp [concludeRead, hcalls.read, hsend, afterSends]
      | done exit => cases hs

/-! ## Reads -/

/-- The waits of a read of something that can be sent. -/
inductive ReadSound (options : TftpOptions) : ReadStatus → Prop where
  | oackWait (source : Source) (data : Bytes) (retry : Nat) (hsource : source.Holds data)
      (hwindow : 0 < options.windowsize ∨ data = []) : ReadSound options (.oackWait source retry)
  | buffered (fileData : Bytes) (pos retries : Nat) (hW : 0 < options.windowsize)
      (hpos : pos < blockCount options.blockSize fileData) :
      ReadSound options (.buffered fileData
        (.awaiting (bufferedState options.blockSize fileData options.windowsize pos retries)))
  | streaming (file : Bytes) (rank : Nat) (st : StreamState) (hW : 0 < options.windowsize)
      (hst : WaitsStreaming file rank st.retries st) :
      ReadSound options (.streaming file (.awaiting st))
  | bufferedEmpty (fileData : Bytes) (retry : Nat) :
      ReadSound options (.buffered fileData (.awaitingEmpty retry))
  | streamingEmpty (file : Bytes) (retry : Nat) :
      ReadSound options (.streaming file (.awaitingEmpty retry))

section

variable {mode : TransferMode} {options : TftpOptions}

theorem ReadSound.running {s : ReadStatus} (h : ReadSound options s) : s.running = true := by
  cases h <;> rfl

theorem waitForAck_eq_accepted_iff (n : UInt16) (retry : Nat) (r : Recv) :
    waitForAck n retry r = .accepted ↔ IsAck n r := by
  rw [← waitForAckTurn_eq_accepted_iff, waitForAck]
  cases waitForAckTurn n r with
  | accepted => simp
  | failed e => simp
  | again => simp only [reduceCtorEq, iff_false]; split_ifs <;> simp

theorem readSound_startSending (hb : 0 < options.blockSize) {source : Source} {data : Bytes}
    (hsource : source.Holds data) (hwindow : 0 < options.windowsize ∨ data = []) :
    ReadSound options (startSending mode options source).1 := by
  by_cases hdata : data = []
  · subst hdata
    cases hsource with
    | buffered => exact .bufferedEmpty _ _
    | streaming => exact .streamingEmpty _ _
    | emptyDirectory => exact .streamingEmpty _ _
  · have hW : 0 < options.windowsize := by
      rcases hwindow with h | h
      · exact h
      · exact absurd h hdata
    cases hsource with
    | buffered =>
        have hpos := blockCount_pos options.blockSize data
        have hnext := nextWindowBuffered_eq hb hW hpos
        rw [Nat.zero_mul] at hnext
        simp only [startSending, sendFileDataBuffered, if_neg hdata]
        rw [show (1 : UInt16) = wire (0 + 1) from rfl, hnext]
        exact .buffered _ _ _ hW hpos
    | streaming =>
        obtain ⟨st, rank, -, hst, hnext⟩ := nextWindowStreaming_waits mode hb hW
          (Nat.zero_le data.length) 1 0
        simp only [startSending, sendFileDataStreaming, List.length_eq_zero_iff, if_neg hdata,
          hnext]
        exact .streaming _ rank _ hW (by rw [hst.retries]; exact hst)
    | emptyDirectory => exact absurd rfl hdata

/-- What the senders do with a reply that keeps them trying. -/
def ReadGoesOn (options : TftpOptions) (s s' : ReadStatus) (r : Recv) : Prop :=
  (ReadSound options s' ∧ ∀ log calls, ¬FinalAcked options.blockSize ⟨.active s, log⟩ (r, calls)) ∨
  (s'.Completed ∧ ∀ log calls, FinalAcked options.blockSize ⟨.active s, log⟩ (r, calls))

/-- The wait for a packet that was sent once. -/
theorem awaitEmpty_goesOn {σ : Type} {retry : Nat} {r : Recv}
    (h : ∀ e, waitForAck 1 retry r ≠ .failed e) :
    ((awaitEmpty retry r : SendStatus σ) = .awaitingEmpty (retry + 1) ∧ ¬IsAck 1 r) ∨
      ((awaitEmpty retry r : SendStatus σ) = .done (.completed 0 1) ∧ IsAck 1 r) := by
  rw [awaitEmpty, ← waitForAck_eq_accepted_iff 1 retry r]
  cases hwait : waitForAck 1 retry r with
  | accepted => exact Or.inr ⟨rfl, rfl⟩
  | failed e => exact absurd hwait (h e)
  | again => exact Or.inl ⟨rfl, by simp⟩

/-- A window of the buffered sender has the final block iff it reaches the last one. -/
theorem bufferedState_final_iff {b W pos : Nat} (hb : 0 < b) {file : Bytes}
    (hpos : pos < blockCount b file) (retries : Nat) :
    (∃ e ∈ (bufferedState b file W pos retries).windowPackets, e.bytesToSend < b)
      ↔ blockCount b file ≤ pos + W := by
  constructor
  · rintro ⟨e, he, hshort⟩
    obtain ⟨i, hi, rfl⟩ := List.mem_map.mp he
    rw [List.mem_range'_1] at hi
    have hlt : i < blockCount b file := by unfold windowLen at hi; omega
    have hlast := (length_block_lt_iff hb file hlt).mp hshort
    unfold windowLen at hi
    omega
  · intro hend
    refine ⟨bufferedEntry b file (blockCount b file - 1), List.mem_map.mpr
      ⟨blockCount b file - 1, ?_, rfl⟩, ?_⟩
    · rw [List.mem_range'_1]
      unfold windowLen
      omega
    · exact (length_block_lt_iff hb file (by omega)).mpr (by omega)

theorem lastAcked_bufferedState_iff {b W pos : Nat} (hW : 0 < W) {file : Bytes}
    (hpos : pos < blockCount b file) (retries : Nat) (r : Recv) :
    LastAcked (·.blockNum) (bufferedState b file W pos retries).windowPackets r
      ↔ WindowSender.acked acksPacket (segPackets b file) W pos r = true := by
  have hlen := windowLen_pos hW hpos
  have hlast : (bufferedState b file W pos retries).windowPackets.getLast?
      = some (bufferedEntry b file (pos + windowLen b file W pos - 1)) :=
    getLast?_range'_map _ hlen
  have hnum : (bufferedEntry b file (pos + windowLen b file W pos - 1)).blockNum
      = wire (pos + windowLen b file W pos) := by
    simp only [bufferedEntry]; congr 1; omega
  rw [acked_segPackets hW hpos, LastAcked, hlast]
  constructor
  · rintro ⟨last, hl, hack⟩
    cases hl
    rwa [hnum] at hack
  · intro hack
    exact ⟨_, rfl, by rwa [hnum]⟩

theorem buffered_goesOn (hb : 0 < options.blockSize) {fileData : Bytes} {pos retries : Nat}
    (hW : 0 < options.windowsize) (hpos : pos < blockCount options.blockSize fileData) {r : Recv}
    (h : retries + 1 < maxRetries ∨ LastAcked (·.blockNum)
      (bufferedState options.blockSize fileData options.windowsize pos retries).windowPackets r) :
    ReadGoesOn options
      (.buffered fileData
        (.awaiting (bufferedState options.blockSize fileData options.windowsize pos retries)))
      (.buffered fileData (sendFileDataBufferedStep fileData options.blockSize options.windowsize
        (.awaiting (bufferedState options.blockSize fileData options.windowsize pos retries))
        r).1) r := by
  rw [lastAcked_bufferedState_iff hW hpos] at h
  rw [sendFileDataBufferedStep_eq hb hW hpos, ReadGoesOn]
  simp only [FinalAcked, bufferedState_final_iff hb hpos, lastAcked_bufferedState_iff hW hpos]
  rw [WindowSender.step, length_segPackets]
  by_cases hack : WindowSender.acked acksPacket (segPackets options.blockSize fileData)
      options.windowsize pos r = true
  · by_cases hmore : pos + options.windowsize < blockCount options.blockSize fileData
    · rw [if_pos hack, if_pos hmore]
      exact Or.inl ⟨.buffered _ _ _ hW hmore, fun _ _ hf => absurd hf.1 (by omega)⟩
    · rw [if_pos hack, if_neg hmore]
      exact Or.inr ⟨.buffered _ _ _, fun _ _ => ⟨by omega, hack⟩⟩
  · -- no ACK of this window, but a try is left
    have hretry : retries + 1 < maxRetries := by
      rcases h with h | h
      · exact h
      · exact absurd h hack
    rw [if_neg hack, if_pos hretry]
    exact Or.inl ⟨.buffered _ _ _ hW hpos, fun _ _ hf => hack hf.2⟩

theorem streaming_goesOn (hb : 0 < options.blockSize) {file : Bytes} {rank : Nat}
    {st : StreamState} (hW : 0 < options.windowsize)
    (hst : WaitsStreaming file rank st.retries st) {r : Recv}
    (h : st.retries + 1 < maxRetries ∨ LastAcked (·.blockNum) st.windowPackets r) :
    ReadGoesOn options (.streaming file (.awaiting st))
      (.streaming file (sendFileDataStreamingStep file mode options.blockSize options.windowsize
        (.awaiting st) r).1) r := by
  have hlast := List.getLast?_eq_some_getLast hst.nonempty
  have hiff : LastAcked (·.blockNum) st.windowPackets r
      ↔ IsAck (st.windowPackets.getLast hst.nonempty).blockNum r := by
    rw [LastAcked, hlast]
    exact ⟨fun ⟨_, hl, hack⟩ => by cases hl; exact hack, fun hack => ⟨_, rfl, hack⟩⟩
  simp only [ReadGoesOn, FinalAcked, sendFileDataStreamingStep, hlast, hiff] at h ⊢
  by_cases hack : IsAck (st.windowPackets.getLast hst.nonempty).blockNum r
  · have hok := (waitForAckWithDuplicateHandling_eq_ok_true_iff _ _).mpr hack
    simp only [hok]
    by_cases hfinal : ∃ e ∈ st.windowPackets, e.isFinal = true
    · obtain ⟨total, block, hadv⟩ :=
        advanceStreaming_final st.windowPackets st.bytesTransferred hfinal
      rw [hadv]
      exact Or.inr ⟨.streaming _ _ _, fun _ _ => ⟨hfinal, hack⟩⟩
    · obtain ⟨total, hadv⟩ :=
        advanceStreaming_not_final st.windowPackets st.bytesTransferred hfinal
      have heof := hst.eof_eq_false hfinal
      obtain ⟨st', rank', -, hst', hnext⟩ := nextWindowStreaming_waits mode hb hW
        hst.cursor_le st.blockNum total
      simp only [hadv, heof, Bool.false_eq_true, if_false, hnext]
      exact Or.inl ⟨.streaming _ rank' _ hW (by rw [hst'.retries]; exact hst'),
        fun _ _ hf => hfinal hf.1⟩
  · have hne : waitForAckWithDuplicateHandling
        (st.windowPackets.getLast hst.nonempty).blockNum r ≠ .ok true :=
      fun hok => hack ((waitForAckWithDuplicateHandling_eq_ok_true_iff _ _).mp hok)
    have hretry : ¬st.retries + 1 ≥ maxRetries := by
      rcases h with h | h
      · omega
      · exact absurd h hack
    split
    · rename_i hok
      exact absurd hok hne
    · rw [sendWindowStreaming, if_neg hretry]
      refine Or.inl ⟨.streaming _ rank _ hW ?_, fun _ _ hf => hack hf.2⟩
      exact ⟨hst.nonempty, hst.data, hst.cursor_le, hst.final, rfl, hst.rank⟩

/-- **Step lemma of a read.** A reply that does not make the handler give up leads to the
next wait, or completes the transfer if it acknowledges the final block. -/
theorem readRequestStep_goesOn (hb : 0 < options.blockSize) {s : ReadStatus}
    (hs : ReadSound options s) {r : Recv} (h : KeepsTrying s r) :
    ReadGoesOn options s (readRequestStep mode options s r).1 r := by
  cases hs with
  | oackWait source data retry hsource hwindow =>
      left
      refine ⟨?_, fun _ _ hf => hf⟩
      simp only [readRequestStep]
      cases hwait : waitForAck 0 retry r with
      | accepted => exact readSound_startSending hb hsource hwindow
      | failed e => exact absurd hwait (h e)
      | again => exact .oackWait _ data _ hsource hwindow
  | buffered fileData pos retries hW hpos => exact buffered_goesOn hb hW hpos h
  | streaming file rank st hW hst => exact streaming_goesOn hb hW hst h
  | bufferedEmpty fileData retry =>
      show ReadGoesOn options _ (.buffered fileData (awaitEmpty retry r)) r
      rcases awaitEmpty_goesOn h with ⟨heq, hack⟩ | ⟨heq, hack⟩
      · rw [heq]
        exact Or.inl ⟨.bufferedEmpty _ _, fun _ _ => hack⟩
      · rw [heq]
        exact Or.inr ⟨.buffered _ _ _, fun _ _ => hack⟩
  | streamingEmpty file retry =>
      show ReadGoesOn options _ (.streaming file (awaitEmpty retry r)) r
      rcases awaitEmpty_goesOn h with ⟨heq, hack⟩ | ⟨heq, hack⟩
      · rw [heq]
        exact Or.inl ⟨.streamingEmpty _ _, fun _ _ => hack⟩
      · rw [heq]
        exact Or.inr ⟨.streaming _ _ _, fun _ _ => hack⟩

/-! ## Logs -/

theorem AuditEvent.terminal_of_completed {e : AuditEvent} (h : e.completed = true) :
    e.terminal = true := by
  cases e <;> first | rfl | cases h

/-- A log without a closing record is closed by one. -/
theorem closed_append {log : List AuditEvent} {e : AuditEvent} {done : Prop}
    (hlog : log.countP AuditEvent.terminal = 0) (he : e.terminal = true)
    (hdone : e.completed = true ↔ done) : Closed (log ++ [e]) done where
  once := by simp [List.countP_append, hlog, he]
  completed := by
    rw [← hdone]
    constructor
    · rintro ⟨e', he', hcompleted⟩
      rcases List.mem_append.mp he' with hold | hnew
      · have hnone := List.countP_eq_zero.mp hlog e' hold
        exact absurd (AuditEvent.terminal_of_completed hcompleted) hnone
      · rw [List.mem_singleton] at hnew
        rwa [hnew] at hcompleted
    · intro h
      exact ⟨e, List.mem_append_right _ List.mem_cons_self, h⟩

/-- What a turn must do so that its transfer is closed once, by `event` or otherwise. -/
def Turn.ClosesOnce {σ : Type} (sound : σ → Prop) (event : Prop) (t : Turn σ) : Prop :=
  (∃ s, t.phase = .active s ∧ sound s ∧ t.records = [] ∧ ¬event) ∨
  (∃ result e, t.phase = .returned result ∧ t.records = [e] ∧ e.terminal = true ∧
    (e.completed = true ↔ event))

/-- **Run lemma.** If every turn under the condition goes on without a record or returns with
one closing record, every run that returns closes its transfer once. -/
theorem closed_of_turns {σ ι : Type} {m : Machine (Audited σ) ι Bytes} {turn : σ → ι → Turn σ}
    {sound : σ → Prop} {p q : Audited σ → ι → Prop} (hstep : m.step = auditedStep turn)
    (hrunning : m.running = Audited.running)
    (hturn : ∀ s log io, sound s → p ⟨.active s, log⟩ io →
      (turn s io).ClosesOnce sound (q ⟨.active s, log⟩ io))
    {s : σ} {log : List AuditEvent} (hs : sound s)
    (hlog : log.countP AuditEvent.terminal = 0) (ios : List ι)
    (halways : m.Always p ⟨.active s, log⟩ ios)
    (hdone : m.running (m.exec ⟨.active s, log⟩ ios) = false) :
    Closed (m.exec ⟨.active s, log⟩ ios).log (m.Happens q ⟨.active s, log⟩ ios) := by
  -- no terminal record while the transfer runs, one when it ends
  have hruns := @Machine.exec_until _ _ _ m
    (fun a => ∃ s', a.phase = .active s' ∧ sound s' ∧ a.log.countP AuditEvent.terminal = 0)
    (fun a => Closed a.log True) (fun a => Closed a.log False) p q ?_ ios ⟨.active s, log⟩
    ⟨s, rfl, hs, hlog⟩ (by rw [hrunning]; rfl) halways
  · rcases hruns with ⟨-, hrun, -⟩ | ⟨hclosed, -, hq⟩ | ⟨hclosed, -, hq⟩
    · rw [hdone] at hrun
      cases hrun
    · exact ⟨hclosed.once, hclosed.completed.trans (iff_of_true trivial hq)⟩
    · exact ⟨hclosed.once, hclosed.completed.trans (iff_of_false id hq)⟩
  · rintro ⟨phase, log'⟩ io ⟨s', hphase, hsound, hopen⟩ - hp
    simp only at hphase hopen
    subst hphase
    simp only [hstep, hrunning, auditedStep]
    rcases hturn s' log' io hsound hp with ⟨s'', hnext, hsound', hrecords, hq⟩ |
      ⟨result, e, hnext, hrecords, hterminal, hiff⟩
    · left
      rw [hnext, hrecords, List.append_nil]
      exact ⟨⟨s'', rfl, hsound', hopen⟩, rfl, hq⟩
    · right
      rw [hnext, hrecords]
      by_cases hq : q ⟨.active s', log'⟩ io
      · exact Or.inl ⟨closed_append hopen hterminal (hiff.trans (iff_of_true hq trivial)), rfl, hq⟩
      · exact Or.inr ⟨closed_append hopen hterminal (hiff.trans (iff_of_false hq id)), rfl, hq⟩

/-! ## Runs of a read -/

theorem readTurn_closesOnce (hb : 0 < options.blockSize) {s : ReadStatus}
    {log : List AuditEvent} {io : Recv × ReadCalls} (hs : ReadSound options s)
    (h : ReadMeets ⟨.active s, log⟩ io) :
    (readTurn mode options s io).ClosesOnce (ReadSound options)
      (FinalAcked options.blockSize ⟨.active s, log⟩ io) := by
  obtain ⟨r, calls⟩ := io
  obtain ⟨htrying, hcalls⟩ := h
  simp only at htrying hcalls
  rcases @readRequestStep_goesOn mode _ hb _ hs _ htrying with ⟨hsound, hnot⟩ | ⟨hdone, hfinal⟩
  · have hnext := concludeRead_running hcalls hsound.running
      (readRequestStep mode options s r).2
    exact Or.inl ⟨_, hnext.1, hsound, hnext.2, hnot log calls⟩
  · right
    simp only [readTurn]
    generalize (readRequestStep mode options s r).1 = s' at hdone ⊢
    cases hdone with
    | buffered fileData bytes blocks =>
        exact ⟨.ok (), .transferCompleted bytes blocks, rfl, rfl, rfl,
          iff_of_true rfl (hfinal log calls)⟩
    | streaming file bytes blocks =>
        exact ⟨.ok (), .transferCompleted bytes blocks, rfl, rfl, rfl,
          iff_of_true rfl (hfinal log calls)⟩

theorem refuse_eq (calls : ReadCalls) (record : AuditEvent) (packet : Bytes) :
    (∃ result, (refuse calls record packet).phase = .returned result) ∧
      (refuse calls record packet).records = [record] := by
  unfold refuse
  cases calls.send 0 with
  | none => exact ⟨⟨_, rfl⟩, rfl⟩
  | some e => exact ⟨⟨_, rfl⟩, rfl⟩

/-- A read is refused, or it waits for its first packet and has recorded its start. -/
theorem startReadAudited_sound (hb : 0 < options.blockSize) {opened : Option OpenFile}
    {negotiated : OptionMap} {maxFileSizeBytes : Nat} {order : IterOrder} {calls : ReadCalls}
    (hstarts : ∀ file, opened = some file → ReadStarts mode options file calls) :
    (∃ result e, e.started = false ∧
      (startReadAudited opened mode options negotiated maxFileSizeBytes order calls).phase
        = .returned result ∧
      (startReadAudited opened mode options negotiated maxFileSizeBytes order calls).records
        = [e]) ∨
    ∃ s size, ReadSound options s ∧
      (startReadAudited opened mode options negotiated maxFileSizeBytes order calls).phase
        = .active s ∧
      (startReadAudited opened mode options negotiated maxFileSizeBytes order calls).records
        = [.transferStarted size mode.modeStr options.blockSize] := by
  cases opened with
  | none =>
      obtain ⟨⟨result, hphase⟩, hrecords⟩ := refuse_eq calls (.readDenied "File not found")
        (errorPacket .fileNotFound "File not found")
      exact Or.inl ⟨result, _, rfl, hphase, hrecords⟩
  | some file =>
      have hmeets := hstarts file rfl
      rw [startReadAudited]
      by_cases hlarge : maxFileSizeBytes > 0 ∧ file.len > maxFileSizeBytes
      · rw [if_pos hlarge]
        obtain ⟨⟨result, hphase⟩, hrecords⟩ := refuse_eq calls
          (.fileSizeLimitExceeded file.len maxFileSizeBytes)
          (errorPacket .diskFull "File too large")
        exact Or.inl ⟨result, _, rfl, hphase, hrecords⟩
      · rw [if_neg hlarge]
        -- what is opened is sent, in one of the two ways
        have hbase : ∃ source data tsize, source.Holds data ∧
            (0 < options.windowsize ∨ data = []) ∧
            startReadRequest (some file) mode options negotiated maxFileSizeBytes order
              = sendOack mode options negotiated order source tsize := by
          rw [startReadRequest, if_neg hlarge]
          cases file with
          | regular content =>
              have hwindow : 0 < options.windowsize ∨ content = [] := by
                rcases hmeets.window with h | h
                · exact Or.inl h
                · exact Or.inr (List.length_eq_zero_iff.mp h)
              by_cases hsmall : mode = .netascii ∧
                  (OpenFile.regular content).len ≤ netasciiBufferLimit
              · rw [if_pos hsmall]
                refine ⟨_, _, _, .buffered _, ?_, rfl⟩
                rwa [convertToNetascii_eq_nil]
              · rw [if_neg hsmall]
                exact ⟨_, _, _, .streaming _, hwindow, rfl⟩
          | directory len =>
              obtain ⟨hmode, rfl⟩ := hmeets.readable len rfl
              rw [if_neg (fun h => hmode h.1)]
              exact ⟨_, _, _, .emptyDirectory, Or.inr rfl, rfl⟩
        obtain ⟨source, data, tsize, hsource, hwindow, heq⟩ := hbase
        have hsound : ReadSound options
            (sendOack mode options negotiated order source tsize).1 := by
          rw [sendOack]
          by_cases hnone : (if "tsize" ∈ negotiated then negotiated.insert "tsize" tsize.repr
              else negotiated).entries = []
          · simp only [if_pos hnone]
            exact readSound_startSending hb hsource hwindow
          · simp only [if_neg hnone]
            exact .oackWait _ _ _ hsource hwindow
        have hnext := concludeRead_running hmeets.calls hsound.running
          (sendOack mode options negotiated order source tsize).2
        refine Or.inr ⟨_, file.len, hsound, ?_, ?_⟩
        · simp only [hmeets.calls.read, heq, hnext.1]
        · simp only [hmeets.calls.read, heq, hnext.2]

/-! ## Runs of a write -/

variable {q : WriteRequest}

/-- A packet of the client that is in order, as the receive loop classifies it. -/
theorem step_inOrder (hw : UInt16.ofNat q.options.windowsize ≠ 0) {s : ReceiveState} {r : Recv}
    (horder : InOrder s r) (hsize : AsAnnounced q s r) :
    (∃ s' packets, q.step (.receiving s) r = (.receiving s', packets)) ∨
    (∃ s' finalData packets, q.step (.receiving s) r = (.commit s' finalData, packets) ∧
      sizeMismatch q.options s' finalData = []) ∨
    (∃ exit s' packets, q.step (.receiving s) r = (.ended exit s', packets) ∧
      exit ≠ .outOfOrder ∧ exit ≠ .panicked) := by
  cases r with
  | error message => exact Or.inr (Or.inr ⟨_, _, _, rfl, by simp, by simp⟩)
  | timeout => exact Or.inr (Or.inr ⟨_, _, _, rfl, by simp, by simp⟩)
  | datagram d =>
      rw [WriteRequest.step]
      cases hh : header (recvInto maxPacketSize d) with
      | none => exact Or.inl ⟨_, _, rfl⟩
      | some v =>
          obtain ⟨opcode, n, rest⟩ := v
          simp only
          by_cases herror : opcode = Opcode.error.toU16
          · rw [if_pos herror]
            exact Or.inr (Or.inr ⟨_, _, _, rfl, by simp, by simp⟩)
          rw [if_neg herror]
          by_cases hdata : opcode = Opcode.data.toU16
          · subst hdata
            rw [if_neg (by simp), WriteRequest.receiveData]
            by_cases hn : n = s.expectedBlock
            · -- the expected block: stored, or the last one, or too much
              subst hn
              rw [if_neg (by simp)]
              by_cases hexceeds : q.exceeds s rest
              · rw [if_pos hexceeds]
                exact Or.inr (Or.inr ⟨_, _, _, rfl, by simp, by simp⟩)
              rw [if_neg hexceeds, WriteRequest.appendBlock, if_neg hw]
              by_cases hfinal : rest.length < q.options.blockSize
              · rw [if_pos hfinal]
                refine Or.inr (Or.inl ⟨_, _, _, rfl, ?_⟩)
                rw [sizeMismatch]
                cases hsz : q.options.transferSize with
                | none => rfl
                | some size =>
                    have hnot : ¬(size > 0 ∧
                        (q.finalData (s.receivedData ++ rest)).length ≠ size) := by
                      rintro ⟨hpos, hne⟩
                      exact hne (hsize size d rest hsz hpos rfl hh hexceeds hfinal)
                    simp only [if_neg hnot]
              · rw [if_neg hfinal]
                exact Or.inl ⟨_, _, rfl⟩
            · -- a duplicate is acknowledged again; a block ahead is excluded
              rw [if_pos hn, mismatchedBlock]
              simp only [if_pos (horder d n rest rfl hh hn)]
              exact Or.inl ⟨_, _, rfl⟩
          · rw [if_pos hdata]
            exact Or.inl ⟨_, _, rfl⟩

theorem returnAfterError_phase (error : Option String) (packets : List Bytes)
    (result : Except TftpError Unit) (records : List AuditEvent) :
    ∃ result', (returnAfterError error packets result records).phase = .returned result' := by
  cases error with
  | none => exact ⟨_, rfl⟩
  | some e => exact ⟨_, rfl⟩

theorem returnAfterError_records (error : Option String) (packets : List Bytes)
    (result : Except TftpError Unit) (records : List AuditEvent) :
    (returnAfterError error packets result records).records = records := by
  cases error with
  | none => rfl
  | some e => rfl

/-- Every way out but those two writes one record, and none that says completed. -/
theorem WriteExit.turn_closes {exit : WriteExit} (horder : exit ≠ .outOfOrder)
    (hpanic : exit ≠ .panicked) (maxFileSizeBytes : Nat) (s : ReceiveState) (io : WriteIo)
    (packets : List Bytes) :
    ∃ result e, (exit.turn maxFileSizeBytes s io packets).phase = .returned result ∧
      (exit.turn maxFileSizeBytes s io packets).records = [e] ∧ e.terminal = true ∧
      e.completed = false := by
  cases exit with
  | clientError e => exact ⟨_, _, rfl, rfl, rfl, rfl⟩
  | outOfOrder => exact absurd rfl horder
  | tooLarge =>
      obtain ⟨result, hphase⟩ := returnAfterError_phase io.error packets (.ok ()) _
      exact ⟨result, _, hphase, returnAfterError_records _ _ _ _, rfl, rfl⟩
  | recvError e => exact ⟨_, _, rfl, rfl, rfl, rfl⟩
  | timeout e => exact ⟨_, _, rfl, rfl, rfl, rfl⟩
  | panicked => exact absurd rfl hpanic

/-- **Step lemma of a write.** -/
theorem writeTurn_closesOnce (hw : UInt16.ofNat q.options.windowsize ≠ 0) (fileCreated : Bool)
    {s : ReceiveState} {log : List AuditEvent} {io : WriteIo}
    (h : WriteMeets q ⟨.active s, log⟩ io) :
    (q.turn fileCreated s io).ClosesOnce (fun _ => True) (Stored q ⟨.active s, log⟩ io) := by
  obtain ⟨horder, hsize, hack⟩ := h
  rw [WriteRequest.turn, Stored]
  rcases step_inOrder hw horder hsize with ⟨s', packets, heq⟩ |
    ⟨s', finalData, packets, heq, hmismatch⟩ | ⟨exit, s', packets, heq, hexit, hpanic⟩
  · have hnot : ¬((∃ s' finalData, (q.step (.receiving s) io.recv).1 = .commit s' finalData) ∧
        io.ack = none ∧ io.stored = .ok ()) := by
      rintro ⟨⟨t, final, hcommit⟩, -⟩
      rw [heq] at hcommit
      cases hcommit
    left
    simp only [heq] at hnot ⊢
    cases packets with
    | nil => exact ⟨s', rfl, trivial, rfl, hnot⟩
    | cons packet packets =>
        simp only [hack] at hnot ⊢
        exact ⟨s', rfl, trivial, trivial, hnot⟩
  · right
    -- the announced size is right, so the result of `write_file_safely` is the only record
    simp only [heq, hack, storeAudited, hmismatch, List.nil_append, true_and]
    cases hstored : io.stored with
    | ok u =>
        exact ⟨_, _, rfl, rfl, rfl, iff_of_true rfl ⟨⟨s', finalData, rfl⟩, rfl⟩⟩
    | error e =>
        obtain ⟨result, hphase⟩ := returnAfterError_phase io.error
          [errorPacket .diskFull "Write failed"] (.error e)
          [.writeFailed e.display s'.expectedBlock]
        refine ⟨result, _, hphase, returnAfterError_records _ _ _ _, rfl, ?_⟩
        refine iff_of_false Bool.false_ne_true ?_
        rintro ⟨-, h⟩
        cases h
  · right
    obtain ⟨result, e, hphase, hrecords, hterminal, hnot⟩ :=
      exit.turn_closes hexit hpanic q.maxFileSizeBytes s' io packets
    simp only [heq]
    refine ⟨result, e, hphase, hrecords, hterminal, iff_of_false (by simp [hnot]) ?_⟩
    rintro ⟨⟨t, final, hcommit⟩, -⟩
    cases hcommit

end

/-! ## Completeness -/

/-- **Audit completeness.** In every run of a read or a write whose turns meet the condition,
a transfer that was started and has returned is closed by exactly one record, which says
completed iff the final block was acknowledged or the file was stored. -/
theorem audit_complete (opened : Option OpenFile) (mode : TransferMode) (options : TftpOptions)
    (negotiated : OptionMap) (maxFileSizeBytes : Nat) (order : IterOrder) (calls : ReadCalls)
    (reads : List (Recv × ReadCalls)) (q : WriteRequest) (fileCreated : Bool)
    (attempt : Nat → Option String) (writes : List WriteIo) :
    (let m := handleReadRequestAudited opened mode options negotiated maxFileSizeBytes order calls
     8 ≤ options.blockSize ∧ options.blockSize ≤ 65464 →
     (∀ file, opened = some file → ReadStarts mode options file calls) →
     m.Always ReadMeets m.start.1 reads →
     (∃ e ∈ (m.stateAfter reads).log, e.started = true) →
     m.running (m.stateAfter reads) = false →
     Closed (m.stateAfter reads).log (m.Happens (FinalAcked options.blockSize) m.start.1 reads)) ∧
    (let m := handleWriteRequestAudited q fileCreated order attempt
     UInt16.ofNat q.options.windowsize ≠ 0 →
     (∃ k, k < maxRetries ∧ attempt k = none) →
     m.Always (WriteMeets q) m.start.1 writes →
     m.running (m.stateAfter writes) = false →
     Closed (m.stateAfter writes).log (m.Happens (Stored q) m.start.1 writes)) := by
  constructor
  · intro m hb hstarts halways hstarted hdone
    have hb' : 0 < options.blockSize := by omega
    -- a request that is refused has no transfer to close
    rcases startReadAudited_sound hb' hstarts with ⟨result, e, he, hphase, hrecords⟩ |
      ⟨s, size, hsound, hphase, hrecords⟩
    · have hstart : m.start.1 = ⟨.returned result, [e]⟩ := by
        show Audited.mk _ _ = _
        rw [hphase, hrecords]
      have hstop : m.running m.start.1 = false := by rw [hstart]; rfl
      obtain ⟨e', he', hstarted⟩ := hstarted
      rw [Machine.stateAfter, Machine.exec_stopped hstop, hstart, List.mem_singleton] at he'
      rw [he', he] at hstarted
      cases hstarted
    · have hstart : m.start.1 = ⟨.active s, [.transferStarted size mode.modeStr
          options.blockSize]⟩ := by
        show Audited.mk _ _ = _
        rw [hphase, hrecords]
      rw [Machine.stateAfter, hstart] at hdone ⊢
      rw [hstart] at halways
      exact closed_of_turns rfl rfl (fun _ _ _ hs h => readTurn_closesOnce hb' hs h) hsound rfl
        reads halways hdone
  · intro m hw hsend halways hdone
    obtain ⟨k, hk, hnone⟩ := hsend
    have hstart : m.start.1 = ⟨.active {}, [.writeStarted q.mode.modeStr q.options.blockSize]⟩ := by
      have hsent := fun packet => sendWithRetry_succeed packet maxRetries (Nat.le_refl _)
        ⟨k, by omega, hk, hnone⟩
      simp only [m, handleWriteRequestAudited, hsent, afterSends]
    rw [Machine.stateAfter, hstart] at hdone ⊢
    rw [hstart] at halways
    exact closed_of_turns rfl rfl (fun _ _ _ _ h => writeTurn_closesOnce hw fileCreated h)
      trivial rfl writes halways hdone

/-- Calls that all succeed. -/
def succeedingCalls : ReadCalls := ⟨none, fun _ => none, fun _ => none⟩

theorem succeedingCalls_succeed : succeedingCalls.Succeed :=
  ⟨rfl, fun _ => rfl, ⟨0, by decide, rfl⟩⟩

/-- The read of a file with these bytes, without options. -/
def auditedRead (content : Bytes) : Machine (Audited ReadStatus) (Recv × ReadCalls) Bytes :=
  handleReadRequestAudited (some (.regular content)) .octet {} ∅ 0 .entries succeedingCalls

/-- The write of a file whose size was announced. -/
def announcedWrite (size : Nat) : WriteRequest :=
  ⟨.octet, { transferSize := some size }, ∅, 0⟩

def auditedWrite (size : Nat) : Machine (Audited ReceiveState) WriteIo Bytes :=
  handleWriteRequestAudited (announcedWrite size) true .entries fun _ => none

/-- The read and the write of an empty file. -/
theorem audit_complete_empty :
    Closed ((auditedRead []).stateAfter [(.datagram (ackPacket 1), succeedingCalls)]).log
      ((auditedRead []).Happens (FinalAcked 512) (auditedRead []).start.1
        [(.datagram (ackPacket 1), succeedingCalls)]) ∧
    Closed ((auditedWrite 0).stateAfter [⟨.datagram (dataPacket 1 []), none, none, .ok ()⟩]).log
      ((auditedWrite 0).Happens (Stored (announcedWrite 0)) (auditedWrite 0).start.1
        [⟨.datagram (dataPacket 1 []), none, none, .ok ()⟩]) := by
  constructor
  · refine (audit_complete (some (.regular [])) .octet {} ∅ 0 .entries succeedingCalls
      [(.datagram (ackPacket 1), succeedingCalls)] (announcedWrite 0) true (fun _ => none) []).1
      (by decide) ?_ ?_ ?_ (by decide +kernel)
    · rintro file ⟨⟩
      exact ⟨succeedingCalls_succeed, nofun, Or.inr rfl⟩
    · intro _
      refine ⟨⟨?_, succeedingCalls_succeed⟩, trivial⟩
      intro e
      rw [waitForAck_ack]
      exact nofun
    · exact ⟨.transferStarted 0 "octet" 512, by decide +kernel, rfl⟩
  · refine (audit_complete none .octet {} ∅ 0 .entries succeedingCalls [] (announcedWrite 0) true
      (fun _ => none) [⟨.datagram (dataPacket 1 []), none, none, .ok ()⟩]).2 (by decide)
      ⟨0, by decide, rfl⟩ ?_ (by decide +kernel)
    intro _
    refine ⟨⟨?_, ?_, rfl⟩, trivial⟩
    · rintro d n rest ⟨⟩ hh hne
      have hheader : header (recvInto maxPacketSize (dataPacket 1 []))
          = some (Opcode.data.toU16, 1, []) := by decide +kernel
      rw [hheader] at hh
      cases hh
      exact absurd rfl hne
    · rintro size d rest hsize hpos
      cases hsize
      exact absurd hpos (by decide)

/-- The log of a run that has returned, and that it does not close the transfer. -/
def ReturnsUnclosed {σ ι : Type} (m : Machine (Audited σ) ι Bytes) (ios : List ι)
    (log : List AuditEvent) : Prop :=
  m.running (m.stateAfter ios) = false ∧ (m.stateAfter ios).log = log ∧
    (∃ e ∈ log, e.started = true) ∧ ∀ done, ¬Closed (m.stateAfter ios).log done

theorem returnsUnclosed_of_count {σ ι : Type} {m : Machine (Audited σ) ι Bytes} {ios : List ι}
    {log : List AuditEvent} (hrun : m.running (m.stateAfter ios) = false)
    (hlog : (m.stateAfter ios).log = log) (hstarted : log.any AuditEvent.started = true)
    (hcount : log.countP AuditEvent.terminal ≠ 1) : ReturnsUnclosed m ios log := by
  refine ⟨hrun, hlog, List.any_eq_true.mp hstarted, fun done hclosed => hcount ?_⟩
  rw [← hlog]
  exact hclosed.once

/-- A read that gives up is not closed at all, nor is a write that ends with a block out of
order; and a write whose size was announced wrongly is closed twice. -/
theorem audit_incomplete :
    ReturnsUnclosed (auditedRead [65]) (List.replicate 5 (.timeout, succeedingCalls))
      [.transferStarted 1 "octet" 512] ∧
    ReturnsUnclosed (auditedWrite 0) [⟨.datagram (dataPacket 7 []), none, none, .ok ()⟩]
      [.writeStarted "octet" 512] ∧
    ReturnsUnclosed (auditedWrite 3) [⟨.datagram (dataPacket 1 []), none, none, .ok ()⟩]
      [.writeStarted "octet" 512, .writeFailed "Transfer size mismatch: expected 3, got 0" 1,
        .writeCompleted 0 1 true] := by
  refine ⟨returnsUnclosed_of_count ?_ ?_ ?_ ?_, returnsUnclosed_of_count ?_ ?_ ?_ ?_,
    returnsUnclosed_of_count ?_ ?_ ?_ ?_⟩
  all_goals decide +kernel

end UsgTftp
