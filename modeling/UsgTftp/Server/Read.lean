import UsgTftp.Options
import UsgTftp.Server.SendTrace

set_option autoImplicit false

/-! # Read requests

`handle_read_request` of `src/bin/server.rs`: open the file, check its size, agree on the
options with an OACK and its ACK `0`, and hand over to one of the two senders. The socket is
connected to the client and sends succeed; file hints and audit records are left out.

The function reads the file through the handle it opened, and the file does not change while
it does. A directory can be opened too: it has a length, but reading it fails.
-/

namespace UsgTftp

open Reactive Segment SeqNum

/-! ## Opened files -/

inductive OpenFile where
  | regular (content : Bytes)
  | directory (len : Nat)
  deriving DecidableEq, Repr

/-- The length in the metadata. -/
def OpenFile.len : OpenFile → Nat
  | .regular content => content.length
  | .directory len => len

def isADirectory : TftpError := .io "Is a directory (os error 21)"

/-- `read_to_end`. -/
def OpenFile.readToEnd : OpenFile → Except TftpError Bytes
  | .regular content => .ok content
  | .directory _ => .error isADirectory

/-! ## The request -/

/-- What the transfer will read its blocks from. -/
inductive Source where
  | buffered (fileData : Bytes)
  | streaming (file : OpenFile)
  deriving DecidableEq, Repr

inductive ReadStatus where
  /-- Waiting in `wait_for_ack` for the ACK of the OACK. -/
  | oackWait (source : Source) (retry : Nat)
  | buffered (fileData : Bytes) (s : SendStatus BufferedState)
  | streaming (file : Bytes) (s : SendStatus StreamState)
  | ended (result : Except TftpError Unit)

def ReadStatus.running : ReadStatus → Bool
  | .oackWait _ _ => true
  | .buffered _ s => s.running
  | .streaming _ s => s.running
  | .ended _ => false

/-- The point at which `transfer_completed` is logged. -/
inductive ReadStatus.Completed : ReadStatus → Prop where
  | buffered (fileData : Bytes) (bytes : Nat) (blocks : UInt16) :
      Completed (.buffered fileData (.done (.completed bytes blocks)))
  | streaming (file : Bytes) (bytes : Nat) (blocks : UInt16) :
      Completed (.streaming file (.done (.completed bytes blocks)))

/-- NETASCII files up to this size are converted in memory. -/
def netasciiBufferLimit : Nat := 1048576

/-- The calls of the senders. The streaming sender looks at the size first and so does not
read a directory of length zero. -/
def startSending (mode : TransferMode) (options : TftpOptions) :
    Source → ReadStatus × List Bytes
  | .buffered fileData =>
      let m := sendFileDataBuffered fileData options.blockSize options.windowsize
      (.buffered fileData m.start.1, m.start.2)
  | .streaming (.regular content) =>
      let m := sendFileDataStreaming content content.length mode options.blockSize
        options.windowsize
      (.streaming content m.start.1, m.start.2)
  | .streaming (.directory len) =>
      if len = 0 then
        let m := sendFileDataStreaming [] 0 mode options.blockSize options.windowsize
        (.streaming [] m.start.1, m.start.2)
      else (.ended (.error isADirectory), [])

/-- Fill in `tsize` and send the OACK if an option was accepted. -/
def sendOack (mode : TransferMode) (options : TftpOptions) (negotiatedOptions : OptionMap)
    (order : IterOrder) (source : Source) (tsize : Nat) : ReadStatus × List Bytes :=
  let negotiatedOptions :=
    if "tsize" ∈ negotiatedOptions then negotiatedOptions.insert "tsize" tsize.repr
    else negotiatedOptions
  if negotiatedOptions.entries = [] then startSending mode options source
  else (.oackWait source 0, [buildOackPacket (order.iter negotiatedOptions)])

/-- Everything up to the first wait; `opened` is what `File::open` gave. -/
def startReadRequest (opened : Option OpenFile) (mode : TransferMode) (options : TftpOptions)
    (negotiatedOptions : OptionMap) (maxFileSizeBytes : Nat) (order : IterOrder) :
    ReadStatus × List Bytes :=
  match opened with
  | none => (.ended (.ok ()), [errorPacket .fileNotFound "File not found"])
  | some file =>
      if maxFileSizeBytes > 0 ∧ file.len > maxFileSizeBytes then
        (.ended (.ok ()), [errorPacket .diskFull "File too large"])
      else if mode = .netascii ∧ file.len ≤ netasciiBufferLimit then
        match file.readToEnd with
        | .error e => (.ended (.error e), [])
        | .ok rawData =>
            let fileData := convertToNetascii rawData
            sendOack mode options negotiatedOptions order (.buffered fileData) fileData.length
      else sendOack mode options negotiatedOptions order (.streaming file) file.len

def readRequestStep (mode : TransferMode) (options : TftpOptions) :
    ReadStatus → Recv → ReadStatus × List Bytes
  | .oackWait source retry, r =>
      match waitForAck 0 retry r with
      | .accepted => startSending mode options source
      -- the failure is only logged
      | .failed _ => (.ended (.ok ()), [])
      | .again => (.oackWait source (retry + 1), [])
  | .buffered fileData s, r =>
      let (s, out) := sendFileDataBufferedStep fileData options.blockSize options.windowsize s r
      (.buffered fileData s, out)
  | .streaming file s, r =>
      let (s, out) :=
        sendFileDataStreamingStep file mode options.blockSize options.windowsize s r
      (.streaming file s, out)
  | .ended result, _ => (.ended result, [])

def handleReadRequest (opened : Option OpenFile) (mode : TransferMode) (options : TftpOptions)
    (negotiatedOptions : OptionMap) (maxFileSizeBytes : Nat) (order : IterOrder) :
    Machine ReadStatus Recv Bytes where
  start := startReadRequest opened mode options negotiatedOptions maxFileSizeBytes order
  step := readRequestStep mode options
  running := ReadStatus.running

end UsgTftp
