import UsgTftp.Server.Grammar
import UsgTftp.Server.Tasks

set_option autoImplicit false

/-! # The worker pool of the library

`usg-tftp-server` takes `WorkerPool` from the library, and there `crate::TftpServer` is the stub
of `src/lib.rs`. A worker parses and checks a request as `handle_client` does, but the two
functions that it then hands the transfer to only return an error, which is logged.

`library_worker_silent` says that no request that `handle_client` would serve is answered.
-/

namespace UsgTftp

open Posix

/-! ## The two types `TftpServer` -/

/-- The functions of a `TftpServer` that start a transfer, up to their first wait, with the
packets they have sent until then. -/
structure TftpServer where
  handleReadRequest : Path → TransferMode → TftpOptions → OptionMap → Task × List Bytes
  handleWriteRequest : Path → WriteRequest → Bool → Task × List Bytes

/-- `TftpServer` of `src/bin/server.rs`. -/
def Host.tftpServer (host : Host) (t : Tree) : TftpServer where
  handleReadRequest filePath mode options negotiatedOptions :=
    let m := UsgTftp.handleReadRequest (host.openFile t filePath) mode options negotiatedOptions
      host.config.maxFileSizeBytes host.order
    (.reading mode options m.start.1, m.start.2)
  handleWriteRequest filePath q _ :=
    let m := UsgTftp.handleWriteRequest q host.order
    (.uploading (.receiving filePath q m.start.1), m.start.2)

/-- `TftpServer` of `src/lib.rs`. -/
def libraryTftpServer : TftpServer where
  handleReadRequest _ _ _ _ := (.ended (.error (.tftp "Not implemented in library")), [])
  handleWriteRequest _ _ _ := (.ended (.error (.tftp "Not implemented in library")), [])

/-- The task that a dispatch leads to. -/
def TftpServer.serve (server : TftpServer) : Dispatch → Task × List Bytes
  | .ignored => (.ended (.ok ()), [])
  | .replied code message => (.ended (.ok ()), [errorPacket code message])
  | .multicast filename mode options => (.multicast filename mode options, [])
  | .read filePath mode options negotiatedOptions =>
      server.handleReadRequest filePath mode options negotiatedOptions
  | .write filePath q fileCreated => server.handleWriteRequest filePath q fileCreated

/-- `process_tftp_packet` with the task that it spawns. -/
def Host.worker (host : Host) (t : Tree) (server : TftpServer) (data : Bytes) :
    Task × List Bytes :=
  server.serve (processTftpPacket host.env t host.config host.order data)

/-- The two modes differ in the dispatch and in the `TftpServer` they call, and in nothing
else. -/
theorem Host.spawn_of_dispatch {host : Host} {t : Tree} {data : Bytes} {d : Dispatch}
    (h : handleClient host.env t host.glob host.config host.order data = .ok d) :
    host.spawn t data = (host.tftpServer t).serve d := by
  unfold Host.spawn
  rw [h]
  cases d with
  | ignored => rfl
  | replied code message => rfl
  | multicast filename mode options => rfl
  | read filePath mode options negotiatedOptions => rfl
  | write filePath q fileCreated => rfl

/-! ## The two parsers -/

/-- The worker's parser reads what the server's reads, since it has one check less. -/
theorem parseNullTerminatedString_of_parseString {bytes rest : Bytes} {s : String}
    (h : parseString bytes = .ok (s, rest)) :
    parseNullTerminatedString bytes = .ok (s, rest) :=
  (parseString_eq_ok.mp h).1

/-- Both find the same file name and mode. The options can differ: the worker goes on behind
a long string, where the server stops. -/
theorem parseRequestPacket_worker {bytes : Bytes} {request : Request}
    (h : parseRequestPacket parseString bytes = .ok request) :
    ∃ options, parseRequestPacket parseNullTerminatedString bytes
      = .ok { request with options } := by
  obtain ⟨⟨filename, afterName⟩, hname, h⟩ := bind_eq_ok.mp h
  obtain ⟨⟨modeStr, afterMode⟩, hmode, h⟩ := bind_eq_ok.mp h
  cases h
  refine ⟨parseOptions parseNullTerminatedString afterMode, ?_⟩
  calc parseRequestPacket parseNullTerminatedString bytes
      = (parseNullTerminatedString afterName >>= fun r =>
          .ok ⟨filename, r.1, parseOptions parseNullTerminatedString r.2⟩) := by
        rw [parseRequestPacket, parseNullTerminatedString_of_parseString hname]
        rfl
    _ = .ok ⟨filename, modeStr, parseOptions parseNullTerminatedString afterMode⟩ := by
        rw [parseNullTerminatedString_of_parseString hmode]
        rfl

/-! ## The two dispatches -/

section Dispatches

variable {env : Env} {t : Tree} {glob : Glob} {config : ServerConfig} {order : IterOrder}
  {data : Bytes} {p : Path}

/-- A read that the server starts is started by a worker too: of the same file, in the same
mode. -/
theorem processTftpPacket_read_of_handleClient {mode : TransferMode} {options : TftpOptions}
    {negotiated : OptionMap}
    (h : handleClient env t glob config order data = .ok (.read p mode options negotiated)) :
    ∃ options' negotiated',
      processTftpPacket env t config order data = .read p mode options' negotiated' := by
  obtain ⟨bytes, hdata, h⟩ := handleClient_read_iff.mp h
  obtain ⟨request, hreq, -, h⟩ := handleClientRrq_read_iff.mp h
  obtain ⟨requested, hreq'⟩ := parseRequestPacket_worker hreq
  exact ⟨_, _, processTftpPacket_read_iff.mpr ⟨bytes, hdata,
    handleReadRequestWorker_read_iff.mpr
      ⟨_, hreq', ⟨h.mode_eq, h.notMail, h.path, rfl, rfl⟩⟩⟩⟩

/-- The same for writes. -/
theorem processTftpPacket_write_of_handleClient {q : WriteRequest} {created : Bool}
    (h : handleClient env t glob config order data = .ok (.write p q created)) :
    ∃ q', q'.mode = q.mode ∧
      processTftpPacket env t config order data = .write p q' created := by
  obtain ⟨bytes, hdata, h⟩ := handleClient_write_iff.mp h
  obtain ⟨request, mode, hreq, hc, -, rfl, rfl⟩ := handleClientWrq_write_iff.mp h
  obtain ⟨requested, hreq'⟩ := parseRequestPacket_worker hreq
  have hstart : processTftpPacket env t config order data = .write p _ _ :=
    processTftpPacket_write_iff.mpr ⟨bytes, hdata, handleWriteRequestWorker_write_iff.mpr
      ⟨_, mode, hreq', ⟨hc.enabled, hc.mode_eq, hc.notMail, hc.path, hc.overwrite⟩, rfl, rfl⟩⟩
  refine ⟨_, ?_, hstart⟩
  rfl

end Dispatches

/-! ## The first reply -/

/-- `handle_read_request` or `handle_write_request` is called. -/
def startsTransfer : Except TftpError Dispatch → Bool
  | .ok (.read _ _ _ _) => true
  | .ok (.write _ _ _) => true
  | _ => false

/-- `handle_client` serves the datagram with a transfer. -/
def Host.StartsTransfer (host : Host) (t : Tree) (data : Bytes) : Prop :=
  startsTransfer (handleClient host.env t host.glob host.config host.order data) = true

/-- A worker with this `TftpServer` sends the client the packet that `handle_client` sends
first. -/
def Host.SameFirstReply (host : Host) (t : Tree) (server : TftpServer) (data : Bytes) : Prop :=
  ∃ reply, (host.spawn t data).2.head? = some reply ∧
    (host.worker t server data).2.head? = some reply

/-- A worker of the library sends nothing, and the task it spawns ends with an error. -/
theorem Host.StartsTransfer.library_worker {host : Host} {t : Tree} {data : Bytes}
    (h : host.StartsTransfer t data) :
    host.worker t libraryTftpServer data
      = (.ended (.error (.tftp "Not implemented in library")), []) := by
  rw [Host.StartsTransfer] at h
  unfold startsTransfer at h
  split at h
  · rename_i hread
    obtain ⟨options, negotiated, hd⟩ := processTftpPacket_read_of_handleClient hread
    rw [Host.worker, hd]
    rfl
  · rename_i hwrite
    obtain ⟨q, -, hd⟩ := processTftpPacket_write_of_handleClient hwrite
    rw [Host.worker, hd]
    rfl
  · cases h

/-- **No transfer starts in the pool.** Whatever the configuration and the tree are, a request
that `handle_client` serves with a transfer gets no first reply from the worker pool of the
library. -/
theorem library_worker_silent (host : Host) (t : Tree) (data : Bytes)
    (h : host.StartsTransfer t data) : ¬ host.SameFirstReply t libraryTftpServer data := by
  rintro ⟨reply, -, hreply⟩
  rw [h.library_worker] at hreply
  cases hreply

/-- A WRQ for `a.txt` in octet mode, without options. -/
def plainWrq : Bytes := putU16 Opcode.wrq.toU16 ++ (cstring "a.txt" ++ cstring "octet")

/-- A worker of the library sends nothing for it. -/
theorem library_worker_silent_plainWrq :
    txtHost.StartsTransfer emptyRoot plainWrq ∧
    ¬ txtHost.SameFirstReply emptyRoot libraryTftpServer plainWrq := by
  have hstarts : txtHost.StartsTransfer emptyRoot plainWrq := by
    show _ = true
    decide +kernel
  exact ⟨hstarts, library_worker_silent txtHost emptyRoot plainWrq hstarts⟩

/-- In single-threaded mode it is answered with the ACK of block `0`. -/
theorem plainWrq_answered_and_not :
    txtHost.StartsTransfer emptyRoot plainWrq ∧
    (txtHost.spawn emptyRoot plainWrq).2 = [ackPacket 0] ∧
    (txtHost.worker emptyRoot libraryTftpServer plainWrq).2 = [] ∧
    ¬ ∀ (host : Host) (t : Tree) (data : Bytes), host.StartsTransfer t data →
      host.SameFirstReply t libraryTftpServer data := by
  have hstarts : txtHost.StartsTransfer emptyRoot plainWrq := by
    show _ = true
    decide +kernel
  have hsilent : (txtHost.worker emptyRoot libraryTftpServer plainWrq).2 = [] := by
    rw [hstarts.library_worker]
  refine ⟨hstarts, by decide +kernel, hsilent, ?_⟩
  intro h
  obtain ⟨reply, -, hreply⟩ := h txtHost emptyRoot plainWrq hstarts
  rw [hsilent] at hreply
  cases hreply

end UsgTftp
