import UsgTftp.Download.Agreement
import UsgTftp.Download.Lossless
import UsgTftp.Upload.Lossless

set_option autoImplicit false

/-! # Many downloads from one server

Any number of clients run `get` against one server, over a network that loses, duplicates and
reorders datagrams. Meanwhile hosts that are none of the clients send the server whatever they
like, its uploads go on, and other programs change its files. Every datagram that reaches the
listening socket starts a task of its own, with a transfer socket that is connected to its
sender; so one request may be served several times, from files that are not the same.

The module has the system and what holds of one task for itself: `Fetch.taskMoves_spawn` and
`TaskAt.receive` say that it sends blocks of the file it has opened, and no others.
-/

namespace UsgTftp

open Reactive Segment SeqNum Posix

/-! ## The system -/

/-- A download that is run against the server. -/
structure Fetch (host : Host) where
  client : TftpClient
  remoteFile : String
  octet : client.mode = .octet
  blockSize_range : 8 ≤ client.blockSize ∧ client.blockSize ≤ 65464
  windowsize_range : 1 ≤ client.windowsize ∧ client.windowsize ≤ 65535
  /-- The window size that the server falls back to is none of the client's doing. -/
  windowsize_pos : client.windowsize > 1 ∨ 1 ≤ host.config.defaultWindowsize
  serverAddr : client.serverAddr = host.listenAddr
  nul_notMem : 0 ∉ asBytes remoteFile

/-- What `File::open` gives to the task of a datagram, if it serves a read request. -/
def Host.opens (host : Host) (t : Tree) (data : Bytes) : Option OpenFile :=
  match handleClient host.env t host.glob host.config host.order data with
  | .ok (.read filePath _ _ _) => host.openFile t filePath
  | _ => none

/-- What can be read from it. -/
def contents : Option OpenFile → Bytes
  | some (.regular content) => content
  | _ => []

/-- The server and its clients. Datagrams are listed with the client they come from or go to,
and are never taken off. -/
structure Service (ι : Type) where
  server : Server
  clients : ι → GetStatus
  /-- The client that the transfer socket at an address is connected to, if it is one. -/
  peer : SocketAddr → Option ι
  /-- What the task at an address has opened. -/
  files : SocketAddr → Option OpenFile
  toServer : List (ι × SocketAddr × Bytes)
  toClients : List (ι × SocketAddr × Bytes)

section System

variable {ι : Type} {host : Host}

/-- What is sent to a host that is no client is not listed. -/
def addressed (peer : Option ι) (out : List (SocketAddr × Bytes)) :
    List (ι × SocketAddr × Bytes) :=
  match peer with
  | some i => out.map fun m => (i, m)
  | none => []

def Service.start (fetch : ι → Fetch host) (t : Tree) : Service ι where
  server := ⟨t, []⟩
  clients := fun i => ((fetch i).client.get (fetch i).remoteFile).start.1
  peer := fun _ => none
  files := fun _ => none
  toServer := []
  toClients := []

section Steps

variable [DecidableEq ι]

/-- A datagram from `sender` reaches the server. A transfer socket takes it from its peer only. -/
def Service.receive (host : Host) (s : Service ι) (sender : Option ι) (m : SocketAddr × Bytes) :
    Service ι :=
  let r := s.server.receive host m
  let s' := { s with server := r.1, toClients := s.toClients ++ addressed sender r.2 }
  if m.1 = host.listenAddr then
    let tid := host.tids s.server.tasks.length
    { s' with
      peer := Function.update s.peer tid sender
      files := Function.update s.files tid
        (host.opens s.server.tree (recvInto maxPacketSize m.2)) }
  else if s.peer m.1 = sender then s'
  else s

/-- The client `i` goes on. -/
def Service.move (s : Service ι) (i : ι) (next : GetStatus × List (SocketAddr × Bytes)) :
    Service ι :=
  { s with
    clients := Function.update s.clients i next.1
    toServer := s.toServer ++ addressed (some i) next.2 }

/-- One step of the server, of a client, of the network or of anyone else. -/
inductive ServiceStep (fetch : ι → Fetch host) : Service ι → Service ι → Prop where
  | request (s : Service ι) (i : ι) :
      ServiceStep fetch s { s with
        toServer := s.toServer ++
          addressed (some i) ((fetch i).client.get (fetch i).remoteFile).start.2 }
  | toServer (s : Service ι) (i : ι) (m : SocketAddr × Bytes) (h : (i, m) ∈ s.toServer) :
      ServiceStep fetch s (s.receive host (some i) m)
  | stranger (s : Service ι) (m : SocketAddr × Bytes) :
      ServiceStep fetch s (s.receive host none m)
  | toClient (s : Service ι) (i : ι) (src : SocketAddr) (d : Bytes)
      (h : (i, src, d) ∈ s.toClients) :
      ServiceStep fetch s (s.move i ((fetch i).client.getStep (s.clients i) (.datagram d src)))
  | clientTimer (s : Service ι) (i : ι) :
      ServiceStep fetch s (s.move i ((fetch i).client.getStep (s.clients i) .timeout))
  | serverTimer (s : Service ι) (tid : SocketAddr) :
      ServiceStep fetch s { s with
        server := (s.server.timeout host tid).1
        toClients := s.toClients ++ addressed (s.peer tid) (s.server.timeout host tid).2 }
  | io (s : Service ι) (tid : SocketAddr) (outcome : IoOutcome) :
      ServiceStep fetch s { s with server := s.server.io host tid outcome }
  | files (s : Service ι) (t : Tree) :
      ServiceStep fetch s { s with server := { s.server with tree := t } }

end Steps

/-- The transfer sockets that were bound have addresses of their own, and no file that a client's
task has opened has more blocks than there are block numbers. -/
structure Service.Within (host : Host) (fetch : ι → Fetch host) (s : Service ι) : Prop where
  tids : ∀ m n, m < n → n < s.server.tasks.length → host.tids m ≠ host.tids n
  listen : ∀ n, n < s.server.tasks.length → host.tids n ≠ host.listenAddr
  blocks : ∀ i tid, s.peer tid = some i →
    blockCount (fetch i).client.blockSize (contents (s.files tid)) ≤ 65535

end System

/-! ## The task of a client -/

/-- A task that serves `file`, when its client has written `k` blocks from it. -/
inductive TaskAt (b : Nat) (file : Bytes) (k : Nat) : Task → Prop where
  | reading (options : TftpOptions) (st : ReadStatus) (hb : options.blockSize = b)
      (hW : 0 < options.windowsize) (h : ServerAt b file options.windowsize k st) :
      TaskAt b file k (.reading .octet options st)
  /-- A directory can be opened. If it has no length, it is sent like an empty file. -/
  | directory (options : TftpOptions) (len retry : Nat) (hb : options.blockSize = b)
      (hW : 0 < options.windowsize) (hfile : file = []) :
      TaskAt b file k (.reading .octet options (.oackWait (.streaming (.directory len)) retry))
  | multicast (filename : String) (mode : TransferMode) (options : TftpOptions) :
      TaskAt b file k (.multicast filename mode options)
  | ended (result : Except TftpError Unit) : TaskAt b file k (.ended result)

/-- What the task and its packets are after a step. -/
def TaskMoves (b : Nat) (file : Bytes) (k : Nat) (next : Task × List Bytes) : Prop :=
  TaskAt b file k next.1 ∧ ∀ d ∈ next.2, TruthfulData b file d

section Task

variable {b k : Nat} {file : Bytes} {task : Task}

theorem TaskAt.mono {k' : Nat} (h : TaskAt b file k task) (hk : k ≤ k')
    (hk' : k' ≤ blockCount b file) : TaskAt b file k' task := by
  cases h with
  | reading options st hb hW h => exact .reading options st hb hW (h.mono hk hk')
  | directory options len retry hb hW hfile => exact .directory options len retry hb hW hfile
  | multicast filename mode options => exact .multicast filename mode options
  | ended result => exact .ended result

/-- A directory is sent like an empty file, or not at all. -/
theorem serverMoves_startDirectory {options : TftpOptions} (len : Nat)
    (hb : 0 < options.blockSize) (hW : 0 < options.windowsize) :
    ServerMoves options.blockSize [] options.windowsize k
      (startSending .octet options (.streaming (.directory len))) := by
  rw [startSending]
  split_ifs
  · exact serverMoves_startSending hb hW
  · exact ⟨.ended _, by intro d hd; cases hd⟩

theorem TaskMoves.reading {options : TftpOptions} {next : ReadStatus × List Bytes}
    (hb : options.blockSize = b) (hW : 0 < options.windowsize)
    (h : ServerMoves b file options.windowsize k next) :
    TaskMoves b file k (.reading .octet options next.1, next.2) :=
  ⟨.reading options next.1 hb hW h.1, h.2⟩

/-- **Task step.** -/
theorem TaskAt.receive (h : TaskAt b file k task) (hb : 0 < b) (hk : k ≤ blockCount b file)
    (hN : blockCount b file ≤ 65535) (host : Host) (t : Tree) {r : Recv}
    (hr : ∀ n, IsAck n r → n.toNat ≤ k) : TaskMoves b file k (task.receive host t r) := by
  cases h with
  | reading options st hblock hW h =>
      subst hblock
      exact .reading rfl hW (h.step hb hW hN hk hr)
  | multicast filename mode options =>
      exact ⟨.multicast filename mode options, by intro d hd; cases hd⟩
  | ended result => exact ⟨.ended result, by intro d hd; cases hd⟩
  | directory options len retry hblock hW hfile =>
      subst hblock hfile
      rw [Task.receive, readRequestStep]
      cases waitForAck 0 retry r with
      | accepted => exact .reading rfl hW (serverMoves_startDirectory len hb hW)
      | failed e => exact ⟨.reading options _ rfl hW (.ended _), by intro d hd; cases hd⟩
      | again => exact ⟨.directory options len _ rfl hW rfl, by intro d hd; cases hd⟩

theorem TaskAt.io (h : TaskAt b file k task) (host : Host) (t : Tree) (outcome : IoOutcome) :
    (task.io host t outcome).2 = task := by
  cases h <;> rfl

/-- The transfer is completed only when the client has all of the file. -/
theorem TaskAt.completed {mode : TransferMode} {options : TftpOptions} {st : ReadStatus}
    (h : TaskAt b file k (.reading mode options st)) (hst : st.Completed) :
    k = blockCount b file := by
  cases h with
  | reading options st hb hW h => exact h.completed hst
  | directory options len retry hb hW hfile => cases hst

end Task

/-! ## The start of a task -/

/-- A string that goes on for too long is not read. -/
theorem parseString_long {bytes : Bytes} (hnul : 0 ∉ bytes.take maxStringLength) :
    ∃ e, parseString bytes = .error e := by
  unfold parseString
  split_ifs with h
  · exact ⟨_, rfl⟩
  · -- there are no more bytes than those without a NUL
    have hall : bytes.length ≤ maxStringLength := by
      by_contra hmore
      exact h ⟨by omega, hnul⟩
    rw [List.take_of_length_le hall] at hnul
    have hnone : bytes.findIdx? (· = 0) = none := by
      rw [List.findIdx?_eq_none_iff]
      intro x hx
      have hne : x ≠ 0 := fun h0 => hnul (h0 ▸ hx)
      simpa using hne
    rw [hnone]
    exact ⟨_, rfl⟩

section Spawn

variable {host : Host}

/-- The read request as the server receives it. -/
def Fetch.request (f : Fetch host) : Bytes :=
  recvInto maxPacketSize (f.client.rrqPacket f.remoteFile)

theorem Fetch.getU16_request (f : Fetch host) : ∃ bytes,
    getU16 f.request = some (Opcode.rrq.toU16, bytes) ∧
    ∀ request, parseRequestPacket parseString bytes = .ok request →
      request = ⟨f.remoteFile, f.client.mode.modeStr, f.client.requestedOptions⟩ := by
  have hb := f.blockSize_range
  have hW := f.windowsize_range
  by_cases hlen : (asBytes f.remoteFile).length ≤ 254
  · refine ⟨cstring f.remoteFile ++ (cstring f.client.mode.modeStr ++ f.client.optionBytes), ?_,
      fun request h => ?_⟩
    · rw [Fetch.request, recvInto_of_le (length_rrqPacket_le hb.2 hW.2 hlen), TftpClient.rrqPacket,
        getU16_putU16]
    · have hreq := @parseRequestPacket_rrqPacket f.client parseString readsShort_parseString
        f.remoteFile (by omega) (by omega) f.nul_notMem hlen
      rw [hreq] at h
      exact (Except.ok.inj h).symm
  · refine ⟨_, getU16_recvInto (by decide) _ _, fun request h => ?_⟩
    obtain ⟨⟨filename, bytes⟩, hparse, -⟩ := bind_eq_ok.mp h
    -- the name fills the first bytes, so the NUL behind it is not found
    have hstart : ((cstring f.remoteFile ++ (cstring f.client.mode.modeStr ++
        f.client.optionBytes)).take (maxPacketSize - 2)).take maxStringLength
          = (asBytes f.remoteFile).take maxStringLength := by
      rw [List.take_take, Nat.min_eq_left (by decide), cstring, List.append_assoc,
        List.take_append_of_le_length (by unfold maxStringLength; omega)]
    have hnul : 0 ∉ (asBytes f.remoteFile).take maxStringLength :=
      fun hmem => f.nul_notMem (List.mem_of_mem_take hmem)
    rw [← hstart] at hnul
    obtain ⟨e, he⟩ := parseString_long hnul
    rw [he] at hparse
    cases hparse

/-- A read that the request starts runs with the client's block size. -/
theorem Fetch.options_of_read (f : Fetch host) {t : Tree} {p : Path} {mode : TransferMode}
    {options : TftpOptions} {negotiated : OptionMap}
    (h : handleClient host.env t host.glob host.config host.order f.request
      = .ok (.read p mode options negotiated)) :
    mode = .octet ∧ options.blockSize = f.client.blockSize ∧ 0 < options.windowsize := by
  obtain ⟨bytes, hdata, hparsed⟩ := f.getU16_request
  obtain ⟨bytes', hdata', h⟩ := handleClient_read_iff.mp h
  rw [hdata] at hdata'
  cases hdata'
  obtain ⟨request, hreq, -, h⟩ := handleClientRrq_read_iff.mp h
  have hrequest := hparsed request hreq
  subst hrequest
  obtain ⟨hblk, hwin, -⟩ := lookup_requestedOptions f.client
  have hb := f.blockSize_range
  have hW := f.windowsize_range
  refine ⟨?_, ?_, ?_⟩
  · have hmode := h.mode_eq
    rw [TransferMode.fromStr_modeStr, f.octet] at hmode
    exact (Except.ok.inj hmode).symm
  · rw [h.options_eq, negotiate_blockSize (fun acc v => by rw [tsizeRrq_options])]
    simp only
    rw [hblk]
    split_ifs with hne
    · rw [Option.bind_some, parseInRange_repr hb.1 (show _ ≤ maxBlockSize from hb.2) (by decide)]
      rfl
    · exact (not_not.mp hne).symm
  · rw [h.options_eq, negotiate_windowsize (fun acc v => by rw [tsizeRrq_options])]
    simp only
    rw [hwin]
    split_ifs with hmore
    · rw [Option.bind_some, parseInRange_repr hW.1 hW.2 (by decide)]
      exact hW.1
    · exact f.windowsize_pos.resolve_left hmore

theorem truthfulData_errorPacket (b : Nat) (file : Bytes) (code : TftpErrorCode)
    (message : String) : TruthfulData b file (errorPacket code message) :=
  truthfulData_of_opcode (o := .error) (getU16_putU16 _ _) (by decide)

/-- A directory that is opened. -/
theorem taskMoves_directory {options : TftpOptions} (negotiated : OptionMap) (len max : Nat)
    (order : IterOrder) (hb : 0 < options.blockSize) (hW : 0 < options.windowsize) :
    let next := startReadRequest (some (.directory len)) .octet options negotiated max order
    TaskMoves options.blockSize [] 0 (.reading .octet options next.1, next.2) := by
  intro next
  show TaskMoves _ _ _ (.reading .octet options (startReadRequest _ _ _ _ _ _).1,
    (startReadRequest _ _ _ _ _ _).2)
  simp only [startReadRequest, reduceCtorEq, false_and, if_false]
  split_ifs with hsize
  · refine ⟨.reading options _ rfl hW (.ended _), fun d hd => ?_⟩
    rw [List.mem_singleton.mp hd]
    exact truthfulData_errorPacket _ _ _ _
  · rw [sendOack]
    generalize (if "tsize" ∈ negotiated then _ else _ : OptionMap) = answered
    split_ifs with hnone
    · exact .reading rfl hW (serverMoves_startDirectory len hb hW)
    · refine ⟨.directory options len 0 rfl hW rfl, fun d hd => ?_⟩
      rw [List.mem_singleton.mp hd]
      exact truthfulData_of_opcode (o := .oack) (getU16_putU16 _ _) (by decide)

/-- **A new task of a client** serves what it has opened. -/
theorem Fetch.taskMoves_spawn (f : Fetch host) (t : Tree) :
    TaskMoves f.client.blockSize (contents (host.opens t f.request)) 0
      (host.spawn t f.request) := by
  have hb := f.blockSize_range
  have hnothing : ∀ d ∈ ([] : List Bytes), TruthfulData f.client.blockSize
      (contents (host.opens t f.request)) d := by intro d hd; cases hd
  unfold Host.spawn
  cases hd : handleClient host.env t host.glob host.config host.order f.request with
  | error e => exact ⟨.ended _, hnothing⟩
  | ok dispatch =>
      cases dispatch with
      | ignored => exact ⟨.ended _, hnothing⟩
      | replied code message =>
          refine ⟨.ended _, fun d hd => ?_⟩
          rw [List.mem_singleton.mp hd]
          exact truthfulData_errorPacket _ _ _ _
      | multicast filename mode options => exact ⟨.multicast filename mode options, hnothing⟩
      | write filePath q created =>
          -- the request is no write request
          obtain ⟨bytes, hdata, -⟩ := f.getU16_request
          obtain ⟨bytes', hdata', -⟩ := handleClient_write_iff.mp hd
          rw [hdata] at hdata'
          have hopcode : Opcode.rrq.toU16 = Opcode.wrq.toU16 :=
            congrArg Prod.fst (Option.some.inj hdata')
          exact absurd hopcode (by decide)
      | read filePath mode options negotiated =>
          obtain ⟨rfl, hblock, hW⟩ := f.options_of_read hd
          have hopens : host.opens t f.request = host.openFile t filePath := by
            rw [Host.opens, hd]
          rw [hopens, ← hblock]
          have hb' : 0 < options.blockSize := by omega
          dsimp only [handleReadRequest]
          cases host.openFile t filePath with
          | none =>
              refine ⟨.reading options _ rfl hW (.ended _), fun d hd => ?_⟩
              rw [List.mem_singleton.mp hd]
              exact truthfulData_errorPacket _ _ _ _
          | some file =>
              cases file with
              | directory len =>
                  exact taskMoves_directory negotiated len host.config.maxFileSizeBytes host.order
                    hb' hW
              | regular content =>
                  have hstart := agreement_start f.client f.remoteFile negotiated
                    host.config.maxFileSizeBytes host.order content hb' hW
                  exact ⟨.reading options _ rfl hW hstart.server, hstart.data⟩

end Spawn

end UsgTftp
