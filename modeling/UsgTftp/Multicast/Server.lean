import UsgTftp.Lib.Reactive
import UsgTftp.Multicast.Session

set_option autoImplicit false

/-! # The multicast server

Requests join the session of their file, and the client that finds it empty starts a transfer,
a task that sends the file to the group of the session. Any number of requests and transfers
run side by side. A state has the sessions, the requests that have found their session but not
joined it yet, and the transfers; an event is the next step of one of them, with what it gets
from the clock, the sockets and the iteration orders. A step is taken under the lock of the
session, so that the steps of a session come one after the other in an order that nothing
restricts.

The file tree does not change. Datagrams that reach the sockets of the server wait in their
receive queues.
-/

namespace UsgTftp

open HashTable Posix Posix.Path Reactive

/-! ## Requests -/

/-- `MulticastTftpServer` on its host. -/
structure MulticastServer where
  env : Env
  config : MulticastConfig
  rootDir : Path
  /-- The text of an address, as the standard library prints it. -/
  ipText : IpAddr → String
  /-- Integer overflow panics, as in a debug build; it wraps around otherwise. -/
  overflowChecks : Bool

/-- The arguments of `handle_multicast_request`, whose options have been negotiated. -/
structure MulticastRequest where
  filename : String
  mode : TransferMode
  options : TftpOptions
  clientAddr : SocketAddr
  blockSize_range : 8 ≤ options.blockSize ∧ options.blockSize ≤ maxBlockSize

/-- A request without options is of this form. -/
theorem default_blockSize_range :
    8 ≤ ({} : TftpOptions).blockSize ∧ ({} : TftpOptions).blockSize ≤ maxBlockSize := by
  decide

/-- The requests that `handle_client` hands over are of this form. -/
theorem multicast_blockSize_range {env : Env} {t : Tree} {glob : Glob} {config : ServerConfig}
    {order : IterOrder} {data : Bytes} {filename : String} {mode : TransferMode}
    {options : TftpOptions}
    (h : handleClient env t glob config order data = .ok (.multicast filename mode options)) :
    8 ≤ options.blockSize ∧ options.blockSize ≤ maxBlockSize := by
  obtain ⟨-, requested, rfl⟩ := handleClient_multicast h
  rw [negotiate_blockSize (fun acc v => by rw [tsizeRrq_options])]
  cases hsize : (requested.lookup "blksize").bind (parseInRange 8 maxBlockSize) with
  | none => exact ⟨by decide, by decide⟩
  | some size =>
      obtain ⟨value, -, hvalue⟩ := Option.bind_eq_some_iff.mp hsize
      have := (Option.filter_eq_some_iff.mp hvalue).2
      simpa using this

def containsDotDot (filename : String) : Bool := decide (['.', '.'] <:+: filename.toList)

/-- The location that has to lie below the root, if there is one: that of the file, or else of
the directory it is named in. -/
def fileOrParent (env : Env) (t : Tree) (filePath : Path) : Option Loc :=
  match canonicalize env t filePath with
  | .ok canonicalFile => some canonicalFile
  | .error _ => filePath.parent.bind fun dir => (canonicalize env t dir).toOption

def MulticastServer.validateFilePath (srv : MulticastServer) (t : Tree) (filename : String) :
    Except TftpError Path :=
  if containsDotDot filename then .error (.tftp "Invalid filename")
  else
    let filePath := srv.rootDir.join (trimStartSlashes (filenameSegments filename))
    match rejectSymlink srv.env t filePath with
    | .error e => .error e
    | .ok () =>
        match canonicalize srv.env t srv.rootDir with
        | .error _ => .error (.tftp "Root directory error")
        | .ok canonicalRoot =>
            match fileOrParent srv.env t filePath with
            | none => .ok filePath
            | some loc =>
                if canonicalRoot <+: loc then .ok filePath else .error (.tftp "Access denied")

/-- `{:?}` of a mode. -/
def TransferMode.debug : TransferMode → String
  | .netascii => "Netascii"
  | .octet => "Octet"
  | .mail => "Mail"

def sessionKey (filename : String) (mode : TransferMode) : String :=
  filename ++ ":" ++ mode.debug

abbrev Sessions := Table String MulticastSession

def MulticastServer.getOrCreateSession (srv : MulticastServer) (sessions : Sessions)
    (key : String) (filePath : Path) (mode : TransferMode) (options : TftpOptions) : Sessions :=
  match sessions.lookup key with
  | some _ => sessions
  | none =>
      sessions.insert key (.new filePath mode options srv.config.multicastAddr
        srv.config.multicastPort srv.config.maxClients)

/-- `send_multicast_oack`. -/
def MulticastServer.oackPacket (srv : MulticastServer) (session : MulticastSession)
    (isMaster : Bool) : Bytes :=
  let flag := if isMaster then "1" else "0"
  let value := s!"{srv.ipText session.multicastAddr},{session.multicastPort},{flag}"
  buildOackPacket (⟨"multicast", value⟩ ::
    if session.options.blockSize = defaultBlockSize then []
    else [⟨"blksize", toString session.options.blockSize⟩])

/-! ## Transfers -/

inductive TransferPhase where
  | spawned
  /-- A block of the main loop is about to be sent. -/
  | sending (offset : Nat) (blockNum : UInt16)
  /-- It has been sent, and the acknowledgements are waited for. -/
  | waiting (offset : Nat) (blockNum : UInt16)
  /-- A round of `handle_retransmissions` begins. -/
  | roundStart (retry : Nat)
  | resending (retry : Nat) (retransmitBlocks : List UInt16)
  | ended
  /-- It returned an error or panicked. -/
  | failed
  deriving DecidableEq

structure TransferTask where
  key : String
  /-- Empty until the file has been read. -/
  fileData : Bytes
  phase : TransferPhase
  deriving DecidableEq

def TransferTask.running (τ : TransferTask) : Bool := τ.phase ≠ .ended ∧ τ.phase ≠ .failed

/-- What the server has done so far, as clients and the audit log see it. -/
inductive MulticastRecord where
  | oack (key : String) (addr : SocketAddr) (packet : Bytes)
  | data (key : String) (dest : SocketAddr) (packet : Bytes)
  /-- `multicast_client_removed`. -/
  | removed (key : String) (addr : SocketAddr)
  deriving DecidableEq

/-- What a transfer gets at its next step. The flags tell whether the call succeeds. -/
inductive TransferIo where
  | opened (ok : Bool)
  | sent (ok : Bool)
  /-- One turn of the loop that waits for acknowledgements. -/
  | polled
  | elapsed
  | round (now : Nat) (clientOrder : Order SocketAddr ClientState)
      (queueOrder : Order UInt16 Unit)

def maxRetransmissions : Nat := 3

def readToEnd (env : Env) (t : Tree) (p : Path) : Option Bytes :=
  match openRead env t p with
  | .error _ => none
  | .ok loc =>
      match t.entry loc with
      | some (.file i) => some (t.content i)
      | _ => none

/-- What is cut into blocks. -/
def MulticastSession.fileData (session : MulticastSession) (rawData : Bytes) : Bytes :=
  if session.mode = .netascii then convertToNetascii rawData else rawData

def MulticastSession.group (session : MulticastSession) : SocketAddr :=
  ⟨session.multicastAddr, session.multicastPort⟩

/-- The head of the main loop. -/
def nextBlock (fileData : Bytes) (offset : Nat) (blockNum : UInt16) : TransferPhase :=
  if offset < fileData.length then .sending offset blockNum else .roundStart 0

/-- The end of the body of the main loop. -/
def advanceBlock (fileData : Bytes) (blockSize offset : Nat) (blockNum : UInt16) : TransferPhase :=
  let bytesToSend := min blockSize (fileData.length - offset)
  if bytesToSend < blockSize then .roundStart 0
  else nextBlock fileData (offset + bytesToSend) (blockNum + 1)

/-- The rest of a round, or the next one. -/
def nextResend (retry : Nat) : List UInt16 → TransferPhase
  | [] => if retry + 1 < maxRetransmissions then .roundStart (retry + 1) else .ended
  | blocks => .resending retry blocks

/-- `(block_num - 1) as usize`, or `none` if it overflows and that panics. -/
def MulticastServer.blockIndex (srv : MulticastServer) (blockNum : UInt16) : Option Nat :=
  if srv.overflowChecks ∧ blockNum = 0 then none else some (blockNum - 1).toNat

/-- `master_timeout_secs * 2`. -/
def MulticastServer.clientTimeout (srv : MulticastServer) : Option UInt64 :=
  if srv.overflowChecks then (inactiveTimeout srv.config).toOption
  else some (srv.config.masterTimeoutSecs * 2)

section Transfer

variable (srv : MulticastServer) (t : Tree) (session : MulticastSession) (τ : TransferTask)

/-- A block of a retransmission round. An offset past the end is skipped; an overflow of
`checked_mul` is too. -/
def MulticastServer.resend (retry : Nat) (blockNum : UInt16) (rest : List UInt16) (ok : Bool) :
    TransferPhase × List MulticastRecord :=
  match srv.blockIndex blockNum with
  | none => (.failed, [])
  | some blockIndex =>
      let offset := blockIndex * session.options.blockSize
      if offset ≥ 2 ^ 64 ∨ offset ≥ τ.fileData.length then (nextResend retry rest, [])
      else if ok then
        (nextResend retry rest, [.data τ.key session.group
          (dataPacket blockNum ((τ.fileData.drop offset).take session.options.blockSize))])
      else (.failed, [])

/-- One step of `run_multicast_transfer`: the session and the transfer after it, and what it
does. An input that the transfer is not waiting for changes nothing. -/
def MulticastServer.transferStep (io : TransferIo) :
    MulticastSession × TransferTask × List MulticastRecord :=
  match τ.phase, io with
  | .spawned, .opened ok =>
      match (if ok then readToEnd srv.env t session.filePath else none) with
      | none => (session, { τ with phase := .failed }, [])
      | some rawData =>
          let fileData := session.fileData rawData
          (session, { τ with fileData := fileData, phase := nextBlock fileData 0 1 }, [])
  | .sending offset blockNum, .sent ok =>
      if ok then
        (session, { τ with phase := .waiting offset blockNum }, [.data τ.key session.group
          (dataPacket blockNum ((τ.fileData.drop offset).take session.options.blockSize))])
      else (session, { τ with phase := .failed }, [])
  | .waiting offset blockNum, .polled =>
      if session.allClientsAcked blockNum then
        (session, { τ with
          phase := advanceBlock τ.fileData session.options.blockSize offset blockNum }, [])
      else (session, τ, [])
  | .waiting offset blockNum, .elapsed =>
      (session.queueRetransmit blockNum, { τ with
        phase := advanceBlock τ.fileData session.options.blockSize offset blockNum }, [])
  | .roundStart retry, .round now clientOrder queueOrder =>
      match srv.clientTimeout with
      | none => (session, { τ with phase := .failed }, [])
      | some timeoutSecs =>
          let gone := session.inactiveClients clientOrder timeoutSecs now
          let (session, retransmitBlocks) :=
            (session.removeInactiveClients clientOrder timeoutSecs now).takeRetransmitQueue
              queueOrder
          (session, { τ with
            phase := if retransmitBlocks = [] then .ended
              else .resending retry retransmitBlocks }, gone.map (.removed τ.key))
  | .resending retry (blockNum :: rest), .sent ok =>
      let (phase, records) := srv.resend session τ retry blockNum rest ok
      (session, { τ with phase := phase }, records)
  | _, _ => (session, τ, [])

end Transfer

/-! ## The server -/

/-- A socket of the server: that of a request, or that of a transfer. -/
inductive MulticastSocket where
  | response (clientAddr : SocketAddr)
  | transfer (i : Nat)
  deriving DecidableEq

structure MulticastState where
  sessions : Sessions := ∅
  /-- Requests that have found their session and wait for its lock. -/
  joining : List (String × SocketAddr) := []
  transfers : List TransferTask := []
  /-- Newest last. -/
  log : List MulticastRecord := []
  /-- The receive queues, with the sender of each datagram. Nothing reads from them. -/
  received : List (MulticastSocket × SocketAddr × Bytes) := []

inductive MulticastEvent where
  | request (r : MulticastRequest)
  /-- A request gets the lock of its session; `sent` tells whether its OACK can be sent. -/
  | join (j : Nat) (now : Nat) (sent : Bool)
  | transfer (i : Nat) (io : TransferIo)
  | datagram (socket : MulticastSocket) (source : SocketAddr) (d : Bytes)

section Server

variable (srv : MulticastServer) (t : Tree)

/-- `handle_multicast_request` up to the lock of the session. -/
def MulticastServer.requestStep (s : MulticastState) (r : MulticastRequest) : MulticastState :=
  match srv.validateFilePath t r.filename with
  | .error _ => s
  | .ok filePath =>
      match metadata srv.env t filePath with
      | .error _ => s
      | .ok _ =>
          let key := sessionKey r.filename r.mode
          { s with
            sessions := srv.getOrCreateSession s.sessions key filePath r.mode r.options
            joining := s.joining ++ [(key, r.clientAddr)] }

/-- The rest of `handle_multicast_request`: the client is added, and is told so. -/
def MulticastServer.joinStep (s : MulticastState) (key : String) (addr : SocketAddr) (now : Nat)
    (sent : Bool) : MulticastState :=
  match s.sessions.lookup key with
  | none => s
  | some session =>
      match session.addClient addr now with
      | .error _ => s
      | .ok (session, isMaster) =>
          let s := { s with sessions := s.sessions.insert key session }
          if sent then
            { s with
              log := s.log ++ [.oack key addr (srv.oackPacket session isMaster)]
              transfers := if isMaster then s.transfers ++ [⟨key, [], .spawned⟩]
                else s.transfers }
          else s

def MulticastServer.step (s : MulticastState) : MulticastEvent → MulticastState
  | .request r => srv.requestStep t s r
  | .join j now sent =>
      match s.joining[j]? with
      | none => s
      | some (key, addr) =>
          srv.joinStep { s with joining := s.joining.eraseIdx j } key addr now sent
  | .transfer i io =>
      match s.transfers[i]? with
      | none => s
      | some τ =>
          match s.sessions.lookup τ.key with
          | none => s
          | some session =>
              let (session, τ', records) := srv.transferStep t session τ io
              { s with
                sessions := s.sessions.insert τ.key session
                transfers := s.transfers.set i τ'
                log := s.log ++ records }
  | .datagram socket source d => { s with received := s.received ++ [(socket, source, d)] }

/-- A run from a server without sessions. -/
def MulticastServer.run (events : List MulticastEvent) : MulticastState :=
  events.foldl (srv.step t) {}

/-- The state before event `n` of an infinite run. -/
def MulticastServer.stateAt (es : Nat → MulticastEvent) (n : Nat) : MulticastState :=
  srv.run t ((List.range n).map es)

end Server

/-! ## What a step does -/

section Moves

variable (srv : MulticastServer) (t : Tree) (session : MulticastSession) (τ : TransferTask)

/-- What a session's transfers send, before it is cut into blocks. -/
def MulticastServer.sessionData : Bytes :=
  match readToEnd srv.env t session.filePath with
  | none => []
  | some rawData => session.fileData rawData

/-- No call of this step fails, and its arithmetic does not overflow. -/
def MulticastServer.succeeds (io : TransferIo) : Bool :=
  match τ.phase, io with
  | .spawned, .opened ok => ok && (readToEnd srv.env t session.filePath).isSome
  | .sending _ _, .sent ok => ok
  | .roundStart _, .round _ _ _ => srv.clientTimeout.isSome
  | .resending _ (blockNum :: _), .sent ok => ok && (srv.blockIndex blockNum).isSome
  | _, _ => true

/-- **What a step of a transfer can do.** -/
inductive TransferMove (io : TransferIo) :
    MulticastSession × TransferTask × List MulticastRecord → Prop where
  | idle : TransferMove io (session, τ, [])
  | fails (hrun : τ.running = true) (h : srv.succeeds t session τ io = false) :
      TransferMove io (session, { τ with phase := .failed }, [])
  | opens (hphase : τ.phase = .spawned)
      (hread : (readToEnd srv.env t session.filePath).isSome = true) :
      TransferMove io (session, { τ with
        fileData := srv.sessionData t session
        phase := nextBlock (srv.sessionData t session) 0 1 }, [])
  | sends {offset : Nat} {blockNum : UInt16} (hphase : τ.phase = .sending offset blockNum) :
      TransferMove io (session, { τ with phase := .waiting offset blockNum },
        [.data τ.key session.group
          (dataPacket blockNum ((τ.fileData.drop offset).take session.options.blockSize))])
  | acked {offset : Nat} {blockNum : UInt16} (hphase : τ.phase = .waiting offset blockNum)
      (hacked : session.allClientsAcked blockNum = true) :
      TransferMove io (session, { τ with
        phase := advanceBlock τ.fileData session.options.blockSize offset blockNum }, [])
  | elapses {offset : Nat} {blockNum : UInt16} (hphase : τ.phase = .waiting offset blockNum) :
      TransferMove io (session.queueRetransmit blockNum, { τ with
        phase := advanceBlock τ.fileData session.options.blockSize offset blockNum }, [])
  | begins {retry : Nat} (hphase : τ.phase = .roundStart retry) (timeoutSecs : UInt64) (now : Nat)
      (clientOrder : Order SocketAddr ClientState) (queueOrder : Order UInt16 Unit)
      {blocks : List UInt16}
      (hblocks : blocks = (queueOrder.iter session.retransmitQueue).map (·.1)) :
      TransferMove io ({ session.removeInactiveClients clientOrder timeoutSecs now with
          retransmitQueue := ∅ },
        { τ with phase := if blocks = [] then .ended else .resending retry blocks },
        (session.inactiveClients clientOrder timeoutSecs now).map (.removed τ.key))
  | skips {retry : Nat} {blockNum : UInt16} {rest : List UInt16}
      (hphase : τ.phase = .resending retry (blockNum :: rest))
      (hpast : (blockNum - 1).toNat * session.options.blockSize ≥ 2 ^ 64 ∨
        (blockNum - 1).toNat * session.options.blockSize ≥ τ.fileData.length) :
      TransferMove io (session, { τ with phase := nextResend retry rest }, [])
  | resends {retry : Nat} {blockNum : UInt16} {rest : List UInt16}
      (hphase : τ.phase = .resending retry (blockNum :: rest))
      (hinside : (blockNum - 1).toNat * session.options.blockSize < τ.fileData.length) :
      TransferMove io (session, { τ with phase := nextResend retry rest },
        [.data τ.key session.group (dataPacket blockNum
          ((τ.fileData.drop ((blockNum - 1).toNat * session.options.blockSize)).take
            session.options.blockSize))])

variable {srv t session τ}

theorem MulticastServer.blockIndex_eq_some {blockNum : UInt16} {i : Nat}
    (h : srv.blockIndex blockNum = some i) : i = (blockNum - 1).toNat := by
  unfold blockIndex at h
  split_ifs at h
  exact (Option.some.inj h).symm

theorem running_of_phase {phase : TransferPhase} (h : τ.phase = phase) (hended : phase ≠ .ended)
    (hfailed : phase ≠ .failed) : τ.running = true := by
  subst h
  exact decide_eq_true ⟨hended, hfailed⟩

theorem MulticastServer.resend_move {retry : Nat} {blockNum : UInt16} {rest : List UInt16}
    (hphase : τ.phase = .resending retry (blockNum :: rest)) (ok : Bool) :
    TransferMove srv t session τ (.sent ok)
      (session, { τ with phase := (srv.resend session τ retry blockNum rest ok).1 },
        (srv.resend session τ retry blockNum rest ok).2) := by
  have hrun := running_of_phase hphase (by simp) (by simp)
  unfold resend
  cases hindex : srv.blockIndex blockNum with
  | none =>
      exact .fails hrun (by simp [succeeds, hphase, hindex])
  | some i =>
      obtain rfl := blockIndex_eq_some hindex
      by_cases hpast : (blockNum - 1).toNat * session.options.blockSize ≥ 2 ^ 64 ∨
          (blockNum - 1).toNat * session.options.blockSize ≥ τ.fileData.length
      · simp only [if_pos hpast]
        exact .skips hphase hpast
      · cases ok with
        | true =>
            simp only [if_neg hpast, if_true]
            exact .resends hphase (by omega)
        | false =>
            simp only [if_neg hpast, Bool.false_eq_true, if_false]
            exact .fails hrun (by simp [succeeds, hphase])

theorem MulticastServer.transferStep_move (io : TransferIo) :
    TransferMove srv t session τ io (srv.transferStep t session τ io) := by
  unfold transferStep
  split
  next ok hphase =>
    have hrun := running_of_phase hphase (by simp) (by simp)
    cases ok with
    | false => exact .fails hrun (by simp [succeeds, hphase])
    | true =>
        cases hread : readToEnd srv.env t session.filePath with
        | none => exact .fails hrun (by simp [succeeds, hphase, hread])
        | some rawData =>
            have hdata : session.fileData rawData = srv.sessionData t session := by
              rw [sessionData, hread]
            simp only [if_true, hdata]
            exact .opens hphase (by rw [hread]; rfl)
  next offset blockNum ok hphase =>
    cases ok with
    | true => exact .sends hphase
    | false =>
        exact .fails (running_of_phase hphase (by simp) (by simp)) (by simp [succeeds, hphase])
  next offset blockNum hphase =>
    split
    · rename_i hacked
      exact .acked hphase hacked
    · exact .idle
  next offset blockNum hphase => exact .elapses hphase
  next retry now clientOrder queueOrder hphase =>
    cases htimeout : srv.clientTimeout with
    | none =>
        exact .fails (running_of_phase hphase (by simp) (by simp))
          (by simp [succeeds, hphase, htimeout])
    | some timeoutSecs =>
        refine .begins hphase timeoutSecs now clientOrder queueOrder ?_
        rw [MulticastSession.retransmitQueue_removeInactiveClients]
  next retry blockNum rest ok hphase => exact resend_move hphase ok
  next => exact .idle

end Moves

section ServerMoves

variable (srv : MulticastServer) (t : Tree) (s : MulticastState) (e : MulticastEvent)

/-- **What an event can do** to the sessions, the transfers and the log. -/
inductive ServerMove : MulticastState → Prop where
  | idle {s' : MulticastState} (hsessions : s'.sessions = s.sessions)
      (htransfers : s'.transfers = s.transfers) (hlog : s'.log = s.log) : ServerMove s'
  | creates {s' : MulticastState} {key : String} {filePath : Path} {r : MulticastRequest}
      (hnew : s.sessions.lookup key = none)
      (hsessions : s'.sessions = s.sessions.insert key (.new filePath r.mode r.options
        srv.config.multicastAddr srv.config.multicastPort srv.config.maxClients))
      (htransfers : s'.transfers = s.transfers) (hlog : s'.log = s.log) : ServerMove s'
  | joins {s' : MulticastState} {key : String} {addr : SocketAddr} {now : Nat} {sent : Bool}
      {j : Nat} {session session' : MulticastSession} {isMaster : Bool}
      (hevent : e = .join j now sent) (hjoining : s.joining[j]? = some (key, addr))
      (hsession : s.sessions.lookup key = some session)
      (hadd : session.addClient addr now = .ok (session', isMaster))
      (hsessions : s'.sessions = s.sessions.insert key session')
      (htransfers : s'.transfers = s.transfers ++
        if sent && isMaster then [⟨key, [], .spawned⟩] else [])
      (hlog : s'.log = s.log ++
        if sent then [.oack key addr (srv.oackPacket session' isMaster)] else []) : ServerMove s'
  | moves {s' : MulticastState} {i : Nat} {io : TransferIo} {τ τ' : TransferTask}
      {session session' : MulticastSession} {records : List MulticastRecord}
      (hevent : e = .transfer i io) (hτ : s.transfers[i]? = some τ)
      (hsession : s.sessions.lookup τ.key = some session)
      (hmove : TransferMove srv t session τ io (session', τ', records))
      (hsessions : s'.sessions = s.sessions.insert τ.key session')
      (htransfers : s'.transfers = s.transfers.set i τ')
      (hlog : s'.log = s.log ++ records) : ServerMove s'

variable {srv t s e}

theorem MulticastServer.requestStep_move (r : MulticastRequest) :
    ServerMove srv t s e (srv.requestStep t s r) := by
  unfold requestStep
  split
  · exact .idle rfl rfl rfl
  · split
    · exact .idle rfl rfl rfl
    · rename_i filePath _ _ _ _
      cases hnew : s.sessions.lookup (sessionKey r.filename r.mode) with
      | none =>
          refine @ServerMove.creates srv t s e _ _ filePath r hnew ?_ rfl rfl
          simp only [getOrCreateSession, hnew]
      | some session => exact .idle (by simp only [getOrCreateSession, hnew]) rfl rfl

theorem MulticastServer.step_move : ServerMove srv t s e (srv.step t s e) := by
  cases e with
  | request r => exact requestStep_move r
  | join j now sent =>
      rw [step]
      cases hj : s.joining[j]? with
      | none => exact .idle rfl rfl rfl
      | some entry =>
          obtain ⟨key, addr⟩ := entry
          simp only [joinStep]
          cases hsession : s.sessions.lookup key with
          | none => exact .idle rfl rfl rfl
          | some session =>
              simp only
              cases hadd : session.addClient addr now with
              | error e => exact .idle rfl rfl rfl
              | ok result =>
                  obtain ⟨session', isMaster⟩ := result
                  refine .joins rfl hj hsession hadd ?_ ?_ ?_
                  · cases sent <;> rfl
                  · cases sent <;> cases isMaster <;> simp
                  · cases sent <;> simp
  | transfer i io =>
      rw [step]
      cases hτ : s.transfers[i]? with
      | none => exact .idle rfl rfl rfl
      | some τ =>
          simp only
          cases hsession : s.sessions.lookup τ.key with
          | none => exact .idle rfl rfl rfl
          | some session =>
              exact .moves rfl hτ hsession (transferStep_move io) rfl rfl rfl
  | datagram socket source d => exact .idle rfl rfl rfl

end ServerMoves

/-! ## Runs -/

section Runs

variable {srv : MulticastServer} {t : Tree}

theorem MulticastServer.run_append (events : List MulticastEvent) (e : MulticastEvent) :
    srv.run t (events ++ [e]) = srv.step t (srv.run t events) e := by
  rw [run, List.foldl_append]
  rfl

theorem MulticastServer.stateAt_succ (es : Nat → MulticastEvent) (n : Nat) :
    srv.stateAt t es (n + 1) = srv.step t (srv.stateAt t es n) (es n) := by
  rw [stateAt, List.range_succ, List.map_append, List.map_singleton, run_append]
  rfl

theorem MulticastServer.run_invariant {inv : MulticastState → Prop} (hstart : inv {})
    (hstep : ∀ s e, inv s → inv (srv.step t s e)) (events : List MulticastEvent) :
    inv (srv.run t events) :=
  foldl_invariant hstep events {} hstart

end Runs

/-! ## A small server -/

/-- The directory `/srv/tftp` with the files `a` and `b`, of one block each. -/
def twoFileTree : Tree :=
  let t := (emptyRoot.addFile ["srv", "tftp"] "a").addFile ["srv", "tftp"] "b"
  (t.setContent 0 [97]).setContent 1 [98]

def plainServer : MulticastServer where
  env := ⟨[], 40⟩
  config := { enabled := true, multicastAddr := .v4 0xe0000101 }
  rootDir := Path.ofString "/srv/tftp"
  ipText := fun _ => "224.0.1.1"
  overflowChecks := true

/-- The `n`-th client asks for a file and joins its session at once. -/
def joinEvents (filename : String) (n : Nat) : List MulticastEvent :=
  [.request ⟨filename, .octet, {}, ⟨.v4 (BitVec.ofNat 32 n), 2000⟩, by decide⟩, .join 0 0 true]

end UsgTftp
