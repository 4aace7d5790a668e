import UsgTftp.Server.Read
import UsgTftp.Server.Request

set_option autoImplicit false

/-! # Configurations

`validate_config` of `src/config.rs`, and the places where the server computes with values of
a configuration that was accepted: the buffer sizes of its socket, the channels of the worker
pool, `select_worker`, the window of a transfer and the time limit of a multicast session.
Only the fields that these functions read are in the model.

`accepted_config_faultless_iff` says which accepted configurations cannot fault the server.
-/

namespace UsgTftp

open Posix Path Reactive

/-! ## The configuration -/

inductive MulticastIpVersion where
  | v4
  | v6
  deriving DecidableEq, Repr

structure MulticastConfig where
  enabled : Bool := false
  multicastAddr : IpAddr := .v6 0xff120000000000000000000080000001
  multicastIpVersion : MulticastIpVersion := .v6
  multicastPort : UInt16 := 1758
  maxClients : UInt64 := 10
  masterTimeoutSecs : UInt64 := 30

inductive LoadBalanceStrategy where
  | roundRobin
  | clientHash
  | leastLoaded
  deriving DecidableEq, Repr

/-- The default `worker_count` depends on the machine: it is the number of processors less
two, between `1` and `8`. -/
structure WorkerPoolConfig where
  enabled : Bool := false
  workerCount : UInt64
  workerChannelSize : UInt64 := 256
  senderChannelSize : UInt64 := 512
  loadBalanceStrategy : LoadBalanceStrategy := .roundRobin

structure SocketConfig where
  recvBufferKb : UInt64 := 2048
  sendBufferKb : UInt64 := 2048

/-- With the fields of `platform` that are used. -/
structure PerformanceConfig where
  defaultWindowsize : UInt64 := 1
  socket : SocketConfig := {}
  workerPool : WorkerPoolConfig

structure TftpConfig where
  rootDir : Path
  bindAddr : SocketAddr
  multicast : MulticastConfig := {}
  /-- `logging.file`. -/
  logFile : Option Path
  writeConfig : WriteConfig
  performance : PerformanceConfig
  maxFileSizeBytes : UInt64 := 104857600

/-- What a request is handled with. -/
def TftpConfig.serverConfig (config : TftpConfig) : ServerConfig where
  rootDir := config.rootDir
  writeConfig := config.writeConfig
  maxFileSizeBytes := config.maxFileSizeBytes.toNat
  defaultWindowsize := config.performance.defaultWindowsize.toNat
  multicastEnabled := config.multicast.enabled

/-! ## Validation -/

/-- The system calls of the validation that are not about the tree: each gives the text of
its error, or `none`. -/
structure Probe where
  readDir : Path → Option String
  bind : SocketAddr → Option String
  openAppend : Path → Option String
  errorText : Errno → String

/-- `char::is_whitespace`. -/
def isWhitespace (c : Char) : Bool :=
  let n := c.toNat
  (9 ≤ n && n ≤ 13) || n = 0x20 || n = 0x85 || n = 0xA0 || n = 0x1680 ||
    (0x2000 ≤ n && n ≤ 0x200A) || n = 0x2028 || n = 0x2029 || n = 0x202F || n = 0x205F ||
    n = 0x3000

/-- Fail with the given error if the call did. -/
def orFail (result : Option String) (e : String → TftpError) : Except TftpError Unit :=
  match result with
  | none => .ok ()
  | some text => .error (e text)

def validateMulticastConfig (config : MulticastConfig) : Except TftpError Unit :=
  match config.multicastIpVersion, config.multicastAddr with
  | .v4, .v4 _ => .ok ()
  | .v6, .v6 _ => .ok ()
  | _, _ => .error (.tftp "Multicast address does not match multicast IP version")

def validatePattern (pattern : String) : Except TftpError Unit :=
  if pattern.toList.all isWhitespace then
    .error (.tftp "Write allowed_patterns cannot contain empty patterns")
  else if pattern = "*" ∨ pattern = "**" ∨ pattern = "**/*" then
    .error (.tftp (s!"Write pattern '{pattern}' is too permissive. " ++
      "Use specific patterns like '*.txt' or 'subdir/*.cfg'"))
  else .ok ()

def validateWriteConfig (config : WriteConfig) : Except TftpError Unit :=
  if config.enabled ∧ config.allowedPatterns = [] then
    .error (.tftp ("Write operations enabled but no allowed_patterns specified. " ++
      "Add patterns to allowed_patterns or disable writes."))
  else config.allowedPatterns.forM validatePattern

section Validate

variable (env : Env) (t : Tree) (probe : Probe)

def validateRootDir (rootDir : Path) : Except TftpError Unit := do
  if rootDir.absolute = false then throw (.tftp "root_dir must be an absolute path")
  match metadata env t rootDir with
  | .ok .dir => pure ()
  | .ok _ => throw (.tftp "root_dir must be a directory")
  | .error .enoent => throw (.tftp "root_dir does not exist; create it or adjust config")
  | .error e => throw (.io (probe.errorText e))
  orFail (probe.readDir rootDir) fun e => .tftp s!"root_dir is not readable: {e}"

def validateLogFile (logFile : Path) : Except TftpError Unit :=
  match logFile.parent with
  | none => .error (.tftp "logging.file must include a parent directory")
  | some parent =>
      match metadata env t parent with
      | .ok .dir =>
          orFail (probe.openAppend logFile) fun e => .tftp s!"logging.file not writable: {e}"
      | .ok _ => .error (.tftp "logging.file parent must be a directory")
      | .error e => .error (.tftp s!"logging.file parent error: {probe.errorText e}")

/-- An open of the log file may create it; nothing below looks at it. -/
def validateConfig (config : TftpConfig) (validateBind : Bool) : Except TftpError Unit := do
  validateRootDir env t probe config.rootDir
  if config.bindAddr.port = 0 then throw (.tftp "bind_addr port must be non-zero")
  if validateBind then
    orFail (probe.bind config.bindAddr) fun e => .tftp s!"bind_addr is not available: {e}"
  if config.multicast.multicastPort < 1024 then
    throw (.tftp "multicast_port must be in range 1024-65535")
  match config.logFile with
  | some logFile => validateLogFile env t probe logFile
  | none => pure ()
  validateMulticastConfig config.multicast
  validateWriteConfig config.writeConfig

end Validate

/-! ## Computing with the configuration -/

inductive Fault where
  /-- An integer multiplication overflows. -/
  | multiplyOverflow
  /-- `mpsc::channel(0)`. -/
  | zeroCapacity
  | remainderByZero
  /-- `window_packets.last().unwrap()` on an empty window. -/
  | emptyWindow
  deriving DecidableEq, Repr

/-- `a * b`, on `usize` and `u64`. -/
def multiply (a b : UInt64) : Except Fault UInt64 :=
  if a.toNat * b.toNat < 2 ^ 64 then .ok (a * b) else .error .multiplyOverflow

/-- `a % b`. -/
def remainder (a b : UInt64) : Except Fault UInt64 :=
  if b = 0 then .error .remainderByZero else .ok (a % b)

/-- `mpsc::channel`, as its capacity. -/
def mpscChannel (buffer : UInt64) : Except Fault UInt64 :=
  if buffer = 0 then .error .zeroCapacity else .ok buffer

/-- `create_optimized_socket`, as the buffer sizes it asks for. -/
def createOptimizedSocket (config : SocketConfig) : Except Fault (UInt64 × UInt64) := do
  let recvBufferBytes ← multiply config.recvBufferKb 1024
  let sendBufferBytes ← multiply config.sendBufferKb 1024
  return (recvBufferBytes, sendBufferBytes)

/-- The channels of a pool. -/
structure WorkerPool where
  senderTx : UInt64
  workerSenders : List UInt64

/-- `WorkerPool::new`. -/
def WorkerPool.new (config : WorkerPoolConfig) : Except Fault WorkerPool := do
  let senderTx ← mpscChannel config.senderChannelSize
  let workerSenders ←
    (List.replicate config.workerCount.toNat config.workerChannelSize).mapM mpscChannel
  return ⟨senderTx, workerSenders⟩

/-- `select_worker`: the worker and the new counter. The hash of an address is that of the
standard library. -/
def selectWorker (hash : SocketAddr → UInt64) (strategy : LoadBalanceStrategy)
    (clientAddr : SocketAddr) (workerCount roundRobinCounter : UInt64) :
    Except Fault (UInt64 × UInt64) :=
  match strategy with
  | .roundRobin => do
      let idx ← remainder roundRobinCounter workerCount
      return (idx, roundRobinCounter + 1)
  | .clientHash => do
      let idx ← remainder (hash clientAddr) workerCount
      return (idx, roundRobinCounter)
  | .leastLoaded => do
      let idx ← remainder roundRobinCounter workerCount
      return (idx, roundRobinCounter + 1)

/-- `run`, up to the loop that receives requests. -/
def startServer (config : TftpConfig) : Except Fault (Option WorkerPool) := do
  let _ ← createOptimizedSocket config.performance.socket
  if config.performance.workerPool.enabled then
    let pool ← WorkerPool.new config.performance.workerPool
    return some pool
  else return none

/-- `add_client`: whether the client is the master of the session. -/
def addClient (maxClients : UInt64) (clients : List SocketAddr) : Except TftpError Bool :=
  if clients.length ≥ maxClients.toNat then
    .error (.tftp s!"Maximum clients ({maxClients}) reached")
  else .ok clients.isEmpty

/-- The argument of `remove_inactive_clients` in `handle_retransmissions`. -/
def inactiveTimeout (config : MulticastConfig) : Except Fault UInt64 :=
  multiply config.masterTimeoutSecs 2

/-! ## Faults -/

/-- A sender took the last packet of an empty window. -/
inductive ReadStatus.Panicked : ReadStatus → Prop where
  | buffered (fileData : Bytes) : Panicked (.buffered fileData (.done .panicked))
  | streaming (file : Bytes) : Panicked (.streaming file (.done .panicked))

section Faults

variable (env : Env) (hash : SocketAddr → UInt64) (config : TftpConfig)

/-- The datagram leads to `d`, in the loop of the server or in its worker pool. -/
def TftpConfig.Dispatches (t : Tree) (glob : Glob) (order : IterOrder) (data : Bytes)
    (d : Dispatch) : Prop :=
  if config.performance.workerPool.enabled then
    processTftpPacket env t config.serverConfig order data = d
  else handleClient env t glob config.serverConfig order data = .ok d

/-- A run of the server in which `f` happens: as it starts, as it hands a datagram to a
worker, or in a transfer. The file tree, the opened file and what a transfer receives are
arbitrary. -/
inductive Faults : Fault → Prop where
  | start {f : Fault} (h : startServer config = .error f) : Faults f
  | select {f : Fault} {pool : WorkerPool} (hstart : startServer config = .ok (some pool))
      (clientAddr : SocketAddr) (counter : UInt64)
      (h : selectWorker hash config.performance.workerPool.loadBalanceStrategy clientAddr
        (.ofNat pool.workerSenders.length) counter = .error f) : Faults f
  | read {t : Tree} {glob : Glob} {order : IterOrder} {data : Bytes} {p : Path}
      {mode : TransferMode} {options : TftpOptions} {negotiated : OptionMap}
      {pool : Option WorkerPool} (hstart : startServer config = .ok pool)
      (h : config.Dispatches env t glob order data (.read p mode options negotiated))
      (opened : Option OpenFile) (rs : List Recv)
      (hpanic : ((handleReadRequest opened mode options negotiated
        config.maxFileSizeBytes.toNat order).stateAfter rs).Panicked) : Faults .emptyWindow
  | write {t : Tree} {glob : Glob} {order : IterOrder} {data : Bytes} {p : Path}
      {q : WriteRequest} {created : Bool} {pool : Option WorkerPool}
      (hstart : startServer config = .ok pool)
      (h : config.Dispatches env t glob order data (.write p q created)) (rs : List Recv)
      (s : ReceiveState)
      (hpanic : (handleWriteRequest q order).stateAfter rs = .ended .panicked s) :
      Faults .remainderByZero
  /-- The file is found and sent; the first client of a session starts its transfer. -/
  | multicast {t : Tree} {glob : Glob} {order : IterOrder} {data : Bytes} {filename : String}
      {mode : TransferMode} {options : TftpOptions} {f : Fault} {pool : Option WorkerPool}
      (hstart : startServer config = .ok pool)
      (h : config.Dispatches env t glob order data (.multicast filename mode options))
      (hmaster : addClient config.multicast.maxClients [] = .ok true)
      (hfault : inactiveTimeout config.multicast = .error f) : Faults f

/-- The window size is one that a transfer is started with. -/
inductive UsedWindowsize : Nat → Prop where
  | read {t : Tree} {glob : Glob} {order : IterOrder} {data : Bytes} {p : Path}
      {mode : TransferMode} {options : TftpOptions} {negotiated : OptionMap}
      (h : config.Dispatches env t glob order data (.read p mode options negotiated)) :
      UsedWindowsize options.windowsize
  | write {t : Tree} {glob : Glob} {order : IterOrder} {data : Bytes} {p : Path}
      {q : WriteRequest} {created : Bool}
      (h : config.Dispatches env t glob order data (.write p q created)) :
      UsedWindowsize q.options.windowsize

/-- No run of the server faults, and the window sizes and the number of workers are in
range. -/
structure Faultless : Prop where
  noFault : ∀ f, ¬ Faults env hash config f
  windowsize : ∀ w, UsedWindowsize env config w →
    (1 ≤ w ∧ w ≤ 65535) ∧ 1 ≤ (UInt16.ofNat w).toNat
  workerCount : ∀ pool, startServer config = .ok (some pool) → 1 ≤ pool.workerSenders.length

/-- The bounds that `validate_config` does not check. -/
structure WithinBounds : Prop where
  windowsize : 1 ≤ config.performance.defaultWindowsize.toNat ∧
    config.performance.defaultWindowsize.toNat ≤ 65535
  recvBuffer : config.performance.socket.recvBufferKb.toNat * 1024 < 2 ^ 64
  sendBuffer : config.performance.socket.sendBufferKb.toNat * 1024 < 2 ^ 64
  workerPool : config.performance.workerPool.enabled = true →
    config.performance.workerPool.workerCount ≠ 0 ∧
    config.performance.workerPool.workerChannelSize ≠ 0 ∧
    config.performance.workerPool.senderChannelSize ≠ 0
  multicast : config.performance.workerPool.enabled = false → config.multicast.enabled = true →
    config.multicast.maxClients ≠ 0 → config.multicast.masterTimeoutSecs.toNat * 2 < 2 ^ 64

end Faults

/-! ## Starting -/

theorem multiply_eq_ok {a b c : UInt64} :
    multiply a b = .ok c ↔ a.toNat * b.toNat < 2 ^ 64 ∧ c = a * b := by
  unfold multiply
  by_cases h : a.toNat * b.toNat < 2 ^ 64
  · rw [if_pos h, Except.ok.injEq, eq_comm]
    exact (and_iff_right h).symm
  · rw [if_neg h]
    constructor
    · intro hok
      cases hok
    · intro hok
      exact absurd hok.1 h

theorem mpscChannel_eq_ok {buffer c : UInt64} :
    mpscChannel buffer = .ok c ↔ buffer ≠ 0 ∧ c = buffer := by
  unfold mpscChannel
  by_cases h : buffer = 0
  · simp [h]
  · simp [h, eq_comm]

theorem mapM_mpscChannel {buffer : UInt64} {cs : List UInt64} :
    ∀ n : Nat, (List.replicate n buffer).mapM mpscChannel = .ok cs ↔
      (n ≠ 0 → buffer ≠ 0) ∧ cs = List.replicate n buffer := by
  intro n
  induction n generalizing cs with
  | zero =>
      rw [List.replicate_zero, List.mapM_nil]
      show Except.ok [] = Except.ok cs ↔ _
      simp [eq_comm]
  | succ n ih =>
      rw [List.replicate_succ, List.mapM_cons, bind_eq_ok]
      constructor
      · rintro ⟨c, hc, h⟩
        obtain ⟨cs', hcs, h⟩ := bind_eq_ok.mp h
        cases h
        obtain ⟨hne, rfl⟩ := mpscChannel_eq_ok.mp hc
        exact ⟨fun _ => hne, by rw [(ih.mp hcs).2]⟩
      · rintro ⟨hne, rfl⟩
        have hbuf := hne (Nat.succ_ne_zero n)
        refine ⟨buffer, mpscChannel_eq_ok.mpr ⟨hbuf, rfl⟩, ?_⟩
        rw [ih.mpr ⟨fun _ => hbuf, rfl⟩]
        rfl

theorem WorkerPool.new_eq_ok {config : WorkerPoolConfig} {pool : WorkerPool} :
    WorkerPool.new config = .ok pool ↔
      config.senderChannelSize ≠ 0 ∧
      (config.workerCount.toNat ≠ 0 → config.workerChannelSize ≠ 0) ∧
      pool = ⟨config.senderChannelSize,
        List.replicate config.workerCount.toNat config.workerChannelSize⟩ := by
  unfold WorkerPool.new
  rw [bind_eq_ok]
  constructor
  · rintro ⟨senderTx, hsender, h⟩
    obtain ⟨workerSenders, hworkers, h⟩ := bind_eq_ok.mp h
    cases h
    obtain ⟨hne, rfl⟩ := mpscChannel_eq_ok.mp hsender
    obtain ⟨hchan, rfl⟩ := (mapM_mpscChannel _).mp hworkers
    exact ⟨hne, hchan, rfl⟩
  · rintro ⟨hne, hchan, rfl⟩
    refine ⟨_, mpscChannel_eq_ok.mpr ⟨hne, rfl⟩, ?_⟩
    rw [(mapM_mpscChannel _).mpr ⟨hchan, rfl⟩]
    rfl

/-- The server starts when its buffer sizes fit and its channels have room. -/
theorem startServer_eq_ok {config : TftpConfig} {pool : Option WorkerPool} :
    startServer config = .ok pool ↔
      config.performance.socket.recvBufferKb.toNat * 1024 < 2 ^ 64 ∧
      config.performance.socket.sendBufferKb.toNat * 1024 < 2 ^ 64 ∧
      if config.performance.workerPool.enabled then
        ∃ p, WorkerPool.new config.performance.workerPool = .ok p ∧ pool = some p
      else pool = none := by
  -- the two buffer sizes are computed before the pool is built
  unfold startServer createOptimizedSocket
  rw [bind_eq_ok]
  constructor
  · rintro ⟨sizes, hsizes, h⟩
    obtain ⟨recv, hrecv, hsizes⟩ := bind_eq_ok.mp hsizes
    obtain ⟨send, hsend, -⟩ := bind_eq_ok.mp hsizes
    refine ⟨(multiply_eq_ok.mp hrecv).1, (multiply_eq_ok.mp hsend).1, ?_⟩
    split_ifs at h ⊢ with henabled
    · obtain ⟨p, hp, h⟩ := bind_eq_ok.mp h
      cases h
      exact ⟨p, hp, rfl⟩
    · cases h
      rfl
  · rintro ⟨hrecv, hsend, h⟩
    refine ⟨_, bind_eq_ok.mpr ⟨_, multiply_eq_ok.mpr ⟨hrecv, rfl⟩, bind_eq_ok.mpr ⟨_,
      multiply_eq_ok.mpr ⟨hsend, rfl⟩, rfl⟩⟩, ?_⟩
    split_ifs at h ⊢ with henabled
    · obtain ⟨p, hp, rfl⟩ := h
      rw [hp]
      rfl
    · rw [h]
      rfl

theorem remainder_eq_error {a b : UInt64} {f : Fault} :
    remainder a b = .error f ↔ b = 0 ∧ f = .remainderByZero := by
  unfold remainder
  by_cases h : b = 0
  · simp [h, eq_comm]
  · simp [h]

theorem selectWorker_eq_error {hash : SocketAddr → UInt64} {strategy : LoadBalanceStrategy}
    {addr : SocketAddr} {workerCount counter : UInt64} {f : Fault} :
    selectWorker hash strategy addr workerCount counter = .error f ↔
      workerCount = 0 ∧ f = .remainderByZero := by
  have hbind : ∀ (a : UInt64) (g : UInt64 → UInt64 × UInt64),
      (remainder a workerCount >>= fun idx => Except.ok (g idx)) = Except.error f ↔
        workerCount = 0 ∧ f = .remainderByZero := by
    intro a g
    rw [← remainder_eq_error]
    cases remainder a workerCount with
    | error e => simp [Bind.bind, Except.bind]
    | ok idx => simp [Bind.bind, Except.bind]
  cases strategy with
  | roundRobin => exact hbind _ _
  | clientHash => exact hbind _ _
  | leastLoaded => exact hbind _ _

/-! ## Transfers -/

/-- No packet of an empty window has been or will be asked for. -/
def SendStatus.NoPanic {σ : Type} (filled : σ → Prop) : SendStatus σ → Prop
  | .awaitingEmpty _ => True
  | .awaiting s => filled s
  | .done e => e ≠ .panicked

theorem noPanic_awaitEmpty {σ : Type} {filled : σ → Prop} (retry : Nat) (r : Recv) :
    (awaitEmpty retry r : SendStatus σ).NoPanic filled := by
  unfold awaitEmpty
  split
  · exact SendExit.noConfusion
  · exact SendExit.noConfusion
  · trivial

section Buffered

variable {fileData : Bytes} {blockSize windowsize : Nat}

theorem noPanic_sendWindowBuffered {s : BufferedState} (hs : s.windowPackets ≠ []) :
    (sendWindowBuffered s).1.NoPanic (·.windowPackets ≠ []) := by
  unfold sendWindowBuffered
  split_ifs
  · exact SendExit.noConfusion
  · exact hs

/-- A window that starts within the file has a packet if there is room for one. -/
theorem buildWindowBuffered_ne_nil (blockSize : Nat) {room offset : Nat} (blockNum : UInt16)
    (hroom : 0 < room) (hoff : offset ≤ fileData.length) :
    (buildWindowBuffered fileData blockSize room offset blockNum).1 ≠ [] := by
  obtain ⟨room, rfl⟩ := Nat.exists_eq_succ_of_ne_zero (Nat.ne_of_gt hroom)
  unfold buildWindowBuffered
  rw [if_pos hoff]
  dsimp only
  by_cases hlast : min blockSize (fileData.length - offset) < blockSize
  · rw [if_pos hlast]
    exact List.cons_ne_nil _ _
  · rw [if_neg hlast]
    exact List.cons_ne_nil _ _

theorem noPanic_nextWindowBuffered (hW : 0 < windowsize) (offset : Nat) (blockNum : UInt16)
    (eofSent : Bool) :
    (nextWindowBuffered fileData blockSize windowsize offset blockNum eofSent).1.NoPanic
      (·.windowPackets ≠ []) := by
  unfold nextWindowBuffered
  by_cases h : offset ≤ fileData.length ∧ eofSent = false
  · have hne := buildWindowBuffered_ne_nil blockSize blockNum hW h.1
    rw [if_pos h]
    dsimp only
    rw [if_neg hne]
    exact noPanic_sendWindowBuffered hne
  · rw [if_neg h]
    exact SendExit.noConfusion

theorem advanceBuffered_ne_panicked (entries : List WindowPacket) (offset : Nat)
    (blockNum : UInt16) :
    advanceBuffered fileData blockSize entries offset blockNum ≠ .inl .panicked := by
  induction entries generalizing offset blockNum with
  | nil =>
      intro h
      cases h
  | cons entry entries ih =>
      unfold advanceBuffered
      split_ifs
      · intro h
        cases h
      · exact ih _ _

theorem noPanic_sendFileDataBufferedStep (hW : 0 < windowsize) {st : SendStatus BufferedState}
    (hst : st.NoPanic (·.windowPackets ≠ [])) (r : Recv) :
    (sendFileDataBufferedStep fileData blockSize windowsize st r).1.NoPanic
      (·.windowPackets ≠ []) := by
  cases st with
  | awaitingEmpty retry => exact noPanic_awaitEmpty retry r
  | done e => exact hst
  | awaiting s =>
      unfold sendFileDataBufferedStep
      dsimp only
      rw [List.getLast?_eq_some_getLast hst]
      dsimp only
      split
      · split
        · rename_i exit hexit
          rintro rfl
          exact advanceBuffered_ne_panicked _ _ _ hexit
        · exact noPanic_nextWindowBuffered hW _ _ _
      · exact noPanic_sendWindowBuffered hst

end Buffered

section Streaming

variable {file : Bytes} {mode : TransferMode} {blockSize windowsize : Nat}

theorem noPanic_sendWindowStreaming {s : StreamState} (hs : s.windowPackets ≠ []) :
    (sendWindowStreaming s).1.NoPanic (·.windowPackets ≠ []) := by
  unfold sendWindowStreaming
  split_ifs
  · exact SendExit.noConfusion
  · exact hs

/-- The streaming sender stops at an empty window. -/
theorem noPanic_nextWindowStreaming (cursor : Nat) (blockNum : UInt16) (bytesTransferred : Nat)
    (eofReached : Bool) :
    (nextWindowStreaming file mode blockSize windowsize cursor blockNum bytesTransferred
      eofReached).1.NoPanic (·.windowPackets ≠ []) := by
  unfold nextWindowStreaming
  generalize (if eofReached then ([], cursor, blockNum, true)
    else buildWindowStreaming file mode blockSize windowsize cursor blockNum) = built
  obtain ⟨entries, cursor', blockNum', eof'⟩ := built
  dsimp only
  by_cases h : entries = []
  · rw [if_pos h]
    exact SendExit.noConfusion
  · rw [if_neg h]
    exact noPanic_sendWindowStreaming h

theorem advanceStreaming_ne_panicked (entries : List StreamPacket) (bytesTransferred : Nat) :
    advanceStreaming entries bytesTransferred ≠ .inl .panicked := by
  induction entries generalizing bytesTransferred with
  | nil =>
      intro h
      cases h
  | cons entry entries ih =>
      unfold advanceStreaming
      split_ifs
      · intro h
        cases h
      · exact ih _

theorem noPanic_sendFileDataStreamingStep {st : SendStatus StreamState}
    (hst : st.NoPanic (·.windowPackets ≠ [])) (r : Recv) :
    (sendFileDataStreamingStep file mode blockSize windowsize st r).1.NoPanic
      (·.windowPackets ≠ []) := by
  cases st with
  | awaitingEmpty retry => exact noPanic_awaitEmpty retry r
  | done e => exact hst
  | awaiting s =>
      unfold sendFileDataStreamingStep
      dsimp only
      rw [List.getLast?_eq_some_getLast hst]
      dsimp only
      split
      · split
        · rename_i exit hexit
          rintro rfl
          exact advanceStreaming_ne_panicked _ _ hexit
        · split_ifs
          · exact SendExit.noConfusion
          · exact noPanic_nextWindowStreaming _ _ _ _
      · exact noPanic_sendWindowStreaming hst

end Streaming

/-- A read transfer that has not panicked, in a state from which it will not. -/
def ReadStatus.NoPanic : ReadStatus → Prop
  | .buffered _ s => s.NoPanic (·.windowPackets ≠ [])
  | .streaming _ s => s.NoPanic (·.windowPackets ≠ [])
  | _ => True

section ReadRequests

variable {mode : TransferMode} {options : TftpOptions}

theorem noPanic_startSending (hW : 0 < options.windowsize) (source : Source) :
    (startSending mode options source).1.NoPanic := by
  cases source with
  | buffered fileData =>
      show ((sendFileDataBuffered fileData options.blockSize options.windowsize).start.1).NoPanic _
      unfold sendFileDataBuffered
      dsimp only
      split_ifs
      · trivial
      · exact noPanic_nextWindowBuffered hW _ _ _
  | streaming file =>
      cases file with
      | regular content =>
          show ((sendFileDataStreaming content content.length mode options.blockSize
            options.windowsize).start.1).NoPanic _
          unfold sendFileDataStreaming
          dsimp only
          split_ifs
          · trivial
          · exact noPanic_nextWindowStreaming _ _ _ _
      | directory len =>
          rw [startSending]
          split_ifs
          · trivial
          · trivial

theorem noPanic_readRequestStep (hW : 0 < options.windowsize) {st : ReadStatus}
    (hst : st.NoPanic) (r : Recv) : (readRequestStep mode options st r).1.NoPanic := by
  cases st with
  | oackWait source retry =>
      unfold readRequestStep
      dsimp only
      split
      · exact noPanic_startSending hW source
      · trivial
      · trivial
  | buffered fileData s => exact noPanic_sendFileDataBufferedStep hW hst r
  | streaming file s => exact noPanic_sendFileDataStreamingStep hst r
  | ended result => trivial

theorem noPanic_sendOack (hW : 0 < options.windowsize) (negotiated : OptionMap)
    (order : IterOrder) (source : Source) (tsize : Nat) :
    (sendOack mode options negotiated order source tsize).1.NoPanic := by
  unfold sendOack
  generalize (if "tsize" ∈ negotiated then negotiated.insert "tsize" tsize.repr
    else negotiated) = filled
  dsimp only
  split_ifs
  · exact noPanic_startSending hW source
  · trivial

/-- **Reads do not panic** when the window has room for a packet. -/
theorem noPanic_handleReadRequest (hW : 0 < options.windowsize) (opened : Option OpenFile)
    (negotiated : OptionMap) (maxFileSizeBytes : Nat) (order : IterOrder) (rs : List Recv) :
    ((handleReadRequest opened mode options negotiated maxFileSizeBytes order).stateAfter
      rs).NoPanic := by
  refine Machine.exec_invariant _ ReadStatus.NoPanic (fun _ _ => True)
    (fun st r _ hst _ => noPanic_readRequestStep hW hst r) rs _ ?_ (fun _ _ _ _ => trivial)
  show (startReadRequest opened mode options negotiated maxFileSizeBytes order).1.NoPanic
  unfold startReadRequest
  split
  · trivial
  · split_ifs
    · trivial
    · split
      · trivial
      · exact noPanic_sendOack hW _ _ _ _
    · exact noPanic_sendOack hW _ _ _ _

theorem ReadStatus.NoPanic.not_panicked {st : ReadStatus} (h : st.NoPanic) : ¬ st.Panicked := by
  intro hp
  cases hp with
  | buffered fileData => exact h rfl
  | streaming file => exact h rfl

end ReadRequests

/-- One step of a write does not panic when the remainder has a divisor. -/
theorem step_ne_panicked {q : WriteRequest} (hw : UInt16.ofNat q.options.windowsize ≠ 0)
    {st : WriteStatus} (hst : ∀ s, st ≠ .ended .panicked s) (r : Recv) (s : ReceiveState) :
    (q.step st r).1 ≠ .ended .panicked s := by
  cases st with
  | commit s' final =>
      intro h
      cases h
  | ended e s' => exact hst s
  | receiving s' =>
      cases r with
      | error message =>
          intro h
          cases h
      | timeout =>
          intro h
          cases h
      | datagram d =>
          rw [WriteRequest.step]
          split
          · exact WriteStatus.noConfusion
          · split_ifs
            · intro h
              cases h
            · exact WriteStatus.noConfusion
            · unfold WriteRequest.receiveData
              split_ifs
              · rcases mismatchedBlock_state s' _ with hm | hm <;> rw [hm] <;>
                  · intro h
                    cases h
              · intro h
                cases h
              · -- the division by the window size
                unfold WriteRequest.appendBlock
                dsimp only
                rw [if_neg hw]
                split_ifs <;>
                  · intro h
                    cases h

/-- **Writes do not panic** when the window size is not zero as a `u16`. -/
theorem handleWriteRequest_ne_panicked {q : WriteRequest}
    (hw : UInt16.ofNat q.options.windowsize ≠ 0) (order : IterOrder) (rs : List Recv)
    (s : ReceiveState) : (handleWriteRequest q order).stateAfter rs ≠ .ended .panicked s := by
  refine Machine.exec_invariant (handleWriteRequest q order)
    (fun st => ∀ s, st ≠ .ended .panicked s) (fun _ _ => True)
    (fun st r _ hst _ s => step_ne_panicked hw hst r s) rs _ ?_
    (fun _ _ _ _ => trivial) s
  intro s h
  cases h

/-! ## The window size in use -/

section Dispatch

variable {env : Env} {config : TftpConfig}

theorem negotiate_windowsize_mem {tsize : Negotiation → String → Negotiation}
    (htsize : ∀ acc v, (tsize acc v).options.windowsize = acc.options.windowsize) {w : Nat}
    (hw : 1 ≤ w ∧ w ≤ 65535) (order : IterOrder) (requested : OptionMap) :
    1 ≤ (negotiate tsize w order requested).options.windowsize ∧
      (negotiate tsize w order requested).options.windowsize ≤ 65535 := by
  rw [negotiate_windowsize htsize]
  cases h : (requested.lookup "windowsize").bind (parseInRange 1 65535) with
  | none => exact hw
  | some n =>
      obtain ⟨v, -, hv⟩ := Option.bind_eq_some_iff.mp h
      exact parseInRange_mem hv

theorem tsizeRrq_windowsize (acc : Negotiation) (v : String) :
    (tsizeRrq acc v).options.windowsize = acc.options.windowsize := by
  rw [tsizeRrq_options]

theorem tsizeWrq_windowsize (acc : Negotiation) (v : String) :
    (tsizeWrq acc v).options.windowsize = acc.options.windowsize := by
  unfold tsizeWrq
  split <;> rfl

/-- The window size of a transfer is the one asked for, or the default. -/
theorem UsedWindowsize.mem {w : Nat} (h : UsedWindowsize env config w)
    (hw : 1 ≤ config.performance.defaultWindowsize.toNat ∧
      config.performance.defaultWindowsize.toNat ≤ 65535) : 1 ≤ w ∧ w ≤ 65535 := by
  cases h with
  | read h =>
      unfold TftpConfig.Dispatches at h
      split_ifs at h
      · obtain ⟨bytes, -, h⟩ := processTftpPacket_read_iff.mp h
        obtain ⟨request, -, h⟩ := handleReadRequestWorker_read_iff.mp h
        rw [h.options_eq]
        exact @negotiate_windowsize_mem tsizeRrqWorker (fun _ _ => rfl) _ hw _ _
      · obtain ⟨bytes, -, h⟩ := handleClient_read_iff.mp h
        obtain ⟨request, -, -, h⟩ := handleClientRrq_read_iff.mp h
        rw [h.options_eq]
        exact negotiate_windowsize_mem tsizeRrq_windowsize hw _ _
  | write h =>
      unfold TftpConfig.Dispatches at h
      split_ifs at h
      · obtain ⟨bytes, -, h⟩ := processTftpPacket_write_iff.mp h
        obtain ⟨request, mode, -, -, rfl, -⟩ := handleWriteRequestWorker_write_iff.mp h
        exact @negotiate_windowsize_mem tsizeWrqWorker (fun _ _ => rfl) _ hw _ _
      · obtain ⟨bytes, -, h⟩ := handleClient_write_iff.mp h
        obtain ⟨request, mode, -, -, -, rfl, -⟩ := handleClientWrq_write_iff.mp h
        exact negotiate_windowsize_mem tsizeWrq_windowsize hw _ _

theorem pool_workers {pool : WorkerPool} (h : startServer config = .ok (some pool)) :
    config.performance.workerPool.enabled = true ∧
      pool.workerSenders.length = config.performance.workerPool.workerCount.toNat := by
  have hpool := (startServer_eq_ok.mp h).2.2
  split_ifs at hpool with henabled
  · obtain ⟨p, hp, heq⟩ := hpool
    cases heq
    rw [(WorkerPool.new_eq_ok.mp hp).2.2]
    exact ⟨henabled, List.length_replicate⟩

theorem toNat_ne_zero {n : UInt64} (h : n ≠ 0) : n.toNat ≠ 0 :=
  fun h0 => h (UInt64.toNat_inj.mp h0)

end Dispatch

/-! ## Requests that use the defaults -/

theorem hasNul_join {p : Path} {rel : List String} (hp : p.hasNul = false)
    (hrel : ∀ s ∈ rel, ¬ s.toList.contains (Char.ofNat 0) = true) :
    (p.join rel).hasNul = false := by
  unfold hasNul join stem at *
  rw [List.any_eq_false] at hp ⊢
  intro s hs
  rcases List.mem_append.mp hs with hs | hs
  · refine hp s ?_
    split_ifs at hs
    · exact List.dropLast_subset _ hs
    · exact hs
  · exact hrel s hs

/-- A directory is found as well under its path with a slash at the end. -/
theorem lookup_join_empty {env : Env} {t : Tree} {p : Path} {loc : Loc}
    (h : canonicalize env t p = .ok loc) (hdir : t.entry loc = some .dir) (follow : Bool) :
    ∃ n, lookup env t follow (p.join [""]) (p.join [""]).fullComps = .ok (.found loc, n) := by
  obtain ⟨m, hm⟩ := canonicalize_eq_ok.mp h
  obtain ⟨hnul, hempty⟩ := lookup_ok hm
  have hcomps : (p.join [""]).comps = p.comps := by
    rw [comps_join]
    exact List.append_nil _
  rw [lookup_eq hnul hempty] at hm
  have hwalk : walk t true env.maxSymlinks (p.start env.cwd) p.comps = .ok (.found loc, m) := by
    refine walk_dots ?_ hm
    intro c hc
    split_ifs at hc
    · exact List.mem_singleton.mp hc
    · cases hc
  -- the empty file name adds a trailing slash, and with it a last component `.`
  have hslash : (p.join [""]).trailingSlash = decide (p.comps ≠ []) := by
    unfold trailingSlash
    rw [hcomps]
    simp [join]
  rw [lookup_eq (hasNul_join hnul (by decide))
      (by rintro ⟨habs, hc⟩; exact hempty ⟨habs, hcomps ▸ hc⟩),
    fullComps, hcomps, hslash]
  show ∃ n, walk t follow env.maxSymlinks (p.start env.cwd) _ = _
  by_cases hne : p.comps = []
  · rw [hne, walk_nil] at hwalk
    rw [hne]
    exact ⟨m, by rw [← hwalk]; exact walk_nil _ _ _ _⟩
  · rw [if_pos (by simpa using hne), walk_append t follow (List.cons_ne_nil _ _), hwalk]
    exact ⟨m, by rw [andThen, walk_dot hdir, walk_nil]⟩

/-- **A request for the empty name** is a request for the root. -/
theorem validateAndResolvePath_empty {env : Env} {t : Tree} {rootDir : Path}
    (hdir : isDir env t rootDir = true) :
    validateAndResolvePath env t rootDir "" = .ok (rootDir.join [""]) := by
  obtain ⟨R, hR, hentry⟩ := isDir_iff.mp hdir
  have hcan : canonicalize env t (rootDir.join [""]) = .ok R :=
    canonicalize_eq_ok.mpr (lookup_join_empty hR hentry true)
  have hlink : rejectSymlink env t (rootDir.join [""]) = .ok () := by
    obtain ⟨n, hn⟩ := lookup_join_empty hR hentry false
    unfold rejectSymlink symlinkMetadata
    rw [hn]
    dsimp only
    rw [hentry]
  have hsegs : filenameSegments "" = [""] := by decide
  unfold validateAndResolvePath
  rw [hsegs, if_neg (by decide)]
  have htrim : trimStartSlashes [""] = [""] := by decide
  rw [htrim]
  dsimp only
  rw [hlink]
  dsimp only
  rw [hR]
  dsimp only
  rw [nearestCanonical, hcan]
  exact if_pos (List.prefix_refl R)

theorem isDir_of_validateRootDir {env : Env} {t : Tree} {probe : Probe} {rootDir : Path}
    (h : validateRootDir env t probe rootDir = .ok ()) : isDir env t rootDir = true := by
  unfold validateRootDir at h
  by_cases habs : rootDir.absolute = false
  · rw [if_pos habs] at h
    cases h
  rw [if_neg habs] at h
  dsimp only at h
  split at h
  · rename_i hmeta
    exact decide_eq_true hmeta
  · cases h
  · cases h
  · cases h

theorem isDir_of_validateConfig {env : Env} {t : Tree} {probe : Probe} {config : TftpConfig}
    {validateBind : Bool} (h : validateConfig env t probe config validateBind = .ok ()) :
    isDir env t config.rootDir = true := by
  obtain ⟨⟨⟩, hroot, -⟩ := bind_eq_ok.mp h
  exact isDir_of_validateRootDir hroot

section RootRequest

variable {env : Env} {t : Tree} {config : TftpConfig}

/-- An RRQ for the empty name, with the bytes of its options. -/
def rootRequest (options : Bytes) : Bytes :=
  putU16 Opcode.rrq.toU16 ++ (cstring "" ++ (cstring "octet" ++ options))

theorem getU16_rootRequest (options : Bytes) :
    getU16 (rootRequest options)
      = some (Opcode.rrq.toU16, cstring "" ++ (cstring "octet" ++ options)) := getU16_putU16 _ _

theorem negotiate_empty_windowsize {tsize : Negotiation → String → Negotiation}
    (htsize : ∀ acc v, (tsize acc v).options.windowsize = acc.options.windowsize) (w : Nat)
    (order : IterOrder) : (negotiate tsize w order ∅).options.windowsize = w := by
  rw [negotiate_windowsize htsize]
  rfl

/-- **The default window size is used**: an RRQ without options runs with it. -/
theorem usedWindowsize_default (hroot : isDir env t config.rootDir = true) (glob : Glob) :
    UsedWindowsize env config config.performance.defaultWindowsize.toNat := by
  have hpath : validateAndResolvePath env t config.serverConfig.rootDir "" = .ok _ :=
    validateAndResolvePath_empty hroot
  -- a read request for the root directory without options, through either path
  by_cases hpool : config.performance.workerPool.enabled = true
  · have hreq := parseRequestPacket_cstring
      (@reads_parseNullTerminatedString "" (by decide))
      (@reads_parseNullTerminatedString "octet" (by decide)) []
    have hread := processTftpPacket_read_iff.mpr ⟨_, getU16_rootRequest [],
      (@handleReadRequestWorker_read_iff env t config.serverConfig .entries _ _ .octet _ _).mpr
        ⟨_, hreq, by decide, by decide, hpath, rfl, rfl⟩⟩
    have hdisp : config.Dispatches env t glob .entries _ _ := (if_pos hpool).mpr hread
    have hused := UsedWindowsize.read hdisp
    rwa [show parseOptions parseNullTerminatedString [] = ∅ from rfl,
      @negotiate_empty_windowsize tsizeRrqWorker (fun _ _ => rfl)] at hused
  · have hreq := parseRequestPacket_cstring (@reads_parseString "" (by decide) (by decide))
      (@reads_parseString "octet" (by decide) (by decide)) []
    have hread := (@handleClient_read_iff env t glob _ _ _ _ _ _ _).mpr
      ⟨_, getU16_rootRequest [],
        (@handleClientRrq_read_iff env t config.serverConfig .entries _ _ .octet _ _).mpr
          ⟨_, hreq, by decide, by decide, by decide, hpath, rfl, rfl⟩⟩
    have hdisp : config.Dispatches env t glob .entries _ _ := (if_neg hpool).mpr hread
    have hused := UsedWindowsize.read hdisp
    rwa [show parseOptions parseString [] = ∅ from rfl,
      negotiate_empty_windowsize tsizeRrq_windowsize] at hused

/-- An RRQ with the option `multicast` starts or joins a session. -/
theorem dispatches_multicast (hpool : config.performance.workerPool.enabled = false)
    (hmulti : config.multicast.enabled = true) (glob : Glob) (order : IterOrder) :
    ∃ data options, config.Dispatches env t glob order data (.multicast "" .octet options) := by
  have hreads : ∀ e ∈ [(⟨"multicast", ""⟩ : OptionEntry)],
      Reads parseString e.1 ∧ Reads parseString e.2 := by
    intro e he
    cases List.mem_singleton.mp he
    exact ⟨reads_parseString (by decide) (by decide), reads_parseString (by decide) (by decide)⟩
  have hreq := parseRequestPacket_cstring (@reads_parseString "" (by decide) (by decide))
    (@reads_parseString "octet" (by decide) (by decide))
    ([(⟨"multicast", ""⟩ : OptionEntry)].flatMap fun o => cstring o.1 ++ cstring o.2)
  rw [parseOptions_entries _ hreads] at hreq
  refine ⟨rootRequest ([(⟨"multicast", ""⟩ : OptionEntry)].flatMap fun o =>
    cstring o.1 ++ cstring o.2), (negotiate tsizeRrq config.serverConfig.defaultWindowsize order
      ([(⟨"multicast", ""⟩ : OptionEntry)].foldl
        (fun m e => m.insert (toLowercase e.1) e.2) ∅)).options, ?_⟩
  -- the `multicast` option is looked at before the path is
  rw [TftpConfig.Dispatches, if_neg (by rw [hpool]; decide), handleClient, getU16_rootRequest]
  dsimp only
  rw [Opcode.fromU16_toU16]
  dsimp only
  rw [handleClientRrq, hreq, ok_bind]
  dsimp only
  rw [show TransferMode.fromStr "octet" = .ok .octet from TransferMode.fromStr_modeStr .octet,
    ok_bind, if_neg (by decide), if_pos (by decide),
    if_pos (show config.serverConfig.multicastEnabled = true from hmulti)]
  rfl

end RootRequest

/-! ## Which accepted configurations are faultless -/

section Bounds

variable {env : Env} {t : Tree} {hash : SocketAddr → UInt64} {config : TftpConfig}

theorem addClient_nil {maxClients : UInt64} :
    addClient maxClients [] = .ok true ↔ maxClients ≠ 0 := by
  unfold addClient
  constructor
  · rintro h rfl
    rw [if_pos (by decide)] at h
    cases h
  · intro h
    have := toNat_ne_zero h
    rw [if_neg (by rw [List.length_nil]; omega)]
    rfl

theorem multiply_eq_error {a b : UInt64} {f : Fault} :
    multiply a b = .error f ↔ ¬ a.toNat * b.toNat < 2 ^ 64 ∧ f = .multiplyOverflow := by
  unfold multiply
  by_cases h : a.toNat * b.toNat < 2 ^ 64
  · rw [if_pos h]
    constructor
    · intro he
      cases he
    · intro he
      exact absurd h he.1
  · rw [if_neg h, Except.error.injEq, eq_comm]
    exact (and_iff_right h).symm

theorem WithinBounds.start (hb : WithinBounds config) : ∃ pool, startServer config = .ok pool := by
  by_cases henabled : config.performance.workerPool.enabled = true
  · obtain ⟨hcount, hworker, hsender⟩ := hb.workerPool henabled
    have hnew := WorkerPool.new_eq_ok.mpr ⟨hsender, fun _ => hworker, rfl⟩
    exact ⟨_, startServer_eq_ok.mpr
      ⟨hb.recvBuffer, hb.sendBuffer, (if_pos henabled).mpr ⟨_, hnew, rfl⟩⟩⟩
  · exact ⟨none, startServer_eq_ok.mpr
      ⟨hb.recvBuffer, hb.sendBuffer, (if_neg henabled).mpr rfl⟩⟩

theorem WithinBounds.workers (hb : WithinBounds config) {pool : WorkerPool}
    (h : startServer config = .ok (some pool)) : 1 ≤ pool.workerSenders.length := by
  obtain ⟨henabled, hlen⟩ := pool_workers h
  have := toNat_ne_zero (hb.workerPool henabled).1
  omega

theorem processTftpPacket_ne_multicast {config : ServerConfig} {order : IterOrder} {data : Bytes}
    {filename : String} {mode : TransferMode} {options : TftpOptions} :
    processTftpPacket env t config order data ≠ .multicast filename mode options := by
  intro h
  obtain ⟨bytes, ⟨-, h⟩ | ⟨-, h⟩⟩ := (processTftpPacket_eq_iff (by simp) (by simp)).mp h
  · obtain ⟨request, -, h⟩ := bind_eq_ok.mp h
    obtain ⟨mode', -, h⟩ := bind_eq_ok.mp h
    obtain ⟨filePath, -, h⟩ := bind_eq_ok.mp h
    cases h
  · obtain ⟨request, -, h⟩ := bind_eq_ok.mp h
    obtain ⟨mode', -, h⟩ := bind_eq_ok.mp h
    split at h
    · cases h
    obtain ⟨filePath, -, h⟩ := bind_eq_ok.mp h
    dsimp only at h
    split at h <;> cases h

theorem handleClient_multicast {config : ServerConfig} {glob : Glob} {order : IterOrder}
    {data : Bytes} {filename : String} {mode : TransferMode} {options : TftpOptions}
    (h : handleClient env t glob config order data = .ok (.multicast filename mode options)) :
    config.multicastEnabled = true ∧ ∃ requested,
      options = (negotiate tsizeRrq config.defaultWindowsize order requested).options := by
  obtain ⟨bytes, ⟨-, h⟩ | ⟨-, h⟩⟩ := (handleClient_eq_ok_iff (by simp)).mp h
  · obtain ⟨request, -, h⟩ := bind_eq_ok.mp h
    obtain ⟨mode', -, h⟩ := bind_eq_ok.mp h
    dsimp only at h
    split_ifs at h with hmail hmulti henabled
    · cases h
    -- the one branch of all that hands over to a multicast session
    · cases h
      exact ⟨henabled, request.options, rfl⟩
    · cases h
    · split at h <;> cases h
  · unfold handleClientWrq at h
    obtain ⟨request, -, h⟩ := bind_eq_ok.mp h
    split at h
    · cases h
    obtain ⟨mode', -, h⟩ := bind_eq_ok.mp h
    split at h
    · cases h
    dsimp only at h
    split at h
    · cases h
    · split_ifs at h <;> cases h

/-- Only the server without a pool joins multicast sessions, and only if they are enabled. -/
theorem multicast_enabled_of_dispatches {glob : Glob} {order : IterOrder} {data : Bytes}
    {filename : String} {mode : TransferMode} {options : TftpOptions}
    (h : config.Dispatches env t glob order data (.multicast filename mode options)) :
    config.performance.workerPool.enabled = false ∧ config.multicast.enabled = true := by
  unfold TftpConfig.Dispatches at h
  split_ifs at h with hpool
  · exact absurd h processTftpPacket_ne_multicast
  · exact ⟨by simpa using hpool, (handleClient_multicast h).1⟩

/-- **Within the bounds nothing faults.** -/
theorem WithinBounds.noFault (hb : WithinBounds config) (f : Fault) :
    ¬ Faults env hash config f := by
  intro h
  cases h with
  | start h =>
      obtain ⟨pool, hpool⟩ := hb.start
      rw [hpool] at h
      cases h
  | select hstart addr counter h =>
      -- `hash % workers.len()` fails only without workers
      obtain ⟨hzero, -⟩ := selectWorker_eq_error.mp h
      have hlen := (pool_workers hstart).2
      have hlt := config.performance.workerPool.workerCount.toNat_lt
      have hpos := hb.workers hstart
      have : (UInt64.ofNat _).toNat = 0 := congrArg UInt64.toNat hzero
      rw [UInt64.toNat_ofNat_of_lt' (by rw [hlen]; exact hlt)] at this
      omega
  | read hstart h opened rs hpanic =>
      have hW := (UsedWindowsize.read h).mem hb.windowsize
      exact (noPanic_handleReadRequest hW.1 opened _ _ _ rs).not_panicked hpanic
  | write hstart h rs s hpanic =>
      have hW := (UsedWindowsize.write h).mem hb.windowsize
      exact handleWriteRequest_ne_panicked (ofNat_windowsize_ne_zero hW) _ rs s hpanic
  | multicast hstart h hmaster hfault =>
      obtain ⟨hpool, hmulti⟩ := multicast_enabled_of_dispatches h
      exact (multiply_eq_error.mp hfault).1 (hb.multicast hpool hmulti (addClient_nil.mp hmaster))

/-- **Outside the bounds something does**, or a transfer runs with a window size out of
range. -/
theorem Faultless.withinBounds (h : Faultless env hash config)
    (hroot : isDir env t config.rootDir = true) (glob : Glob) (order : IterOrder) :
    WithinBounds config := by
  obtain ⟨pool, hstart⟩ : ∃ pool, startServer config = .ok pool := by
    cases hstart : startServer config with
    | ok pool => exact ⟨pool, rfl⟩
    | error f => exact absurd (.start hstart) (h.noFault f)
  obtain ⟨hrecv, hsend, hpool⟩ := startServer_eq_ok.mp hstart
  refine ⟨(h.windowsize _ (usedWindowsize_default hroot glob)).1, hrecv, hsend, ?_, ?_⟩
  · intro henabled
    rw [if_pos henabled] at hpool
    obtain ⟨p, hnew, rfl⟩ := hpool
    obtain ⟨hsender, hworker, -⟩ := WorkerPool.new_eq_ok.mp hnew
    have hcount : config.performance.workerPool.workerCount.toNat ≠ 0 := by
      have := h.workerCount p hstart
      have := (pool_workers hstart).2
      omega
    exact ⟨fun h0 => hcount (by rw [h0]; rfl), hworker hcount, hsender⟩
  · intro hdisabled hmulti hclients
    by_contra hover
    obtain ⟨data, options, hdisp⟩ := @dispatches_multicast env t config hdisabled hmulti glob order
    exact h.noFault _ (.multicast hstart hdisp (addClient_nil.mpr hclients)
      (multiply_eq_error.mpr ⟨hover, rfl⟩))

end Bounds

/-- The default configuration with the root `/srv/tftp`, where `*.txt` may be written, and with
the given default window size. -/
def plainConfig (defaultWindowsize : UInt64) : TftpConfig where
  rootDir := ofString "/srv/tftp"
  bindAddr := ⟨.v6 0, 69⟩
  logFile := none
  writeConfig := ⟨true, false, ["*.txt"]⟩
  performance := { defaultWindowsize := defaultWindowsize, workerPool := { workerCount := 1 } }

/-- All calls succeed. -/
def quietProbe : Probe := ⟨fun _ => none, fun _ => none, fun _ => none, fun _ => ""⟩

end UsgTftp
