import UsgTftp.Lib.AddrDisplay
import UsgTftp.Lib.Record
import UsgTftp.Server.Config

set_option autoImplicit false

/-! # The configuration file

The structures of `src/config.rs` with all their fields and defaults, and how `serde` writes them
as the tables of a TOML document and reads them from it. Where the server computes with a part of
a structure, the structure extends that part.
-/

namespace UsgTftp.ConfigFile

open Record

/-! ## Values -/

/-- What the defaults depend on. -/
structure Machine where
  /-- `target_os = "linux"`. -/
  linux : Bool
  /-- `target_os = "freebsd"`. -/
  freebsd : Bool
  /-- `num_cpus::get()`. -/
  cpuCount : Nat

/-- Bytes, which need not be a text. -/
abbrev PathBuf := Bytes

/-- Socket addresses, with what a socket of IPv6 has more. -/
inductive SocketAddr where
  | v4 (ip : BitVec 32) (port : UInt16)
  | v6 (ip : BitVec 128) (port : UInt16) (flowinfo scopeId : UInt32)
  deriving DecidableEq, Repr

inductive LogFormat where
  | text
  | json
  deriving DecidableEq, Repr

def LogFormat.name : LogFormat → String
  | .text => "text"
  | .json => "json"

def ipVersionName : MulticastIpVersion → String
  | .v4 => "v4"
  | .v6 => "v6"

def loadBalanceStrategyName : LoadBalanceStrategy → String
  | .roundRobin => "round_robin"
  | .clientHash => "client_hash"
  | .leastLoaded => "least_loaded"

def writePath (p : PathBuf) : Except WriteError String :=
  match fromUtf8 p with
  | some s => .ok s
  | none => .error (.custom "path contains invalid UTF-8 characters")

def pathBuf : Codec PathBuf := textual writePath fun s => some (asBytes s)

def displayIpAddr : IpAddr → String
  | .v4 octets => String.ofList (AddrText.displayIp (.v4 octets.toNat))
  | .v6 octets => String.ofList (AddrText.displayIp (.v6 octets.toNat))

def parseIpAddr (s : String) : Option IpAddr :=
  (AddrText.parseIp s.toList).map fun
    | .v4 value => .v4 (BitVec.ofNat 32 value)
    | .v6 value => .v6 (BitVec.ofNat 128 value)

def ipAddr : Codec IpAddr := textual (fun ip => .ok (displayIpAddr ip)) parseIpAddr

def SocketAddr.text : SocketAddr → AddrText.Socket
  | .v4 ip port => .v4 ip.toNat port.toNat
  | .v6 ip port flowinfo scopeId => .v6 ip.toNat port.toNat flowinfo.toNat scopeId.toNat

def SocketAddr.ofText : AddrText.Socket → SocketAddr
  | .v4 ip port => .v4 (BitVec.ofNat 32 ip) (UInt16.ofNat port)
  | .v6 ip port flowinfo scopeId =>
      .v6 (BitVec.ofNat 128 ip) (UInt16.ofNat port) (UInt32.ofNat flowinfo) (UInt32.ofNat scopeId)

def displaySocketAddr (addr : SocketAddr) : String :=
  String.ofList (AddrText.displaySocket addr.text)

def parseSocketAddr (s : String) : Option SocketAddr :=
  (AddrText.parseSocket s.toList).map SocketAddr.ofText

def socketAddr : Codec SocketAddr :=
  textual (fun addr => .ok (displaySocketAddr addr)) parseSocketAddr

/-! ## Structures -/

structure TlsConfig where
  acmeEnabled : Bool := false
  acmeDomain : String := ""
  acmeEmail : String := ""
  acmeDirectoryUrl : String := ""
  acmeCacheDir : String := "/var/lib/usg-tftp/acme"
  acmeStaging : Bool := false
  acmeCaCertPath : String := ""
  certPath : String := ""
  keyPath : String := ""
  deriving DecidableEq, Repr

structure WebConfig where
  bindAddr : SocketAddr := .v4 0 443
  maxUploadBytes : UInt64 := 524288000
  corsEnabled : Bool := false
  proxyProtocol : Bool := false
  tls : TlsConfig := {}
  auditLogPath : String := "/var/log/usg-tftp/webui-audit.jsonl"
  deriving DecidableEq, Repr

structure LoggingConfig where
  level : String := "info"
  format : LogFormat := .json
  file : Option PathBuf := some (asBytes "/var/log/usg-tftp/tftp-audit.json")
  auditFile : Option PathBuf := none
  auditEnabled : Bool := true
  deriving DecidableEq, Repr

structure MulticastConfig extends UsgTftp.MulticastConfig where
  retransmitTimeoutSecs : UInt64 := 5

structure SocketConfig extends UsgTftp.SocketConfig where
  reuseAddress : Bool := true
  reusePort : Bool := true

structure FileIoConfig where
  useSequentialHint : Bool := true
  useWillneedHint : Bool := true
  fadviseDontneedAfter : Bool := false
  deriving DecidableEq, Repr

structure BatchConfig where
  enableSendmmsg : Bool
  enableRecvmmsg : Bool
  maxBatchSize : UInt64 := 32
  batchTimeoutUs : UInt64 := 100
  enableAdaptiveBatching : Bool := true
  adaptiveBatchThreshold : UInt64 := 5
  deriving DecidableEq, Repr

structure ZeroCopyConfig where
  useSendfile : Bool
  sendfileThresholdBytes : UInt64 := 65536
  useMsgZerocopy : Bool := false
  msgZerocopyThresholdBytes : UInt64 := 8192
  deriving DecidableEq, Repr

structure WorkerPoolConfig extends UsgTftp.WorkerPoolConfig where
  enableCpuAffinity : Bool := false

structure PlatformPerformanceConfig where
  socket : SocketConfig := {}
  fileIo : FileIoConfig := {}
  batch : BatchConfig
  zeroCopy : ZeroCopyConfig
  workerPool : WorkerPoolConfig

structure PerformanceConfig where
  defaultBlockSize : UInt64 := 8192
  defaultWindowsize : UInt64 := 1
  bufferPoolSize : UInt64 := 128
  streamingThreshold : UInt64 := 1048576
  /-- The bits of an `f64`; the default is `1.0`. -/
  auditSamplingRate : UInt64 := 0x3ff0000000000000
  platform : PlatformPerformanceConfig

structure TftpConfig where
  rootDir : PathBuf := asBytes "/var/lib/usg-tftp/tftp"
  bindAddr : SocketAddr := .v6 0 69 0 0
  multicast : MulticastConfig := {}
  logging : LoggingConfig := {}
  writeConfig : WriteConfig := ⟨false, false, []⟩
  performance : PerformanceConfig
  maxFileSizeBytes : UInt64 := 104857600
  web : WebConfig := {}

/-! ## Defaults of the machine -/

section Defaults

variable (machine : Machine)

def BatchConfig.default : BatchConfig :=
  let defaultEnabled := machine.linux || machine.freebsd
  { enableSendmmsg := defaultEnabled, enableRecvmmsg := defaultEnabled }

def ZeroCopyConfig.default : ZeroCopyConfig := { useSendfile := machine.linux }

def WorkerPoolConfig.default : WorkerPoolConfig :=
  { workerCount := UInt64.ofNat (max 1 (min (machine.cpuCount - 2) 8)) }

def PlatformPerformanceConfig.default : PlatformPerformanceConfig where
  batch := .default machine
  zeroCopy := .default machine
  workerPool := .default machine

def PerformanceConfig.default : PerformanceConfig := { platform := .default machine }

/-- `TftpConfig::default`. -/
def TftpConfig.default : TftpConfig := { performance := .default machine }

end Defaults

/-! ## Tables -/

def logFormat : Codec LogFormat := named LogFormat.name [.text, .json]

def multicastIpVersion : Codec MulticastIpVersion := named ipVersionName [.v4, .v6]

def loadBalanceStrategy : Codec LoadBalanceStrategy :=
  named loadBalanceStrategyName [.roundRobin, .clientHash, .leastLoaded]

def TlsConfig.members : List (Member TlsConfig) :=
  [.of "acme_enabled" boolean (·.acmeEnabled) fun a c => { c with acmeEnabled := a },
    .of "acme_domain" text (·.acmeDomain) fun a c => { c with acmeDomain := a },
    .of "acme_email" text (·.acmeEmail) fun a c => { c with acmeEmail := a },
    .of "acme_directory_url" text (·.acmeDirectoryUrl) fun a c => { c with acmeDirectoryUrl := a },
    .of "acme_cache_dir" text (·.acmeCacheDir) fun a c => { c with acmeCacheDir := a },
    .of "acme_staging" boolean (·.acmeStaging) fun a c => { c with acmeStaging := a },
    .of "acme_ca_cert_path" text (·.acmeCaCertPath) fun a c => { c with acmeCaCertPath := a },
    .of "cert_path" text (·.certPath) fun a c => { c with certPath := a },
    .of "key_path" text (·.keyPath) fun a c => { c with keyPath := a }]

def TlsConfig.codec : Codec TlsConfig := record TlsConfig.members {}

def WebConfig.members : List (Member WebConfig) :=
  [.of "bind_addr" socketAddr (·.bindAddr) fun a c => { c with bindAddr := a },
    .of "max_upload_bytes" uint64 (·.maxUploadBytes) fun a c => { c with maxUploadBytes := a },
    .of "cors_enabled" boolean (·.corsEnabled) fun a c => { c with corsEnabled := a },
    .of "proxy_protocol" boolean (·.proxyProtocol) fun a c => { c with proxyProtocol := a },
    .of "tls" TlsConfig.codec (·.tls) fun a c => { c with tls := a },
    .of "audit_log_path" text (·.auditLogPath) fun a c => { c with auditLogPath := a }]

def WebConfig.codec : Codec WebConfig := record WebConfig.members {}

def LoggingConfig.members : List (Member LoggingConfig) :=
  [.of "level" text (·.level) fun a c => { c with level := a },
    .of "format" logFormat (·.format) fun a c => { c with format := a },
    .of "file" (optional pathBuf) (·.file) fun a c => { c with file := a },
    .of "audit_file" (optional pathBuf) (·.auditFile) fun a c => { c with auditFile := a },
    .of "audit_enabled" boolean (·.auditEnabled) fun a c => { c with auditEnabled := a }]

def LoggingConfig.codec : Codec LoggingConfig := record LoggingConfig.members {}

def MulticastConfig.members : List (Member MulticastConfig) :=
  [.of "enabled" boolean (·.enabled) fun a c => { c with enabled := a },
    .of "multicast_addr" ipAddr (·.multicastAddr) fun a c => { c with multicastAddr := a },
    .of "multicast_ip_version" multicastIpVersion (·.multicastIpVersion)
      fun a c => { c with multicastIpVersion := a },
    .of "multicast_port" uint16 (·.multicastPort) fun a c => { c with multicastPort := a },
    .of "max_clients" uint64 (·.maxClients) fun a c => { c with maxClients := a },
    .of "master_timeout_secs" uint64 (·.masterTimeoutSecs)
      fun a c => { c with masterTimeoutSecs := a },
    .of "retransmit_timeout_secs" uint64 (·.retransmitTimeoutSecs)
      fun a c => { c with retransmitTimeoutSecs := a }]

def MulticastConfig.codec : Codec MulticastConfig := record MulticastConfig.members {}

def SocketConfig.members : List (Member SocketConfig) :=
  [.of "recv_buffer_kb" uint64 (·.recvBufferKb) fun a c => { c with recvBufferKb := a },
    .of "send_buffer_kb" uint64 (·.sendBufferKb) fun a c => { c with sendBufferKb := a },
    .of "reuse_address" boolean (·.reuseAddress) fun a c => { c with reuseAddress := a },
    .of "reuse_port" boolean (·.reusePort) fun a c => { c with reusePort := a }]

def SocketConfig.codec : Codec SocketConfig := record SocketConfig.members {}

def FileIoConfig.members : List (Member FileIoConfig) :=
  [.of "use_sequential_hint" boolean (·.useSequentialHint)
      fun a c => { c with useSequentialHint := a },
    .of "use_willneed_hint" boolean (·.useWillneedHint) fun a c => { c with useWillneedHint := a },
    .of "fadvise_dontneed_after" boolean (·.fadviseDontneedAfter)
      fun a c => { c with fadviseDontneedAfter := a }]

def FileIoConfig.codec : Codec FileIoConfig := record FileIoConfig.members {}

section Tables

variable (machine : Machine)

def BatchConfig.members : List (Member BatchConfig) :=
  [.of "enable_sendmmsg" boolean (·.enableSendmmsg) fun a c => { c with enableSendmmsg := a },
    .of "enable_recvmmsg" boolean (·.enableRecvmmsg) fun a c => { c with enableRecvmmsg := a },
    .of "max_batch_size" uint64 (·.maxBatchSize) fun a c => { c with maxBatchSize := a },
    .of "batch_timeout_us" uint64 (·.batchTimeoutUs) fun a c => { c with batchTimeoutUs := a },
    .of "enable_adaptive_batching" boolean (·.enableAdaptiveBatching)
      fun a c => { c with enableAdaptiveBatching := a },
    .of "adaptive_batch_threshold" uint64 (·.adaptiveBatchThreshold)
      fun a c => { c with adaptiveBatchThreshold := a }]

def BatchConfig.codec : Codec BatchConfig :=
  record BatchConfig.members (.default machine)

def ZeroCopyConfig.members : List (Member ZeroCopyConfig) :=
  [.of "use_sendfile" boolean (·.useSendfile) fun a c => { c with useSendfile := a },
    .of "sendfile_threshold_bytes" uint64 (·.sendfileThresholdBytes)
      fun a c => { c with sendfileThresholdBytes := a },
    .of "use_msg_zerocopy" boolean (·.useMsgZerocopy) fun a c => { c with useMsgZerocopy := a },
    .of "msg_zerocopy_threshold_bytes" uint64 (·.msgZerocopyThresholdBytes)
      fun a c => { c with msgZerocopyThresholdBytes := a }]

def ZeroCopyConfig.codec : Codec ZeroCopyConfig :=
  record ZeroCopyConfig.members (.default machine)

def WorkerPoolConfig.members : List (Member WorkerPoolConfig) :=
  [.of "enabled" boolean (·.enabled) fun a c => { c with enabled := a },
    .of "worker_count" uint64 (·.workerCount) fun a c => { c with workerCount := a },
    .of "worker_channel_size" uint64 (·.workerChannelSize)
      fun a c => { c with workerChannelSize := a },
    .of "sender_channel_size" uint64 (·.senderChannelSize)
      fun a c => { c with senderChannelSize := a },
    .of "load_balance_strategy" loadBalanceStrategy (·.loadBalanceStrategy)
      fun a c => { c with loadBalanceStrategy := a },
    .of "enable_cpu_affinity" boolean (·.enableCpuAffinity)
      fun a c => { c with enableCpuAffinity := a }]

def WorkerPoolConfig.codec : Codec WorkerPoolConfig :=
  record WorkerPoolConfig.members (.default machine)

def PlatformPerformanceConfig.members : List (Member PlatformPerformanceConfig) :=
  [.of "socket" SocketConfig.codec (·.socket) fun a c => { c with socket := a },
    .of "file_io" FileIoConfig.codec (·.fileIo) fun a c => { c with fileIo := a },
    .of "batch" (BatchConfig.codec machine) (·.batch) fun a c => { c with batch := a },
    .of "zero_copy" (ZeroCopyConfig.codec machine) (·.zeroCopy)
      fun a c => { c with zeroCopy := a },
    .of "worker_pool" (WorkerPoolConfig.codec machine) (·.workerPool)
      fun a c => { c with workerPool := a }]

def PlatformPerformanceConfig.codec : Codec PlatformPerformanceConfig :=
  record (PlatformPerformanceConfig.members machine) (.default machine)

def PerformanceConfig.members : List (Member PerformanceConfig) :=
  [.of "default_block_size" uint64 (·.defaultBlockSize)
      fun a c => { c with defaultBlockSize := a },
    .of "default_windowsize" uint64 (·.defaultWindowsize)
      fun a c => { c with defaultWindowsize := a },
    .of "buffer_pool_size" uint64 (·.bufferPoolSize) fun a c => { c with bufferPoolSize := a },
    .of "streaming_threshold" uint64 (·.streamingThreshold)
      fun a c => { c with streamingThreshold := a },
    .of "audit_sampling_rate" float64 (·.auditSamplingRate)
      fun a c => { c with auditSamplingRate := a },
    .of "platform" (PlatformPerformanceConfig.codec machine) (·.platform)
      fun a c => { c with platform := a }]

def PerformanceConfig.codec : Codec PerformanceConfig :=
  record (PerformanceConfig.members machine) (.default machine)

def WriteConfig.members : List (Member WriteConfig) :=
  [.of "enabled" boolean (·.enabled) fun a c => { c with enabled := a },
    .of "allow_overwrite" boolean (·.allowOverwrite) fun a c => { c with allowOverwrite := a },
    .of "allowed_patterns" texts (·.allowedPatterns) fun a c => { c with allowedPatterns := a }]

def WriteConfig.codec : Codec WriteConfig := record WriteConfig.members ⟨false, false, []⟩

def TftpConfig.members : List (Member TftpConfig) :=
  [.of "root_dir" pathBuf (·.rootDir) fun a c => { c with rootDir := a },
    .of "bind_addr" socketAddr (·.bindAddr) fun a c => { c with bindAddr := a },
    .of "multicast" MulticastConfig.codec (·.multicast) fun a c => { c with multicast := a },
    .of "logging" LoggingConfig.codec (·.logging) fun a c => { c with logging := a },
    .of "write_config" WriteConfig.codec (·.writeConfig) fun a c => { c with writeConfig := a },
    .of "performance" (PerformanceConfig.codec machine) (·.performance)
      fun a c => { c with performance := a },
    .of "max_file_size_bytes" uint64 (·.maxFileSizeBytes)
      fun a c => { c with maxFileSizeBytes := a },
    .of "web" WebConfig.codec (·.web) fun a c => { c with web := a }]

def TftpConfig.codec : Codec TftpConfig :=
  record (TftpConfig.members machine) (.default machine)

end Tables

/-! ## Each structure by its members -/

theorem TlsConfig.lawful : Lawful TlsConfig.members where
  get_set := by simp [TlsConfig.members]
  apart := by simp [TlsConfig.members, Member.Apart]
  ext s s' h := by
    simp only [TlsConfig.members, Member.of, List.forall_mem_cons] at h
    cases s
    cases s'
    simp_all

theorem WebConfig.lawful : Lawful WebConfig.members where
  get_set := by simp [WebConfig.members]
  apart := by simp [WebConfig.members, Member.Apart]
  ext s s' h := by
    simp only [WebConfig.members, Member.of, List.forall_mem_cons] at h
    cases s
    cases s'
    simp_all

theorem LoggingConfig.lawful : Lawful LoggingConfig.members where
  get_set := by simp [LoggingConfig.members]
  apart := by simp [LoggingConfig.members, Member.Apart]
  ext s s' h := by
    simp only [LoggingConfig.members, Member.of, List.forall_mem_cons] at h
    cases s
    cases s'
    simp_all

theorem MulticastConfig.lawful : Lawful MulticastConfig.members where
  get_set := by simp [MulticastConfig.members]
  apart := by simp [MulticastConfig.members, Member.Apart]
  ext s s' h := by
    simp only [MulticastConfig.members, Member.of, List.forall_mem_cons] at h
    rcases s with ⟨⟨⟩, _⟩
    rcases s' with ⟨⟨⟩, _⟩
    simp_all

theorem SocketConfig.lawful : Lawful SocketConfig.members where
  get_set := by simp [SocketConfig.members]
  apart := by simp [SocketConfig.members, Member.Apart]
  ext s s' h := by
    simp only [SocketConfig.members, Member.of, List.forall_mem_cons] at h
    rcases s with ⟨⟨⟩, _, _⟩
    rcases s' with ⟨⟨⟩, _, _⟩
    simp_all

theorem FileIoConfig.lawful : Lawful FileIoConfig.members where
  get_set := by simp [FileIoConfig.members]
  apart := by simp [FileIoConfig.members, Member.Apart]
  ext s s' h := by
    simp only [FileIoConfig.members, Member.of, List.forall_mem_cons] at h
    cases s
    cases s'
    simp_all

theorem BatchConfig.lawful : Lawful BatchConfig.members where
  get_set := by simp [BatchConfig.members]
  apart := by simp [BatchConfig.members, Member.Apart]
  ext s s' h := by
    simp only [BatchConfig.members, Member.of, List.forall_mem_cons] at h
    cases s
    cases s'
    simp_all

theorem ZeroCopyConfig.lawful : Lawful ZeroCopyConfig.members where
  get_set := by simp [ZeroCopyConfig.members]
  apart := by simp [ZeroCopyConfig.members, Member.Apart]
  ext s s' h := by
    simp only [ZeroCopyConfig.members, Member.of, List.forall_mem_cons] at h
    cases s
    cases s'
    simp_all

theorem WorkerPoolConfig.lawful : Lawful WorkerPoolConfig.members where
  get_set := by simp [WorkerPoolConfig.members]
  apart := by simp [WorkerPoolConfig.members, Member.Apart]
  ext s s' h := by
    simp only [WorkerPoolConfig.members, Member.of, List.forall_mem_cons] at h
    rcases s with ⟨⟨⟩, _⟩
    rcases s' with ⟨⟨⟩, _⟩
    simp_all

theorem PlatformPerformanceConfig.lawful (machine : Machine) :
    Lawful (PlatformPerformanceConfig.members machine) where
  get_set := by simp [PlatformPerformanceConfig.members]
  apart := by simp [PlatformPerformanceConfig.members, Member.Apart]
  ext s s' h := by
    simp only [PlatformPerformanceConfig.members, Member.of, List.forall_mem_cons] at h
    cases s
    cases s'
    simp_all

theorem PerformanceConfig.lawful (machine : Machine) :
    Lawful (PerformanceConfig.members machine) where
  get_set := by simp [PerformanceConfig.members]
  apart := by simp [PerformanceConfig.members, Member.Apart]
  ext s s' h := by
    simp only [PerformanceConfig.members, Member.of, List.forall_mem_cons] at h
    cases s
    cases s'
    simp_all

theorem WriteConfig.lawful : Lawful WriteConfig.members where
  get_set := by simp [WriteConfig.members]
  apart := by simp [WriteConfig.members, Member.Apart]
  ext s s' h := by
    simp only [WriteConfig.members, Member.of, List.forall_mem_cons] at h
    cases s
    cases s'
    simp_all

theorem TftpConfig.lawful (machine : Machine) : Lawful (TftpConfig.members machine) where
  get_set := by simp [TftpConfig.members]
  apart := by simp [TftpConfig.members, Member.Apart]
  ext s s' h := by
    simp only [TftpConfig.members, Member.of, List.forall_mem_cons] at h
    cases s
    cases s'
    simp_all

end UsgTftp.ConfigFile
