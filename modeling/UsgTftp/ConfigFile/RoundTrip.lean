import UsgTftp.ConfigFile.Format
import UsgTftp.Lib.WholeFile
import UsgTftp.Server.Grammar

set_option autoImplicit false

/-! # Loading a configuration that was written

`write_config` and `load_config` of `src/config.rs`. The crate for TOML documents is given; what is
needed of it is that it writes the values it is given, and reads what it has written.

`config_round_trip_iff` says which configurations are loaded as they were written. An unset
`logging.file` is not written, and loaded as the default, which is a file
(`load_written_file_unset`).
-/

namespace UsgTftp.ConfigFile

open Posix Record

/-! ## Values with a text -/

def SocketAddr.flowinfo : SocketAddr → UInt32
  | .v4 _ _ => 0
  | .v6 _ _ flowinfo _ => flowinfo

@[simp] theorem reload_logFormat (d a : LogFormat) : logFormat.reload d a = some a :=
  reload_named (by cases a <;> decide) (by decide)

@[simp] theorem reload_multicastIpVersion (d a : MulticastIpVersion) :
    multicastIpVersion.reload d a = some a :=
  reload_named (by cases a <;> decide) (by decide)

@[simp] theorem reload_loadBalanceStrategy (d a : LoadBalanceStrategy) :
    loadBalanceStrategy.reload d a = some a :=
  reload_named (by cases a <;> decide) (by decide)

/-- A path is written if it is a text. -/
@[simp] theorem reload_pathBuf (d p : PathBuf) :
    pathBuf.reload d p = some p ↔ (fromUtf8 p).isSome = true := by
  rw [pathBuf, reload_textual, writePath]
  cases htext : fromUtf8 p with
  | none => simp [Except.toOption]
  | some s => simp [Except.toOption, asBytes_of_fromUtf8 htext]

@[simp] theorem reload_optional_pathBuf (d : Option PathBuf) (p : PathBuf) :
    (optional pathBuf).reload d (some p) = some (some p) ↔ (fromUtf8 p).isSome = true := by
  rw [← reload_pathBuf p p, pathBuf, reload_optional_some, reload_textual, Option.map_eq_some_iff]
  simp

@[simp] theorem reload_ipAddr (d ip : IpAddr) : ipAddr.reload d ip = some ip := by
  rw [ipAddr, reload_textual]
  show parseIpAddr (displayIpAddr ip) = some ip
  cases ip with
  | v4 octets =>
      have hvalid : (AddrText.Ip.v4 octets.toNat).Valid := octets.isLt
      rw [displayIpAddr, parseIpAddr, String.toList_ofList, AddrText.parseIp_displayIp hvalid]
      simp
  | v6 octets =>
      have hvalid : (AddrText.Ip.v6 octets.toNat).Valid := octets.isLt
      rw [displayIpAddr, parseIpAddr, String.toList_ofList, AddrText.parseIp_displayIp hvalid]
      simp

/-- The text of a socket address has no flow label. -/
@[simp] theorem reload_socketAddr (d addr : SocketAddr) :
    socketAddr.reload d addr = some addr ↔ addr.flowinfo = 0 := by
  have hvalid : addr.text.Valid := by
    cases addr with
    | v4 ip port => exact ⟨ip.isLt, port.toNat_lt⟩
    | v6 ip port flowinfo scopeId => exact ⟨ip.isLt, port.toNat_lt, scopeId.toNat_lt⟩
  have hread : socketAddr.reload d addr = some (.ofText addr.text.unlabelled) := by
    rw [socketAddr, reload_textual]
    show parseSocketAddr (displaySocketAddr addr) = _
    rw [parseSocketAddr, displaySocketAddr, String.toList_ofList,
      AddrText.parseSocket_displaySocket hvalid, Option.map_some]
  rw [hread]
  cases addr with
  | v4 ip port => simp [SocketAddr.text, AddrText.Socket.unlabelled, SocketAddr.ofText,
      SocketAddr.flowinfo]
  | v6 ip port flowinfo scopeId => simp [SocketAddr.text, AddrText.Socket.unlabelled,
      SocketAddr.ofText, SocketAddr.flowinfo, eq_comm]

/-! ## Integers and paths -/

/-- A document can have these integers: it has 64 bits and a sign for each. -/
def Fit (integers : List UInt64) : Prop := ∀ n ∈ integers, n.toNat < 2 ^ 63

instance : DecidablePred Fit := fun integers => List.decidableBAll _ integers

@[simp] theorem fit_nil : Fit [] := by simp [Fit]

@[simp] theorem fit_cons (n : UInt64) (ns : List UInt64) :
    Fit (n :: ns) ↔ n.toNat < 2 ^ 63 ∧ Fit ns :=
  List.forall_mem_cons

@[simp] theorem fit_append (ns ns' : List UInt64) : Fit (ns ++ ns') ↔ Fit ns ∧ Fit ns' :=
  List.forall_mem_append

def WebConfig.integers (c : WebConfig) : List UInt64 := [c.maxUploadBytes]

def MulticastConfig.integers (c : MulticastConfig) : List UInt64 :=
  [c.maxClients, c.masterTimeoutSecs, c.retransmitTimeoutSecs]

def SocketConfig.integers (c : SocketConfig) : List UInt64 := [c.recvBufferKb, c.sendBufferKb]

def BatchConfig.integers (c : BatchConfig) : List UInt64 :=
  [c.maxBatchSize, c.batchTimeoutUs, c.adaptiveBatchThreshold]

def ZeroCopyConfig.integers (c : ZeroCopyConfig) : List UInt64 :=
  [c.sendfileThresholdBytes, c.msgZerocopyThresholdBytes]

def WorkerPoolConfig.integers (c : WorkerPoolConfig) : List UInt64 :=
  [c.workerCount, c.workerChannelSize, c.senderChannelSize]

def PlatformPerformanceConfig.integers (c : PlatformPerformanceConfig) : List UInt64 :=
  c.socket.integers ++ c.batch.integers ++ c.zeroCopy.integers ++ c.workerPool.integers

def PerformanceConfig.integers (c : PerformanceConfig) : List UInt64 :=
  [c.defaultBlockSize, c.defaultWindowsize, c.bufferPoolSize, c.streamingThreshold] ++
    c.platform.integers

/-- The integers of 64 bits. -/
def TftpConfig.integers (c : TftpConfig) : List UInt64 :=
  c.multicast.integers ++ c.performance.integers ++ [c.maxFileSizeBytes] ++ c.web.integers

def LoggingConfig.paths (c : LoggingConfig) : List PathBuf := c.file.toList ++ c.auditFile.toList

def TftpConfig.paths (c : TftpConfig) : List PathBuf := c.rootDir :: c.logging.paths

/-- These paths are texts. -/
def Utf8 (paths : List PathBuf) : Prop := ∀ p ∈ paths, (fromUtf8 p).isSome = true

/-- The texts of the values say all of them: the paths are texts, and no address has a flow
label. -/
structure TftpConfig.Textual (c : TftpConfig) : Prop where
  paths : Utf8 c.paths
  bindAddr : c.bindAddr.flowinfo = 0
  webBindAddr : c.web.bindAddr.flowinfo = 0

/-! ## Structures -/

section Structures

@[simp] theorem reload_tlsConfig (d c : TlsConfig) : TlsConfig.codec.reload d c = some c := by
  rw [TlsConfig.codec, reload_record TlsConfig.lawful]
  simp [TlsConfig.members]

@[simp] theorem reload_webConfig (d c : WebConfig) :
    WebConfig.codec.reload d c = some c ↔ c.bindAddr.flowinfo = 0 ∧ Fit c.integers := by
  rw [WebConfig.codec, reload_record WebConfig.lawful]
  simp [WebConfig.members, WebConfig.integers]

@[simp] theorem reload_multicastConfig (d c : MulticastConfig) :
    MulticastConfig.codec.reload d c = some c ↔ Fit c.integers := by
  rw [MulticastConfig.codec, reload_record MulticastConfig.lawful]
  simp [MulticastConfig.members, MulticastConfig.integers]

@[simp] theorem reload_socketConfig (d c : SocketConfig) :
    SocketConfig.codec.reload d c = some c ↔ Fit c.integers := by
  rw [SocketConfig.codec, reload_record SocketConfig.lawful]
  simp [SocketConfig.members, SocketConfig.integers]

@[simp] theorem reload_fileIoConfig (d c : FileIoConfig) :
    FileIoConfig.codec.reload d c = some c := by
  rw [FileIoConfig.codec, reload_record FileIoConfig.lawful]
  simp [FileIoConfig.members]

@[simp] theorem reload_writeConfig (d c : WriteConfig) :
    WriteConfig.codec.reload d c = some c := by
  rw [WriteConfig.codec, reload_record WriteConfig.lawful]
  simp [WriteConfig.members]

variable (machine : Machine)

@[simp] theorem reload_batchConfig (d c : BatchConfig) :
    (BatchConfig.codec machine).reload d c = some c ↔ Fit c.integers := by
  rw [BatchConfig.codec, reload_record BatchConfig.lawful]
  simp [BatchConfig.members, BatchConfig.integers]

@[simp] theorem reload_zeroCopyConfig (d c : ZeroCopyConfig) :
    (ZeroCopyConfig.codec machine).reload d c = some c ↔ Fit c.integers := by
  rw [ZeroCopyConfig.codec, reload_record ZeroCopyConfig.lawful]
  simp [ZeroCopyConfig.members, ZeroCopyConfig.integers]

@[simp] theorem reload_workerPoolConfig (d c : WorkerPoolConfig) :
    (WorkerPoolConfig.codec machine).reload d c = some c ↔ Fit c.integers := by
  rw [WorkerPoolConfig.codec, reload_record WorkerPoolConfig.lawful]
  simp [WorkerPoolConfig.members, WorkerPoolConfig.integers]

@[simp] theorem reload_platformPerformanceConfig (d c : PlatformPerformanceConfig) :
    (PlatformPerformanceConfig.codec machine).reload d c = some c ↔ Fit c.integers := by
  rw [PlatformPerformanceConfig.codec, reload_record (PlatformPerformanceConfig.lawful machine)]
  simp [PlatformPerformanceConfig.members, PlatformPerformanceConfig.integers]

@[simp] theorem reload_performanceConfig (d c : PerformanceConfig) :
    (PerformanceConfig.codec machine).reload d c = some c ↔ Fit c.integers := by
  rw [PerformanceConfig.codec, reload_record (PerformanceConfig.lawful machine)]
  simp [PerformanceConfig.members, PerformanceConfig.integers]

/-- The logging part is loaded as it was written if it has a log file. -/
@[simp] theorem reload_loggingConfig (d c : LoggingConfig) :
    LoggingConfig.codec.reload d c = some c ↔ c.file ≠ none ∧ Utf8 c.paths := by
  rw [LoggingConfig.codec, reload_record LoggingConfig.lawful]
  cases hfile : c.file with
  | none => simp [LoggingConfig.members, hfile]
  | some file =>
      cases haudit : c.auditFile with
      | none => simp [LoggingConfig.members, LoggingConfig.paths, Utf8, hfile, haudit]
      | some auditFile => simp [LoggingConfig.members, LoggingConfig.paths, Utf8, hfile, haudit]

/-- **A log file that is not set** is the default when it is loaded. -/
theorem reload_loggingConfig_unset {c : LoggingConfig} (hfile : c.file = none)
    (hpaths : Utf8 c.paths) (d : LoggingConfig) :
    LoggingConfig.codec.reload d c = some { c with file := ({} : LoggingConfig).file } := by
  rw [LoggingConfig.codec, reload_record LoggingConfig.lawful]
  cases haudit : c.auditFile with
  | none => simp [LoggingConfig.members, hfile, haudit]
  | some auditFile =>
      rw [LoggingConfig.paths, hfile, haudit] at hpaths
      have hauditFile := hpaths auditFile (by simp)
      simp [LoggingConfig.members, hfile, haudit, hauditFile]

/-- **No document** leaves the log file unset. -/
theorem file_of_read_loggingConfig {v : Value} {c : LoggingConfig}
    (h : LoggingConfig.codec.read v = some c) : c.file ≠ none := by
  refine readRecord_preserves (P := fun c => c.file ≠ none) ?_ (by rintro ⟨⟩) h
  intro m hm v a s hread hs
  simp only [LoggingConfig.members, List.mem_cons, List.not_mem_nil, or_false] at hm
  rcases hm with rfl | rfl | rfl | rfl | rfl
  · exact hs
  · exact hs
  -- a path that is in the document is set
  · obtain ⟨p, -, rfl⟩ := Option.map_eq_some_iff.mp hread
    rintro ⟨⟩
  · exact hs
  · exact hs

theorem file_of_read_tftpConfig {v : Value} {c : TftpConfig}
    (h : (TftpConfig.codec machine).read v = some c) : c.logging.file ≠ none := by
  refine readRecord_preserves (P := fun c => c.logging.file ≠ none) ?_ (by rintro ⟨⟩) h
  intro m hm v a s hread hs
  simp only [TftpConfig.members, List.mem_cons, List.not_mem_nil, or_false] at hm
  rcases hm with rfl | rfl | rfl | rfl | rfl | rfl | rfl | rfl
  · exact hs
  · exact hs
  · exact hs
  · exact file_of_read_loggingConfig hread
  · exact hs
  · exact hs
  · exact hs
  · exact hs

/-- **The whole configuration** is loaded as it was written if its log file is set. -/
theorem reload_tftpConfig (d c : TftpConfig) : (TftpConfig.codec machine).reload d c = some c ↔
    c.logging.file ≠ none ∧ Fit c.integers ∧ c.Textual := by
  rw [TftpConfig.codec, reload_record (TftpConfig.lawful machine)]
  simp only [TftpConfig.members, Member.of, List.forall_mem_cons, List.not_mem_nil, false_imp_iff,
    implies_true, and_true, reload_pathBuf, reload_socketAddr, reload_multicastConfig,
    reload_loggingConfig, reload_writeConfig, reload_performanceConfig, reload_uint64,
    reload_webConfig, true_and, TftpConfig.integers, fit_append, fit_cons, fit_nil]
  constructor
  · rintro ⟨hroot, hbind, hmulticast, ⟨hfile, hpaths⟩, hperformance, hsize, hwebBind, hweb⟩
    exact ⟨hfile, ⟨⟨⟨hmulticast, hperformance⟩, hsize⟩, hweb⟩,
      List.forall_mem_cons.mpr ⟨hroot, hpaths⟩, hbind, hwebBind⟩
  · rintro ⟨hfile, ⟨⟨⟨hmulticast, hperformance⟩, hsize⟩, hweb⟩, hpaths, hbind, hwebBind⟩
    obtain ⟨hroot, hlogging⟩ := List.forall_mem_cons.mp hpaths
    exact ⟨hroot, hbind, hmulticast, ⟨hfile, hlogging⟩, hperformance, hsize, hwebBind, hweb⟩

/-- The configuration with the default log file. -/
def TftpConfig.withDefaultFile (c : TftpConfig) : TftpConfig :=
  { c with logging := { c.logging with file := ({} : LoggingConfig).file } }

/-- **Without a log file** the configuration is loaded with the default one. -/
theorem reload_tftpConfig_unset {c : TftpConfig} (hfile : c.logging.file = none)
    (hintegers : Fit c.integers) (htextual : c.Textual) (d : TftpConfig) :
    (TftpConfig.codec machine).reload d c = some c.withDefaultFile := by
  obtain ⟨hpaths, hbind, hwebBind⟩ := htextual
  obtain ⟨hroot, hlogging⟩ := List.forall_mem_cons.mp hpaths
  rw [TftpConfig.codec, reload_record (TftpConfig.lawful machine)]
  simp only [TftpConfig.integers, fit_append, fit_cons, fit_nil, and_true] at hintegers
  obtain ⟨⟨⟨hmulticast, hperformance⟩, hsize⟩, hweb⟩ := hintegers
  simpa [TftpConfig.members, TftpConfig.withDefaultFile, hroot, hbind, hwebBind, hmulticast,
    hperformance, hweb, reload_loggingConfig_unset hfile hlogging] using hsize

end Structures

/-! ## Files -/

/-- What `main` gives to the two functions, and the texts of errors of the system. -/
structure Setting where
  machine : Machine
  /-- The crate `toml`. -/
  toml : Format
  env : Env
  ioErrorText : Errno → String

namespace Setting

variable (setting : Setting)

abbrev codec : Codec TftpConfig := TftpConfig.codec setting.machine

/-- `Path::display`. -/
def displayPath (path : Path) : String :=
  (if path.absolute then "/" else "") ++ "/".intercalate path.segs

/-- `read_to_string`. -/
def readToString (t : Tree) (path : Path) : Except TftpError String :=
  match readFile setting.env t path with
  | .error e => .error (.io (setting.ioErrorText e))
  | .ok bytes =>
      match fromUtf8 bytes with
      | some contents => .ok contents
      | none => .error (.io "stream did not contain valid UTF-8")

def loadConfig (t : Tree) (path : Path) : Except TftpError TftpConfig :=
  match setting.readToString t path with
  | .error e => .error e
  | .ok contents =>
      match setting.toml.ofText setting.codec contents with
      | .ok config => .ok config
      | .error e => .error (.tftp s!"Invalid config file {displayPath path}: {e}")

def writeConfig (t : Tree) (path : Path) (config : TftpConfig) : Tree × Except TftpError Unit :=
  match setting.toml.toText setting.codec config with
  | .error e => (t, .error (.tftp s!"Failed to serialize default config: {e}"))
  | .ok contents =>
      match writeFile setting.env t path (asBytes contents) with
      | (t', .ok ()) => (t', .ok ())
      | (t', .error e) => (t', .error (.io (setting.ioErrorText e)))

/-- `write_default_config`. -/
def writeDefaultConfig (t : Tree) (path : Path) : Tree × Except TftpError Unit :=
  setting.writeConfig t path (.default setting.machine)

/-- The configuration is written, and loaded again as `config'`. -/
def Loads (t : Tree) (path : Path) (config config' : TftpConfig) : Prop :=
  ∃ t', setting.writeConfig t path config = (t', .ok ()) ∧ setting.loadConfig t' path = .ok config'

/-- The crate writes the document of the configuration exactly, but for the order of keys. -/
def WritesExactly (config : TftpConfig) : Prop :=
  ∀ v, setting.codec.write config = .ok (some v) → setting.toml.Exact v

variable {setting}

theorem loadConfig_eq_ok {t : Tree} {path : Path} {contents : String} {config : TftpConfig}
    (hread : readFile setting.env t path = .ok (asBytes contents)) :
    setting.loadConfig t path = .ok config ↔
      setting.toml.ofText setting.codec contents = .ok config := by
  rw [loadConfig, readToString, hread]
  simp only [fromUtf8_asBytes]
  cases setting.toml.ofText setting.codec contents with
  | ok config' => simp only [Except.ok.injEq]
  | error e => exact iff_of_false (by rintro ⟨⟩) (by rintro ⟨⟩)

/-- A path that can be opened for writing holds the text of the configuration after it. -/
theorem writeConfig_eq_ok {t : Tree} {path : Path} {config : TftpConfig}
    (hpath : Writable setting.env t path) {t' : Tree} :
    setting.writeConfig t path config = (t', .ok ()) ↔
      ∃ contents, setting.toml.toText setting.codec config = .ok contents ∧
        t' = (writeFile setting.env t path (asBytes contents)).1 := by
  unfold writeConfig
  cases setting.toml.toText setting.codec config with
  | error e => exact iff_of_false (by rintro ⟨⟩) (by rintro ⟨contents, ⟨⟩, -⟩)
  | ok contents =>
      have hok := (readFile_writeFile hpath (asBytes contents)).1
      obtain ⟨t₁, hwrite⟩ : ∃ t₁, writeFile setting.env t path (asBytes contents) = (t₁, .ok ()) :=
        ⟨_, Prod.ext rfl hok⟩
      simp only [hwrite]
      constructor
      · rintro ⟨⟩
        exact ⟨contents, rfl, by rw [hwrite]⟩
      · rintro ⟨contents', ⟨⟩, rfl⟩
        rw [hwrite]

/-- **What is loaded** is what the members of the configuration are read as. -/
theorem loads_iff {t : Tree} {path : Path} {config config' : TftpConfig}
    (hpath : Writable setting.env t path) (hexact : setting.WritesExactly config) :
    setting.Loads t path config config' ↔
      setting.codec.reload (.default setting.machine) config = some config' := by
  have htext : setting.Loads t path config config' ↔
      ∃ contents, setting.toml.toText setting.codec config = .ok contents ∧
        setting.toml.ofText setting.codec contents = .ok config' := by
    constructor
    -- the file is read as the text that was written, so only the text counts
    · rintro ⟨t', hwrite, hload⟩
      obtain ⟨contents, hcontents, rfl⟩ := (writeConfig_eq_ok hpath).mp hwrite
      have hread := (readFile_writeFile hpath (asBytes contents)).2
      exact ⟨contents, hcontents, (loadConfig_eq_ok hread).mp hload⟩
    · rintro ⟨contents, hcontents, hof⟩
      have hread := (readFile_writeFile hpath (asBytes contents)).2
      exact ⟨_, (writeConfig_eq_ok hpath).mpr ⟨contents, hcontents, rfl⟩,
        (loadConfig_eq_ok hread).mpr hof⟩
  exact htext.trans (setting.toml.ofText_toText_iff hexact)

/-- **A configuration that is loaded has a log file**, whatever the file says. -/
theorem file_of_loadConfig {t : Tree} {path : Path} {config : TftpConfig}
    (h : setting.loadConfig t path = .ok config) : config.logging.file ≠ none := by
  unfold loadConfig at h
  cases hcontents : setting.readToString t path with
  | error e => rw [hcontents] at h; cases h
  | ok contents =>
      rw [hcontents] at h
      simp only [Format.ofText] at h
      cases hread : (setting.toml.parse contents).bind setting.codec.read with
      | none => rw [hread] at h; cases h
      | some config' =>
          rw [hread] at h
          cases h
          obtain ⟨v, -, hv⟩ := Option.bind_eq_some_iff.mp hread
          exact file_of_read_tftpConfig setting.machine hv

end Setting

/-! ## The default configuration -/

theorem default_fit (machine : Machine) : Fit (TftpConfig.default machine).integers := by
  -- only the number of workers depends on the machine
  have hworkers : (WorkerPoolConfig.default machine).workerCount.toNat < 2 ^ 63 := by
    have hcount : max 1 (min (machine.cpuCount - 2) 8) ≤ 8 := by omega
    rw [WorkerPoolConfig.default, UInt64.toNat_ofNat_of_lt' (Nat.lt_of_le_of_lt hcount (by decide))]
    exact Nat.lt_of_le_of_lt hcount (by decide)
  have hintegers : (TftpConfig.default machine).integers
      = [10, 30, 5, 8192, 1, 128, 1048576, 2048, 2048, 32, 100, 5, 65536, 8192] ++
        (WorkerPoolConfig.default machine).workerCount :: [256, 512, 104857600, 524288000] := rfl
  rw [hintegers, fit_append]
  exact ⟨by decide, (fit_cons _ _).mpr ⟨hworkers, by decide⟩⟩

theorem default_textual (machine : Machine) : (TftpConfig.default machine).Textual where
  paths := by simp [TftpConfig.default, Utf8, TftpConfig.paths, LoggingConfig.paths]
  bindAddr := rfl
  webBindAddr := rfl

/-- **The default configuration** of any machine is loaded as it was written. -/
theorem load_writeDefaultConfig {setting : Setting} {t : Tree} {path : Path}
    (hpath : Writable setting.env t path)
    (hexact : setting.WritesExactly (.default setting.machine)) :
    ∃ t', setting.writeDefaultConfig t path = (t', .ok ()) ∧
      setting.loadConfig t' path = .ok (.default setting.machine) := by
  have hreload := (reload_tftpConfig setting.machine (.default setting.machine) _).mpr
    ⟨by rintro ⟨⟩, default_fit setting.machine, default_textual setting.machine⟩
  exact (Setting.loads_iff hpath hexact).mpr hreload

/-! ## Its document -/

/-- The default configuration with the given log file, on Linux with four processors. -/
def defaultWithFile (file : Option String) : TftpConfig :=
  { TftpConfig.default ⟨true, false, 4⟩ with logging := { file := file.map asBytes } }

/-- What is written for it. -/
def documentLines (file : Option String) : List String :=
  ["root_dir = \"/var/lib/usg-tftp/tftp\"", "bind_addr = \"[::]:69\"",
    "max_file_size_bytes = 104857600", "", "[multicast]", "enabled = false",
    "multicast_addr = \"ff12::8000:1\"", "multicast_ip_version = \"v6\"", "multicast_port = 1758",
    "max_clients = 10", "master_timeout_secs = 30", "retransmit_timeout_secs = 5", "",
    "[logging]", "level = \"info\"", "format = \"json\""] ++
  (file.toList.map fun s => "file = \"" ++ s ++ "\"") ++
  ["audit_enabled = true", "", "[write_config]", "enabled = false", "allow_overwrite = false",
    "allowed_patterns = []", "", "[performance]", "default_block_size = 8192",
    "default_windowsize = 1", "buffer_pool_size = 128", "streaming_threshold = 1048576",
    "audit_sampling_rate = 1.0", "", "[performance.platform.socket]", "recv_buffer_kb = 2048",
    "send_buffer_kb = 2048", "reuse_address = true", "reuse_port = true", "",
    "[performance.platform.file_io]", "use_sequential_hint = true", "use_willneed_hint = true",
    "fadvise_dontneed_after = false", "", "[performance.platform.batch]",
    "enable_sendmmsg = true", "enable_recvmmsg = true", "max_batch_size = 32",
    "batch_timeout_us = 100", "enable_adaptive_batching = true", "adaptive_batch_threshold = 5",
    "", "[performance.platform.zero_copy]", "use_sendfile = true",
    "sendfile_threshold_bytes = 65536", "use_msg_zerocopy = false",
    "msg_zerocopy_threshold_bytes = 8192", "", "[performance.platform.worker_pool]",
    "enabled = false", "worker_count = 2", "worker_channel_size = 256",
    "sender_channel_size = 512", "load_balance_strategy = \"round_robin\"",
    "enable_cpu_affinity = false", "", "[web]", "bind_addr = \"0.0.0.0:443\"",
    "max_upload_bytes = 524288000", "cors_enabled = false", "proxy_protocol = false",
    "audit_log_path = \"/var/log/usg-tftp/webui-audit.jsonl\"", "", "[web.tls]",
    "acme_enabled = false", "acme_domain = \"\"", "acme_email = \"\"",
    "acme_directory_url = \"\"", "acme_cache_dir = \"/var/lib/usg-tftp/acme\"",
    "acme_staging = false", "acme_ca_cert_path = \"\"", "cert_path = \"\"", "key_path = \"\"", ""]

def document (file : Option String) : String := "\n".intercalate (documentLines file)

def multicastTable : Value :=
  .table [("enabled", .bool false), ("multicast_addr", .string "ff12::8000:1"),
    ("multicast_ip_version", .string "v6"), ("multicast_port", .integer 1758),
    ("max_clients", .integer 10), ("master_timeout_secs", .integer 30),
    ("retransmit_timeout_secs", .integer 5)]

def loggingTable (file : Option String) : Value :=
  .table ([("level", .string "info"), ("format", .string "json")] ++
    (file.toList.map fun s => ("file", .string s)) ++ [("audit_enabled", .bool true)])

def platformTable : Value :=
  .table [
    ("socket", .table [("recv_buffer_kb", .integer 2048), ("send_buffer_kb", .integer 2048),
      ("reuse_address", .bool true), ("reuse_port", .bool true)]),
    ("file_io", .table [("use_sequential_hint", .bool true), ("use_willneed_hint", .bool true),
      ("fadvise_dontneed_after", .bool false)]),
    ("batch", .table [("enable_sendmmsg", .bool true), ("enable_recvmmsg", .bool true),
      ("max_batch_size", .integer 32), ("batch_timeout_us", .integer 100),
      ("enable_adaptive_batching", .bool true), ("adaptive_batch_threshold", .integer 5)]),
    ("zero_copy", .table [
      ("use_sendfile", .bool true), ("sendfile_threshold_bytes", .integer 65536),
      ("use_msg_zerocopy", .bool false), ("msg_zerocopy_threshold_bytes", .integer 8192)]),
    ("worker_pool", .table [("enabled", .bool false), ("worker_count", .integer 2),
      ("worker_channel_size", .integer 256), ("sender_channel_size", .integer 512),
      ("load_balance_strategy", .string "round_robin"), ("enable_cpu_affinity", .bool false)])]

def performanceTable : Value :=
  .table [("default_block_size", .integer 8192), ("default_windowsize", .integer 1),
    ("buffer_pool_size", .integer 128), ("streaming_threshold", .integer 1048576),
    ("audit_sampling_rate", .float 0x3ff0000000000000), ("platform", platformTable)]

def tlsTable : Value :=
  .table [("acme_enabled", .bool false), ("acme_domain", .string ""), ("acme_email", .string ""),
    ("acme_directory_url", .string ""), ("acme_cache_dir", .string "/var/lib/usg-tftp/acme"),
    ("acme_staging", .bool false), ("acme_ca_cert_path", .string ""), ("cert_path", .string ""),
    ("key_path", .string "")]

/-- As it is written. -/
def writtenTable (file : Option String) : Value :=
  .table [("root_dir", .string "/var/lib/usg-tftp/tftp"), ("bind_addr", .string "[::]:69"),
    ("multicast", multicastTable), ("logging", loggingTable file),
    ("write_config", .table [("enabled", .bool false), ("allow_overwrite", .bool false),
      ("allowed_patterns", .array [])]),
    ("performance", performanceTable), ("max_file_size_bytes", .integer 104857600),
    ("web", .table [("bind_addr", .string "0.0.0.0:443"), ("max_upload_bytes", .integer 524288000),
      ("cors_enabled", .bool false), ("proxy_protocol", .bool false), ("tls", tlsTable),
      ("audit_log_path", .string "/var/log/usg-tftp/webui-audit.jsonl")])]

/-- As it is read: the values of a table stand before the tables in it. -/
def readTable (file : Option String) : Value :=
  .table [("root_dir", .string "/var/lib/usg-tftp/tftp"), ("bind_addr", .string "[::]:69"),
    ("max_file_size_bytes", .integer 104857600), ("multicast", multicastTable),
    ("logging", loggingTable file),
    ("write_config", .table [("enabled", .bool false), ("allow_overwrite", .bool false),
      ("allowed_patterns", .array [])]),
    ("performance", performanceTable),
    ("web", .table [("bind_addr", .string "0.0.0.0:443"), ("max_upload_bytes", .integer 524288000),
      ("cors_enabled", .bool false), ("proxy_protocol", .bool false),
      ("audit_log_path", .string "/var/log/usg-tftp/webui-audit.jsonl"), ("tls", tlsTable)])]

/-- Where it is written and read. -/
def exampleSetting (file : Option String) : Setting where
  machine := ⟨true, false, 4⟩
  toml :=
    { print := fun _ => document file
      parse := fun s => if s = document file then some (readTable file) else none
      writeErrorText := fun _ => "unsupported value"
      readErrorText := fun _ => "TOML parse error" }
  env := ⟨[], 40⟩
  ioErrorText := fun _ => "No such file or directory (os error 2)"

theorem writtenTable_reordered (file : Option String) :
    (writtenTable file).Reordered (readTable file) := by
  -- the size moves before four tables, and the log of the web server before one
  refine .of_perm (by simp) (.cons _ (.cons _ (@List.perm_middle _ _ [_, _, _, _] _))) ?_
  refine .cons ⟨rfl, .refl _⟩ (.cons ⟨rfl, .refl _⟩ (.cons ⟨rfl, .refl _⟩ (.cons ⟨rfl, .refl _⟩
    (.cons ⟨rfl, .refl _⟩ (.cons ⟨rfl, .refl _⟩ (.cons ⟨rfl, .refl _⟩ (.cons ⟨rfl, ?_⟩ .nil)))))))
  refine .of_perm (by simp) (.cons _ (.cons _ (.cons _ (.cons _ (.swap _ _ []))))) ?_
  exact List.forall₂_same.mpr fun e _ => ⟨rfl, .refl e.2⟩

theorem write_defaultWithFile {file : Option String}
    (hfile : file = none ∨ file = some "/var/log/usg-tftp/tftp-audit.json") :
    (exampleSetting file).codec.write (defaultWithFile file) = .ok (some (writtenTable file)) := by
  rcases hfile with rfl | rfl
  · rfl
  · rfl

theorem exampleSetting_writesExactly {file : Option String}
    (hfile : file = none ∨ file = some "/var/log/usg-tftp/tftp-audit.json") :
    (exampleSetting file).WritesExactly (defaultWithFile file) := by
  intro v hv
  rw [write_defaultWithFile hfile] at hv
  cases hv
  refine ⟨readTable file, ?_, writtenTable_reordered file⟩
  simp [exampleSetting]

theorem defaultWithFile_fit (file : Option String) : Fit (defaultWithFile file).integers :=
  default_fit ⟨true, false, 4⟩

theorem defaultWithFile_textual (file : Option String) : (defaultWithFile file).Textual where
  paths := by
    cases file with
    | none =>
        simp [defaultWithFile, TftpConfig.default, Utf8, TftpConfig.paths, LoggingConfig.paths]
    | some s =>
        simp [defaultWithFile, TftpConfig.default, Utf8, TftpConfig.paths, LoggingConfig.paths]
  bindAddr := rfl
  webBindAddr := rfl

theorem writable_tftp_toml : Writable ⟨[], 40⟩ .empty (.ofString "/tftp.toml") := by
  decide +kernel

/-! ## The round trip -/

/-- **The round trip**: a configuration is loaded as it was written if and only if its log file is
set. What the crate writes is taken to be exact, so that the paths have to be texts, and addresses
without a flow label. -/
theorem config_round_trip_iff {setting : Setting} {t : Tree} {path : Path} {config : TftpConfig}
    (hpath : Writable setting.env t path) (hexact : setting.WritesExactly config)
    (hfit : Fit config.integers) :
    setting.Loads t path config config ↔ config.logging.file ≠ none ∧ config.Textual := by
  rw [Setting.loads_iff hpath hexact, reload_tftpConfig, and_iff_right hfit]

/-- The default configuration is loaded as it was written. -/
theorem default_config_round_trip :
    (exampleSetting (some "/var/log/usg-tftp/tftp-audit.json")).Loads .empty
      (.ofString "/tftp.toml") (.default ⟨true, false, 4⟩) (.default ⟨true, false, 4⟩) :=
  (config_round_trip_iff writable_tftp_toml (exampleSetting_writesExactly (Or.inr rfl))
    (defaultWithFile_fit _)).mpr ⟨by rintro ⟨⟩, defaultWithFile_textual (some _)⟩

/-- **An unset log file** is loaded as the default one. -/
theorem load_written_file_unset {setting : Setting} {t : Tree} {path : Path} {config : TftpConfig}
    (hpath : Writable setting.env t path) (hexact : setting.WritesExactly config)
    (hfit : Fit config.integers) (htextual : config.Textual) (hfile : config.logging.file = none) :
    setting.Loads t path config config.withDefaultFile :=
  (Setting.loads_iff hpath hexact).mpr
    (reload_tftpConfig_unset setting.machine hfile hfit htextual _)

/-- **Without a log file** it is not: what is loaded logs to the default file. -/
theorem default_config_without_file_changed :
    Writable (exampleSetting none).env .empty (.ofString "/tftp.toml") ∧
      (exampleSetting none).WritesExactly (defaultWithFile none) ∧
      Fit (defaultWithFile none).integers ∧ (defaultWithFile none).Textual ∧
      ¬ (exampleSetting none).Loads .empty (.ofString "/tftp.toml") (defaultWithFile none)
        (defaultWithFile none) ∧
      (exampleSetting none).Loads .empty (.ofString "/tftp.toml") (defaultWithFile none)
        (.default ⟨true, false, 4⟩) := by
  have hexact := exampleSetting_writesExactly (Or.inl rfl)
  have hfit := defaultWithFile_fit none
  have htextual := defaultWithFile_textual none
  refine ⟨writable_tftp_toml, hexact, hfit, htextual, ?_,
    load_written_file_unset writable_tftp_toml hexact hfit htextual rfl⟩
  rw [Setting.loads_iff writable_tftp_toml hexact, reload_tftpConfig]
  exact fun h => h.1 rfl

/-! ## What the server makes of it -/

def SocketAddr.part : SocketAddr → UsgTftp.SocketAddr
  | .v4 ip port => ⟨.v4 ip, port⟩
  | .v6 ip port _ _ => ⟨.v6 ip, port⟩

/-- What the validation and the server look at, if the paths are texts. -/
def TftpConfig.part (c : TftpConfig) : Option UsgTftp.TftpConfig :=
  (fromUtf8 c.rootDir).bind fun rootDir =>
    (c.logging.file.elim (some none) fun file => (fromUtf8 file).map some).map fun logFile =>
      { rootDir := .ofString rootDir
        bindAddr := c.bindAddr.part
        multicast := c.multicast.toMulticastConfig
        logFile := logFile.map .ofString
        writeConfig := c.writeConfig
        performance :=
          { defaultWindowsize := c.performance.defaultWindowsize
            socket := c.performance.platform.socket.toSocketConfig
            workerPool := c.performance.platform.workerPool.toWorkerPoolConfig }
        maxFileSizeBytes := c.maxFileSizeBytes }

/-- A log file is one more thing to validate. -/
theorem validateConfig_logFile {env : Env} {t : Tree} {probe : Probe}
    {config : UsgTftp.TftpConfig} {validateBind : Bool} (hnone : config.logFile = none)
    (hok : validateConfig env t probe config validateBind = .ok ()) (logFile : Path) :
    validateConfig env t probe { config with logFile := some logFile } validateBind = .ok () ↔
      validateLogFile env t probe logFile = .ok () := by
  have hfirst : ∀ {x : Except TftpError Unit} {f : Unit → Except TftpError Unit},
      f () = .ok () → ((x >>= f) = .ok () ↔ x = .ok ()) := by
    intro x f hf
    rw [bind_eq_ok]
    exact ⟨fun ⟨⟨⟩, hx, _⟩ => hx, fun hx => ⟨(), hx, hf⟩⟩
  unfold validateConfig at hok ⊢
  obtain ⟨⟨⟩, hroot, hok⟩ := bind_eq_ok.mp hok
  simp only [hroot, hnone] at hok ⊢
  by_cases hport : config.bindAddr.port = 0
  · rw [if_pos hport] at hok
    cases hok
  rw [if_neg hport] at hok
  rw [ok_bind, if_neg hport]
  -- the port is checked before the log file, and was accepted
  by_cases hmulticast : config.multicast.multicastPort < 1024
  · simp only [if_pos hmulticast] at hok
    split_ifs at hok
    · obtain ⟨⟨⟩, -, hok⟩ := bind_eq_ok.mp hok
      cases hok
    · cases hok
  simp only [if_neg hmulticast] at hok ⊢
  split_ifs at hok ⊢
  · obtain ⟨⟨⟩, hfree, hok⟩ := bind_eq_ok.mp hok
    rw [hfree, ok_bind]
    exact hfirst hok
  · exact hfirst hok

theorem part_withDefaultFile {c : TftpConfig} {config : UsgTftp.TftpConfig}
    (hfile : c.logging.file = none) (hpart : c.part = some config) :
    config.logFile = none ∧ c.withDefaultFile.part =
      some { config with logFile := some (.ofString "/var/log/usg-tftp/tftp-audit.json") } := by
  obtain ⟨rootDir, hroot, hlog⟩ := Option.bind_eq_some_iff.mp hpart
  rw [hfile] at hlog
  cases hlog
  refine ⟨rfl, ?_⟩
  simp [TftpConfig.part, TftpConfig.withDefaultFile, hroot]

/-- **After a reload the log file is validated**: a configuration without one is accepted again
if and only if the default one can be written. -/
theorem validateConfig_withDefaultFile {c : TftpConfig} {config : UsgTftp.TftpConfig}
    (hfile : c.logging.file = none) (hpart : c.part = some config) {env : Env} {t : Tree}
    {probe : Probe} {validateBind : Bool}
    (hok : validateConfig env t probe config validateBind = .ok ()) :
    ∃ config', c.withDefaultFile.part = some config' ∧
      (validateConfig env t probe config' validateBind = .ok () ↔
        validateLogFile env t probe (.ofString "/var/log/usg-tftp/tftp-audit.json") = .ok ()) := by
  obtain ⟨hnone, hpart'⟩ := part_withDefaultFile hfile hpart
  exact ⟨_, hpart', validateConfig_logFile hnone hok _⟩

end UsgTftp.ConfigFile
