import UsgTftp.ConfigFile.RoundTrip
import UsgTftp.Lib.FileSparing
import UsgTftp.Web.AuditLog
import UsgTftp.Web.Handlers

set_option autoImplicit false

/-! # Starting from the configuration file

`main` of `src/bin/server.rs` and of `src/bin/webui.rs`, up to the point where they serve: the
configuration is loaded, or is the default one, the arguments override it, and it is written,
checked or served. What the programs write once they serve, the record of the start among it, is
a change of the tree by others.

`config_after_commands` says which configuration is in the file after any sequence of commands,
and so which one each program starts with; `programs_agree` says what the two programs then share;
`started_iff_checked` compares a start with `--check-config`.
-/

namespace UsgTftp.ConfigFile

open Posix Record

/-! ## Arguments -/

def defaultMulticastAddrForVersion : MulticastIpVersion → IpAddr
  | .v4 => .v4 0xe0000101
  | .v6 => .v6 0xff120000000000000000000080000001

/-- The arguments of the server, as they are parsed. Paths are texts here. -/
structure Cli where
  config : Path := .ofString "/etc/usg-tftp/tftp.toml"
  initConfig : Bool := false
  checkConfig : Bool := false
  createRootDir : Bool := false
  rootDir : Option String := none
  bind : Option SocketAddr := none
  multicast : Option Bool := none
  multicastAddr : Option IpAddr := none
  multicastIpVersion : Option MulticastIpVersion := none
  multicastPort : Option UInt16 := none
  maxClients : Option UInt64 := none
  masterTimeoutSecs : Option UInt64 := none
  retransmitTimeoutSecs : Option UInt64 := none
  /-- The text of an address has no flow label. -/
  bind_flowinfo : ∀ addr ∈ bind, addr.flowinfo = 0 := by simp

/-- Those of the web program. -/
structure WebCli where
  config : Path := .ofString "/etc/usg-tftp/tftp.toml"
  bind : Option SocketAddr := none
  rootDir : Option String := none

def Cli.applyMulticast (cli : Cli) (config : MulticastConfig) : MulticastConfig :=
  { config with
    enabled := cli.multicast.getD config.enabled
    multicastIpVersion := cli.multicastIpVersion.getD config.multicastIpVersion
    -- a version without an address means the default address of that version
    multicastAddr :=
      match cli.multicastAddr, cli.multicastIpVersion with
      | some addr, _ => addr
      | none, some version => defaultMulticastAddrForVersion version
      | none, none => config.multicastAddr
    multicastPort := cli.multicastPort.getD config.multicastPort
    maxClients := cli.maxClients.getD config.maxClients
    masterTimeoutSecs := cli.masterTimeoutSecs.getD config.masterTimeoutSecs
    retransmitTimeoutSecs := cli.retransmitTimeoutSecs.getD config.retransmitTimeoutSecs }

/-- The arguments that are given take the place of what is configured. -/
def Cli.apply (cli : Cli) (config : TftpConfig) : TftpConfig :=
  { config with
    rootDir := (cli.rootDir.map asBytes).getD config.rootDir
    bindAddr := cli.bind.getD config.bindAddr
    multicast := cli.applyMulticast config.multicast }

def WebCli.apply (cli : WebCli) (config : TftpConfig) : TftpConfig :=
  { config with
    web := { config.web with bindAddr := cli.bind.getD config.web.bindAddr }
    rootDir := (cli.rootDir.map asBytes).getD config.rootDir }

/-! ## What the programs start with -/

/-- The path of bytes that are a text, as those of a configuration are. -/
def pathOf (p : PathBuf) : Path := .ofString ((fromUtf8 p).getD "")

/-- What is validated, and computed with. -/
def TftpConfig.checked (c : TftpConfig) : UsgTftp.TftpConfig where
  rootDir := pathOf c.rootDir
  bindAddr := c.bindAddr.part
  multicast := c.multicast.toMulticastConfig
  logFile := c.logging.file.map pathOf
  writeConfig := c.writeConfig
  performance :=
    { defaultWindowsize := c.performance.defaultWindowsize
      socket := c.performance.platform.socket.toSocketConfig
      workerPool := c.performance.platform.workerPool.toWorkerPoolConfig }
  maxFileSizeBytes := c.maxFileSizeBytes

/-- Where audit records are appended. -/
def TftpConfig.auditPath (c : TftpConfig) : Path :=
  (c.logging.auditFile.map pathOf).getD ((pathOf c.rootDir).join [".audit", "tftp-audit.jsonl"])

/-- How the server starts. -/
inductive Startup where
  /-- It prints a line and is done. -/
  | exited (line : String)
  /-- It runs, with a file for audit records if they are enabled. -/
  | serving (config : TftpConfig) (auditFile : Option Path)

section Main

variable (setting : Setting)

/-- The configuration before the arguments. -/
def Setting.initial (t : Tree) (path : Path) : Except TftpError TftpConfig :=
  if pathExists setting.env t path then setting.loadConfig t path
  else .ok (.default setting.machine)

def Setting.createDirAll (t : Tree) (path : Path) : Tree × Except TftpError Unit :=
  match Posix.createDirAll setting.env t (path :: path.parents) with
  | (t', .ok ()) => (t', .ok ())
  | (t', .error e) => (t', .error (.io (setting.ioErrorText e)))

def Setting.createRootDir (cli : Cli) (t : Tree) (config : TftpConfig) :
    Tree × Except TftpError Unit :=
  if cli.createRootDir then setting.createDirAll t (pathOf config.rootDir) else (t, .ok ())

/-- `init_audit_file`: the directory is made if it can be. -/
def Setting.initAuditFile (t : Tree) (path : Path) : Tree :=
  match path.parents with
  | [] => t
  | parents => (Posix.createDirAll setting.env t parents).1

/-- The log file of a subscriber needs a name. -/
def logFileName (config : TftpConfig) : Except TftpError Unit :=
  match config.logging.file with
  | none => .ok ()
  | some file =>
      if (pathOf file).fileName.isSome then .ok ()
      else .error (.tftp "logging.file must include a file name")

/-- What `main` does after the configuration is validated. -/
def Setting.serve (t : Tree) (config : TftpConfig) : Tree × Except TftpError Startup :=
  match logFileName config with
  | .error e => (t, .error e)
  | .ok () =>
      if config.logging.auditEnabled then
        (setting.initAuditFile t config.auditPath, .ok (.serving config (some config.auditPath)))
      else (t, .ok (.serving config none))

/-- The rest of `main`, for a configuration with its overrides. -/
def Setting.startWith (probe : Probe) (cli : Cli) (t : Tree) (config : TftpConfig) :
    Tree × Except TftpError Startup :=
  if cli.initConfig then
    match setting.writeConfig t cli.config config with
    | (t', .error e) => (t', .error e)
    | (t', .ok ()) =>
        match setting.createRootDir cli t' config with
        | (t'', .error e) => (t'', .error e)
        | (t'', .ok ()) =>
            (t'', .ok (.exited s!"Wrote config to {Setting.displayPath cli.config}"))
  else
    match setting.createRootDir cli t config with
    | (t', .error e) => (t', .error e)
    | (t', .ok ()) =>
        if cli.checkConfig then
          match validateConfig setting.env t' probe config.checked false with
          | .error e => (t', .error e)
          | .ok () => (t', .ok (.exited s!"Config OK: {Setting.displayPath cli.config}"))
        else
          match validateConfig setting.env t' probe config.checked true with
          | .error e => (t', .error e)
          | .ok () => setting.serve t' config

/-- `main` of `src/bin/server.rs`. -/
def Setting.main (probe : Probe) (cli : Cli) (t : Tree) : Tree × Except TftpError Startup :=
  match setting.initial t cli.config with
  | .error e => (t, .error e)
  | .ok config => setting.startWith probe cli t (cli.apply config)

/-- The configuration of the web program before its arguments. -/
def Setting.webInitial (t : Tree) (path : Path) : Except String TftpConfig :=
  if pathExists setting.env t path then
    match readFile setting.env t path with
    | .error e => .error (setting.ioErrorText e)
    | .ok bytes =>
        match fromUtf8 bytes with
        | none => .error "stream did not contain valid UTF-8"
        | some contents => setting.toml.ofText setting.codec contents
  else .ok (.default setting.machine)

/-- `main` of `src/bin/webui.rs`, as the configuration that is served. -/
def Setting.webMain (cli : WebCli) (t : Tree) : Tree × Except String TftpConfig :=
  match setting.webInitial t cli.config with
  | .error e => (t, .error e)
  | .ok initial =>
      let config := cli.apply initial
      let rootDir := pathOf config.rootDir
      if pathExists setting.env t rootDir then (t, .ok config)
      else
        match Posix.createDirAll setting.env t (rootDir :: rootDir.parents) with
        | (t', .ok ()) => (t', .ok config)
        | (t', .error e) => (t', .error (setting.ioErrorText e))

end Main

/-! ## What is loaded is text -/

theorem read_pathBuf {v : Value} {p : PathBuf} (h : pathBuf.read v = some p) :
    (fromUtf8 p).isSome = true := by
  obtain ⟨s, -, hs⟩ := Option.bind_eq_some_iff.mp h
  cases hs
  rw [fromUtf8_asBytes]
  rfl

/-- No address is read with a flow label. -/
theorem parseSocketAddr_flowinfo {s : String} {addr : SocketAddr}
    (h : parseSocketAddr s = some addr) : addr.flowinfo = 0 := by
  obtain ⟨socket, hsocket, rfl⟩ := Option.map_eq_some_iff.mp h
  unfold AddrText.parseSocket at hsocket
  split at hsocket
  · rename_i socket' heq
    cases hsocket
    rcases Option.or_eq_some_iff.mp heq with h4 | ⟨-, h6⟩
    · obtain ⟨⟨ip, cs⟩, -, h4⟩ := Option.bind_eq_some_iff.mp h4
      obtain ⟨⟨port, cs'⟩, -, h4⟩ := Option.map_eq_some_iff.mp h4
      cases h4
      rfl
    · obtain ⟨cs, -, h6⟩ := Option.bind_eq_some_iff.mp h6
      obtain ⟨⟨ip, cs⟩, -, h6⟩ := Option.bind_eq_some_iff.mp h6
      obtain ⟨cs', -, h6⟩ := Option.bind_eq_some_iff.mp h6
      obtain ⟨⟨port, cs''⟩, -, h6⟩ := Option.map_eq_some_iff.mp h6
      cases h6
      rfl
  · cases hsocket

theorem read_socketAddr {v : Value} {addr : SocketAddr} (h : socketAddr.read v = some addr) :
    addr.flowinfo = 0 := by
  obtain ⟨s, -, hs⟩ := Option.bind_eq_some_iff.mp h
  exact parseSocketAddr_flowinfo hs

theorem read_webConfig {v : Value} {c : WebConfig} (h : WebConfig.codec.read v = some c) :
    c.bindAddr.flowinfo = 0 := by
  refine readRecord_preserves (P := fun c => c.bindAddr.flowinfo = 0) ?_ rfl h
  intro m hm v a c hread hc
  simp only [WebConfig.members, List.mem_cons, List.not_mem_nil, or_false] at hm
  rcases hm with rfl | rfl | rfl | rfl | rfl | rfl
  · exact read_socketAddr hread
  · exact hc
  · exact hc
  · exact hc
  · exact hc
  · exact hc

theorem read_loggingConfig {v : Value} {c : LoggingConfig}
    (h : LoggingConfig.codec.read v = some c) : Utf8 c.paths := by
  refine readRecord_preserves (P := fun c => Utf8 c.paths) ?_ ?_ h
  · intro m hm v a c hread hc
    simp only [LoggingConfig.members, List.mem_cons, List.not_mem_nil, or_false] at hm
    rcases hm with rfl | rfl | rfl | rfl | rfl
    · exact hc
    · exact hc
    -- a path that is in the document is a text
    · obtain ⟨p, hp, rfl⟩ := Option.map_eq_some_iff.mp hread
      intro q hq
      rcases List.mem_append.mp hq with hq | hq
      · obtain rfl : q = p := by simpa using hq
        exact read_pathBuf hp
      · exact hc q (List.mem_append_right _ hq)
    · obtain ⟨p, hp, rfl⟩ := Option.map_eq_some_iff.mp hread
      intro q hq
      rcases List.mem_append.mp hq with hq | hq
      · exact hc q (List.mem_append_left _ hq)
      · obtain rfl : q = p := by simpa using hq
        exact read_pathBuf hp
    · exact hc
  · simp [Utf8, LoggingConfig.paths]

/-- **What is read** is text, and its addresses have no flow label. -/
theorem read_tftpConfig {machine : Machine} {v : Value} {c : TftpConfig}
    (h : (TftpConfig.codec machine).read v = some c) : c.Textual := by
  refine readRecord_preserves (P := TftpConfig.Textual) ?_ (default_textual machine) h
  intro m hm v a c hread hc
  obtain ⟨hpaths, hbind, hwebBind⟩ := hc
  obtain ⟨hroot, hlogging⟩ := List.forall_mem_cons.mp hpaths
  simp only [TftpConfig.members, List.mem_cons, List.not_mem_nil, or_false] at hm
  rcases hm with rfl | rfl | rfl | rfl | rfl | rfl | rfl | rfl
  · exact ⟨List.forall_mem_cons.mpr ⟨read_pathBuf hread, hlogging⟩, hbind, hwebBind⟩
  · exact ⟨hpaths, read_socketAddr hread, hwebBind⟩
  · exact ⟨hpaths, hbind, hwebBind⟩
  · exact ⟨List.forall_mem_cons.mpr ⟨hroot, read_loggingConfig hread⟩, hbind, hwebBind⟩
  · exact ⟨hpaths, hbind, hwebBind⟩
  · exact ⟨hpaths, hbind, hwebBind⟩
  · exact ⟨hpaths, hbind, hwebBind⟩
  · exact ⟨hpaths, hbind, read_webConfig hread⟩

/-- The server looks at the same part of a configuration of texts. -/
theorem part_of_textual {c : TftpConfig} (h : c.Textual) : c.part = some c.checked := by
  obtain ⟨hroot, hlogging⟩ := List.forall_mem_cons.mp h.paths
  obtain ⟨rootDir, hrootDir⟩ := Option.isSome_iff_exists.mp hroot
  cases hfile : c.logging.file with
  | none => simp [TftpConfig.part, TftpConfig.checked, pathOf, hrootDir, hfile]
  | some file =>
      have hmem : file ∈ c.logging.paths := by simp [LoggingConfig.paths, hfile]
      obtain ⟨logFile, hlogFile⟩ := Option.isSome_iff_exists.mp (hlogging file hmem)
      simp [TftpConfig.part, TftpConfig.checked, pathOf, hrootDir, hfile, hlogFile]

/-- A configuration that can be loaded as it is, if its integers fit. -/
structure TftpConfig.Loadable (c : TftpConfig) : Prop where
  file : c.logging.file ≠ none
  textual : c.Textual

theorem default_loadable (machine : Machine) : (TftpConfig.default machine).Loadable :=
  ⟨by rintro ⟨⟩, default_textual machine⟩

section Loaded

variable {setting : Setting} {t : Tree} {path : Path} {config : TftpConfig}

theorem loadConfig_eq_ok_iff : setting.loadConfig t path = .ok config ↔
    ∃ contents, readFile setting.env t path = .ok (asBytes contents) ∧
      setting.toml.ofText setting.codec contents = .ok config := by
  refine ⟨fun h => ?_, fun ⟨contents, hread, hof⟩ => (Setting.loadConfig_eq_ok hread).mpr hof⟩
  have htext : ∃ contents, readFile setting.env t path = .ok (asBytes contents) := by
    unfold Setting.loadConfig Setting.readToString at h
    cases hread : readFile setting.env t path with
    | error e =>
        rw [hread] at h
        cases h
    | ok bytes =>
        rw [hread] at h
        cases hutf8 : fromUtf8 bytes with
        | none =>
            simp only [hutf8] at h
            cases h
        | some contents => exact ⟨contents, by rw [asBytes_of_fromUtf8 hutf8]⟩
  obtain ⟨contents, hread⟩ := htext
  exact ⟨contents, hread, (Setting.loadConfig_eq_ok hread).mp h⟩

theorem loadable_of_loadConfig (h : setting.loadConfig t path = .ok config) : config.Loadable := by
  refine ⟨Setting.file_of_loadConfig h, ?_⟩
  obtain ⟨contents, -, hof⟩ := loadConfig_eq_ok_iff.mp h
  unfold Format.ofText at hof
  cases hread : (setting.toml.parse contents).bind setting.codec.read with
  | none => rw [hread] at hof; cases hof
  | some c =>
      rw [hread] at hof
      cases hof
      obtain ⟨v, -, hv⟩ := Option.bind_eq_some_iff.mp hread
      exact read_tftpConfig hv

/-- **The configuration before the arguments** has a log file and is text. -/
theorem loadable_of_initial (h : setting.initial t path = .ok config) : config.Loadable := by
  unfold Setting.initial at h
  split_ifs at h
  · exact loadable_of_loadConfig h
  · cases h
    exact default_loadable setting.machine

/-- A file that is loaded exists. -/
theorem initial_of_loadConfig (h : setting.loadConfig t path = .ok config) :
    setting.initial t path = .ok config := by
  obtain ⟨contents, hread, -⟩ := loadConfig_eq_ok_iff.mp h
  obtain ⟨loc, i, hloc, he, -⟩ := readFile_eq_ok hread
  have hexists : pathExists setting.env t path = true := by
    rw [pathExists, metadata_of_canonicalize hloc he]
    rfl
  rw [Setting.initial, if_pos hexists, h]

/-- The web program loads what the server loads. -/
theorem webInitial_of_loadConfig (h : setting.loadConfig t path = .ok config) :
    setting.webInitial t path = .ok config := by
  obtain ⟨contents, hread, hof⟩ := loadConfig_eq_ok_iff.mp h
  obtain ⟨loc, i, hloc, he, -⟩ := readFile_eq_ok hread
  have hexists : pathExists setting.env t path = true := by
    rw [pathExists, metadata_of_canonicalize hloc he]
    rfl
  rw [Setting.webInitial, if_pos hexists, hread]
  simp only [fromUtf8_asBytes, hof]

end Loaded

/-! ## Which configurations are written -/

section Writes

@[simp] theorem writes_socketAddr (addr : SocketAddr) : socketAddr.Writes addr := ⟨_, rfl⟩

@[simp] theorem writes_ipAddr (ip : IpAddr) : ipAddr.Writes ip := ⟨_, rfl⟩

theorem writes_tlsConfig (c : TlsConfig) : TlsConfig.codec.Writes c := by
  rw [TlsConfig.codec, writes_record]
  simp [TlsConfig.members]

theorem writes_webConfig (c : WebConfig) : WebConfig.codec.Writes c ↔ Fit c.integers := by
  rw [WebConfig.codec, writes_record]
  simp [WebConfig.members, WebConfig.integers, writes_tlsConfig]

theorem writes_multicastConfig (c : MulticastConfig) :
    MulticastConfig.codec.Writes c ↔ Fit c.integers := by
  rw [MulticastConfig.codec, writes_record]
  simp [MulticastConfig.members, MulticastConfig.integers, multicastIpVersion]

theorem writes_socketConfig (c : SocketConfig) :
    SocketConfig.codec.Writes c ↔ Fit c.integers := by
  rw [SocketConfig.codec, writes_record]
  simp [SocketConfig.members, SocketConfig.integers]

variable (machine : Machine)

theorem writes_batchConfig (c : BatchConfig) :
    (BatchConfig.codec machine).Writes c ↔ Fit c.integers := by
  rw [BatchConfig.codec, writes_record]
  simp [BatchConfig.members, BatchConfig.integers]

theorem writes_zeroCopyConfig (c : ZeroCopyConfig) :
    (ZeroCopyConfig.codec machine).Writes c ↔ Fit c.integers := by
  rw [ZeroCopyConfig.codec, writes_record]
  simp [ZeroCopyConfig.members, ZeroCopyConfig.integers]

theorem writes_workerPoolConfig (c : WorkerPoolConfig) :
    (WorkerPoolConfig.codec machine).Writes c ↔ Fit c.integers := by
  rw [WorkerPoolConfig.codec, writes_record]
  simp [WorkerPoolConfig.members, WorkerPoolConfig.integers, loadBalanceStrategy]

theorem writes_performanceConfig {c : PerformanceConfig}
    (h : (PerformanceConfig.codec machine).Writes c) : Fit c.integers := by
  rw [PerformanceConfig.codec, writes_record] at h
  simp only [PerformanceConfig.members, Member.of, List.forall_mem_cons, writes_uint64] at h
  obtain ⟨hblock, hwindow, hpool, hthreshold, -, hplatform, -⟩ := h
  rw [PlatformPerformanceConfig.codec, writes_record] at hplatform
  simp only [PlatformPerformanceConfig.members, Member.of, List.forall_mem_cons,
    writes_socketConfig, writes_batchConfig, writes_zeroCopyConfig, writes_workerPoolConfig]
    at hplatform
  obtain ⟨hsocket, -, hbatch, hzero, hworkers, -⟩ := hplatform
  simp only [PerformanceConfig.integers, PlatformPerformanceConfig.integers, fit_append, fit_cons,
    fit_nil, and_true]
  exact ⟨⟨hblock, hwindow, hpool, hthreshold⟩, ⟨⟨hsocket, hbatch⟩, hzero⟩, hworkers⟩

/-- **What is written** has integers that a document can have. -/
theorem fit_of_writes {c : TftpConfig} (h : (TftpConfig.codec machine).Writes c) :
    Fit c.integers := by
  rw [TftpConfig.codec, writes_record] at h
  simp only [TftpConfig.members, Member.of, List.forall_mem_cons, writes_uint64,
    writes_multicastConfig, writes_webConfig] at h
  obtain ⟨-, -, hmulticast, -, -, hperformance, hsize, hweb, -⟩ := h
  simp only [TftpConfig.integers, fit_append, fit_cons, fit_nil, and_true]
  exact ⟨⟨⟨hmulticast, writes_performanceConfig machine hperformance⟩, hsize⟩, hweb⟩

end Writes

section Write

variable {setting : Setting} {t : Tree} {path : Path} {config : TftpConfig}

/-- What is written can be loaded as it was. -/
theorem writeConfig_loads (hloadable : config.Loadable) (hfit : Fit config.integers)
    (hexact : setting.WritesExactly config) (hpath : Writable setting.env t path) :
    ∃ t', setting.writeConfig t path config = (t', .ok ()) ∧
      setting.loadConfig t' path = .ok config :=
  (Setting.loads_iff hpath hexact).mpr ((reload_tftpConfig setting.machine _ config).mpr
    ⟨hloadable.file, hfit, hloadable.textual⟩)

/-- An integer that is too large is found before the file is opened. -/
theorem writeConfig_unfit (setting : Setting) (t : Tree) (path : Path)
    (hfit : ¬ Fit config.integers) :
    ∃ e, setting.writeConfig t path config = (t, .error e) := by
  unfold Setting.writeConfig Format.toText
  cases hwrite : setting.codec.write config with
  | error e => exact ⟨_, rfl⟩
  | ok written => exact absurd (fit_of_writes setting.machine ⟨written, hwrite⟩) hfit

end Write

/-! ## Overrides -/

/-- **Arguments given twice** are as given once. -/
theorem Cli.apply_apply (cli : Cli) (c : TftpConfig) : cli.apply (cli.apply c) = cli.apply c := by
  have hgetD : ∀ {α : Type} (o : Option α) (a : α), o.getD (o.getD a) = o.getD a := by
    intro α o a
    cases o with
    | none => rfl
    | some b => rfl
  unfold Cli.apply Cli.applyMulticast
  simp only [hgetD]
  cases cli.multicastAddr with
  | some addr => rfl
  | none =>
      cases cli.multicastIpVersion with
      | none => rfl
      | some version => rfl

theorem isSome_fromUtf8_getD {o : Option String} {p : PathBuf} (hp : (fromUtf8 p).isSome = true) :
    (fromUtf8 ((o.map asBytes).getD p)).isSome = true := by
  cases o with
  | none => exact hp
  | some s =>
      show (fromUtf8 (asBytes s)).isSome = true
      rw [fromUtf8_asBytes]
      rfl

theorem Cli.apply_loadable (cli : Cli) {c : TftpConfig} (h : c.Loadable) :
    (cli.apply c).Loadable := by
  obtain ⟨hroot, hlogging⟩ := List.forall_mem_cons.mp h.textual.paths
  refine ⟨h.file, List.forall_mem_cons.mpr ⟨isSome_fromUtf8_getD hroot, hlogging⟩, ?_,
    h.textual.webBindAddr⟩
  show (cli.bind.getD c.bindAddr).flowinfo = 0
  cases hbind : cli.bind with
  | none => exact h.textual.bindAddr
  | some addr => exact cli.bind_flowinfo addr hbind

/-! ## One command -/

/-- What changes the tree, the file of the configuration among it. -/
inductive Command where
  /-- The server is started. -/
  | server (cli : Cli) (probe : Probe)
  /-- The web program is started. -/
  | web (cli : WebCli)
  /-- Another program changes the tree, or one that serves. -/
  | others (t' : Tree)

/-- The configuration in the file after the command. -/
def Command.settle : Command → TftpConfig → TftpConfig
  | .server cli _, c =>
      if cli.initConfig ∧ Fit (cli.apply c).integers then cli.apply c else c
  | .web _, c => c
  | .others _, c => c

section Exec

variable (setting : Setting)

def Setting.exec : Command → Tree → Tree
  | .server cli probe, t => (setting.main probe cli t).1
  | .web cli, t => (setting.webMain cli t).1
  | .others t', _ => t'

def Setting.execs (cmds : List Command) (t : Tree) : Tree :=
  cmds.foldl (fun t cmd => setting.exec cmd t) t

/-- The command is about the file at `path`: the crate writes it exactly, and others leave it
alone. -/
def Setting.SoundStep (path : Path) : Command → Tree → TftpConfig → Prop
  | .server cli _, _, c => cli.config = path ∧
      (cli.initConfig = true → setting.WritesExactly (cli.apply c))
  | .web cli, _, _ => cli.config = path
  | .others t', t, _ => readFile setting.env t' path = readFile setting.env t path

/-- All commands are. -/
def Setting.SoundRun (path : Path) : List Command → Tree → TftpConfig → Prop
  | [], _, _ => True
  | cmd :: cmds, t, c => setting.SoundStep path cmd t c ∧
      Setting.SoundRun path cmds (setting.exec cmd t) (cmd.settle c)

end Exec

section Step

variable {setting : Setting} {t t' : Tree} {path : Path} {c : TftpConfig}

/-- A configuration is loaded as before when directories were added. -/
theorem loadConfig_extends (h : Extends t t' ∧ t'.content = t.content)
    (hload : setting.loadConfig t path = .ok c) : setting.loadConfig t' path = .ok c := by
  obtain ⟨contents, hread, hof⟩ := loadConfig_eq_ok_iff.mp hload
  exact loadConfig_eq_ok_iff.mpr ⟨contents, readFile_extends h.1 h.2 hread, hof⟩

theorem createRootDir_extends (setting : Setting) (cli : Cli) (t : Tree) (c : TftpConfig) :
    Extends t (setting.createRootDir cli t c).1 ∧
      (setting.createRootDir cli t c).1.content = t.content := by
  unfold Setting.createRootDir
  split_ifs
  · have h := createDirAll_extends setting.env
      (pathOf c.rootDir :: (pathOf c.rootDir).parents) t
    unfold Setting.createDirAll
    split
    · rename_i t' heq
      rwa [heq] at h
    · rename_i t' e heq
      rwa [heq] at h
  · exact ⟨fun _ _ => rfl, rfl⟩

theorem serve_extends (setting : Setting) (t : Tree) (c : TftpConfig) :
    Extends t (setting.serve t c).1 ∧ (setting.serve t c).1.content = t.content := by
  have hrefl : Extends t t ∧ t.content = t.content := ⟨fun _ _ => rfl, rfl⟩
  unfold Setting.serve
  split
  · exact hrefl
  · split_ifs
    · show Extends t (setting.initAuditFile t c.auditPath) ∧ _
      unfold Setting.initAuditFile
      split
      · exact hrefl
      · exact createDirAll_extends setting.env _ t
    · exact hrefl

theorem webMain_extends (setting : Setting) (cli : WebCli) (t : Tree) :
    Extends t (setting.webMain cli t).1 ∧ (setting.webMain cli t).1.content = t.content := by
  have hrefl : Extends t t ∧ t.content = t.content := ⟨fun _ _ => rfl, rfl⟩
  unfold Setting.webMain
  split
  · exact hrefl
  · rename_i initial _
    simp only
    split_ifs
    · exact hrefl
    · have h := createDirAll_extends setting.env
        (pathOf (cli.apply initial).rootDir :: (pathOf (cli.apply initial).rootDir).parents) t
      split
      · rename_i t' heq
        rwa [heq] at h
      · rename_i t' e heq
        rwa [heq] at h

/-- Without `--init-config` only directories are made. -/
theorem startWith_extends {cli : Cli} (hinit : cli.initConfig = false) (probe : Probe) (t : Tree)
    (c : TftpConfig) : Extends t (setting.startWith probe cli t c).1 ∧
      (setting.startWith probe cli t c).1.content = t.content := by
  have hroot := createRootDir_extends setting cli t c
  unfold Setting.startWith
  rw [hinit, if_neg Bool.false_ne_true]
  split
  · rename_i t' e heq
    rwa [heq] at hroot
  · rename_i t' heq
    rw [heq] at hroot
    split_ifs
    · split
      · exact hroot
      · exact hroot
    · split
      · exact hroot
      · have hserve := serve_extends setting t' c
        refine ⟨fun l hl => ?_, hserve.2.trans hroot.2⟩
        have hl' := hroot.1 l hl
        rw [hserve.1 l (by rwa [hl']), hl']

/-- **`--init-config`** writes the configuration that the arguments make of the one there was. -/
theorem loadConfig_startWith_init {cli : Cli} (hinit : cli.initConfig = true) (probe : Probe)
    (hloadable : c.Loadable) (hfit : Fit c.integers) (hexact : setting.WritesExactly c)
    (hpath : Writable setting.env t cli.config) :
    setting.loadConfig (setting.startWith probe cli t c).1 cli.config = .ok c := by
  obtain ⟨t', hwrite, hload⟩ := writeConfig_loads hloadable hfit hexact hpath
  have hroot := createRootDir_extends setting cli t' c
  unfold Setting.startWith
  rw [if_pos hinit, hwrite]
  simp only
  split
  · rename_i t'' e heq
    rw [heq] at hroot
    exact loadConfig_extends hroot hload
  · rename_i t'' heq
    rw [heq] at hroot
    exact loadConfig_extends hroot hload

/-- With integers that are too large nothing happens. -/
theorem startWith_unfit {cli : Cli} (hinit : cli.initConfig = true) (probe : Probe)
    (hfit : ¬ Fit c.integers) : (setting.startWith probe cli t c).1 = t := by
  obtain ⟨e, hwrite⟩ := writeConfig_unfit setting t cli.config hfit
  unfold Setting.startWith
  rw [if_pos hinit, hwrite]

/-- **One command** leaves the configuration in the file that it settles. -/
theorem loadConfig_exec {cmd : Command} (hsound : setting.SoundStep path cmd t c)
    (hload : setting.loadConfig t path = .ok c) :
    setting.loadConfig (setting.exec cmd t) path = .ok (cmd.settle c) := by
  cases cmd with
  | server cli probe =>
      obtain ⟨rfl, hexact⟩ := hsound
      have hinitial := initial_of_loadConfig hload
      have hloadable := cli.apply_loadable (loadable_of_loadConfig hload)
      show setting.loadConfig (setting.main probe cli t).1 cli.config = _
      rw [Setting.main, hinitial, Command.settle]
      cases hinit : cli.initConfig with
      | false =>
          rw [if_neg (by simp)]
          exact loadConfig_extends (startWith_extends hinit probe t _) hload
      | true =>
          obtain ⟨contents, hread, -⟩ := loadConfig_eq_ok_iff.mp hload
          by_cases hfit : Fit (cli.apply c).integers
          · rw [if_pos ⟨rfl, hfit⟩]
            exact loadConfig_startWith_init hinit probe hloadable hfit (hexact hinit)
              (writable_of_readFile hread)
          · rw [if_neg fun h => hfit h.2]
            simp only [startWith_unfit hinit probe hfit]
            exact hload
  | web cli =>
      obtain rfl : cli.config = path := hsound
      exact loadConfig_extends (webMain_extends setting cli t) hload
  | others t' =>
      have hread : readFile setting.env t' path = readFile setting.env t path := hsound
      rw [loadConfig_eq_ok_iff] at hload ⊢
      rwa [← hread] at hload

end Step

/-! ## Any number of commands -/

section Run

variable {setting : Setting} {path : Path}

theorem loadConfig_execs {cmds : List Command} {t : Tree} {c : TftpConfig}
    (hrun : setting.SoundRun path cmds t c) (hload : setting.loadConfig t path = .ok c) :
    setting.loadConfig (setting.execs cmds t) path =
      .ok (cmds.foldl (fun c cmd => cmd.settle c) c) := by
  induction cmds generalizing t c with
  | nil => exact hload
  | cons cmd cmds ih => exact ih hrun.2 (loadConfig_exec hrun.1 hload)

end Run

/-! ## Serving and checking -/

section Serving

variable {setting : Setting} {t : Tree} {probe : Probe} {cli : Cli} {c config : TftpConfig}
  {auditFile : Option Path}

theorem main_eq (probe : Probe) (cli : Cli) (hinitial : setting.initial t cli.config = .ok c) :
    setting.main probe cli t = setting.startWith probe cli t (cli.apply c) := by
  rw [Setting.main, hinitial]

theorem serve_serving_iff : (setting.serve t c).2 = .ok (.serving config auditFile) ↔
    logFileName c = .ok () ∧ config = c ∧
      auditFile = if c.logging.auditEnabled then some c.auditPath else none := by
  unfold Setting.serve
  cases hname : logFileName c with
  | error e => exact iff_of_false (by rintro ⟨⟩) (by rintro ⟨⟨⟩, -⟩)
  | ok u =>
      rw [and_iff_right rfl]
      split_ifs
      · simp [eq_comm]
      · simp [eq_comm]

/-- **When the server runs**, and with what. -/
theorem startWith_serving_iff :
    (setting.startWith probe cli t c).2 = .ok (.serving config auditFile) ↔
      cli.initConfig = false ∧ cli.checkConfig = false ∧
        (setting.createRootDir cli t c).2 = .ok () ∧
        validateConfig setting.env (setting.createRootDir cli t c).1 probe c.checked true = .ok () ∧
        logFileName c = .ok () ∧ config = c ∧
        auditFile = if c.logging.auditEnabled then some c.auditPath else none := by
  unfold Setting.startWith
  cases hinit : cli.initConfig with
  | true =>
      refine iff_of_false ?_ (by rintro ⟨⟨⟩, -⟩)
      rw [if_pos rfl]
      split
      · rintro ⟨⟩
      · split
        · rintro ⟨⟩
        · rintro ⟨⟩
  | false =>
      rw [if_neg Bool.false_ne_true, and_iff_right rfl]
      obtain ⟨t', made⟩ := setting.createRootDir cli t c
      cases made with
      | error e => exact iff_of_false (by rintro ⟨⟩) (by rintro ⟨-, ⟨⟩, -⟩)
      | ok u =>
          simp only
          cases hcheck : cli.checkConfig with
          | true =>
              refine iff_of_false ?_ (by rintro ⟨⟨⟩, -⟩)
              rw [if_pos rfl]
              split
              · rintro ⟨⟩
              · rintro ⟨⟩
          | false =>
              rw [if_neg Bool.false_ne_true, and_iff_right rfl, true_and]
              cases hvalid : validateConfig setting.env t' probe c.checked true with
              | error e => exact iff_of_false (by rintro ⟨⟩) (by rintro ⟨⟨⟩, -⟩)
              | ok u' =>
                  rw [and_iff_right rfl]
                  exact serve_serving_iff

/-- **When `--check-config`** finds nothing wrong. -/
theorem startWith_check_iff (hinit : cli.initConfig = false) (hcheck : cli.checkConfig = true) :
    (∃ line, (setting.startWith probe cli t c).2 = .ok (.exited line)) ↔
      (setting.createRootDir cli t c).2 = .ok () ∧
        validateConfig setting.env (setting.createRootDir cli t c).1 probe c.checked false
          = .ok () := by
  unfold Setting.startWith
  rw [hinit, if_neg Bool.false_ne_true]
  obtain ⟨t', made⟩ := setting.createRootDir cli t c
  cases made with
  | error e => exact iff_of_false (by rintro ⟨line, ⟨⟩⟩) (by rintro ⟨⟨⟩, -⟩)
  | ok u =>
      simp only
      rw [if_pos hcheck, true_and]
      cases hvalid : validateConfig setting.env t' probe c.checked false with
      | error e => exact iff_of_false (by rintro ⟨line, ⟨⟩⟩) (by rintro ⟨⟩)
      | ok u' => exact iff_of_true ⟨_, rfl⟩ rfl

/-- To validate the address as well is to bind it once more. -/
theorem validateConfig_bind_iff {env : Env} {config : UsgTftp.TftpConfig} :
    validateConfig env t probe config true = .ok () ↔
      validateConfig env t probe config false = .ok () ∧ probe.bind config.bindAddr = none := by
  unfold validateConfig
  cases hroot : validateRootDir env t probe config.rootDir with
  | error e => exact iff_of_false (by rintro ⟨⟩) (by rintro ⟨⟨⟩, -⟩)
  | ok u =>
      rw [ok_bind, ok_bind]
      by_cases hport : config.bindAddr.port = 0
      · rw [if_pos hport, if_pos hport]
        exact iff_of_false (by rintro ⟨⟩) (by rintro ⟨⟨⟩, -⟩)
      · rw [if_neg hport, if_neg hport]
        simp only [if_true, if_neg Bool.false_ne_true]
        cases hbind : probe.bind config.bindAddr with
        | none =>
            rw [and_iff_left rfl]
            rfl
        | some text => exact iff_of_false (by rintro ⟨⟩) (by rintro ⟨-, ⟨⟩⟩)

/-- **A start against a check**: the server runs if and only if `--check-config` finds nothing
wrong with the same arguments, its address can be bound, and its log file has a name. -/
theorem started_iff_checked (hinit : cli.initConfig = false)
    (hinitial : setting.initial t cli.config = .ok c) :
    (∃ config auditFile, (setting.main probe { cli with checkConfig := false } t).2
        = .ok (.serving config auditFile)) ↔
      (∃ line, (setting.main probe { cli with checkConfig := true } t).2 = .ok (.exited line)) ∧
        probe.bind (cli.apply c).bindAddr.part = none ∧ logFileName (cli.apply c) = .ok () := by
  rw [main_eq probe { cli with checkConfig := false } hinitial,
    main_eq probe { cli with checkConfig := true } hinitial]
  -- the flag changes neither the configuration nor what is made for it
  have hcheck := @startWith_check_iff setting t probe { cli with checkConfig := true }
    (cli.apply c) hinit rfl
  refine Iff.trans ?_ (and_congr_left' hcheck.symm)
  constructor
  · rintro ⟨config, auditFile, h⟩
    obtain ⟨-, -, hroot, hvalid, hname, -, -⟩ := startWith_serving_iff.mp h
    obtain ⟨hvalid, hbind⟩ := validateConfig_bind_iff.mp hvalid
    exact ⟨⟨hroot, hvalid⟩, hbind, hname⟩
  · rintro ⟨⟨hroot, hvalid⟩, hbind, hname⟩
    exact ⟨_, _, startWith_serving_iff.mpr ⟨hinit, rfl, hroot,
      validateConfig_bind_iff.mpr ⟨hvalid, hbind⟩, hname, rfl, rfl⟩⟩

end Serving

/-! ## A start on a small tree -/

/-- Where the default configuration is written and read. -/
def startSetting : Setting := exampleSetting (some "/var/log/usg-tftp/tftp-audit.json")

def startPath : Path := .ofString "/tftp.toml"

/-- The directory of the log file. -/
def logTree : Tree :=
  let log := Path.ofString "/var/log/usg-tftp"
  (Posix.createDirAll startSetting.env .empty (log :: log.parents)).1

/-- With the file of the default configuration. -/
def startTree : Tree :=
  (startSetting.writeConfig logTree startPath (.default startSetting.machine)).1

theorem writesExactly_default : startSetting.WritesExactly (.default startSetting.machine) :=
  @exampleSetting_writesExactly (some "/var/log/usg-tftp/tftp-audit.json") (Or.inr rfl)

theorem startTree_loads :
    startSetting.loadConfig startTree startPath = .ok (.default startSetting.machine) := by
  have hpath : Writable startSetting.env logTree startPath := by decide +kernel
  obtain ⟨t, hwrite, hload⟩ := writeConfig_loads (default_loadable startSetting.machine)
    (default_fit startSetting.machine) writesExactly_default hpath
  rw [startTree, hwrite]
  exact hload

/-! ## What the programs start with after any number of commands -/

section Started

variable {setting : Setting} {path : Path} {cmds : List Command} {t : Tree} {c : TftpConfig}

theorem main_serving {probe : Probe} {cli : Cli} {config : TftpConfig} {auditFile : Option Path}
    (hinitial : setting.initial t cli.config = .ok c)
    (h : (setting.main probe cli t).2 = .ok (.serving config auditFile)) :
    config = cli.apply c ∧
      auditFile = if config.logging.auditEnabled then some config.auditPath else none := by
  rw [main_eq probe cli hinitial] at h
  obtain ⟨-, -, -, -, -, rfl, haudit⟩ := startWith_serving_iff.mp h
  exact ⟨rfl, haudit⟩

theorem webMain_of_made {cli : WebCli} (hinitial : setting.webInitial t cli.config = .ok c)
    (hmade : (Posix.createDirAll setting.env t (pathOf (cli.apply c).rootDir ::
      (pathOf (cli.apply c).rootDir).parents)).2 = .ok ()) :
    (setting.webMain cli t).2 = .ok (cli.apply c) := by
  rw [Setting.webMain, hinitial]
  simp only
  split_ifs
  · rfl
  · split
    · rfl
    · rename_i t' e heq
      rw [heq] at hmade
      cases hmade

theorem webMain_eq_ok {cli : WebCli} {config : TftpConfig}
    (hinitial : setting.webInitial t cli.config = .ok c)
    (h : (setting.webMain cli t).2 = .ok config) : config = cli.apply c := by
  rw [Setting.webMain, hinitial] at h
  simp only at h
  split_ifs at h
  · cases h
    rfl
  · split at h
    · cases h
      rfl
    · cases h

/-- The port that is configured already. -/
def portCli : Cli := { config := startPath, initConfig := true, multicastPort := some 1758 }

/-- The configuration is written with an argument, and the web program started. -/
def startCommands : List Command := [.server portCli quietProbe, .web { config := startPath }]

theorem portCli_apply (machine : Machine) :
    portCli.apply (.default machine) = .default machine := rfl

theorem startCommands_sound :
    startSetting.SoundRun startPath startCommands startTree (.default startSetting.machine) := by
  have hexact : startSetting.WritesExactly (portCli.apply (.default startSetting.machine)) := by
    rw [portCli_apply]
    exact writesExactly_default
  exact ⟨⟨rfl, fun _ => hexact⟩, rfl, trivial⟩

end Started

/-! ## One file for two programs -/

/-- What the handlers of the web program work with. -/
def Setting.appState (setting : Setting) (glob : Glob) (c : TftpConfig) : AppState where
  rootDir := pathOf c.rootDir
  writeConfig := c.writeConfig
  glob := glob
  env := setting.env
  errorText := setting.ioErrorText

/-- What its audit viewer works with. -/
def Setting.auditState {V : Type} (setting : Setting) (json : Json V)
    (toLowercase : String → String) (t : Tree) (c : TftpConfig) : AuditState V where
  logPath := .ofString c.web.auditLogPath
  auditFile := c.logging.auditFile.map pathOf
  rootDir := pathOf c.rootDir
  json := json
  toLowercase := toLowercase
  pathExists := pathExists setting.env t
  readToString p := (setting.readToString t p).toOption

section Agree

variable {setting : Setting} {path : Path} {cmds : List Command} {t : Tree} {c : TftpConfig}

theorem soundRun_take (i : Nat) (h : setting.SoundRun path cmds t c) :
    setting.SoundRun path (cmds.take i) t c := by
  induction cmds generalizing i t c with
  | nil => rwa [List.take_nil]
  | cons cmd cmds ih =>
      cases i with
      | zero => trivial
      | succ i => exact ⟨h.1, ih i h.2⟩

/-- **The two programs agree**, started with the same root directory at two points of a run at
which the file says the same: on the directory, on the policy for writing, and on the file that
the server appends its audit records to and the viewer reads. -/
theorem programs_agree (i j : Nat) (hrun : setting.SoundRun path cmds t c)
    (hload : setting.loadConfig t path = .ok c)
    (hsame : (cmds.take i).foldl (fun c cmd => cmd.settle c) c
      = (cmds.take j).foldl (fun c cmd => cmd.settle c) c)
    {probe : Probe} {cli : Cli} {web : WebCli} {config config' : TftpConfig}
    {auditFile : Option Path} (hcli : cli.config = path) (hweb : web.config = path)
    (hroot : web.rootDir = cli.rootDir)
    (hserver : (setting.main probe cli (setting.execs (cmds.take i) t)).2
      = .ok (.serving config auditFile))
    (hwebMain : (setting.webMain web (setting.execs (cmds.take j) t)).2 = .ok config')
    (glob : Glob) {V : Type} (json : Json V) (toLowercase : String → String) (t' : Tree) :
    (setting.appState glob config').rootDir = config.checked.serverConfig.rootDir ∧
      (setting.appState glob config').writeConfig = config.checked.serverConfig.writeConfig ∧
      ∀ p ∈ auditFile, p = tftpAuditPath (setting.auditState json toLowercase t' config') := by
  have hserverLoad := loadConfig_execs (soundRun_take i hrun) hload
  have hwebLoad := loadConfig_execs (soundRun_take j hrun) hload
  subst hcli
  obtain ⟨rfl, rfl⟩ := main_serving (initial_of_loadConfig hserverLoad) hserver
  rw [← hweb] at hwebLoad
  obtain rfl := webMain_eq_ok (webInitial_of_loadConfig hwebLoad) hwebMain
  rw [← hsame]
  have hdir : ∀ c : TftpConfig, (web.apply c).rootDir = (cli.apply c).rootDir := by
    intro c
    show (web.rootDir.map asBytes).getD c.rootDir = _
    rw [hroot]
    rfl
  refine ⟨congrArg pathOf (hdir _), rfl, ?_⟩
  intro p hp
  have haudit : ∀ c : TftpConfig, (cli.apply c).auditPath
      = tftpAuditPath (setting.auditState json toLowercase t' (web.apply c)) := by
    intro c
    show ((cli.apply c).logging.auditFile.map pathOf).getD
      ((pathOf (cli.apply c).rootDir).join _) = _
    rw [← hdir]
    rfl
  split_ifs at hp
  · rw [← haudit]
    exact (Option.mem_some_iff.mp hp).symm
  · cases hp

/-- The directory that is served is made. -/
def rootCli : Cli := { config := startPath, createRootDir := true }

def startWebCli : WebCli := { config := startPath }

theorem rootCli_apply (machine : Machine) :
    rootCli.apply (.default machine) = .default machine := rfl

theorem startWebCli_apply (machine : Machine) :
    startWebCli.apply (.default machine) = .default machine := rfl

theorem rootCli_serves : (startSetting.main quietProbe rootCli startTree).2
    = .ok (.serving (.default startSetting.machine)
      (some (TftpConfig.default startSetting.machine).auditPath)) := by
  have hroot : (startSetting.createRootDir rootCli startTree
      (.default startSetting.machine)).2 = .ok () := by decide +kernel
  have hvalid : validateConfig startSetting.env
      (startSetting.createRootDir rootCli startTree (.default startSetting.machine)).1 quietProbe
      (TftpConfig.default startSetting.machine).checked true = .ok () := by decide +kernel
  have hname : logFileName (TftpConfig.default startSetting.machine) = .ok () := by decide +kernel
  have hstart := main_eq quietProbe rootCli (initial_of_loadConfig startTree_loads)
  rw [rootCli_apply] at hstart
  rw [hstart]
  exact startWith_serving_iff.mpr ⟨rfl, rfl, hroot, hvalid, hname, rfl, (if_pos rfl).symm⟩

theorem startWebCli_serves :
    (startSetting.webMain startWebCli startTree).2 = .ok (.default startSetting.machine) := by
  have h := @webMain_of_made startSetting startTree (.default startSetting.machine) startWebCli
    (webInitial_of_loadConfig startTree_loads) (by decide +kernel)
  rwa [startWebCli_apply] at h

/-- The default directory is served by both. -/
theorem programs_agree_default :
    (startSetting.main quietProbe rootCli startTree).2 = .ok (.serving
      (.default startSetting.machine) (some (TftpConfig.default startSetting.machine).auditPath)) ∧
    (startSetting.webMain startWebCli startTree).2 = .ok (.default startSetting.machine) ∧
    (startSetting.appState suffixGlob (.default startSetting.machine)).rootDir
      = (TftpConfig.default startSetting.machine).checked.serverConfig.rootDir := by
  refine ⟨rootCli_serves, startWebCli_serves, ?_⟩
  have hstart : startSetting.execs (startCommands.take 0) startTree = startTree := by
    rw [List.take_zero, Setting.execs, List.foldl_nil]
  have hserver := rootCli_serves
  have hweb := startWebCli_serves
  rw [← hstart] at hserver hweb
  have json : Json Unit := ⟨fun _ => none, fun _ _ => none⟩
  exact (programs_agree 0 0 startCommands_sound startTree_loads rfl rfl rfl rfl hserver hweb
    suffixGlob json id startTree).1

end Agree

end UsgTftp.ConfigFile
