import UsgTftp.PathSecurity
import UsgTftp.Server.Write

set_option autoImplicit false

/-! # Dispatching requests

`handle_client` of `src/bin/server.rs` and `process_tftp_packet` of `src/worker_pool.rs`, the
two places where a datagram becomes a transfer. They parse a request in the same way, but for
the limit on the length of strings, and check it in different orders. Log lines and audit
records are left out.

`writes_obey_policy_iff` says when a write that is started obeys the write policy.
-/

namespace UsgTftp

open Posix Path

/-! ## Parsing -/

theorem bind_eq_ok {ε α β : Type} {x : Except ε α} {f : α → Except ε β} {b : β} :
    (x >>= f) = .ok b ↔ ∃ a, x = .ok a ∧ f a = .ok b := by
  constructor
  · intro h
    cases x with
    | error e => cases h
    | ok a => exact ⟨a, rfl, h⟩
  · rintro ⟨a, rfl, h⟩
    exact h

theorem ok_bind {ε α β : Type} (a : α) (f : α → Except ε β) :
    ((.ok a : Except ε α) >>= f) = f a := rfl

/-- `parse_null_terminated_string` of the worker pool, which has no limit. The text of the
UTF-8 error is that of the standard library and is left out. -/
def parseNullTerminatedString (bytes : Bytes) : Except TftpError (String × Bytes) :=
  match bytes.findIdx? (· = 0) with
  | none => .error (.tftp "Missing null terminator")
  | some nullPos =>
      match fromUtf8 (bytes.take nullPos) with
      | none => .error (.tftp "Invalid UTF-8 in string")
      | some s => .ok (s, bytes.drop (nullPos + 1))

/-- A function that reads a string from the front of a buffer. -/
abbrev StringParser := Bytes → Except TftpError (String × Bytes)

/-- The loop over the option pairs, which ends at the first pair that does not parse. Every
turn takes two bytes at least, so the number of bytes is enough fuel. -/
def parseOptionsLoop (parse : StringParser) : Nat → Bytes → OptionMap → OptionMap
  | 0, _, options => options
  | fuel + 1, bytes, options =>
      if bytes = [] then options
      else
        match parse bytes with
        | .error _ => options
        | .ok (optionName, bytes) =>
            match parse bytes with
            | .error _ => options
            | .ok (optionValue, bytes) =>
                parseOptionsLoop parse fuel bytes
                  (options.insert (toLowercase optionName) optionValue)

def parseOptions (parse : StringParser) (bytes : Bytes) : OptionMap :=
  parseOptionsLoop parse bytes.length bytes ∅

/-- A request as it is parsed. -/
structure Request where
  filename : String
  modeStr : String
  options : OptionMap

/-- `parse_request_packet` of the worker pool; the server's handlers do the same with their
own `parse_string`. -/
def parseRequestPacket (parse : StringParser) (bytes : Bytes) : Except TftpError Request := do
  let (filename, bytes) ← parse bytes
  let (modeStr, bytes) ← parse bytes
  return ⟨filename, modeStr, parseOptions parse bytes⟩

/-! ## Reading what was written -/

/-- The parser reads the string back that was written with `cstring`. -/
def Reads (parse : StringParser) (s : String) : Prop :=
  ∀ rest, parse (cstring s ++ rest) = .ok (s, rest)

theorem reads_parseString {s : String} (hnul : 0 ∉ asBytes s) (hlen : (asBytes s).length ≤ 254) :
    Reads parseString s := fun _ => parseString_cstring hnul hlen

theorem reads_parseNullTerminatedString {s : String} (hnul : 0 ∉ asBytes s) :
    Reads parseNullTerminatedString s := by
  intro rest
  have hform : cstring s ++ rest = asBytes s ++ 0 :: rest := by simp [cstring]
  rw [hform, parseNullTerminatedString, findIdx?_zero_append hnul]
  simp

section Reads

variable {parse : StringParser}

theorem parseRequestPacket_cstring {filename modeStr : String} (hname : Reads parse filename)
    (hmode : Reads parse modeStr) (bytes : Bytes) :
    parseRequestPacket parse (cstring filename ++ (cstring modeStr ++ bytes))
      = .ok ⟨filename, modeStr, parseOptions parse bytes⟩ := by
  rw [parseRequestPacket, hname, ok_bind]
  dsimp only
  rw [hmode, ok_bind]
  rfl

theorem parseOptionsLoop_nil (fuel : Nat) (options : OptionMap) :
    parseOptionsLoop parse fuel [] options = options := by
  cases fuel with
  | zero => rfl
  | succ fuel => exact if_pos rfl

theorem parseOptionsLoop_cons {name value : String} (hname : Reads parse name)
    (hvalue : Reads parse value) (fuel : Nat) (bytes : Bytes) (options : OptionMap) :
    parseOptionsLoop parse (fuel + 1) (cstring name ++ (cstring value ++ bytes)) options
      = parseOptionsLoop parse fuel bytes (options.insert (toLowercase name) value) := by
  have hne : cstring name ++ (cstring value ++ bytes) ≠ [] := by simp [cstring]
  rw [parseOptionsLoop, if_neg hne, hname]
  dsimp only
  rw [hvalue]

/-- All pairs of a list are read. -/
theorem parseOptionsLoop_entries (entries : List OptionEntry)
    (h : ∀ e ∈ entries, Reads parse e.1 ∧ Reads parse e.2) :
    ∀ (fuel : Nat) (options : OptionMap), entries.length ≤ fuel →
      parseOptionsLoop parse fuel (entries.flatMap fun o => cstring o.1 ++ cstring o.2) options
        = entries.foldl (fun m e => m.insert (toLowercase e.1) e.2) options := by
  induction entries with
  | nil => intro fuel options _; exact parseOptionsLoop_nil fuel options
  | cons e entries ih =>
      intro fuel options hfuel
      rw [List.length_cons] at hfuel
      obtain ⟨fuel, rfl⟩ : ∃ k, fuel = k + 1 := ⟨fuel - 1, by omega⟩
      obtain ⟨hname, hvalue⟩ := h e List.mem_cons_self
      rw [List.flatMap_cons, List.append_assoc, parseOptionsLoop_cons hname hvalue,
        ih (fun e' he' => h e' (List.mem_cons_of_mem _ he')) fuel _ (by omega), List.foldl_cons]

theorem parseOptions_entries (entries : List OptionEntry)
    (h : ∀ e ∈ entries, Reads parse e.1 ∧ Reads parse e.2) :
    parseOptions parse (entries.flatMap fun o => cstring o.1 ++ cstring o.2)
      = entries.foldl (fun m e => m.insert (toLowercase e.1) e.2) ∅ := by
  refine parseOptionsLoop_entries entries h _ ∅ ?_
  clear h
  induction entries with
  | nil => exact Nat.zero_le _
  | cons e entries ih =>
      rw [List.flatMap_cons, List.length_append, List.length_cons, List.length_append, cstring,
        List.length_append, List.length_singleton]
      omega

end Reads

/-- The parser reads every string of at most 254 bytes back. -/
def ReadsShort (parse : StringParser) : Prop :=
  ∀ {s : String}, 0 ∉ asBytes s → (asBytes s).length ≤ 254 → Reads parse s

theorem readsShort_parseString : ReadsShort parseString := reads_parseString

theorem readsShort_parseNullTerminatedString : ReadsShort parseNullTerminatedString :=
  fun hnul _ => reads_parseNullTerminatedString hnul

theorem ReadsShort.repr {parse : StringParser} (hparse : ReadsShort parse) {n : Nat}
    (h : n < 2 ^ 64) : Reads parse n.repr :=
  hparse (asBytes_repr h).1 (asBytes_repr h).2

theorem ReadsShort.modeStr {parse : StringParser} (hparse : ReadsShort parse)
    (mode : TransferMode) : Reads parse mode.modeStr := by
  cases mode <;> exact hparse (by decide) (by decide)

/-! ## Dispatch -/

/-- The part of the configuration that a request is handled with. -/
structure ServerConfig where
  rootDir : Path
  writeConfig : WriteConfig
  maxFileSizeBytes : Nat
  defaultWindowsize : Nat
  /-- `multicast_server.is_some()`. -/
  multicastEnabled : Bool

/-- What a datagram leads to. -/
inductive Dispatch where
  | ignored
  /-- An ERROR packet is sent. -/
  | replied (code : TftpErrorCode) (message : String)
  /-- `handle_multicast_request`. -/
  | multicast (filename : String) (mode : TransferMode) (options : TftpOptions)
  /-- `handle_read_request`. -/
  | read (filePath : Path) (mode : TransferMode) (options : TftpOptions)
      (negotiatedOptions : OptionMap)
  /-- `handle_write_request`. -/
  | write (filePath : Path) (request : WriteRequest) (fileCreated : Bool)

section Handlers

variable (env : Env) (t : Tree) (glob : Glob) (config : ServerConfig) (order : IterOrder)

/-- The RRQ branch of `handle_client`. -/
def handleClientRrq (bytes : Bytes) : Except TftpError Dispatch := do
  let request ← parseRequestPacket parseString bytes
  let mode ← TransferMode.fromStr request.modeStr
  if mode = .mail then return .replied .illegalOperation "MAIL mode not supported"
  let negotiation := negotiate tsizeRrq config.defaultWindowsize order request.options
  if "multicast" ∈ request.options then
    if config.multicastEnabled then
      return .multicast request.filename mode negotiation.options
    else return .replied .optionNegotiation "Multicast not supported"
  match validateAndResolvePath env t config.rootDir request.filename with
  | .error e => return .replied .accessViolation e.display
  | .ok filePath => return .read filePath mode negotiation.options negotiation.negotiated

/-- The WRQ branch of `handle_client`. -/
def handleClientWrq (bytes : Bytes) : Except TftpError Dispatch := do
  let request ← parseRequestPacket parseString bytes
  if config.writeConfig.enabled = false then
    return .replied .accessViolation "Write not supported"
  let mode ← TransferMode.fromStr request.modeStr
  if mode = .mail then return .replied .illegalOperation "MAIL mode not supported"
  let negotiation := negotiate tsizeWrq config.defaultWindowsize order request.options
  match validateAndResolvePath env t config.rootDir request.filename with
  | .error e => return .replied .accessViolation e.display
  | .ok filePath =>
      if isWriteAllowed glob filePath config.rootDir config.writeConfig = false then
        return .replied .accessViolation "File not allowed for writing"
      else if pathExists env t filePath ∧ config.writeConfig.allowOverwrite = false then
        return .replied .fileExists "File already exists"
      else
        return .write filePath
          ⟨mode, negotiation.options, negotiation.negotiated, config.maxFileSizeBytes⟩
          (!pathExists env t filePath)

def handleClient (data : Bytes) : Except TftpError Dispatch :=
  match getU16 data with
  | none => .error (.tftp "Packet too small")
  | some (value, bytes) =>
      match Opcode.fromU16 value with
      | none => .error (.tftp s!"Invalid opcode: {value}")
      | some .rrq => handleClientRrq env t config order bytes
      | some .wrq => handleClientWrq env t glob config order bytes
      | some _ => .ok (.replied .illegalOperation "Unexpected opcode")

/-- `tsize` in the worker's RRQ, whose value is not looked at. -/
def tsizeRrqWorker (acc : Negotiation) (_ : String) : Negotiation :=
  { acc with negotiated := acc.negotiated.insert "tsize" "0" }

/-- `tsize` in the worker's WRQ: the value is sent back as it came. -/
def tsizeWrqWorker (acc : Negotiation) (value : String) : Negotiation :=
  { acc with negotiated := acc.negotiated.insert "tsize" value }

/-- The mode of a request, which is not MAIL. -/
def workerMode (modeStr : String) : Except TftpError TransferMode := do
  let mode ← TransferMode.fromStr modeStr
  if mode = .mail then throw (.tftp "MAIL mode not supported")
  return mode

def handleReadRequestWorker (bytes : Bytes) : Except TftpError Dispatch := do
  let request ← parseRequestPacket parseNullTerminatedString bytes
  let mode ← workerMode request.modeStr
  let filePath ← validateAndResolvePath env t config.rootDir request.filename
  let negotiation := negotiate tsizeRrqWorker config.defaultWindowsize order request.options
  return .read filePath mode negotiation.options negotiation.negotiated

def handleWriteRequestWorker (bytes : Bytes) : Except TftpError Dispatch := do
  let request ← parseRequestPacket parseNullTerminatedString bytes
  let mode ← workerMode request.modeStr
  if config.writeConfig.enabled = false then throw (.tftp "Write operations not allowed")
  let filePath ← validateAndResolvePath env t config.rootDir request.filename
  if pathExists env t filePath ∧ config.writeConfig.allowOverwrite = false then
    throw (.tftp "File already exists")
  let negotiation := negotiate tsizeWrqWorker config.defaultWindowsize order request.options
  return .write filePath
    ⟨mode, negotiation.options, negotiation.negotiated, config.maxFileSizeBytes⟩
    (!pathExists env t filePath)

/-- What a failed handler of the worker pool sends. -/
def replyError : Except TftpError Dispatch → Dispatch
  | .ok d => d
  | .error e => .replied .notDefined e.display

def processTftpPacket (data : Bytes) : Dispatch :=
  match getU16 data with
  | none => .replied .illegalOperation "Packet too small"
  | some (value, bytes) =>
      match Opcode.fromU16 value with
      | none => .replied .illegalOperation "Illegal TFTP operation"
      | some .rrq => replyError (handleReadRequestWorker env t config order bytes)
      | some .wrq => replyError (handleWriteRequestWorker env t config order bytes)
      | some _ => .ignored

end Handlers

/-! ## Which requests start a write -/

/-- The checks on a write request that both handlers make. -/
structure WrqChecked (env : Env) (t : Tree) (config : ServerConfig) (request : Request)
    (mode : TransferMode) (p : Path) : Prop where
  enabled : config.writeConfig.enabled = true
  mode_eq : TransferMode.fromStr request.modeStr = .ok mode
  notMail : mode ≠ .mail
  path : validateAndResolvePath env t config.rootDir request.filename = .ok p
  overwrite : pathExists env t p = false ∨ config.writeConfig.allowOverwrite = true

/-- The arguments of `handle_write_request`. -/
def Request.writeRequest (request : Request) (tsize : Negotiation → String → Negotiation)
    (config : ServerConfig) (order : IterOrder) (mode : TransferMode) : WriteRequest :=
  let negotiation := negotiate tsize config.defaultWindowsize order request.options
  ⟨mode, negotiation.options, negotiation.negotiated, config.maxFileSizeBytes⟩

section Writes

variable {env : Env} {t : Tree} {glob : Glob} {config : ServerConfig} {order : IterOrder}
  {data bytes : Bytes} {p : Path} {q : WriteRequest} {created : Bool}

theorem WrqChecked.overwrite_ok {request : Request} {mode : TransferMode}
    (h : WrqChecked env t config request mode p) :
    ¬ (pathExists env t p = true ∧ config.writeConfig.allowOverwrite = false) := by
  rintro ⟨hexists, hno⟩
  rcases h.overwrite with h | h
  · rw [h] at hexists
    cases hexists
  · rw [h] at hno
    cases hno

theorem handleClientWrq_write_iff :
    handleClientWrq env t glob config order bytes = .ok (.write p q created) ↔
    ∃ request mode, parseRequestPacket parseString bytes = .ok request ∧
      WrqChecked env t config request mode p ∧
      isWriteAllowed glob p config.rootDir config.writeConfig = true ∧
      q = request.writeRequest tsizeWrq config order mode ∧ created = !pathExists env t p := by
  unfold handleClientWrq
  constructor
  · -- the checks in the order of the source, each one with its refusal
    intro h
    obtain ⟨request, hreq, h⟩ := bind_eq_ok.mp h
    by_cases henabled : config.writeConfig.enabled = false
    · rw [if_pos henabled] at h
      cases h
    rw [if_neg henabled] at h
    obtain ⟨mode, hmode, h⟩ := bind_eq_ok.mp h
    by_cases hmail : mode = .mail
    · rw [if_pos hmail] at h
      cases h
    rw [if_neg hmail] at h
    dsimp only at h
    split at h
    · cases h
    rename_i filePath hpath
    by_cases hallowed : isWriteAllowed glob filePath config.rootDir config.writeConfig = false
    · rw [if_pos hallowed] at h
      cases h
    rw [if_neg hallowed] at h
    by_cases hover : pathExists env t filePath = true ∧ config.writeConfig.allowOverwrite = false
    · rw [if_pos hover] at h
      cases h
    rw [if_neg hover] at h
    cases h
    exact ⟨request, mode, hreq, ⟨by simpa using henabled, hmode, hmail, hpath,
      by simpa [imp_iff_not_or] using hover⟩, by simpa using hallowed, rfl, rfl⟩
  · rintro ⟨request, mode, hreq, hc, hallowed, rfl, rfl⟩
    rw [hreq, ok_bind, if_neg (by rw [hc.enabled]; decide), hc.mode_eq, ok_bind,
      if_neg hc.notMail, hc.path]
    dsimp only
    rw [if_neg (by rw [hallowed]; decide), if_neg hc.overwrite_ok]
    rfl

theorem handleClientRrq_ne_write :
    handleClientRrq env t config order bytes ≠ .ok (.write p q created) := by
  intro h
  obtain ⟨request, -, h⟩ := bind_eq_ok.mp h
  obtain ⟨mode, -, h⟩ := bind_eq_ok.mp h
  dsimp only at h
  split_ifs at h
  · cases h
  · cases h
  · cases h
  · split at h
    · cases h
    · cases h

theorem workerMode_eq_ok {modeStr : String} {mode : TransferMode} :
    workerMode modeStr = .ok mode ↔ TransferMode.fromStr modeStr = .ok mode ∧ mode ≠ .mail := by
  unfold workerMode
  rw [bind_eq_ok]
  constructor
  · rintro ⟨mode', hmode, h⟩
    by_cases hmail : mode' = .mail
    · rw [if_pos hmail] at h
      cases h
    · rw [if_neg hmail] at h
      cases h
      exact ⟨hmode, hmail⟩
  · rintro ⟨hmode, hmail⟩
    refine ⟨mode, hmode, ?_⟩
    rw [if_neg hmail]
    rfl

theorem handleReadRequestWorker_ne_write :
    handleReadRequestWorker env t config order bytes ≠ .ok (.write p q created) := by
  intro h
  obtain ⟨request, -, h⟩ := bind_eq_ok.mp h
  obtain ⟨mode, -, h⟩ := bind_eq_ok.mp h
  obtain ⟨filePath, -, h⟩ := bind_eq_ok.mp h
  cases h

/-- A dispatch that is not a reply comes from a handler that succeeded. -/
theorem replyError_eq {r : Except TftpError Dispatch} {d : Dispatch}
    (hd : ∀ code message, d ≠ .replied code message) : replyError r = d ↔ r = .ok d := by
  cases r with
  | ok d' => exact ⟨fun h => congrArg Except.ok h, fun h => Except.ok.inj h⟩
  | error e =>
      constructor
      · intro h
        exact absurd h.symm (hd _ _)
      · intro h
        cases h

/-- What is more than a reply comes from one of the two branches for requests. -/
theorem handleClient_eq_ok_iff {d : Dispatch} (hd : ∀ code message, d ≠ .replied code message) :
    handleClient env t glob config order data = .ok d ↔
    ∃ bytes,
      getU16 data = some (Opcode.rrq.toU16, bytes) ∧
        handleClientRrq env t config order bytes = .ok d ∨
      getU16 data = some (Opcode.wrq.toU16, bytes) ∧
        handleClientWrq env t glob config order bytes = .ok d := by
  unfold handleClient
  constructor
  · intro h
    split at h
    · cases h
    rename_i value bytes hdata
    split at h
    · cases h
    · rename_i hop
      exact ⟨bytes, Or.inl ⟨by rw [hdata, Opcode.eq_toU16_of_fromU16 hop], h⟩⟩
    · rename_i hop
      exact ⟨bytes, Or.inr ⟨by rw [hdata, Opcode.eq_toU16_of_fromU16 hop], h⟩⟩
    · exact absurd (Except.ok.inj h).symm (hd _ _)
  · rintro ⟨bytes, ⟨hdata, h⟩ | ⟨hdata, h⟩⟩
    · rw [hdata]
      dsimp only
      rw [Opcode.fromU16_toU16]
      exact h
    · rw [hdata]
      dsimp only
      rw [Opcode.fromU16_toU16]
      exact h

theorem processTftpPacket_eq_iff {d : Dispatch}
    (hd : ∀ code message, d ≠ .replied code message) (hignored : d ≠ .ignored) :
    processTftpPacket env t config order data = d ↔
    ∃ bytes,
      getU16 data = some (Opcode.rrq.toU16, bytes) ∧
        handleReadRequestWorker env t config order bytes = .ok d ∨
      getU16 data = some (Opcode.wrq.toU16, bytes) ∧
        handleWriteRequestWorker env t config order bytes = .ok d := by
  unfold processTftpPacket
  constructor
  · intro h
    split at h
    · exact absurd h.symm (hd _ _)
    rename_i value bytes hdata
    split at h
    · exact absurd h.symm (hd _ _)
    · rename_i hop
      exact ⟨bytes, Or.inl ⟨by rw [hdata, Opcode.eq_toU16_of_fromU16 hop],
        (replyError_eq hd).mp h⟩⟩
    · rename_i hop
      exact ⟨bytes, Or.inr ⟨by rw [hdata, Opcode.eq_toU16_of_fromU16 hop],
        (replyError_eq hd).mp h⟩⟩
    · exact absurd h.symm hignored
  · rintro ⟨bytes, ⟨hdata, h⟩ | ⟨hdata, h⟩⟩
    · rw [hdata]
      dsimp only
      rw [Opcode.fromU16_toU16]
      exact (replyError_eq hd).mpr h
    · rw [hdata]
      dsimp only
      rw [Opcode.fromU16_toU16]
      exact (replyError_eq hd).mpr h

theorem handleWriteRequestWorker_write_iff :
    handleWriteRequestWorker env t config order bytes = .ok (.write p q created) ↔
    ∃ request mode, parseRequestPacket parseNullTerminatedString bytes = .ok request ∧
      WrqChecked env t config request mode p ∧
      q = request.writeRequest tsizeWrqWorker config order mode ∧
      created = !pathExists env t p := by
  unfold handleWriteRequestWorker
  constructor
  · intro h
    obtain ⟨request, hreq, h⟩ := bind_eq_ok.mp h
    obtain ⟨mode, hmode, h⟩ := bind_eq_ok.mp h
    obtain ⟨hmode, hmail⟩ := workerMode_eq_ok.mp hmode
    by_cases henabled : config.writeConfig.enabled = false
    · rw [if_pos henabled] at h
      cases h
    rw [if_neg henabled] at h
    obtain ⟨filePath, hpath, h⟩ := bind_eq_ok.mp h
    -- there is no `is_write_allowed` on this path
    by_cases hover : pathExists env t filePath = true ∧ config.writeConfig.allowOverwrite = false
    · rw [if_pos hover] at h
      cases h
    rw [if_neg hover] at h
    cases h
    exact ⟨request, mode, hreq, ⟨by simpa using henabled, hmode, hmail, hpath,
      by simpa [imp_iff_not_or] using hover⟩, rfl, rfl⟩
  · rintro ⟨request, mode, hreq, hc, rfl, rfl⟩
    rw [hreq, ok_bind, workerMode_eq_ok.mpr ⟨hc.mode_eq, hc.notMail⟩, ok_bind,
      if_neg (by rw [hc.enabled]; decide), hc.path, ok_bind, if_neg hc.overwrite_ok]
    rfl

end Writes

/-! ## Which requests start a read -/

/-- What both handlers check in a read request, and what they pass on. -/
structure RrqAccepted (env : Env) (t : Tree) (config : ServerConfig) (order : IterOrder)
    (tsize : Negotiation → String → Negotiation) (request : Request) (p : Path)
    (mode : TransferMode) (options : TftpOptions) (negotiated : OptionMap) : Prop where
  mode_eq : TransferMode.fromStr request.modeStr = .ok mode
  notMail : mode ≠ .mail
  path : validateAndResolvePath env t config.rootDir request.filename = .ok p
  options_eq : options = (negotiate tsize config.defaultWindowsize order request.options).options
  negotiated_eq :
    negotiated = (negotiate tsize config.defaultWindowsize order request.options).negotiated

section Reads

variable {env : Env} {t : Tree} {glob : Glob} {config : ServerConfig} {order : IterOrder}
  {data bytes : Bytes} {p : Path} {mode : TransferMode} {options : TftpOptions}
  {negotiated : OptionMap}

theorem handleClientRrq_read_iff :
    handleClientRrq env t config order bytes = .ok (.read p mode options negotiated) ↔
    ∃ request, parseRequestPacket parseString bytes = .ok request ∧
      "multicast" ∉ request.options ∧
      RrqAccepted env t config order tsizeRrq request p mode options negotiated := by
  unfold handleClientRrq
  constructor
  · intro h
    obtain ⟨request, hreq, h⟩ := bind_eq_ok.mp h
    obtain ⟨mode', hmode, h⟩ := bind_eq_ok.mp h
    by_cases hmail : mode' = .mail
    · rw [if_pos hmail] at h
      cases h
    rw [if_neg hmail] at h
    dsimp only at h
    by_cases hmulti : "multicast" ∈ request.options
    · rw [if_pos hmulti] at h
      split at h <;> cases h
    rw [if_neg hmulti] at h
    split at h
    · cases h
    · rename_i hpath
      cases h
      exact ⟨request, hreq, hmulti, hmode, hmail, hpath, rfl, rfl⟩
  · rintro ⟨request, hreq, hmulti, h⟩
    rw [hreq, ok_bind, h.mode_eq, ok_bind, if_neg h.notMail]
    dsimp only
    rw [if_neg hmulti, h.path, h.options_eq, h.negotiated_eq]
    rfl

theorem handleClientWrq_ne_read :
    handleClientWrq env t glob config order bytes ≠ .ok (.read p mode options negotiated) := by
  intro h
  unfold handleClientWrq at h
  obtain ⟨request, -, h⟩ := bind_eq_ok.mp h
  by_cases henabled : config.writeConfig.enabled = false
  · rw [if_pos henabled] at h
    cases h
  rw [if_neg henabled] at h
  obtain ⟨mode', -, h⟩ := bind_eq_ok.mp h
  by_cases hmail : mode' = .mail
  · rw [if_pos hmail] at h
    cases h
  rw [if_neg hmail] at h
  dsimp only at h
  split at h
  · cases h
  · split_ifs at h <;> cases h

/-- Only an RRQ starts a read. -/
theorem handleClient_read_iff :
    handleClient env t glob config order data = .ok (.read p mode options negotiated) ↔
    ∃ bytes, getU16 data = some (Opcode.rrq.toU16, bytes) ∧
      handleClientRrq env t config order bytes = .ok (.read p mode options negotiated) := by
  rw [handleClient_eq_ok_iff (by simp)]
  exact exists_congr fun bytes => or_iff_left fun h => handleClientWrq_ne_read h.2

theorem handleReadRequestWorker_read_iff :
    handleReadRequestWorker env t config order bytes = .ok (.read p mode options negotiated) ↔
    ∃ request, parseRequestPacket parseNullTerminatedString bytes = .ok request ∧
      RrqAccepted env t config order tsizeRrqWorker request p mode options negotiated := by
  unfold handleReadRequestWorker
  constructor
  · intro h
    obtain ⟨request, hreq, h⟩ := bind_eq_ok.mp h
    obtain ⟨mode', hmode, h⟩ := bind_eq_ok.mp h
    obtain ⟨hmode, hmail⟩ := workerMode_eq_ok.mp hmode
    obtain ⟨filePath, hpath, h⟩ := bind_eq_ok.mp h
    cases h
    exact ⟨request, hreq, hmode, hmail, hpath, rfl, rfl⟩
  · rintro ⟨request, hreq, h⟩
    rw [hreq, ok_bind, workerMode_eq_ok.mpr ⟨h.mode_eq, h.notMail⟩, ok_bind, h.path, ok_bind,
      h.options_eq, h.negotiated_eq]
    rfl

theorem handleWriteRequestWorker_ne_read :
    handleWriteRequestWorker env t config order bytes ≠ .ok (.read p mode options negotiated) := by
  intro h
  unfold handleWriteRequestWorker at h
  obtain ⟨request, -, h⟩ := bind_eq_ok.mp h
  obtain ⟨mode', -, h⟩ := bind_eq_ok.mp h
  by_cases henabled : config.writeConfig.enabled = false
  · rw [if_pos henabled] at h
    cases h
  rw [if_neg henabled] at h
  obtain ⟨filePath, -, h⟩ := bind_eq_ok.mp h
  dsimp only at h
  by_cases hover : pathExists env t filePath = true ∧ config.writeConfig.allowOverwrite = false
  · rw [if_pos hover] at h
    cases h
  rw [if_neg hover] at h
  cases h

theorem processTftpPacket_read_iff :
    processTftpPacket env t config order data = .read p mode options negotiated ↔
    ∃ bytes, getU16 data = some (Opcode.rrq.toU16, bytes) ∧
      handleReadRequestWorker env t config order bytes
        = .ok (.read p mode options negotiated) := by
  rw [processTftpPacket_eq_iff (by simp) (by simp)]
  exact exists_congr fun bytes => or_iff_left fun h => handleWriteRequestWorker_ne_read h.2

end Reads

/-! ## The write policy -/

/-- The two places where datagrams are dispatched. -/
inductive EntryPoint where
  | handleClient
  | processTftpPacket
  deriving DecidableEq, Repr

def EntryPoint.parser : EntryPoint → StringParser
  | .handleClient => parseString
  | .processTftpPacket => parseNullTerminatedString

section Policy

variable (env : Env) (t : Tree) (glob : Glob) (config : ServerConfig) (order : IterOrder)

/-- The datagram starts a write transfer to `p`. -/
def EntryPoint.StartsWrite (entry : EntryPoint) (data : Bytes) (p : Path) : Prop :=
  ∃ q created, match entry with
    | .handleClient => UsgTftp.handleClient env t glob config order data = .ok (.write p q created)
    | .processTftpPacket =>
        UsgTftp.processTftpPacket env t config order data = .write p q created

/-- What has to hold for a write to `p`. -/
structure WritePolicy (parse : StringParser) (data : Bytes) (p : Path) : Prop where
  enabled : config.writeConfig.enabled = true
  accepted : ∃ filename rest, parse (data.drop 2) = .ok (filename, rest) ∧
    validateAndResolvePath env t config.rootDir filename = .ok p
  pattern : ∃ pathStr, p.stripPrefix config.rootDir = some pathStr ∧
    ∃ pattern ∈ config.writeConfig.allowedPatterns, ∃ compiled,
      glob.new pattern = some compiled ∧ glob.matchesStr compiled pathStr = true
  overwrite : pathExists env t p = false ∨ config.writeConfig.allowOverwrite = true

end Policy

section Policy

variable {env : Env} {t : Tree} {glob : Glob} {config : ServerConfig} {order : IterOrder}
  {data : Bytes} {p : Path}

theorem isWriteAllowed_iff {writeConfig : WriteConfig} {rootDir : Path} :
    isWriteAllowed glob p rootDir writeConfig = true ↔
    ∃ pathStr, p.stripPrefix rootDir = some pathStr ∧
      ∃ pattern ∈ writeConfig.allowedPatterns, ∃ compiled,
        glob.new pattern = some compiled ∧ glob.matchesStr compiled pathStr = true := by
  unfold isWriteAllowed
  cases p.stripPrefix rootDir with
  | none => simp
  | some pathStr =>
      simp only [List.any_eq_true, Option.some.injEq, exists_eq_left']
      refine exists_congr fun pattern => and_congr_right fun _ => ?_
      unfold Glob.accepts
      cases glob.new pattern with
      | none => simp
      | some compiled => simp

theorem drop_two_of_getU16 {value : UInt16} {bytes : Bytes}
    (h : getU16 data = some (value, bytes)) : data.drop 2 = bytes := by
  match data, h with
  | _ :: _ :: rest, h => cases h; rfl

/-- The checks, and a pattern that matches, are the policy. -/
theorem WrqChecked.policy {request : Request} {mode : TransferMode} {parse : StringParser}
    {bytes : Bytes} {value : UInt16} (hdata : getU16 data = some (value, bytes))
    (hreq : parseRequestPacket parse bytes = .ok request)
    (h : WrqChecked env t config request mode p) :
    WritePolicy env t glob config parse data p ↔
      isWriteAllowed glob p config.rootDir config.writeConfig = true := by
  constructor
  · intro hp
    exact isWriteAllowed_iff.mpr hp.pattern
  · intro hallowed
    refine ⟨h.enabled, ?_, isWriteAllowed_iff.mp hallowed, h.overwrite⟩
    obtain ⟨⟨filename, rest⟩, hname, hrest⟩ := bind_eq_ok.mp hreq
    obtain ⟨v, hmode, hrest⟩ := bind_eq_ok.mp hrest
    cases hrest
    exact ⟨filename, rest, by rw [drop_two_of_getU16 hdata]; exact hname, h.path⟩

/-- Only a WRQ starts a write. -/
theorem handleClient_write_iff {q : WriteRequest} {created : Bool} :
    handleClient env t glob config order data = .ok (.write p q created) ↔
    ∃ bytes, getU16 data = some (Opcode.wrq.toU16, bytes) ∧
      handleClientWrq env t glob config order bytes = .ok (.write p q created) := by
  rw [handleClient_eq_ok_iff (by simp)]
  exact exists_congr fun bytes => or_iff_right fun h => handleClientRrq_ne_write h.2

theorem processTftpPacket_write_iff {q : WriteRequest} {created : Bool} :
    processTftpPacket env t config order data = .write p q created ↔
    ∃ bytes, getU16 data = some (Opcode.wrq.toU16, bytes) ∧
      handleWriteRequestWorker env t config order bytes = .ok (.write p q created) := by
  rw [processTftpPacket_eq_iff (by simp) (by simp)]
  exact exists_congr fun bytes => or_iff_right fun h => handleReadRequestWorker_ne_write h.2

theorem startsWrite_handleClient_iff :
    EntryPoint.StartsWrite env t glob config order .handleClient data p ↔
    ∃ bytes request mode, getU16 data = some (Opcode.wrq.toU16, bytes) ∧
      parseRequestPacket parseString bytes = .ok request ∧
      WrqChecked env t config request mode p ∧
      isWriteAllowed glob p config.rootDir config.writeConfig = true := by
  constructor
  · rintro ⟨q, created, h⟩
    obtain ⟨bytes, hdata, h⟩ := handleClient_write_iff.mp h
    obtain ⟨request, mode, hreq, hc, hallowed, -, -⟩ := handleClientWrq_write_iff.mp h
    exact ⟨bytes, request, mode, hdata, hreq, hc, hallowed⟩
  · rintro ⟨bytes, request, mode, hdata, hreq, hc, hallowed⟩
    exact ⟨_, _, handleClient_write_iff.mpr ⟨bytes, hdata,
      handleClientWrq_write_iff.mpr ⟨request, mode, hreq, hc, hallowed, rfl, rfl⟩⟩⟩

theorem startsWrite_processTftpPacket_iff :
    EntryPoint.StartsWrite env t glob config order .processTftpPacket data p ↔
    ∃ bytes request mode, getU16 data = some (Opcode.wrq.toU16, bytes) ∧
      parseRequestPacket parseNullTerminatedString bytes = .ok request ∧
      WrqChecked env t config request mode p := by
  constructor
  · rintro ⟨q, created, h⟩
    obtain ⟨bytes, hdata, h⟩ := processTftpPacket_write_iff.mp h
    obtain ⟨request, mode, hreq, hc, -, -⟩ := handleWriteRequestWorker_write_iff.mp h
    exact ⟨bytes, request, mode, hdata, hreq, hc⟩
  · rintro ⟨bytes, request, mode, hdata, hreq, hc⟩
    exact ⟨_, _, processTftpPacket_write_iff.mpr ⟨bytes, hdata,
      handleWriteRequestWorker_write_iff.mpr ⟨request, mode, hreq, hc, rfl, rfl⟩⟩⟩

end Policy

/-- **When writes obey the policy.** Every write that `handle_client` starts does; the worker
pool does not look at the patterns, so a write request that passes its checks starts a write
that obeys the policy only if the path is allowed anyway. -/
theorem writes_obey_policy_iff (env : Env) (t : Tree) (glob : Glob) (config : ServerConfig)
    (order : IterOrder) (entry : EntryPoint) (data : Bytes) :
    (∀ p, entry.StartsWrite env t glob config order data p →
      WritePolicy env t glob config entry.parser data p) ↔
    entry = .handleClient ∨
    ∀ bytes request mode p, getU16 data = some (Opcode.wrq.toU16, bytes) →
      parseRequestPacket parseNullTerminatedString bytes = .ok request →
      WrqChecked env t config request mode p →
      isWriteAllowed glob p config.rootDir config.writeConfig = true := by
  cases entry with
  | handleClient =>
      refine ⟨fun _ => Or.inl rfl, fun _ p h => ?_⟩
      obtain ⟨bytes, request, mode, hdata, hreq, hc, hallowed⟩ :=
        startsWrite_handleClient_iff.mp h
      exact (hc.policy hdata hreq).mpr hallowed
  | processTftpPacket =>
      constructor
      · intro h
        right
        intro bytes request mode p hdata hreq hc
        refine (hc.policy hdata hreq).mp (h p ?_)
        exact startsWrite_processTftpPacket_iff.mpr ⟨bytes, request, mode, hdata, hreq, hc⟩
      · rintro (h | h) p hstart
        · cases h
        · obtain ⟨bytes, request, mode, hdata, hreq, hc⟩ :=
            startsWrite_processTftpPacket_iff.mp hstart
          exact (hc.policy hdata hreq).mpr (h bytes request mode p hdata hreq hc)

/-- Patterns that are a star and a literal, or a literal. -/
def suffixGlob : Glob where
  Pattern := List Char
  new := fun pattern => some pattern.toList
  matchesStr := fun pattern s =>
    match pattern with
    | '*' :: literal => literal.isSuffixOf s.toList
    | literal => literal = s.toList

/-- Only `*.txt` may be written, and the worker pool starts a write to `secret.bin`. -/
theorem worker_ignores_patterns :
    let env : Env := ⟨[], 40⟩
    let t := emptyRoot
    let config : ServerConfig := ⟨ofString "/srv/tftp", ⟨true, false, ["*.txt"]⟩, 0, 1, false⟩
    let data := putU16 Opcode.wrq.toU16 ++ (cstring "secret.bin" ++ (cstring "octet" ++ []))
    ¬ ∀ p, EntryPoint.StartsWrite env t suffixGlob config .entries .processTftpPacket data p →
      WritePolicy env t suffixGlob config parseNullTerminatedString data p := by
  intro env t config data h
  have hdata : getU16 data
      = some (Opcode.wrq.toU16, cstring "secret.bin" ++ (cstring "octet" ++ [])) :=
    getU16_putU16 _ _
  have hreq := parseRequestPacket_cstring
    (reads_parseNullTerminatedString (s := "secret.bin") (by decide))
    (reads_parseNullTerminatedString (s := "octet") (by decide)) []
  have hc : WrqChecked env t config
      ⟨"secret.bin", "octet", parseOptions parseNullTerminatedString []⟩ .octet
      (ofString "/srv/tftp/secret.bin") :=
    ⟨rfl, by decide, by decide, by decide +kernel, by decide +kernel⟩
  have hpolicy := h _ (startsWrite_processTftpPacket_iff.mpr ⟨_, _, _, hdata, hreq, hc⟩)
  have hallowed := (hc.policy hdata hreq).mp hpolicy
  exact absurd hallowed (by decide +kernel)

end UsgTftp
